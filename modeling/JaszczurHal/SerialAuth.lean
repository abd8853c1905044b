import JaszczurHal.SerialSession

/-!
# Bootloader authentication of the serial session

Read off what a session did so far: which challenge is open, and which proof
was accepted since. The session's own flags say no more than that.
-/

set_option autoImplicit false

namespace JaszczurHal.SerialAuth
open JaszczurHal.SerialFrame JaszczurHal.SerialSession

def isReset : Event → Bool
  | .hello _ | .bye | .authBegin _ => true
  | _ => false

def isProof : Event → Bool
  | .authProve _ _ => true
  | _ => false

def currentId (log : List Event) : Option UInt32 :=
  log.reverse.findSome? fun
    | .hello sessionId => some sessionId
    | _ => none

def Carries (hmac : Hmac) (uid : Vector UInt8 deviceUidBytes) (args : List UInt8)
    (challenge : Challenge) (sessionId : UInt32) : Prop :=
  ∃ key mac, deriveDeviceKey hmac uid.toList = some key ∧
    computeResponse hmac key challenge sessionId = some mac ∧
    (proveField args).length = responseBytes*2 ∧
    hexDecode responseBytes (proveField args) = some mac.toList

def Open (log : List Event) (challenge : Challenge) : Prop :=
  ∃ before mid, log = before ++ .authBegin (some challenge) :: mid ∧
    ∀ e ∈ mid, isReset e = false ∧ isProof e = false

/-- The proof was the first attempt at the challenge of the last `AUTH_BEGIN`,
and carried its MAC for the session id of the last `HELLO`. -/
def Proof (hmac : Hmac) (uid : Vector UInt8 deviceUidBytes) (log : List Event)
    (args : List UInt8) : Prop :=
  ∃ challenge sessionId, Open log challenge ∧ currentId log = some sessionId ∧
    Carries hmac uid args challenge sessionId

def Authorized (hmac : Hmac) (uid : Vector UInt8 deviceUidBytes) (log : List Event) : Prop :=
  ∃ before args after, log = before ++ .authProve args true :: after ∧
    (∀ e ∈ after, isReset e = false) ∧ Proof hmac uid before args

section Logs

variable {log : List Event} {challenge : Challenge} {hmac : Hmac}
  {uid : Vector UInt8 deviceUidBytes}

theorem Open.append (h : Open log challenge) {events : List Event}
    (hevents : ∀ e ∈ events, isReset e = false ∧ isProof e = false) :
    Open (log ++ events) challenge := by
  obtain ⟨before, mid, rfl, hmid⟩ := h
  refine ⟨before, mid ++ events, by simp, fun e he => ?_⟩
  rcases List.mem_append.mp he with he | he
  · exact hmid e he
  · exact hevents e he

theorem Authorized.append (h : Authorized hmac uid log) {events : List Event}
    (hevents : ∀ e ∈ events, isReset e = false) : Authorized hmac uid (log ++ events) := by
  obtain ⟨before, args, after, rfl, hafter, hproof⟩ := h
  refine ⟨before, args, after ++ events, by simp, fun e he => ?_, hproof⟩
  rcases List.mem_append.mp he with he | he
  · exact hafter e he
  · exact hevents e he

theorem currentId_append (log : List Event) {events : List Event}
    (hevents : ∀ e ∈ events, isReset e = false) : currentId (log ++ events) = currentId log := by
  rw [currentId, List.reverse_append, List.findSome?_append]
  have hnone : events.reverse.findSome? (fun
      | .hello sessionId => some sessionId
      | _ => none) = (none : Option UInt32) := by
    rw [List.findSome?_eq_none_iff]
    intro e he
    have hquiet := hevents e (List.mem_reverse.mp he)
    cases e <;> simp_all [isReset]
  rw [hnone]
  rfl

theorem currentId_hello (log : List Event) (sessionId : UInt32) {events : List Event}
    (hevents : ∀ e ∈ events, isReset e = false) :
    currentId (log ++ .hello sessionId :: events) = some sessionId := by
  have hsplit : log ++ .hello sessionId :: events = (log ++ [.hello sessionId]) ++ events := by
    simp
  rw [hsplit, currentId_append _ hevents, currentId, List.reverse_append]
  rfl

end Logs

def Allowed (hmac : Hmac) (uid : Vector UInt8 deviceUidBytes) (log : List Event) : Event → Prop
  | .enterBootloader => Authorized hmac uid log
  | .authProve args true => Proof hmac uid log args
  | _ => True

def Justified (hmac : Hmac) (uid : Vector UInt8 deviceUidBytes) :
    List Event → List Event → Prop
  | _, [] => True
  | log, e :: es => Allowed hmac uid log e ∧ Justified hmac uid (log ++ [e]) es

theorem justified_append (hmac : Hmac) (uid : Vector UInt8 deviceUidBytes)
    (log es es' : List Event) :
    Justified hmac uid log (es ++ es') ↔
      Justified hmac uid log es ∧ Justified hmac uid (log ++ es) es' := by
  induction es generalizing log with
  | nil => simp [Justified]
  | cons e es ih => simp [Justified, ih, and_assoc]

structure AuthInv (hmac : Hmac) (s : Session) (log : List Event) : Prop where
  active : s.active = true → currentId log = some s.sessionId
  pending : s.challengePending = true → s.active = true ∧ Open log s.challenge
  authenticated : s.authenticated = true →
    s.active = true ∧ Authorized hmac s.identity.uidBytes log

/-- A step that keeps the flags true to the log, by events that are allowed. -/
def Kept (hmac : Hmac) (uid : Vector UInt8 deviceUidBytes) (log : List Event)
    (result : Session × List Event) : Prop :=
  AuthInv hmac result.1 (log ++ result.2) ∧ Justified hmac uid log result.2 ∧
    result.1.identity.uidBytes = uid

def isLine : Event → Bool
  | .line _ => true
  | _ => false

theorem isLine_quiet {e : Event} (h : isLine e = true) :
    isReset e = false ∧ isProof e = false := by
  cases e <;> simp_all [isLine, isReset, isProof]

theorem println_lines (s : Session) (payload : Option (List UInt8)) :
    ∀ e ∈ println s payload, isLine e = true := by
  intro e he
  cases payload with
  | none => cases he
  | some payload =>
    simp only [println] at he
    split at he
    · cases he
    · obtain ⟨framed, _, rfl⟩ := List.mem_map.mp he
      rfl

section Steps

variable {hmac : Hmac} {s : Session} {log : List Event}

theorem justified_lines (uid : Vector UInt8 deviceUidBytes) (log : List Event)
    {events : List Event} (h : ∀ e ∈ events, isLine e = true) :
    Justified hmac uid log events := by
  induction events generalizing log with
  | nil => trivial
  | cons e events ih =>
    have he := h e List.mem_cons_self
    refine ⟨?_, ih _ fun e' he' => h e' (List.mem_cons_of_mem _ he')⟩
    cases e <;> simp_all [isLine, Allowed]

theorem AuthInv.lines (h : AuthInv hmac s log) {events : List Event}
    (hlines : ∀ e ∈ events, isLine e = true) : AuthInv hmac s (log ++ events) where
  active hactive := by
    rw [currentId_append _ fun e he => (isLine_quiet (hlines e he)).1]
    exact h.active hactive
  pending hpending :=
    ⟨(h.pending hpending).1, (h.pending hpending).2.append fun e he => isLine_quiet (hlines e he)⟩
  authenticated hauth :=
    ⟨(h.authenticated hauth).1,
      (h.authenticated hauth).2.append fun e he => (isLine_quiet (hlines e he)).1⟩

theorem kept_lines (h : AuthInv hmac s log) (payload : Option (List UInt8)) :
    Kept hmac s.identity.uidBytes log (s, println s payload) :=
  ⟨h.lines (println_lines s payload), justified_lines _ _ (println_lines s payload), rfl⟩

theorem kept_event {s' : Session} {e : Event} {uid : Vector UInt8 deviceUidBytes}
    (hinv : AuthInv hmac s' (log ++ [e])) (hallowed : Allowed hmac uid log e)
    (huid : s'.identity.uidBytes = uid) {events : List Event}
    (hlines : ∀ e ∈ events, isLine e = true) : Kept hmac uid log (s', e :: events) := by
  refine ⟨?_, ⟨hallowed, justified_lines _ _ hlines⟩, huid⟩
  have hkeep := hinv.lines hlines
  rwa [List.append_assoc] at hkeep

/-- A session that is neither authenticated nor waiting for a proof. -/
theorem AuthInv.fresh (hactive : s.active = true → currentId log = some s.sessionId)
    (hpending : s.challengePending = false) (hauth : s.authenticated = false) :
    AuthInv hmac s log where
  active := hactive
  pending h := by
    rw [hpending] at h
    cases h
  authenticated h := by
    rw [hauth] at h
    cases h

theorem kept_hello (s : Session) (log : List Event) (moment : Moment) :
    Kept hmac s.identity.uidBytes log (handleHello s moment) := by
  refine kept_event (AuthInv.fresh (fun _ => ?_) rfl rfl) ?_ rfl (println_lines _ _)
  · exact currentId_hello log _ (by simp)
  · trivial

theorem kept_bye (s : Session) (log : List Event) (moment : Moment) :
    Kept hmac s.identity.uidBytes log (handleBye s moment) := by
  refine kept_event (AuthInv.fresh (fun hactive => ?_) rfl rfl) ?_ rfl (println_lines _ _)
  · cases hactive
  · trivial

theorem currentId_snoc (log : List Event) {e : Event} (h : ∀ id, e ≠ .hello id) :
    currentId (log ++ [e]) = currentId log := by
  rw [currentId, List.reverse_append]
  cases e with
  | hello id => exact absurd rfl (h id)
  | _ => rfl

theorem kept_authBegin (h : AuthInv hmac s log) (moment : Moment) :
    Kept hmac s.identity.uidBytes log (handleAuthBegin s moment) := by
  rw [handleAuthBegin]
  by_cases hactive : s.active = true
  · simp only [hactive, Bool.not_true, Bool.false_eq_true, if_false]
    cases hrandom : moment.random with
    | none =>
      refine kept_event (AuthInv.fresh (fun _ => ?_) rfl rfl) ?_ rfl (println_lines _ _)
      · exact (currentId_snoc log (by simp)).trans (h.active hactive)
      · trivial
    | some challenge =>
      simp only [generateChallenge, Bool.not_true, Bool.false_eq_true, if_false]
      refine kept_event ?_ ?_ rfl (println_lines _ _)
      · refine ⟨fun _ => ?_, fun _ => ⟨hactive, log, [], rfl, by simp⟩, fun hauth => ?_⟩
        · exact (currentId_snoc log (by simp)).trans (h.active hactive)
        · cases hauth
      · trivial
  · have hidle := Bool.eq_false_iff.mpr hactive
    simp only [hidle, Bool.not_false, if_true]
    refine kept_event (AuthInv.fresh (fun hactive' => absurd hactive' hactive) ?_ ?_) ?_ rfl
      (println_lines _ _)
    · exact Bool.eq_false_iff.mpr fun hpending => hactive (h.pending hpending).1
    · exact Bool.eq_false_iff.mpr fun hauth => hactive (h.authenticated hauth).1
    · trivial

theorem checkProof_carries {args : List UInt8} {reply : Option (List UInt8)}
    (h : checkProof hmac s args = (true, reply)) :
    Carries hmac s.identity.uidBytes args s.challenge s.sessionId := by
  simp only [checkProof] at h
  split at h
  · cases h
  · rename_i hlength
    cases hdecode : hexDecode responseBytes (proveField args) with
    | none => simp [hdecode] at h
    | some provided =>
      cases hkey : deriveDeviceKey hmac s.identity.uidBytes.toList with
      | none => simp [hdecode, hkey] at h
      | some key =>
        cases hmac' : computeResponse hmac key s.challenge s.sessionId with
        | none => simp [hdecode, hkey, hmac'] at h
        | some expected =>
          simp only [hdecode, hkey, hmac'] at h
          split at h
          · cases h
          · rename_i hequal
            refine ⟨key, expected, hkey, hmac', not_not.mp hlength, ?_⟩
            rw [hdecode, not_not.mp hequal]

/-- A rejected attempt at no challenge leaves the session as it was. -/
theorem AuthInv.refused (h : AuthInv hmac s log) (hidle : s.challengePending = false)
    (args : List UInt8) : AuthInv hmac s (log ++ [.authProve args false]) where
  active hactive := (currentId_snoc log (by simp)).trans (h.active hactive)
  pending hpending := by
    rw [hidle] at hpending
    cases hpending
  authenticated hauth :=
    ⟨(h.authenticated hauth).1, (h.authenticated hauth).2.append (by simp [isReset])⟩

theorem kept_authProve (h : AuthInv hmac s log) (args : List UInt8) :
    Kept hmac s.identity.uidBytes log (handleAuthProve hmac s args) := by
  rw [handleAuthProve]
  by_cases hactive : s.active = true
  · simp only [hactive, Bool.not_true, Bool.false_eq_true, if_false]
    by_cases hpending : s.challengePending = true
    · simp only [hpending, Bool.not_true, Bool.false_eq_true, if_false]
      obtain ⟨_, hopen⟩ := h.pending hpending
      have hid := h.active hactive
      cases hcheck : checkProof hmac s args with
      | mk accepted reply =>
        cases accepted with
        | false =>
          refine kept_event (AuthInv.fresh (fun _ => ?_) rfl rfl) ?_ rfl (println_lines _ _)
          · exact (currentId_snoc log (by simp)).trans hid
          · trivial
        | true =>
          have hproof : Proof hmac s.identity.uidBytes log args :=
            ⟨s.challenge, s.sessionId, hopen, hid, checkProof_carries hcheck⟩
          refine kept_event ?_ ?_ rfl (println_lines _ _)
          · refine ⟨fun _ => ?_, fun hpending => ?_,
              fun _ => ⟨rfl, log, args, [], rfl, by simp, hproof⟩⟩
            · exact (currentId_snoc log (by simp)).trans hid
            · cases hpending
          · exact hproof
    · have hidle := Bool.eq_false_iff.mpr hpending
      simp only [hidle, Bool.not_false, if_true]
      refine kept_event (h.refused hidle args) ?_ rfl (println_lines _ _)
      trivial
  · have hinactive := Bool.eq_false_iff.mpr hactive
    have hidle : s.challengePending = false :=
      Bool.eq_false_iff.mpr fun hpending => hactive (h.pending hpending).1
    simp only [hinactive, Bool.not_false, if_true]
    refine kept_event (h.refused hidle args) ?_ rfl (println_lines _ _)
    trivial

theorem kept_reboot (h : AuthInv hmac s log) :
    Kept hmac s.identity.uidBytes log (handleRebootBootloader s) := by
  rw [handleRebootBootloader]
  by_cases hauth : s.authenticated = true
  · simp only [hauth, Bool.not_true, Bool.false_eq_true, if_false]
    have hreply := kept_lines h s.identity.vocab.replyRebootOk
    obtain ⟨hactive, hauthorized⟩ := hreply.1.authenticated hauth
    refine ⟨⟨fun _ => ?_, fun hpending => ?_, fun _ => ⟨hactive, ?_⟩⟩, ?_, rfl⟩
    · rw [← List.append_assoc]
      exact (currentId_snoc _ (by simp)).trans (hreply.1.active hactive)
    · refine ⟨hactive, ?_⟩
      rw [← List.append_assoc]
      exact (hreply.1.pending hpending).2.append (by simp [isReset, isProof])
    · rw [← List.append_assoc]
      exact hauthorized.append (by simp [isReset])
    · rw [justified_append]
      exact ⟨hreply.2.1, hauthorized, trivial⟩
  · have hunauth := Bool.eq_false_iff.mpr hauth
    simp only [hunauth, Bool.not_false, if_true]
    exact kept_lines h _

theorem kept_unknown (h : AuthInv hmac s log) (handler : UnknownHandler) (inner : List UInt8) :
    Kept hmac s.identity.uidBytes log (s, [.unknown handler inner]) := by
  refine kept_event ⟨fun hactive => ?_, fun hpending => ?_, fun hauth => ?_⟩ ?_ rfl (by simp)
  · exact (currentId_snoc log (by simp)).trans (h.active hactive)
  · exact ⟨(h.pending hpending).1,
      (h.pending hpending).2.append (by simp [isReset, isProof])⟩
  · exact ⟨(h.authenticated hauth).1, (h.authenticated hauth).2.append (by simp [isReset])⟩
  · trivial

theorem kept_dispatch (h : AuthInv hmac s log) (inner : List UInt8) (moment : Moment) :
    Kept hmac s.identity.uidBytes log (dispatchInner hmac s inner moment) := by
  rw [dispatchInner]
  by_cases hhello : inner = bytes "HELLO"
  · rw [if_pos hhello]
    exact kept_hello s log moment
  · rw [if_neg hhello]
    by_cases hbye : s.identity.vocab.cmdBye = some inner
    · rw [if_pos hbye]
      exact kept_bye s log moment
    · rw [if_neg hbye]
      by_cases hbegin : s.identity.vocab.cmdAuthBegin = some inner
      · rw [if_pos hbegin]
        exact kept_authBegin h moment
      · rw [if_neg hbegin]
        cases proveArgs s.identity.vocab inner with
        | some args => exact kept_authProve h args
        | none =>
          dsimp only
          by_cases hreboot : s.identity.vocab.cmdRebootBootloader = some inner
          · rw [if_pos hreboot]
            exact kept_reboot h
          · rw [if_neg hreboot]
            cases s.unknownHandler with
            | some handler => exact kept_unknown h handler inner
            | none => exact kept_lines h _

theorem kept_nothing (h : AuthInv hmac s log) :
    Kept hmac s.identity.uidBytes log (s, []) := by
  refine ⟨?_, trivial, rfl⟩
  rw [List.append_nil]
  exact h

theorem kept_byte (h : AuthInv hmac s log) (character : UInt8) (moment : Moment) :
    Kept hmac s.identity.uidBytes log (pollByte hmac s character moment) := by
  rw [pollByte]
  split
  · split
    · exact kept_nothing (s := { s with line := s.line ++ [character] })
        ⟨h.active, h.pending, h.authenticated⟩
    · exact kept_nothing h
  · split
    · exact kept_nothing h
    · have hinv : AuthInv hmac { s with line := [] } log :=
        ⟨h.active, h.pending, h.authenticated⟩
      dsimp only
      split
      · exact kept_nothing hinv
      · cases decode (cString s.line) (maxLine+1) with
        | none => exact kept_nothing hinv
        | some found =>
          have hrequest : AuthInv hmac
              { s with line := [], inRequest := true, requestSeq := found.1 } log :=
            ⟨h.active, h.pending, h.authenticated⟩
          obtain ⟨hafter, hjustified, huid⟩ := kept_dispatch hrequest found.2 moment
          exact ⟨⟨hafter.active, hafter.pending, hafter.authenticated⟩, hjustified, huid⟩

theorem kept_step (h : AuthInv hmac s log) (input : Input) :
    Kept hmac s.identity.uidBytes log (step hmac s input) := by
  cases input with
  | byte character moment => exact kept_byte h character moment
  | setUnknownHandler handler =>
    exact kept_nothing (s := { s with unknownHandler := handler })
      ⟨h.active, h.pending, h.authenticated⟩

theorem kept_run (h : AuthInv hmac s log) (inputs : List Input) :
    Kept hmac s.identity.uidBytes log (run hmac s inputs) := by
  induction inputs generalizing s log with
  | nil => exact kept_nothing h
  | cons input inputs ih =>
    obtain ⟨hinv, hjustified, huid⟩ := kept_step h input
    obtain ⟨hinv', hjustified', huid'⟩ := ih hinv
    rw [huid] at hjustified' huid'
    refine ⟨?_, (justified_append ..).mpr ⟨hjustified, hjustified'⟩, huid'⟩
    rw [List.append_assoc] at hinv'
    exact hinv'

end Steps

theorem inv_init (hmac : Hmac) (moduleTag fwVersion buildId : Option (List UInt8))
    (uidBytes : Vector UInt8 deviceUidBytes) (uidHex : Option (List UInt8))
    (vocab : Option Vocabulary) :
    AuthInv hmac (init moduleTag fwVersion buildId uidBytes uidHex vocab) [] where
  active h := by cases h
  pending h := by cases h
  authenticated h := by cases h

theorem justified_at {hmac : Hmac} {uid : Vector UInt8 deviceUidBytes} {before after : List Event}
    {e : Event} (h : Justified hmac uid [] (before ++ e :: after)) : Allowed hmac uid before e := by
  rw [justified_append] at h
  exact h.2.1

/-- The challenge that is open after a proof was issued after it. -/
theorem Open.since {before mid : List Event} {args : List UInt8} {challenge : Challenge}
    (h : Open (before ++ .authProve args true :: mid) challenge) :
    .authBegin (some challenge) ∈ mid := by
  obtain ⟨before', mid', heq, hquiet⟩ := h
  rcases List.append_eq_append_iff.mp heq with ⟨gap, _, htail⟩ | ⟨gap, _, htail⟩
  · cases gap with
    | nil => cases htail
    | cons e gap =>
      obtain ⟨_, rfl⟩ := List.cons.inj htail
      simp
  · cases gap with
    | nil => cases htail
    | cons e gap =>
      obtain ⟨_, rfl⟩ := List.cons.inj htail
      have hproof := (hquiet (.authProve args true) (by simp)).2
      cases hproof

/-- The bootloader is entered only after an accepted proof with no `HELLO`,
`BYE` or `AUTH_BEGIN` since, and a proof is accepted only as the first attempt
at the challenge of the last `AUTH_BEGIN`, carrying its MAC for the current
session id. So two accepted proofs answer two challenges. -/
theorem bootloader_authenticated (hmac : Hmac) (moduleTag fwVersion buildId : Option (List UInt8))
    (uidBytes : Vector UInt8 deviceUidBytes) (uidHex : Option (List UInt8))
    (vocab : Option Vocabulary) (inputs : List Input) :
    let log := (run hmac (init moduleTag fwVersion buildId uidBytes uidHex vocab) inputs).2
    (∀ before after, log = before ++ .enterBootloader :: after →
      Authorized hmac uidBytes before) ∧
    (∀ before args after, log = before ++ .authProve args true :: after →
      Proof hmac uidBytes before args) ∧
    (∀ before args mid args' after,
      log = before ++ .authProve args true :: mid ++ .authProve args' true :: after →
        ∃ challenge, .authBegin (some challenge) ∈ mid) := by
  intro log
  obtain ⟨_, hjustified, _⟩ :=
    kept_run (inv_init hmac moduleTag fwVersion buildId uidBytes uidHex vocab) inputs
  change Justified hmac uidBytes [] log at hjustified
  have hproof : ∀ before args after, log = before ++ .authProve args true :: after →
      Proof hmac uidBytes before args := by
    intro before args after hlog
    rw [hlog] at hjustified
    exact justified_at hjustified
  refine ⟨fun before after hlog => ?_, hproof, fun before args mid args' after hlog => ?_⟩
  · rw [hlog] at hjustified
    exact justified_at hjustified
  · obtain ⟨challenge, _, hopen, _, _⟩ := hproof _ args' after hlog
    exact ⟨challenge, hopen.since⟩

end JaszczurHal.SerialAuth
