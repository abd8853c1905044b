import JaszczurHal.BtClassic

/-!
# Bonding and the consent of the user

The calls that accept or reject a pairing, save a peer and flush it run in
locked sections, and the backend may report between any two of them. A log of
what the user and the peer did says which link keys may be stored.
-/

set_option autoImplicit false

namespace JaszczurHal.BtPairing
open HalStatus BondCodec BtClassic

/-- What the user, the peer and the backend did. `asked` stands where an
authorize call reads the address of the request, `answered` where it ends. -/
inductive Mark where
  | request (address : Address)
  | failed
  | rejected
  | asked (address : Address)
  | answered (accepted : Bool)
  | key (k : PendingKey)
  deriving DecidableEq, Repr

inductive Phase where
  | idle
  | sampled (address : Address)
  | replying (address : Address)
  | approving (address : Address)
  | rejecting
  | denying
  | polling
  | polled
  | flushing (job : FlushJob)
  deriving DecidableEq, Repr

structure Exchange where
  classic : Classic
  phase : Phase
  log : List Mark

inductive Call where
  | authorize
  | reject
  | save (address : Address) (profileId : UInt16)
  | poll

/-- A report of the backend, a call, or the next section of the call that runs,
with what the backend returned to it. -/
inductive Move where
  | event (e : BackendEvent)
  | call (c : Call)
  | advance (status : Status)

def eventMarks : BackendEvent → List Mark
  | .pairingRequest address => [.request address]
  | .authentication status => if status = .ok then [] else [.failed]
  | .linkKey key => [.key key]

def start (x : Exchange) : Call → Exchange
  | .authorize =>
    if x.classic.opened = false then x
    else
      match x.classic.pairing with
      | none => x
      | some address => { x with phase := .sampled address, log := x.log ++ [.asked address] }
  | .reject =>
    if x.classic.opened = false ∨ x.classic.pairing = none then x
    else { x with phase := .rejecting, log := x.log ++ [.rejected] }
  | .save address profileId => { x with classic := (peerSave x.classic address profileId).1 }
  | .poll =>
    if (beginOperation x.classic).2 = .ok then
      { x with classic := (beginOperation x.classic).1, phase := .polling }
    else x

def advance (x : Exchange) (status : Status) : Exchange :=
  match x.phase with
  | .idle => x
  | .sampled address =>
    if (beginOperation x.classic).2 = .ok then
      { x with classic := (beginOperation x.classic).1, phase := .replying address }
    else { x with phase := .idle, log := x.log ++ [.answered false] }
  | .replying address =>
    if status = .ok then { x with classic := endOperation x.classic, phase := .approving address }
    else { classic := endOperation x.classic, phase := .idle, log := x.log ++ [.answered false] }
  | .approving address =>
    { classic := recordApproval x.classic address, phase := .idle, log := x.log ++ [.answered true] }
  | .rejecting =>
    if (beginOperation x.classic).2 = .ok then
      { x with classic := (beginOperation x.classic).1, phase := .denying }
    else { x with phase := .idle }
  | .denying => { x with classic := endOperation x.classic, phase := .idle }
  | .polling =>
    { x with classic := endOperation x.classic, phase := if status = .ok then .polled else .idle }
  | .polled =>
    match flushBegin x.classic with
    | (c, .ok (some job)) => { x with classic := c, phase := .flushing job }
    | (c, _) => { x with classic := c, phase := .idle }
  | .flushing job => { x with classic := flushEnd x.classic job status, phase := .idle }

def step (x : Exchange) : Move → Exchange
  | .event e => { x with classic := backendEvent x.classic e, log := x.log ++ eventMarks e }
  | .call c => if x.phase = .idle then start x c else x
  | .advance status => advance x status

def run (x : Exchange) (moves : List Move) : Exchange := moves.foldl step x

def Spoils (address : Address) : Mark → Prop
  | .request other => other ≠ address
  | .failed => True
  | .rejected => True
  | _ => False

def Mark.answer : Mark → Option Bool
  | .answered accepted => some accepted
  | _ => none

def ending (marks : List Mark) : Option Bool := marks.findSome? Mark.answer

def Standing (log : List Mark) (address : Address) : Prop :=
  ∃ before since, log = before ++ .asked address :: since ∧ (∀ m ∈ since, ¬Spoils address m) ∧
    ending since = some true

def Asking (log : List Mark) (address : Address) : Prop :=
  ∃ before since, log = before ++ .asked address :: since ∧ (∀ m ∈ since, ¬Spoils address m) ∧
    ending since = none

def Warranted (log : List Mark) (k : PendingKey) : Prop :=
  ∃ before between after, log = before ++ .asked k.address :: (between ++ .key k :: after) ∧
    (∀ m ∈ between, ¬Spoils k.address m) ∧ ending (between ++ .key k :: after) = some true

/-- The key came under a consent to its address that is not settled. -/
def Promised (log : List Mark) (k : PendingKey) : Prop :=
  ∃ before between after, log = before ++ .asked k.address :: (between ++ .key k :: after) ∧
    (∀ m ∈ between, ¬Spoils k.address m) ∧ ending (between ++ .key k :: after) = none

def Authorised (x : Exchange) : Prop :=
  x.phase = .polled → ∀ c job, flushBegin x.classic = (c, .ok (some job)) →
    Warranted x.log ⟨job.identity.address, job.identity.linkKey, job.identity.linkKeyType⟩

/-- No request is rejected while an approval is recorded; no key of an address
arrives without consent while a save of it waits; and when an approval is
recorded, nothing spoiled it in its call, and a key of that address that waits
came under a consent. -/
def Clean (x : Exchange) : Move → Prop
  | .event (.linkKey k) =>
    ∀ profileId, x.classic.pendingSave = some (k.address, profileId) → Standing x.log k.address
  | .event _ => True
  | .call .reject => x.phase = .idle → x.classic.pairing ≠ none → x.classic.approved = none
  | .call _ => True
  | .advance _ => ∀ address, x.phase = .approving address →
      Asking x.log address ∧
      ∀ k, x.classic.pendingKey = some k → k.address = address →
        Warranted x.log k ∨ Promised x.log k

def AllClean (x : Exchange) : List Move → Prop
  | [] => True
  | m :: moves => Clean x m ∧ AllClean (step x m) moves

structure Fresh (c : Classic) : Prop where
  opened : c.opened = true
  approved : c.approved = none
  pendingKey : c.pendingKey = none
  pendingSave : c.pendingSave = none

theorem ending_append (a b : List Mark) : ending (a ++ b) = (ending a).or (ending b) :=
  List.findSome?_append

theorem ending_kept {a : List Mark} {accepted : Bool} (h : ending a = some accepted) (b : List Mark) :
    ending (a ++ b) = some accepted := by
  rw [ending_append, h]
  rfl

theorem unspoiled_append {address : Address} {since marks : List Mark}
    (h : ∀ m ∈ since, ¬Spoils address m) (hmarks : ∀ m ∈ marks, ¬Spoils address m) :
    ∀ m ∈ since ++ marks, ¬Spoils address m := by
  intro m hm
  rcases List.mem_append.mp hm with hm | hm
  · exact h m hm
  · exact hmarks m hm

theorem standing_grows {log marks : List Mark} {address : Address} (h : Standing log address)
    (hmarks : ∀ m ∈ marks, ¬Spoils address m) : Standing (log ++ marks) address := by
  obtain ⟨before, since, rfl, hsince, hending⟩ := h
  exact ⟨before, since ++ marks, by simp, unspoiled_append hsince hmarks, ending_kept hending marks⟩

theorem standing_answered {log : List Mark} {address : Address} (h : Asking log address) :
    Standing (log ++ [.answered true]) address := by
  obtain ⟨before, since, rfl, hsince, hending⟩ := h
  refine ⟨before, since ++ [.answered true], by simp, unspoiled_append hsince ?_, ?_⟩
  · intro m hm
    rw [List.mem_singleton.mp hm]
    exact not_false
  · rw [ending_append, hending]
    rfl

theorem warranted_grows {log : List Mark} {k : PendingKey} (h : Warranted log k) (marks : List Mark) :
    Warranted (log ++ marks) k := by
  obtain ⟨before, between, after, rfl, hbetween, hending⟩ := h
  refine ⟨before, between, after ++ marks, by simp, hbetween, ?_⟩
  have hkept := ending_kept hending marks
  rwa [List.append_assoc, List.cons_append] at hkept

theorem warranted_received {log : List Mark} {k : PendingKey} (h : Standing log k.address) :
    Warranted (log ++ [.key k]) k := by
  obtain ⟨before, since, rfl, hsince, hending⟩ := h
  exact ⟨before, since, [], by simp, hsince, ending_kept hending [.key k]⟩

theorem warranted_answered {log : List Mark} {k : PendingKey} (h : Promised log k) :
    Warranted (log ++ [.answered true]) k := by
  obtain ⟨before, between, after, rfl, hbetween, hending⟩ := h
  refine ⟨before, between, after ++ [.answered true], by simp, hbetween, ?_⟩
  rw [← List.cons_append, ← List.append_assoc, ending_append, hending]
  rfl

/-- An approval has the consent of the user; a key that waits for a save or may
be saved was received under one. -/
structure Consented (x : Exchange) : Prop where
  opened : x.classic.opened = true
  approved : ∀ address, x.classic.approved = some address → Standing x.log address
  staged : ∀ k profileId, x.classic.pendingKey = some k →
    x.classic.pendingSave = some (k.address, profileId) → Warranted x.log k
  ready : ∀ k, x.classic.pendingKey = some k → x.classic.approved = some k.address →
    Warranted x.log k

/-- Another section that touches none of approval, key and save. -/
theorem consented_frame {x : Exchange} (h : Consented x) {c : Classic} {marks : List Mark}
    (phase : Phase) (hopened : c.opened = x.classic.opened)
    (happroved : c.approved = x.classic.approved) (hkey : c.pendingKey = x.classic.pendingKey)
    (hsave : c.pendingSave = x.classic.pendingSave)
    (hmarks : ∀ address, x.classic.approved = some address → ∀ m ∈ marks, ¬Spoils address m) :
    Consented ⟨c, phase, x.log ++ marks⟩ where
  opened := hopened.trans h.opened
  approved := by
    intro address haddress
    have hbefore := happroved.symm.trans haddress
    exact standing_grows (h.approved address hbefore) (hmarks address hbefore)
  staged := by
    intro k profileId hk hsaved
    exact warranted_grows (h.staged k profileId (hkey.symm.trans hk) (hsave.symm.trans hsaved)) marks
  ready := by
    intro k hk haddress
    exact warranted_grows (h.ready k (hkey.symm.trans hk) (happroved.symm.trans haddress)) marks

theorem consented_quiet {x : Exchange} (h : Consented x) {c : Classic} (phase : Phase)
    (hopened : c.opened = x.classic.opened) (happroved : c.approved = x.classic.approved)
    (hkey : c.pendingKey = x.classic.pendingKey) (hsave : c.pendingSave = x.classic.pendingSave) :
    Consented { x with classic := c, phase := phase } := by
  have hframe : Consented ⟨c, phase, x.log ++ []⟩ :=
    consented_frame h phase hopened happroved hkey hsave fun _ _ m hm => absurd hm List.not_mem_nil
  rwa [List.append_nil] at hframe

theorem consented_withdrawn {x : Exchange} (h : Consented x) {c : Classic} (phase : Phase)
    (marks : List Mark) (hopened : c.opened = x.classic.opened) (happroved : c.approved = none)
    (hkey : c.pendingKey = x.classic.pendingKey) (hsave : c.pendingSave = x.classic.pendingSave) :
    Consented ⟨c, phase, x.log ++ marks⟩ where
  opened := hopened.trans h.opened
  approved := by
    intro address haddress
    rw [happroved] at haddress
    cases haddress
  staged := by
    intro k profileId hk hsaved
    exact warranted_grows (h.staged k profileId (hkey.symm.trans hk) (hsave.symm.trans hsaved)) marks
  ready := by
    intro k _ haddress
    rw [happroved] at haddress
    cases haddress

theorem consented_event {x : Exchange} (h : Consented x) {e : BackendEvent}
    (hclean : Clean x (.event e)) : Consented (step x (.event e)) := by
  have hopen : ¬x.classic.opened = false := by simp [h.opened]
  cases e with
  | pairingRequest address =>
    rw [step, backendEvent, if_neg hopen]
    exact consented_withdrawn h x.phase [.request address] rfl rfl rfl rfl
  | authentication status =>
    rw [step, backendEvent, if_neg hopen, eventMarks]
    by_cases hstatus : status = .ok
    · simp only [if_pos hstatus]
      exact consented_frame h x.phase rfl rfl rfl rfl fun _ _ m hm => absurd hm List.not_mem_nil
    · simp only [if_neg hstatus]
      exact consented_withdrawn h x.phase [.failed] rfl rfl rfl rfl
  | linkKey key =>
    rw [step, backendEvent, if_neg hopen]
    refine ⟨h.opened, ?_, ?_, ?_⟩
    · intro address haddress
      refine standing_grows (h.approved address haddress) ?_
      intro m hm
      rw [List.mem_singleton.mp hm]
      exact not_false
    · intro k profileId hk hsaved
      obtain rfl := Option.some.inj hk
      exact warranted_received (hclean profileId hsaved)
    · intro k hk haddress
      obtain rfl := Option.some.inj hk
      exact warranted_received (h.approved _ haddress)

theorem beginOperation_ok {c : Classic} (h : (beginOperation c).2 = .ok) :
    (beginOperation c).1 = { c with operationActive := true } := by
  rw [beginOperation] at h ⊢
  split at h
  · cases h
  split at h
  · cases h
  · rename_i hopened hidle
    rw [if_neg hopened, if_neg hidle]

theorem consented_call {x : Exchange} (h : Consented x) {c : Call} (hclean : Clean x (.call c)) :
    Consented (step x (.call c)) := by
  rw [step]
  by_cases hidle : x.phase = .idle
  · rw [if_pos hidle]
    cases c with
    | authorize =>
      rw [start]
      split
      · exact h
      · split
        · exact h
        · refine consented_frame h _ rfl rfl rfl rfl ?_
          intro _ _ m hm
          rw [List.mem_singleton.mp hm]
          exact not_false
    | reject =>
      rw [start]
      split
      · exact h
      · rename_i hpending
        have hnone := hclean hidle fun hpairing => hpending (Or.inr hpairing)
        exact consented_withdrawn h _ [.rejected] rfl hnone rfl rfl
    | save address profileId =>
      rw [start, peerSave]
      split
      · exact h
      split
      · exact h
      split
      · exact h
      split
      · split
        · split <;> exact h
        · exact h
      · rename_i happroved
        have hready : x.classic.approved = some address := by simpa using happroved
        refine ⟨h.opened, h.approved, ?_, h.ready⟩
        intro k profileId' hk hsaved
        obtain ⟨haddress, _⟩ := Prod.mk.inj (Option.some.inj hsaved)
        exact h.ready k hk (hready.trans (congrArg some haddress))
    | poll =>
      rw [start]
      split
      · rename_i hok
        rw [beginOperation_ok hok]
        exact consented_quiet h _ rfl rfl rfl rfl
      · exact h
  · rw [if_neg hidle]
    exact h

theorem consented_recorded {x : Exchange} (h : Consented x) {address : Address}
    (hasking : Asking x.log address)
    (hkeys : ∀ k, x.classic.pendingKey = some k → k.address = address →
      Warranted x.log k ∨ Promised x.log k) :
    Consented ⟨recordApproval x.classic address, .idle, x.log ++ [.answered true]⟩ := by
  rw [recordApproval, if_pos h.opened]
  refine ⟨h.opened, ?_, ?_, ?_⟩
  · intro other hother
    obtain rfl := Option.some.inj hother
    exact standing_answered hasking
  · intro k profileId hk hsaved
    exact warranted_grows (h.staged k profileId hk hsaved) [.answered true]
  · intro k hk haddress
    rcases hkeys k hk (Option.some.inj haddress).symm with hbefore | hduring
    · exact warranted_grows hbefore [.answered true]
    · exact warranted_answered hduring

theorem consented_flushEnd {x : Exchange} (h : Consented x) (job : FlushJob) (status : Status) :
    Consented { x with classic := flushEnd x.classic job status, phase := .idle } := by
  rw [flushEnd]
  by_cases hstatus : status = .ok
  · rw [if_pos hstatus]
    exact ⟨h.opened, nofun, nofun, nofun⟩
  · rw [if_neg hstatus]
    exact consented_quiet h .idle rfl rfl rfl rfl

theorem consented_advance {x : Exchange} (h : Consented x) {status : Status}
    (hclean : Clean x (.advance status)) : Consented (step x (.advance status)) := by
  have hanswered : ∀ address, x.classic.approved = some address →
      ∀ m ∈ [Mark.answered false], ¬Spoils address m := by
    intro address _ m hm
    rw [List.mem_singleton.mp hm]
    exact not_false
  rw [step, advance]
  cases hphase : x.phase with
  | idle => exact h
  | sampled address =>
    dsimp only
    split
    · rename_i hok
      rw [beginOperation_ok hok]
      exact consented_quiet h _ rfl rfl rfl rfl
    · exact consented_frame h .idle rfl rfl rfl rfl hanswered
  | replying address =>
    dsimp only
    split
    · exact consented_quiet h _ rfl rfl rfl rfl
    · exact consented_frame h .idle rfl rfl rfl rfl hanswered
  | approving address =>
    obtain ⟨hasking, hkeys⟩ := hclean address hphase
    exact consented_recorded h hasking hkeys
  | rejecting =>
    dsimp only
    split
    · rename_i hok
      rw [beginOperation_ok hok]
      exact consented_quiet h _ rfl rfl rfl rfl
    · exact consented_quiet h .idle rfl rfl rfl rfl
  | denying => exact consented_quiet h .idle rfl rfl rfl rfl
  | polling => exact consented_quiet h _ rfl rfl rfl rfl
  | polled =>
    rcases flushBegin_cases x.classic with ⟨r, hbegin, hr⟩ | ⟨job, hbegin, _⟩
    · rw [hbegin]
      cases r with
      | error status => exact consented_quiet h .idle rfl rfl rfl rfl
      | ok job =>
        cases job with
        | none => exact consented_quiet h .idle rfl rfl rfl rfl
        | some job => exact absurd rfl (hr job)
    · rw [hbegin]
      exact consented_quiet h _ rfl rfl rfl rfl
  | flushing job => exact consented_flushEnd h job status

theorem step_consented {x : Exchange} {m : Move} (h : Consented x) (hclean : Clean x m) :
    Consented (step x m) := by
  cases m with
  | event e => exact consented_event h hclean
  | call c => exact consented_call h hclean
  | advance status => exact consented_advance h hclean

theorem run_consented {x : Exchange} {moves : List Move} (h : Consented x)
    (hclean : AllClean x moves) : Consented (run x moves) := by
  induction moves generalizing x with
  | nil => exact h
  | cons m moves ih =>
    obtain ⟨hmove, hmoves⟩ := hclean
    exact ih (step_consented h hmove) hmoves

theorem fresh_consented {c : Classic} (h : Fresh c) : Consented ⟨c, .idle, []⟩ where
  opened := h.opened
  approved := by
    intro address haddress
    rw [h.approved] at haddress
    cases haddress
  staged := by
    intro k _ hk
    rw [h.pendingKey] at hk
    cases hk
  ready := by
    intro k hk
    rw [h.pendingKey] at hk
    cases hk

theorem authorised_of_consented {x : Exchange} (h : Consented x) : Authorised x := by
  intro _ c job hbegin
  rcases flushBegin_cases x.classic with ⟨r, hquiet, hr⟩ | ⟨job', hjob, _, _, _, hkey, _, hsave⟩
  · rw [hquiet] at hbegin
    exact absurd (Prod.mk.inj hbegin).2 (hr job)
  · rw [hjob] at hbegin
    cases hbegin
    exact h.staged _ _ hkey hsave

theorem allClean_append {x : Exchange} {before after : List Move}
    (h : AllClean x (before ++ after)) : AllClean x before ∧ AllClean (run x before) after := by
  induction before generalizing x with
  | nil => exact ⟨trivial, h⟩
  | cons m before ih =>
    obtain ⟨hmove, hrest⟩ := h
    obtain ⟨hbefore, hafter⟩ := ih hrest
    exact ⟨⟨hmove, hbefore⟩, hafter⟩

/-- In a clean run from an open on, whatever is flushed at any time was
received under a consent of the user to its address. -/
theorem bonds_authorised {c : Classic} {moves : List Move} (hfresh : Fresh c)
    (hclean : AllClean ⟨c, .idle, []⟩ moves) :
    ∀ before after, moves = before ++ after → Authorised (run ⟨c, .idle, []⟩ before) := by
  rintro before after rfl
  exact authorised_of_consented (run_consented (fresh_consented hfresh) (allClean_append hclean).1)

def address (n : UInt8) : Address := Vector.replicate 6 n

def key (n : UInt8) : PendingKey := ⟨address n, Vector.replicate 16 n, 4⟩

def openedClassic : Classic :=
  ⟨true, false, true, List.replicate 4 emptyPeer, none, none, none, none, 0⟩

def accepting : List Move :=
  [.event (.pairingRequest (address 1)), .call .authorize, .advance .ok, .advance .ok, .advance .ok,
    .call (.save (address 1) 7)]

def polling : List Move := [.call .poll, .advance .ok]

theorem bonds_authorised_sample :
    Authorised (run ⟨openedClassic, .idle, []⟩ (accepting ++ [.event (.linkKey (key 1))] ++ polling)) := by
  refine bonds_authorised ⟨rfl, rfl, rfl, rfl⟩ ?_ _ [] (List.append_nil _).symm
  refine ⟨trivial, trivial, nofun, nofun, ?_, trivial, ?_, trivial, nofun, trivial⟩
  · intro a ha
    cases ha
    refine ⟨⟨[.request (address 1)], [], rfl, nofun, rfl⟩, nofun⟩
  · intro _ _
    refine ⟨[.request (address 1)], [.answered true], rfl, ?_, rfl⟩
    intro m hm
    rw [List.mem_singleton.mp hm]
    exact not_false

/-- Between the save and the key another peer asks. The key of the first one is
still taken along. -/
theorem withdrawn_flushed :
    ¬Authorised (run ⟨openedClassic, .idle, []⟩ (accepting ++
      [.event (.pairingRequest (address 2)), .event (.linkKey (key 1))] ++ polling)) := by
  intro h
  obtain ⟨before, between, after, hlog, hbetween, _⟩ := h rfl _ _ rfl
  have hmarks : [.request (address 1), .asked (address 1), .answered true, .request (address 2),
      .key (key 1)] = before ++ Mark.asked (address 1) :: (between ++ .key (key 1) :: after) := hlog
  rcases before with _ | ⟨_, _ | ⟨_, before⟩⟩
  · cases (List.cons.inj hmarks).1
  · obtain ⟨_, htail⟩ := List.cons.inj (List.cons.inj hmarks).2
    rcases between with _ | ⟨_, _ | ⟨m, between⟩⟩
    · cases (List.cons.inj htail).1
    · cases (List.cons.inj (List.cons.inj htail).2).1
    · obtain ⟨hm, _⟩ := List.cons.inj (List.cons.inj htail).2
      refine hbetween m (by simp) ?_
      rw [← hm]
      exact (by decide : address 2 ≠ address 1)
  · have hmem : Mark.asked (address 1) ∈ [.answered true, .request (address 2), .key (key 1)] := by
      rw [(List.cons.inj (List.cons.inj hmarks).2).2]
      simp
    exact absurd hmem (by decide)

end JaszczurHal.BtPairing
