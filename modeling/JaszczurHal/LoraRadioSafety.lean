import JaszczurHal.LoraRadio

/-!
# States and results of the LoRa radio

In every run whose cancellations succeed, no state change is refused, the busy
flag is set by one pending call only, and an operation that was started ends
with one result.
-/

set_option autoImplicit false

namespace JaszczurHal.LoraRadioSafety
open HalStatus LoraRadio

def activeKind : RadioState → Option OperationKind
  | .tx => some .transmit
  | .rx => some .receive
  | .cad => some .channelActivityDetection
  | _ => none

def OperationState.terminal : OperationState → Bool
  | .idle | .inProgress => false
  | _ => true

def resultOf (r : Radio) : OperationKind → Option Status
  | .transmit => if OperationState.terminal r.txStatus.state then some r.txStatus.result else none
  | .receive => if r.rxResult = .eagain ∨ r.rxResult = .none then none else some r.rxResult
  | .channelActivityDetection =>
    if OperationState.terminal r.channelActivityStatus.state then
      some r.channelActivityStatus.result
    else none

inductive Mark where
  | started (kind : OperationKind)
  | ended (kind : OperationKind) (result : Option Status)
  deriving DecidableEq, Repr

def marks (before after : Radio) : List Mark :=
  if activeKind before.state = activeKind after.state then []
  else
    ((activeKind before.state).map fun kind => Mark.ended kind (resultOf after kind)).toList ++
      ((activeKind after.state).map Mark.started).toList

def trace (s : System) : List Turn → List Mark
  | [] => []
  | t :: turns => marks s.radio (s.turn t).radio ++ trace (s.turn t) turns

/-- Reads a trace from the operation that is open, if any; every operation ends
with a result before the next one starts. The outcome is what is open at the end. -/
def pairs : Option OperationKind → List Mark → Option (Option OperationKind)
  | opened, [] => some opened
  | none, .started kind :: rest => pairs (some kind) rest
  | some kind, .ended kind' (some _) :: rest => if kind = kind' then pairs none rest else none
  | _, _ :: _ => none

/-- A status record changes only when an operation of its kind starts or ends. -/
structure Steady (before after : Radio) : Prop where
  tx : after.txStatus ≠ before.txStatus → (before.state = .tx ↔ after.state ≠ .tx)
  cad : after.channelActivityStatus ≠ before.channelActivityStatus →
    (before.state = .cad ↔ after.state ≠ .cad)

/-- No cancellation fails, and no provider answers the start or the service of
a reception with a code that stands for having no result. -/
def Allowed (a : Answer) : Pending → Prop
  | .cancel _ => a.status = .ok
  | .receiveStart => a.status ≠ .eagain ∧ a.status ≠ .none
  | .service .rx _ => a.status ≠ .none
  | _ => True

def Obliging (s : System) : Turn → Prop
  | .resume index a => ∀ p, s.pending[index]? = some p → Allowed a p
  | _ => True

def AllObliging (s : System) : List Turn → Prop
  | [] => True
  | t :: turns => Obliging s t ∧ AllObliging (s.turn t) turns

structure Sound (r : Radio) : Prop where
  accepted : r.rejected = false
  tx : r.txStatus.state = .inProgress ↔ r.state = .tx
  cad : r.channelActivityStatus.state = .inProgress ↔ r.state = .cad

def busyCall : Pending → Bool
  | .serve _ | .dispatch _ | .collect _ | .watch => false
  | _ => true

def Fits (state : RadioState) : Pending → Prop
  | .configure => ¬ state.Active
  | .transmitStart _ => state = .tx
  | .receiveStart => state = .rx
  | .channelActivityStart => state = .cad
  | .instantRssi => state = .rx
  | .service active _ => state = active ∧ active.Active
  | .cancel active => state = active ∧ active.Active
  | .calibrate => state = .standby
  | .power sleep => ¬ state.Active ∧ (sleep = true → state = .standby)
  | _ => True

structure Orderly (s : System) : Prop where
  sound : Sound s.radio
  busy : s.pending.countP busyCall = if s.radio.operationBusy then 1 else 0
  fits : ∀ p ∈ s.pending, Fits s.radio.state p

/-- What one section may do: leave states and statuses alone; take the busy
flag for a call; or give it back. -/
inductive Section (before : Radio) : Radio × Next → Prop where
  | quiet (after : Radio) (next : Next)
      (state : after.state = before.state) (busy : after.operationBusy = before.operationBusy)
      (tx : after.txStatus = before.txStatus)
      (cad : after.channelActivityStatus = before.channelActivityStatus)
      (rejected : after.rejected = before.rejected)
      (free : ∀ p ∈ next.toPending, busyCall p = false) : Section before (after, next)
  | opened (after : Radio) (p : Pending) (free : before.operationBusy = false)
      (busy : after.operationBusy = true) (call : busyCall p = true) (fits : Fits after.state p)
      (sound : Sound after) (steady : Steady before after)
      (paired : pairs (activeKind before.state) (marks before after) =
        some (activeKind after.state)) : Section before (after, .wait p)

structure Closed (before : Radio) (outcome : Radio × Next) : Prop where
  busy : outcome.1.operationBusy = false
  free : ∀ p ∈ outcome.2.toPending, busyCall p = false
  sound : Sound outcome.1
  steady : Steady before outcome.1
  paired : pairs (activeKind before.state) (marks before outcome.1) =
    some (activeKind outcome.1.state)

theorem paired_same {r r' : Radio} (h : r'.state = r.state) :
    pairs (activeKind r.state) (marks r r') = some (activeKind r'.state) := by
  rw [marks, h, if_pos rfl]
  cases activeKind r.state with
  | none => rfl
  | some kind => rfl

theorem activeKind_inactive {state : RadioState} (h : ¬ state.Active) : activeKind state = none := by
  cases state with
  | tx => exact absurd (Or.inl rfl) h
  | rx => exact absurd (Or.inr (Or.inl rfl)) h
  | cad => exact absurd (Or.inr (Or.inr rfl)) h
  | standby => rfl
  | sleep => rfl
  | error => rfl

theorem paired_inactive {r r' : Radio} (h : ¬ r.state.Active) (h' : ¬ r'.state.Active) :
    pairs (activeKind r.state) (marks r r') = some (activeKind r'.state) := by
  rw [marks, activeKind_inactive h, activeKind_inactive h', if_pos rfl]
  rfl

theorem paired_started {r r' : Radio} {kind : OperationKind} (h : ¬ r.state.Active)
    (h' : activeKind r'.state = some kind) :
    pairs (activeKind r.state) (marks r r') = some (activeKind r'.state) := by
  rw [marks, activeKind_inactive h, h', if_neg nofun]
  rfl

theorem paired_ended {r r' : Radio} {kind : OperationKind} {result : Status}
    (h : activeKind r.state = some kind) (h' : ¬ r'.state.Active)
    (hresult : resultOf r' kind = some result) :
    pairs (activeKind r.state) (marks r r') = some (activeKind r'.state) := by
  rw [marks, activeKind_inactive h', h, if_neg nofun]
  simp [pairs, hresult]

theorem pairs_append (first rest : List Mark) (opened opened' : Option OperationKind)
    (h : pairs opened first = some opened') : pairs opened (first ++ rest) = pairs opened' rest := by
  induction first generalizing opened with
  | nil =>
    obtain rfl := Option.some.inj h
    rfl
  | cons mark first ih =>
    cases opened with
    | none =>
      cases mark with
      | started kind => exact ih (some kind) h
      | ended kind result => simp [pairs] at h
    | some kind =>
      cases mark with
      | started kind' => simp [pairs] at h
      | ended kind' result =>
        cases result with
        | none => simp [pairs] at h
        | some result =>
          simp only [pairs, List.cons_append] at h ⊢
          split at h
          · rename_i hkind
            rw [if_pos hkind]
            exact ih none h
          · cases h

theorem setState_valid {r : Radio} {state : RadioState} (h : stateTransitionValid r.state state = true) :
    r.setState state = { r with state := state } := if_pos h

theorem queueEvent_eq (r : Radio) (type : EventType) (operation : OperationKind) (result : Status) :
    ∃ event, r.queueEvent type operation result = { r with event := event } := by
  unfold Radio.queueEvent
  split
  · exact ⟨_, rfl⟩
  · exact ⟨r.event, rfl⟩

theorem recordError_eq (r : Radio) (status : Status) :
    ∃ lastError, r.recordError status = { r with lastError := lastError } := by
  unfold Radio.recordError
  split
  · exact ⟨r.lastError, rfl⟩
  · exact ⟨_, rfl⟩

theorem valid_error (state : RadioState) : stateTransitionValid state .error = true := by
  cases state <;> rfl

theorem finish_quiet {r : Radio} {state : RadioState} (type : EventType)
    (operation : OperationKind) (result : Status) (h : stateTransitionValid r.state state = true) :
    ∃ event, (r.setState state).queueEvent type operation result =
      { r with state := state, event := event } := by
  obtain ⟨event, hevent⟩ := queueEvent_eq (r.setState state) type operation result
  exact ⟨event, by rw [hevent, setState_valid h]⟩

theorem finish_recorded {r : Radio} {state : RadioState} (status : Status) (type : EventType)
    (operation : OperationKind) (result : Status) (h : stateTransitionValid r.state state = true) :
    ∃ lastError event, ((r.setState state).recordError status).queueEvent type operation result =
      { r with state := state, lastError := lastError, event := event } := by
  obtain ⟨lastError, hrecord⟩ := recordError_eq (r.setState state) status
  obtain ⟨event, hevent⟩ := queueEvent_eq ((r.setState state).recordError status) type operation
    result
  exact ⟨lastError, event, by rw [hevent, hrecord, setState_valid h]⟩

structure Ended (kind : OperationKind) (before after : Radio) : Prop where
  busy : after.operationBusy = before.operationBusy
  rejected : after.rejected = before.rejected
  inactive : ¬ after.state.Active
  result : ∃ result, resultOf after kind = some result
  tx : kind ≠ .transmit → after.txStatus = before.txStatus
  cad : kind ≠ .channelActivityDetection →
    after.channelActivityStatus = before.channelActivityStatus

theorem standby_inactive : ¬ RadioState.standby.Active := by decide
theorem error_inactive : ¬ RadioState.error.Active := by decide

theorem completeTx_ended {r : Radio} (hr : r.state = .tx) (status : Status) :
    Ended .transmit r (completeTx r status) := by
  have hstandby : stateTransitionValid r.state .standby = true := by rw [hr]; rfl
  unfold completeTx
  split
  · obtain ⟨event, h⟩ := finish_quiet (r := r.setTxStatus .succeeded .ok) .txComplete .transmit .ok
      hstandby
    rw [h]
    exact ⟨rfl, rfl, standby_inactive, ⟨_, rfl⟩, fun h => absurd rfl h, fun _ => rfl⟩
  · obtain ⟨lastError, event, h⟩ := finish_recorded (r := r.setTxStatus .timedOut .etimeout)
      .etimeout .timeout .transmit .etimeout hstandby
    rw [h]
    exact ⟨rfl, rfl, standby_inactive, ⟨_, rfl⟩, fun h => absurd rfl h, fun _ => rfl⟩
  · obtain ⟨event, h⟩ := finish_quiet (r := r.setTxStatus .cancelled .ecanceled) .cancelled
      .transmit .ecanceled hstandby
    rw [h]
    exact ⟨rfl, rfl, standby_inactive, ⟨_, rfl⟩, fun h => absurd rfl h, fun _ => rfl⟩
  · obtain ⟨lastError, event, h⟩ := finish_recorded (r := r.setTxStatus .failed status)
      status .error .transmit status (valid_error _)
    rw [h]
    exact ⟨rfl, rfl, error_inactive, ⟨_, rfl⟩, fun h => absurd rfl h, fun _ => rfl⟩

theorem completeChannelActivity_ended {r : Radio} (hr : r.state = .cad) (status : Status)
    (events : ProviderEvents) :
    Ended .channelActivityDetection r (completeChannelActivity r status events) := by
  have hstandby : stateTransitionValid r.state .standby = true := by rw [hr]; rfl
  unfold completeChannelActivity
  split
  · obtain ⟨event, h⟩ := finish_quiet (r := r.setCadStatus .succeeded .ok events.cadDetected)
      .channelActivityComplete .channelActivityDetection .ok hstandby
    rw [h]
    exact ⟨rfl, rfl, standby_inactive, ⟨_, rfl⟩, fun _ => rfl, fun h => absurd rfl h⟩
  · split
    · obtain ⟨lastError, event, h⟩ := finish_recorded
        (r := r.setCadStatus .timedOut .etimeout false) .etimeout .timeout
        .channelActivityDetection .etimeout hstandby
      rw [h]
      exact ⟨rfl, rfl, standby_inactive, ⟨_, rfl⟩, fun _ => rfl, fun h => absurd rfl h⟩
    · split
      · obtain ⟨event, h⟩ := finish_quiet (r := r.setCadStatus .cancelled .ecanceled false)
          .cancelled .channelActivityDetection .ecanceled hstandby
        rw [h]
        exact ⟨rfl, rfl, standby_inactive, ⟨_, rfl⟩, fun _ => rfl, fun h => absurd rfl h⟩
      · obtain ⟨lastError, event, h⟩ := finish_recorded (r := r.setCadStatus .failed status false)
          status .error .channelActivityDetection status (valid_error _)
        rw [h]
        exact ⟨rfl, rfl, error_inactive, ⟨_, rfl⟩, fun _ => rfl, fun h => absurd rfl h⟩

theorem resultOf_receive {r : Radio} (h : r.rxResult ≠ .eagain) (h' : r.rxResult ≠ .none) :
    resultOf r .receive = some r.rxResult := if_neg (not_or.mpr ⟨h, h'⟩)

theorem failRx_ended {r : Radio} {status : Status} (h : status ≠ .eagain) (h' : status ≠ .none) :
    Ended .receive r (failRx r status) := by
  obtain ⟨lastError, event, heq⟩ := finish_recorded (r := r.setRxResult status) status .error
    .receive status (valid_error _)
  rw [failRx, heq]
  exact ⟨rfl, rfl, error_inactive, ⟨_, resultOf_receive h h'⟩, fun _ => rfl, fun _ => rfl⟩

structure Untouched (before after : Radio) : Prop where
  state : after.state = before.state
  busy : after.operationBusy = before.operationBusy
  rejected : after.rejected = before.rejected
  tx : after.txStatus = before.txStatus
  cad : after.channelActivityStatus = before.channelActivityStatus

theorem endSingle_cases {r : Radio} (hr : r.state = .rx) :
    r.endSingle = r ∨ r.endSingle = { r with state := .standby } := by
  unfold Radio.endSingle
  split
  · exact Or.inl rfl
  · exact Or.inr (setState_valid (by rw [hr]; rfl))

theorem completeRx_cases {r : Radio} (hr : r.state = .rx) {status : Status}
    (h : status ≠ .eagain) (h' : status ≠ .none) (events : ProviderEvents) :
    Ended .receive r (completeRx r status events) ∨ Untouched r (completeRx r status events) := by
  unfold completeRx
  split
  · exact Or.inl (failRx_ended h h')
  · split
    · obtain ⟨lastError, hrecord⟩ := recordError_eq (r.setRxResult .eproto).endSingle .eproto
      obtain ⟨event, hevent⟩ := queueEvent_eq ((r.setRxResult .eproto).endSingle.recordError .eproto)
        .error .receive .eproto
      rw [hevent, hrecord]
      rcases endSingle_cases (r := r.setRxResult .eproto) hr with hend | hend
      · rw [hend]
        exact Or.inr ⟨rfl, rfl, rfl, rfl, rfl⟩
      · rw [hend]
        exact Or.inl ⟨rfl, rfl, standby_inactive, ⟨_, rfl⟩, fun _ => rfl, fun _ => rfl⟩
    · split
      · obtain ⟨event, hevent⟩ := queueEvent_eq (r.setRxResult .ok).endSingle .rxReady .receive .ok
        rw [hevent]
        rcases endSingle_cases (r := r.setRxResult .ok) hr with hend | hend
        · rw [hend]
          exact Or.inr ⟨rfl, rfl, rfl, rfl, rfl⟩
        · rw [hend]
          exact Or.inl ⟨rfl, rfl, standby_inactive, ⟨_, rfl⟩, fun _ => rfl, fun _ => rfl⟩
      · split
        · obtain ⟨lastError, event, heq⟩ := finish_recorded (r := r.setRxResult .etimeout) .etimeout
            .timeout .receive .etimeout (show stateTransitionValid r.state .standby = true by rw [hr]; rfl)
          rw [heq]
          exact Or.inl ⟨rfl, rfl, standby_inactive, ⟨_, rfl⟩, fun _ => rfl, fun _ => rfl⟩
        · exact Or.inl (failRx_ended h h')

structure Idled (before after : Radio) : Prop where
  busy : after.operationBusy = before.operationBusy
  rejected : after.rejected = before.rejected
  inactive : ¬ after.state.Active
  tx : after.txStatus = before.txStatus
  cad : after.channelActivityStatus = before.channelActivityStatus

variable {r r' : Radio} {next : Next}

theorem activeKind_transmit {state : RadioState} :
    activeKind state = some .transmit ↔ state = .tx := by
  cases state <;> decide

theorem activeKind_cad {state : RadioState} :
    activeKind state = some .channelActivityDetection ↔ state = .cad := by
  cases state <;> decide

theorem inactive_ne {state : RadioState} (h : ¬ state.Active) : state ≠ .tx ∧ state ≠ .cad :=
  ⟨fun htx => h (Or.inl htx), fun hcad => h (Or.inr (Or.inr hcad))⟩

theorem terminal_of_result {kind : OperationKind} {result : Status}
    (h : resultOf r kind = some result) :
    (kind = .transmit → r.txStatus.state ≠ .inProgress) ∧
      (kind = .channelActivityDetection → r.channelActivityStatus.state ≠ .inProgress) := by
  refine ⟨fun hkind hprogress => ?_, fun hkind hprogress => ?_⟩
  · subst hkind
    simp [resultOf, hprogress, OperationState.terminal] at h
  · subst hkind
    simp [resultOf, hprogress, OperationState.terminal] at h

theorem closed_ended {kind : OperationKind} (hs : Sound r) (hkind : activeKind r.state = some kind)
    (h : Ended kind (r.setBusy false) r') (hfree : ∀ p ∈ next.toPending, busyCall p = false) :
    Closed r (r', next) := by
  obtain ⟨result, hresult⟩ := h.result
  obtain ⟨hnotx, hnocad⟩ := inactive_ne h.inactive
  obtain ⟨htx, hcad⟩ := terminal_of_result hresult
  have hfromtx : kind = .transmit ↔ r.state = .tx := by
    rw [← activeKind_transmit, hkind]
    exact ⟨congrArg some, Option.some.inj⟩
  have hfromcad : kind = .channelActivityDetection ↔ r.state = .cad := by
    rw [← activeKind_cad, hkind]
    exact ⟨congrArg some, Option.some.inj⟩
  refine ⟨h.busy, hfree, ⟨h.rejected.trans hs.accepted, ?_, ?_⟩, ⟨fun hchange => ?_, fun hchange => ?_⟩,
    paired_ended hkind h.inactive hresult⟩
  · refine iff_of_false (fun hprogress => ?_) hnotx
    by_cases hk : kind = .transmit
    · exact htx hk hprogress
    · have hsame : r'.txStatus = r.txStatus := h.tx hk
      have hprogress : r'.txStatus.state = .inProgress := hprogress
      rw [hsame, hs.tx] at hprogress
      exact hk (hfromtx.mpr hprogress)
  · refine iff_of_false (fun hprogress => ?_) hnocad
    by_cases hk : kind = .channelActivityDetection
    · exact hcad hk hprogress
    · have hsame : r'.channelActivityStatus = r.channelActivityStatus := h.cad hk
      have hprogress : r'.channelActivityStatus.state = .inProgress := hprogress
      rw [hsame, hs.cad] at hprogress
      exact hk (hfromcad.mpr hprogress)
  · have hk : kind = .transmit := by
      by_contra hk
      exact hchange (h.tx hk)
    exact iff_of_true (hfromtx.mp hk) hnotx
  · have hk : kind = .channelActivityDetection := by
      by_contra hk
      exact hchange (h.cad hk)
    exact iff_of_true (hfromcad.mp hk) hnocad

theorem closed_untouched (hs : Sound r) (h : Untouched (r.setBusy false) r')
    (hfree : ∀ p ∈ next.toPending, busyCall p = false) : Closed r (r', next) := by
  have hstate : r'.state = r.state := h.state
  have htx : r'.txStatus = r.txStatus := h.tx
  have hcad : r'.channelActivityStatus = r.channelActivityStatus := h.cad
  refine ⟨h.busy, hfree, ⟨h.rejected.trans hs.accepted, ?_, ?_⟩,
    ⟨fun hchange => absurd htx hchange, fun hchange => absurd hcad hchange⟩, paired_same hstate⟩
  · show r'.txStatus.state = _ ↔ r'.state = _
    rw [htx, hstate]
    exact hs.tx
  · show r'.channelActivityStatus.state = _ ↔ r'.state = _
    rw [hcad, hstate]
    exact hs.cad

theorem closed_idled (hs : Sound r) (hidle : ¬ r.state.Active) (h : Idled (r.setBusy false) r')
    (hfree : ∀ p ∈ next.toPending, busyCall p = false) : Closed r (r', next) := by
  have htx : r'.txStatus = r.txStatus := h.tx
  have hcad : r'.channelActivityStatus = r.channelActivityStatus := h.cad
  obtain ⟨hnotx, hnocad⟩ := inactive_ne hidle
  obtain ⟨hnotx', hnocad'⟩ := inactive_ne h.inactive
  refine ⟨h.busy, hfree, ⟨h.rejected.trans hs.accepted, ?_, ?_⟩,
    ⟨fun hchange => absurd htx hchange, fun hchange => absurd hcad hchange⟩,
    paired_inactive hidle h.inactive⟩
  · refine iff_of_false (fun hprogress => ?_) hnotx'
    have hprogress : r'.txStatus.state = .inProgress := hprogress
    rw [htx, hs.tx] at hprogress
    exact hnotx hprogress
  · refine iff_of_false (fun hprogress => ?_) hnocad'
    have hprogress : r'.channelActivityStatus.state = .inProgress := hprogress
    rw [hcad, hs.cad] at hprogress
    exact hnocad hprogress

theorem untouched_refl (r : Radio) : Untouched r r := ⟨rfl, rfl, rfl, rfl, rfl⟩

theorem free_done (status : Status) : ∀ p ∈ (Next.done status).toPending, busyCall p = false := by
  intro p hp
  cases hp

theorem free_wait {p : Pending} (h : busyCall p = false) :
    ∀ q ∈ (Next.wait p).toPending, busyCall q = false := by
  intro q hq
  rw [List.mem_singleton.mp hq]
  exact h

theorem afterService_free (caller : Caller) (status : Status) :
    ∀ p ∈ (afterService caller status).toPending, busyCall p = false := by
  cases caller with
  | process =>
    show ∀ p ∈ (if status = .ebusy ∨ status = .euninit then Next.done status
      else .wait (.dispatch status)).toPending, busyCall p = false
    split
    · exact free_done _
    · exact free_wait rfl
  | receive bufferSize => exact free_wait rfl
  | transmit =>
    show ∀ p ∈ (if status = .eagain ∨ status = .ok then Next.wait .watch
      else .done status).toPending, busyCall p = false
    split
    · exact free_wait rfl
    · exact free_done _

theorem failState_idled (r : Radio) (status : Status) : Idled r (failState r status) := by
  obtain ⟨lastError, h⟩ := recordError_eq (r.setState .error) status
  rw [failState, h, setState_valid (valid_error _)]
  exact ⟨rfl, rfl, error_inactive, rfl, rfl⟩

theorem setState_idled {state : RadioState} (h : stateTransitionValid r.state state = true)
    (hidle : ¬ state.Active) : Idled r (r.setState state) := by
  rw [setState_valid h]
  exact ⟨rfl, rfl, hidle, rfl, rfl⟩

theorem valid_to_standby (state : RadioState) : stateTransitionValid state .standby = true := by
  cases state <;> rfl

theorem configureEnd_closed (hs : Sound r) (hfits : Fits r.state .configure) (status : Status) :
    Closed r (configureEnd r status) := by
  refine closed_idled hs hfits ?_ (free_done status)
  split
  · have h := setState_idled (r := { r.setBusy false with configured := true })
      (valid_to_standby _) standby_inactive
    exact ⟨h.busy, h.rejected, h.inactive, h.tx, h.cad⟩
  · exact failState_idled _ status

theorem transmitStartEnd_closed (hs : Sound r) {blocking : Bool}
    (hfits : Fits r.state (.transmitStart blocking)) (status : Status) :
    Closed r (transmitStartEnd r status blocking) := by
  have hfree : ∀ p ∈ (if blocking = true ∧ status = .ok then Next.wait .watch
      else .done status).toPending, busyCall p = false := by
    split
    · exact free_wait rfl
    · exact free_done status
  unfold transmitStartEnd
  dsimp only
  by_cases hok : status = .ok
  · rw [if_pos hok]
    exact closed_untouched hs (untouched_refl _) hfree
  · rw [if_neg hok]
    exact closed_ended hs (activeKind_transmit.mpr hfits) (completeTx_ended (r := r.setBusy false) hfits status)
      hfree

theorem receiveStartEnd_closed (hs : Sound r) (hfits : Fits r.state .receiveStart) {status : Status}
    (h : status ≠ .eagain) (h' : status ≠ .none) : Closed r (receiveStartEnd r status) := by
  have hrx : r.state = .rx := hfits
  unfold receiveStartEnd
  dsimp only
  by_cases hok : status = .ok
  · rw [if_pos hok]
    exact closed_untouched hs (untouched_refl _) (free_done status)
  · rw [if_neg hok]
    rcases completeRx_cases (r := r.setBusy false) hrx h h' noEvents with hend | hgo
    · exact closed_ended hs (by rw [hrx]; rfl) hend (free_done status)
    · exact closed_untouched hs hgo (free_done status)

theorem channelActivityStartEnd_closed (hs : Sound r) (hfits : Fits r.state .channelActivityStart)
    (status : Status) : Closed r (channelActivityStartEnd r status) := by
  unfold channelActivityStartEnd
  dsimp only
  by_cases hok : status = .ok
  · rw [if_pos hok]
    exact closed_untouched hs (untouched_refl _) (free_done status)
  · rw [if_neg hok]
    exact closed_ended hs (activeKind_cad.mpr hfits)
      (completeChannelActivity_ended (r := r.setBusy false) hfits status noEvents) (free_done status)

theorem instantRssiEnd_closed (hs : Sound r) (status : Status) :
    Closed r (instantRssiEnd r status) := by
  unfold instantRssiEnd
  dsimp only
  by_cases hok : status = .ok
  · rw [if_pos hok]
    exact closed_untouched hs (untouched_refl _) (free_done status)
  · obtain ⟨lastError, h⟩ := recordError_eq (r.setBusy false) status
    rw [if_neg hok, h]
    exact closed_untouched hs ⟨rfl, rfl, rfl, rfl, rfl⟩ (free_done status)

theorem calibrateEnd_closed (hs : Sound r) (hfits : Fits r.state .calibrate) (status : Status) :
    Closed r (calibrateEnd r status) := by
  have hstandby : r.state = .standby := hfits
  have hidle : ¬ r.state.Active := by
    rw [hstandby]
    exact standby_inactive
  refine closed_idled hs hidle ?_ (free_done status)
  split
  · exact ⟨rfl, rfl, hidle, rfl, rfl⟩
  · exact failState_idled _ status

theorem powerEnd_closed (hs : Sound r) {sleep : Bool} (hfits : Fits r.state (.power sleep))
    (status : Status) : Closed r (powerEnd r sleep status) := by
  obtain ⟨hidle, hstandby⟩ := hfits
  refine closed_idled hs hidle ?_ (free_done status)
  split
  · cases sleep with
    | false => exact setState_idled (valid_to_standby _) standby_inactive
    | true =>
      refine setState_idled ?_ (by decide)
      show stateTransitionValid r.state .sleep = true
      rw [hstandby rfl]
      rfl
  · exact failState_idled _ status

theorem serviceEnd_closed (hs : Sound r) {active : RadioState} {caller : Caller}
    (hfits : Fits r.state (.service active caller)) {a : Answer}
    (h : active = .rx → a.status ≠ .none) : Closed r (serviceEnd r active caller a) := by
  obtain ⟨hstate, hactive⟩ := hfits
  unfold serviceEnd
  dsimp only
  by_cases hagain : a.status = .eagain
  · rw [if_pos hagain]
    exact closed_untouched hs (untouched_refl _) (afterService_free caller .eagain)
  rw [if_neg hagain]
  rcases hactive with htx | hrx | hcad
  · rw [if_pos htx]
    have hr : (r.setBusy false).state = .tx := hstate.trans htx
    have hkind := activeKind_transmit.mpr (hstate.trans htx)
    unfold serviceTx
    split
    · exact closed_ended hs hkind (completeTx_ended hr .etimeout) (afterService_free _ _)
    · split
      · exact closed_untouched hs (untouched_refl _) (afterService_free _ _)
      · exact closed_ended hs hkind (completeTx_ended hr a.status) (afterService_free _ _)
  · rw [if_neg (by rw [hrx]; decide), if_neg (by rw [hrx]; decide)]
    have hr : (r.setBusy false).state = .rx := hstate.trans hrx
    have hkind : activeKind r.state = some .receive := by
      rw [hstate, hrx]
      rfl
    unfold serviceRx
    dsimp only
    split
    · have hresult : ∀ status : Status, status ≠ .eagain → status ≠ .none →
          Closed r (completeRx (r.setBusy false) status a.events, afterService caller status) := by
        intro status hne hne'
        rcases completeRx_cases hr hne hne' a.events with hend | hgo
        · exact closed_ended hs hkind hend (afterService_free _ _)
        · exact closed_untouched hs hgo (afterService_free _ _)
      split
      · exact hresult .etimeout nofun nofun
      · split
        · exact hresult .eproto nofun nofun
        · exact hresult a.status hagain (h hrx)
    · exact closed_untouched hs (untouched_refl _) (afterService_free _ _)
  · rw [if_neg (by rw [hcad]; decide), if_pos hcad]
    have hr : (r.setBusy false).state = .cad := hstate.trans hcad
    have hkind := activeKind_cad.mpr (hstate.trans hcad)
    unfold serviceCad
    split
    · exact closed_ended hs hkind (completeChannelActivity_ended hr .etimeout a.events)
        (afterService_free _ _)
    · split
      · exact closed_untouched hs (untouched_refl _) (afterService_free _ _)
      · exact closed_ended hs hkind (completeChannelActivity_ended hr a.status a.events)
          (afterService_free _ _)

theorem cancelEnd_closed (hs : Sound r) {active : RadioState} (hfits : Fits r.state (.cancel active)) :
    Closed r (cancelEnd r active .ok) := by
  obtain ⟨hstate, hactive⟩ := hfits
  unfold cancelEnd
  dsimp only
  rw [if_pos rfl]
  rcases hactive with htx | hrx | hcad
  · rw [if_pos htx]
    exact closed_ended hs (activeKind_transmit.mpr (hstate.trans htx))
      (completeTx_ended (r := r.setBusy false) (hstate.trans htx) .ecanceled) (free_done _)
  · rw [if_neg (by rw [hrx]; decide), if_neg (by rw [hrx]; decide)]
    obtain ⟨event, h⟩ := finish_quiet (r := (r.setBusy false).setRxResult .ecanceled)
      .cancelled .receive .ecanceled (valid_to_standby _)
    rw [h]
    refine closed_ended hs (by rw [hstate, hrx]; rfl) ?_ (free_done _)
    exact ⟨rfl, rfl, standby_inactive, ⟨_, rfl⟩, fun _ => rfl, fun _ => rfl⟩
  · rw [if_neg (by rw [hcad]; decide), if_pos hcad]
    exact closed_ended hs (activeKind_cad.mpr (hstate.trans hcad))
      (completeChannelActivity_ended (r := r.setBusy false) (hstate.trans hcad) .ecanceled noEvents)
      (free_done _)

theorem quiet_same (r : Radio) {next : Next} (hfree : ∀ p ∈ next.toPending, busyCall p = false) :
    Section r (r, next) := .quiet r next rfl rfl rfl rfl rfl hfree

theorem opened_same (hs : Sound r) (hfree : r.operationBusy = false) {p : Pending}
    (hcall : busyCall p = true) (hfits : Fits r.state p) : Section r (r.setBusy true, .wait p) :=
  .opened _ p hfree rfl hcall hfits ⟨hs.accepted, hs.tx, hs.cad⟩
    ⟨fun hchange => absurd rfl hchange, fun hchange => absurd rfl hchange⟩ (paired_same rfl)

theorem serviceActiveOperation_section (hs : Sound r) (caller : Caller) :
    Section r (serviceActiveOperation r caller) := by
  unfold serviceActiveOperation
  by_cases hbusy : r.operationBusy = true
  · rw [if_pos hbusy]
    exact quiet_same r (afterService_free caller _)
  rw [if_neg hbusy]
  by_cases hidle : ¬ r.state.Active
  · rw [if_pos hidle]
    exact quiet_same r (afterService_free caller _)
  rw [if_neg hidle]
  split
  · exact quiet_same r (afterService_free caller _)
  · exact opened_same hs (by simpa using hbusy) rfl ⟨rfl, not_not.mp hidle⟩

theorem transmitStart_section (hs : Sound r) (data : List UInt8) (timeoutMs : UInt32)
    (auto : Except Status UInt32) (blocking : Bool) :
    Section r (transmitStartWithTimeout r data timeoutMs auto blocking) := by
  unfold transmitStartWithTimeout
  split
  · exact quiet_same r (free_done _)
  split
  · exact quiet_same r (free_done _)
  split
  · exact quiet_same r (free_done _)
  rename_i hready
  obtain ⟨hfree, hstandby⟩ := not_or.mp hready
  have hstandby : r.state = .standby := not_not.mp hstandby
  have hidle : ¬ r.state.Active := by
    rw [hstandby]
    exact standby_inactive
  obtain ⟨hnotx, hnocad⟩ := inactive_ne hidle
  split
  · exact quiet_same r (free_done _)
  · rename_i timeout _
    have hvalid : stateTransitionValid r.state .tx = true := by rw [hstandby]; rfl
    dsimp only
    rw [setState_valid]
    swap
    · exact hvalid
    refine .opened _ (.transmitStart blocking) (by simpa using hfree) rfl rfl rfl
      ⟨hs.accepted, iff_of_true rfl rfl, iff_of_false (fun h => hnocad (hs.cad.mp h)) nofun⟩
      ⟨fun _ => iff_of_false hnotx (fun h => h rfl), fun h => absurd rfl h⟩ ?_
    exact paired_started hidle rfl

theorem receiveStart_section (hs : Sound r) (timeoutMs : UInt32) (continuous : Bool) :
    Section r (receiveStart r timeoutMs continuous) := by
  unfold receiveStart
  split
  · exact quiet_same r (free_done _)
  split
  · exact quiet_same r (free_done _)
  split
  · exact quiet_same r (free_done _)
  rename_i hready
  obtain ⟨hfree, hstandby⟩ := not_or.mp hready
  have hstandby : r.state = .standby := not_not.mp hstandby
  have hidle : ¬ r.state.Active := by
    rw [hstandby]
    exact standby_inactive
  obtain ⟨hnotx, hnocad⟩ := inactive_ne hidle
  have hvalid : stateTransitionValid r.state .rx = true := by rw [hstandby]; rfl
  dsimp only
  rw [setState_valid]
  swap
  · exact hvalid
  refine .opened _ .receiveStart (by simpa using hfree) rfl rfl rfl
    ⟨hs.accepted, iff_of_false (fun h => hnotx (hs.tx.mp h)) nofun,
      iff_of_false (fun h => hnocad (hs.cad.mp h)) nofun⟩
    ⟨fun h => absurd rfl h, fun h => absurd rfl h⟩ ?_
  exact paired_started hidle rfl

theorem channelActivityStart_section (hs : Sound r) (timeoutMs : UInt32) :
    Section r (channelActivityDetectStart r timeoutMs) := by
  unfold channelActivityDetectStart
  split
  · exact quiet_same r (free_done _)
  split
  · exact quiet_same r (free_done _)
  split
  · exact quiet_same r (free_done _)
  rename_i hready
  obtain ⟨hfree, hstandby⟩ := not_or.mp hready
  have hstandby : r.state = .standby := not_not.mp hstandby
  have hidle : ¬ r.state.Active := by
    rw [hstandby]
    exact standby_inactive
  obtain ⟨hnotx, hnocad⟩ := inactive_ne hidle
  have hvalid : stateTransitionValid r.state .cad = true := by rw [hstandby]; rfl
  dsimp only
  rw [setState_valid]
  swap
  · exact hvalid
  refine .opened _ .channelActivityStart (by simpa using hfree) rfl rfl rfl
    ⟨hs.accepted, iff_of_false (fun h => hnotx (hs.tx.mp h)) nofun, iff_of_true rfl rfl⟩
    ⟨fun h => absurd rfl h, fun _ => iff_of_false hnocad (fun h => h rfl)⟩ ?_
  exact paired_started hidle rfl

theorem callBegin_section (hs : Sound r) (c : Call) : Section r (callBegin r c) := by
  cases c with
  | configure configValid =>
    show Section r (configure r configValid)
    unfold configure
    split
    · exact quiet_same r (free_done _)
    split
    · exact quiet_same r (free_done _)
    · rename_i hready
      obtain ⟨hfree, hidle⟩ := not_or.mp hready
      exact opened_same hs (by simpa using hfree) rfl hidle
  | transmit data timeoutMs auto blocking =>
    exact transmitStart_section hs data timeoutMs auto blocking
  | receiveStart timeoutMs continuous => exact receiveStart_section hs timeoutMs continuous
  | receive bufferSize =>
    show Section r (receive r bufferSize)
    unfold receive
    split
    · exact quiet_same r (free_done _)
    split
    · exact quiet_same r (free_wait rfl)
    split
    · exact quiet_same r (free_done _)
    · exact quiet_same r (free_wait rfl)
  | instantRssi =>
    show Section r (instantRssi r)
    unfold instantRssi
    split
    · exact quiet_same r (free_done _)
    split
    · exact quiet_same r (free_done _)
    split
    · exact quiet_same r (free_done _)
    · rename_i hfree hrx
      exact opened_same hs (by simpa using hfree) rfl (not_not.mp hrx)
  | channelActivityStart timeoutMs => exact channelActivityStart_section hs timeoutMs
  | process => exact serviceActiveOperation_section hs .process
  | setEventCallback present => exact .quiet _ _ rfl rfl rfl rfl rfl (free_done _)
  | cancel =>
    show Section r (cancel r)
    unfold cancel
    split
    · exact quiet_same r (free_done _)
    split
    · exact quiet_same r (free_done _)
    · rename_i hfree hactive
      exact opened_same hs (by simpa using hfree) rfl ⟨rfl, not_not.mp hactive⟩
  | calibrate =>
    show Section r (calibrate r)
    unfold calibrate
    split
    · exact quiet_same r (free_done _)
    split
    · exact quiet_same r (free_done _)
    split
    · exact quiet_same r (free_done _)
    · rename_i hready hstandby
      exact opened_same hs (by simpa using (not_or.mp hready).1) rfl (not_not.mp hstandby)
  | power sleep =>
    show Section r (setPowerState r sleep)
    unfold setPowerState
    split
    · exact quiet_same r (free_done _)
    split
    · exact quiet_same r (free_done _)
    · rename_i hready hsleep
      obtain ⟨hfree, hidle⟩ := not_or.mp hready
      refine opened_same hs (by simpa using hfree) rfl ⟨hidle, fun h => ?_⟩
      by_contra hne
      exact hsleep ⟨h, hne⟩

theorem resume_section (hs : Sound r) {p : Pending} (hp : busyCall p = false) (a : Answer) :
    Section r (LoraRadio.resume r p a) := by
  cases p with
  | serve caller => exact serviceActiveOperation_section hs caller
  | dispatch status =>
    show Section r (dispatch r status)
    unfold dispatch
    split
    · exact quiet_same r (free_done _)
    · split
      · exact .quiet _ _ rfl rfl rfl rfl rfl (free_done _)
      · exact quiet_same r (free_done _)
  | collect bufferSize =>
    show Section r (collect r bufferSize)
    unfold collect
    split
    · exact .quiet _ _ rfl rfl rfl rfl rfl (free_done _)
    · split
      · exact .quiet _ _ rfl rfl rfl rfl rfl (free_done _)
      · exact quiet_same r (free_done _)
  | watch =>
    show Section r (watch r)
    unfold watch
    split
    · exact quiet_same r (free_done _)
    · exact quiet_same r (free_wait rfl)
  | configure => cases hp
  | transmitStart blocking => cases hp
  | receiveStart => cases hp
  | channelActivityStart => cases hp
  | instantRssi => cases hp
  | service active caller => cases hp
  | cancel active => cases hp
  | calibrate => cases hp
  | power sleep => cases hp

theorem fits_free {state : RadioState} {p : Pending} (h : busyCall p = false) : Fits state p := by
  cases p with
  | serve caller => trivial
  | dispatch status => trivial
  | collect bufferSize => trivial
  | watch => trivial
  | _ => cases h

theorem countP_erased {α : Type} (f : α → Bool) {l : List α} {i : ℕ} {a : α} (h : l[i]? = some a) :
    l.countP f = (l.eraseIdx i).countP f+(if f a = true then 1 else 0) := by
  induction l generalizing i with
  | nil => cases h
  | cons b l ih =>
    cases i with
    | zero =>
      obtain rfl := Option.some.inj h
      exact List.countP_cons
    | succ i =>
      have hrest := ih (i := i) h
      rw [List.eraseIdx_cons_succ, List.countP_cons, List.countP_cons, hrest]
      omega

theorem countP_free {l : List Pending} (h : ∀ p ∈ l, busyCall p = false) : l.countP busyCall = 0 := by
  rw [List.countP_eq_zero]
  intro p hp
  rw [h p hp]
  exact Bool.false_ne_true

theorem free_of_countP {l : List Pending} (h : l.countP busyCall = 0) :
    ∀ p ∈ l, busyCall p = false := by
  intro p hp
  simpa using List.countP_eq_zero.mp h p hp

structure Kept (r : Radio) (t : System) : Prop where
  orderly : Orderly t
  steady : Steady r t.radio
  paired : pairs (activeKind r.state) (marks r t.radio) = some (activeKind t.radio.state)

theorem kept_section {rest : List Pending} {out : Radio × Next} (hs : Sound r)
    (hcount : rest.countP busyCall = if r.operationBusy then 1 else 0)
    (hfits : ∀ p ∈ rest, Fits r.state p) (h : Section r out) :
    Kept r ⟨out.1, rest ++ out.2.toPending⟩ := by
  cases h with
  | quiet after next hstate hbusy htx hcad hrejected hfree =>
    refine ⟨⟨⟨hrejected.trans hs.accepted, ?_, ?_⟩, ?_, ?_⟩,
      ⟨fun h => absurd htx h, fun h => absurd hcad h⟩, paired_same hstate⟩
    · show after.txStatus.state = _ ↔ after.state = _
      rw [htx, hstate]
      exact hs.tx
    · show after.channelActivityStatus.state = _ ↔ after.state = _
      rw [hcad, hstate]
      exact hs.cad
    · show (rest ++ next.toPending).countP busyCall = if after.operationBusy then 1 else 0
      rw [List.countP_append, countP_free hfree, hbusy, hcount, Nat.add_zero]
    · intro p hp
      show Fits after.state p
      rcases List.mem_append.mp hp with hp | hp
      · rw [hstate]
        exact hfits p hp
      · exact fits_free (hfree p hp)
  | opened after p hfree hbusy hcall hp hsound hsteady hpaired =>
    rw [hfree] at hcount
    refine ⟨⟨hsound, ?_, ?_⟩, hsteady, hpaired⟩
    · show (rest ++ [p]).countP busyCall = if after.operationBusy then 1 else 0
      rw [List.countP_append, hcount, hbusy]
      simp [hcall]
    · intro q hq
      rcases List.mem_append.mp hq with hq | hq
      · exact fits_free (free_of_countP hcount q hq)
      · rw [List.mem_singleton.mp hq]
        exact hp

theorem kept_closed {rest : List Pending} {out : Radio × Next} (hcount : rest.countP busyCall = 0)
    (h : Closed r out) : Kept r ⟨out.1, rest ++ out.2.toPending⟩ := by
  refine ⟨⟨h.sound, ?_, ?_⟩, h.steady, h.paired⟩
  · show (rest ++ out.2.toPending).countP busyCall = if out.1.operationBusy then 1 else 0
    rw [List.countP_append, hcount, countP_free h.free, h.busy]
    rfl
  · intro p hp
    rcases List.mem_append.mp hp with hp | hp
    · exact fits_free (free_of_countP hcount p hp)
    · exact fits_free (h.free p hp)

theorem resume_closed (hs : Sound r) {p : Pending} (hfits : Fits r.state p) (hp : busyCall p = true)
    {a : Answer} (h : Allowed a p) : Closed r (LoraRadio.resume r p a) := by
  cases p with
  | configure => exact configureEnd_closed hs hfits a.status
  | transmitStart blocking => exact transmitStartEnd_closed hs hfits a.status
  | receiveStart => exact receiveStartEnd_closed hs hfits h.1 h.2
  | channelActivityStart => exact channelActivityStartEnd_closed hs hfits a.status
  | instantRssi => exact instantRssiEnd_closed hs a.status
  | service active caller =>
    refine serviceEnd_closed hs hfits fun hrx => ?_
    subst hrx
    exact h
  | cancel active =>
    have hok : a.status = .ok := h
    show Closed r (cancelEnd r active a.status)
    rw [hok]
    exact cancelEnd_closed hs hfits
  | calibrate => exact calibrateEnd_closed hs hfits a.status
  | power sleep => exact powerEnd_closed hs hfits a.status
  | serve caller => cases hp
  | dispatch status => cases hp
  | collect bufferSize => cases hp
  | watch => cases hp

theorem kept_turn {s : System} (h : Orderly s) {t : Turn} (ht : Obliging s t) :
    Kept s.radio (s.turn t) := by
  cases t with
  | call c => exact kept_section h.sound h.busy h.fits (callBegin_section h.sound c)
  | resume index a =>
    cases hindex : s.pending[index]? with
    | none =>
      have hsame : s.turn (.resume index a) = s := by rw [System.turn, hindex]
      rw [hsame]
      exact ⟨h, ⟨fun hne => absurd rfl hne, fun hne => absurd rfl hne⟩, paired_same rfl⟩
    | some p =>
      have hturn : s.turn (.resume index a) =
          ⟨(LoraRadio.resume s.radio p a).1,
            s.pending.eraseIdx index ++ (LoraRadio.resume s.radio p a).2.toPending⟩ := by
        rw [System.turn, hindex]
      have hcount := countP_erased busyCall hindex
      have hmem : p ∈ s.pending := List.mem_of_getElem? hindex
      rw [hturn]
      cases hp : busyCall p with
      | false =>
        rw [hp, if_neg Bool.false_ne_true, Nat.add_zero, h.busy] at hcount
        exact kept_section h.sound hcount.symm
          (fun q hq => h.fits q (List.mem_of_mem_eraseIdx hq)) (resume_section h.sound hp a)
      | true =>
        rw [hp, if_pos rfl, h.busy] at hcount
        have hzero : (s.pending.eraseIdx index).countP busyCall = 0 := by
          split at hcount <;> omega
        exact kept_closed hzero (resume_closed h.sound (h.fits p hmem) hp (ht p hindex))
  | store packet =>
    have hquiet : (s.turn (.store packet)) = s ∨ (s.turn (.store packet)) =
        { s with radio := { s.radio with rxBuffer := packet, rxReady := true } } := by
      unfold System.turn
      dsimp only
      split
      · exact Or.inr rfl
      · exact Or.inl rfl
    rcases hquiet with hsame | hsame
    · rw [hsame]
      exact ⟨h, ⟨fun hne => absurd rfl hne, fun hne => absurd rfl hne⟩, paired_same rfl⟩
    · rw [hsame]
      exact ⟨⟨⟨h.sound.accepted, h.sound.tx, h.sound.cad⟩, h.busy, h.fits⟩,
        ⟨fun hne => absurd rfl hne, fun hne => absurd rfl hne⟩, paired_same rfl⟩

theorem kept_run {s : System} (h : Orderly s) {turns : List Turn} (ht : AllObliging s turns) :
    Orderly (run s turns) ∧
      pairs (activeKind s.radio.state) (trace s turns) =
        some (activeKind (run s turns).radio.state) ∧
      ∀ first t rest, turns = first ++ t :: rest →
        Steady (run s first).radio ((run s first).turn t).radio := by
  induction turns generalizing s with
  | nil =>
    refine ⟨h, rfl, fun first t rest hnil => ?_⟩
    cases first <;> cases hnil
  | cons t turns ih =>
    obtain ⟨hfirst, hrest⟩ := ht
    have hkept := kept_turn h hfirst
    obtain ⟨horderly, hpairs, hsteady⟩ := ih hkept.orderly hrest
    refine ⟨horderly, ?_, fun first u rest hsplit => ?_⟩
    · rw [trace, pairs_append _ _ _ _ hkept.paired]
      exact hpairs
    · cases first with
      | nil =>
        obtain ⟨rfl, rfl⟩ := List.cons.inj hsplit
        exact hkept.steady
      | cons v first =>
        obtain ⟨rfl, htail⟩ := List.cons.inj hsplit
        exact hsteady first u rest htail

theorem created_orderly : Orderly created where
  sound := ⟨rfl, by decide, by decide⟩
  busy := rfl
  fits := by
    intro p hp
    cases hp

structure Lawful (s : System) : Prop where
  accepted : s.radio.rejected = false
  busy : s.pending = [] → s.radio.operationBusy = false
  tx : s.radio.txStatus.state = .inProgress ↔ s.radio.state = .tx
  cad : s.radio.channelActivityStatus.state = .inProgress ↔ s.radio.state = .cad

theorem lawful_of_orderly {s : System} (h : Orderly s) : Lawful s where
  accepted := h.sound.accepted
  busy := by
    intro hnone
    have hcount := h.busy
    rw [hnone] at hcount
    cases hbusy : s.radio.operationBusy with
    | false => rfl
    | true =>
      rw [hbusy] at hcount
      cases hcount
  tx := h.sound.tx
  cad := h.sound.cad

/-- Every run whose turns are obliging is lawful in the state it reaches; its
operations end with one result each, except for one that is still open in the
radio's state; and a status record changes only where its operation starts or
ends. -/
theorem radio_lawful (turns : List Turn) (h : AllObliging created turns) :
    Lawful (run created turns) ∧
      pairs none (trace created turns) = some (activeKind (run created turns).radio.state) ∧
      ∀ first t rest, turns = first ++ t :: rest →
        Steady (run created first).radio ((run created first).turn t).radio := by
  obtain ⟨horderly, hpairs, hsteady⟩ := kept_run created_orderly h
  exact ⟨lawful_of_orderly horderly, hpairs, hsteady⟩

def answer (status : Status) : Answer := ⟨status, noEvents⟩

def sentTurns : List Turn :=
  [.call (.configure true), .resume 0 (answer .ok), .call (.transmit [1] 100 (.ok 0) false),
    .resume 0 (answer .ok), .call .process, .resume 0 ⟨.ok, { noEvents with txDone := true }⟩]

theorem sentTurns_lawful :
    Lawful (run created sentTurns) ∧ trace created sentTurns =
      [.started .transmit, .ended .transmit (some .ok)] := by
  have hend : ∀ {s : System} {index : ℕ} {a : Answer} {p : Pending},
      s.pending[index]? = some p → Allowed a p → Obliging s (.resume index a) := by
    intro s index a p hindex hallowed q hq
    rw [hindex] at hq
    exact Option.some.inj hq ▸ hallowed
  refine ⟨(radio_lawful sentTurns ?_).1, by decide⟩
  refine ⟨trivial, hend (p := .configure) rfl trivial, trivial,
    hend (p := .transmitStart false) rfl trivial, trivial,
    hend (p := .service .tx .process) rfl trivial, trivial⟩

def failedCancel : List Turn :=
  [.call (.configure true), .resume 0 (answer .ok), .call (.transmit [1] 100 (.ok 0) false),
    .resume 0 (answer .ok), .call .cancel, .resume 0 (answer .ebus)]

/-- Its status stays in progress outside the transmitting state, and it never
gets a result. -/
theorem failed_cancel_unlawful :
    (run created failedCancel).pending = [] ∧
      (run created failedCancel).radio.state = .error ∧
      (run created failedCancel).radio.txStatus.state = .inProgress ∧
      ¬ Lawful (run created failedCancel) ∧
      trace created failedCancel = [.started .transmit, .ended .transmit none] := by
  refine ⟨by decide, by decide, by decide, fun h => ?_, by decide⟩
  exact absurd (h.tx.mp (by decide)) (by decide)

end JaszczurHal.LoraRadioSafety
