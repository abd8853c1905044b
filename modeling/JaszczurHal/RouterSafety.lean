import JaszczurHal.RouterSteps

/-!
# Safety of the command router

What a caller may rely on in every interleaving: the calls act on a finite map,
a handler runs only for an admitted request, its slot stays as it is while it
runs, and the counts of running dispatches balance.
-/

set_option autoImplicit false

namespace JaszczurHal.RouterSafety
open JaszczurHal.HalStatus JaszczurHal.CommandTypes JaszczurHal.HandlePool
open JaszczurHal.CommandRouter JaszczurHal.RouterRegistry JaszczurHal.RouterRuns
open JaszczurHal.RouterSteps

variable {c : Config}

@[simp] theorem setCommands_self (s : State c) (i : Fin c.maxInstances) (commands : Commands c) :
    ((setCommands s i commands).contexts i).commands = commands := by
  simp [setCommands]

theorem setCommands_other (s : State c) {i i' : Fin c.maxInstances} (hi : i' ≠ i)
    (commands : Commands c) : (setCommands s i commands).contexts i' = s.contexts i' := by
  simp [setCommands, hi]

theorem registry_counted (commands : Commands c) (j : Fin c.maxCommands) (n : UInt32) :
    registry (Function.update commands j { commands j with activeDispatches := n }) =
      registry commands := by
  have hsame := registration_update commands j n
  have hfind : findCommand
      (Function.update commands j { commands j with activeDispatches := n }) =
      findCommand commands := by
    funext name
    simp only [findCommand, hsame]
  funext name
  rw [registry, registry, hfind]
  cases findCommand commands name with
  | none => rfl
  | some j' => exact hsame j'

def CallMade (s s' : State c) (k : ℕ) (lease : Lease (Fin c.maxInstances)) (call : Call) :
    Prop :=
  let commands := (s.contexts lease.token).commands
  let commands' := (s'.contexts lease.token).commands
  (∀ i, i ≠ lease.token → s'.contexts i = s.contexts i) ∧
    ∃ phase, s'.operations = s.operations.set k ⟨lease, phase⟩ ∧
      if leaseIsOpen s.slots lease then
        match call with
        | .destroy _ => registry commands' = registry commands ∧
          ∃ status final, phase = .leaving (Reply.of status) final ∧
            DestroyCall s s' lease status
        | .dispatch request name => registry commands' = registry commands ∧
          match lookup (registry commands) request name with
          | .error reply => phase = .leaving reply false
          | .ok r => ∃ j, (commands j).registration = some r ∧ phase = .running j
        | call => ∃ status, phase = .leaving (Reply.of status) false ∧
          RegistryCall commands commands' status call
      else
        registry commands' = registry commands ∧ phase = .leaving (Reply.of .euninit) false

def LastCall (s s' : State c) (a : Action) (i : Fin c.maxInstances) : Prop :=
  ∃ k lease reply final, a = .finish k ∧
    s.operations[k]? = some ⟨lease, .leaving reply final⟩ ∧ lease.token = i ∧
    leaseIsOpen s.slots lease = false ∧ registry (s'.contexts i).commands = (fun _ => none) ∧
    ∀ op ∈ s'.operations, op.lease.token = i → isDone op.phase = true

structure Safe (s : State c) : Prop where
  distinct : ∀ i, Distinct (s.contexts i).commands
  counted : ∀ i j,
    ((s.contexts i).commands j).activeDispatches.toNat = running s.operations i j
  made : ∀ k lease call, s.operations[k]? = some ⟨lease, .entered call⟩ →
    CallMade s (step s (.body k)).1 k lease call
  outside : ∀ a i, (∀ k, a ≠ .body k) →
    registry ((step s a).1.contexts i).commands = registry (s.contexts i).commands ∨
      LastCall s (step s a).1 a i
  admitted : ∀ a i j r request, Event.invoked i j r request ∈ (step s a).2 →
    ∃ name, registry (s.contexts i).commands name = some r ∧
      ((s.contexts i).commands j).registration = some r ∧
      r.allowedSources &&& sourceMask request.source ≠ 0 ∧
      request.securityFlags &&& r.requiredSecurity = r.requiredSecurity
  untouched : ∀ a i j, running s.operations i j ≠ 0 →
    (((step s a).1.contexts i).commands j).registration =
      ((s.contexts i).commands j).registration
  returns : ∀ k lease j status response, s.operations[k]? = some ⟨lease, .running j⟩ →
    (step s (.handlerReturns k status response)).1.operations =
        s.operations.set k ⟨lease, .leaving (handlerReply status response) false⟩ ∧
      (((step s (.handlerReturns k status response)).1.contexts lease.token).commands
          j).activeDispatches.toNat+1 =
        ((s.contexts lease.token).commands j).activeDispatches.toNat

section Safety

variable {s : State c}

theorem lease_allocated {k : ℕ} {lease : Lease (Fin c.maxInstances)} {call : Call}
    (h : Sound s) (hk : s.operations[k]? = some ⟨lease, .entered call⟩) :
    (s.contexts lease.token).allocated = true := by
  obtain ⟨i, _, htoken, _⟩ := h.op_slot (List.mem_of_getElem? hk) (h.op_active hk rfl)
  exact h.allocated i _ htoken

theorem edit_made {k : ℕ} {lease : Lease (Fin c.maxInstances)} {call : Call} (h : Sound s)
    (hk : s.operations[k]? = some ⟨lease, .entered call⟩) (hedit : isEdit call = true)
    (hopen : leaseIsOpen s.slots lease = true) :
    ∃ status commands, (body s k lease call).1 =
        setPhase (setCommands s lease.token commands) k lease
          (.leaving (Reply.of status) false) ∧
      RegistryCall (s.contexts lease.token).commands commands status call := by
  have hchange := body_change k lease (h.wf lease.token) call
  generalize (body s k lease call).1 = s' at hchange ⊢
  generalize (body s k lease call).2 = es at hchange
  cases hchange with
  | closed call shut => simp [hopen, lease_allocated h hk] at shut
  | answers call edit status commands opened change answer =>
    exact ⟨status, commands, rfl, answer⟩
  | keeps | closes | refuses | invokes => cases hedit

theorem made {k : ℕ} {lease : Lease (Fin c.maxInstances)} {call : Call} (h : Sound s)
    (haimed : Aimed s.operations) (hk : s.operations[k]? = some ⟨lease, .entered call⟩) :
    CallMade s (body s k lease call).1 k lease call := by
  have hallocated := lease_allocated h hk
  by_cases hopen : leaseIsOpen s.slots lease = true
  · cases call with
    | destroy router =>
      obtain ⟨status, final, slots, hbody, hdestroy⟩ := destroy_made h haimed hk hopen
      rw [hbody]
      refine ⟨fun i _ => rfl, _, rfl, ?_⟩
      rw [if_pos hopen]
      exact ⟨rfl, status, final, rfl, hdestroy⟩
    | register r replaceExisting | unregister name | unregisterIfMatches name handler user
    | clear =>
      obtain ⟨status, commands, hbody, hanswer⟩ := edit_made h hk rfl hopen
      rw [hbody]
      refine ⟨fun i hi => setCommands_other s hi commands, _, rfl, ?_⟩
      rw [if_pos hopen]
      refine ⟨status, rfl, ?_⟩
      simpa [setPhase] using hanswer
    | dispatch request name =>
      have hchange := body_change k lease (h.wf lease.token) (.dispatch request name)
      have hlookup := admitDispatch_lookup (s.contexts lease.token).commands request name
      generalize (body s k lease (.dispatch request name)).1 = s' at hchange ⊢
      generalize (body s k lease (.dispatch request name)).2 = es at hchange
      cases hchange with
      | closed _ shut => simp [hopen, hallocated] at shut
      | answers _ edit => cases edit
      | refuses _ _ reply opened refused =>
        refine ⟨fun i _ => rfl, _, rfl, ?_⟩
        rw [refused] at hlookup
        rw [if_pos hopen]
        dsimp only
        rw [← hlookup]
        exact ⟨rfl, rfl⟩
      | invokes _ _ j r opened admitted =>
        refine ⟨fun i hi => setCommands_other s hi _, _, rfl, ?_⟩
        obtain ⟨_, hr, _, _⟩ := admitDispatch_ok admitted
        rw [admitted] at hlookup
        rw [if_pos hopen]
        dsimp only
        rw [← hlookup]
        refine ⟨?_, j, hr, rfl⟩
        simp [setPhase, registry_counted]
  · have hshut := Bool.eq_false_iff.mpr hopen
    have hbody : (body s k lease call).1 =
        setPhase s k lease (.leaving (Reply.of .euninit) false) := by
      unfold body
      simp [hshut]
    rw [hbody]
    refine ⟨fun i _ => rfl, _, rfl, ?_⟩
    rw [if_neg hopen]
    exact ⟨rfl, rfl⟩

theorem returns {k : ℕ} {lease : Lease (Fin c.maxInstances)} {j : Fin c.maxCommands}
    (h : Sound s) (hk : s.operations[k]? = some ⟨lease, .running j⟩) (reply : Reply) :
    (afterHandler s k lease j reply).operations =
        s.operations.set k ⟨lease, .leaving reply false⟩ ∧
      (((afterHandler s k lease j reply).contexts lease.token).commands
          j).activeDispatches.toNat+1 =
        ((s.contexts lease.token).commands j).activeDispatches.toNat := by
  have hactive := (h.counted hk rfl).1
  simp only at hactive
  have hpos : ((s.contexts lease.token).commands j).activeDispatches.toNat ≠ 0 :=
    fun hzero => hactive (UInt32.toNat_inj.mp hzero)
  have hle : (1 : UInt32) ≤ ((s.contexts lease.token).commands j).activeDispatches := by
    rw [UInt32.le_iff_toNat_le]
    exact Nat.one_le_iff_ne_zero.mpr hpos
  rw [afterHandler_eq h hk]
  refine ⟨rfl, ?_⟩
  simp only [setPhase, setCommands_self, Function.update_self]
  rw [UInt32.toNat_sub_of_le _ _ hle]
  exact Nat.sub_add_cancel (Nat.one_le_iff_ne_zero.mpr hpos)

/-- The slot a call ends on was closed if ending it gives back the token. -/
theorem deferred_closed {slots slots' : Slots c.shape (Fin c.maxInstances)}
    {lease lease' : Lease (Fin c.maxInstances)} {i : Fin c.maxInstances}
    (hend : endOperation slots lease = .ok (some i, lease', slots')) :
    leaseIsOpen slots lease = false := by
  obtain ⟨s, hindex, _, _, _, _, _, hdeferred, _⟩ := endOperation_ok hend
  have hclosing : (slots s).closing = true := by
    rw [Slot.finishClose] at hdeferred
    split at hdeferred
    · rename_i hdone
      simp only [Bool.and_eq_true] at hdone
      exact hdone.1
    · cases hdeferred
  by_contra hopen
  have hshut := (leaseIsOpen_inUse hindex (Bool.eq_true_of_not_eq_false hopen)).2
  rw [hshut] at hclosing
  cases hclosing

theorem outside_allocate {s' : State c} {isDefault : Bool} {handle : ℕ} (h : Sound s)
    (hallocate : allocateContext s isDefault = .ok (handle, s')) (i : Fin c.maxInstances) :
    (s'.contexts i).commands = (s.contexts i).commands := by
  obtain ⟨i', slots, hunused, _, rfl⟩ := allocateContext_ok hallocate
  by_cases hi : i = i'
  · subst hi
    simp [h.cleared i hunused]
  · simp [hi]

theorem outside_handler {k : ℕ} {lease : Lease (Fin c.maxInstances)} {j : Fin c.maxCommands}
    (h : Sound s) (hk : s.operations[k]? = some ⟨lease, .running j⟩) (reply : Reply)
    (i : Fin c.maxInstances) :
    registry ((afterHandler s k lease j reply).contexts i).commands =
      registry (s.contexts i).commands := by
  rw [afterHandler_eq h hk]
  by_cases hi : i = lease.token
  · subst hi
    simp [setPhase, registry_counted]
  · exact congrArg (fun context => registry context.commands) (setCommands_other s hi _)

theorem outside_finish {k : ℕ} {lease : Lease (Fin c.maxInstances)} {reply : Reply}
    {final : Bool} (h : Sound s)
    (hk : s.operations[k]? = some ⟨lease, .leaving reply final⟩) (i : Fin c.maxInstances) :
    ((finish s k lease reply final).1.contexts i).commands = (s.contexts i).commands ∨
      LastCall s (finish s k lease reply final).1 (.finish k) i := by
  have hsound := inv_finish h hk
  have hchange := finish_change h hk
  generalize (finish s k lease reply final).1 = s' at hsound hchange ⊢
  generalize (finish s k lease reply final).2 = es at hchange
  cases hchange with
  | ends slots ended => exact Or.inl rfl
  | clears slots ended unheld =>
    by_cases hi : i = lease.token
    · subst hi
      refine Or.inr ⟨k, lease, reply, final, rfl, hk, rfl, deferred_closed ended, ?_, ?_⟩
      · simp [setPhase, Context.cleared, registry_clear]
      · intro op hop htoken
        by_contra hdone
        have hactive := (hsound.active_iff op hop).mpr (Bool.eq_false_iff.mpr hdone)
        obtain ⟨i, _, hslot, _⟩ := hsound.op_slot hop hactive
        rw [htoken] at hslot
        exact unheld i hslot
    · exact Or.inl (by simp [setPhase, hi])

theorem outside (h : Sound s) (a : Action) (i : Fin c.maxInstances) (ha : ∀ k, a ≠ .body k) :
    registry ((step s a).1.contexts i).commands = registry (s.contexts i).commands ∨
      LastCall s (step s a).1 a i := by
  cases a with
  | create =>
    simp only [step]
    cases hallocate : allocateContext s false with
    | error status => exact Or.inl rfl
    | ok result => exact Or.inl (congrArg registry (outside_allocate h hallocate i))
  | default =>
    simp only [step]
    cases s.defaultRouter.filter fun handle => (resolve s.slots handle).isOk with
    | some handle => exact Or.inl rfl
    | none =>
      cases hallocate : allocateContext s true with
      | error status => exact Or.inl rfl
      | ok result =>
        obtain ⟨handle, opened⟩ := result
        exact Or.inl (congrArg registry (outside_allocate h hallocate i))
  | enter router call =>
    simp only [step]
    cases prepare c router call with
    | error reply => exact Or.inl rfl
    | ok call =>
      cases acquire s.slots router with
      | error status => exact Or.inl rfl
      | ok result => exact Or.inl rfl
  | body k => exact absurd rfl (ha k)
  | handlerReturns k status response =>
    simp only [step]
    split
    · rename_i lease j hk
      exact Or.inl (outside_handler h hk _ i)
    · exact Or.inl rfl
  | finish k =>
    simp only [step]
    split
    · rename_i lease reply final hk
      exact (outside_finish h hk i).imp (congrArg registry) id
    · exact Or.inl rfl

theorem admitted (h : Sound s) (a : Action) {i : Fin c.maxInstances} {j : Fin c.maxCommands}
    {r : Registration} {request : Request}
    (he : Event.invoked i j r request ∈ (step s a).2) :
    ∃ name, registry (s.contexts i).commands name = some r ∧
      ((s.contexts i).commands j).registration = some r ∧
      r.allowedSources &&& sourceMask request.source ≠ 0 ∧
      request.securityFlags &&& r.requiredSecurity = r.requiredSecurity := by
  cases a with
  | create =>
    simp only [step] at he
    split at he <;> simp at he
  | default =>
    simp only [step] at he
    split at he
    · simp at he
    · split at he <;> simp at he
  | enter router call =>
    simp only [step] at he
    split at he
    · simp at he
    · split at he <;> simp at he
  | body k =>
    simp only [step] at he
    split at he
    · rename_i lease call hk
      have hchange := body_change k lease (h.wf lease.token) call
      generalize (body s k lease call).1 = s' at hchange
      generalize (body s k lease call).2 = es at hchange he
      cases hchange with
      | invokes request' name j' r' opened hadmit =>
        simp only [List.mem_singleton, Event.invoked.injEq] at he
        obtain ⟨rfl, rfl, rfl, rfl⟩ := he
        exact ⟨name, admitDispatch_ok hadmit⟩
      | closed | answers | keeps | closes | refuses => cases he
    · cases he
  | handlerReturns k status response =>
    simp only [step] at he
    split at he <;> cases he
  | finish k =>
    simp only [step] at he
    split at he
    · rename_i lease reply final hk
      have hchange := finish_change h hk
      generalize (finish s k lease reply final).1 = s' at hchange
      generalize (finish s k lease reply final).2 = es at hchange he
      cases hchange <;> simp at he
    · cases he

/-- The slot a dispatch runs through is not touched under the mutex. -/
theorem untouched_body {k : ℕ} {lease : Lease (Fin c.maxInstances)} {call : Call}
    (h : Sound s) {i : Fin c.maxInstances} {j : Fin c.maxCommands}
    (hactive : ((s.contexts i).commands j).activeDispatches ≠ 0) :
    (((body s k lease call).1.contexts i).commands j).registration =
      ((s.contexts i).commands j).registration := by
  have hchange := body_change k lease (h.wf lease.token) call
  generalize (body s k lease call).1 = s' at hchange ⊢
  generalize (body s k lease call).2 = es at hchange
  cases hchange with
  | closed | keeps | closes | refuses => rfl
  | answers call edit status commands opened change answer =>
    by_cases hi : i = lease.token
    · subst hi
      simp only [setPhase, setCommands_self]
      rw [change.untouched hactive]
    · simp only [setPhase]
      rw [setCommands_other s hi]
  | invokes request name j' r opened admitted =>
    by_cases hi : i = lease.token
    · subst hi
      simp only [setPhase, setCommands_self]
      exact registration_update _ j' _ j
    · simp only [setPhase]
      rw [setCommands_other s hi]

theorem running_finished {k : ℕ} {lease : Lease (Fin c.maxInstances)} {reply : Reply}
    {final : Bool} (hk : s.operations[k]? = some ⟨lease, .leaving reply final⟩)
    (i : Fin c.maxInstances) (j : Fin c.maxCommands) :
    running (s.operations.set k ⟨{ lease with active := false }, .done⟩) i j =
      running s.operations i j :=
  running_quiet hk (fun _ => rfl) (fun _ => rfl) i j

theorem untouched_finish {k : ℕ} {lease : Lease (Fin c.maxInstances)} {reply : Reply}
    {final : Bool} (h : Sound s)
    (hk : s.operations[k]? = some ⟨lease, .leaving reply final⟩) {i : Fin c.maxInstances}
    {j : Fin c.maxCommands} (hrunning : running s.operations i j ≠ 0) :
    ((finish s k lease reply final).1.contexts i).commands = (s.contexts i).commands := by
  have hoperations : (finish s k lease reply final).1.operations =
      s.operations.set k ⟨{ lease with active := false }, .done⟩ := by
    have hchange := finish_change h hk
    generalize (finish s k lease reply final).1 = s' at hchange ⊢
    generalize (finish s k lease reply final).2 = es at hchange
    cases hchange <;> rfl
  rcases outside_finish h hk i with hsame | ⟨_, _, _, _, _, _, _, _, _, hdone⟩
  · exact hsame
  · -- the dispatch that runs would outlive the last call
    have hsame := running_finished hk i j
    rw [← hsame, ← hoperations, running, ← Nat.pos_iff_ne_zero, List.countP_pos_iff]
      at hrunning
    obtain ⟨op, hop, hruns⟩ := hrunning
    simp only [Bool.and_eq_true, decide_eq_true_eq] at hruns
    have hphase := hdone op hop hruns.1
    cases hp : op.phase <;> simp_all [runsSlot, isDone]

theorem untouched (h : Sound s) (a : Action) {i : Fin c.maxInstances} {j : Fin c.maxCommands}
    (hrunning : running s.operations i j ≠ 0) :
    (((step s a).1.contexts i).commands j).registration =
      ((s.contexts i).commands j).registration := by
  have hactive : ((s.contexts i).commands j).activeDispatches ≠ 0 := by
    intro hzero
    rw [← h.count, hzero] at hrunning
    exact hrunning rfl
  cases a with
  | create =>
    simp only [step]
    cases hallocate : allocateContext s false with
    | error status => rfl
    | ok result =>
      obtain ⟨handle, opened⟩ := result
      dsimp only
      rw [outside_allocate h hallocate i]
  | default =>
    simp only [step]
    cases s.defaultRouter.filter fun handle => (resolve s.slots handle).isOk with
    | some handle => rfl
    | none =>
      cases hallocate : allocateContext s true with
      | error status => rfl
      | ok result =>
        obtain ⟨handle, opened⟩ := result
        dsimp only
        rw [outside_allocate h hallocate i]
  | enter router call =>
    simp only [step]
    cases prepare c router call with
    | error reply => rfl
    | ok call =>
      cases acquire s.slots router with
      | error status => rfl
      | ok result => rfl
  | body k =>
    simp only [step]
    split
    · exact untouched_body h hactive
    · rfl
  | handlerReturns k status response =>
    simp only [step]
    split
    · rename_i lease j' hk
      rw [afterHandler_eq h hk]
      by_cases hi : i = lease.token
      · subst hi
        simp only [setPhase, setCommands_self]
        exact registration_update _ j' _ j
      · simp only [setPhase]
        rw [setCommands_other s hi]
    · rfl
  | finish k =>
    simp only [step]
    split
    · rename_i lease reply final hk
      rw [untouched_finish h hk hrunning]
    · rfl

theorem safe (h : Sound s) (haimed : Aimed s.operations) : Safe s where
  distinct i := (h.wf i).distinct
  counted := h.count
  made k lease call hk := by
    have hstep : step s (.body k) = body s k lease call := by
      simp only [step, hk]
    rw [hstep]
    exact made h haimed hk
  outside := outside h
  admitted a _ _ _ _ he := admitted h a he
  untouched a _ _ hrunning := untouched h a hrunning
  returns k lease j status response hk := by
    have hstep : (step s (.handlerReturns k status response)).1 =
        afterHandler s k lease j (handlerReply status response) := by
      simp only [step, hk]
    rw [hstep]
    exact returns h hk _

theorem aimed_run (h : Sound s) (haimed : Aimed s.operations) (as : List Action) :
    Aimed (run s as).1.operations := by
  induction as generalizing s with
  | nil => exact haimed
  | cons a as ih => exact ih (inv_step h a) (aimed_step h haimed a)

end Safety

def isRunning : Phase c → Bool
  | .running _ => true
  | _ => false

theorem countP_same {α : Type} {p : α → Bool} : ∀ {l l' : List α},
    (∀ (k : ℕ) (x : α), p x = true → (l[k]? = some x ↔ l'[k]? = some x)) →
      l.countP p = l'.countP p
  | [], [], _ => rfl
  | [], y :: l', h => by
    symm
    rw [List.countP_nil, List.countP_eq_zero]
    intro x hx hp
    obtain ⟨k, hk⟩ := List.getElem?_of_mem hx
    have hno := (h k x hp).mpr hk
    simp at hno
  | x :: l, [], h => by
    rw [List.countP_nil, List.countP_eq_zero]
    intro y hy hp
    obtain ⟨k, hk⟩ := List.getElem?_of_mem hy
    have hno := (h k y hp).mp hk
    simp at hno
  | x :: l, y :: l', h => by
    have hrest : l.countP p = l'.countP p := countP_same fun k z hz => h (k+1) z hz
    rw [List.countP_cons, List.countP_cons, hrest]
    have hx : p x = true → y = x := fun hx => by simpa using (h 0 x hx).mp rfl
    have hy : p y = true → x = y := fun hy => by simpa using (h 0 y hy).mpr rfl
    cases hpx : p x with
    | true => rw [hx hpx, hpx]
    | false =>
      cases hpy : p y with
      | true =>
        rw [hy hpy, hpy] at hpx
        cases hpx
      | false => rfl

/-- The same dispatches running at two moments of a run count the same. -/
theorem running_same {operations operations' : List (Operation c)}
    (h : ∀ (k : ℕ) (op : Operation c), isRunning op.phase = true →
      (operations[k]? = some op ↔ operations'[k]? = some op))
    (i : Fin c.maxInstances) (j : Fin c.maxCommands) :
    running operations i j = running operations' i j := by
  apply countP_same
  intro k op hruns
  simp only [Bool.and_eq_true] at hruns
  apply h k op
  cases hphase : op.phase <;> simp_all [runsSlot, isRunning]

/-- The router is safe after any interleaving of calls, those that handlers make
included; and at two moments with the same dispatches running, the one before
and the one after a dispatch and all that went on meanwhile, every count is the
same. -/
theorem command_router_safe (c : Config) (as : List Action) :
    Safe (run (start c) as).1 ∧
      ∀ bs : List Action, (∀ (k : ℕ) (op : Operation c), isRunning op.phase = true →
          ((run (start c) as).1.operations[k]? = some op ↔
            (run (run (start c) as).1 bs).1.operations[k]? = some op)) →
        ∀ i j, (((run (run (start c) as).1 bs).1.contexts i).commands j).activeDispatches =
          (((run (start c) as).1.contexts i).commands j).activeDispatches := by
  have hsound := inv_run (inv_start c) as
  have haimed := aimed_run (inv_start c) (by simp [Aimed, start]) as
  refine ⟨safe hsound haimed, fun bs hsame i j => ?_⟩
  have hsound' := inv_run hsound bs
  apply UInt32.toNat_inj.mp
  rw [hsound'.count i j, hsound.count i j]
  exact (running_same hsame i j).symm

end JaszczurHal.RouterSafety
