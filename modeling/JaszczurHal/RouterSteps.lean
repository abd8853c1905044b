import JaszczurHal.RouterRuns

/-!
# Steps of the command router

What one locked section can do, and from it the invariant of every
interleaving. A router is destroyed only when nothing runs in it.
-/

set_option autoImplicit false

namespace JaszczurHal.RouterSteps
open JaszczurHal.HalStatus JaszczurHal.CommandTypes JaszczurHal.HandlePool
open JaszczurHal.CommandRouter JaszczurHal.RouterRegistry JaszczurHal.RouterRuns

variable {c : Config}

def isEdit : Call → Bool
  | .destroy _ | .dispatch _ _ => false
  | _ => true

inductive BodyChange (s : State c) (k : ℕ) (lease : Lease (Fin c.maxInstances)) :
    Call → State c → List (Event c) → Prop
  | closed (call : Call)
      (shut : (!leaseIsOpen s.slots lease || !(s.contexts lease.token).allocated) = true) :
      BodyChange s k lease call
        (setPhase s k lease (.leaving (Reply.of .euninit) false)) []
  | answers (call : Call) (edit : isEdit call = true) (status : Status) (commands : Commands c)
      (opened : (!leaseIsOpen s.slots lease || !(s.contexts lease.token).allocated) = false)
      (change : CommandsChange (s.contexts lease.token).commands commands)
      (answer : RegistryCall (s.contexts lease.token).commands commands status call) :
      BodyChange s k lease call
        (setPhase (setCommands s lease.token commands) k lease
          (.leaving (Reply.of status) false)) []
  | keeps (router : ℕ) (reply : Reply) (final : Bool) :
      BodyChange s k lease (.destroy router) (setPhase s k lease (.leaving reply final)) []
  | closes (router : ℕ) (token : Option (Fin c.maxInstances))
      (slots : Slots c.shape (Fin c.maxInstances))
      (begins : beginClose s.slots router = .ok (token, slots)) (reply : Reply) (final : Bool) :
      BodyChange s k lease (.destroy router)
        (setPhase { s with slots := slots } k lease (.leaving reply final)) []
  | refuses (request : Request) (name : List UInt8) (reply : Reply)
      (opened : (!leaseIsOpen s.slots lease || !(s.contexts lease.token).allocated) = false)
      (refused : admitDispatch (s.contexts lease.token).commands request name = .error reply) :
      BodyChange s k lease (.dispatch request name)
        (setPhase s k lease (.leaving reply false)) []
  | invokes (request : Request) (name : List UInt8) (j : Fin c.maxCommands) (r : Registration)
      (opened : (!leaseIsOpen s.slots lease || !(s.contexts lease.token).allocated) = false)
      (admitted : admitDispatch (s.contexts lease.token).commands request name = .ok (j, r)) :
      BodyChange s k lease (.dispatch request name)
        (setPhase (setCommands s lease.token
            (Function.update (s.contexts lease.token).commands j
              { (s.contexts lease.token).commands j with activeDispatches :=
                ((s.contexts lease.token).commands j).activeDispatches+1 }))
          k lease (.running j)) [.invoked lease.token j r request]

theorem body_change {s : State c} (k : ℕ) (lease : Lease (Fin c.maxInstances))
    (hwf : Wf (s.contexts lease.token).commands) (call : Call) :
    BodyChange s k lease call (body s k lease call).1 (body s k lease call).2 := by
  unfold body
  by_cases hshut :
      (!leaseIsOpen s.slots lease || !(s.contexts lease.token).allocated) = true
  · rw [if_pos hshut]
    exact .closed call hshut
  · rw [if_neg hshut]
    have hopen := Bool.eq_false_iff.mpr hshut
    cases call with
    | destroy router =>
      dsimp only
      by_cases hdefault : (s.contexts lease.token).isDefault = true
      · rw [if_pos hdefault]
        exact .keeps router _ _
      · rw [if_neg hdefault]
        by_cases hactive : anyActive (s.contexts lease.token).commands = true
        · rw [if_pos hactive]
          exact .keeps router _ _
        · rw [if_neg hactive]
          cases hclose : beginClose s.slots router with
          | error status => exact .keeps router _ _
          | ok result => exact .closes router result.1 result.2 hclose _ _
    | register r replaceExisting =>
      obtain ⟨hchange, hanswer⟩ := registerCommand_spec hwf r replaceExisting
      exact .answers _ rfl _ _ hopen hchange hanswer
    | unregister name =>
      obtain ⟨hchange, hanswer⟩ := unregisterCommand_spec hwf name
      exact .answers _ rfl _ _ hopen hchange hanswer
    | unregisterIfMatches name handler user =>
      obtain ⟨hchange, hanswer⟩ := unregisterMatching_spec hwf name handler user
      exact .answers _ rfl _ _ hopen hchange hanswer
    | clear =>
      obtain ⟨hchange, hanswer⟩ := clearCommands_spec (s.contexts lease.token).commands
      exact .answers _ rfl _ _ hopen hchange hanswer
    | dispatch request name =>
      dsimp only
      cases hadmit : admitDispatch (s.contexts lease.token).commands request name with
      | error reply => exact .refuses request name reply hopen hadmit
      | ok found => exact .invokes request name found.1 found.2 hopen hadmit

def Sound (s : State c) : Prop := RouterInv s.slots s.contexts s.operations

theorem setCommands_same (s : State c) (i : Fin c.maxInstances) :
    Function.update s.contexts i { s.contexts i with commands := (s.contexts i).commands } =
      s.contexts :=
  Function.update_eq_self i s.contexts

theorem inv_start (c : Config) : Sound (start c) where
  pool := HandleRuns.inv_start c.shape (Fin c.maxInstances)
  active_iff := by simp [start]
  allocated _ _ htoken := nomatch htoken
  unique _ _ _ htoken := nomatch htoken
  wf _ := wf_zero
  count _ _ := rfl
  cleared _ _ := rfl

theorem inv_body {s : State c} (h : Sound s) {k : ℕ}
    {lease : Lease (Fin c.maxInstances)} {call : Call}
    (hk : s.operations[k]? = some ⟨lease, .entered call⟩) : Sound (body s k lease call).1 := by
  have hchange := body_change k lease (h.wf lease.token) call
  have hstay : ∀ (reply : Reply) (final : Bool),
      Sound (setPhase s k lease (.leaving reply final)) := by
    intro reply final
    have hleave := h.leave hk rfl (fun _ => rfl) .same reply final
    rw [setCommands_same] at hleave
    exact hleave
  generalize (body s k lease call).1 = s' at hchange
  generalize (body s k lease call).2 = es at hchange
  cases hchange with
  | closed call shut => exact hstay _ _
  | answers call edit status commands opened change answer =>
    exact h.leave hk rfl (fun _ => rfl) change _ _
  | keeps router reply final => exact hstay _ _
  | closes router token slots begins reply final =>
    exact h.closes hk rfl (fun _ => rfl) begins _ _
  | refuses request name reply opened refused => exact hstay _ _
  | invokes request name j r opened admitted =>
    obtain ⟨_, hr, _, _⟩ := admitDispatch_ok admitted
    exact h.invoke hk rfl (fun _ => rfl) hr

theorem afterHandler_eq {s : State c} (h : Sound s) {k : ℕ}
    {lease : Lease (Fin c.maxInstances)} {j : Fin c.maxCommands}
    (hk : s.operations[k]? = some ⟨lease, .running j⟩) (reply : Reply) :
    afterHandler s k lease j reply =
      setPhase (setCommands s lease.token
          (Function.update (s.contexts lease.token).commands j
            { (s.contexts lease.token).commands j with activeDispatches :=
              ((s.contexts lease.token).commands j).activeDispatches-1 }))
        k lease (.leaving reply false) := by
  obtain ⟨hactive, r, hr⟩ := h.counted hk rfl
  simp only at hactive hr
  rw [afterHandler]
  simp only [hr, hactive, Option.isNone_some, decide_false, Bool.or_self, Bool.false_eq_true,
    if_false]

/-- What ending a call does: the lease is always given back, and the last call
on a closed router clears its context. -/
inductive FinishChange (s : State c) (k : ℕ) (lease : Lease (Fin c.maxInstances))
    (reply : Reply) : State c → List (Event c) → Prop
  | ends (slots : Slots c.shape (Fin c.maxInstances))
      (ended : endOperation s.slots lease = .ok (none, { lease with active := false }, slots)) :
      FinishChange s k lease reply
        (setPhase { s with slots := slots } k { lease with active := false } .done)
        [.returned k reply]
  | clears (slots : Slots c.shape (Fin c.maxInstances))
      (ended : endOperation s.slots lease =
        .ok (some lease.token, { lease with active := false }, slots))
      (unheld : ∀ i, (slots i).token ≠ some lease.token) :
      FinishChange s k lease reply
        (setPhase { s with
            slots := slots
            contexts := Function.update s.contexts lease.token (.cleared c) }
          k { lease with active := false } .done)
        [.returned k reply]

theorem finish_change {s : State c} (h : Sound s) {k : ℕ}
    {lease : Lease (Fin c.maxInstances)} {reply : Reply} {final : Bool}
    (hk : s.operations[k]? = some ⟨lease, .leaving reply final⟩) :
    FinishChange s k lease reply (finish s k lease reply final).1
      (finish s k lease reply final).2 := by
  obtain ⟨deferred, slots, hend⟩ := h.endOperation_total hk rfl
  simp only at hend
  rw [finish, hend]
  cases deferred with
  | none => exact .ends slots hend
  | some i =>
    obtain ⟨rfl, hunheld⟩ := h.deferred hend
    simp only [if_true]
    exact .clears slots hend hunheld

theorem inv_finish {s : State c} (h : Sound s) {k : ℕ}
    {lease : Lease (Fin c.maxInstances)} {reply : Reply} {final : Bool}
    (hk : s.operations[k]? = some ⟨lease, .leaving reply final⟩) :
    Sound (finish s k lease reply final).1 := by
  have hchange := finish_change h hk
  generalize (finish s k lease reply final).1 = s' at hchange
  generalize (finish s k lease reply final).2 = es at hchange
  cases hchange with
  | ends slots ended => exact h.ends hk (fun _ => rfl) ended
  | clears slots ended unheld => exact (h.ends hk (fun _ => rfl) ended).clear unheld

theorem allocateContext_ok {s s' : State c} {isDefault : Bool} {handle : ℕ}
    (h : allocateContext s isDefault = .ok (handle, s')) :
    ∃ i slots, (s.contexts i).allocated = false ∧
      allocate s.slots (some i) = .ok (handle, slots) ∧
      s' = { s with
        slots := slots
        contexts := Function.update s.contexts i ⟨true, isDefault, fun _ => .zero⟩ } := by
  rw [allocateContext] at h
  cases hfind : (List.finRange c.maxInstances).find? fun i => !(s.contexts i).allocated with
  | none => simp [hfind] at h
  | some i =>
    simp only [hfind] at h
    have hunused := List.find?_some hfind
    simp only [Bool.not_eq_true'] at hunused
    cases hallocate : allocate s.slots (some i) with
    | error status => simp [hallocate] at h
    | ok result =>
      simp only [hallocate, Except.ok.injEq, Prod.mk.injEq] at h
      obtain ⟨rfl, rfl⟩ := h
      exact ⟨i, result.2, hunused, hallocate, rfl⟩

theorem inv_allocate {s s' : State c} (h : Sound s) {isDefault : Bool}
    {handle : ℕ} (hallocate : allocateContext s isDefault = .ok (handle, s')) : Sound s' := by
  obtain ⟨i, slots, hunused, hslots, rfl⟩ := allocateContext_ok hallocate
  exact h.opens hunused hslots isDefault

theorem inv_step {s : State c} (h : Sound s) (a : Action) : Sound (step s a).1 := by
  cases a with
  | create =>
    simp only [step]
    cases hallocate : allocateContext s false with
    | error status => exact h
    | ok result => exact inv_allocate h hallocate
  | default =>
    simp only [step]
    cases s.defaultRouter.filter fun handle => (resolve s.slots handle).isOk with
    | some handle => exact h
    | none =>
      cases hallocate : allocateContext s true with
      | error status => exact h
      | ok result =>
        obtain ⟨handle, opened⟩ := result
        have hopened : Sound opened := inv_allocate h hallocate
        exact hopened
  | enter router call =>
    simp only [step]
    cases prepare c router call with
    | error reply => exact h
    | ok call =>
      cases hacquire : acquire s.slots router with
      | error status => exact h
      | ok result => exact h.acquired hacquire call
  | body k =>
    simp only [step]
    split
    · rename_i lease call hk
      exact inv_body h hk
    · exact h
  | handlerReturns k status response =>
    simp only [step]
    split
    · rename_i lease j hk
      rw [afterHandler_eq h hk]
      exact h.handlerReturns hk rfl _
    · exact h
  | finish k =>
    simp only [step]
    split
    · rename_i lease reply final hk
      exact inv_finish h hk
    · exact h

theorem inv_run {s : State c} (h : Sound s) (as : List Action) : Sound (run s as).1 := by
  induction as generalizing s with
  | nil => exact h
  | cons a as ih => exact ih (inv_step h a)

def Aimed (operations : List (Operation c)) : Prop :=
  ∀ op ∈ operations, ∀ router, op.phase = .entered (.destroy router) →
    ∃ i : Fin c.shape.capacity, op.lease.index = i ∧
      decodeHandle c.shape router = some (i, op.lease.generation)

theorem aimed_set {operations : List (Operation c)} (h : Aimed operations) (k : ℕ)
    {new : Operation c} (hnew : ∀ call, new.phase ≠ .entered call) :
    Aimed (operations.set k new) := by
  intro op hop router hphase
  rcases List.mem_or_eq_of_mem_set hop with hold | rfl
  · exact h op hold router hphase
  · exact absurd hphase (hnew _)

theorem acquire_decode {slots slots' : Slots c.shape (Fin c.maxInstances)} {router : ℕ}
    {lease : Lease (Fin c.maxInstances)} (h : acquire slots router = .ok (lease, slots')) :
    ∃ i : Fin c.shape.capacity, lease.index = i ∧
      decodeHandle c.shape router = some (i, lease.generation) := by
  simp only [acquire] at h
  cases hresolve : resolve slots router with
  | error status => simp [hresolve] at h
  | ok found =>
    obtain ⟨t, i⟩ := found
    simp only [hresolve] at h
    split at h
    · cases h
    · simp only [Except.ok.injEq, Prod.mk.injEq] at h
      obtain ⟨rfl, _⟩ := h
      exact ⟨i, rfl, (resolve_ok hresolve).1⟩

theorem prepare_destroy {router router' : ℕ} {call : ApiCall}
    (h : prepare c router call = .ok (.destroy router')) : router' = router := by
  cases call with
  | destroy => simpa [prepare] using h.symm
  | registerErased d | register d | registerUnique d =>
    simp only [prepare, registerCall] at h
    split at h <;> simp at h
  | unregister name =>
    simp only [prepare] at h
    split at h <;> simp at h
  | unregisterIfMatches name handler user =>
    simp only [prepare] at h
    split at h <;> simp at h
  | clear => simp [prepare] at h
  | dispatch request =>
    simp only [prepare] at h
    split at h <;> simp at h

theorem aimed_step {s : State c} (hs : Sound s) (h : Aimed s.operations) (a : Action) :
    Aimed (step s a).1.operations := by
  cases a with
  | create =>
    simp only [step]
    cases hallocate : allocateContext s false with
    | error status => exact h
    | ok result =>
      obtain ⟨handle, opened⟩ := result
      obtain ⟨i, slots, _, _, heq⟩ := allocateContext_ok hallocate
      dsimp only
      rw [heq]
      exact h
  | default =>
    simp only [step]
    cases s.defaultRouter.filter fun handle => (resolve s.slots handle).isOk with
    | some handle => exact h
    | none =>
      cases hallocate : allocateContext s true with
      | error status => exact h
      | ok result =>
        obtain ⟨handle, opened⟩ := result
        obtain ⟨i, slots, _, _, heq⟩ := allocateContext_ok hallocate
        dsimp only
        rw [heq]
        exact h
  | enter router call =>
    simp only [step]
    cases hprepare : prepare c router call with
    | error reply => exact h
    | ok call =>
      cases hacquire : acquire s.slots router with
      | error status => exact h
      | ok result =>
        obtain ⟨lease, slots'⟩ := result
        intro op hop router' hphase
        rcases List.mem_append.mp hop with hop | hop
        · exact h op hop router' hphase
        · obtain rfl := List.mem_singleton.mp hop
          simp only [Phase.entered.injEq] at hphase
          subst hphase
          rw [prepare_destroy hprepare]
          exact acquire_decode hacquire
  | body k =>
    simp only [step]
    split
    · rename_i lease call hk
      have hchange := body_change k lease (hs.wf lease.token) call
      generalize (body s k lease call).1 = s' at hchange
      generalize (body s k lease call).2 = es at hchange
      cases hchange <;> exact aimed_set h k (fun _ => nofun)
    · exact h
  | handlerReturns k status response =>
    simp only [step]
    split
    · rename_i lease j hk
      rw [afterHandler_eq hs hk]
      exact aimed_set h k (fun _ => nofun)
    · exact h
  | finish k =>
    simp only [step]
    split
    · rename_i lease reply final hk
      have hchange := finish_change hs hk
      generalize (finish s k lease reply final).1 = s' at hchange
      generalize (finish s k lease reply final).2 = es at hchange
      cases hchange <;> exact aimed_set h k (fun _ => nofun)
    · exact h

/-- What a call to destroy a router answers; a destroyed router is closed and
nothing is running in it. -/
def DestroyCall (s s' : State c) (lease : Lease (Fin c.maxInstances)) (status : Status) : Prop :=
  (status = .eperm ∧ (s.contexts lease.token).isDefault = true ∧ s'.slots = s.slots) ∨
    (status = .ebusy ∧ (∃ j, ((s.contexts lease.token).commands j).activeDispatches ≠ 0) ∧
      s'.slots = s.slots) ∨
    (status = .ok ∧ (∀ j, ((s.contexts lease.token).commands j).activeDispatches = 0) ∧
      leaseIsOpen s'.slots lease = false)

theorem leaseIsOpen_inUse {slots : Slots c.shape (Fin c.maxInstances)}
    {lease : Lease (Fin c.maxInstances)} {i : Fin c.shape.capacity} (hindex : lease.index = i)
    (hopen : leaseIsOpen slots lease = true) :
    (slots i).inUse = true ∧ (slots i).closing = false := by
  have hlt : lease.index < c.shape.capacity := hindex ▸ i.isLt
  have hi : (⟨lease.index, hlt⟩ : Fin c.shape.capacity) = i := Fin.ext hindex
  rw [leaseIsOpen] at hopen
  split at hopen
  · rw [hi] at hopen
    simp only [Bool.and_eq_true, Bool.not_eq_true'] at hopen
    exact hopen.1.1
  · cases hopen

theorem destroy_made {s : State c} (h : Sound s) (haimed : Aimed s.operations) {k router : ℕ}
    {lease : Lease (Fin c.maxInstances)}
    (hk : s.operations[k]? = some ⟨lease, .entered (.destroy router)⟩)
    (hopen : leaseIsOpen s.slots lease = true) :
    ∃ status final slots,
      (body s k lease (.destroy router)).1 =
        setPhase { s with slots := slots } k lease (.leaving (Reply.of status) final) ∧
      DestroyCall s { s with slots := slots } lease status := by
  have hop := List.mem_of_getElem? hk
  have hactive : lease.active = true := h.op_active hk rfl
  obtain ⟨i, hindex, hdecode⟩ := haimed _ hop router rfl
  obtain ⟨i', hindex', htoken, hgeneration⟩ := h.op_slot hop hactive
  obtain rfl : i = i' := Fin.ext (hindex.symm.trans hindex')
  simp only at hindex htoken hgeneration hdecode
  have hallocated := h.allocated i _ htoken
  obtain ⟨hinUse, _⟩ := leaseIsOpen_inUse hindex hopen
  unfold body
  simp only [hopen, hallocated, Bool.not_true, Bool.or_self, Bool.false_eq_true, if_false]
  by_cases hdefault : (s.contexts lease.token).isDefault = true
  · rw [if_pos hdefault]
    exact ⟨.eperm, false, s.slots, rfl, Or.inl ⟨rfl, hdefault, rfl⟩⟩
  · rw [if_neg hdefault]
    by_cases hbusy : anyActive (s.contexts lease.token).commands = true
    · rw [if_pos hbusy]
      refine ⟨.ebusy, false, s.slots, rfl, Or.inr (Or.inl ⟨rfl, ?_, rfl⟩)⟩
      by_contra hidle
      have hnone := anyActive_iff.mpr fun j => by_contra fun hj => hidle ⟨j, hj⟩
      rw [hnone] at hbusy
      cases hbusy
    · rw [if_neg hbusy]
      have hidle := anyActive_iff.mp (Bool.eq_false_iff.mpr hbusy)
      have hresolve : resolve s.slots router = .ok (lease.token, i) := by
        simp [resolve, hdecode, hinUse, hgeneration, htoken]
      -- the lease this call holds keeps the token in its slot
      have hcount : (s.slots i).activeOperations ≠ 0 := by
        intro hzero
        have hout := (h.pool.slot i).operations
        rw [hzero] at hout
        exact HandleRuns.outstanding_ne_zero (List.mem_map_of_mem hop) hactive hindex hout.symm
      have hkeep : ({ s.slots i with inUse := false, closing := true } :
          Slot (Fin c.maxInstances)).finishClose =
          (none, { s.slots i with inUse := false, closing := true }) := by
        simp [Slot.finishClose, hcount]
      have hlt : lease.index < c.shape.capacity := hindex ▸ i.isLt
      have hi : (⟨lease.index, hlt⟩ : Fin c.shape.capacity) = i := Fin.ext hindex
      simp only [beginClose, hresolve, hkeep]
      refine ⟨.ok, _, _, rfl, Or.inr (Or.inr ⟨rfl, hidle, ?_⟩)⟩
      rw [leaseIsOpen, dif_pos ⟨hactive, hlt⟩, hi]
      simp

end JaszczurHal.RouterSteps
