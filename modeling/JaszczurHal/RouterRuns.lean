import JaszczurHal.RouterRegistry

/-!
# Runs of the command router

The invariant of every interleaving of calls: each dispatch that runs is
counted in its slot and holds a lease on its context, so no call changes the
slot, and the context outlives the dispatch.
-/

set_option autoImplicit false

namespace JaszczurHal.RouterRuns
open JaszczurHal.HalStatus JaszczurHal.HandlePool JaszczurHal.HandleRuns
open JaszczurHal.CommandRouter JaszczurHal.RouterRegistry

variable {c : Config}

def runsSlot : Phase c → Fin c.maxCommands → Bool
  | .running i, j => i = j
  | _, _ => false

def isDone : Phase c → Bool
  | .done => true
  | _ => false

def running (operations : List (Operation c)) (i : Fin c.maxInstances)
    (j : Fin c.maxCommands) : ℕ :=
  operations.countP fun op => op.lease.token = i && runsSlot op.phase j

def leases (operations : List (Operation c)) : List (Lease (Fin c.maxInstances)) :=
  operations.map Operation.lease

structure RouterInv (slots : Slots c.shape (Fin c.maxInstances))
    (contexts : Fin c.maxInstances → Context c) (operations : List (Operation c)) : Prop where
  pool : Inv (⟨slots, leases operations⟩ : HandleRuns.State c.shape (Fin c.maxInstances))
  active_iff : ∀ op ∈ operations, op.lease.active = true ↔ isDone op.phase = false
  allocated : ∀ i context, (slots i).token = some context → (contexts context).allocated = true
  unique : ∀ i i' context, (slots i).token = some context → (slots i').token = some context →
    i = i'
  wf : ∀ i, Wf (contexts i).commands
  count : ∀ i j, ((contexts i).commands j).activeDispatches.toNat = running operations i j
  cleared : ∀ i, (contexts i).allocated = false → (contexts i).commands = fun _ => .zero

theorem countP_lt {α : Type} {l : List α} {p q : α → Bool} (h : ∀ x ∈ l, p x = true → q x = true)
    {x : α} (hx : x ∈ l) (hq : q x = true) (hp : p x = false) : l.countP p < l.countP q := by
  induction l with
  | nil => cases hx
  | cons y l ih =>
    have hrest : ∀ z ∈ l, p z = true → q z = true :=
      fun z hz => h z (List.mem_cons_of_mem _ hz)
    have hle := List.countP_mono_left hrest
    rw [List.countP_cons, List.countP_cons]
    rcases List.mem_cons.mp hx with rfl | hx
    · rw [hp, hq]
      simp only [Bool.false_eq_true, if_false, if_true]
      omega
    · have hlt := ih hrest hx
      have hy := h y (List.mem_cons_self)
      cases hpy : p y with
      | false =>
        simp only [Bool.false_eq_true, if_false]
        omega
      | true =>
        rw [hy hpy]
        omega

section Operations

variable {operations : List (Operation c)} {k : ℕ} {op : Operation c}

theorem leases_set (hk : operations[k]? = some op) (phase : Phase c) :
    leases (operations.set k ⟨op.lease, phase⟩) = leases operations := by
  obtain ⟨hlt, hget⟩ := List.getElem?_eq_some_iff.mp hk
  have hlength : k < (leases operations).length := by simpa [leases] using hlt
  have hlease : op.lease = (leases operations)[k] := by simp [leases, hget]
  rw [leases, List.map_set]
  show (leases operations).set k op.lease = leases operations
  rw [hlease, List.set_getElem_self]

theorem leases_get (hk : operations[k]? = some op) : (leases operations)[k]? = some op.lease := by
  rw [leases, List.getElem?_map, hk]
  rfl

theorem running_set (hk : operations[k]? = some op) (new : Operation c)
    (i : Fin c.maxInstances) (j : Fin c.maxCommands) :
    running (operations.set k new) i j = running operations i j -
      (if op.lease.token = i && runsSlot op.phase j then 1 else 0) +
      (if new.lease.token = i && runsSlot new.phase j then 1 else 0) := by
  obtain ⟨hlt, hget⟩ := List.getElem?_eq_some_iff.mp hk
  rw [running, List.countP_set hlt, hget]
  rfl

/-- Replacing one operation by another of which neither runs a handler. -/
theorem running_quiet (hk : operations[k]? = some op) {new : Operation c}
    (hold : ∀ j, runsSlot op.phase j = false) (hnew : ∀ j, runsSlot new.phase j = false)
    (i : Fin c.maxInstances) (j : Fin c.maxCommands) :
    running (operations.set k new) i j = running operations i j := by
  rw [running_set hk new, hold j, hnew j]
  simp

theorem active_set (h : ∀ op ∈ operations, op.lease.active = true ↔ isDone op.phase = false)
    {new : Operation c} (hnew : new.lease.active = true ↔ isDone new.phase = false) :
    ∀ op ∈ operations.set k new, op.lease.active = true ↔ isDone op.phase = false := by
  intro op hop
  rcases List.mem_or_eq_of_mem_set hop with hold | rfl
  · exact h op hold
  · exact hnew

end Operations

section Invariant

variable {slots slots' : Slots c.shape (Fin c.maxInstances)}
  {contexts : Fin c.maxInstances → Context c} {operations : List (Operation c)}
  {k : ℕ} {op : Operation c}

theorem RouterInv.op_active (h : RouterInv slots contexts operations)
    (hk : operations[k]? = some op) (hphase : isDone op.phase = false) :
    op.lease.active = true :=
  (h.active_iff op (List.mem_of_getElem? hk)).mpr hphase

/-- An operation in progress holds the token of its context in its slot. -/
theorem RouterInv.op_slot (h : RouterInv slots contexts operations) (hop : op ∈ operations)
    (hactive : op.lease.active = true) : ∃ i : Fin c.maxInstances,
    op.lease.index = i ∧ (slots i).token = some op.lease.token ∧
      (slots i).generation = op.lease.generation :=
  h.pool.lease op.lease (List.mem_map_of_mem hop) hactive

/-- A running dispatch is one of the leases on the slot of its context. -/
theorem RouterInv.running_leased (h : RouterInv slots contexts operations)
    {s i : Fin c.maxInstances} (htoken : (slots s).token = some i) (j : Fin c.maxCommands) :
    ∀ op ∈ operations, (op.lease.token = i && runsSlot op.phase j) = true →
      (op.lease.active && op.lease.index = s.val) = true := by
  intro op hop hruns
  simp only [Bool.and_eq_true, decide_eq_true_eq] at hruns ⊢
  have hactive : op.lease.active = true := by
    apply (h.active_iff op hop).mpr
    cases hphase : op.phase <;> simp_all [runsSlot, isDone]
  obtain ⟨s', hindex, htoken', _⟩ := h.op_slot hop hactive
  rw [hruns.1] at htoken'
  rw [h.unique s s' i htoken htoken']
  exact ⟨hactive, hindex⟩

theorem outstanding_operations (s : Fin c.maxInstances) :
    outstanding (p := c.shape) (leases operations) s =
      operations.countP fun op => op.lease.active && op.lease.index = s.val := by
  show (leases operations).countP (fun lease => lease.active && lease.index = s.val) = _
  rw [leases, List.countP_map]
  rfl

/-- The count of running dispatches stays below that of the leases, which the
pool bounds, so counting one more does not wrap. -/
theorem RouterInv.running_lt (h : RouterInv slots contexts operations)
    (hk : operations[k]? = some op) (hphase : isDone op.phase = false)
    (j : Fin c.maxCommands) (hquiet : runsSlot op.phase j = false) :
    running operations op.lease.token j+1 < 2^32 := by
  have hop := List.mem_of_getElem? hk
  have hactive := h.op_active hk hphase
  obtain ⟨s, hindex, htoken, _⟩ := h.op_slot hop hactive
  have hlt := countP_lt (h.running_leased htoken j) hop (by simp [hactive, hindex])
    (by simp [hquiet])
  have hcount := (h.pool.slot s).operations
  rw [outstanding_operations] at hcount
  have hbound := (slots s).activeOperations.toNat_lt
  rw [running]
  simp only at hcount
  omega

/-- Nothing runs in a context that no slot of the pool stands for. -/
theorem RouterInv.not_running (h : RouterInv slots contexts operations)
    {i : Fin c.maxInstances} (hfree : ∀ s, (slots s).token ≠ some i) (j : Fin c.maxCommands) :
    running operations i j = 0 := by
  rw [running, List.countP_eq_zero]
  intro op hop hruns
  simp only [Bool.and_eq_true, decide_eq_true_eq] at hruns
  have hactive : op.lease.active = true := by
    apply (h.active_iff op hop).mpr
    cases hphase : op.phase <;> simp_all [runsSlot, isDone]
  obtain ⟨s, _, htoken, _⟩ := h.op_slot hop hactive
  rw [hruns.1] at htoken
  exact hfree s htoken

/-- A call in progress rewrites the commands of its context: the slots count
what its own phase adds and takes away. -/
theorem RouterInv.rewrite (h : RouterInv slots contexts operations)
    (hk : operations[k]? = some op) (hphase : isDone op.phase = false) {phase : Phase c}
    (hphase' : isDone phase = false) {commands : Commands c} (hwf : Wf commands)
    (hcount : ∀ j, (commands j).activeDispatches.toNat =
      ((contexts op.lease.token).commands j).activeDispatches.toNat -
        (if runsSlot op.phase j then 1 else 0)+(if runsSlot phase j then 1 else 0)) :
    RouterInv slots
      (Function.update contexts op.lease.token
        { contexts op.lease.token with commands := commands })
      (operations.set k ⟨op.lease, phase⟩) where
  pool := by
    rw [leases_set hk]
    exact h.pool
  active_iff := active_set h.active_iff (by simp [h.op_active hk hphase, hphase'])
  allocated s i htoken := by
    by_cases hi : i = op.lease.token
    · subst hi
      simpa using h.allocated s _ htoken
    · simpa [hi] using h.allocated s i htoken
  unique := h.unique
  wf i := by
    by_cases hi : i = op.lease.token
    · subst hi
      simpa using hwf
    · simpa [hi] using h.wf i
  count i j := by
    rw [running_set hk, ← h.count i j]
    by_cases hi : i = op.lease.token
    · subst hi
      simpa using hcount j
    · simp [hi, Ne.symm hi]
  cleared i hnot := by
    by_cases hi : i = op.lease.token
    · subst hi
      obtain ⟨s, _, htoken, _⟩ := h.op_slot (List.mem_of_getElem? hk) (h.op_active hk hphase)
      have hallocated := h.allocated s _ htoken
      simp [hallocated] at hnot
    · simp only [Function.update_of_ne hi] at hnot ⊢
      exact h.cleared i hnot

theorem RouterInv.leave (h : RouterInv slots contexts operations)
    (hk : operations[k]? = some op) (hphase : isDone op.phase = false)
    (hquiet : ∀ j, runsSlot op.phase j = false) {commands : Commands c}
    (hchange : CommandsChange (contexts op.lease.token).commands commands)
    (reply : Reply) (final : Bool) :
    RouterInv slots
      (Function.update contexts op.lease.token
        { contexts op.lease.token with commands := commands })
      (operations.set k ⟨op.lease, .leaving reply final⟩) := by
  refine h.rewrite hk hphase rfl (hchange.wf (h.wf _)) fun j => ?_
  rw [hchange.active j, hquiet j]
  rfl

theorem wf_zero : Wf (fun _ => .zero : Commands c) where
  distinct _ _ _ _ hr := nomatch hr
  unused_idle _ _ := rfl

theorem registration_update (commands : Commands c) (j : Fin c.maxCommands) (n : UInt32)
    (j' : Fin c.maxCommands) :
    (Function.update commands j { commands j with activeDispatches := n } j').registration =
      (commands j').registration := by
  by_cases hj : j' = j
  · subst hj
    simp
  · simp [hj]

theorem wf_counted {commands : Commands c} (hwf : Wf commands) {j : Fin c.maxCommands}
    {r : Registration} (hr : (commands j).registration = some r) (n : UInt32) :
    Wf (Function.update commands j { commands j with activeDispatches := n }) where
  distinct j1 j2 r1 r2 h1 h2 := by
    rw [registration_update] at h1 h2
    exact hwf.distinct j1 j2 r1 r2 h1 h2
  unused_idle j' hnone := by
    rw [registration_update] at hnone
    have hj : j' ≠ j := by
      rintro rfl
      rw [hr] at hnone
      cases hnone
    rw [Function.update_of_ne hj]
    exact hwf.unused_idle j' hnone

theorem RouterInv.invoke (h : RouterInv slots contexts operations)
    (hk : operations[k]? = some op) (hphase : isDone op.phase = false)
    (hquiet : ∀ j, runsSlot op.phase j = false) {j : Fin c.maxCommands} {r : Registration}
    (hr : ((contexts op.lease.token).commands j).registration = some r) :
    RouterInv slots
      (Function.update contexts op.lease.token { contexts op.lease.token with
        commands := Function.update (contexts op.lease.token).commands j
          { (contexts op.lease.token).commands j with activeDispatches :=
            ((contexts op.lease.token).commands j).activeDispatches+1 } })
      (operations.set k ⟨op.lease, .running j⟩) := by
  refine h.rewrite hk hphase rfl (wf_counted (h.wf _) hr _) fun j' => ?_
  rw [hquiet j']
  by_cases hj : j' = j
  · subst hj
    have hlt := h.running_lt hk hphase j' (hquiet j')
    rw [← h.count] at hlt
    simp only [Function.update_self, runsSlot, decide_true, if_true, Bool.false_eq_true,
      if_false, Nat.sub_zero]
    rw [UInt32.toNat_add]
    exact Nat.mod_eq_of_lt hlt
  · simp [hj, runsSlot, Ne.symm hj]

/-- The dispatch of a handler that returns is still counted in its slot. -/
theorem RouterInv.counted (h : RouterInv slots contexts operations)
    (hk : operations[k]? = some op) {j : Fin c.maxCommands} (hphase : op.phase = .running j) :
    ((contexts op.lease.token).commands j).activeDispatches ≠ 0 ∧
      ∃ r, ((contexts op.lease.token).commands j).registration = some r := by
  have hactive : ((contexts op.lease.token).commands j).activeDispatches ≠ 0 := by
    intro hzero
    have hcount := h.count op.lease.token j
    rw [hzero, running] at hcount
    have hnone := List.countP_eq_zero.mp hcount.symm op (List.mem_of_getElem? hk)
    simp [hphase, runsSlot] at hnone
  refine ⟨hactive, ?_⟩
  cases hr : ((contexts op.lease.token).commands j).registration with
  | none => exact absurd ((h.wf _).unused_idle j hr) hactive
  | some r => exact ⟨r, rfl⟩

theorem RouterInv.handlerReturns (h : RouterInv slots contexts operations)
    (hk : operations[k]? = some op) {j : Fin c.maxCommands} (hphase : op.phase = .running j)
    (reply : Reply) :
    RouterInv slots
      (Function.update contexts op.lease.token { contexts op.lease.token with
        commands := Function.update (contexts op.lease.token).commands j
          { (contexts op.lease.token).commands j with activeDispatches :=
            ((contexts op.lease.token).commands j).activeDispatches-1 } })
      (operations.set k ⟨op.lease, .leaving reply false⟩) := by
  obtain ⟨hactive, r, hr⟩ := h.counted hk hphase
  refine h.rewrite hk (by rw [hphase]; rfl) rfl (wf_counted (h.wf _) hr _) fun j' => ?_
  rw [hphase]
  by_cases hj : j' = j
  · subst hj
    have hpos : ((contexts op.lease.token).commands j').activeDispatches.toNat ≠ 0 :=
      fun hzero => hactive (UInt32.toNat_inj.mp hzero)
    have hle : (1 : UInt32) ≤ ((contexts op.lease.token).commands j').activeDispatches := by
      rw [UInt32.le_iff_toNat_le]
      exact Nat.one_le_iff_ne_zero.mpr hpos
    simp only [Function.update_self, runsSlot, decide_true, if_true, Bool.false_eq_true,
      if_false, Nat.add_zero]
    rw [UInt32.toNat_sub_of_le _ _ hle]
    rfl
  · simp [hj, runsSlot, Ne.symm hj]

/-- A step of the pool under which every token left in a slot was there
before. -/
theorem RouterInv.reslot (h : RouterInv slots contexts operations)
    {operations' : List (Operation c)}
    (hpool : Inv (⟨slots', leases operations'⟩ : HandleRuns.State c.shape (Fin c.maxInstances)))
    (hactive : ∀ op ∈ operations', op.lease.active = true ↔ isDone op.phase = false)
    (htokens : ∀ i, (slots' i).token.isSome = true → (slots' i).token = (slots i).token)
    (hrunning : ∀ i j, running operations' i j = running operations i j) :
    RouterInv slots' contexts operations' where
  pool := hpool
  active_iff := hactive
  allocated s i htoken := by
    rw [htokens s (by rw [htoken]; rfl)] at htoken
    exact h.allocated s i htoken
  unique s s' i htoken htoken' := by
    rw [htokens s (by rw [htoken]; rfl)] at htoken
    rw [htokens s' (by rw [htoken']; rfl)] at htoken'
    exact h.unique s s' i htoken htoken'
  wf := h.wf
  count i j := by
    rw [hrunning]
    exact h.count i j
  cleared := h.cleared

theorem RouterInv.acquired (h : RouterInv slots contexts operations) {handle : ℕ}
    {lease : Lease (Fin c.maxInstances)} (hacquire : acquire slots handle = .ok (lease, slots'))
    (call : CommandRouter.Call) :
    RouterInv slots' contexts (operations ++ [⟨lease, .entered call⟩]) := by
  obtain ⟨t, i, hinUse, htoken, hroom, rfl, rfl⟩ := acquire_ok hacquire
  refine h.reslot ?_ ?_ ?_ ?_
  · rw [leases, List.map_append]
    exact inv_change h.pool (.leases i t hinUse htoken hroom)
  · intro op hop
    rcases List.mem_append.mp hop with hop | hop
    · exact h.active_iff op hop
    · obtain rfl := List.mem_singleton.mp hop
      simp [isDone]
  · intro s _
    by_cases hs : s = i
    · subst hs
      simp
    · rw [Function.update_of_ne hs]
  · intro i j
    simp [running, runsSlot]

theorem RouterInv.closes (h : RouterInv slots contexts operations)
    (hk : operations[k]? = some op) (hphase : isDone op.phase = false)
    (hquiet : ∀ j, runsSlot op.phase j = false) {handle : ℕ} {token : Option (Fin c.maxInstances)}
    (hclose : beginClose slots handle = .ok (token, slots')) (reply : Reply) (final : Bool) :
    RouterInv slots' contexts (operations.set k ⟨op.lease, .leaving reply final⟩) := by
  obtain ⟨i, hinUse, hdecode, rfl, rfl⟩ := beginClose_ok hclose
  refine h.reslot ?_ ?_ ?_ (running_quiet hk hquiet fun _ => rfl)
  · rw [leases_set hk]
    exact inv_change h.pool (.closes i handle hinUse hdecode)
  · exact active_set h.active_iff (by simp [h.op_active hk hphase, isDone])
  · intro s hheld
    by_cases hs : s = i
    · subst hs
      rw [Function.update_self] at hheld ⊢
      exact closeInUse_kept _ hheld
    · rw [Function.update_of_ne hs]

theorem RouterInv.endOperation_total (h : RouterInv slots contexts operations)
    (hk : operations[k]? = some op) (hphase : isDone op.phase = false) :
    ∃ deferred slots', endOperation slots op.lease =
      .ok (deferred, { op.lease with active := false }, slots') := by
  have hactive := h.op_active hk hphase
  have hop := List.mem_of_getElem? hk
  obtain ⟨s, hindex, htoken, hgeneration⟩ := h.op_slot hop hactive
  have hcount : (slots s).activeOperations ≠ 0 := by
    intro hzero
    have hout := (h.pool.slot s).operations
    rw [hzero] at hout
    exact outstanding_ne_zero (List.mem_map_of_mem hop) hactive hindex hout.symm
  have hlt : op.lease.index < c.shape.capacity := hindex ▸ s.isLt
  have hs : (⟨op.lease.index, hlt⟩ : Fin c.shape.capacity) = s := Fin.ext hindex
  rw [endOperation, dif_pos ⟨hactive, hlt⟩, hs]
  simp [hgeneration, htoken, hcount]

theorem leases_finish (lease : Lease (Fin c.maxInstances)) (phase : Phase c) :
    leases (operations.set k ⟨lease, phase⟩) = (leases operations).set k lease := by
  rw [leases, List.map_set]
  rfl

/-- A call that ends without being the last on a closed router. -/
theorem RouterInv.ends (h : RouterInv slots contexts operations)
    (hk : operations[k]? = some op) (hquiet : ∀ j, runsSlot op.phase j = false)
    {deferred : Option (Fin c.maxInstances)} {lease' : Lease (Fin c.maxInstances)}
    (hend : endOperation slots op.lease = .ok (deferred, lease', slots')) :
    RouterInv slots' contexts (operations.set k ⟨lease', .done⟩) := by
  obtain ⟨i, hindex, hactive, hgeneration, htoken, hcount, rfl, rfl, rfl⟩ := endOperation_ok hend
  refine h.reslot ?_ ?_ ?_ (running_quiet hk hquiet fun _ => rfl)
  · rw [leases_finish]
    exact inv_change h.pool
      (.ends k i op.lease (leases_get hk) hindex hactive hgeneration htoken hcount)
  · exact active_set h.active_iff (by simp [isDone])
  · intro s hheld
    by_cases hs : s = i
    · subst hs
      rw [Function.update_self] at hheld ⊢
      exact finishClose_kept _ hheld
    · rw [Function.update_of_ne hs]

/-- A context that no slot stands for can be cleared. -/
theorem RouterInv.clear (h : RouterInv slots contexts operations) {i : Fin c.maxInstances}
    (hfree : ∀ s, (slots s).token ≠ some i) :
    RouterInv slots (Function.update contexts i (.cleared c)) operations where
  pool := h.pool
  active_iff := h.active_iff
  allocated s i' htoken := by
    have hi : i' ≠ i := by
      rintro rfl
      exact hfree s htoken
    rw [Function.update_of_ne hi]
    exact h.allocated s i' htoken
  unique := h.unique
  wf i' := by
    by_cases hi : i' = i
    · subst hi
      rw [Function.update_self]
      exact wf_zero
    · rw [Function.update_of_ne hi]
      exact h.wf i'
  count i' j := by
    by_cases hi : i' = i
    · subst hi
      rw [Function.update_self, h.not_running hfree]
      rfl
    · rw [Function.update_of_ne hi]
      exact h.count i' j
  cleared i' hnot := by
    by_cases hi : i' = i
    · subst hi
      rw [Function.update_self]
      rfl
    · rw [Function.update_of_ne hi] at hnot ⊢
      exact h.cleared i' hnot

/-- What the last call on a closed router gives back is its own context, which
no slot stands for any more. -/
theorem RouterInv.deferred (h : RouterInv slots contexts operations)
    {lease lease' : Lease (Fin c.maxInstances)} {i : Fin c.maxInstances}
    (hend : endOperation slots lease = .ok (some i, lease', slots')) :
    i = lease.token ∧ ∀ s, (slots' s).token ≠ some i := by
  obtain ⟨s, _, _, _, htoken, _, _, hdeferred, rfl⟩ := endOperation_ok hend
  have hboth := finishClose_token
    { slots s with activeOperations := (slots s).activeOperations-1 }
  rw [← hdeferred, htoken] at hboth
  simp only [Option.toList_some, List.cons_append, List.nil_append, List.cons.injEq] at hboth
  obtain ⟨rfl, hgone⟩ := hboth
  refine ⟨rfl, fun s' htoken' => ?_⟩
  by_cases hs : s' = s
  · subst hs
    rw [Function.update_self] at htoken'
    rw [htoken'] at hgone
    cases hgone
  · rw [Function.update_of_ne hs] at htoken'
    exact hs (h.unique s' s _ htoken' htoken)

/-- A new router stands for a context that was not in use. -/
theorem RouterInv.opens (h : RouterInv slots contexts operations) {i : Fin c.maxInstances}
    (hunused : (contexts i).allocated = false) {handle : ℕ}
    (hallocate : allocate slots (some i) = .ok (handle, slots')) (isDefault : Bool) :
    RouterInv slots' (Function.update contexts i ⟨true, isDefault, fun _ => .zero⟩)
      operations := by
  obtain ⟨t, s, ht, hfree, _, rfl⟩ := allocate_ok hallocate
  obtain rfl := Option.some.inj ht
  have hnone : ∀ s', (slots s').token ≠ some i := by
    intro s' htoken
    rw [h.allocated s' i htoken] at hunused
    cases hunused
  have hold : ∀ (s' : Fin c.shape.capacity) (i' : Fin c.maxInstances),
      (Function.update slots s { slots s with
        generation := nextGeneration c.shape.width (slots s).generation
        token := some i
        inUse := true } s').token = some i' →
      (s' = s ∧ i' = i) ∨ (s' ≠ s ∧ i' ≠ i ∧ (slots s').token = some i') := by
    intro s' i' htoken
    by_cases hs : s' = s
    · subst hs
      rw [Function.update_self] at htoken
      exact Or.inl ⟨rfl, (Option.some.inj htoken).symm⟩
    · rw [Function.update_of_ne hs] at htoken
      refine Or.inr ⟨hs, ?_, htoken⟩
      rintro rfl
      exact hnone s' htoken
  refine ⟨inv_change h.pool (.opens s i hfree), h.active_iff, ?_, ?_, ?_, ?_, ?_⟩
  · intro s' i' htoken
    rcases hold s' i' htoken with ⟨_, rfl⟩ | ⟨_, hi, htoken⟩
    · simp
    · rw [Function.update_of_ne hi]
      exact h.allocated s' i' htoken
  · intro s1 s2 i' h1 h2
    rcases hold s1 i' h1 with ⟨hs1, hi1⟩ | ⟨_, hi1, h1⟩
    · rcases hold s2 i' h2 with ⟨hs2, _⟩ | ⟨_, hi2, _⟩
      · rw [hs1, hs2]
      · exact absurd hi1 hi2
    · rcases hold s2 i' h2 with ⟨_, hi2⟩ | ⟨_, _, h2⟩
      · exact absurd hi2 hi1
      · exact h.unique s1 s2 i' h1 h2
  · intro i'
    by_cases hi : i' = i
    · subst hi
      rw [Function.update_self]
      exact wf_zero
    · rw [Function.update_of_ne hi]
      exact h.wf i'
  · intro i' j
    by_cases hi : i' = i
    · subst hi
      rw [Function.update_self, h.not_running hnone]
      rfl
    · rw [Function.update_of_ne hi]
      exact h.count i' j
  · intro i' hnot
    by_cases hi : i' = i
    · subst hi
      simp at hnot
    · rw [Function.update_of_ne hi] at hnot ⊢
      exact h.cleared i' hnot

end Invariant

end JaszczurHal.RouterRuns
