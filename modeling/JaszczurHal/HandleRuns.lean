import JaszczurHal.HandlePool

/-!
# Runs of the handle pool

Any sequence of calls on one pool, with the leases its callers hold. Each call
leaves behind which handles it opened and closed and which tokens it gave
back.
-/

set_option autoImplicit false

namespace JaszczurHal.HandleRuns
open JaszczurHal.HalStatus JaszczurHal.HandlePool

structure State (p : Shape) (τ : Type) where
  slots : Slots p τ
  leases : List (Lease τ)

inductive Call (τ : Type)
  | allocate (token : Option τ)
  | acquire (handle : ℕ)
  | endOperation (lease : ℕ)
  | beginClose (handle : ℕ)
  | beginCloseAll (tokenCapacity : ℕ)

structure Effect (τ : Type) where
  opened : List (ℕ × τ) := []
  closed : List ℕ := []
  handed : List (ℕ × τ) := []

variable {p : Shape} {τ : Type}

def slotOf (p : Shape) (handle : ℕ) : Option (Fin p.capacity) :=
  (decodeHandle p handle).map Prod.fst

def start (p : Shape) (τ : Type) : State p τ := ⟨fun _ => Slot.zero τ, []⟩

def openHandles (slots : Slots p τ) : List ℕ :=
  (List.finRange p.capacity).filterMap fun i =>
    if (slots i).inUse then some (encodeHandle p i (slots i).generation) else none

variable [DecidableEq τ]

def step (s : State p τ) : Call τ → State p τ × Effect τ
  | .allocate token =>
    match allocate s.slots token with
    | .error _ => (s, {})
    | .ok (handle, slots) =>
      ({ s with slots := slots }, { opened := token.toList.map fun t => (handle, t) })
  | .acquire handle =>
    match acquire s.slots handle with
    | .error _ => (s, {})
    | .ok (lease, slots) => (⟨slots, s.leases ++ [lease]⟩, {})
  | .endOperation k =>
    match s.leases[k]? with
    | none => (s, {})
    | some lease =>
      match endOperation s.slots lease with
      | .error _ => (s, {})
      | .ok (deferred, lease', slots) =>
        (⟨slots, s.leases.set k lease'⟩,
          { handed := deferred.toList.map fun t => (lease.index, t) })
  | .beginClose handle =>
    match beginClose s.slots handle with
    | .error _ => (s, {})
    | .ok (token, slots) =>
      -- the ticket of the closed slot; `handle` itself unless it was forged
      ({ s with slots := slots }, {
        closed := (slotOf p handle).toList.map fun i : Fin p.capacity =>
          encodeHandle p i (s.slots i).generation
        handed := (slotOf p handle).toList.flatMap fun i =>
          token.toList.map fun t => (i.val, t) })
  | .beginCloseAll tokenCapacity =>
    let (tokens, slots) := beginCloseAll s.slots tokenCapacity
    ({ s with slots := slots }, {
      closed := if tokenCapacity < p.capacity then [] else openHandles s.slots
      handed := tokens.map fun (i, t) => (i.val, t) })

def run (s : State p τ) : List (Call τ) → State p τ × List (Effect τ)
  | [] => (s, [])
  | c :: cs =>
    let (s', e) := step s c
    let (s'', es) := run s' cs
    (s'', e :: es)

inductive Change (s : State p τ) : State p τ → Effect τ → Prop
  | idle : Change s s {}
  | opens (i : Fin p.capacity) (t : τ) (free : (s.slots i).isFree = true) :
      Change s
        { s with slots := Function.update s.slots i { s.slots i with
            generation := nextGeneration p.width (s.slots i).generation
            token := some t
            inUse := true } }
        { opened := [(encodeHandle p i (nextGeneration p.width (s.slots i).generation), t)] }
  | leases (i : Fin p.capacity) (t : τ) (inUse : (s.slots i).inUse = true)
      (token : (s.slots i).token = some t) (room : (s.slots i).activeOperations ≠ 0xFFFFFFFF) :
      Change s
        ⟨Function.update s.slots i { s.slots i with
            activeOperations := (s.slots i).activeOperations+1 },
          s.leases ++ [⟨t, i, (s.slots i).generation, true⟩]⟩ {}
  | ends (k : ℕ) (i : Fin p.capacity) (lease : Lease τ) (at_k : s.leases[k]? = some lease)
      (index : lease.index = i) (active : lease.active = true)
      (generation : (s.slots i).generation = lease.generation)
      (token : (s.slots i).token = some lease.token)
      (count : (s.slots i).activeOperations ≠ 0) :
      Change s
        ⟨Function.update s.slots i { s.slots i with
            activeOperations := (s.slots i).activeOperations-1 }.finishClose.2,
          s.leases.set k { lease with active := false }⟩
        { handed := ({ s.slots i with
            activeOperations := (s.slots i).activeOperations-1 }.finishClose.1.toList.map
              fun t => (lease.index, t)) }
  | closes (i : Fin p.capacity) (handle : ℕ) (inUse : (s.slots i).inUse = true)
      (decodes : decodeHandle p handle = some (i, (s.slots i).generation)) :
      Change s
        { s with slots := Function.update s.slots i (s.slots i).closeInUse.2 }
        { closed := [encodeHandle p i (s.slots i).generation]
          handed := (s.slots i).closeInUse.1.toList.map fun t => (i.val, t) }
  | closesAll :
      Change s
        { s with slots := fun i => (s.slots i).closeInUse.2 }
        { closed := openHandles s.slots
          handed := (List.finRange p.capacity).flatMap fun i =>
            (s.slots i).closeInUse.1.toList.map fun t => (i.val, t) }

omit [DecidableEq τ] in
theorem beginCloseAll_handed (slots : Slots p τ) {tokenCapacity : ℕ}
    (h : ¬ tokenCapacity < p.capacity) :
    (beginCloseAll slots tokenCapacity).1.map (fun (i, t) => (i.val, t)) =
      (List.finRange p.capacity).flatMap fun i =>
        (slots i).closeInUse.1.toList.map fun t => (i.val, t) := by
  rw [beginCloseAll, if_neg h]
  induction List.finRange p.capacity with
  | nil => rfl
  | cons i is ih =>
    rw [List.flatMap_cons, ← ih]
    cases htoken : (slots i).closeInUse.1 <;> simp [htoken]

theorem step_change (s : State p τ) (c : Call τ) : Change s (step s c).1 (step s c).2 := by
  cases c with
  | allocate token =>
    simp only [step]
    cases hcall : allocate s.slots token with
    | error status => exact .idle
    | ok result =>
      obtain ⟨t, i, rfl, hfree, hhandle, hslots⟩ := allocate_ok hcall
      simp only [Option.toList_some, List.map_cons, List.map_nil, hhandle, hslots]
      exact .opens i t hfree
  | acquire handle =>
    simp only [step]
    cases hcall : acquire s.slots handle with
    | error status => exact .idle
    | ok result =>
      obtain ⟨t, i, hinUse, htoken, hroom, hlease, hslots⟩ := acquire_ok hcall
      simp only [hlease, hslots]
      exact .leases i t hinUse htoken hroom
  | endOperation k =>
    simp only [step]
    cases hk : s.leases[k]? with
    | none => exact .idle
    | some lease =>
      dsimp only
      cases hcall : endOperation s.slots lease with
      | error status => exact .idle
      | ok result =>
        obtain ⟨i, hindex, hactive, hgen, htoken, hcount, hlease, hdeferred, hslots⟩ :=
          endOperation_ok hcall
        simp only [hdeferred, hlease, hslots]
        exact .ends k i lease hk hindex hactive hgen htoken hcount
  | beginClose handle =>
    simp only [step]
    cases hcall : beginClose s.slots handle with
    | error status => exact .idle
    | ok result =>
      obtain ⟨i, hinUse, hdecode, htoken, hslots⟩ := beginClose_ok hcall
      simp only [slotOf, hdecode, htoken, hslots, Option.map_some, Option.toList_some,
        List.flatMap_cons, List.flatMap_nil, List.append_nil, List.map_cons, List.map_nil]
      exact .closes i handle hinUse hdecode
  | beginCloseAll tokenCapacity =>
    simp only [step]
    by_cases hsmall : tokenCapacity < p.capacity
    · simp only [beginCloseAll, if_pos hsmall]
      exact .idle
    · rw [beginCloseAll_handed s.slots hsmall, if_neg hsmall]
      simp only [beginCloseAll, if_neg hsmall]
      exact .closesAll

structure SlotOk (w : PointerWidth) (s : Slot τ) (n : ℕ) : Prop where
  operations : s.activeOperations.toNat = n
  generation_le : s.generation.toNat ≤ period w
  generation_pos : s.token.isSome = true → 0 < s.generation.toNat
  held_iff : s.token.isSome = true ↔ s.inUse = true ∨ s.closing = true
  exclusive : s.inUse = true → s.closing = false
  closing_leased : s.closing = true → n ≠ 0
  leased_held : n ≠ 0 → s.token.isSome = true

section Slots

omit [DecidableEq τ]
variable {w : PointerWidth} {s : Slot τ} {n : ℕ}

theorem slotOk_zero (w : PointerWidth) : SlotOk w (Slot.zero τ) 0 where
  operations := rfl
  generation_le := Nat.zero_le _
  generation_pos := by simp [Slot.zero]
  held_iff := by simp [Slot.zero]
  exclusive := by simp [Slot.zero]
  closing_leased := by simp [Slot.zero]
  leased_held := by simp

theorem SlotOk.opens (h : SlotOk w s n) (hfree : s.isFree = true) (t : τ) :
    SlotOk w { s with
      generation := nextGeneration w s.generation, token := some t, inUse := true } n where
  operations := h.operations
  generation_le := (nextGeneration_bounds w _ h.generation_le).2
  generation_pos _ := (nextGeneration_bounds w _ h.generation_le).1
  held_iff := by simp
  exclusive _ := (s.free_iff.mp hfree).2.1
  closing_leased := h.closing_leased
  leased_held _ := rfl

theorem SlotOk.leases (h : SlotOk w s n) (hinUse : s.inUse = true)
    (hroom : s.activeOperations ≠ 0xFFFFFFFF) :
    SlotOk w { s with activeOperations := s.activeOperations+1 } (n+1) where
  operations := by
    have hne : s.activeOperations.toNat ≠ 4294967295 := fun heq =>
      hroom (UInt32.toNat_inj.mp heq)
    have hlt := s.activeOperations.toNat_lt
    rw [UInt32.toNat_add, ← h.operations]
    show (s.activeOperations.toNat+1) % 2^32 = _
    rw [Nat.mod_eq_of_lt (by omega)]
  generation_le := h.generation_le
  generation_pos := h.generation_pos
  held_iff := h.held_iff
  exclusive := h.exclusive
  closing_leased _ := Nat.succ_ne_zero n
  leased_held _ := h.held_iff.mpr (Or.inl hinUse)

theorem finishClose_token (s : Slot τ) :
    s.finishClose.1.toList ++ s.finishClose.2.token.toList = s.token.toList := by
  rw [Slot.finishClose]
  split <;> simp

theorem finishClose_handed (s : Slot τ) (h : s.finishClose.1.isSome = true) :
    s.activeOperations = 0 := by
  rw [Slot.finishClose] at h
  split at h
  · rename_i hdone
    simp only [Bool.and_eq_true, decide_eq_true_eq] at hdone
    exact hdone.2
  · simp at h

theorem finishClose_kept (s : Slot τ) (h : s.finishClose.2.token.isSome = true) :
    s.finishClose.2.token = s.token := by
  rw [Slot.finishClose] at h ⊢
  split at h
  · simp at h
  · rename_i hopen
    rw [if_neg hopen]

@[simp] theorem finishClose_generation (s : Slot τ) :
    s.finishClose.2.generation = s.generation := by
  rw [Slot.finishClose]
  split <;> rfl

@[simp] theorem finishClose_inUse (s : Slot τ) : s.finishClose.2.inUse = s.inUse := by
  rw [Slot.finishClose]
  split <;> rfl

@[simp] theorem finishClose_activeOperations (s : Slot τ) :
    s.finishClose.2.activeOperations = s.activeOperations := by
  rw [Slot.finishClose]
  split <;> rfl

/-- Closing is finished as soon as no lease is outstanding. -/
theorem slotOk_finishClose (hops : s.activeOperations.toNat = n)
    (hgen : s.generation.toNat ≤ period w) (hpos : 0 < s.generation.toNat)
    (htoken : s.token.isSome = true) (hone : s.inUse = !s.closing) :
    SlotOk w s.finishClose.2 n := by
  have hzero : s.activeOperations = 0 ↔ n = 0 := by
    rw [← hops, ← UInt32.toNat_inj]
    rfl
  rw [Slot.finishClose]
  split
  · rename_i hdone
    simp only [Bool.and_eq_true, decide_eq_true_eq] at hdone
    have hn := hzero.mp hdone.2
    exact ⟨hops, hgen, by simp, by simp [hone, hdone.1], by simp, by simp, by simp [hn]⟩
  · rename_i hdone
    simp only [Bool.and_eq_true, decide_eq_true_eq, not_and] at hdone
    refine ⟨hops, hgen, fun _ => hpos, ?_, ?_, fun hc => ?_, fun _ => htoken⟩
    · simp only [htoken, hone, true_iff]
      cases s.closing <;> simp
    · simp only [hone, Bool.not_eq_true']
      exact id
    · exact fun hn => hdone hc (hzero.mpr hn)

theorem SlotOk.ends (h : SlotOk w s n) (hcount : s.activeOperations ≠ 0) :
    SlotOk w { s with activeOperations := s.activeOperations-1 }.finishClose.2 (n-1) := by
  have hpos : s.activeOperations.toNat ≠ 0 := fun heq => hcount (UInt32.toNat_inj.mp heq)
  have htoken := h.leased_held (by rw [← h.operations]; exact hpos)
  have hone : s.inUse = !s.closing := by
    have hheld := h.held_iff.mp htoken
    have hex := h.exclusive
    cases hu : s.inUse <;> cases hc : s.closing <;> simp_all
  refine slotOk_finishClose (s := { s with activeOperations := s.activeOperations-1 }) ?_
    h.generation_le (h.generation_pos htoken) htoken hone
  have hle : (1 : UInt32) ≤ s.activeOperations := by
    rw [UInt32.le_iff_toNat_le]
    show 1 ≤ _
    omega
  show (s.activeOperations-1).toNat = n-1
  rw [UInt32.toNat_sub_of_le _ _ hle, h.operations]
  rfl

theorem SlotOk.closes (h : SlotOk w s n) : SlotOk w s.closeInUse.2 n := by
  rw [Slot.closeInUse]
  split
  · rename_i hinUse
    have htoken := h.held_iff.mpr (Or.inl hinUse)
    exact slotOk_finishClose h.operations h.generation_le (h.generation_pos htoken) htoken rfl
  · exact h

theorem closeInUse_token (s : Slot τ) :
    s.closeInUse.1.toList ++ s.closeInUse.2.token.toList = s.token.toList := by
  rw [Slot.closeInUse]
  split
  · exact finishClose_token _
  · rfl

theorem closeInUse_handed (s : Slot τ) (h : s.closeInUse.1.isSome = true) :
    s.activeOperations = 0 := by
  rw [Slot.closeInUse] at h
  split at h
  · exact finishClose_handed { s with inUse := false, closing := true } h
  · simp at h

theorem closeInUse_kept (s : Slot τ) (h : s.closeInUse.2.token.isSome = true) :
    s.closeInUse.2.token = s.token := by
  rw [Slot.closeInUse] at h ⊢
  split at h
  · rename_i hinUse
    rw [if_pos hinUse]
    exact finishClose_kept _ h
  · rename_i hinUse
    rw [if_neg hinUse]

@[simp] theorem closeInUse_generation (s : Slot τ) :
    s.closeInUse.2.generation = s.generation := by
  rw [Slot.closeInUse]
  split <;> simp

@[simp] theorem closeInUse_inUse (s : Slot τ) : s.closeInUse.2.inUse = false := by
  rw [Slot.closeInUse]
  split
  · simp
  · rename_i hinUse
    simpa using hinUse

end Slots

def outstanding (leases : List (Lease τ)) (i : Fin p.capacity) : ℕ :=
  leases.countP fun lease => lease.active && lease.index = i.val

def openedOn (p : Shape) (i : Fin p.capacity) (es : List (Effect τ)) : List τ :=
  es.flatMap fun e => e.opened.filterMap fun (handle, t) =>
    if slotOf p handle = some i then some t else none

def handedFrom (i : ℕ) (es : List (Effect τ)) : List τ :=
  es.flatMap fun e => e.handed.filterMap fun (j, t) => if j = i then some t else none

def liveStep (handles : List ℕ) (e : Effect τ) : List ℕ :=
  handles.filter (fun handle => handle ∉ e.closed) ++ e.opened.map Prod.fst

def live (es : List (Effect τ)) : List ℕ := es.foldl liveStep []

structure Inv (s : State p τ) : Prop where
  slot : ∀ i, SlotOk p.width (s.slots i) (outstanding s.leases i)
  lease : ∀ lease ∈ s.leases, lease.active = true → ∃ i : Fin p.capacity,
    lease.index = i ∧ (s.slots i).token = some lease.token ∧
      (s.slots i).generation = lease.generation

section Invariant

omit [DecidableEq τ]

theorem inv_start (p : Shape) (τ : Type) : Inv (start p τ) where
  slot i := slotOk_zero p.width
  lease := by simp [start]

theorem outstanding_append (leases : List (Lease τ)) (lease : Lease τ)
    (hactive : lease.active = true) {i j : Fin p.capacity} (hindex : lease.index = i) :
    outstanding (leases ++ [lease]) j = outstanding leases j+(if i = j then 1 else 0) := by
  rw [outstanding, List.countP_append, List.countP_singleton, hactive, hindex]
  simp [outstanding, Fin.val_inj]

theorem outstanding_end {leases : List (Lease τ)} {k : ℕ} {lease : Lease τ}
    (hk : leases[k]? = some lease) (hactive : lease.active = true) {i j : Fin p.capacity}
    (hindex : lease.index = i) :
    outstanding (leases.set k { lease with active := false }) j =
      outstanding leases j-(if i = j then 1 else 0) := by
  obtain ⟨hlt, hget⟩ := List.getElem?_eq_some_iff.mp hk
  rw [outstanding, List.countP_set hlt, hget, hactive, hindex]
  simp [outstanding, Fin.val_inj]

theorem outstanding_ne_zero {leases : List (Lease τ)} {lease : Lease τ}
    (hmem : lease ∈ leases) (hactive : lease.active = true) {i : Fin p.capacity}
    (hindex : lease.index = i) : outstanding leases i ≠ 0 := by
  intro hzero
  rw [outstanding, List.countP_eq_zero] at hzero
  exact hzero lease hmem (by simp [hactive, hindex])

/-- A leased slot keeps its token: what closing and ending hand back is the
token of a slot without leases. -/
theorem lease_kept {slots slots' : Slots p τ} {leases' : List (Lease τ)}
    (hslot : ∀ i, SlotOk p.width (slots' i) (outstanding leases' i))
    (hkept : ∀ i, (slots' i).token.isSome = true → (slots' i).token = (slots i).token)
    (hgeneration : ∀ i, (slots' i).generation = (slots i).generation)
    {lease : Lease τ} (hmem : lease ∈ leases') (hactive : lease.active = true)
    (h : ∃ i : Fin p.capacity, lease.index = i ∧ (slots i).token = some lease.token ∧
      (slots i).generation = lease.generation) :
    ∃ i : Fin p.capacity, lease.index = i ∧ (slots' i).token = some lease.token ∧
      (slots' i).generation = lease.generation := by
  obtain ⟨i, hindex, htoken, hgen⟩ := h
  have hheld := (hslot i).leased_held (outstanding_ne_zero hmem hactive hindex)
  exact ⟨i, hindex, by rw [hkept i hheld, htoken], by rw [hgeneration, hgen]⟩

end Invariant

omit [DecidableEq τ] in
theorem inv_change {s s' : State p τ} {e : Effect τ} (h : Inv s) (change : Change s s' e) :
    Inv s' := by
  cases change with
  | idle => exact h
  | opens i t free =>
    have hslot : ∀ j, SlotOk p.width (Function.update s.slots i { s.slots i with
        generation := nextGeneration p.width (s.slots i).generation
        token := some t
        inUse := true } j) (outstanding s.leases j) := by
      intro j
      by_cases hj : j = i
      · subst hj
        simpa using (h.slot j).opens free t
      · simpa [hj] using h.slot j
    refine ⟨hslot, fun lease hmem hactive => ?_⟩
    obtain ⟨j, hindex, htoken, hgen⟩ := h.lease lease hmem hactive
    have hj : j ≠ i := by
      rintro rfl
      have hheld := (h.slot j).leased_held (outstanding_ne_zero hmem hactive hindex)
      rw [((s.slots j).free_iff.mp free).2.2.2] at hheld
      simp at hheld
    exact ⟨j, hindex, by simpa [hj] using htoken, by simpa [hj] using hgen⟩
  | leases i t inUse token room =>
    refine ⟨fun j => ?_, fun lease hmem hactive => ?_⟩
    · rw [outstanding_append _ _ rfl rfl]
      by_cases hj : j = i
      · subst hj
        simpa using (h.slot j).leases inUse room
      · simpa [hj, Ne.symm hj] using h.slot j
    · rcases List.mem_append.mp hmem with hold | hnew
      · obtain ⟨j, hindex, htoken, hgen⟩ := h.lease lease hold hactive
        refine ⟨j, hindex, ?_⟩
        by_cases hj : j = i
        · subst hj
          simpa using ⟨htoken, hgen⟩
        · simpa [hj] using ⟨htoken, hgen⟩
      · obtain rfl := List.mem_singleton.mp hnew
        exact ⟨i, rfl, by simpa using token, by simp⟩
  | ends k i lease at_k index active generation token count =>
    have hslot : ∀ j, SlotOk p.width (Function.update s.slots i { s.slots i with
        activeOperations := (s.slots i).activeOperations-1 }.finishClose.2 j)
        (outstanding (s.leases.set k { lease with active := false }) j) := by
      intro j
      rw [outstanding_end at_k active index]
      by_cases hj : j = i
      · subst hj
        simpa using (h.slot j).ends count
      · simpa [hj, Ne.symm hj] using h.slot j
    refine ⟨hslot, fun lease' hmem hactive => ?_⟩
    have hold : lease' ∈ s.leases := by
      rcases List.mem_or_eq_of_mem_set hmem with hold | rfl
      · exact hold
      · simp at hactive
    refine lease_kept hslot (fun j hheld => ?_) (fun j => ?_) hmem hactive
      (h.lease lease' hold hactive)
    · by_cases hj : j = i
      · subst hj
        rw [Function.update_self] at hheld ⊢
        exact finishClose_kept _ hheld
      · rw [Function.update_of_ne hj]
    · by_cases hj : j = i
      · subst hj
        simp
      · rw [Function.update_of_ne hj]
  | closes i handle inUse decodes =>
    have hslot : ∀ j, SlotOk p.width
        (Function.update s.slots i (s.slots i).closeInUse.2 j) (outstanding s.leases j) := by
      intro j
      by_cases hj : j = i
      · subst hj
        simpa using (h.slot j).closes
      · simpa [hj] using h.slot j
    refine ⟨hslot, fun lease hmem hactive => ?_⟩
    refine lease_kept hslot (fun j hheld => ?_) (fun j => ?_) hmem hactive
      (h.lease lease hmem hactive)
    · by_cases hj : j = i
      · subst hj
        rw [Function.update_self] at hheld ⊢
        exact closeInUse_kept _ hheld
      · rw [Function.update_of_ne hj]
    · by_cases hj : j = i
      · subst hj
        simp
      · rw [Function.update_of_ne hj]
  | closesAll =>
    have hslot : ∀ j, SlotOk p.width (s.slots j).closeInUse.2 (outstanding s.leases j) :=
      fun j => (h.slot j).closes
    refine ⟨hslot, fun lease hmem hactive => ?_⟩
    exact lease_kept hslot (fun j hheld => closeInUse_kept _ hheld)
      (fun j => closeInUse_generation _) hmem hactive (h.lease lease hmem hactive)

theorem inv_run {s : State p τ} (h : Inv s) (cs : List (Call τ)) : Inv (run s cs).1 := by
  induction cs generalizing s with
  | nil => exact h
  | cons c cs ih => exact ih (inv_change h (step_change s c))

end JaszczurHal.HandleRuns
