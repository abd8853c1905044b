import JaszczurHal.HalStatus
import Mathlib.Tactic

/-!
# The handle pool

`jh_handle_pool`: public handles are tickets of slot, kind and generation.
An operation holds a lease on its slot; closing takes the handle away at once
and gives the token back when the last lease ends.
-/

set_option autoImplicit false

namespace JaszczurHal.HandlePool
open JaszczurHal.HalStatus

inductive PointerWidth
  | w32
  | w64
  deriving DecidableEq

def PointerWidth.bits : PointerWidth → ℕ
  | .w32 => 32
  | .w64 => 64

def slotBits : ℕ := 8
def kindBits : ℕ := 5
def slotMask : ℕ := 2^slotBits-1
def kindMask : ℕ := 2^kindBits-1
def generationShift : ℕ := slotBits+kindBits

def generationMask (w : PointerWidth) : ℕ := (2^w.bits-1) >>> generationShift

structure Shape where
  width : PointerWidth
  capacity : ℕ
  kind : ℕ
  capacity_pos : 0 < capacity
  capacity_le : capacity ≤ slotMask
  kind_pos : 0 < kind
  kind_le : kind ≤ kindMask

def nextGeneration (w : PointerWidth) (generation : UInt32) : UInt32 :=
  let generation := UInt32.ofNat ((generation.toNat+1) % 2^w.bits &&& generationMask w)
  if generation = 0 then 1 else generation

structure Slot (τ : Type) where
  token : Option τ
  generation : UInt32
  activeOperations : UInt32
  inUse : Bool
  closing : Bool

structure Lease (τ : Type) where
  token : τ
  index : ℕ
  generation : UInt32
  active : Bool

abbrev Slots (p : Shape) (τ : Type) := Fin p.capacity → Slot τ

def Slot.zero (τ : Type) : Slot τ := ⟨none, 0, 0, false, false⟩

def init (τ : Type) (width : PointerWidth) (capacity kind : ℕ) :
    Except Status ((p : Shape) × Slots p τ) :=
  if h : capacity = 0 ∨ capacity > slotMask ∨ kind = 0 ∨ kind > kindMask then
    .error .einval
  else
    .ok ⟨⟨width, capacity, kind, by omega, by omega, by omega, by omega⟩,
      fun _ => Slot.zero τ⟩

variable {p : Shape} {τ : Type}

def encodeHandle (p : Shape) (index : ℕ) (generation : UInt32) : ℕ :=
  ((generation.toNat <<< generationShift) % 2^p.width.bits) |||
    ((p.kind &&& kindMask) <<< slotBits) ||| (index+1)

def decodeHandle (p : Shape) (handle : ℕ) : Option (Fin p.capacity × UInt32) :=
  let slot := handle &&& slotMask
  let kind := (handle >>> slotBits) &&& kindMask
  let generation := handle >>> generationShift
  if h : slot = 0 ∨ slot > p.capacity ∨ kind ≠ p.kind ∨ generation = 0 ∨
      generation > generationMask p.width then
    none
  else
    some (⟨slot-1, by omega⟩, UInt32.ofNat generation)

def Slot.isFree (s : Slot τ) : Bool :=
  !s.inUse && !s.closing && s.activeOperations = 0 && s.token.isNone

def allocate (slots : Slots p τ) (token : Option τ) : Except Status (ℕ × Slots p τ) :=
  match token with
  | none => .error .einval
  | some token =>
    match (List.finRange p.capacity).find? fun i => (slots i).isFree with
    | none => .error .enomem
    | some i =>
      let generation := nextGeneration p.width (slots i).generation
      .ok (encodeHandle p i generation, Function.update slots i
        { slots i with generation := generation, token := some token, inUse := true })

def resolve (slots : Slots p τ) (handle : ℕ) : Except Status (τ × Fin p.capacity) :=
  match decodeHandle p handle with
  | none => .error .einval
  | some (i, generation) =>
    if !(slots i).inUse || (slots i).generation ≠ generation then
      .error .einval
    else
      match (slots i).token with
      | none => .error .einval
      | some token => .ok (token, i)

def acquire (slots : Slots p τ) (handle : ℕ) : Except Status (Lease τ × Slots p τ) :=
  match resolve slots handle with
  | .error status => .error status
  | .ok (token, i) =>
    if (slots i).activeOperations = 0xFFFFFFFF then
      .error .eoverflow
    else
      .ok (⟨token, i, (slots i).generation, true⟩, Function.update slots i
        { slots i with activeOperations := (slots i).activeOperations+1 })

def Slot.finishClose (s : Slot τ) : Option τ × Slot τ :=
  if s.closing && s.activeOperations = 0 then
    (s.token, { s with token := none, closing := false })
  else
    (none, s)

section

variable [DecidableEq τ]

def leaseIsOpen (slots : Slots p τ) (lease : Lease τ) : Bool :=
  if h : lease.active = true ∧ lease.index < p.capacity then
    let s := slots ⟨lease.index, h.2⟩
    s.inUse && !s.closing && s.generation = lease.generation &&
      s.token = some lease.token
  else
    false

def endOperation (slots : Slots p τ) (lease : Lease τ) :
    Except Status (Option τ × Lease τ × Slots p τ) :=
  if h : lease.active = true ∧ lease.index < p.capacity then
    let s := slots ⟨lease.index, h.2⟩
    if s.generation ≠ lease.generation || s.token ≠ some lease.token ||
        s.activeOperations = 0 then
      .error .einval
    else
      let (deferred, s) :=
        { s with activeOperations := s.activeOperations-1 }.finishClose
      .ok (deferred, { lease with active := false },
        Function.update slots ⟨lease.index, h.2⟩ s)
  else
    .error .einval

end

def beginClose (slots : Slots p τ) (handle : ℕ) : Except Status (Option τ × Slots p τ) :=
  match resolve slots handle with
  | .error status => .error status
  | .ok (_, i) =>
    let (token, s) := { slots i with inUse := false, closing := true }.finishClose
    .ok (token, Function.update slots i s)

def Slot.closeInUse (s : Slot τ) : Option τ × Slot τ :=
  if s.inUse then
    { s with inUse := false, closing := true }.finishClose
  else
    (none, s)

/-- The tokens given back, each with its slot; `out_tokens` has room for one
token of every slot. -/
def beginCloseAll (slots : Slots p τ) (tokenCapacity : ℕ) :
    List (Fin p.capacity × τ) × Slots p τ :=
  if tokenCapacity < p.capacity then
    ([], slots)
  else
    ((List.finRange p.capacity).filterMap fun i =>
        (slots i).closeInUse.1.map fun token => (i, token),
      fun i => (slots i).closeInUse.2)

def period : PointerWidth → ℕ
  | .w32 => 2^19-1
  | .w64 => 2^32-1

theorem period_pos (w : PointerWidth) : 0 < period w := by
  cases w <;> decide

theorem generationMask_eq (w : PointerWidth) :
    generationMask w = 2^(w.bits-generationShift)-1 := by
  cases w <;> decide

theorem period_le (w : PointerWidth) : period w ≤ generationMask w := by
  cases w <;> decide

theorem nextGeneration_toNat (w : PointerWidth) (generation : UInt32)
    (h : generation.toNat ≤ period w) :
    (nextGeneration w generation).toNat = generation.toNat % period w+1 := by
  have hlt := generation.toNat_lt
  have hmask : (generation.toNat+1) % 2^w.bits &&& generationMask w =
      (generation.toNat+1) % 2^w.bits % 2^(w.bits-generationShift) := by
    rw [generationMask_eq, Nat.and_two_pow_sub_one_eq_mod]
  have hvalue : (UInt32.ofNat ((generation.toNat+1) % 2^w.bits &&& generationMask w)).toNat =
      (generation.toNat+1) % (period w+1) := by
    rw [UInt32.toNat_ofNat', hmask]
    cases w with
    | w32 => simp only [period, PointerWidth.bits, generationShift, slotBits, kindBits] at *; omega
    | w64 => simp only [period, PointerWidth.bits, generationShift, slotBits, kindBits] at *; omega
  rw [nextGeneration]
  by_cases hwrap : generation.toNat = period w
  · have hzero : UInt32.ofNat ((generation.toNat+1) % 2^w.bits &&& generationMask w) = 0 := by
      apply UInt32.toNat_inj.mp
      rw [hvalue, hwrap, Nat.mod_self]
      rfl
    rw [if_pos hzero, hwrap, Nat.mod_self]
    rfl
  · have hsmall : generation.toNat < period w := by omega
    rw [Nat.mod_eq_of_lt (show generation.toNat+1 < period w+1 by omega)] at hvalue
    have hne : UInt32.ofNat ((generation.toNat+1) % 2^w.bits &&& generationMask w) ≠ 0 := by
      intro hzero
      rw [hzero, UInt32.toNat_zero] at hvalue
      omega
    rw [if_neg hne, hvalue, Nat.mod_eq_of_lt hsmall]

theorem nextGeneration_bounds (w : PointerWidth) (generation : UInt32)
    (h : generation.toNat ≤ period w) :
    0 < (nextGeneration w generation).toNat ∧
      (nextGeneration w generation).toNat ≤ period w := by
  rw [nextGeneration_toNat w generation h]
  have := Nat.mod_lt generation.toNat (period_pos w)
  omega

theorem iterate_nextGeneration (w : PointerWidth) (generation : UInt32) (n : ℕ)
    (hpos : 0 < generation.toNat) (h : generation.toNat ≤ period w) :
    ((nextGeneration w)^[n] generation).toNat =
      (generation.toNat-1+n) % period w+1 := by
  induction n with
  | zero =>
    rw [Function.iterate_zero, id, Nat.add_zero, Nat.mod_eq_of_lt (by omega)]
    omega
  | succ n ih =>
    have hle := Nat.mod_lt (generation.toNat-1+n) (period_pos w)
    rw [Function.iterate_succ_apply', nextGeneration_toNat w _ (by omega), ih,
      Nat.mod_add_mod]
    rfl

/-- A generation comes back only after all the others. -/
theorem generation_returns (w : PointerWidth) (generation : UInt32) (n : ℕ)
    (hpos : 0 < generation.toNat) (h : generation.toNat ≤ period w) (hn : n ≠ 0)
    (hback : (nextGeneration w)^[n] generation = generation) : period w ≤ n := by
  have hval := iterate_nextGeneration w generation n hpos h
  rw [hback] at hval
  by_contra hlt
  have hsmall : generation.toNat-1+n < 2*period w := by omega
  by_cases hwrap : generation.toNat-1+n < period w
  · rw [Nat.mod_eq_of_lt hwrap] at hval
    omega
  · rw [Nat.mod_eq_sub_mod (by omega), Nat.mod_eq_of_lt (by omega)] at hval
    omega

theorem encodeHandle_eq (p : Shape) (i : Fin p.capacity) (generation : UInt32)
    (h : generation.toNat ≤ period p.width) :
    encodeHandle p i generation = generation.toNat*8192+p.kind*256+(i+1) := by
  have hgen := generation.toNat_lt
  have hi := i.isLt
  have hcap := p.capacity_le
  have hkind := p.kind_le
  have hshift : (generation.toNat <<< generationShift) % 2^p.width.bits =
      generation.toNat <<< generationShift := by
    apply Nat.mod_eq_of_lt
    rw [Nat.shiftLeft_eq]
    cases hw : p.width <;> rw [hw] at h <;>
      simp only [period, PointerWidth.bits, generationShift, slotBits, kindBits] at * <;> omega
  have hand : p.kind &&& kindMask = p.kind := by
    rw [kindMask, Nat.and_two_pow_sub_one_eq_mod, Nat.mod_eq_of_lt]
    simp only [kindMask, kindBits] at *
    omega
  have hsplit : generation.toNat <<< generationShift =
      (generation.toNat <<< kindBits) <<< slotBits := by
    rw [← Nat.shiftLeft_add]
    rfl
  simp only [slotMask, kindMask, slotBits, kindBits] at hcap hkind
  rw [encodeHandle, hshift, hand, hsplit, ← Nat.shiftLeft_or_distrib,
    ← Nat.shiftLeft_add_eq_or_of_lt (show p.kind < 2^kindBits by simp only [kindBits]; omega),
    ← Nat.shiftLeft_add_eq_or_of_lt (show (i:ℕ)+1 < 2^slotBits by simp only [slotBits]; omega),
    Nat.shiftLeft_eq, Nat.shiftLeft_eq]
  simp only [slotBits, kindBits]
  omega

theorem decode_encode (p : Shape) (i : Fin p.capacity) (generation : UInt32)
    (hpos : 0 < generation.toNat) (h : generation.toNat ≤ period p.width) :
    decodeHandle p (encodeHandle p i generation) = some (i, generation) := by
  have hi := i.isLt
  have hcap := p.capacity_le
  have hkind := p.kind_le
  have hmask := period_le p.width
  simp only [slotMask, kindMask, slotBits, kindBits] at hcap hkind
  have hslot : encodeHandle p i generation &&& slotMask = i+1 := by
    rw [encodeHandle_eq p i generation h, slotMask, Nat.and_two_pow_sub_one_eq_mod]
    simp only [slotBits]
    omega
  have hk : (encodeHandle p i generation >>> slotBits) &&& kindMask = p.kind := by
    rw [encodeHandle_eq p i generation h, kindMask, Nat.and_two_pow_sub_one_eq_mod,
      Nat.shiftRight_eq_div_pow]
    simp only [slotBits, kindBits]
    omega
  have hg : encodeHandle p i generation >>> generationShift = generation.toNat := by
    rw [encodeHandle_eq p i generation h, Nat.shiftRight_eq_div_pow]
    simp only [generationShift, slotBits, kindBits]
    omega
  have hvalid : ¬ ((i:ℕ)+1 = 0 ∨ (i:ℕ)+1 > p.capacity ∨ p.kind ≠ p.kind ∨
      generation.toNat = 0 ∨ generation.toNat > generationMask p.width) := by
    simp only [ne_eq, not_true_eq_false, false_or]
    omega
  simp only [decodeHandle, hslot, hk, hg]
  rw [dif_neg hvalid]
  simp

theorem encode_pos (p : Shape) (i : Fin p.capacity) (generation : UInt32)
    (h : generation.toNat ≤ period p.width) : 0 < encodeHandle p i generation := by
  rw [encodeHandle_eq p i generation h]
  omega

variable {slots slots' : Slots p τ} {handle : ℕ} {i : Fin p.capacity}

theorem Slot.free_iff (s : Slot τ) : s.isFree = true ↔
    s.inUse = false ∧ s.closing = false ∧ s.activeOperations = 0 ∧ s.token = none := by
  simp [Slot.isFree, and_assoc]

theorem allocate_ok {token : Option τ} (h : allocate slots token = .ok (handle, slots')) :
    ∃ (t : τ) (i : Fin p.capacity), token = some t ∧ (slots i).isFree = true ∧
      handle = encodeHandle p i (nextGeneration p.width (slots i).generation) ∧
      slots' = Function.update slots i { slots i with
        generation := nextGeneration p.width (slots i).generation
        token := some t
        inUse := true } := by
  cases token with
  | none => simp [allocate] at h
  | some t =>
    simp only [allocate] at h
    cases hfind : (List.finRange p.capacity).find? fun i => (slots i).isFree with
    | none => simp [hfind] at h
    | some i =>
      simp only [hfind, Except.ok.injEq, Prod.mk.injEq] at h
      exact ⟨t, i, rfl, List.find?_some (p := fun i => (slots i).isFree) hfind,
        h.1.symm, h.2.symm⟩

theorem resolve_ok {t : τ} (h : resolve slots handle = .ok (t, i)) :
    decodeHandle p handle = some (i, (slots i).generation) ∧ (slots i).inUse = true ∧
      (slots i).token = some t := by
  simp only [resolve] at h
  cases hdecode : decodeHandle p handle with
  | none => simp [hdecode] at h
  | some found =>
    obtain ⟨j, generation⟩ := found
    simp only [hdecode] at h
    by_cases hlive : (!(slots j).inUse || (slots j).generation ≠ generation) = true
    · rw [if_pos hlive] at h
      cases h
    · rw [if_neg hlive] at h
      simp only [Bool.or_eq_true, Bool.not_eq_true', decide_eq_true_eq, not_or, not_not,
        Bool.not_eq_false] at hlive
      cases htoken : (slots j).token with
      | none => simp [htoken] at h
      | some token =>
        simp only [htoken, Except.ok.injEq, Prod.mk.injEq] at h
        obtain ⟨rfl, rfl⟩ := h
        exact ⟨by rw [hlive.2], hlive.1, htoken⟩

theorem resolve_encode {t : τ} (hpos : 0 < (slots i).generation.toNat)
    (hle : (slots i).generation.toNat ≤ period p.width) (hinUse : (slots i).inUse = true)
    (htoken : (slots i).token = some t) :
    resolve slots (encodeHandle p i (slots i).generation) = .ok (t, i) := by
  simp [resolve, decode_encode p i _ hpos hle, hinUse, htoken]

theorem acquire_ok {lease : Lease τ} (h : acquire slots handle = .ok (lease, slots')) :
    ∃ (t : τ) (i : Fin p.capacity), (slots i).inUse = true ∧ (slots i).token = some t ∧
      (slots i).activeOperations ≠ 0xFFFFFFFF ∧
      lease = ⟨t, i, (slots i).generation, true⟩ ∧
      slots' = Function.update slots i { slots i with
        activeOperations := (slots i).activeOperations+1 } := by
  simp only [acquire] at h
  cases hresolve : resolve slots handle with
  | error status => simp [hresolve] at h
  | ok found =>
    obtain ⟨t, i⟩ := found
    obtain ⟨_, hinUse, htoken⟩ := resolve_ok hresolve
    simp only [hresolve] at h
    by_cases hfull : (slots i).activeOperations = 0xFFFFFFFF
    · simp [hfull] at h
    · simp only [if_neg hfull, Except.ok.injEq, Prod.mk.injEq] at h
      exact ⟨t, i, hinUse, htoken, hfull, h.1.symm, h.2.symm⟩

theorem endOperation_ok [DecidableEq τ] {lease lease' : Lease τ} {deferred : Option τ}
    (h : endOperation slots lease = .ok (deferred, lease', slots')) :
    ∃ i : Fin p.capacity, lease.index = i ∧ lease.active = true ∧
      (slots i).generation = lease.generation ∧ (slots i).token = some lease.token ∧
      (slots i).activeOperations ≠ 0 ∧ lease' = { lease with active := false } ∧
      deferred = { slots i with
        activeOperations := (slots i).activeOperations-1 }.finishClose.1 ∧
      slots' = Function.update slots i { slots i with
        activeOperations := (slots i).activeOperations-1 }.finishClose.2 := by
  simp only [endOperation] at h
  by_cases hvalid : lease.active = true ∧ lease.index < p.capacity
  · rw [dif_pos hvalid] at h
    split at h
    · cases h
    · rename_i hmatch
      simp only [ne_eq, decide_not, Bool.or_eq_true, Bool.not_eq_true', decide_eq_false_iff_not,
        decide_eq_true_eq, not_or, not_not] at hmatch
      simp only [Except.ok.injEq, Prod.mk.injEq] at h
      exact ⟨⟨lease.index, hvalid.2⟩, rfl, hvalid.1, hmatch.1.1, hmatch.1.2, hmatch.2,
        h.2.1.symm, h.1.symm, h.2.2.symm⟩
  · rw [dif_neg hvalid] at h
    cases h

theorem beginClose_ok {token : Option τ} (h : beginClose slots handle = .ok (token, slots')) :
    ∃ i : Fin p.capacity, (slots i).inUse = true ∧
      decodeHandle p handle = some (i, (slots i).generation) ∧
      token = (slots i).closeInUse.1 ∧
      slots' = Function.update slots i (slots i).closeInUse.2 := by
  simp only [beginClose] at h
  cases hresolve : resolve slots handle with
  | error status => simp [hresolve] at h
  | ok found =>
    obtain ⟨t, i⟩ := found
    obtain ⟨hdecode, hinUse, _⟩ := resolve_ok hresolve
    simp only [hresolve, Except.ok.injEq, Prod.mk.injEq] at h
    refine ⟨i, hinUse, hdecode, ?_, ?_⟩
    · rw [Slot.closeInUse, if_pos hinUse, h.1]
    · rw [Slot.closeInUse, if_pos hinUse, h.2]

end JaszczurHal.HandlePool
