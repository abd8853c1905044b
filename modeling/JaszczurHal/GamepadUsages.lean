import JaszczurHal.GamepadParser

/-!
# The usages of an input item

The local items in front of a main item declare its usages one after another:
a usage stands for itself and a range for all its numbers, in their order. The
parser keeps the usages apart from the last range, and finds the same usage for
a slot as long as it does not have to put the two together.
-/

set_option autoImplicit false

namespace JaszczurHal.GamepadUsages
open GamepadParser

inductive LocalItem where
  | usage (value : UInt32)
  | minimum (value : UInt32)
  | maximum (value : UInt32)
  deriving DecidableEq, Repr

def record (l : Locals) : LocalItem → Locals
  | .usage value => { l with usages := l.usages ++ [value] }
  | .minimum value => { l with usageMinimum := value, haveUsageMinimum := true }
  | .maximum value => { l with usageMaximum := value, haveUsageMaximum := true }

def localsOf (order : List LocalItem) : Locals := order.foldl record resetLocals

/-- The usage that the parser finds for slot `i`: an explicit one, or the number
`i` of its range, and the last one again where there are no more. -/
def slotUsage (l : Locals) (i : ℕ) : Option ℕ :=
  match l.usages[i]? with
  | some usage => some usage.toNat
  | none =>
    if l.haveUsageMinimum ∧ l.haveUsageMaximum ∧ l.usageMinimum ≤ l.usageMaximum then
      some (min (l.usageMinimum.toNat+i) l.usageMaximum.toNat)
    else l.usages.getLast?.map UInt32.toNat

/-- The ranges of usages in their order, behind the bounds of a range that is
not complete; a single usage is a range of its own. -/
def rangesFrom : Option ℕ → Option ℕ → List LocalItem → List (ℕ × ℕ)
  | _, _, [] => []
  | low, high, .usage value :: order => (value.toNat, value.toNat) :: rangesFrom low high order
  | _, some high, .minimum value :: order => (value.toNat, high) :: rangesFrom none none order
  | _, none, .minimum value :: order => rangesFrom (some value.toNat) none order
  | some low, _, .maximum value :: order => (low, value.toNat) :: rangesFrom none none order
  | none, _, .maximum value :: order => rangesFrom none (some value.toNat) order

def usageAt : List (ℕ × ℕ) → ℕ → Option ℕ
  | [], _ => none
  | (low, high) :: ranges, i =>
    if low+i ≤ high then some (low+i) else usageAt ranges (i-(high+1-low))

def lastUsage (ranges : List (ℕ × ℕ)) : Option ℕ :=
  (ranges.filter fun range => range.1 ≤ range.2).getLast?.map Prod.snd

/-- The usage that the local items declare for slot `i`, and the last one again
where there are no more. -/
def declaredUsage (order : List LocalItem) (i : ℕ) : Option ℕ :=
  (usageAt (rangesFrom none none order) i).or (lastUsage (rangesFrom none none order))

def explicitOf : LocalItem → Option UInt32
  | .usage value => some value
  | _ => none

def isMinimum : LocalItem → Bool
  | .minimum _ => true
  | _ => false

def isMaximum : LocalItem → Bool
  | .maximum _ => true
  | _ => false

def isRange : List LocalItem → Bool
  | [.minimum _, .maximum _] => true
  | [.maximum _, .minimum _] => true
  | _ => false

/-- The lookup need not put usages and a range together: there is no range, or
there is one and nothing else, or the usages in front cover the slots. -/
def InOrder (order : List LocalItem) (slots : ℕ) : Prop :=
  order.any isMinimum = false ∨ order.any isMaximum = false ∨ isRange order = true ∨
  slots ≤ (order.takeWhile fun item => (explicitOf item).isSome).length

instance (order : List LocalItem) (slots : ℕ) : Decidable (InOrder order slots) :=
  inferInstanceAs (Decidable (_ ∨ _))

theorem isRange_iff {order : List LocalItem} (h : isRange order = true) :
    ∃ low high, order = [.minimum low, .maximum high] ∨ order = [.maximum high, .minimum low] := by
  unfold isRange at h
  split at h
  · rename_i low high
    exact ⟨low, high, Or.inl rfl⟩
  · rename_i high low
    exact ⟨low, high, Or.inr rfl⟩
  · cases h

theorem localsOf_snoc (order : List LocalItem) (item : LocalItem) :
    localsOf (order ++ [item]) = record (localsOf order) item := by
  rw [localsOf, List.foldl_concat]
  rfl

theorem localsOf_usages (order : List LocalItem) :
    (localsOf order).usages = order.filterMap explicitOf := by
  induction order using List.reverseRecOn with
  | nil => rfl
  | append_singleton order item ih =>
    rw [localsOf_snoc, List.filterMap_append, ← ih]
    cases item <;> simp [record, explicitOf]

theorem localsOf_minimum {order : List LocalItem} (h : order.any isMinimum = false) :
    (localsOf order).haveUsageMinimum = false := by
  induction order using List.reverseRecOn with
  | nil => rfl
  | append_singleton order item ih =>
    rw [List.any_append, Bool.or_eq_false_iff] at h
    rw [localsOf_snoc]
    cases item with
    | minimum value => simp [isMinimum] at h
    | usage value => exact ih h.1
    | maximum value => exact ih h.1

theorem localsOf_maximum {order : List LocalItem} (h : order.any isMaximum = false) :
    (localsOf order).haveUsageMaximum = false := by
  induction order using List.reverseRecOn with
  | nil => rfl
  | append_singleton order item ih =>
    rw [List.any_append, Bool.or_eq_false_iff] at h
    rw [localsOf_snoc]
    cases item with
    | maximum value => simp [isMaximum] at h
    | usage value => exact ih h.1
    | minimum value => exact ih h.1

def single (usage : UInt32) : ℕ × ℕ := (usage.toNat, usage.toNat)

theorem rangesFrom_minimum {order : List LocalItem} (h : order.any isMinimum = false)
    (high : Option ℕ) : rangesFrom none high order = (order.filterMap explicitOf).map single := by
  induction order generalizing high with
  | nil => rfl
  | cons item order ih =>
    rw [List.any_cons, Bool.or_eq_false_iff] at h
    cases item with
    | minimum value => simp [isMinimum] at h
    | usage value => simp [rangesFrom, explicitOf, single, ih h.2]
    | maximum value =>
      rw [List.filterMap_cons_none rfl]
      exact ih h.2 (some value.toNat)

theorem rangesFrom_maximum {order : List LocalItem} (h : order.any isMaximum = false)
    (low : Option ℕ) : rangesFrom low none order = (order.filterMap explicitOf).map single := by
  induction order generalizing low with
  | nil => cases low <;> rfl
  | cons item order ih =>
    rw [List.any_cons, Bool.or_eq_false_iff] at h
    cases item with
    | maximum value => simp [isMaximum] at h
    | usage value => simp [rangesFrom, explicitOf, single, ih h.2]
    | minimum value =>
      rw [List.filterMap_cons_none rfl]
      exact ih h.2 (some value.toNat)

theorem usageAt_single (usages : List UInt32) (ranges : List (ℕ × ℕ)) {i : ℕ}
    (h : i < usages.length) :
    usageAt (usages.map single ++ ranges) i = some (usages[i]).toNat := by
  induction usages generalizing i with
  | nil => exact absurd h (Nat.not_lt_zero i)
  | cons usage usages ih =>
    cases i with
    | zero => simp [usageAt, single]
    | succ i =>
      have hrest := ih (Nat.lt_of_succ_lt_succ h)
      simpa [usageAt, single] using hrest

theorem usageAt_more {usages : List UInt32} {i : ℕ} (h : usages.length ≤ i) :
    usageAt (usages.map single) i = none := by
  induction usages generalizing i with
  | nil => rfl
  | cons usage usages ih =>
    have hrest := ih (i := i-1) (by simp at h; omega)
    have hfar : ¬ usage.toNat+i ≤ usage.toNat := by simp at h; omega
    simpa [usageAt, single, hfar] using hrest

theorem slot_explicit {order : List LocalItem} (i : ℕ)
    (hranges : rangesFrom none none order = (order.filterMap explicitOf).map single)
    (hnone : (localsOf order).haveUsageMinimum = false ∨
      (localsOf order).haveUsageMaximum = false) :
    slotUsage (localsOf order) i = declaredUsage order i := by
  rw [slotUsage, declaredUsage, hranges, localsOf_usages]
  generalize order.filterMap explicitOf = usages
  have hlast : lastUsage (usages.map single) = usages.getLast?.map UInt32.toNat := by
    rw [lastUsage, List.filter_eq_self.mpr (by simp [single]), List.getLast?_map]
    cases usages.getLast? <;> rfl
  rw [hlast]
  by_cases hi : i < usages.length
  · have hat := usageAt_single usages [] hi
    rw [List.append_nil] at hat
    rw [hat, List.getElem?_eq_getElem hi]
    rfl
  · rw [usageAt_more (by omega), List.getElem?_eq_none (by omega)]
    rcases hnone with hminimum | hmaximum
    · simp [hminimum]
    · simp [hmaximum]

theorem slot_range (low high : UInt32) (i : ℕ) {order : List LocalItem}
    (h : order = [.minimum low, .maximum high] ∨ order = [.maximum high, .minimum low]) :
    slotUsage (localsOf order) i = declaredUsage order i := by
  have hlocals : localsOf order = ⟨[], low, high, true, true⟩ := by
    rcases h with rfl | rfl <;> rfl
  have hranges : rangesFrom none none order = [(low.toNat, high.toNat)] := by
    rcases h with rfl | rfl <;> rfl
  rw [slotUsage, declaredUsage, hlocals, hranges]
  have hle : low ≤ high ↔ low.toNat ≤ high.toNat := UInt32.le_iff_toNat_le
  by_cases hvalid : low.toNat ≤ high.toNat
  · by_cases hi : low.toNat+i ≤ high.toNat
    · simp [usageAt, hle, hvalid, hi]
    · simp [usageAt, lastUsage, hle, hvalid, hi]
      omega
  · have hi : ¬ low.toNat+i ≤ high.toNat := by omega
    simp [usageAt, lastUsage, hle, hvalid, hi]

/-- The usages in front of everything else are found in their order. -/
theorem slot_front {order : List LocalItem} {i : ℕ}
    (h : i < (order.takeWhile fun item => (explicitOf item).isSome).length) :
    slotUsage (localsOf order) i = declaredUsage order i := by
  obtain ⟨usages, more, rfl, hlength⟩ : ∃ (usages : List UInt32) (more : List LocalItem),
      order = usages.map .usage ++ more ∧ i < usages.length := by
    induction order generalizing i with
    | nil => simp at h
    | cons item order ih =>
      cases item with
      | minimum value => simp [explicitOf] at h
      | maximum value => simp [explicitOf] at h
      | usage value =>
        cases i with
        | zero => exact ⟨[value], order, rfl, Nat.zero_lt_one⟩
        | succ i =>
          obtain ⟨usages, more, rfl, hlength⟩ := ih (i := i) (by simpa [explicitOf] using h)
          exact ⟨value :: usages, more, rfl, Nat.succ_lt_succ hlength⟩
  have hranges : rangesFrom none none (usages.map .usage ++ more) =
      usages.map single ++ rangesFrom none none more := by
    clear h hlength
    induction usages with
    | nil => rfl
    | cons usage usages ih => simp [rangesFrom, single, ih]
  have hexplicit : (usages.map LocalItem.usage).filterMap explicitOf = usages := by
    simp [List.filterMap_map, Function.comp_def, explicitOf]
  have hfound : (localsOf (usages.map .usage ++ more)).usages[i]? = some usages[i] := by
    rw [localsOf_usages, List.filterMap_append, hexplicit, List.getElem?_append_left hlength,
      List.getElem?_eq_getElem hlength]
  rw [slotUsage, hfound, declaredUsage, hranges, usageAt_single usages _ hlength]
  rfl

theorem slot_declared {order : List LocalItem} {slots i : ℕ} (h : InOrder order slots)
    (hi : i < slots) : slotUsage (localsOf order) i = declaredUsage order i := by
  rcases h with hminimum | hmaximum | hrange | hfront
  · exact slot_explicit i (rangesFrom_minimum hminimum none) (Or.inl (localsOf_minimum hminimum))
  · exact slot_explicit i (rangesFrom_maximum hmaximum none) (Or.inr (localsOf_maximum hmaximum))
  · obtain ⟨low, high, horder⟩ := isRange_iff hrange
    exact slot_range low high i horder
  · exact slot_front (by omega)

/-- A usage in front of a range: the lookup skips the first number of the range. -/
example : declaredUsage [.usage 1, .minimum 2, .maximum 8] 1 = some 2 ∧
    slotUsage (localsOf [.usage 1, .minimum 2, .maximum 8]) 1 = some 3 := by decide

end JaszczurHal.GamepadUsages
