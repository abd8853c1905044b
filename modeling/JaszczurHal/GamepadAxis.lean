import JaszczurHal.GamepadExtraction

/-!
# The scale of an axis

An axis goes from the logical minimum at -32767 to the logical maximum at
32767, without a step back between them. The logical range takes up to 33 bits
and is scaled in 64.
-/

set_option autoImplicit false

namespace JaszczurHal.GamepadAxis
open CheckedArith GamepadParser GamepadReport GamepadBounds GamepadQueue GamepadExtraction

/-- An axis over this range; the rest of the field plays no part. -/
def axisField (logicalMinimum logicalMaximum : Int32) : Field :=
  { logicalMinimum, logicalMaximum, reportId := 0, bitPosition := 0, bitSize := 0, index := 0,
    mainFlags := 0, kind := .axis }

variable {f : Field} {a b : ℤ}

theorem axisValue_le (h : a ≤ b) (hlt : f.logicalMinimum.toInt < f.logicalMaximum.toInt) :
    axisValue f a ≤ axisValue f b := by
  have hproduct : (a-f.logicalMinimum.toInt)*65534 ≤ (b-f.logicalMinimum.toInt)*65534 := by omega
  have hquotient := Int.ediv_le_ediv (Int.sub_pos_of_lt hlt) hproduct
  unfold axisValue
  omega

theorem axisValue_minimum : axisValue f f.logicalMinimum.toInt = -32767 := by
  rw [axisValue, Int.sub_self, Int.zero_mul, Int.zero_ediv]
  rfl

theorem axisValue_maximum (hlt : f.logicalMinimum.toInt < f.logicalMaximum.toInt) :
    axisValue f f.logicalMaximum.toInt = 32767 := by
  rw [axisValue, Int.mul_ediv_cancel_left _ (by omega)]
  rfl

/-- Inside the range the scale stays between its ends. -/
theorem axisValue_bounds (h : InRange f a)
    (hlt : f.logicalMinimum.toInt < f.logicalMaximum.toInt) :
    -32767 ≤ axisValue f a ∧ axisValue f a ≤ 32767 := by
  have hlow := axisValue_le h.1 hlt
  have hhigh := axisValue_le h.2 hlt
  rw [axisValue_minimum] at hlow
  rw [axisValue_maximum hlt] at hhigh
  exact ⟨hlow, hhigh⟩

/-- No operation overflows, and the result is the place on the scale. -/
theorem normalizeAxis_ok {value : Int32} (h : InRange f value.toInt)
    (hlt : f.logicalMinimum.toInt < f.logicalMaximum.toInt) :
    ∃ axis, normalizeAxis value f.logicalMinimum f.logicalMaximum = .ok axis ∧
      axis.toInt = axisValue f value.toInt := by
  have hne : f.logicalMaximum ≠ f.logicalMinimum := by
    intro heq
    rw [heq] at hlt
    exact lt_irrefl _ hlt
  obtain ⟨axis, hok, _⟩ := safe_normalizeAxis h hne
  exact ⟨axis, hok, normalizeAxis_value h hne axis hok⟩

def axisOf (logicalMinimum logicalMaximum value : Int32) : Int16 :=
  Int16.ofInt (axisValue (axisField logicalMinimum logicalMaximum) value.toInt)

/-- Over every range of 32-bit limits each value in it is scaled without an
overflow, into -32767 to 32767, in order and onto both ends. -/
theorem normalizeAxis_scales (logicalMinimum logicalMaximum : Int32)
    (hlt : logicalMinimum < logicalMaximum) :
    (∀ value, logicalMinimum ≤ value → value ≤ logicalMaximum →
      normalizeAxis value logicalMinimum logicalMaximum =
          .ok (axisOf logicalMinimum logicalMaximum value) ∧
        -32767 ≤ (axisOf logicalMinimum logicalMaximum value).toInt ∧
        (axisOf logicalMinimum logicalMaximum value).toInt ≤ 32767) ∧
    (∀ value later, logicalMinimum ≤ value → value ≤ later → later ≤ logicalMaximum →
      axisOf logicalMinimum logicalMaximum value ≤ axisOf logicalMinimum logicalMaximum later) ∧
    axisOf logicalMinimum logicalMaximum logicalMinimum = -32767 ∧
    axisOf logicalMinimum logicalMaximum logicalMaximum = 32767 := by
  have hrange : (axisField logicalMinimum logicalMaximum).logicalMinimum.toInt <
      (axisField logicalMinimum logicalMaximum).logicalMaximum.toInt :=
    Int32.lt_iff_toInt_lt.mp hlt
  have hscaled : ∀ value, logicalMinimum ≤ value → value ≤ logicalMaximum →
      normalizeAxis value logicalMinimum logicalMaximum =
          .ok (axisOf logicalMinimum logicalMaximum value) ∧
        (axisOf logicalMinimum logicalMaximum value).toInt =
          axisValue (axisField logicalMinimum logicalMaximum) value.toInt := by
    intro value hlow hhigh
    obtain ⟨axis, hok, hvalue⟩ := normalizeAxis_ok (f := axisField logicalMinimum logicalMaximum)
      ⟨Int32.le_iff_toInt_le.mp hlow, Int32.le_iff_toInt_le.mp hhigh⟩ hrange
    have haxis : axisOf logicalMinimum logicalMaximum value = axis := by
      rw [axisOf, ← hvalue, Int16.ofInt_toInt]
    rw [haxis]
    exact ⟨hok, hvalue⟩
  refine ⟨fun value hlow hhigh => ?_, fun value later hlow hle hhigh => ?_, ?_, ?_⟩
  · obtain ⟨hok, hvalue⟩ := hscaled value hlow hhigh
    rw [hvalue]
    exact ⟨hok, axisValue_bounds ⟨Int32.le_iff_toInt_le.mp hlow, Int32.le_iff_toInt_le.mp hhigh⟩
      hrange⟩
  · apply Int16.le_iff_toInt_le.mpr
    rw [(hscaled value hlow (Int32.le_trans hle hhigh)).2,
      (hscaled later (Int32.le_trans hlow hle) hhigh).2]
    exact axisValue_le (Int32.le_iff_toInt_le.mp hle) hrange
  · rw [axisOf]
    exact congrArg Int16.ofInt axisValue_minimum
  · rw [axisOf]
    exact congrArg Int16.ofInt (axisValue_maximum hrange)

/-- The widest range: its span needs 33 bits and the product 49. -/
theorem normalizeAxis_scales_widest : (-2147483648 : Int32) < 2147483647 ∧
    normalizeAxis 2147483647 (-2147483648) 2147483647 = .ok 32767 ∧
    normalizeAxis (-2147483648) (-2147483648) 2147483647 = .ok (-32767) := by
  obtain ⟨hscaled, _, hlow, hhigh⟩ :=
    normalizeAxis_scales (-2147483648) 2147483647 (by decide)
  refine ⟨by decide, ?_, ?_⟩
  · rw [(hscaled 2147483647 (by decide) (by decide)).1, hhigh]
  · rw [(hscaled (-2147483648) (by decide) (by decide)).1, hlow]

end JaszczurHal.GamepadAxis
