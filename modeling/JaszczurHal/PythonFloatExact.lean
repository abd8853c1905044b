import JaszczurHal.PythonFloatForm
import Mathlib.Tactic.FieldSimp
import Mathlib.Tactic.NormNum

/-!
# When the decimal form is exact

The form keeps what every binary64 boundary can tell, as long as the exponents
are not cut: a boundary has at most 767 significant digits.
-/

set_option autoImplicit false

namespace JaszczurHal.PythonFloatExact
open DecimalText DecimalTruncation PythonFloat

section Bound

theorem reaches_iff (bound digits : List UInt8) (hbound : ∀ b ∈ bound, digitByte b = true)
    (hdigits : ∀ b ∈ digits, digitByte b = true) :
    reaches digits bound = true ↔
      valueFrom 0 bound * 10 ^ digits.length ≤ valueFrom 0 digits * 10 ^ bound.length := by
  induction bound generalizing digits with
  | nil => simp [reaches, valueFrom]
  | cons c bound ih =>
    have hc := hbound c (List.mem_cons_self ..)
    have hlater : ∀ b ∈ bound, digitByte b = true :=
      fun b hb => hbound b (List.mem_cons_of_mem _ hb)
    have hboundLess := value_lt hlater
    have hboundPos := Nat.pow_pos (n := bound.length) (show 0 < 10 by omega)
    cases digits with
    | nil =>
      have hrest := ih [] hlater (by simp)
      by_cases hzero : c = 48
      · rw [value_cons, hzero]
        simpa [reaches, digit, valueFrom] using hrest
      · have hge : 10 ^ bound.length ≤ valueFrom 0 (c :: bound) := value_ge hc hzero
        have hnot : ¬c < 48 := by
          rw [digitByte_iff] at hc
          rw [UInt8.lt_iff_toNat_lt]
          exact Nat.not_lt.mpr hc.1
        have hnone : reaches [] (c :: bound) = false := by
          simp [reaches, Ne.symm hzero, hnot]
        have hvalue : valueFrom 0 ([] : List UInt8) = 0 := rfl
        rw [hnone, hvalue]
        simp only [List.length_nil, pow_zero, mul_one, zero_mul, Nat.le_zero_eq]
        constructor
        · simp
        · omega
    | cons d digits =>
      have hd := hdigits d (List.mem_cons_self ..)
      have hrest : ∀ b ∈ digits, digitByte b = true :=
        fun b hb => hdigits b (List.mem_cons_of_mem _ hb)
      have hdigitsLess := value_lt hrest
      have hdigitsPos := Nat.pow_pos (n := digits.length) (show 0 < 10 by omega)
      have hnext := ih digits hlater hrest
      rw [value_cons, value_cons, List.length_cons, List.length_cons, pow_succ, pow_succ]
      have horder : c < d ↔ digit c < digit d := by
        rw [digitByte_iff] at hc hd
        rw [UInt8.lt_iff_toNat_lt]
        unfold digit
        omega
      generalize valueFrom 0 bound = x at *
      generalize valueFrom 0 digits = y at *
      generalize 10 ^ bound.length = p at *
      generalize 10 ^ digits.length = q at *
      by_cases hsame : d = c
      · simp only [reaches, List.head?_cons, Option.getD_some, hsame, ne_eq, not_true_eq_false,
          if_false, List.tail_cons]
        rw [hnext]
        constructor
        · intro h
          nlinarith
        · intro h
          nlinarith
      · have hvalue : reaches (d :: digits) (c :: bound) = decide (c < d) := by
          simp only [reaches, List.head?_cons, Option.getD_some, ne_eq, hsame, not_false_eq_true,
            if_true]
          rfl
        rw [hvalue, decide_eq_true_eq, horder]
        constructor
        · intro hless
          have hfirst : (digit c * p + x) * q ≤ digit d * p * q := by
            apply Nat.mul_le_mul_right
            nlinarith
          nlinarith
        · intro hle
          by_contra hnot
          have hne : digit c ≠ digit d := by
            intro heq
            apply hsame
            rw [← byte_digit hd, ← byte_digit hc, heq]
          have hless : digit d + 1 ≤ digit c := by omega
          have hfirst : (digit d * q + y) * p < digit c * q * p := by
            apply Nat.mul_lt_mul_of_pos_right _ hboundPos
            nlinarith
          nlinarith

theorem bound_digits : ∀ b ∈ bound, digitByte b = true := by
  intro b hb
  obtain ⟨piece, _, hpiece⟩ := List.mem_flatMap.mp hb
  exact decimal_digits piece b hpiece

/-- The numbers that decide a range, computed together. -/
theorem powers : (bound.length = 309 ∧ valueFrom 0 bound = 2 ^ 1024 - 2 ^ 970) ∧
    10 ^ 308 + 2 ^ 970 ≤ 2 ^ 1024 ∧ 2 ^ 1024 ≤ 10 ^ 309 + 2 ^ 970 ∧ 2 ^ 1075 ≤ 10 ^ 401 := by
  decide +kernel

theorem bound_length : bound.length = 309 := powers.1.1

theorem bound_value : valueFrom 0 bound = 2 ^ 1024 - 2 ^ 970 := powers.1.2

theorem reaches_take (bound digits : List UInt8) {k : ℕ} (h : bound.length ≤ k) :
    reaches (digits.take k) bound = reaches digits bound := by
  induction bound generalizing digits k with
  | nil => rfl
  | cons b bound ih =>
    obtain ⟨k, rfl⟩ := Nat.exists_eq_add_of_le' (show 1 ≤ k by
      rw [List.length_cons] at h
      omega)
    cases digits with
    | nil => rfl
    | cons d digits =>
      rw [List.length_cons] at h
      simp only [List.take_succ_cons, reaches, List.head?_cons, List.tail_cons]
      rw [ih digits (by omega)]
      rfl

end Bound

section Values

variable (n : Number)

def exact : ℤ := n.point + n.written

theorem significant_digits : ∀ b ∈ n.significant, digitByte b = true := by
  intro b hb
  have hin : b ∈ n.whole ++ n.fraction := (List.dropWhile_sublist _).subset hb
  cases List.mem_append.mp hin with
  | inl hwhole => exact n.wholeDigits.2 b hwhole
  | inr hfraction => exact n.fractionDigits b hfraction

theorem magnitude_eq :
    n.magnitude = valueFrom 0 n.significant * 10 ^ (exact n - n.significant.length) := by
  have hexponent : exact n - n.significant.length = n.written - n.fraction.length := by
    unfold exact Number.point
    omega
  rw [Number.magnitude, hexponent, Number.significant, value_zeros]

theorem magnitude_lt : n.magnitude < 10 ^ exact n := by
  have hless := value_lt (significant_digits n)
  have hless : (valueFrom 0 n.significant : ℚ) < 10 ^ n.significant.length := by
    exact_mod_cast hless
  rw [magnitude_eq]
  calc
    (valueFrom 0 n.significant : ℚ) * 10 ^ (exact n - n.significant.length) <
        10 ^ n.significant.length * 10 ^ (exact n - n.significant.length) :=
      mul_lt_mul_of_pos_right hless (power_pos _)
    _ = 10 ^ exact n := by
      rw [← zpow_natCast, ← zpow_add₀ (by norm_num)]
      congr 1
      omega

theorem significant_cons (h : n.significant ≠ []) :
    ∃ b rest, n.significant = b :: rest ∧ digitByte b = true ∧ b ≠ 48 := by
  obtain ⟨b, rest, hcons⟩ := List.exists_cons_of_ne_nil h
  have hfirst := List.head_dropWhile_not (· == 48) h
  refine ⟨b, rest, hcons, significant_digits n b (by simp [hcons]), ?_⟩
  have hhead : ((n.whole ++ n.fraction).dropWhile (· == 48)).head h = b := by
    simp only [Number.significant] at hcons
    simp [hcons]
  rw [hhead] at hfirst
  simpa using hfirst

theorem magnitude_ge (h : n.significant ≠ []) : (10 : ℚ) ^ (exact n - 1) ≤ n.magnitude := by
  obtain ⟨b, rest, hcons, hb, hzero⟩ := significant_cons n h
  have hge : 10 ^ rest.length ≤ valueFrom 0 (b :: rest) := value_ge hb hzero
  have hge : (10 : ℚ) ^ rest.length ≤ (valueFrom 0 (b :: rest) : ℚ) := by exact_mod_cast hge
  rw [magnitude_eq, hcons]
  calc
    (10 : ℚ) ^ (exact n - 1) = 10 ^ rest.length * 10 ^ (exact n - (b :: rest).length) := by
      rw [← zpow_natCast, ← zpow_add₀ (by norm_num), List.length_cons]
      congr 1
      push_cast
      omega
    _ ≤ _ := mul_le_mul_of_nonneg_right hge (power_pos _).le

theorem magnitude_nonneg : 0 ≤ n.magnitude := by
  rw [magnitude_eq]
  have hpos := power_pos (exact n - n.significant.length)
  positivity

theorem abs_value : |n.value| = n.magnitude := by
  have hnonneg := magnitude_nonneg n
  unfold Number.value
  split
  · rw [abs_neg, abs_of_nonneg hnonneg]
  · rw [abs_of_nonneg hnonneg]

theorem magnitude_zero (h : n.significant = []) : n.magnitude = 0 := by
  rw [magnitude_eq, h]
  simp [valueFrom]

/-- A number of the bound's length reaches it by its digits. -/
theorem reaches_magnitude (h : exact n = 309) :
    reaches n.significant bound = true ↔ (2 ^ 1024 - 2 ^ 970 : ℚ) ≤ n.magnitude := by
  have hscale : (2 ^ 1024 - 2 ^ 970 : ℚ) * 10 ^ n.significant.length ≤
      n.magnitude * 10 ^ n.significant.length ↔ (2 ^ 1024 - 2 ^ 970 : ℚ) ≤ n.magnitude :=
    mul_le_mul_iff_of_pos_right (by positivity)
  have hvalue : n.magnitude * 10 ^ n.significant.length =
      ((valueFrom 0 n.significant * 10 ^ 309 : ℕ) : ℚ) := by
    rw [magnitude_eq, h, mul_assoc, ← zpow_natCast, ← zpow_add₀ (by norm_num)]
    rw [show (309 : ℤ) - n.significant.length + n.significant.length = ((309 : ℕ) : ℤ) by omega]
    rw [zpow_natCast, Nat.cast_mul, Nat.cast_pow, Nat.cast_ofNat]
  have hbound : (2 ^ 1024 - 2 ^ 970 : ℚ) = ((valueFrom 0 bound : ℕ) : ℚ) := by
    have hle : 2 ^ 970 ≤ 2 ^ 1024 := Nat.pow_le_pow_right Nat.two_pos (by decide)
    simp only [bound_value, Nat.cast_sub hle, Nat.cast_pow, Nat.cast_ofNat]
  rw [reaches_iff bound n.significant bound_digits (significant_digits n), bound_length, ← hscale,
    hvalue, hbound]
  norm_cast

end Values

section Canonical

variable (n : Number)

theorem signed_exponent (e : ℤ) (sign : List UInt8) (hsign : sign = if e < 0 then [45] else []) :
    (if sign = [45] then -(valueFrom 0 (decimal e.natAbs) : ℤ)
      else valueFrom 0 (decimal e.natAbs)) = e := by
  rw [valueFrom_decimal, hsign]
  by_cases h : e < 0
  · simp only [if_pos h, if_true]
    omega
  · simp only [if_neg h, List.nil_eq, reduceCtorEq, if_false]
    omega

def canonicalExponent (e : ℤ) : Exponent where
  letter := 101
  sign := if e < 0 then [45] else []
  digits := decimal e.natAbs
  isLetter := Or.inl rfl
  isSign := by
    split
    · exact Or.inr (Or.inr rfl)
    · exact Or.inl rfl
  isDigits := ⟨decimal_ne_nil _, decimal_digits _⟩

def canonicalNumber (negative : Bool) (digits : List UInt8) (e : ℤ)
    (hdigits : ∀ b ∈ digits, digitByte b = true) : Number where
  negative := negative
  whole := [48]
  fraction := digits
  exponent := some (canonicalExponent e)
  wholeDigits := ⟨List.cons_ne_nil _ _, List.all_eq_true.mp rfl⟩
  leading := fun h => absurd h (by simp)
  fractionDigits := hdigits

theorem canonicalNumber_magnitude (negative : Bool) (digits : List UInt8) (e : ℤ)
    (hdigits : ∀ b ∈ digits, digitByte b = true) :
    (canonicalNumber negative digits e hdigits).magnitude =
      valueFrom 0 digits * 10 ^ (e - digits.length) := by
  have hvalue : valueFrom 0 ([48] ++ digits) = valueFrom 0 digits := by
    rw [List.singleton_append, value_cons]
    simp [digit]
  have hwritten : (canonicalNumber negative digits e hdigits).written = e :=
    signed_exponent e _ rfl
  rw [Number.magnitude, hwritten]
  simp only [canonicalNumber, hvalue]

theorem canonicalNumber_text (value : Decimal) (hne : value.digits ≠ [])
    (hdigits : ∀ b ∈ value.digits ++ (if value.sticky then [49] else []), digitByte b = true) :
    (canonicalNumber value.negative (value.digits ++ if value.sticky then [49] else [])
      value.exponent hdigits).text = canonical value := by
  have hfraction : value.digits ++ (if value.sticky then [49] else []) ≠ [] := by simp [hne]
  have htext : (canonicalNumber value.negative
      (value.digits ++ if value.sticky then [49] else []) value.exponent hdigits).text =
      (if value.negative then [45] else []) ++ [48] ++
        46 :: (value.digits ++ if value.sticky then [49] else []) ++
          (canonicalExponent value.exponent).text := by
    unfold Number.text
    exact congrArg (fun part => (if value.negative then [45] else []) ++ [48] ++ part ++
      (canonicalExponent value.exponent).text) (if_neg hfraction)
  rw [htext]
  simp [canonical, Exponent.text, canonicalExponent, signed]

theorem cmp_neg_left (a w : ℚ) : cmp (-a) w = (cmp a (-w)).swap := by
  rcases lt_trichotomy a (-w) with h | h | h
  · rw [(cmp_eq_lt_iff _ _).mpr h, (cmp_eq_gt_iff _ _).mpr (by linarith)]
    rfl
  · rw [(cmp_eq_eq_iff _ _).mpr h, (cmp_eq_eq_iff _ _).mpr (by linarith)]
    rfl
  · rw [(cmp_eq_gt_iff _ _).mpr h, (cmp_eq_lt_iff _ _).mpr (by linarith)]
    rfl

def Alike (v c : ℚ) : Prop := ∀ w, Significant 767 w → cmp c w = cmp v w

theorem alike_neg {v c : ℚ} (h : Alike v c) : Alike (-v) (-c) := by
  intro w hw
  rw [cmp_neg_left, cmp_neg_left, h (-w) (significant_neg hw)]

/-- The digits that are dropped tell no decimal of 767 digits apart. -/
theorem cut_alike (digits : List UInt8) (hdigits : ∀ b ∈ digits, digitByte b = true)
    (hfirst : ∀ b, digits.head? = some b → b ≠ 48) (sticky : Bool)
    (hsticky : sticky = true ↔ ∃ b ∈ digits.drop keptDigits, b ≠ 48) (e : ℤ) :
    Alike (valueFrom 0 digits * 10 ^ (e - digits.length))
      (valueFrom 0 (digits.take keptDigits ++ if sticky then [49] else []) *
        10 ^ (e - (digits.take keptDigits ++ if sticky then [49] else []).length)) := by
  have hsplit : valueFrom 0 digits =
      valueFrom 0 (digits.take keptDigits) * 10 ^ (digits.drop keptDigits).length +
        valueFrom 0 (digits.drop keptDigits) := by
    rw [← value_append, List.take_append_drop]
  have hdropped : ∀ b ∈ digits.drop keptDigits, digitByte b = true :=
    fun b hb => hdigits b (List.mem_of_mem_drop hb)
  have hlength : (digits.length : ℤ) =
      (digits.take keptDigits).length + (digits.drop keptDigits).length := by
    have hall := congrArg List.length (List.take_append_drop keptDigits digits)
    rw [List.length_append] at hall
    omega
  cases hdrop : sticky with
  | false =>
    have hzeros : ∀ b ∈ digits.drop keptDigits, b = 48 := by
      intro b hb
      by_contra hne
      rw [hsticky.mpr ⟨b, hb, hne⟩] at hdrop
      cases hdrop
    rw [value_zero hzeros, Nat.add_zero] at hsplit
    have hsame : (valueFrom 0 digits : ℚ) * 10 ^ (e - digits.length) =
        valueFrom 0 (digits.take keptDigits) * 10 ^ (e - (digits.take keptDigits).length) := by
      rw [hsplit, hlength]
      push_cast
      rw [mul_assoc, ← zpow_natCast, ← zpow_add₀ (by norm_num)]
      congr 2
      omega
    intro w _
    rw [if_neg Bool.false_ne_true, List.append_nil, hsame]
  | true =>
    obtain ⟨b, hb, hzero⟩ := hsticky.mp hdrop
    have hlong : keptDigits < digits.length := by
      have hpos := List.length_pos_of_mem hb
      rw [List.length_drop] at hpos
      omega
    have hkept : (digits.take keptDigits).length = 767 + 1 := by
      rw [List.length_take]
      unfold keptDigits at hlong ⊢
      omega
    -- the kept digits, with a fraction that is not zero behind them
    have hx : 10 ^ 767 ≤ valueFrom 0 (digits.take keptDigits) := by
      obtain ⟨c, rest, hcons⟩ := List.exists_cons_of_length_eq_add_one hkept
      have hrest : rest.length = 767 := by
        rw [hcons, List.length_cons] at hkept
        omega
      have hhead : digits.head? = some c := by
        have htake := List.head?_take (l := digits) (i := keptDigits)
        rw [hcons, List.head?_cons, if_neg (by decide)] at htake
        exact htake.symm
      have hc : digitByte c = true := hdigits c (List.mem_of_head? hhead)
      rw [hcons, ← hrest]
      exact value_ge hc (hfirst c hhead)
    have hpos := value_pos hdropped hb hzero
    have hless := value_lt hdropped
    generalize hx' : valueFrom 0 (digits.take keptDigits) = x at *
    generalize ht : valueFrom 0 (digits.drop keptDigits) = t at *
    generalize hk : (digits.drop keptDigits).length = k at *
    have hscale : (0 : ℚ) < 10 ^ k := by positivity
    have hvalue : (valueFrom 0 digits : ℚ) * 10 ^ (e - digits.length) =
        (x + t / 10 ^ k) * 10 ^ (e - 768) := by
      rw [hsplit, hlength, hkept]
      push_cast
      rw [show e - (768 + (k : ℤ)) = e - 768 - k by omega, zpow_sub₀ (by norm_num) _ (k : ℤ),
        zpow_natCast]
      field_simp
    have hform : (valueFrom 0 (digits.take keptDigits ++ if true then [49] else []) : ℚ) *
        10 ^ (e - (digits.take keptDigits ++ if true then [49] else []).length) =
        (x + 1 / 10) * 10 ^ (e - 768) := by
      have hone : valueFrom 0 (digits.take keptDigits ++ [49]) = x * 10 + 1 := by
        rw [valueFrom_append, hx']
        rfl
      simp only [if_true]
      rw [hone, List.length_append, hkept, List.length_singleton]
      push_cast
      rw [show e - 769 = e - 768 - 1 by omega, zpow_sub₀ (by norm_num) _ 1, zpow_one]
      ring
    intro w hw
    rw [hform, hvalue, cut_compare hx _ hw (by norm_num) (by norm_num),
      cut_compare hx _ hw (by positivity) _]
    rw [div_lt_one hscale]
    exact_mod_cast hless

end Canonical

section Readings

variable (n : Number)

theorem text_names :
    n.text ≠ ascii "NaN" ∧ n.text ≠ ascii "Infinity" ∧ n.text ≠ ascii "-Infinity" := by
  obtain ⟨b, rest, hwhole, hb⟩ := whole_head n
  have hunsigned := text_unsigned n
  have hnegative := text_negative n
  have hhead : (if n.negative then n.text.tail else n.text).head? = some b := by
    rw [hunsigned, hwhole]
    rfl
  have hother : ∀ name : List UInt8, (if decide (name.head? = some 45) then name.tail
      else name).head? ≠ some b → n.text ≠ name := by
    intro name hname hsame
    rw [hsame] at hnegative hhead
    rw [← hnegative] at hhead
    exact hname hhead
  refine ⟨hother _ ?_, hother _ ?_, hother _ ?_⟩
  all_goals
    intro h
    have hsame := Option.some.inj h
    rw [← hsame] at hb
    revert hb
    decide

def Overflowing : Prop :=
  309 < kept n ∨ (kept n = 309 ∧ reaches n.significant bound = true)

theorem overflows_iff : overflows (decimalForm n.text) = true ↔ Overflowing n := by
  obtain ⟨_, hdigits, _, hexponent⟩ := decimalForm_number n
  unfold overflows Overflowing
  rw [hdigits, hexponent, reaches_take bound _ (by rw [bound_length]; decide), bound_length]
  by_cases h : kept n = 309
  · rw [if_neg (by simp [h])]
    constructor
    · exact fun hreach => Or.inr ⟨h, hreach⟩
    · intro hcases
      exact (hcases.resolve_left (by omega)).2
  · rw [if_pos (by simpa using h), decide_eq_true_eq]
    constructor
    · exact fun hlarge => Or.inl hlarge
    · intro hcases
      exact hcases.resolve_right fun hboth => h hboth.1

theorem pythonFloat_cases :
    ((n.significant = [] ∨ kept n < -400) ∧ pythonFloat n.text = .zero n.negative) ∨
    (n.significant ≠ [] ∧ -400 ≤ kept n ∧ Overflowing n ∧
      pythonFloat n.text = .infinite n.negative) ∨
    (n.significant ≠ [] ∧ -400 ≤ kept n ∧ ¬Overflowing n ∧
      pythonFloat n.text = .converted (canonical (decimalForm n.text))) := by
  obtain ⟨hnan, hinfinity, hminus⟩ := text_names n
  obtain ⟨hnegative, hdigits, _, hexponent⟩ := decimalForm_number n
  have hnone : (decimalForm n.text).digits = [] ↔ n.significant = [] := by
    rw [hdigits, List.take_eq_nil_iff]
    constructor
    · exact fun h => h.resolve_left (by decide)
    · exact fun h => Or.inr h
  unfold pythonFloat
  rw [if_neg hnan, if_neg (by tauto)]
  simp only [hnone, hexponent, hnegative]
  by_cases hzero : n.significant = [] ∨ kept n < -400
  · exact Or.inl ⟨hzero, if_pos hzero⟩
  · rw [if_neg hzero]
    rw [not_or, not_lt] at hzero
    by_cases hover : Overflowing n
    · exact Or.inr (Or.inl ⟨hzero.1, hzero.2, hover, if_pos ((overflows_iff n).mpr hover)⟩)
    · exact Or.inr (Or.inr ⟨hzero.1, hzero.2, hover,
        if_neg fun h => hover ((overflows_iff n).mp h)⟩)

theorem canonical_number (h : n.significant ≠ []) :
    ∃ number : Number, number.text = canonical (decimalForm n.text) ∧
      number.negative = n.negative ∧
      (10 : ℚ) ^ (kept n - 1) ≤ number.magnitude ∧ number.magnitude < 10 ^ kept n ∧
      (kept n = exact n → Alike n.magnitude number.magnitude) := by
  obtain ⟨hnegative, hdigits, hsticky, hexponent⟩ := decimalForm_number n
  obtain ⟨b, rest, hcons, hb, hzero⟩ := significant_cons n h
  have hfirst : ∀ c, n.significant.head? = some c → c ≠ 48 := by
    intro c hc
    rw [hcons, List.head?_cons, Option.some.injEq] at hc
    rw [← hc]
    exact hzero
  have hne : (decimalForm n.text).digits ≠ [] := by
    rw [hdigits, hcons]
    exact List.cons_ne_nil _ _
  have hall : ∀ c ∈ (decimalForm n.text).digits ++
      (if (decimalForm n.text).sticky then [49] else []), digitByte c = true := by
    intro c hc
    cases List.mem_append.mp hc with
    | inl hin =>
      rw [hdigits] at hin
      exact significant_digits n c (List.mem_of_mem_take hin)
    | inr hin =>
      split at hin
      · rw [List.mem_singleton.mp hin]
        decide
      · cases hin
  let number := canonicalNumber (decimalForm n.text).negative ((decimalForm n.text).digits ++
    if (decimalForm n.text).sticky then [49] else []) (decimalForm n.text).exponent hall
  have hmagnitude := canonicalNumber_magnitude (decimalForm n.text).negative _
    (decimalForm n.text).exponent hall
  have hsignificant : number.significant = (decimalForm n.text).digits ++
      (if (decimalForm n.text).sticky then [49] else []) := by
    have hdrop : ([48] ++ ((decimalForm n.text).digits ++
        (if (decimalForm n.text).sticky then [49] else []))).dropWhile (· == 48) =
        (decimalForm n.text).digits ++ (if (decimalForm n.text).sticky then [49] else []) := by
      have htake : (decimalForm n.text).digits = b :: rest.take 767 := by
        rw [hdigits, hcons]
        rfl
      rw [htake]
      simp [hzero]
    exact hdrop
  have hwritten : number.written = (decimalForm n.text).exponent := signed_exponent _ _ rfl
  have hplace : exact number = kept n := by
    unfold exact Number.point
    rw [hsignificant, hwritten, hexponent]
    simp [number, canonicalNumber]
  have hnonzero : number.significant ≠ [] := by
    rw [hsignificant]
    simp [hne]
  refine ⟨number, canonicalNumber_text _ hne hall, hnegative, ?_, ?_, ?_⟩
  · rw [← hplace]
    exact magnitude_ge number hnonzero
  · rw [← hplace]
    exact magnitude_lt number
  · intro hkept
    have hcut := cut_alike n.significant (significant_digits n) hfirst
      (decimalForm n.text).sticky hsticky (exact n)
    rw [magnitude_eq n]
    rw [hmagnitude, hexponent, hkept, hdigits]
    exact hcut

theorem exponent_value {e e' : Exponent} (h : e.sign ++ e.digits = e'.sign ++ e'.digits) :
    e.value = e'.value := by
  have hfirst : ∀ d : Exponent, d.digits.head? ≠ some 43 ∧ d.digits.head? ≠ some 45 := by
    intro d
    obtain ⟨b, rest, hcons⟩ := List.exists_cons_of_ne_nil d.isDigits.1
    have hb := digit_ne (d.isDigits.2 b (by simp [hcons]))
    simp [hcons, hb.1, hb.2.1]
  have hsigned : ∀ (d : Exponent) (b : UInt8) (rest : List UInt8), b = 43 ∨ b = 45 →
      d.digits ≠ b :: rest := by
    intro d b rest hb hsame
    have hhead := hfirst d
    rw [hsame, List.head?_cons] at hhead
    cases hb with
    | inl h => exact hhead.1 (congrArg some h)
    | inr h => exact hhead.2 (congrArg some h)
  have hboth : e.sign = e'.sign ∧ e.digits = e'.digits := by
    rcases e.isSign with hs | hs | hs <;> rcases e'.isSign with hs' | hs' | hs' <;>
      rw [hs, hs'] at h ⊢ <;>
      simp only [List.nil_append, List.cons_append, List.cons.injEq] at h
    · exact ⟨rfl, h⟩
    · exact absurd h (hsigned e 43 _ (Or.inl rfl))
    · exact absurd h (hsigned e 45 _ (Or.inr rfl))
    · exact absurd h.symm (hsigned e' 43 _ (Or.inl rfl))
    · exact ⟨rfl, h.2⟩
    · exact absurd h.1 (by decide)
    · exact absurd h.symm (hsigned e' 45 _ (Or.inr rfl))
    · exact absurd h.1 (by decide)
    · exact ⟨rfl, h.2⟩
  unfold Exponent.value
  rw [hboth.1, hboth.2]

theorem fraction_split (m : Number) :
    (m.whole ++ if m.fraction = [] then [] else 46 :: m.fraction).takeWhile (· != 46) = m.whole ∧
      (m.whole ++ if m.fraction = [] then [] else 46 :: m.fraction).dropWhile (· != 46) =
        if m.fraction = [] then [] else 46 :: m.fraction := by
  have hwhole : ∀ b ∈ m.whole, (b != 46) = true := by
    intro b hb
    simpa using (digit_ne (m.wholeDigits.2 b hb)).2.2.1
  rw [List.takeWhile_append_of_pos hwhole, List.dropWhile_append_of_pos hwhole]
  by_cases hempty : m.fraction = []
  · simp [hempty]
  · simp [hempty]

theorem text_value {m : Number} (h : n.text = m.text) :
    n.negative = m.negative ∧ n.magnitude = m.magnitude := by
  have hnegative : n.negative = m.negative := by
    rw [← text_negative n, ← text_negative m, h]
  have hunsigned := text_unsigned n
  rw [h, hnegative, text_unsigned m] at hunsigned
  obtain ⟨htake, hdrop⟩ := unsigned_split n
  obtain ⟨htake', hdrop'⟩ := unsigned_split m
  rw [← hunsigned] at htake hdrop
  rw [htake'] at htake
  rw [hdrop'] at hdrop
  have hwhole : m.whole = n.whole := by
    rw [← (fraction_split m).1, htake, (fraction_split n).1]
  have hfraction : m.fraction = n.fraction := by
    have hrest : (if m.fraction = [] then [] else 46 :: m.fraction) =
        if n.fraction = [] then [] else 46 :: n.fraction := by
      rw [← (fraction_split m).2, htake, (fraction_split n).2]
    by_cases hm : m.fraction = []
    · by_cases hn : n.fraction = []
      · rw [hm, hn]
      · rw [if_pos hm, if_neg hn] at hrest
        cases hrest
    · by_cases hn : n.fraction = []
      · rw [if_neg hm, if_pos hn] at hrest
        cases hrest
      · rw [if_neg hm, if_neg hn] at hrest
        exact (List.cons.inj hrest).2
  have hwritten : m.written = n.written := by
    unfold Number.written
    cases hm : m.exponent with
    | none =>
      cases hn : n.exponent with
      | none => rfl
      | some e => simp [hm, hn, Exponent.text] at hdrop
    | some e =>
      cases hn : n.exponent with
      | none => simp [hm, hn, Exponent.text] at hdrop
      | some e' =>
        have hsame : e.text = e'.text := by simpa [hm, hn] using hdrop
        exact exponent_value (List.cons.inj hsame).2
  constructor
  · exact hnegative
  · unfold Number.magnitude
    rw [hwhole, hfraction, hwritten]

end Readings

section Exactness

variable (n : Number)

/-- The reading is exact: no boundary of the format lies between the token and
what is taken for it. -/
def Exact : Prop :=
  match pythonFloat n.text with
  | .nan => False
  | .zero negative => negative = n.negative ∧ |n.value| ≤ 2 ^ (-1075 : ℤ)
  | .infinite negative => negative = n.negative ∧ 2 ^ 1024 - 2 ^ 970 ≤ |n.value|
  | .converted form => |n.value| < 2 ^ 1024 - 2 ^ 970 ∧ form.length < canonicalSize ∧
      ∃ number : Number, number.text = form ∧ Alike n.value number.value

/-- The cuts of the exponents change nothing, or not the side of the range. -/
def Reached : Prop :=
  n.significant = [] ∨ kept n = exact n ∨ (kept n < -400 ∧ exact n < -400) ∨
    (Overflowing n ∧ 309 < exact n)

theorem kept_cases : kept n = exact n ∨ (kept n < 309 ∧ -400 ≤ kept n) ∨
    (kept n < -400 ∧ exact n < -400) ∨ (309 ≤ kept n ∧ 309 < exact n) := by
  have hpoint := saturated_spec n.point
  have hwritten := saturated_spec n.written
  have hsum := saturated_spec (saturated n.point + saturated n.written)
  have hlimit : exponentLimit = 1000000000000000 := rfl
  unfold kept exact
  omega

theorem limit_ge : (10 : ℚ) ^ (308 : ℤ) ≤ 2 ^ 1024 - 2 ^ 970 := by
  have hnat : 10 ^ 308 + 2 ^ 970 ≤ 2 ^ 1024 := powers.2.1
  have hcast : ((10 ^ 308 + 2 ^ 970 : ℕ) : ℚ) ≤ ((2 ^ 1024 : ℕ) : ℚ) := Nat.cast_le.mpr hnat
  rw [Nat.cast_add, Nat.cast_pow, Nat.cast_pow, Nat.cast_pow, Nat.cast_ofNat, Nat.cast_ofNat]
    at hcast
  rw [show (308 : ℤ) = ((308 : ℕ) : ℤ) by rfl, zpow_natCast]
  exact le_sub_iff_add_le.mpr hcast

theorem limit_le : (2 ^ 1024 - 2 ^ 970 : ℚ) ≤ 10 ^ (309 : ℤ) := by
  have hnat : 2 ^ 1024 ≤ 10 ^ 309 + 2 ^ 970 := powers.2.2.1
  have hcast : ((2 ^ 1024 : ℕ) : ℚ) ≤ ((10 ^ 309 + 2 ^ 970 : ℕ) : ℚ) := Nat.cast_le.mpr hnat
  rw [Nat.cast_add, Nat.cast_pow, Nat.cast_pow, Nat.cast_pow, Nat.cast_ofNat, Nat.cast_ofNat]
    at hcast
  rw [show (309 : ℤ) = ((309 : ℕ) : ℤ) by rfl, zpow_natCast]
  exact sub_le_iff_le_add.mpr hcast

theorem tiny_le : (10 : ℚ) ^ (-401 : ℤ) ≤ 2 ^ (-1075 : ℤ) := by
  have hnat : 2 ^ 1075 ≤ 10 ^ 401 := powers.2.2.2
  have hcast : ((2 ^ 1075 : ℕ) : ℚ) ≤ ((10 ^ 401 : ℕ) : ℚ) := Nat.cast_le.mpr hnat
  rw [Nat.cast_pow, Nat.cast_pow, Nat.cast_ofNat, Nat.cast_ofNat] at hcast
  rw [zpow_neg, zpow_neg, show (401 : ℤ) = ((401 : ℕ) : ℤ) by rfl,
    show (1075 : ℤ) = ((1075 : ℕ) : ℤ) by rfl, zpow_natCast, zpow_natCast]
  exact inv_anti₀ (by positivity) hcast

theorem canonical_length (hlow : -400 ≤ kept n) (hhigh : kept n ≤ 309) :
    (canonical (decimalForm n.text)).length < canonicalSize := by
  obtain ⟨_, hdigits, _, hexponent⟩ := decimalForm_number n
  have hkept : (decimalForm n.text).digits.length ≤ 768 := by
    rw [hdigits, List.length_take]
    exact Nat.min_le_left _ _
  have hdecimal : (decimal (kept n).natAbs).length ≤ 3 :=
    decimal_length (k := 2) (by omega)
  have hsigns : ∀ (c : Prop) [Decidable c] (b : UInt8), (if c then [b] else []).length ≤ 1 := by
    intro c _ b
    split
    · exact Nat.le_refl 1
    · exact Nat.zero_le 1
  have hnegative := hsigns ((decimalForm n.text).negative = true) 45
  have hsticky := hsigns ((decimalForm n.text).sticky = true) 49
  have hsign := hsigns (kept n < 0) 45
  unfold canonical signed
  rw [hexponent]
  simp only [List.length_append, List.length_cons, List.length_nil, canonicalSize, keptDigits]
  omega

theorem alike_value {number : Number} (hsign : number.negative = n.negative)
    (h : Alike n.magnitude number.magnitude) : Alike n.value number.value := by
  unfold Number.value
  rw [hsign]
  cases n.negative with
  | false => exact h
  | true => exact alike_neg h

theorem exact_of_reached (h : Reached n) : Exact n := by
  have hnot : ∀ hover : ¬Overflowing n, kept n ≤ 309 := by
    intro hover
    by_contra hlarge
    exact hover (Or.inl (by omega))
  unfold Exact
  rcases pythonFloat_cases n with ⟨hzero, hread⟩ | ⟨hsome, hlow, hover, hread⟩ |
    ⟨hsome, hlow, hover, hread⟩
  · rw [hread]
    constructor
    · rfl
    rw [abs_value]
    by_cases hnone : n.significant = []
    · rw [magnitude_zero n hnone]
      positivity
    · have hsmall := hzero.resolve_left hnone
      have hexact : exact n ≤ -401 := by
        rcases h with h | h | h | h
        · exact absurd h hnone
        · omega
        · omega
        · rcases h.1 with hlarge | hlarge
          · omega
          · omega
      calc
        n.magnitude ≤ 10 ^ exact n := (magnitude_lt n).le
        _ ≤ 10 ^ (-401 : ℤ) := power_le hexact
        _ ≤ _ := tiny_le
  · rw [hread]
    constructor
    · rfl
    rw [abs_value]
    have hcases : 309 < exact n ∨ (exact n = 309 ∧ reaches n.significant bound = true) := by
      rcases h with h | h | h | h
      · exact absurd h hsome
      · unfold Overflowing at hover
        rw [h] at hover
        exact hover
      · omega
      · exact Or.inl h.2
    cases hcases with
    | inl hlarge =>
      calc
        (2 ^ 1024 - 2 ^ 970 : ℚ) ≤ 10 ^ (309 : ℤ) := limit_le
        _ ≤ 10 ^ (exact n - 1) := power_le (by omega)
        _ ≤ n.magnitude := magnitude_ge n hsome
    | inr hequal => exact (reaches_magnitude n hequal.1).mp hequal.2
  · rw [hread]
    have hkept : kept n = exact n := by
      rcases h with h | h | h | h
      · exact absurd h hsome
      · exact h
      · omega
      · exact absurd h.1 hover
    obtain ⟨number, htext, hsign, _, _, halike⟩ := canonical_number n hsome
    refine ⟨?_, canonical_length n hlow (hnot hover), number, htext, ?_⟩
    · rw [abs_value]
      by_cases hequal : exact n = 309
      · rw [← not_le, ← reaches_magnitude n hequal]
        exact fun hreach => hover (Or.inr ⟨hkept.trans hequal, hreach⟩)
      · have hless := hnot hover
        calc
          n.magnitude < 10 ^ exact n := magnitude_lt n
          _ ≤ 10 ^ (308 : ℤ) := power_le (by omega)
          _ ≤ _ := limit_ge
    · exact alike_value n hsign (halike hkept)

/-- A power of ten lies between numbers of different exponents. -/
theorem not_alike {v c : ℚ} {i j : ℤ} (hv : 10 ^ (i - 1) ≤ v) (hv' : v < 10 ^ i)
    (hc : 10 ^ (j - 1) ≤ c) (hc' : c < 10 ^ j) (hne : j ≠ i) : ¬Alike v c := by
  intro halike
  rcases lt_or_gt_of_ne hne with hless | hmore
  · have hsame := halike (10 ^ j) (significant_power (by omega) j)
    rw [(cmp_eq_lt_iff _ _).mpr hc'] at hsame
    have hv'' : v < 10 ^ j := (cmp_eq_lt_iff _ _).mp hsame.symm
    have hle : (10 : ℚ) ^ j ≤ 10 ^ (i - 1) := power_le (by omega)
    linarith
  · have hsame := halike (10 ^ i) (significant_power (by omega) i)
    rw [(cmp_eq_lt_iff v _).mpr hv'] at hsame
    have hc'' : c < 10 ^ i := (cmp_eq_lt_iff _ _).mp hsame
    have hle : (10 : ℚ) ^ i ≤ 10 ^ (j - 1) := power_le (by omega)
    linarith

theorem alike_magnitude {number : Number} (hsign : number.negative = n.negative)
    (h : Alike n.value number.value) : Alike n.magnitude number.magnitude := by
  unfold Number.value at h
  rw [hsign] at h
  cases hnegative : n.negative with
  | false => simpa [hnegative] using h
  | true =>
    have hneg : Alike (-n.magnitude) (-number.magnitude) := by simpa [hnegative] using h
    simpa using alike_neg hneg

theorem reached_of_exact (h : Exact n) : Reached n := by
  unfold Exact at h
  rcases pythonFloat_cases n with ⟨hzero, _⟩ | ⟨_, _, hover, _⟩ | ⟨hsome, hlow, hover, hread⟩
  · cases hzero with
    | inl hnone => exact Or.inl hnone
    | inr hsmall =>
      rcases kept_cases n with hkept | hkept | hkept | hkept
      · exact Or.inr (Or.inl hkept)
      · omega
      · exact Or.inr (Or.inr (Or.inl hkept))
      · omega
  · have hlarge : 309 ≤ kept n := by
      rcases hover with hover | hover
      · omega
      · omega
    rcases kept_cases n with hkept | hkept | hkept | hkept
    · exact Or.inr (Or.inl hkept)
    · omega
    · omega
    · exact Or.inr (Or.inr (Or.inr ⟨hover, hkept.2⟩))
  · rw [hread] at h
    obtain ⟨_, _, number, htext, halike⟩ := h
    obtain ⟨form, hform, hsign, hge, hlt, _⟩ := canonical_number n hsome
    obtain ⟨hnegative, hmagnitude⟩ := text_value number (htext.trans hform.symm)
    have halike := alike_magnitude n (hnegative.trans hsign) halike
    rw [hmagnitude] at halike
    by_contra hnot
    have hne : kept n ≠ exact n := fun hsame => hnot (Or.inr (Or.inl hsame))
    exact not_alike (magnitude_ge n hsome) (magnitude_lt n) hge hlt hne halike

/-- The cuts of the exponents are all that can go wrong. -/
theorem pythonFloat_exact : Exact n ↔ Reached n :=
  ⟨reached_of_exact n, exact_of_reached n⟩

end Exactness

def farPoint (zeros : ℕ) : Number where
  negative := false
  whole := [48]
  fraction := List.replicate zeros 48 ++ [49]
  exponent := some ⟨101, [], ascii "2000000000000004", Or.inl rfl, Or.inl rfl,
    List.cons_ne_nil _ _, List.all_eq_true.mp rfl⟩
  wholeDigits := ⟨List.cons_ne_nil _ _, List.all_eq_true.mp rfl⟩
  leading := fun h => absurd h (by decide)
  fractionDigits := by
    intro b hb
    cases List.mem_append.mp hb with
    | inl hzero =>
      rw [List.eq_of_mem_replicate hzero]
      decide
    | inr hone =>
      rw [List.mem_singleton.mp hone]
      decide

theorem farPoint_significant (zeros : ℕ) : (farPoint zeros).significant = [49] := by
  have hzeros : ∀ b ∈ List.replicate zeros (48 : UInt8), (b == 48) = true := by
    intro b hb
    rw [List.eq_of_mem_replicate hb]
    rfl
  change ([48] ++ (List.replicate zeros 48 ++ [49]) : List UInt8).dropWhile (· == 48) = [49]
  rw [List.singleton_append, List.dropWhile_cons_of_pos (by rfl),
    List.dropWhile_append_of_pos hzeros]
  rfl

theorem farPoint_point (zeros : ℕ) : (farPoint zeros).point = -zeros := by
  have hfraction : (farPoint zeros).fraction.length = zeros + 1 := by
    change (List.replicate zeros (48 : UInt8) ++ [49]).length = zeros + 1
    rw [List.length_append, List.length_replicate, List.length_singleton]
  unfold Number.point
  rw [farPoint_significant, hfraction, List.length_singleton]
  omega

theorem farPoint_written (zeros : ℕ) : (farPoint zeros).written = 2000000000000004 := by
  have hdigits : valueFrom 0 (ascii "2000000000000004") = 2000000000000004 := by decide +kernel
  change (valueFrom 0 (ascii "2000000000000004") : ℤ) = 2000000000000004
  rw [hdigits]
  rfl

theorem farPoint_not_exact (zeros : ℕ) (hmany : 1000000000000000 < zeros)
    (hother : zeros ≠ 2000000000000004) : ¬Exact (farPoint zeros) := by
  have hkept : kept (farPoint zeros) = 0 := by
    have hpoint := saturated_spec (-zeros)
    have hlimit : exponentLimit = 1000000000000000 := rfl
    have hlow : saturated (-zeros) = -exponentLimit := by omega
    unfold kept
    rw [farPoint_point, farPoint_written, hlow]
    decide +kernel
  have hexact : exact (farPoint zeros) = 2000000000000004 - zeros := by
    unfold exact
    rw [farPoint_point, farPoint_written]
    omega
  intro hexactly
  have hreached := reached_of_exact _ hexactly
  unfold Reached Overflowing at hreached
  rw [hkept, hexact, farPoint_significant] at hreached
  rcases hreached with h | h | h | h
  · cases h
  · omega
  · omega
  · omega

/-- With this many zeros the token is 1000 and is read as 0.1. -/
theorem farPoint_inexact : ¬Exact (farPoint (2 * 10 ^ 15)) :=
  farPoint_not_exact (2 * 10 ^ 15) (by norm_num) (by norm_num)

end JaszczurHal.PythonFloatExact
