import Mathlib.Data.List.GetD
import JaszczurHal.GpsNmea

/-!
# The time and the date of an RMC sentence

What a well-formed field is and which instant a time and a date stand for,
apart from the numbers the parser stages. A field the parser accepts has the
form, and its staged number is the instant.
-/

set_option autoImplicit false

namespace JaszczurHal.GpsUtcFields
open GpsNmea

def point : UInt8 := 0x2E

def AllDigits (text : List UInt8) : Prop := ∀ c ∈ text, isDigit c = true

structure WellFormedTime (text : List UInt8) : Prop where
  form : ∃ digits fraction, text = digits ++ fraction ∧ digits.length = 6 ∧ AllDigits digits ∧
    (fraction = [] ∨ ∃ ds, fraction = point :: ds ∧ 1 ≤ ds.length ∧ ds.length ≤ 6 ∧ AllDigits ds)

structure WellFormedDate (text : List UInt8) : Prop where
  length : text.length = 6
  digits : AllDigits text

def pair (text : List UInt8) (i : ℕ) : ℕ :=
  10*((text.getD i 0).toNat-0x30)+((text.getD (i+1) 0).toNat-0x30)

def instant (date time : List UInt8) : Datetime where
  year := UInt16.ofNat (2000+pair date 4)
  month := UInt8.ofNat (pair date 2)
  day := UInt8.ofNat (pair date 0)
  hour := UInt8.ofNat (pair time 0)
  minute := UInt8.ofNat (pair time 2)
  second := UInt8.ofNat (pair time 4)
  weekday := 0

variable {a : Abi} {text : List UInt8}

theorem startsWithDigits_iff (n : ℕ) :
    startsWithDigits text n = true ↔ n ≤ text.length ∧ AllDigits (text.take n) := by
  simp [startsWithDigits, AllDigits]

theorem date_iff : rmcDateIsWellFormed text = true ↔ WellFormedDate text := by
  constructor
  · intro h
    rw [rmcDateIsWellFormed, Bool.and_eq_true, startsWithDigits_iff, List.take_length] at h
    exact ⟨of_decide_eq_true h.1, h.2.2⟩
  · intro h
    rw [rmcDateIsWellFormed, Bool.and_eq_true, startsWithDigits_iff, List.take_length]
    exact ⟨decide_eq_true h.length, le_refl _, h.digits⟩

theorem WellFormedTime.short (h : WellFormedTime text) : text.length ≤ 13 := by
  obtain ⟨digits, fraction, rfl, hlength, _, rfl | ⟨ds, rfl, _, hmost, _⟩⟩ := h.form
  · simp [hlength]
  · simp only [List.length_append, List.length_cons]
    omega

theorem rmcTimeIsWellFormed_eq (text : List UInt8) : rmcTimeIsWellFormed text =
    if text.length < 6 || !startsWithDigits text 6 then false
    else if text.length = 6 then true
    else text.getD 6 0 = point && 1 ≤ text.length-6-1 && text.length-6-1 ≤ 6 &&
      startsWithDigits (text.drop 7) (text.length-6-1) := rfl

theorem time_iff : rmcTimeIsWellFormed text = true ↔ WellFormedTime text := by
  rw [rmcTimeIsWellFormed_eq]
  constructor
  · intro h
    by_cases hstart : (text.length < 6 || !startsWithDigits text 6) = true
    · rw [if_pos hstart] at h
      cases h
    rw [if_neg hstart] at h
    simp only [Bool.or_eq_true, decide_eq_true_eq, Bool.not_eq_true', not_or,
      Bool.not_eq_false] at hstart
    obtain ⟨hlength, hdigits⟩ := (startsWithDigits_iff 6).mp hstart.2
    refine ⟨text.take 6, text.drop 6, (List.take_append_drop 6 text).symm, by simp [hlength],
      hdigits, ?_⟩
    by_cases hsix : text.length = 6
    · exact Or.inl (List.drop_eq_nil_of_le hsix.le)
    rw [if_neg hsix] at h
    simp only [Bool.and_eq_true, decide_eq_true_eq, startsWithDigits_iff] at h
    obtain ⟨⟨⟨hpoint, hleast⟩, hmost⟩, _, hfraction⟩ := h
    have hdrop : text.drop 6 = point :: text.drop 7 := by
      rw [List.drop_eq_getElem_cons (by omega)]
      rw [List.getD_eq_getElem _ _ (by omega)] at hpoint
      rw [hpoint]
    rw [List.take_of_length_le (by simp; omega)] at hfraction
    exact Or.inr ⟨text.drop 7, hdrop, by simp; omega, by simp; omega, hfraction⟩
  · intro h
    obtain ⟨digits, fraction, rfl, hlength, hdigits, htail⟩ := h.form
    have hstart : startsWithDigits (digits ++ fraction) 6 = true := by
      rw [startsWithDigits_iff, List.take_left' hlength]
      exact ⟨by simp [hlength], hdigits⟩
    rw [if_neg (by simp [hstart, hlength])]
    rcases htail with rfl | ⟨ds, rfl, hleast, hmost, hds⟩
    · rw [if_pos (by simp [hlength])]
    · rw [if_neg (by simp [hlength])]
      have hget : (digits ++ point :: ds).getD 6 0 = point := by
        rw [List.getD_append_right _ _ _ _ hlength.le, hlength]
        rfl
      have hdrop : (digits ++ point :: ds).drop 7 = ds := by
        rw [List.drop_append, List.drop_eq_nil_of_le (by omega), hlength]
        rfl
      have hcount : (digits ++ point :: ds).length-6-1 = ds.length := by
        simp [hlength]
      simp only [hget, hdrop, hcount, Bool.and_eq_true, decide_eq_true_eq, startsWithDigits_iff,
        List.take_length]
      exact ⟨⟨⟨trivial, hleast⟩, hmost⟩, le_refl _, hds⟩

def Tail (fraction : List UInt8) : Prop := ∀ c ∈ fraction.head?, isDigit c = false

def sixDigits (text : List UInt8) : ℕ := 10000*pair text 0+100*pair text 2+pair text 4

theorem digit_range {c : UInt8} (h : isDigit c = true) : 0x30 ≤ c.toNat ∧ c.toNat ≤ 0x39 := by
  simpa [isDigit, UInt8.le_iff_toNat_le] using h

theorem pair_lt (h : AllDigits text) (i : ℕ) : pair text i < 100 := by
  have hdigit (j : ℕ) : (text.getD j 0).toNat-0x30 ≤ 9 := by
    by_cases hj : j < text.length
    · rw [List.getD_eq_getElem _ _ hj]
      have hrange := digit_range (h _ (List.getElem_mem hj))
      omega
    · rw [List.getD_eq_default _ _ (by omega)]
      decide
  have h0 := hdigit i
  have h1 := hdigit (i+1)
  unfold pair
  omega

theorem takeWhile_digits {digits fraction : List UInt8} (h : AllDigits digits)
    (htail : Tail fraction) : (digits ++ fraction).takeWhile isDigit = digits ∧
      (digits ++ fraction).dropWhile isDigit = fraction := by
  induction digits with
  | nil =>
    cases fraction with
    | nil => exact ⟨rfl, rfl⟩
    | cons c rest =>
      have hc := htail c rfl
      exact ⟨List.takeWhile_cons_of_neg (by simp [hc]), List.dropWhile_cons_of_neg (by simp [hc])⟩
  | cons c digits ih =>
    have hc := h c List.mem_cons_self
    obtain ⟨htake, hdrop⟩ := ih fun d hd => h d (List.mem_cons_of_mem _ hd)
    rw [List.cons_append, List.takeWhile_cons_of_pos hc, List.dropWhile_cons_of_pos hc, htake]
    exact ⟨rfl, hdrop⟩

theorem digitsValue_six {digits fraction : List UInt8} (hlength : digits.length = 6)
    (h : AllDigits digits) (htail : Tail fraction) :
    digitsValue (digits ++ fraction) = sixDigits digits := by
  rw [digitsValue, (takeWhile_digits h htail).1]
  match digits, hlength with
  | [a, b, c, d, e, f], _ =>
    simp only [List.foldl_cons, List.foldl_nil, sixDigits, pair, List.getD_cons_zero,
      List.getD_cons_succ]
    omega

theorem sixDigits_lt (h : AllDigits text) : sixDigits text < 1000000 := by
  have h0 := pair_lt h 0
  have h2 := pair_lt h 2
  have h4 := pair_lt h 4
  unfold sixDigits
  omega

theorem atol_digits (ha : 2^31-1 ≤ a.longMax) {digits fraction : List UInt8}
    (hlength : digits.length = 6) (h : AllDigits digits) (htail : Tail fraction) :
    atol a (digits ++ fraction) = sixDigits digits ∧ (digits ++ fraction).head? ≠ some 0x2D := by
  have hvalue := digitsValue_six hlength h htail
  have hsmall := sixDigits_lt h
  match digits, hlength with
  | c :: rest, _ =>
    have hrange := digit_range (h c List.mem_cons_self)
    have hspace : isSpace c = false := by
      simp [isSpace, UInt8.le_iff_toNat_le, ← UInt8.toNat_inj]
      omega
    have hminus : c ≠ 0x2D := by
      intro heq
      rw [heq] at hrange
      exact absurd hrange (by decide)
    have hplus : c ≠ 0x2B := by
      intro heq
      rw [heq] at hrange
      exact absurd hrange (by decide)
    rw [List.cons_append] at hvalue ⊢
    constructor
    · rw [atol, List.dropWhile_cons_of_neg (by simp [hspace])]
      dsimp only
      rw [if_neg hminus, if_neg hplus, hvalue, min_eq_left (by omega)]
    · simpa using hminus

theorem fraction_tail {fraction : List UInt8} (h : fraction = [] ∨ ∃ ds, fraction = point :: ds ∧
    1 ≤ ds.length ∧ ds.length ≤ 6 ∧ AllDigits ds) : Tail fraction := by
  rcases h with rfl | ⟨ds, rfl, _⟩
  · intro c hc
    cases hc
  · intro c hc
    cases hc
    rfl

theorem digitInt32_eq (c : UInt8) : digitInt32 c = Int32.ofNat (c.toNat-0x30) := rfl

theorem hundredths_cons (c : UInt8) (rest : List UInt8) : hundredths (point :: c :: rest) =
    if point = 0x2E ∧ isDigit c then
      10*digitInt32 c+(match rest with
        | [] => 0
        | d :: _ => if isDigit d then digitInt32 d else 0)
    else 0 := rfl

/-- Two digits after the point count, the others do not. -/
theorem hundredths_eq {fraction : List UInt8} (h : fraction = [] ∨ ∃ ds, fraction = point :: ds ∧
    1 ≤ ds.length ∧ ds.length ≤ 6 ∧ AllDigits ds) :
    ∃ k < 100, hundredths fraction = Int32.ofNat k := by
  rcases h with rfl | ⟨ds, rfl, hleast, _, hdigits⟩
  · exact ⟨0, by decide, rfl⟩
  match ds, hleast with
  | c :: rest, _ =>
    have hc := hdigits c List.mem_cons_self
    have hrange := digit_range hc
    rw [hundredths_cons, if_pos ⟨rfl, hc⟩, digitInt32_eq]
    match rest with
    | [] =>
      refine ⟨10*(c.toNat-0x30), by omega, ?_⟩
      rw [Int32.ofNat_mul]
      simp
    | d :: _ =>
      have hd := hdigits d (List.mem_cons_of_mem _ List.mem_cons_self)
      have hrange' := digit_range hd
      refine ⟨10*(c.toNat-0x30)+(d.toNat-0x30), by omega, ?_⟩
      dsimp only
      rw [if_pos hd, digitInt32_eq, Int32.ofNat_add, Int32.ofNat_mul]
      rfl

/-- What the parser stages for a well-formed time: its six digits, then two of
the fraction. -/
theorem time_staged (ha : 2^31-1 ≤ a.longMax) (h : WellFormedTime text) :
    ∃ k < 100, (unsignedX100 a text).toNat = 100*sixDigits text+k := by
  obtain ⟨digits, fraction, rfl, hlength, hdigits, hform⟩ := h.form
  have htail := fraction_tail hform
  obtain ⟨hatol, hhead⟩ := atol_digits ha hlength hdigits htail
  obtain ⟨k, hk, hhundredths⟩ := hundredths_eq hform
  have hsmall := sixDigits_lt hdigits
  have hsix : sixDigits (digits ++ fraction) = sixDigits digits := by
    match digits, hlength with
    | [_, _, _, _, _, _], _ => rfl
  refine ⟨k, hk, ?_⟩
  rw [unsignedX100, decimalX100]
  simp only [hhead, if_false]
  have hsum : 100*Int32.ofNat (sixDigits digits)+Int32.ofNat k =
      Int32.ofNat (100*sixDigits digits+k) := by
    rw [Int32.ofNat_add, Int32.ofNat_mul]
    rfl
  rw [hatol, (takeWhile_digits hdigits htail).2, hhundredths, hsix, Int32.ofInt_eq_ofNat, hsum,
    Int32.toUInt32_ofNat', UInt32.toNat_ofNat', Nat.mod_eq_of_lt (by omega)]

theorem date_staged (ha : 2^31-1 ≤ a.longMax) (h : WellFormedDate text) :
    (UInt32.ofInt (atol a text)).toNat = sixDigits text := by
  have htail : Tail [] := nofun
  obtain ⟨hatol, _⟩ := atol_digits ha h.length h.digits htail
  have hsmall := sixDigits_lt h.digits
  rw [List.append_nil] at hatol
  rw [hatol, UInt32.ofInt, UInt32.toNat_ofNat']
  omega

theorem pair_time_lt (h : WellFormedTime text) (i : ℕ) (hi : i+1 < 6) : pair text i < 100 := by
  obtain ⟨digits, fraction, rfl, hlength, hdigits, _⟩ := h.form
  have hpair : pair (digits ++ fraction) i = pair digits i := by
    rw [pair, pair, List.getD_append _ _ _ _ (by omega), List.getD_append _ _ _ _ (by omega)]
  rw [hpair]
  exact pair_lt hdigits i

/-- The staged numbers are taken apart into the instant. -/
theorem utcOf_eq {date time : List UInt8} {d t : UInt32} (hdate : WellFormedDate date)
    (htime : WellFormedTime time) (hd : d.toNat = sixDigits date) {k : ℕ} (hk : k < 100)
    (ht : t.toNat = 100*sixDigits time+k) : utcOf d t = instant date time := by
  have hd0 := pair_lt hdate.digits 0
  have hd2 := pair_lt hdate.digits 2
  have hd4 := pair_lt hdate.digits 4
  have ht0 := pair_time_lt htime 0 (by omega)
  have ht2 := pair_time_lt htime 2 (by omega)
  have ht4 := pair_time_lt htime 4 (by omega)
  simp only [sixDigits] at hd ht
  unfold utcOf instant
  rw [Datetime.mk.injEq]
  refine ⟨?_, ?_, ?_, ?_, ?_, ?_, rfl⟩
  · apply UInt16.toNat_inj.mp
    simp [utcMinYear, hd]
    omega
  · apply UInt8.toNat_inj.mp
    simp [hd]
    omega
  · apply UInt8.toNat_inj.mp
    simp [hd]
    omega
  · apply UInt8.toNat_inj.mp
    simp [ht]
    omega
  · apply UInt8.toNat_inj.mp
    simp [ht]
    omega
  · apply UInt8.toNat_inj.mp
    simp [ht]
    omega

end JaszczurHal.GpsUtcFields
