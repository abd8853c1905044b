import JaszczurHal.DecimalTruncation
import Mathlib.Data.List.TakeWhile

/-!
# The decimal form of a number token

What `jh_python_float` decides from the token itself: the significant digits
that are kept, whether a nonzero digit was dropped, and the exponent. Only what
is left is converted.
-/

set_option autoImplicit false

namespace JaszczurHal.PythonFloat
open DecimalText

def keptDigits : ℕ := 768

def canonicalSize : ℕ := keptDigits + 32

def exponentLimit : ℤ := 1000000000000000

def saturated (value : ℤ) : ℤ :=
  if exponentLimit < value then exponentLimit
  else if value < -exponentLimit then -exponentLimit
  else value

structure Decimal where
  negative : Bool
  sticky : Bool
  digits : List UInt8
  exponent : ℤ
  deriving DecidableEq

structure Scan where
  fraction : Bool
  started : Bool
  sticky : Bool
  point : ℤ
  digits : List UInt8
  deriving DecidableEq

def scanStep (s : Scan) (digit : UInt8) : Scan :=
  if digit = 46 then { s with fraction := true }
  else if ¬(s.started || digit != 48) then
    { s with point := s.point - if s.fraction then 1 else 0 }
  else
    let s := { s with started := true, point := s.point + if s.fraction then 0 else 1 }
    if s.digits.length < keptDigits then { s with digits := s.digits ++ [digit] }
    else { s with sticky := s.sticky || digit != 48 }

def beforeExponent (b : UInt8) : Bool := b != 101 && b != 69

def exponentOf (text : List UInt8) : ℤ :=
  let digits := if text.head? = some 45 ∨ text.head? = some 43 then text.tail else text
  let exponent :=
    digits.foldl (fun exponent b => saturated (exponent * 10 + (b.toNat - 48 : ℤ))) 0
  if text.head? = some 45 then -exponent else exponent

def decimalForm (token : List UInt8) : Decimal :=
  let negative := decide (token.head? = some 45)
  let unsigned := if negative then token.tail else token
  let s := (unsigned.takeWhile beforeExponent).foldl scanStep ⟨false, false, false, 0, []⟩
  let exponent :=
    match unsigned.dropWhile beforeExponent with
    | [] => 0
    | _ :: text => exponentOf text
  ⟨negative, s.sticky, s.digits, saturated (saturated s.point + exponent)⟩

def bound : List UInt8 :=
  [17976931348623158079372897140530341507993413271003782693617377898044496,
    82927647509466490179775872070963302864166928879109465555478519404026306,
    57488671505820681908902000708383676273854845817711531764475730270069855,
    57136695962284291481986083493647529271907416844436551070434271155969950,
    8093042880177904174497792].flatMap decimal

/-- Whether the digits reach the bound; the digits that are missing are zeros. -/
def reaches : List UInt8 → List UInt8 → Bool
  | _, [] => true
  | digits, b :: bound =>
    let digit := digits.head?.getD 48
    if digit ≠ b then decide (b < digit) else reaches digits.tail bound

def overflows (value : Decimal) : Bool :=
  if value.exponent ≠ bound.length then decide ((bound.length : ℤ) < value.exponent)
  else reaches value.digits bound

def signed (n : ℤ) : List UInt8 := (if n < 0 then [45] else []) ++ decimal n.natAbs

def canonical (value : Decimal) : List UInt8 :=
  (if value.negative then [45] else []) ++ [48, 46] ++ value.digits ++
    (if value.sticky then [49] else []) ++ [101] ++ signed value.exponent

inductive Reading where
  | nan
  | infinite (negative : Bool)
  | zero (negative : Bool)
  | converted (form : List UInt8)
  deriving DecidableEq

def ascii (s : String) : List UInt8 := s.toList.map fun c => UInt8.ofNat c.toNat

def pythonFloat (token : List UInt8) : Reading :=
  if token = ascii "NaN" then .nan
  else if token = ascii "Infinity" ∨ token = ascii "-Infinity" then
    .infinite (decide (token.head? = some 45))
  else
    let value := decimalForm token
    if value.digits = [] ∨ value.exponent < -400 then .zero value.negative
    else if overflows value then .infinite value.negative
    else .converted (canonical value)

structure Exponent where
  letter : UInt8
  sign : List UInt8
  digits : List UInt8
  isLetter : letter = 101 ∨ letter = 69
  isSign : sign = [] ∨ sign = [43] ∨ sign = [45]
  isDigits : digits ≠ [] ∧ ∀ b ∈ digits, digitByte b = true

structure Number where
  negative : Bool
  whole : List UInt8
  fraction : List UInt8
  exponent : Option Exponent
  wholeDigits : whole ≠ [] ∧ ∀ b ∈ whole, digitByte b = true
  leading : 1 < whole.length → whole.head? ≠ some 48
  fractionDigits : ∀ b ∈ fraction, digitByte b = true

namespace Exponent

def text (e : Exponent) : List UInt8 := e.letter :: (e.sign ++ e.digits)

def value (e : Exponent) : ℤ :=
  if e.sign = [45] then -(valueFrom 0 e.digits : ℤ) else valueFrom 0 e.digits

end Exponent

namespace Number

def text (n : Number) : List UInt8 :=
  (if n.negative then [45] else []) ++ n.whole ++
    (if n.fraction = [] then [] else 46 :: n.fraction) ++
      (n.exponent.map Exponent.text).getD []

def written (n : Number) : ℤ := (n.exponent.map Exponent.value).getD 0

def magnitude (n : Number) : ℚ :=
  valueFrom 0 (n.whole ++ n.fraction) * 10 ^ (n.written - n.fraction.length)

def value (n : Number) : ℚ := if n.negative then -n.magnitude else n.magnitude

def significant (n : Number) : List UInt8 := (n.whole ++ n.fraction).dropWhile (· == 48)

def point (n : Number) : ℤ := n.significant.length - n.fraction.length

end Number

end JaszczurHal.PythonFloat

namespace JaszczurHal.PythonFloatExact
open DecimalText PythonFloat

section Scanning

def significantOf (seen : List UInt8) : List UInt8 := seen.dropWhile (· == 48)

structure Scanned (s : Scan) (seen : List UInt8) (places : ℕ) : Prop where
  started : s.started = true ↔ significantOf seen ≠ []
  digits : s.digits = (significantOf seen).take keptDigits
  sticky : s.sticky = true ↔ ∃ b ∈ (significantOf seen).drop keptDigits, b ≠ 48
  point : s.point = (significantOf seen).length - places

theorem significantOf_append (seen : List UInt8) (b : UInt8) :
    significantOf (seen ++ [b]) =
      if significantOf seen = [] ∧ b = 48 then [] else significantOf seen ++ [b] := by
  unfold significantOf
  rw [List.dropWhile_append]
  by_cases hnone : seen.dropWhile (· == 48) = []
  · by_cases hb : b = 48
    · simp [hnone, hb]
    · simp [hnone, hb]
  · simp [hnone]

theorem scanStep_scanned {s : Scan} {seen : List UInt8} {places : ℕ} (h : Scanned s seen places)
    {b : UInt8} (hb : b ≠ 46) :
    (scanStep s b).fraction = s.fraction ∧
      Scanned (scanStep s b) (seen ++ [b]) (places + if s.fraction then 1 else 0) := by
  obtain ⟨hstarted, hdigits, hsticky, hpoint⟩ := h
  by_cases hzero : significantOf seen = [] ∧ b = 48
  · -- a leading zero moves the point only
    have hnot : s.started = false := by
      rw [← Bool.not_eq_true, hstarted, hzero.1]
      simp
    have hstep : scanStep s b = { s with point := s.point - if s.fraction then 1 else 0 } := by
      simp [scanStep, hnot, hzero.2]
    have hnext : significantOf (seen ++ [b]) = [] := by
      rw [significantOf_append, if_pos hzero]
    rw [hzero.1] at hstarted hdigits hsticky hpoint
    rw [hstep]
    constructor
    · rfl
    constructor
    · rw [hnext]
      exact hstarted
    · rw [hnext]
      exact hdigits
    · rw [hnext]
      exact hsticky
    · rw [hnext]
      simp only [hpoint]
      split <;> push_cast <;> omega
  · have hnext : significantOf (seen ++ [b]) = significantOf seen ++ [b] := by
      rw [significantOf_append, if_neg hzero]
    have hbegin : (s.started || b != 48) = true := by
      by_cases hnone : significantOf seen = []
      · have hne : b ≠ 48 := fun hsame => hzero ⟨hnone, hsame⟩
        simp [hne]
      · simp [hstarted.mpr hnone]
    by_cases hroom : (significantOf seen).length < keptDigits
    · have hlength : s.digits.length < keptDigits := by
        rw [hdigits, List.length_take]
        omega
      have hstep : scanStep s b = { s with
          started := true
          point := s.point + if s.fraction then 0 else 1
          digits := s.digits ++ [b] } := by
        simp [scanStep, hb, hbegin, hlength]
      rw [hstep]
      constructor
      · rfl
      constructor
      · simp [hnext]
      · rw [hnext, List.take_of_length_le (by simp; omega)]
        simp only [hdigits]
        rw [List.take_of_length_le (by omega)]
      · rw [hnext, List.drop_of_length_le (by simp; omega)]
        rw [List.drop_of_length_le (by omega)] at hsticky
        exact hsticky
      · rw [hnext]
        simp only [hpoint, List.length_append, List.length_singleton]
        split <;> push_cast <;> omega
    · have hlength : ¬s.digits.length < keptDigits := by
        rw [hdigits, List.length_take]
        omega
      have hstep : scanStep s b = { s with
          started := true
          point := s.point + if s.fraction then 0 else 1
          sticky := s.sticky || b != 48 } := by
        simp [scanStep, hb, hbegin, hlength]
      rw [hstep]
      constructor
      · rfl
      constructor
      · simp [hnext]
      · rw [hnext, List.take_append_of_le_length (by omega)]
        exact hdigits
      · rw [hnext, List.drop_append_of_le_length (by omega)]
        simp only [Bool.or_eq_true, hsticky, bne_iff_ne, List.mem_append, List.mem_singleton]
        constructor
        · rintro (⟨c, hc, hne⟩ | hne)
          · exact ⟨c, Or.inl hc, hne⟩
          · exact ⟨b, Or.inr rfl, hne⟩
        · rintro ⟨c, hc | hc, hne⟩
          · exact Or.inl ⟨c, hc, hne⟩
          · exact Or.inr (hc ▸ hne)
      · rw [hnext]
        simp only [hpoint, List.length_append, List.length_singleton]
        split <;> push_cast <;> omega

theorem scan_scanned {s : Scan} {seen : List UInt8} {places : ℕ} (h : Scanned s seen places)
    (text : List UInt8) (htext : ∀ b ∈ text, b ≠ 46) :
    (text.foldl scanStep s).fraction = s.fraction ∧
      Scanned (text.foldl scanStep s) (seen ++ text)
        (places + if s.fraction then text.length else 0) := by
  induction text generalizing s seen places with
  | nil =>
    simp only [List.foldl_nil, List.append_nil, List.length_nil, ite_self, Nat.add_zero]
    exact ⟨trivial, h⟩
  | cons b text ih =>
    obtain ⟨hfraction, hstep⟩ := scanStep_scanned h (htext b (List.mem_cons_self ..))
    obtain ⟨hkept, hrest⟩ := ih hstep fun c hc => htext c (List.mem_cons_of_mem _ hc)
    rw [List.foldl_cons]
    constructor
    · rw [hkept, hfraction]
    · rw [hfraction, List.append_assoc, List.singleton_append] at hrest
      have hplaces : places + (if s.fraction = true then (b :: text).length else 0) =
          places + (if s.fraction = true then 1 else 0) +
            if s.fraction = true then text.length else 0 := by
        rw [List.length_cons]
        split <;> omega
      rw [hplaces]
      exact hrest

theorem scanned_start : Scanned ⟨false, false, false, 0, []⟩ [] 0 := by
  constructor
  · simp [significantOf]
  · rfl
  · simp [significantOf]
  · rfl

theorem scan_number (whole fraction : List UInt8) (hwhole : ∀ b ∈ whole, b ≠ 46)
    (hfraction : ∀ b ∈ fraction, b ≠ 46) :
    Scanned ((whole ++ if fraction = [] then [] else 46 :: fraction).foldl scanStep
      ⟨false, false, false, 0, []⟩) (whole ++ fraction) fraction.length := by
  obtain ⟨hnone, hfirst⟩ := scan_scanned scanned_start whole hwhole
  rw [List.foldl_append]
  by_cases hempty : fraction = []
  · rw [if_pos hempty, hempty]
    simpa using hfirst
  · rw [if_neg hempty, List.foldl_cons]
    have hpoint : scanStep (whole.foldl scanStep ⟨false, false, false, 0, []⟩) 46 =
        { whole.foldl scanStep ⟨false, false, false, 0, []⟩ with fraction := true } := by
      simp [scanStep]
    rw [hpoint]
    have hmarked : Scanned { whole.foldl scanStep ⟨false, false, false, 0, []⟩ with
        fraction := true } whole 0 := by
      have hfirst : Scanned (whole.foldl scanStep ⟨false, false, false, 0, []⟩) whole 0 := by
        simpa using hfirst
      exact ⟨hfirst.started, hfirst.digits, hfirst.sticky, hfirst.point⟩
    have hrest := (scan_scanned hmarked fraction hfraction).2
    simpa using hrest

end Scanning

section Exponents

theorem saturated_spec (x : ℤ) :
    (exponentLimit < x ∧ saturated x = exponentLimit) ∨
      (x < -exponentLimit ∧ saturated x = -exponentLimit) ∨
      (-exponentLimit ≤ x ∧ x ≤ exponentLimit ∧ saturated x = x) := by
  unfold saturated
  by_cases hhigh : exponentLimit < x
  · exact Or.inl ⟨hhigh, if_pos hhigh⟩
  · rw [if_neg hhigh]
    by_cases hlow : x < -exponentLimit
    · exact Or.inr (Or.inl ⟨hlow, if_pos hlow⟩)
    · exact Or.inr (Or.inr ⟨by omega, by omega, if_neg hlow⟩)

theorem saturated_neg (x : ℤ) : saturated (-x) = -saturated x := by
  have hleft := saturated_spec x
  have hright := saturated_spec (-x)
  have hlimit : exponentLimit = 1000000000000000 := rfl
  omega

theorem saturated_step (x : ℕ) (d : ℕ) :
    saturated (saturated x * 10 + d) = saturated ((x * 10 + d : ℕ) : ℤ) := by
  have hx := saturated_spec x
  have hleft := saturated_spec (saturated x * 10 + d)
  have hright := saturated_spec ((x * 10 + d : ℕ) : ℤ)
  have hlimit : exponentLimit = 1000000000000000 := rfl
  omega

theorem exponent_digits {digits : List UInt8} (h : ∀ b ∈ digits, digitByte b = true) (x : ℕ) :
    digits.foldl (fun exponent b => saturated (exponent * 10 + (b.toNat - 48 : ℤ)))
      (saturated x) = saturated (valueFrom x digits) := by
  induction digits generalizing x with
  | nil => rfl
  | cons b digits ih =>
    have hb := (digitByte_iff b).mp (h b (List.mem_cons_self ..))
    have hdigit : (b.toNat - 48 : ℤ) = (digit b : ℕ) := by
      unfold digit
      omega
    rw [List.foldl_cons, hdigit, saturated_step, ih fun c hc => h c (List.mem_cons_of_mem _ hc)]
    rfl

theorem digit_ne {b : UInt8} (h : digitByte b = true) :
    b ≠ 43 ∧ b ≠ 45 ∧ b ≠ 46 ∧ b ≠ 69 ∧ b ≠ 101 := by
  refine ⟨?_, ?_, ?_, ?_, ?_⟩ <;> · rintro rfl; revert h; decide

theorem exponentOf_exponent (e : Exponent) :
    exponentOf (e.sign ++ e.digits) = saturated e.value := by
  obtain ⟨hne, hdigits⟩ := e.isDigits
  have hvalue := exponent_digits hdigits 0
  have hzero : saturated ((0 : ℕ) : ℤ) = 0 := rfl
  rw [hzero] at hvalue
  unfold exponentOf Exponent.value
  rcases e.isSign with hsign | hsign | hsign
  · obtain ⟨b, rest, hcons⟩ := List.exists_cons_of_ne_nil hne
    have hb := digit_ne (hdigits b (by simp [hcons]))
    have hhead : e.digits.head? = some b := by rw [hcons, List.head?_cons]
    simp [hsign, hhead, hb, hvalue]
  · simp [hsign, hvalue]
  · simp [hsign, hvalue, saturated_neg]

end Exponents

section Form

variable (n : Number)

theorem whole_head : ∃ b rest, n.whole = b :: rest ∧ digitByte b = true := by
  obtain ⟨hne, hdigits⟩ := n.wholeDigits
  obtain ⟨b, rest, hcons⟩ := List.exists_cons_of_ne_nil hne
  exact ⟨b, rest, hcons, hdigits b (by simp [hcons])⟩

/-- The digits and the point, and what follows them. -/
theorem unsigned_split :
    let digits := n.whole ++ if n.fraction = [] then [] else 46 :: n.fraction
    let rest := (n.exponent.map Exponent.text).getD []
    (digits ++ rest).takeWhile beforeExponent = digits ∧
      (digits ++ rest).dropWhile beforeExponent = rest := by
  intro digits rest
  have hdigits : ∀ b ∈ digits, beforeExponent b = true := by
    intro b hb
    have hcases : digitByte b = true ∨ b = 46 := by
      cases List.mem_append.mp hb with
      | inl hwhole => exact Or.inl (n.wholeDigits.2 b hwhole)
      | inr hfraction =>
        split at hfraction
        · cases hfraction
        · cases List.mem_cons.mp hfraction with
          | inl hpoint => exact Or.inr hpoint
          | inr hin => exact Or.inl (n.fractionDigits b hin)
    cases hcases with
    | inl hdigit =>
      have hne := digit_ne hdigit
      simp [beforeExponent, hne]
    | inr hpoint =>
      rw [hpoint]
      decide
  have hrest : rest.takeWhile beforeExponent = [] ∧ rest.dropWhile beforeExponent = rest := by
    cases hexponent : n.exponent with
    | none => simp [rest, hexponent]
    | some e =>
      have hletter : beforeExponent e.letter = false := by
        cases e.isLetter with
        | inl h => rw [h]; decide
        | inr h => rw [h]; decide
      simp [rest, hexponent, Exponent.text, hletter]
  constructor
  · rw [List.takeWhile_append_of_pos hdigits, hrest.1, List.append_nil]
  · rw [List.dropWhile_append_of_pos hdigits, hrest.2]

theorem text_negative : decide (n.text.head? = some 45) = n.negative := by
  obtain ⟨b, rest, hwhole, hb⟩ := whole_head n
  have hne := (digit_ne hb).2.1
  cases hnegative : n.negative with
  | true => simp [Number.text, hnegative]
  | false => simp [Number.text, hnegative, hwhole, hne]

theorem text_unsigned : (if n.negative then n.text.tail else n.text) =
    (n.whole ++ if n.fraction = [] then [] else 46 :: n.fraction) ++
      (n.exponent.map Exponent.text).getD [] := by
  cases hnegative : n.negative with
  | true => simp [Number.text, hnegative]
  | false => simp [Number.text, hnegative]

def kept : ℤ := saturated (saturated n.point + saturated n.written)

theorem decimalForm_number :
    (decimalForm n.text).negative = n.negative ∧
      (decimalForm n.text).digits = n.significant.take keptDigits ∧
      ((decimalForm n.text).sticky = true ↔ ∃ b ∈ n.significant.drop keptDigits, b ≠ 48) ∧
      (decimalForm n.text).exponent = kept n := by
  have hscan := scan_number n.whole n.fraction
    (fun b hb => (digit_ne (n.wholeDigits.2 b hb)).2.2.1)
    (fun b hb => (digit_ne (n.fractionDigits b hb)).2.2.1)
  obtain ⟨htake, hdrop⟩ := unsigned_split n
  simp only [decimalForm, text_negative, text_unsigned, htake, hdrop]
  refine ⟨trivial, hscan.digits, hscan.sticky, ?_⟩
  have hpoint : ((significantOf (n.whole ++ n.fraction)).length : ℤ) - n.fraction.length =
      n.point := rfl
  rw [hscan.point, hpoint, kept]
  cases hexponent : n.exponent with
  | none => simp [Number.written, hexponent, saturated, exponentLimit]
  | some e => simp [Number.written, hexponent, Exponent.text, exponentOf_exponent]

end Form

end JaszczurHal.PythonFloatExact
