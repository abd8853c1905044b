import JaszczurHal.GpsUtcFields
import JaszczurHal.SimcomMqtt

/-!
# Formatted reading

The directives of `sscanf` that the drivers use. What a conversion makes of a
floating number is a parameter; of decimal text only, the prefix it takes is
known.
-/

set_option autoImplicit false

namespace JaszczurHal.Sscanf
open GpsNmea (isSpace isDigit)
open SimcomMqtt (scanInt plus minus comma)

variable {F : Type}

inductive Directive where
  | char (c : UInt8)
  | blank
  | int
  | float

inductive Value (F : Type) where
  | int (z : ℤ)
  | float (x : F)

abbrev Strtof (F : Type) := List UInt8 → Option (F × List UInt8)

def scanFloat (strtof : Strtof F) (text : List UInt8) : Option (F × List UInt8) :=
  strtof (text.dropWhile isSpace)

/-- The values assigned, and the rest of the text when the end of the format is
reached, which is where `%n` stands. -/
def sscanf (strtof : Strtof F) : List Directive → List UInt8 → List (Value F) × Option (List UInt8)
  | [], text => ([], some text)
  | .char _ :: _, [] => ([], none)
  | .char c :: format, b :: text => if b = c then sscanf strtof format text else ([], none)
  | .blank :: format, text => sscanf strtof format (text.dropWhile isSpace)
  | .int :: format, text =>
    match scanInt text with
    | none => ([], none)
    | some (z, rest) =>
      (.int z :: (sscanf strtof format rest).1, (sscanf strtof format rest).2)
  | .float :: format, text =>
    match scanFloat strtof text with
    | none => ([], none)
    | some (x, rest) =>
      (.float x :: (sscanf strtof format rest).1, (sscanf strtof format rest).2)

variable (strtof : Strtof F) {format : List Directive} {text rest : List UInt8}
  {values : List (Value F)}

section Reading

-- The four lemmas say the equations by what is read to the end of the format.
attribute [local simp] sscanf

@[simp] theorem sscanf_nil : sscanf strtof [] text = (values, some rest) ↔
    values = [] ∧ text = rest := by
  rw [sscanf, Prod.mk.injEq, Option.some.injEq, eq_comm]

@[simp] theorem sscanf_char {c : UInt8} : sscanf strtof (.char c :: format) text =
    (values, some rest) ↔ ∃ tail, text = c :: tail ∧
      sscanf strtof format tail = (values, some rest) := by
  cases text with
  | nil => simp
  | cons b text =>
    by_cases h : b = c
    · simp [h]
    · simp [h]

@[simp] theorem sscanf_int : sscanf strtof (.int :: format) text = (values, some rest) ↔
    ∃ z tail others, scanInt text = some (z, tail) ∧
      sscanf strtof format tail = (others, some rest) ∧ values = .int z :: others := by
  rw [sscanf]
  cases scanInt text with
  | none => simp
  | some scanned =>
    obtain ⟨z, tail⟩ := scanned
    simp [Prod.ext_iff, and_comm, and_assoc, eq_comm]

@[simp] theorem sscanf_float : sscanf strtof (.float :: format) text = (values, some rest) ↔
    ∃ x tail others, scanFloat strtof text = some (x, tail) ∧
      sscanf strtof format tail = (others, some rest) ∧ values = .float x :: others := by
  rw [sscanf]
  cases scanFloat strtof text with
  | none => simp
  | some scanned =>
    obtain ⟨x, tail⟩ := scanned
    simp [Prod.ext_iff, and_comm, and_assoc, eq_comm]

end Reading

theorem skip_twice (text : List UInt8) :
    (text.dropWhile isSpace).dropWhile isSpace = text.dropWhile isSpace :=
  List.dropWhile_idempotent isSpace text

/-- Both conversions skip the blanks before a number themselves. -/
theorem sscanf_blank_int (format : List Directive) (text : List UInt8) :
    sscanf strtof (.blank :: .int :: format) text = sscanf strtof (.int :: format) text := by
  have hskip : scanInt (text.dropWhile isSpace) = scanInt text := by
    rw [scanInt, scanInt, skip_twice]
  rw [sscanf, sscanf, sscanf, hskip]

theorem sscanf_blank_float (format : List Directive) (text : List UInt8) :
    sscanf strtof (.blank :: .float :: format) text = sscanf strtof (.float :: format) text := by
  have hskip : scanFloat strtof (text.dropWhile isSpace) = scanFloat strtof text := by
    rw [scanFloat, scanFloat, skip_twice]
  rw [sscanf, sscanf, sscanf, hskip]

theorem sscanf_congr {format other : List Directive} (directive : Directive)
    (h : sscanf strtof format = sscanf strtof other) :
    sscanf strtof (directive :: format) = sscanf strtof (directive :: other) := by
  funext text
  cases directive with
  | char c => cases text <;> simp only [sscanf, h]
  | blank => simp only [sscanf, h]
  | int => simp only [sscanf, h]
  | float => simp only [sscanf, h]

theorem sscanf_literal (literal : List UInt8) (format : List Directive) (text : List UInt8) :
    sscanf strtof (literal.map .char ++ format) (literal ++ text) = sscanf strtof format text := by
  induction literal with
  | nil => rfl
  | cons c literal ih =>
    rw [List.map_cons, List.cons_append, List.cons_append, sscanf, if_pos rfl]
    exact ih

def point : UInt8 := 0x2E

def Ends (c : UInt8) : Prop := isDigit c = false ∧ c ≠ point

structure Splits {V : Type} (scan : List UInt8 → Option (V × List UInt8)) : Prop where
  none : scan [] = none
  whole : ∀ {text rest v}, scan text = some (v, rest) →
    ∃ piece, text = piece ++ rest ∧ scan piece = some (v, [])
  more : ∀ {piece v c} (rest : List UInt8), scan piece = some (v, []) → Ends c →
    scan (piece ++ c :: rest) = some (v, c :: rest)

theorem Splits.ne_nil {V : Type} {scan : List UInt8 → Option (V × List UInt8)} (h : Splits scan)
    {piece rest : List UInt8} {v : V} (hscan : scan piece = some (v, rest)) : piece ≠ [] := by
  rintro rfl
  rw [h.none] at hscan
  cases hscan

theorem Splits.skip {V : Type} {scan : List UInt8 → Option (V × List UInt8)} (h : Splits scan) :
    Splits fun text => scan (text.dropWhile isSpace) where
  none := h.none
  whole := by
    intro text rest v hscan
    obtain ⟨piece, hpiece, hread⟩ := h.whole hscan
    refine ⟨text.takeWhile isSpace ++ piece, ?_, ?_⟩
    · rw [List.append_assoc, ← hpiece, List.takeWhile_append_dropWhile]
    · obtain ⟨c, others, rfl⟩ := List.exists_cons_of_ne_nil (h.ne_nil hread)
      have hnot : ¬ isSpace c := by
        have hhead := List.head_dropWhile_not isSpace (l := text) (by rw [hpiece]; exact nofun)
        simpa [hpiece] using hhead
      rw [List.dropWhile_append_of_pos fun b hb => List.mem_takeWhile_imp hb,
        List.dropWhile_cons_of_neg hnot]
      exact hread
  more := by
    intro piece v c rest hscan hc
    obtain ⟨d, others, hpiece⟩ := List.exists_cons_of_ne_nil (h.ne_nil hscan)
    have hskip : (piece ++ c :: rest).dropWhile isSpace =
        piece.dropWhile isSpace ++ c :: rest := by
      rw [List.dropWhile_append, hpiece]
      rfl
    rw [hskip]
    exact h.more rest hscan hc

theorem Splits.map {V W : Type} {scan : List UInt8 → Option (V × List UInt8)} (h : Splits scan)
    (f : V → W) : Splits fun text => (scan text).map fun read => (f read.1, read.2) where
  none := by
    rw [h.none]
    rfl
  whole := by
    intro text rest w hscan
    obtain ⟨⟨v, tail⟩, hread, hvalue⟩ := Option.map_eq_some_iff.mp hscan
    obtain ⟨rfl, rfl⟩ := Prod.mk.inj hvalue
    obtain ⟨piece, hpiece, hpart⟩ := h.whole hread
    exact ⟨piece, hpiece, by rw [hpart]; rfl⟩
  more := by
    intro piece w c rest hscan hc
    obtain ⟨⟨v, tail⟩, hread, hvalue⟩ := Option.map_eq_some_iff.mp hscan
    obtain ⟨rfl, rfl⟩ := Prod.mk.inj hvalue
    rw [h.more rest hread hc]
    rfl

def takeSign : List UInt8 → List UInt8 × List UInt8
  | [] => ([], [])
  | c :: rest => if c = plus ∨ c = minus then ([c], rest) else ([], c :: rest)

def signed {V W : Type} (scan : List UInt8 → Option (V × List UInt8)) (f : List UInt8 → V → W)
    (text : List UInt8) : Option (W × List UInt8) :=
  (scan (takeSign text).2).map fun read => (f (takeSign text).1 read.1, read.2)

theorem takeSign_eq (text : List UInt8) : (takeSign text).1 ++ (takeSign text).2 = text := by
  cases text with
  | nil => rfl
  | cons c rest =>
    rw [takeSign]
    split_ifs
    · rfl
    · rfl

theorem takeSign_append {text : List UInt8} (h : (takeSign text).2 ≠ []) (rest : List UInt8) :
    takeSign (text ++ rest) = ((takeSign text).1, (takeSign text).2 ++ rest) := by
  cases text with
  | nil => exact absurd rfl h
  | cons c others =>
    rw [List.cons_append, takeSign, takeSign]
    split_ifs
    · rfl
    · rfl

theorem takeSign_piece {text piece rest : List UInt8} (hne : piece ≠ [])
    (h : (takeSign text).2 = piece ++ rest) :
    takeSign ((takeSign text).1 ++ piece) = ((takeSign text).1, piece) := by
  cases text with
  | nil =>
    have hnil := congrArg List.length h
    cases piece with
    | nil => exact absurd rfl hne
    | cons c others => simp [takeSign] at hnil
  | cons c others =>
    by_cases hsign : c = plus ∨ c = minus
    · rw [takeSign, if_pos hsign] at h ⊢
      rw [List.singleton_append, takeSign, if_pos hsign]
    · rw [takeSign, if_neg hsign] at h ⊢
      obtain ⟨d, more, rfl⟩ := List.exists_cons_of_ne_nil hne
      obtain ⟨rfl, _⟩ := List.cons.inj h
      rw [List.nil_append, takeSign, if_neg hsign]

theorem Splits.signed {V W : Type} {scan : List UInt8 → Option (V × List UInt8)} (h : Splits scan)
    (f : List UInt8 → V → W) : Splits (signed scan f) where
  none := by
    rw [Sscanf.signed, takeSign, h.none]
    rfl
  whole := by
    intro text rest w hscan
    obtain ⟨⟨v, tail⟩, hread, hvalue⟩ := Option.map_eq_some_iff.mp hscan
    obtain ⟨rfl, rfl⟩ := Prod.mk.inj hvalue
    obtain ⟨piece, hpiece, hpart⟩ := h.whole hread
    refine ⟨(takeSign text).1 ++ piece, ?_, ?_⟩
    · rw [List.append_assoc, ← hpiece, takeSign_eq]
    · rw [Sscanf.signed, takeSign_piece (h.ne_nil hpart) hpiece, hpart]
      rfl
  more := by
    intro piece w c rest hscan hc
    obtain ⟨⟨v, tail⟩, hread, hvalue⟩ := Option.map_eq_some_iff.mp hscan
    obtain ⟨rfl, rfl⟩ := Prod.mk.inj hvalue
    rw [Sscanf.signed, takeSign_append (h.ne_nil hread), h.more rest hread hc]
    rfl

def scanDigits (text : List UInt8) : Option (ℕ × List UInt8) :=
  if text.takeWhile isDigit = [] then none
  else some (GpsNmea.digitsValue text, text.dropWhile isDigit)

theorem scanDigits_splits : Splits scanDigits where
  none := rfl
  whole := by
    intro text rest v hscan
    unfold scanDigits at hscan
    split_ifs at hscan with hnone
    obtain ⟨rfl, rfl⟩ := Prod.mk.inj (Option.some.inj hscan)
    refine ⟨text.takeWhile isDigit, List.takeWhile_append_dropWhile.symm, ?_⟩
    have htake : (text.takeWhile isDigit).takeWhile isDigit = text.takeWhile isDigit :=
      List.takeWhile_eq_self_iff.mpr fun c hc => List.mem_takeWhile_imp hc
    have hdrop : (text.takeWhile isDigit).dropWhile isDigit = [] :=
      List.dropWhile_eq_nil_iff.mpr fun c hc => List.mem_takeWhile_imp hc
    rw [scanDigits, GpsNmea.digitsValue, htake, hdrop, if_neg hnone, GpsNmea.digitsValue]
  more := by
    intro piece v c rest hscan hc
    unfold scanDigits at hscan
    split_ifs at hscan with hnone
    obtain ⟨rfl, hdrop⟩ := Prod.mk.inj (Option.some.inj hscan)
    have hall : GpsUtcFields.AllDigits piece := fun d hd => List.dropWhile_eq_nil_iff.mp hdrop d hd
    have htail : GpsUtcFields.Tail (c :: rest) := fun d hd => Option.some.inj hd ▸ hc.1
    have hself : piece.takeWhile isDigit = piece := List.takeWhile_eq_self_iff.mpr hall
    obtain ⟨htake, hrest⟩ := GpsUtcFields.takeWhile_digits hall htail
    rw [hself] at hnone
    rw [scanDigits, GpsNmea.digitsValue, htake, hrest, if_neg hnone, GpsNmea.digitsValue, hself]

def intValue (sign : List UInt8) (value : ℕ) : ℤ := if sign = [minus] then -value else value

theorem scanInt_eq (text : List UInt8) :
    scanInt text = signed scanDigits intValue (text.dropWhile isSpace) := by
  rw [scanInt]
  cases text.dropWhile isSpace with
  | nil => rfl
  | cons c rest =>
    by_cases hminus : c = minus
    · rw [signed, takeSign, if_pos (.inr hminus), hminus]
      dsimp only
      rw [if_pos rfl, scanDigits]
      split_ifs <;> rfl
    · by_cases hplus : c = plus
      · rw [signed, takeSign, if_pos (.inl hplus), hplus]
        dsimp only
        rw [if_neg (by decide), if_pos rfl, scanDigits]
        split_ifs <;> rfl
      · rw [signed, takeSign, if_neg (not_or.mpr ⟨hplus, hminus⟩)]
        dsimp only
        rw [if_neg hminus, if_neg hplus, scanDigits]
        split_ifs <;> rfl

theorem scanInt_splits : Splits scanInt := by
  have h := (scanDigits_splits.signed intValue).skip
  rw [show scanInt = fun text => signed scanDigits intValue (text.dropWhile isSpace) from
    funext scanInt_eq]
  exact h

def fraction : List UInt8 → List UInt8 × List UInt8
  | [] => ([], [])
  | c :: rest =>
    if c = point then (c :: rest.takeWhile isDigit, rest.dropWhile isDigit) else ([], c :: rest)

def scanPlain (text : List UInt8) : Option (List UInt8 × List UInt8) :=
  let whole := text.takeWhile isDigit
  let tail := fraction (text.dropWhile isDigit)
  if whole = [] ∧ tail.1.length ≤ 1 then none else some (whole ++ tail.1, tail.2)

theorem fraction_eq (text : List UInt8) : (fraction text).1 ++ (fraction text).2 = text := by
  cases text with
  | nil => rfl
  | cons c rest =>
    rw [fraction]
    split_ifs
    · rw [List.cons_append, List.takeWhile_append_dropWhile]
    · rfl

theorem fraction_self (text : List UInt8) :
    fraction (fraction text).1 = ((fraction text).1, []) := by
  cases text with
  | nil => rfl
  | cons c rest =>
    by_cases hpoint : c = point
    · have htake : (rest.takeWhile isDigit).takeWhile isDigit = rest.takeWhile isDigit :=
        List.takeWhile_eq_self_iff.mpr fun d hd => List.mem_takeWhile_imp hd
      have hdrop : (rest.takeWhile isDigit).dropWhile isDigit = [] :=
        List.dropWhile_eq_nil_iff.mpr fun d hd => List.mem_takeWhile_imp hd
      rw [fraction, if_pos hpoint]
      dsimp only
      rw [fraction, if_pos hpoint, htake, hdrop]
    · rw [fraction, if_neg hpoint]
      rfl

theorem fraction_tail (text : List UInt8) : GpsUtcFields.Tail (fraction text).1 := by
  intro c hc
  cases text with
  | nil => cases hc
  | cons d rest =>
    rw [fraction] at hc
    split_ifs at hc with hpoint
    · obtain rfl := Option.some.inj hc
      rw [hpoint]
      rfl
    · cases hc

theorem scanPlain_splits : Splits scanPlain where
  none := rfl
  whole := by
    intro text rest d hscan
    unfold scanPlain at hscan
    dsimp only at hscan
    split_ifs at hscan with hnone
    obtain ⟨rfl, rfl⟩ := Prod.mk.inj (Option.some.inj hscan)
    have hdigits : GpsUtcFields.AllDigits (text.takeWhile isDigit) :=
      fun c hc => List.mem_takeWhile_imp hc
    obtain ⟨htake, hdrop⟩ :=
      GpsUtcFields.takeWhile_digits hdigits (fraction_tail (text.dropWhile isDigit))
    refine ⟨text.takeWhile isDigit ++ (fraction (text.dropWhile isDigit)).1, ?_, ?_⟩
    · rw [List.append_assoc, fraction_eq, List.takeWhile_append_dropWhile]
    · rw [scanPlain, htake, hdrop, fraction_self]
      exact if_neg hnone
  more := by
    intro piece d c rest hscan hc
    unfold scanPlain at hscan
    dsimp only at hscan
    split_ifs at hscan with hnone
    obtain ⟨rfl, hend⟩ := Prod.mk.inj (Option.some.inj hscan)
    have hdigits : GpsUtcFields.AllDigits (piece.takeWhile isDigit) :=
      fun c hc => List.mem_takeWhile_imp hc
    have htext : piece.takeWhile isDigit ++ piece.dropWhile isDigit = piece :=
      List.takeWhile_append_dropWhile
    have htail : GpsUtcFields.Tail (piece.dropWhile isDigit ++ c :: rest) := by
      intro b hb
      cases hdrop : piece.dropWhile isDigit with
      | nil =>
        rw [hdrop] at hb
        exact Option.some.inj hb ▸ hc.1
      | cons x others =>
        rw [hdrop] at hb
        have hhead := List.head_dropWhile_not isDigit (l := piece) (by rw [hdrop]; exact nofun)
        obtain rfl := Option.some.inj hb
        simpa [hdrop] using hhead
    obtain ⟨htake, hdrop⟩ := GpsUtcFields.takeWhile_digits hdigits htail
    rw [← List.append_assoc, htext] at htake hdrop
    have hfraction : fraction (piece.dropWhile isDigit ++ c :: rest) =
        ((fraction (piece.dropWhile isDigit)).1, c :: rest) := by
      cases hpart : piece.dropWhile isDigit with
      | nil => exact if_neg hc.2
      | cons x others =>
        rw [hpart] at hend
        by_cases hpoint : x = point
        · rw [fraction, if_pos hpoint] at hend
          have hall : GpsUtcFields.AllDigits others :=
            fun b hb => List.dropWhile_eq_nil_iff.mp hend b hb
          have hstop : GpsUtcFields.Tail (c :: rest) := fun b hb => Option.some.inj hb ▸ hc.1
          obtain ⟨hmore, hleft⟩ := GpsUtcFields.takeWhile_digits hall hstop
          have hself : others.takeWhile isDigit = others := List.takeWhile_eq_self_iff.mpr hall
          rw [List.cons_append, fraction, if_pos hpoint, hmore, hleft, fraction, if_pos hpoint,
            hself]
        · rw [fraction, if_neg hpoint] at hend
          cases hend
    rw [scanPlain, htake, hdrop, hfraction]
    exact if_neg hnone

def decimalPrefix (text : List UInt8) : Option (List UInt8 × List UInt8) :=
  signed scanPlain (· ++ ·) text

theorem decimalPrefix_splits : Splits decimalPrefix := scanPlain_splits.signed _

def decimals (value : List UInt8 → F) : Strtof F := fun text =>
  (decimalPrefix text).map fun read => (value read.1, read.2)

theorem scanFloat_splits (value : List UInt8 → F) : Splits (scanFloat (decimals value)) :=
  (decimalPrefix_splits.map value).skip

def DecimalText (text decimal : List UInt8) : Prop :=
  decimalPrefix (text.dropWhile isSpace) = some (decimal, [])

theorem scanFloat_iff {value : List UInt8 → F} {text : List UInt8} {x : F} :
    scanFloat (decimals value) text = some (x, []) ↔
      ∃ decimal, DecimalText text decimal ∧ value decimal = x := by
  rw [scanFloat, decimals, Option.map_eq_some_iff]
  constructor
  · rintro ⟨⟨decimal, rest⟩, hread, hvalue⟩
    obtain ⟨hx, rfl⟩ := Prod.mk.inj hvalue
    exact ⟨decimal, hread, hx⟩
  · rintro ⟨decimal, hread, rfl⟩
    exact ⟨(decimal, []), hread, rfl⟩

end JaszczurHal.Sscanf
