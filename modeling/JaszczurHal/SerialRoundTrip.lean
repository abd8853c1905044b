import JaszczurHal.DecimalText
import JaszczurHal.SerialLines

/-!
# What the frame decoder accepts

An accepted line has the parts that the encoder writes. Its number may begin
with zeros and its two hexadecimal digits may have either case; nothing else
is free.
-/

set_option autoImplicit false

namespace JaszczurHal.SerialRoundTrip
open SerialFrame SerialLines
open DecimalText (digitByte valueFrom)

def covered (digits payload : List UInt8) : List UInt8 :=
  framePrefix.drop 1 ++ (digits ++ comma :: payload)

def lineOf (digits payload : List UInt8) (c c' : UInt8) : List UInt8 :=
  framePrefix ++ (digits ++ comma :: (payload ++ [SerialFrame.star, c, c']))

structure Parts (line : List UInt8) (sequence : UInt16) (payload digits : List UInt8)
    (c c' : UInt8) : Prop where
  line : line = lineOf digits payload c c'
  numeric : ∀ d ∈ digits, isDigit d = true
  nonempty : digits ≠ []
  number : parseSequence digits = some sequence.toNat
  plain : SerialFrame.star ∉ payload
  crc : parseCrc [c, c'] = some (crc8 (covered digits payload))

variable {line payload digits : List UInt8} {sequence : UInt16} {n : ℕ} {c c' : UInt8}

theorem parseSequence_value (digits : List UInt8) (value : ℕ) (hvalue : value ≤ 0xFFFF) :
    digits.foldlM (fun (acc : ℕ) digit =>
      let acc := acc*10+(digit.toNat-0x30)
      if acc > 0xFFFF then none else some acc) value =
        if valueFrom value digits ≤ 0xFFFF then some (valueFrom value digits) else none := by
  induction digits generalizing value with
  | nil =>
    rw [valueFrom, List.foldl_nil, if_pos hvalue]
    rfl
  | cons d digits ih =>
    have hstep : valueFrom value (d :: digits) = valueFrom (value*10+(d.toNat-0x30)) digits := rfl
    have hge := DecimalText.valueFrom_ge (value*10+(d.toNat-0x30)) digits
    rw [List.foldlM_cons, hstep]
    dsimp only
    by_cases hlarge : value*10+(d.toNat-0x30) > 0xFFFF
    · rw [if_pos hlarge, if_neg (by omega)]
      rfl
    · rw [if_neg hlarge]
      exact ih _ (not_lt.mp hlarge)

theorem parseSequence_eq (digits : List UInt8) :
    parseSequence digits =
      if valueFrom 0 digits ≤ 0xFFFF then some (valueFrom 0 digits) else none :=
  parseSequence_value digits 0 (by decide)

theorem parseSequence_some (h : parseSequence digits = some n) :
    valueFrom 0 digits = n ∧ n ≤ 0xFFFF := by
  rw [parseSequence_eq] at h
  split at h
  · rename_i hle
    obtain rfl := Option.some.inj h
    exact ⟨rfl, hle⟩
  · cases h

/-- The decoder accepts the lines that have these parts, and no others. -/
theorem decode_iff : decode line n = some (sequence, payload) ↔
    (∃ digits c c', Parts line sequence payload digits c c') ∧ payload.length < n := by
  constructor
  · intro h
    unfold decode at h
    by_cases hmark : (n = 0 || line.take framePrefix.length ≠ framePrefix) = true
    · rw [if_pos hmark] at h
      cases h
    rw [if_neg hmark] at h
    simp only [Bool.or_eq_true, decide_eq_true_eq, not_or, not_not] at hmark
    dsimp only at h
    have hdigits := List.prefix_iff_eq_append.mp
      (List.takeWhile_prefix isDigit (l := line.drop framePrefix.length))
    have hline := List.take_append_drop framePrefix.length line
    have hall : ∀ d ∈ (line.drop framePrefix.length).takeWhile isDigit, isDigit d = true :=
      fun d hd => List.mem_takeWhile_imp hd
    rw [hmark.2, ← hdigits] at hline
    generalize (line.drop framePrefix.length).takeWhile isDigit = digits at h hline hall
    cases hrest : (line.drop framePrefix.length).drop digits.length with
    | nil =>
      rw [hrest] at h
      cases h
    | cons separator payloadBegin =>
      rw [hrest] at h hline
      dsimp only at h
      by_cases hseparator : (decide (digits.length = 0) || decide (separator ≠ comma)) = true
      · rw [if_pos hseparator] at h
        cases h
      rw [if_neg hseparator] at h
      simp only [Bool.or_eq_true, decide_eq_true_eq, not_or, not_not] at hseparator
      obtain ⟨hnonempty, rfl⟩ := hseparator
      cases hsequence : parseSequence digits with
      | none =>
        rw [hsequence] at h
        cases h
      | some parsed =>
        cases hsplit : splitStar payloadBegin with
        | none =>
          rw [hsequence, hsplit] at h
          cases h
        | some parts =>
          obtain ⟨found, tail⟩ := parts
          rw [hsequence, hsplit] at h
          dsimp only at h
          cases hcrc : parseCrc tail with
          | none =>
            rw [hcrc] at h
            cases h
          | some expected =>
            rw [hcrc] at h
            dsimp only at h
            split_ifs at h with hagree hlong
            obtain ⟨rfl, rfl⟩ := Prod.mk.inj (Option.some.inj h)
            obtain ⟨rfl, hpayload⟩ := splitStar_some hsplit
            obtain ⟨c, c', rfl⟩ := parseCrc_some hcrc
            have hcovered : (line.drop 1).take
                (framePrefix.length-1+digits.length+1+found.length) = covered digits found := by
              rw [← hline, List.drop_append_of_le_length (by decide)]
              have hsplitted : framePrefix.drop 1 ++
                  (digits ++ comma :: (found ++ [SerialFrame.star, c, c'])) =
                  covered digits found ++ [SerialFrame.star, c, c'] := by simp [covered]
              rw [hsplitted]
              apply List.take_left'
              simp [covered]
              omega
            rw [hcovered, ne_eq, not_not] at hagree
            constructor
            · refine ⟨digits, c, c', ?_⟩
              constructor
              · exact hline.symm
              · exact hall
              · exact fun hnil => hnonempty (by rw [hnil]; rfl)
              · rw [hsequence, UInt16.toNat_ofNat', Nat.mod_eq_of_lt]
                have hbound := (parseSequence_some hsequence).2
                omega
              · exact hpayload
              · rw [hcrc, hagree]
            · omega
  · rintro ⟨⟨digits, c, c', hparts⟩, hsize⟩
    have hbuilt := decode_built hparts.numeric hparts.number hparts.nonempty hparts.plain hsize
      hparts.crc rfl
    rw [UInt16.ofNat_toNat] at hbuilt
    rw [hparts.line]
    exact hbuilt

/-- Any digits are zeros and the shortest text of their number. -/
theorem digits_zeros (hdigits : ∀ d ∈ digits, digitByte d = true) (hne : digits ≠ []) :
    ∃ zeros, digits = List.replicate zeros 48 ++ DecimalText.decimal (valueFrom 0 digits) := by
  induction digits with
  | nil => exact absurd rfl hne
  | cons d digits ih =>
    by_cases hzero : d = 48 ∧ digits ≠ []
    · obtain ⟨rfl, hrest⟩ := hzero
      obtain ⟨zeros, hzeros⟩ := ih (fun e he => hdigits e (List.mem_cons_of_mem _ he)) hrest
      have hvalue : valueFrom 0 (48 :: digits) = valueFrom 0 digits := rfl
      refine ⟨zeros+1, ?_⟩
      rw [hvalue, List.replicate_succ, List.cons_append, ← hzeros]
    · refine ⟨0, ?_⟩
      rw [List.replicate_zero, List.nil_append]
      symm
      apply DecimalText.decimal_value
      constructor
      · exact hdigits
      · exact hne
      · intro hlong hhead
        apply hzero
        constructor
        · exact Option.some.inj hhead
        · rintro rfl
          simp at hlong

def upperCase (c : UInt8) : UInt8 := if 0x61 ≤ c ∧ c ≤ 0x66 then c-0x20 else c

theorem byte_forall {P : UInt8 → Prop} (h : ∀ i : Fin 256, P (UInt8.ofFin i)) (b : UInt8) : P b :=
  h b.toFin

/-- Of every byte: what it is as a digit, and the digits that write it. -/
theorem byte_digits (b : UInt8) : (hexNibble b).all
      (fun v => decide (v < 16) && decide (hexDigit true v = upperCase b)) = true ∧
    parseCrc (hexByte true b) = some b ∧ (b >>> 4).toNat < 16 ∧ (b &&& 0x0F).toNat < 16 ∧
    (b >>> 4) <<< 4 ||| (b &&& 0x0F) = b := by
  revert b
  apply byte_forall
  decide +kernel

theorem hexByte_nibbles : ∀ high low : Fin 16,
    hexByte true ((UInt8.ofNat high.val) <<< 4 ||| UInt8.ofNat low.val) =
      [hexDigit true (UInt8.ofNat high.val), hexDigit true (UInt8.ofNat low.val)] := by
  decide +kernel

/-- Two digits that are read as this byte are those that the encoder writes,
up to their case. -/
theorem parseCrc_upper {b : UInt8} (h : parseCrc [c, c'] = some b) :
    hexByte true b = [upperCase c, upperCase c'] := by
  rw [parseCrc] at h
  have hc := (byte_digits c).1
  have hc' := (byte_digits c').1
  cases hhigh : hexNibble c with
  | none =>
    rw [hhigh] at h
    cases h
  | some high =>
    cases hlow : hexNibble c' with
    | none =>
      rw [hhigh, hlow] at h
      cases h
    | some low =>
      rw [hhigh, hlow] at h
      rw [hhigh, Option.all_some, Bool.and_eq_true, decide_eq_true_eq, decide_eq_true_eq] at hc
      rw [hlow, Option.all_some, Bool.and_eq_true, decide_eq_true_eq, decide_eq_true_eq] at hc'
      obtain rfl := Option.some.inj h
      rw [← hc.2, ← hc'.2]
      have hboth := hexByte_nibbles ⟨high.toNat, hc.1⟩ ⟨low.toNat, hc'.1⟩
      simpa using hboth

theorem hexNibble_of_upper (c : UInt8) : ∀ v : Fin 16,
    upperCase c = hexDigit true (UInt8.ofNat v.val) → hexNibble c = some (UInt8.ofNat v.val) := by
  have hupper : ∀ v : Fin 16, hexNibble (hexDigit true (UInt8.ofNat v.val)) =
      some (UInt8.ofNat v.val) := by decide
  have hlower : ∀ v : Fin 16, 0x61 ≤ hexDigit true (UInt8.ofNat v.val)+0x20 →
      hexNibble (hexDigit true (UInt8.ofNat v.val)+0x20) = some (UInt8.ofNat v.val) := by decide
  intro v h
  rw [upperCase] at h
  split_ifs at h with hletter
  · have hc : c = hexDigit true (UInt8.ofNat v.val)+0x20 := by rw [← h, UInt8.sub_add_cancel]
    rw [hc]
    exact hlower v (hc ▸ hletter.1)
  · rw [h]
    exact hupper v

theorem nibbles (b : UInt8) : ∃ high low : Fin 16, b >>> 4 = UInt8.ofNat high.val ∧
    b &&& 0x0F = UInt8.ofNat low.val ∧
      UInt8.ofNat high.val <<< 4 ||| UInt8.ofNat low.val = b := by
  obtain ⟨_, _, hhigh, hlow, hb⟩ := byte_digits b
  refine ⟨⟨_, hhigh⟩, ⟨_, hlow⟩, UInt8.ofNat_toNat.symm, UInt8.ofNat_toNat.symm, ?_⟩
  rw [UInt8.ofNat_toNat, UInt8.ofNat_toNat, hb]

theorem parseCrc_iff {b : UInt8} : parseCrc [c, c'] = some b ↔
    [upperCase c, upperCase c'] = hexByte true b := by
  constructor
  · intro h
    exact (parseCrc_upper h).symm
  · intro h
    obtain ⟨high, low, hhigh, hlow, hb⟩ := nibbles b
    rw [hexByte, hhigh, hlow] at h
    obtain ⟨hc, hrest⟩ := List.cons.inj h
    rw [parseCrc, hexNibble_of_upper c high hc, hexNibble_of_upper c' low (List.cons.inj hrest).1]
    exact congrArg some hb

theorem valueFrom_zeros (zeros : ℕ) (digits : List UInt8) :
    valueFrom 0 (List.replicate zeros 48 ++ digits) = valueFrom 0 digits := by
  induction zeros with
  | zero => rfl
  | succ zeros ih =>
    rw [List.replicate_succ, List.cons_append, ← ih]
    rfl

def encoded (sequence : UInt16) (payload : List UInt8) : List UInt8 :=
  let crc := crc8 (covered (decimal sequence.toNat) payload)
  lineOf (decimal sequence.toNat) payload (hexDigit true (crc >>> 4)) (hexDigit true (crc &&& 0x0F))

theorem encode_eq {outSize : ℕ} (hplain : payload.any special = false) (hsize : 12 ≤ outSize)
    (hroom : (encoded sequence payload).length < outSize) :
    encode sequence payload outSize = some (encoded sequence payload) := by
  have hsmall : ¬ (decide (outSize < 12) || payload.any special) = true := by
    rw [hplain, Bool.or_false, decide_eq_true_eq]
    omega
  have hlength : (encoded sequence payload).length =
      (framePrefix ++ decimal sequence.toNat ++ comma :: payload).length+3 := by
    simp [encoded, lineOf]
    omega
  have hextra : (SerialFrame.star :: hexByte true (crc8
      ((framePrefix ++ decimal sequence.toNat ++ comma :: payload).drop 1))).length = 3 := rfl
  rw [encode, if_neg hsmall]
  dsimp only
  rw [if_neg (by omega), if_neg (by omega)]
  congr 1
  have hcovered : (framePrefix ++ decimal sequence.toNat ++ comma :: payload).drop 1 =
      covered (decimal sequence.toNat) payload := by
    rw [List.append_assoc, List.drop_append_of_le_length (by decide)]
    rfl
  rw [hcovered]
  simp [encoded, lineOf, hexByte]

/-- The number of an accepted line is zeros and the encoder's digits, its two
last digits are those of the encoder up to their case, and its payload has no
star. -/
def Variant (line : List UInt8) (sequence : UInt16) (payload : List UInt8) : Prop :=
  ∃ zeros c c', line = lineOf (List.replicate zeros 48 ++ decimal sequence.toNat) payload c c' ∧
    SerialFrame.star ∉ payload ∧ [upperCase c, upperCase c'] =
      hexByte true (crc8 (covered (List.replicate zeros 48 ++ decimal sequence.toNat) payload))

theorem decode_variant : decode line n = some (sequence, payload) ↔
    Variant line sequence payload ∧ payload.length < n := by
  rw [decode_iff]
  apply and_congr_left
  intro _
  constructor
  · rintro ⟨digits, c, c', hparts⟩
    obtain ⟨zeros, hzeros⟩ := digits_zeros hparts.numeric hparts.nonempty
    rw [(parseSequence_some hparts.number).1] at hzeros
    have hdigits : digits = List.replicate zeros 48 ++ decimal sequence.toNat := hzeros
    refine ⟨zeros, c, c', ?_, hparts.plain, ?_⟩
    · rw [← hdigits]
      exact hparts.line
    · rw [← hdigits]
      exact parseCrc_iff.mp hparts.crc
  · rintro ⟨zeros, c, c', hline, hplain, hcrc⟩
    refine ⟨_, c, c', hline, ?_, ?_, ?_, hplain, parseCrc_iff.mpr hcrc⟩
    · intro d hd
      rcases List.mem_append.mp hd with hzero | hdigit
      · rw [List.eq_of_mem_replicate hzero]
        rfl
      · exact DecimalText.decimal_digits _ d hdigit
    · exact List.append_ne_nil_of_right_ne_nil _ (DecimalText.decimal_ne_nil _)
    · have hvalue : valueFrom 0 (List.replicate zeros 48 ++ decimal sequence.toNat) =
          sequence.toNat := (valueFrom_zeros zeros _).trans (DecimalText.valueFrom_decimal _)
      have hlt := sequence.toNat_lt
      rw [parseSequence_eq, hvalue, if_pos (by omega)]

theorem encoded_variant (hplain : payload.any special = false) :
    Variant (encoded sequence payload) sequence payload := by
  refine ⟨0, _, _, rfl, ?_, ?_⟩
  · intro hmem
    rw [List.any_eq_false] at hplain
    exact hplain _ hmem (by decide)
  · apply (parseCrc_upper _).symm
    exact (byte_digits _).2.1

/-- What is encoded decodes to the same frame, and what decodes is a variant of
what the encoder writes. -/
theorem frame_codec :
    (∀ sequence payload outSize n, payload.any special = false → 12 ≤ outSize →
      (encoded sequence payload).length < outSize → payload.length < n →
        encode sequence payload outSize = some (encoded sequence payload) ∧
          decode (encoded sequence payload) n = some (sequence, payload)) ∧
    ∀ line n sequence payload, decode line n = some (sequence, payload) ↔
      Variant line sequence payload ∧ payload.length < n := by
  constructor
  · intro sequence payload outSize n hplain hsize hroom hn
    constructor
    · exact encode_eq hplain hsize hroom
    · exact decode_variant.mpr ⟨encoded_variant hplain, hn⟩
  · intro line n sequence payload
    exact decode_variant

theorem frame_codec_sample : encode 7 (bytes "HI") 64 = some (encoded 7 (bytes "HI")) ∧
    decode (encoded 7 (bytes "HI")) 3 = some (7, bytes "HI") :=
  frame_codec.1 7 (bytes "HI") 64 3 (by decide) (by decide)
    (by rw [bytes_ofList]; decide +kernel) (by decide)

/-- The decoder does not look for line ends in the payload. -/
theorem line_end_accepted : decode (bytes "$SC,7,A\rB*B9") 129 = some (7, bytes "A\rB") ∧
    ∀ outSize, encode 7 (bytes "A\rB") outSize = none := by
  constructor
  · rw [bytes_ofList, bytes_ofList]
    decide +kernel
  · intro outSize
    have hspecial : (bytes "A\rB").any special = true := by decide
    rw [encode, hspecial, Bool.or_true, if_pos rfl]

end JaszczurHal.SerialRoundTrip
