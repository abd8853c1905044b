import JaszczurHal.HalStatus
import JaszczurHal.DecimalText

/-!
# Datagrams of an update

An invitation names a command, a port, a size and a digest; an authentication
response carries a nonce and a tag. The parsers read what is left of a datagram.
-/

set_option autoImplicit false

namespace JaszczurHal.OtaDatagram
open HalStatus DecimalText

def JH_OTA_MD5_HEX_CHARS : ℕ := 32
def JH_OTA_AUTH_TAG_HEX_CHARS : ℕ := 64

def space : UInt8 := 32
def lineFeed : UInt8 := 10
def carriageReturn : UInt8 := 13
def colon : UInt8 := 58

structure Invitation where
  command : UInt16
  tcpPort : UInt16
  imageSize : UInt32
  imageMd5 : List UInt8
  deriving DecidableEq, Repr

structure AuthResponse where
  clientNonce : List UInt8
  response : List UInt8
  deriving DecidableEq, Repr

def parseDigits (maximum : UInt32) : UInt32 → List UInt8 → Option (UInt32 × List UInt8)
  | value, [] => some (value, [])
  | value, b :: rest =>
    if digitByte b then
      let digit := b.toUInt32 - 48
      if (maximum - digit) / 10 < value then none
      else parseDigits maximum (value * 10 + digit) rest
    else some (value, b :: rest)

def parseUint (maximum : UInt32) (data : List UInt8) : Option (UInt32 × List UInt8) :=
  match data with
  | [] => none
  | first :: _ =>
    if !digitByte first then none
    else
      match parseDigits maximum 0 data with
      | none => none
      | some (value, rest) =>
        if 1 < data.length - rest.length ∧ first = 48 then none else some (value, rest)

def consumeSeparator : List UInt8 → Option (List UInt8)
  | [] => none
  | b :: rest => if b ≠ space then none else some rest

def isHex (b : UInt8) : Bool :=
  (decide (48 ≤ b) && decide (b ≤ 57)) || (decide (97 ≤ b) && decide (b ≤ 102)) ||
    (decide (65 ≤ b) && decide (b ≤ 70))

def lower (b : UInt8) : UInt8 := if 65 ≤ b ∧ b ≤ 70 then b - 65 + 97 else b

def parseHexToken : ℕ → List UInt8 → Option (List UInt8 × List UInt8)
  | 0, data => some ([], data)
  | _ + 1, [] => none
  | hexChars + 1, b :: data =>
    if !isHex b then none
    else (parseHexToken hexChars data).map fun found => (lower b :: found.1, found.2)

def consumeOptionalLineEnding : List UInt8 → Bool
  | [] => true
  | b :: rest =>
    if b = lineFeed then decide (rest = []) else decide (b = carriageReturn ∧ rest = [lineFeed])

def require (passed : Bool) : Option Unit := if passed then some () else none

def readInvitation (data : List UInt8) : Option Invitation := do
  let (command, data) ← parseUint 65535 data
  require (command = 0 || command = 100)
  let data ← consumeSeparator data
  let (port, data) ← parseUint 65535 data
  require (port ≠ 0)
  let data ← consumeSeparator data
  let (imageSize, data) ← parseUint 4294967295 data
  require (imageSize ≠ 0)
  let data ← consumeSeparator data
  let (imageMd5, data) ← parseHexToken JH_OTA_MD5_HEX_CHARS data
  require (consumeOptionalLineEnding data)
  some ⟨command.toUInt16, port.toUInt16, imageSize, imageMd5⟩

def parseInvitation (data : List UInt8) : Except Status Invitation :=
  match readInvitation data with
  | none => .error .einval
  | some invitation => .ok invitation

/-- "0 3232 1 AA...A" with a line feed. -/
example : readInvitation ([48, 32, 51, 50, 51, 50, 32, 49, 32] ++ List.replicate 32 65 ++ [10]) =
    some ⟨0, 3232, 1, List.replicate 32 97⟩ := by
  decide +kernel

def readAuthResponse (data : List UInt8) : Option AuthResponse := do
  let (command, data) ← parseUint 65535 data
  require (command = 201)
  let data ← consumeSeparator data
  let (clientNonce, data) ← parseHexToken JH_OTA_MD5_HEX_CHARS data
  let data ← consumeSeparator data
  let (response, data) ← parseHexToken JH_OTA_AUTH_TAG_HEX_CHARS data
  require (consumeOptionalLineEnding data)
  some ⟨clientNonce, response⟩

def parseAuthResponse (data : List UInt8) : Except Status AuthResponse :=
  match readAuthResponse data with
  | none => .error .einval
  | some response => .ok response

section Numbers

variable {maximum value : UInt32} {b : UInt8}

theorem digit_toNat (hb : digitByte b = true) : (b.toUInt32 - 48).toNat = digit b := by
  rw [digitByte_iff] at hb
  rw [UInt32.toNat_sub_of_le]
  · rfl
  · rw [UInt32.le_iff_toNat_le]
    exact hb.1

/-- The test before a digit is added is exact: what passes it stays within the maximum. -/
theorem room_iff (hmaximum : 9 ≤ maximum.toNat) (hb : digitByte b = true) :
    ¬(maximum - (b.toUInt32 - 48)) / 10 < value ↔
      value.toNat * 10 + digit b ≤ maximum.toNat := by
  have hdigit := digit_lt hb
  rw [UInt32.lt_iff_toNat_lt, UInt32.toNat_div, UInt32.toNat_sub_of_le, digit_toNat hb]
  · have hten : (10 : UInt32).toNat = 10 := rfl
    rw [hten]
    omega
  · rw [UInt32.le_iff_toNat_le, digit_toNat hb]
    omega

theorem next_toNat (hb : digitByte b = true)
    (hroom : value.toNat * 10 + digit b ≤ maximum.toNat) :
    (value * 10 + (b.toUInt32 - 48)).toNat = value.toNat * 10 + digit b := by
  have hlt := maximum.toNat_lt
  have hten : (10 : UInt32).toNat = 10 := rfl
  rw [UInt32.toNat_add, UInt32.toNat_mul, digit_toNat hb, hten]
  omega

theorem parseDigits_some (hmaximum : 9 ≤ maximum.toNat) {data rest : List UInt8} {found : UInt32}
    (hvalue : value.toNat ≤ maximum.toNat)
    (h : parseDigits maximum value data = some (found, rest)) :
    ∃ digits, data = digits ++ rest ∧ (∀ b ∈ digits, digitByte b = true) ∧ Stops rest ∧
      found.toNat = valueFrom value.toNat digits ∧ found.toNat ≤ maximum.toNat := by
  induction data generalizing value with
  | nil =>
    simp only [parseDigits, Option.some.injEq, Prod.mk.injEq] at h
    rw [← h.1, ← h.2]
    exact ⟨[], rfl, by simp, by simp [Stops], rfl, hvalue⟩
  | cons b data ih =>
    rw [parseDigits] at h
    by_cases hb : digitByte b = true
    · rw [if_pos hb] at h
      dsimp only at h
      by_cases hroom : (maximum - (b.toUInt32 - 48)) / 10 < value
      · rw [if_pos hroom] at h
        contradiction
      · rw [if_neg hroom] at h
        have hle := (room_iff hmaximum hb).mp hroom
        have hnext := next_toNat hb hle
        obtain ⟨digits, hdata, hdigits, hstops, hfound, hmost⟩ := ih (by omega) h
        refine ⟨b :: digits, by rw [hdata]; rfl, ?_, hstops, ?_, hmost⟩
        · intro c hc
          cases hc with
          | head => exact hb
          | tail _ hc => exact hdigits c hc
        · rw [hfound, hnext]
          rfl
    · rw [if_neg hb] at h
      simp only [Option.some.injEq, Prod.mk.injEq] at h
      rw [← h.1, ← h.2]
      exact ⟨[], rfl, by simp, stops_cons (by simpa using hb), rfl, hvalue⟩

theorem parseDigits_reads (hmaximum : 9 ≤ maximum.toNat) {digits rest : List UInt8}
    (hdigits : ∀ b ∈ digits, digitByte b = true) (hstops : Stops rest)
    (hmost : valueFrom value.toNat digits ≤ maximum.toNat) :
    ∃ found, parseDigits maximum value (digits ++ rest) = some (found, rest) ∧
      found.toNat = valueFrom value.toNat digits := by
  induction digits generalizing value with
  | nil =>
    refine ⟨value, ?_, rfl⟩
    cases rest with
    | nil => rfl
    | cons b rest =>
      rw [List.nil_append, parseDigits, if_neg (by simp [hstops b rfl])]
  | cons b digits ih =>
    have hb := hdigits b (by simp)
    have hle := valueFrom_ge (value.toNat * 10 + digit b) digits
    have hroom : value.toNat * 10 + digit b ≤ maximum.toNat := Nat.le_trans hle hmost
    have hnext := next_toNat hb hroom
    obtain ⟨found, hfound, hnat⟩ := @ih (value * 10 + (b.toUInt32 - 48))
      (fun c hc => hdigits c (by simp [hc])) (by rw [hnext]; exact hmost)
    refine ⟨found, ?_, ?_⟩
    · rw [List.cons_append, parseDigits, if_pos hb]
      dsimp only
      rw [if_neg ((room_iff hmaximum hb).mpr hroom)]
      exact hfound
    · rw [hnat, hnext]
      rfl

/-- Exactly the shortest texts of the numbers up to the maximum are read. -/
theorem parseUint_iff (hmaximum : 9 ≤ maximum.toNat) {data rest : List UInt8} :
    parseUint maximum data = some (value, rest) ↔
      data = decimal value.toNat ++ rest ∧ value.toNat ≤ maximum.toNat ∧ Stops rest := by
  constructor
  · intro h
    cases data with
    | nil => simp [parseUint] at h
    | cons first data =>
      simp only [parseUint] at h
      by_cases hfirst : digitByte first = true
      · rw [if_neg (by simp [hfirst])] at h
        cases hparse : parseDigits maximum 0 (first :: data) with
        | none => simp [hparse] at h
        | some found =>
          rw [hparse] at h
          dsimp only at h
          by_cases hlead : 1 < (first :: data).length - found.2.length ∧ first = 48
          · rw [if_pos hlead] at h
            contradiction
          · rw [if_neg hlead] at h
            cases h
            obtain ⟨digits, hdata, hdigits, hstops, hvalue, hmost⟩ :=
              parseDigits_some hmaximum (by simp) hparse
            have hshort : Shortest digits := by
              constructor
              · exact hdigits
              · intro hnil
                rw [hnil, List.nil_append] at hdata
                rw [hstops first (by rw [← hdata]; rfl)] at hfirst
                contradiction
              · intro hlong hhead
                apply hlead
                rw [hdata, List.length_append, Nat.add_sub_cancel]
                refine ⟨hlong, ?_⟩
                have hheads := congrArg List.head? hdata
                rw [head_append (by intro hnil; rw [hnil] at hlong; contradiction), hhead] at hheads
                exact Option.some.inj hheads
            refine ⟨?_, hmost, hstops⟩
            rw [hvalue, show (0 : UInt32).toNat = 0 from rfl, decimal_value hshort]
            exact hdata
      · rw [if_pos (by simp [hfirst])] at h
        contradiction
  · intro h
    obtain ⟨hdata, hmost, hstops⟩ := h
    have hshort := decimal_shortest value.toNat
    obtain ⟨found, hfound, hnat⟩ := @parseDigits_reads maximum 0 hmaximum _ _ hshort.digits hstops
      (by rw [show (0 : UInt32).toNat = 0 from rfl, valueFrom_decimal]; exact hmost)
    rw [show (0 : UInt32).toNat = 0 from rfl, valueFrom_decimal] at hnat
    have hsame : found = value := UInt32.toNat_inj.mp hnat
    rw [hsame, ← hdata] at hfound
    cases data with
    | nil =>
      have hnil := congrArg List.length hdata
      have hpos := List.length_pos_iff.mpr (decimal_ne_nil value.toNat)
      simp at hnil
      omega
    | cons first data =>
      have hhead : (decimal value.toNat).head? = some first := by
        rw [← head_append hshort.nonempty, ← hdata]
        rfl
      have hfirst := hshort.digits first (List.mem_of_mem_head? hhead)
      simp only [parseUint, hfirst, Bool.not_true, Bool.false_eq_true, if_false, hfound]
      rw [if_neg]
      intro hlead
      rw [hdata, List.length_append, Nat.add_sub_cancel] at hlead
      rw [hlead.2] at hhead
      exact hshort.leading hlead.1 hhead

end Numbers

section Tokens

theorem consumeSeparator_iff {data rest : List UInt8} :
    consumeSeparator data = some rest ↔ data = space :: rest := by
  cases data with
  | nil => simp [consumeSeparator]
  | cons b data =>
    by_cases hb : b = space
    · simp [consumeSeparator, hb]
    · simp [consumeSeparator, hb]

def HexText (n : ℕ) (text : List UInt8) : Prop :=
  text.length = n ∧ ∀ b ∈ text, isHex b = true

theorem parseHexToken_iff {n : ℕ} {data text rest : List UInt8} :
    parseHexToken n data = some (text, rest) ↔
      ∃ hex, HexText n hex ∧ text = hex.map lower ∧ data = hex ++ rest := by
  induction n generalizing data text with
  | zero =>
    simp only [parseHexToken, Option.some.injEq, Prod.mk.injEq, HexText, List.length_eq_zero_iff]
    constructor
    · intro h
      exact ⟨[], by simp, by simp [← h.1], by simp [h.2]⟩
    · intro h
      obtain ⟨hex, hhex, htext, hdata⟩ := h
      simp [htext, hdata, hhex.1]
  | succ n ih =>
    cases data with
    | nil =>
      simp only [parseHexToken]
      constructor
      · intro h
        contradiction
      · intro h
        obtain ⟨hex, hhex, _, hdata⟩ := h
        have hnil := (List.append_eq_nil_iff.mp hdata.symm).1
        rw [hnil] at hhex
        have hlength := hhex.1
        simp at hlength
    | cons b data =>
      simp only [parseHexToken]
      by_cases hb : isHex b = true
      · rw [if_neg (by simp [hb]), Option.map_eq_some_iff]
        constructor
        · intro h
          obtain ⟨found, hfound, hpair⟩ := h
          cases hpair
          obtain ⟨hex, hhex, htext, hdata⟩ := (@ih data found.1).mp hfound
          refine ⟨b :: hex, ⟨by simp [hhex.1], ?_⟩, by simp [htext], by simp [hdata]⟩
          intro c hc
          cases hc with
          | head => exact hb
          | tail _ hc => exact hhex.2 c hc
        · intro h
          obtain ⟨hex, hhex, htext, hdata⟩ := h
          cases hex with
          | nil =>
            have hlength := hhex.1
            simp at hlength
          | cons c hex =>
            have hlength := hhex.1
            simp only [List.length_cons, Nat.add_right_cancel_iff] at hlength
            rw [List.cons_append, List.cons.injEq] at hdata
            have htail := (@ih data (hex.map lower)).mpr
              ⟨hex, ⟨hlength, fun d hd => hhex.2 d (by simp [hd])⟩, rfl, hdata.2⟩
            refine ⟨(hex.map lower, rest), htail, ?_⟩
            rw [htext, hdata.1]
            rfl
      · rw [if_pos (by simp [hb])]
        constructor
        · intro h
          contradiction
        · intro h
          obtain ⟨hex, hhex, _, hdata⟩ := h
          cases hex with
          | nil =>
            have hlength := hhex.1
            simp at hlength
          | cons c hex =>
            rw [List.cons_append, List.cons.injEq] at hdata
            rw [hdata.1] at hb
            exact absurd (hhex.2 c (by simp)) hb

inductive LineEnding : List UInt8 → Prop
  | none : LineEnding []
  | lf : LineEnding [lineFeed]
  | crlf : LineEnding [carriageReturn, lineFeed]

theorem consumeOptionalLineEnding_iff {data : List UInt8} :
    consumeOptionalLineEnding data = true ↔ LineEnding data := by
  constructor
  · intro h
    cases data with
    | nil => exact .none
    | cons b rest =>
      by_cases hb : b = lineFeed
      · rw [consumeOptionalLineEnding, if_pos hb, decide_eq_true_eq] at h
        rw [hb, h]
        exact .lf
      · rw [consumeOptionalLineEnding, if_neg hb, decide_eq_true_eq] at h
        rw [h.1, h.2]
        exact .crlf
  · intro h
    cases h with
    | none => rfl
    | lf => rfl
    | crlf => rfl

end Tokens

section Messages

/-- The text of an invitation: shortest numbers, single spaces, a digest in either case. -/
def InvitationText (data : List UInt8) (i : Invitation) : Prop :=
  (i.command = 0 ∨ i.command = 100) ∧ i.tcpPort ≠ 0 ∧ i.imageSize ≠ 0 ∧
    ∃ md5 ending, HexText JH_OTA_MD5_HEX_CHARS md5 ∧ LineEnding ending ∧
      i.imageMd5 = md5.map lower ∧
      data = decimal i.command.toNat ++ space :: (decimal i.tcpPort.toNat ++
        space :: (decimal i.imageSize.toNat ++ space :: (md5 ++ ending)))

def AuthResponseText (data : List UInt8) (r : AuthResponse) : Prop :=
  ∃ nonce tag ending, HexText JH_OTA_MD5_HEX_CHARS nonce ∧
    HexText JH_OTA_AUTH_TAG_HEX_CHARS tag ∧ LineEnding ending ∧
    r.clientNonce = nonce.map lower ∧ r.response = tag.map lower ∧
    data = decimal 201 ++ space :: (nonce ++ space :: (tag ++ ending))

theorem stops_space (rest : List UInt8) : Stops (space :: rest) := stops_cons (by decide)

theorem require_iff {passed : Bool} {u : Unit} : require passed = some u ↔ passed = true := by
  cases passed <;> simp [require]

theorem toUInt16_toNat {v : UInt32} (h : v.toNat ≤ 65535) : v.toUInt16.toNat = v.toNat := by
  rw [UInt32.toNat_toUInt16]
  omega

theorem toUInt32_toUInt16 (v : UInt16) : v.toUInt32.toUInt16 = v := by simp

theorem number16 (v : UInt16) : v.toUInt32.toNat ≤ (65535 : UInt32).toNat := by
  have hlt := v.toNat_lt
  rw [UInt16.toNat_toUInt32]
  exact Nat.le_of_lt_succ hlt

theorem number32 (v : UInt32) : v.toNat ≤ (4294967295 : UInt32).toNat := by
  have hlt := v.toNat_lt
  exact Nat.le_of_lt_succ hlt

theorem readInvitation_iff {data : List UInt8} {i : Invitation} :
    readInvitation data = some i ↔ InvitationText data i := by
  have hwide : 9 ≤ (65535 : UInt32).toNat := by decide
  have hwider : 9 ≤ (4294967295 : UInt32).toNat := by decide
  constructor
  · intro h
    simp only [readInvitation, Option.bind_eq_bind, Option.bind_eq_some_iff] at h
    obtain ⟨⟨command, data₁⟩, hcommand, _, hknown, data₂, hspace₁, ⟨port, data₃⟩, hport, _,
      hopen, data₄, hspace₂, ⟨size, data₅⟩, hsize, _, hsome, data₆, hspace₃, ⟨md5, data₇⟩, hmd5,
      _, hending, hresult⟩ := h
    obtain ⟨hdata, hcommandMost, _⟩ := (parseUint_iff hwide).mp hcommand
    obtain ⟨hdata₂, hportMost, _⟩ := (parseUint_iff hwide).mp hport
    obtain ⟨hdata₄, _, _⟩ := (parseUint_iff hwider).mp hsize
    obtain ⟨hex, hhex, htext, hdata₆⟩ := parseHexToken_iff.mp hmd5
    have hend := consumeOptionalLineEnding_iff.mp (require_iff.mp hending)
    simp only [require_iff, Bool.or_eq_true, decide_eq_true_eq] at hknown hopen hsome
    cases hresult
    refine ⟨?_, ?_, hsome, hex, data₇, hhex, hend, htext, ?_⟩
    · cases hknown with
      | inl hzero => exact Or.inl (by simp [hzero])
      | inr hhundred => exact Or.inr (by simp [hhundred])
    · intro hzero
      apply hopen
      dsimp only at hzero
      rw [← UInt32.toNat_inj, ← toUInt16_toNat hportMost, hzero]
      rfl
    · dsimp only
      rw [toUInt16_toNat hcommandMost, toUInt16_toNat hportMost, ← hdata₆,
        ← consumeSeparator_iff.mp hspace₃, ← hdata₄, ← consumeSeparator_iff.mp hspace₂, ← hdata₂,
        ← consumeSeparator_iff.mp hspace₁]
      exact hdata
  · intro h
    obtain ⟨hknown, hopen, hsome, hex, ending, hhex, hend, htext, hdata⟩ := h
    simp only [readInvitation, Option.bind_eq_bind, Option.bind_eq_some_iff]
    refine ⟨(i.command.toUInt32, _), (parseUint_iff hwide).mpr ⟨by
        rw [UInt16.toNat_toUInt32]; exact hdata, number16 _, stops_space _⟩,
      (), require_iff.mpr ?_, _, consumeSeparator_iff.mpr rfl,
      (i.tcpPort.toUInt32, _), (parseUint_iff hwide).mpr ⟨by
        rw [UInt16.toNat_toUInt32], number16 _, stops_space _⟩,
      (), require_iff.mpr ?_, _, consumeSeparator_iff.mpr rfl,
      (i.imageSize, _), (parseUint_iff hwider).mpr ⟨rfl, number32 _, stops_space _⟩,
      (), require_iff.mpr (by simpa using hsome), _, consumeSeparator_iff.mpr rfl,
      (i.imageMd5, _), parseHexToken_iff.mpr ⟨hex, hhex, htext, rfl⟩,
      (), require_iff.mpr (consumeOptionalLineEnding_iff.mpr hend), ?_⟩
    · cases hknown with
      | inl hzero => simp [hzero]
      | inr hhundred => simp [hhundred]
    · simp only [decide_eq_true_eq]
      intro hzero
      apply hopen
      rw [← toUInt32_toUInt16 i.tcpPort, hzero]
      rfl
    · simp

theorem readAuthResponse_iff {data : List UInt8} {r : AuthResponse} :
    readAuthResponse data = some r ↔ AuthResponseText data r := by
  have hwide : 9 ≤ (65535 : UInt32).toNat := by decide
  constructor
  · intro h
    simp only [readAuthResponse, Option.bind_eq_bind, Option.bind_eq_some_iff] at h
    obtain ⟨⟨command, data₁⟩, hcommand, _, hknown, data₂, hspace₁, ⟨nonce, data₃⟩, hnonce, data₄,
      hspace₂, ⟨tag, data₅⟩, htag, _, hending, hresult⟩ := h
    obtain ⟨hdata, _, _⟩ := (parseUint_iff hwide).mp hcommand
    obtain ⟨nonceHex, hnonceHex, hnonceText, hdata₂⟩ := parseHexToken_iff.mp hnonce
    obtain ⟨tagHex, htagHex, htagText, hdata₄⟩ := parseHexToken_iff.mp htag
    have hend := consumeOptionalLineEnding_iff.mp (require_iff.mp hending)
    simp only [require_iff, decide_eq_true_eq] at hknown
    cases hresult
    refine ⟨nonceHex, tagHex, data₅, hnonceHex, htagHex, hend, hnonceText, htagText, ?_⟩
    rw [← hdata₄, ← consumeSeparator_iff.mp hspace₂, ← hdata₂, ← consumeSeparator_iff.mp hspace₁]
    rw [hknown] at hdata
    exact hdata
  · intro h
    obtain ⟨nonceHex, tagHex, ending, hnonceHex, htagHex, hend, hnonceText, htagText, hdata⟩ := h
    simp only [readAuthResponse, Option.bind_eq_bind, Option.bind_eq_some_iff]
    exact ⟨(201, _), (parseUint_iff hwide).mpr ⟨hdata, by decide, stops_space _⟩,
      (), require_iff.mpr rfl, _, consumeSeparator_iff.mpr rfl,
      (r.clientNonce, _), parseHexToken_iff.mpr ⟨nonceHex, hnonceHex, hnonceText, rfl⟩,
      _, consumeSeparator_iff.mpr rfl,
      (r.response, _), parseHexToken_iff.mpr ⟨tagHex, htagHex, htagText, rfl⟩,
      (), require_iff.mpr (consumeOptionalLineEnding_iff.mpr hend), rfl⟩

/-- An invitation is accepted exactly if it has the documented text. -/
theorem parseInvitation_iff {data : List UInt8} {i : Invitation} :
    parseInvitation data = .ok i ↔ InvitationText data i := by
  rw [← readInvitation_iff, parseInvitation]
  cases readInvitation data <;> simp

/-- An authentication response is accepted exactly if it has the documented text. -/
theorem parseAuthResponse_iff {data : List UInt8} {r : AuthResponse} :
    parseAuthResponse data = .ok r ↔ AuthResponseText data r := by
  rw [← readAuthResponse_iff, parseAuthResponse]
  cases readAuthResponse data <;> simp

end Messages

def JH_OTA_AUTH_TRANSCRIPT_BUFFER_SIZE : ℕ := 192

def boundedStringLength (value : List UInt8) (capacity : ℕ) : ℕ :=
  ((value.take capacity).takeWhile fun b => b ≠ 0).length

def normalizeHexToken (input : List UInt8) (hexChars : ℕ) : Option (List UInt8) :=
  if boundedStringLength input (hexChars + 1) ≠ hexChars then none
  else if (input.take hexChars).all isHex then some ((input.take hexChars).map lower)
  else none

def label : List UInt8 := [74, 72, 79, 84, 65, 45, 65, 85, 84, 72, 45, 50, 58]

def transcript (i : Invitation) (imageMd5 deviceNonce clientNonce : List UInt8) : List UInt8 :=
  label ++ (decimal i.command.toNat ++ colon :: (decimal i.tcpPort.toNat ++
    colon :: (decimal i.imageSize.toNat ++ colon :: (imageMd5 ++
      colon :: (deviceNonce ++ colon :: clientNonce)))))

/-- `jh_ota_format_auth_transcript`; with an error the text is empty. -/
def formatAuthTranscript (i : Invitation) (deviceNonce clientNonce : List UInt8) (outSize : ℕ) :
    Except Status (List UInt8) :=
  if outSize = 0 ∨ (i.command ≠ 0 ∧ i.command ≠ 100) ∨ i.tcpPort = 0 ∨ i.imageSize = 0 then
    .error .einval
  else
    match normalizeHexToken i.imageMd5 JH_OTA_MD5_HEX_CHARS,
      normalizeHexToken deviceNonce JH_OTA_MD5_HEX_CHARS,
      normalizeHexToken clientNonce JH_OTA_MD5_HEX_CHARS with
    | some imageMd5, some device, some client =>
      let text := transcript i imageMd5 device client
      if text.length = 0 ∨ outSize ≤ text.length then .error .eoverflow else .ok text
    | _, _, _ => .error .einval

def hexDigit (nibble : UInt8) : UInt8 := if nibble < 10 then 48 + nibble else 97 + (nibble - 10)

def digestToHex (digest : List UInt8) : List UInt8 :=
  digest.flatMap fun b : UInt8 => [hexDigit (b >>> 4), hexDigit (b &&& 0x0F)]

def Normalized (n : ℕ) (text : List UInt8) : Prop := HexText n text ∧ text.map lower = text

section Digits

theorem isHex_range (b : UInt8) : isHex b = true ↔ (48 ≤ b.toNat ∧ b.toNat ≤ 57) ∨
    (97 ≤ b.toNat ∧ b.toNat ≤ 102) ∨ (65 ≤ b.toNat ∧ b.toNat ≤ 70) := by
  simp [isHex, UInt8.le_iff_toNat_le, or_assoc]

theorem lower_toNat (b : UInt8) :
    (lower b).toNat = if 65 ≤ b.toNat ∧ b.toNat ≤ 70 then b.toNat + 32 else b.toNat := by
  unfold lower
  simp only [UInt8.le_iff_toNat_le]
  by_cases h : 65 ≤ b.toNat ∧ b.toNat ≤ 70
  · have hlow : (65 : UInt8).toNat = 65 := rfl
    have hhigh : (70 : UInt8).toNat = 70 := rfl
    rw [hlow, hhigh, if_pos h, if_pos h, UInt8.toNat_add, UInt8.toNat_sub_of_le]
    · have hstart : (97 : UInt8).toNat = 97 := rfl
      rw [hlow, hstart]
      omega
    · rw [UInt8.le_iff_toNat_le]
      exact h.1
  · have hlow : (65 : UInt8).toNat = 65 := rfl
    have hhigh : (70 : UInt8).toNat = 70 := rfl
    rw [hlow, hhigh, if_neg h, if_neg h]

theorem lower_hex {b : UInt8} (h : isHex b = true) : isHex (lower b) = true := by
  rw [isHex_range] at h ⊢
  rw [lower_toNat]
  by_cases hupper : 65 ≤ b.toNat ∧ b.toNat ≤ 70
  · rw [if_pos hupper]
    omega
  · rw [if_neg hupper]
    exact h

theorem lower_lower (b : UInt8) : lower (lower b) = lower b := by
  rw [← UInt8.toNat_inj, lower_toNat]
  by_cases hupper : 65 ≤ b.toNat ∧ b.toNat ≤ 70
  · rw [lower_toNat, if_pos hupper, if_neg (by omega)]
  · rw [lower_toNat, if_neg hupper, if_neg hupper]

theorem lowered_normalized {n : ℕ} {text : List UInt8} (h : HexText n text) :
    Normalized n (text.map lower) := by
  constructor
  · constructor
    · rw [List.length_map]
      exact h.1
    · intro b hb
      obtain ⟨c, hc, hlower⟩ := List.mem_map.mp hb
      rw [← hlower]
      exact lower_hex (h.2 c hc)
  · rw [List.map_map]
    apply List.map_congr_left
    intro b _
    exact lower_lower b

theorem hexDigit_lower : ∀ nibble : Fin 16,
    isHex (hexDigit (UInt8.ofNat nibble)) = true ∧
      lower (hexDigit (UInt8.ofNat nibble)) = hexDigit (UInt8.ofNat nibble) := by
  decide

theorem hexDigit_of_lt {nibble : UInt8} (h : nibble.toNat < 16) :
    isHex (hexDigit nibble) = true ∧ lower (hexDigit nibble) = hexDigit nibble := by
  have hdigit := hexDigit_lower ⟨nibble.toNat, h⟩
  rw [UInt8.ofNat_toNat] at hdigit
  exact hdigit

theorem digestToHex_normalized (digest : List UInt8) :
    Normalized (2 * digest.length) (digestToHex digest) := by
  induction digest with
  | nil => exact ⟨⟨rfl, by simp [digestToHex]⟩, rfl⟩
  | cons b digest ih =>
    have hhigh : (b >>> 4).toNat < 16 := by
      have hb := b.toNat_lt
      rw [UInt8.toNat_shiftRight, show (4 : UInt8).toNat % 8 = 4 from rfl, Nat.shiftRight_eq_div_pow]
      omega
    have hlow : (b &&& 0x0F).toNat < 16 := by
      rw [UInt8.toNat_and]
      exact Nat.lt_of_le_of_lt Nat.and_le_right (by decide)
    have hfirst := hexDigit_of_lt hhigh
    have hsecond := hexDigit_of_lt hlow
    have hcons : digestToHex (b :: digest) =
        hexDigit (b >>> 4) :: hexDigit (b &&& 0x0F) :: digestToHex digest := rfl
    rw [hcons]
    constructor
    · constructor
      · rw [List.length_cons, List.length_cons, List.length_cons, ih.1.1]
        omega
      · intro c hc
        simp only [List.mem_cons] at hc
        rcases hc with rfl | rfl | hc
        · exact hfirst.1
        · exact hsecond.1
        · exact ih.1.2 c hc
    · rw [List.map_cons, List.map_cons, hfirst.2, hsecond.2, ih.2]

end Digits

section Texts

theorem hex_ne_zero {b : UInt8} (h : isHex b = true) : b ≠ 0 := by
  intro hzero
  rw [hzero] at h
  contradiction

theorem normalizeHexToken_some {input text : List UInt8} {n : ℕ}
    (h : normalizeHexToken input n = some text) : Normalized n text := by
  unfold normalizeHexToken at h
  by_cases hlength : boundedStringLength input (n + 1) = n
  · rw [if_neg (by simp [hlength])] at h
    by_cases hhex : (input.take n).all isHex = true
    · rw [if_pos hhex] at h
      cases h
      apply lowered_normalized
      constructor
      · have hle : boundedStringLength input (n + 1) ≤ input.length := by
          unfold boundedStringLength
          have htake := (List.takeWhile_sublist (fun b : UInt8 => decide (b ≠ 0))
            (l := input.take (n + 1))).length_le
          have hinput := List.length_take_le' (n + 1) input
          omega
        rw [List.length_take]
        omega
      · intro b hb
        exact List.all_eq_true.mp hhex b hb
    · rw [if_neg hhex] at h
      contradiction
  · rw [if_pos hlength] at h
    contradiction

theorem normalizeHexToken_self {text : List UInt8} {n : ℕ} (h : Normalized n text) :
    normalizeHexToken text n = some text := by
  have htake : ∀ m, n ≤ m → text.take m = text := by
    intro m hm
    apply List.take_of_length_le
    rw [h.1.1]
    exact hm
  have hwhile : text.takeWhile (fun b => decide (b ≠ 0)) = text := by
    have happend := @List.takeWhile_append_of_pos _ (fun b : UInt8 => decide (b ≠ 0)) text []
      (fun b hb => by simpa using hex_ne_zero (h.1.2 b hb))
    simpa using happend
  have hlength : boundedStringLength text (n + 1) = n := by
    rw [boundedStringLength, htake (n + 1) (by omega), hwhile, h.1.1]
  rw [normalizeHexToken, if_neg (by simp [hlength]), htake n (Nat.le_refl n), if_pos, h.2]
  rw [List.all_eq_true]
  exact h.1.2

theorem stops_colon (rest : List UInt8) : Stops (colon :: rest) := stops_cons (by decide)

theorem fixed_append_inj {n : ℕ} {text text' rest rest' : List UInt8} (h : text.length = n)
    (h' : text'.length = n) (heq : text ++ colon :: rest = text' ++ colon :: rest') :
    text = text' ∧ rest = rest' := by
  have hsplit := List.append_inj heq (by rw [h, h'])
  exact ⟨hsplit.1, (List.cons.inj hsplit.2).2⟩

theorem transcript_inj {n : ℕ} {i i' : Invitation} {md5 md5' device device' client client' : List UInt8}
    (hmd5 : md5.length = n) (hmd5' : md5'.length = n)
    (hdevice : device.length = n) (hdevice' : device'.length = n)
    (h : transcript i md5 device client = transcript i' md5' device' client') :
    i.command = i'.command ∧ i.tcpPort = i'.tcpPort ∧ i.imageSize = i'.imageSize ∧
      md5 = md5' ∧ device = device' ∧ client = client' := by
  have hfields := (List.append_inj h rfl).2
  have hcommand := decimal_append_inj (stops_colon _) (stops_colon _) hfields
  have hport := decimal_append_inj (stops_colon _) (stops_colon _) (List.cons.inj hcommand.2).2
  have hsize := decimal_append_inj (stops_colon _) (stops_colon _) (List.cons.inj hport.2).2
  have hdigest := fixed_append_inj hmd5 hmd5' (List.cons.inj hsize.2).2
  have hnonce := fixed_append_inj hdevice hdevice' hdigest.2
  exact ⟨UInt16.toNat_inj.mp hcommand.1, UInt16.toNat_inj.mp hport.1,
    UInt32.toNat_inj.mp hsize.1, hdigest.1, hnonce.1, hnonce.2⟩

end Texts

section Formatting

variable {i : Invitation} {device client text : List UInt8} {outSize : ℕ}

/-- A text that is formatted is the transcript of the normalized fields. -/
theorem formatAuthTranscript_some (h : formatAuthTranscript i device client outSize = .ok text) :
    ∃ md5 device' client', normalizeHexToken i.imageMd5 JH_OTA_MD5_HEX_CHARS = some md5 ∧
      normalizeHexToken device JH_OTA_MD5_HEX_CHARS = some device' ∧
      normalizeHexToken client JH_OTA_MD5_HEX_CHARS = some client' ∧
      text = transcript i md5 device' client' := by
  unfold formatAuthTranscript at h
  split at h
  · contradiction
  · cases hmd5 : normalizeHexToken i.imageMd5 JH_OTA_MD5_HEX_CHARS with
    | none => simp [hmd5] at h
    | some md5 =>
      cases hdevice : normalizeHexToken device JH_OTA_MD5_HEX_CHARS with
      | none => simp [hmd5, hdevice] at h
      | some device' =>
        cases hclient : normalizeHexToken client JH_OTA_MD5_HEX_CHARS with
        | none => simp [hmd5, hdevice, hclient] at h
        | some client' =>
          simp only [hmd5, hdevice, hclient] at h
          split at h
          · contradiction
          · cases h
            exact ⟨md5, device', client', rfl, rfl, rfl, rfl⟩

/-- Two calls that write one text were given the same numbers, and the same digits up
to their case. -/
theorem formatAuthTranscript_same {i' : Invitation} {device' client' : List UInt8} {outSize' : ℕ}
    (h : formatAuthTranscript i device client outSize = .ok text)
    (h' : formatAuthTranscript i' device' client' outSize' = .ok text) :
    i.command = i'.command ∧ i.tcpPort = i'.tcpPort ∧ i.imageSize = i'.imageSize ∧
      normalizeHexToken i.imageMd5 JH_OTA_MD5_HEX_CHARS =
        normalizeHexToken i'.imageMd5 JH_OTA_MD5_HEX_CHARS ∧
      normalizeHexToken device JH_OTA_MD5_HEX_CHARS =
        normalizeHexToken device' JH_OTA_MD5_HEX_CHARS ∧
      normalizeHexToken client JH_OTA_MD5_HEX_CHARS =
        normalizeHexToken client' JH_OTA_MD5_HEX_CHARS := by
  obtain ⟨md5, d, c, hmd5, hd, hc, htext⟩ := formatAuthTranscript_some h
  obtain ⟨md5', d', c', hmd5', hd', hc', htext'⟩ := formatAuthTranscript_some h'
  rw [htext] at htext'
  have hfields := transcript_inj (normalizeHexToken_some hmd5).1.1
    (normalizeHexToken_some hmd5').1.1 (normalizeHexToken_some hd).1.1
    (normalizeHexToken_some hd').1.1 htext'
  rw [hmd5, hmd5', hd, hd', hc, hc', hfields.2.2.2.1, hfields.2.2.2.2.1, hfields.2.2.2.2.2]
  exact ⟨hfields.1, hfields.2.1, hfields.2.2.1, rfl, rfl, rfl⟩

def AcceptedInvitation (i : Invitation) : Prop := ∃ data, parseInvitation data = .ok i

def AcceptedNonce (nonce : List UInt8) : Prop :=
  ∃ data r, parseAuthResponse data = .ok r ∧ r.clientNonce = nonce

theorem accepted_digest (h : AcceptedInvitation i) : Normalized JH_OTA_MD5_HEX_CHARS i.imageMd5 := by
  obtain ⟨data, hdata⟩ := h
  obtain ⟨_, _, _, md5, _, hhex, _, hmd5, _⟩ := parseInvitation_iff.mp hdata
  rw [hmd5]
  exact lowered_normalized hhex

theorem accepted_nonce (h : AcceptedNonce client) : Normalized JH_OTA_MD5_HEX_CHARS client := by
  obtain ⟨data, r, hdata, hnonce⟩ := h
  obtain ⟨nonce, _, _, hhex, _, _, htext, _⟩ := parseAuthResponse_iff.mp hdata
  rw [← hnonce, htext]
  exact lowered_normalized hhex

/-- The buffer of the callers holds every accepted exchange. -/
theorem formatAuthTranscript_fits (hi : AcceptedInvitation i)
    (hdevice : Normalized JH_OTA_MD5_HEX_CHARS device) (hclient : AcceptedNonce client) :
    formatAuthTranscript i device client JH_OTA_AUTH_TRANSCRIPT_BUFFER_SIZE =
      .ok (transcript i i.imageMd5 device client) := by
  have hmd5 := accepted_digest hi
  have hnonce := accepted_nonce hclient
  have hcommand := decimal_length (show i.command.toNat < 10 ^ 5 by have := i.command.toNat_lt; omega)
  have hport := decimal_length (show i.tcpPort.toNat < 10 ^ 5 by have := i.tcpPort.toNat_lt; omega)
  have hsize := decimal_length
    (show i.imageSize.toNat < 10 ^ 10 by have := i.imageSize.toNat_lt; omega)
  have hlength : (transcript i i.imageMd5 device client).length ≤ 134 := by
    have h1 := hmd5.1.1
    have h2 := hdevice.1.1
    have h3 := hnonce.1.1
    unfold JH_OTA_MD5_HEX_CHARS at h1 h2 h3
    simp only [transcript, List.length_append, List.length_cons, h1, h2, h3,
      show label.length = 13 from rfl]
    omega
  have hpositive : 0 < (transcript i i.imageMd5 device client).length := by
    simp [transcript, label]
  obtain ⟨data, hdata⟩ := hi
  obtain ⟨hknown, hopen, hsome, _⟩ := parseInvitation_iff.mp hdata
  unfold formatAuthTranscript JH_OTA_AUTH_TRANSCRIPT_BUFFER_SIZE
  rw [if_neg, normalizeHexToken_self hmd5, normalizeHexToken_self hdevice,
    normalizeHexToken_self hnonce]
  · dsimp only
    rw [if_neg (by omega)]
  · intro h
    rcases h with h | h | h | h
    · contradiction
    · cases hknown with
      | inl hzero => exact h.1 hzero
      | inr hhundred => exact h.2 hhundred
    · exact hopen h
    · exact hsome h

end Formatting

/-- The parsers accept exactly the documented datagrams, and no two accepted exchanges
have one text. -/
theorem exchanges_bound :
    (∀ data i, parseInvitation data = .ok i ↔ InvitationText data i) ∧
      (∀ data r, parseAuthResponse data = .ok r ↔ AuthResponseText data r) ∧
      ∀ i i' device device' client client' outSize outSize' text,
        AcceptedInvitation i → AcceptedInvitation i' →
        Normalized JH_OTA_MD5_HEX_CHARS device → Normalized JH_OTA_MD5_HEX_CHARS device' →
        AcceptedNonce client → AcceptedNonce client' →
        formatAuthTranscript i device client outSize = .ok text →
        formatAuthTranscript i' device' client' outSize' = .ok text →
        i = i' ∧ device = device' ∧ client = client' := by
  refine ⟨fun _ _ => parseInvitation_iff, fun _ _ => parseAuthResponse_iff, ?_⟩
  intro i i' device device' client client' outSize outSize' text hi hi' hdevice hdevice' hclient
    hclient' h h'
  have hsame := formatAuthTranscript_same h h'
  rw [normalizeHexToken_self (accepted_digest hi), normalizeHexToken_self (accepted_digest hi'),
    normalizeHexToken_self hdevice, normalizeHexToken_self hdevice',
    normalizeHexToken_self (accepted_nonce hclient),
    normalizeHexToken_self (accepted_nonce hclient')] at hsame
  obtain ⟨hcommand, hport, hsize, hdigest, hserver, hnonce⟩ := hsame
  refine ⟨?_, Option.some.inj hserver, Option.some.inj hnonce⟩
  cases i
  cases i'
  simp_all

end JaszczurHal.OtaDatagram
