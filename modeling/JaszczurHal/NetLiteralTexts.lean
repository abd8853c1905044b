import JaszczurHal.ByteImage
import JaszczurHal.DecimalText
import JaszczurHal.WordBits
import Mathlib.Data.List.TakeWhile
import Mathlib.Tactic

/-!
# Address literals

The parsers of IPv4 and IPv6 literals and the IPv6 formatter. A C string is the
list of its bytes before the NUL.
-/

set_option autoImplicit false

namespace JaszczurHal.NetLiterals
open ByteImage DecimalText

def dot : UInt8 := 46
def colon : UInt8 := 58
def percent : UInt8 := 37

def scanOctet : List UInt8 → ℕ → Option (ℕ × List UInt8)
  | [], value => some (value, [])
  | c :: cursor, value =>
    if digitByte c then
      if 255 < value*10+digit c then none else scanOctet cursor (value*10+digit c)
    else some (value, c :: cursor)

def parseOctets (more : ℕ) (cursor : List UInt8) : Option (List UInt8) :=
  if cursor.head?.any digitByte then
    match scanOctet cursor 0 with
    | none => none
    | some (value, cursor) =>
      match more, cursor with
      | 0, [] => some [UInt8.ofNat value]
      | 0, _ :: _ => none
      | _+1, [] => none
      | more+1, c :: cursor =>
        if c = dot then (parseOctets more cursor).map (UInt8.ofNat value :: ·) else none
  else none

def parseIpv4Literal (src : List UInt8) : Option (List UInt8) := parseOctets 3 src

def hexValue (value : UInt8) : Option UInt8 :=
  if 48 ≤ value ∧ value ≤ 57 then some (value-48)
  else if 97 ≤ value ∧ value ≤ 102 then some (value-97+10)
  else if 65 ≤ value ∧ value ≤ 70 then some (value-65+10)
  else none

def parseWord : List UInt8 → UInt16 → ℕ → Option UInt16
  | [], word, digits => if digits = 0 then none else some word
  | c :: cursor, word, digits =>
    match hexValue c with
    | none => none
    | some digit =>
      if 4 ≤ digits then none
      else parseWord cursor ((word <<< 4) ||| digit.toUInt16) (digits+1)

def ipv4Words (addr : List UInt8) : List UInt16 :=
  [loadBe16 (ofList addr) 0, loadBe16 (ofList addr) 2]

/-- `jh_net_parse_ipv6_groups` behind `count` groups; the fuel is the length of
the text. -/
def parseIpv6Groups : ℕ → List UInt8 → ℕ → Option (List UInt16)
  | _, [], _ => some []
  | 0, _ :: _, _ => none
  | fuel+1, c :: text, count =>
    if 8 ≤ count then none
    else
      let group := (c :: text).takeWhile (· ≠ colon)
      let rest := (c :: text).dropWhile (· ≠ colon)
      if dot ∈ group then
        if rest ≠ [] ∨ 6 < count ∨ group = [] ∨ 16 ≤ group.length then none
        else (parseIpv4Literal group).map ipv4Words
      else
        match parseWord group 0 0, rest with
        | none, _ => none
        | some word, [] => some [word]
        | some _, [_] => none
        | some word, _ :: d :: cursor =>
          (parseIpv6Groups fuel (d :: cursor) (count+1)).map (word :: ·)

def ipv6Groups (text : List UInt8) : Option (List UInt16) := parseIpv6Groups text.length text 0

def uint32Max : ℕ := 4294967295

def scanScope : List UInt8 → ℕ → Option ℕ
  | [], scopeId => some scopeId
  | c :: cursor, scopeId =>
    if digitByte c then
      if (uint32Max-digit c)/10 < scopeId then none else scanScope cursor (scopeId*10+digit c)
    else none

def splitScope (src : List UInt8) (allowScope : Bool) : Option (List UInt8 × ℕ) :=
  if percent ∈ src then
    let address := src.takeWhile (· ≠ percent)
    let scope := (src.dropWhile (· ≠ percent)).drop 1
    if ¬ allowScope ∨ address = [] ∨ scope = [] ∨ percent ∈ scope then none
    else (scanScope scope 0).map fun scopeId => (address, scopeId)
  else some (src, 0)

def splitCompression : List UInt8 → Option (List UInt8 × List UInt8)
  | [] => none
  | [_] => none
  | c :: d :: text =>
    if c = colon ∧ d = colon then some ([], text)
    else (splitCompression (d :: text)).map fun parts => (c :: parts.1, parts.2)

def parseWords (text : List UInt8) : Option (List UInt16) :=
  if text = [] then none
  else
    match splitCompression text with
    | none =>
      match ipv6Groups text with
      | none => none
      | some left => if left.length ≠ 8 then none else some left
    | some (before, after) =>
      if (splitCompression after).isSome then none
      else
        match ipv6Groups before, ipv6Groups after with
        | some left, some right =>
          if 8 ≤ left.length+right.length then none
          else some (left ++ List.replicate (8-left.length-right.length) 0 ++ right)
        | _, _ => none

def storeWords (words : List UInt16) : List UInt8 := words.flatMap storeBe16

def parseIpv6Literal (src : List UInt8) (allowScope : Bool) : Option (List UInt8 × ℕ) :=
  match splitScope src allowScope with
  | none => none
  | some (text, scopeId) => (parseWords text).map fun words => (storeWords words, scopeId)

def zerosFrom (zero : ℕ → Bool) : ℕ → ℕ → ℕ
  | 0, _ => 0
  | fuel+1, index => if index < 8 ∧ zero index then zerosFrom zero fuel (index+1)+1 else 0

def bestRun (zero : ℕ → Bool) : ℕ → ℕ → ℕ × ℕ → ℕ × ℕ
  | 0, _, best => best
  | fuel+1, start, best =>
    if 8 ≤ start then best
    else if ¬ zero start then bestRun zero fuel (start+1) best
    else
      let length := zerosFrom zero 8 start
      bestRun zero fuel (start+length)
        (if 2 ≤ length ∧ best.2 < length then (start, length) else best)

def textSize : ℕ := 46

def hexText (n : ℕ) : List UInt8 := (Nat.toDigits 16 n).map fun c => UInt8.ofNat c.toNat

/-- The second loop; `none` where a text does not fit the buffer. -/
def writeWords (words : List UInt16) (best : ℕ × ℕ) : ℕ → ℕ → List UInt8 → Option (List UInt8)
  | 0, _, text => some text
  | fuel+1, index, text =>
    if 8 ≤ index then some text
    else if index = best.1 then
      if textSize ≤ text.length+2 then none
      else writeWords words best fuel (index+best.2) (text ++ [colon, colon])
    else
      let text := if 0 < text.length ∧ text.getLast? ≠ some colon then text ++ [colon] else text
      let written := hexText (words.getD index 0).toNat
      if textSize-text.length ≤ written.length then none
      else writeWords words best fuel (index+1) (text ++ written)

def loadWords (addr : List UInt8) : List UInt16 :=
  (List.range 8).map fun index => loadBe16 (ofList addr) (index*2)

def formatIpv6 (addr : List UInt8) (outSize : ℕ) : Option (List UInt8) :=
  if outSize = 0 then none
  else
    let words := loadWords addr
    let best := bestRun (fun index => words.getD index 1 == 0) 8 0 (8, 0)
    match writeWords words best 8 0 [] with
    | none => none
    | some text => if outSize < text.length+1 then none else some text

open DecimalText WordBits

structure OctetText (text : List UInt8) (value : UInt8) : Prop where
  nonempty : text ≠ []
  digits : ∀ b ∈ text, digitByte b = true
  value : valueFrom 0 text = value.toNat

inductive Octets : List UInt8 → List UInt8 → Prop where
  | one {text : List UInt8} {value : UInt8} (h : OctetText text value) : Octets text [value]
  | cons {text rest values : List UInt8} {value : UInt8} (h : OctetText text value)
      (hrest : Octets rest values) : Octets (text ++ dot :: rest) (value :: values)

def Ipv4Text (text addr : List UInt8) : Prop := Octets text addr ∧ addr.length = 4

/-- The scan of an octet takes its digits while the value is small. -/
theorem scanOctet_iff {cursor rest : List UInt8} {start value : ℕ} (hstart : start ≤ 255) :
    scanOctet cursor start = some (value, rest) ↔ ∃ digits, cursor = digits ++ rest ∧
      (∀ b ∈ digits, digitByte b = true) ∧ Stops rest ∧ valueFrom start digits = value ∧
        value ≤ 255 := by
  induction cursor generalizing start with
  | nil =>
    rw [scanOctet, Option.some.injEq, Prod.mk.injEq]
    constructor
    · rintro ⟨rfl, rfl⟩
      exact ⟨[], rfl, nofun, nofun, rfl, hstart⟩
    · rintro ⟨digits, hnil, _, _, hvalue, _⟩
      obtain ⟨rfl, rfl⟩ := List.append_eq_nil_iff.mp hnil.symm
      exact ⟨hvalue, rfl⟩
  | cons c cursor ih =>
    rw [scanOctet]
    by_cases hc : digitByte c = true
    · rw [if_pos hc]
      have hgrows : ∀ digits, start*10+digit c ≤ valueFrom start (c :: digits) :=
        fun digits => valueFrom_ge (start*10+digit c) digits
      have hsplit : ∀ {digits}, c :: cursor = digits ++ rest → Stops rest →
          ∃ more, digits = c :: more ∧ cursor = more ++ rest := by
        intro digits heq hstops
        cases digits with
        | nil =>
          rw [List.nil_append] at heq
          have hstop := hstops c (by rw [← heq]; rfl)
          rw [hc] at hstop
          cases hstop
        | cons d more =>
          obtain ⟨rfl, hrest⟩ := List.cons.inj heq
          exact ⟨more, rfl, hrest⟩
      by_cases hlarge : 255 < start*10+digit c
      · rw [if_pos hlarge]
        refine iff_of_false nofun ?_
        rintro ⟨digits, heq, _, hstops, hvalue, hle⟩
        obtain ⟨more, rfl, _⟩ := hsplit heq hstops
        have hmore := hgrows more
        omega
      · rw [if_neg hlarge, ih (by omega)]
        constructor
        · rintro ⟨digits, rfl, hdigits, hstops, hvalue, hle⟩
          refine ⟨c :: digits, rfl, ?_, hstops, hvalue, hle⟩
          intro b hb
          rcases List.mem_cons.mp hb with rfl | hin
          · exact hc
          · exact hdigits b hin
        · rintro ⟨digits, heq, hdigits, hstops, hvalue, hle⟩
          obtain ⟨more, rfl, hrest⟩ := hsplit heq hstops
          exact ⟨more, hrest, fun b hb => hdigits b (List.mem_cons_of_mem c hb), hstops, hvalue,
            hle⟩
    · rw [if_neg hc, Option.some.injEq, Prod.mk.injEq]
      constructor
      · rintro ⟨rfl, rfl⟩
        refine ⟨[], rfl, nofun, ?_, rfl, hstart⟩
        intro b hb
        obtain rfl := Option.some.inj hb
        exact Bool.eq_false_iff.mpr hc
      · rintro ⟨digits, heq, hdigits, _, hvalue, _⟩
        cases digits with
        | nil => exact ⟨hvalue, heq⟩
        | cons d more =>
          obtain ⟨rfl, _⟩ := List.cons.inj heq
          exact absurd (hdigits c List.mem_cons_self) hc

theorem stops_dot (rest : List UInt8) : Stops (dot :: rest) := by
  intro b hb
  obtain rfl := Option.some.inj hb
  decide

theorem scanOctet_text {text rest : List UInt8} {value : UInt8} (h : OctetText text value)
    (hrest : Stops rest) : (text ++ rest).head?.any digitByte = true ∧
      scanOctet (text ++ rest) 0 = some (value.toNat, rest) := by
  constructor
  · obtain ⟨c, more, rfl⟩ := List.exists_cons_of_ne_nil h.nonempty
    exact h.digits c List.mem_cons_self
  · have hlt := value.toNat_lt
    exact (scanOctet_iff (by decide)).mpr ⟨text, rfl, h.digits, hrest, h.value, by omega⟩

theorem text_scanOctet {cursor rest : List UInt8} {value : ℕ}
    (hhead : cursor.head?.any digitByte = true) (hscan : scanOctet cursor 0 = some (value, rest)) :
    ∃ text, cursor = text ++ rest ∧ OctetText text (UInt8.ofNat value) := by
  obtain ⟨text, rfl, hdigits, hstops, hvalue, hle⟩ := (scanOctet_iff (by decide)).mp hscan
  refine ⟨text, rfl, ?_, hdigits, ?_⟩
  · rintro rfl
    cases rest with
    | nil => cases hhead
    | cons c rest =>
      have hdigit : digitByte c = true := hhead
      rw [hstops c rfl] at hdigit
      cases hdigit
  · rw [UInt8.toNat_ofNat', Nat.mod_eq_of_lt (by omega)]
    exact hvalue

/-- An octet and so many more are read exactly when the text has them. -/
theorem parseOctets_iff {more : ℕ} {cursor addr : List UInt8} :
    parseOctets more cursor = some addr ↔ Octets cursor addr ∧ addr.length = more+1 := by
  constructor
  · intro h
    induction more generalizing cursor addr with
    | zero =>
      rw [parseOctets] at h
      split_ifs at h with hhead
      split at h
      · cases h
      · rename_i value rest hscan
        obtain ⟨text, rfl, htext⟩ := text_scanOctet hhead hscan
        cases rest with
        | nil =>
          obtain rfl := Option.some.inj h
          rw [List.append_nil]
          exact ⟨.one htext, rfl⟩
        | cons c rest => cases h
    | succ more ih =>
      rw [parseOctets] at h
      split_ifs at h with hhead
      split at h
      · cases h
      · rename_i value rest hscan
        obtain ⟨text, rfl, htext⟩ := text_scanOctet hhead hscan
        cases rest with
        | nil => cases h
        | cons c rest =>
          dsimp only at h
          split_ifs at h with hdot
          obtain ⟨others, hothers, rfl⟩ := Option.map_eq_some_iff.mp h
          obtain ⟨hrest, hlength⟩ := ih hothers
          rw [hdot]
          exact ⟨.cons htext hrest, congrArg Nat.succ hlength⟩
  · rintro ⟨h, hlength⟩
    induction h generalizing more with
    | @one text value h =>
      obtain rfl : more = 0 := (Nat.succ.inj hlength).symm
      have hstops : Stops ([] : List UInt8) := nofun
      obtain ⟨hhead, hscan⟩ := scanOctet_text h hstops
      rw [List.append_nil] at hhead hscan
      rw [parseOctets, if_pos hhead, hscan]
      simp
    | @cons text rest values value h hrest ih =>
      obtain ⟨n, rfl⟩ : ∃ n, more = n+1 := by
        cases hrest with
        | one => exact ⟨0, (Nat.succ.inj hlength).symm⟩
        | @cons _ _ others _ _ _ => exact ⟨others.length, (Nat.succ.inj hlength).symm⟩
      obtain ⟨hhead, hscan⟩ := scanOctet_text h (stops_dot rest)
      rw [parseOctets, if_pos hhead, hscan]
      dsimp only
      rw [if_pos rfl, ih (Nat.succ.inj hlength)]
      simp

theorem parseIpv4Literal_iff {src addr : List UInt8} :
    parseIpv4Literal src = some addr ↔ Ipv4Text src addr := parseOctets_iff

def hexFrom (value : ℕ) (digits : List UInt8) : ℕ :=
  digits.foldl (fun value b => value*16+((hexValue b).getD 0).toNat) value

structure HexGroup (text : List UInt8) (word : UInt16) : Prop where
  nonempty : text ≠ []
  short : text.length ≤ 4
  digits : ∀ b ∈ text, (hexValue b).isSome = true
  value : hexFrom 0 text = word.toNat

/-- Groups with colons between them; the last one may be a dotted text. -/
inductive Groups (dotted : List UInt8 → Prop) : List UInt8 → List UInt16 → Prop where
  | hex {text : List UInt8} {word : UInt16} (h : HexGroup text word) : Groups dotted text [word]
  | dotted {text addr : List UInt8} (h : Ipv4Text text addr) (hdotted : dotted text) :
      Groups dotted text (ipv4Words addr)
  | cons {text rest : List UInt8} {word : UInt16} {words : List UInt16} (h : HexGroup text word)
      (hrest : Groups dotted rest words) : Groups dotted (text ++ colon :: rest) (word :: words)

inductive Side (dotted : List UInt8 → Prop) : List UInt8 → List UInt16 → Prop where
  | empty : Side dotted [] []
  | groups {text : List UInt8} {words : List UInt16} (h : Groups dotted text words) :
      Side dotted text words

/-- Eight groups; a double colon stands for one or more groups of zero. -/
inductive WordsText (dotted before : List UInt8 → Prop) : List UInt8 → List UInt16 → Prop where
  | full {text : List UInt8} {words : List UInt16} (h : Groups dotted text words)
      (hlength : words.length = 8) : WordsText dotted before text words
  | compressed {left right : List UInt8} {leftWords rightWords : List UInt16}
      (hleft : Side dotted left leftWords) (hbefore : before left)
      (hright : Side dotted right rightWords)
      (hlength : leftWords.length+rightWords.length ≤ 7) :
      WordsText dotted before (left ++ colon :: colon :: right)
        (leftWords ++ List.replicate (8-leftWords.length-rightWords.length) 0 ++ rightWords)

theorem hexValue_small : ∀ b : UInt8, (hexValue b).all (·.toNat < 16) = true := by
  decide +kernel

theorem hexValue_lt {b digit : UInt8} (h : hexValue b = some digit) : digit.toNat < 16 := by
  have hsmall := hexValue_small b
  rw [h] at hsmall
  exact of_decide_eq_true hsmall

theorem shift_digit {word : UInt16} {digit : UInt8} (hword : word.toNat < 16^3)
    (hdigit : digit.toNat < 16) :
    ((word <<< 4) ||| digit.toUInt16).toNat = word.toNat*16+digit.toNat := by
  have hshift : (word <<< 4).toNat = word.toNat <<< 4 := by
    rw [UInt16.toNat_shiftLeft]
    simp only [Nat.shiftLeft_eq]
    show word.toNat*2^4%2^16 = word.toNat*2^4
    omega
  rw [UInt16.toNat_or, hshift, UInt8.toNat_toUInt16,
    ← Nat.shiftLeft_add_eq_or_of_lt (i := 4) hdigit, Nat.shiftLeft_eq]

theorem parseWord_iff {text : List UInt8} {word out : UInt16} {digits : ℕ} (hdigits : digits ≤ 4)
    (hword : word.toNat < 16^digits) : parseWord text word digits = some out ↔
      0 < digits+text.length ∧ digits+text.length ≤ 4 ∧
        (∀ b ∈ text, (hexValue b).isSome = true) ∧ hexFrom word.toNat text = out.toNat := by
  induction text generalizing word digits with
  | nil =>
    rw [parseWord]
    split_ifs with hnone
    · exact iff_of_false nofun fun h => absurd h.1 (by simp [hnone])
    · rw [Option.some.injEq]
      constructor
      · rintro rfl
        exact ⟨by simpa using Nat.pos_of_ne_zero hnone, by simpa using hdigits, nofun, rfl⟩
      · rintro ⟨_, _, _, hvalue⟩
        exact UInt16.toNat_inj.mp hvalue
  | cons c text ih =>
    rw [parseWord]
    cases hc : hexValue c with
    | none =>
      refine iff_of_false nofun fun h => ?_
      have hsome := h.2.2.1 c List.mem_cons_self
      rw [hc] at hsome
      cases hsome
    | some digit =>
      have hlt := hexValue_lt hc
      dsimp only
      split_ifs with hfull
      · refine iff_of_false nofun fun h => ?_
        have hlength := h.2.1
        rw [List.length_cons] at hlength
        omega
      · have hsmall : word.toNat < 16^3 :=
          Nat.lt_of_lt_of_le hword (Nat.pow_le_pow_right (by decide) (by omega))
        have hnext := shift_digit hsmall hlt
        have hbound : ((word <<< 4) ||| digit.toUInt16).toNat < 16^(digits+1) := by
          rw [hnext, Nat.pow_succ]
          omega
        rw [ih (by omega) hbound, hnext, List.length_cons, List.forall_mem_cons, hc,
          Nat.add_assoc, Nat.add_comm 1]
        simp [hexFrom, hc]

theorem parseWord_group {text : List UInt8} {word : UInt16} :
    parseWord text 0 0 = some word ↔ HexGroup text word := by
  rw [parseWord_iff (by decide) (by decide)]
  constructor
  · rintro ⟨hpos, hshort, hdigits, hvalue⟩
    rw [Nat.zero_add] at hpos hshort
    exact ⟨List.ne_nil_of_length_pos hpos, hshort, hdigits, hvalue⟩
  · rintro ⟨hne, hshort, hdigits, hvalue⟩
    rw [Nat.zero_add]
    exact ⟨List.length_pos_of_ne_nil hne, hshort, hdigits, hvalue⟩

theorem hexValue_plain : ∀ b : UInt8, (hexValue b).isSome = true →
    b ≠ colon ∧ b ≠ dot ∧ b ≠ percent := by
  decide +kernel

theorem digit_plain : ∀ b : UInt8, digitByte b = true → b ≠ colon ∧ b ≠ percent := by
  decide +kernel

theorem octets_plain {text addr : List UInt8} (h : Octets text addr) :
    text ≠ [] ∧ ∀ b ∈ text, b ≠ colon ∧ b ≠ percent := by
  induction h with
  | one h => exact ⟨h.nonempty, fun b hb => digit_plain b (h.digits b hb)⟩
  | cons h _ ih =>
    refine ⟨by simp, fun b hb => ?_⟩
    rcases List.mem_append.mp hb with hin | hin
    · exact digit_plain b (h.digits b hin)
    · rcases List.mem_cons.mp hin with rfl | hrest
      · decide
      · exact ih.2 b hrest

theorem ipv4_dot {text addr : List UInt8} (h : Ipv4Text text addr) : dot ∈ text := by
  obtain ⟨hoctets, hlength⟩ := h
  cases hoctets with
  | one => cases hlength
  | cons => simp

variable {dotted before : List UInt8 → Prop} {text : List UInt8} {words : List UInt16}

theorem groups_plain (h : Groups dotted text words) :
    text ≠ [] ∧ text.head? ≠ some colon ∧ percent ∉ text := by
  have hstart : ∀ {g : List UInt8}, g ≠ [] → (∀ b ∈ g, b ≠ colon) → ∀ rest : List UInt8,
      g ++ rest ≠ [] ∧ (g ++ rest).head? ≠ some colon := by
    intro g hne hplain rest
    obtain ⟨c, more, rfl⟩ := List.exists_cons_of_ne_nil hne
    exact ⟨nofun, fun heq => hplain c List.mem_cons_self (Option.some.inj heq)⟩
  induction h with
  | hex h =>
    obtain ⟨hne, hhead⟩ := hstart h.nonempty (fun b hb => (hexValue_plain b (h.digits b hb)).1) []
    rw [List.append_nil] at hne hhead
    exact ⟨hne, hhead, fun hin => (hexValue_plain _ (h.digits _ hin)).2.2 rfl⟩
  | dotted h _ =>
    obtain ⟨hne, hplain⟩ := octets_plain h.1
    obtain ⟨_, hhead⟩ := hstart hne (fun b hb => (hplain b hb).1) []
    rw [List.append_nil] at hhead
    exact ⟨hne, hhead, fun hin => (hplain _ hin).2 rfl⟩
  | cons h _ ih =>
    obtain ⟨hne, hhead⟩ := hstart h.nonempty (fun b hb => (hexValue_plain b (h.digits b hb)).1)
      (colon :: _)
    refine ⟨hne, hhead, fun hin => ?_⟩
    rcases List.mem_append.mp hin with hfirst | hrest
    · exact (hexValue_plain _ (h.digits _ hfirst)).2.2 rfl
    · rcases List.mem_cons.mp hrest with heq | hmore
      · exact absurd heq (by decide)
      · exact ih.2.2 hmore

/-- The text before the first colon, or another such byte, and the text from it
on. -/
theorem before_byte {group : List UInt8} {stop : UInt8} (h : ∀ b ∈ group, b ≠ stop)
    (rest : List UInt8) : (group ++ stop :: rest).takeWhile (· ≠ stop) = group ∧
      (group ++ stop :: rest).dropWhile (· ≠ stop) = stop :: rest := by
  have hall : ∀ b ∈ group, decide (b ≠ stop) = true := fun b hb => decide_eq_true (h b hb)
  rw [List.takeWhile_append_of_pos hall, List.dropWhile_append_of_pos hall]
  simp

theorem no_byte {group : List UInt8} {stop : UInt8} (h : ∀ b ∈ group, b ≠ stop) :
    group.takeWhile (· ≠ stop) = group ∧ group.dropWhile (· ≠ stop) = [] := by
  have hall : ∀ b ∈ group, decide (b ≠ stop) = true := fun b hb => decide_eq_true (h b hb)
  exact ⟨List.takeWhile_eq_self_iff.mpr hall, List.dropWhile_eq_nil_iff.mpr hall⟩

theorem at_byte {text rest : List UInt8} {b stop : UInt8}
    (h : text.dropWhile (· ≠ stop) = b :: rest) : b = stop := by
  induction text with
  | nil => cases h
  | cons c text ih =>
    by_cases hc : c = stop
    · rw [List.dropWhile_cons_of_neg (by simp [hc])] at h
      exact (List.cons.inj h).1 ▸ hc
    · rw [List.dropWhile_cons_of_pos (by simp [hc])] at h
      exact ih h

theorem HexGroup.no_colon {word : UInt16} (h : HexGroup text word) : ∀ b ∈ text, b ≠ colon :=
  fun b hb => (hexValue_plain b (h.digits b hb)).1

theorem HexGroup.no_dot {word : UInt16} (h : HexGroup text word) : dot ∉ text :=
  fun hin => (hexValue_plain _ (h.digits _ hin)).2.1 rfl

theorem groups_length (h : Groups dotted text words) : 0 < words.length := by
  cases h with
  | hex => exact Nat.one_pos
  | dotted => exact Nat.two_pos
  | cons => exact Nat.succ_pos _

def Short (text : List UInt8) : Prop := text.length < 16

theorem parseIpv6Groups_iff {fuel count : ℕ} (hne : text ≠ []) (hfuel : text.length ≤ fuel) :
    parseIpv6Groups fuel text count = some words ↔
      Groups Short text words ∧ count+words.length ≤ 8 := by
  induction fuel generalizing text count words with
  | zero => exact absurd (List.length_eq_zero_iff.mp (Nat.le_zero.mp hfuel)) hne
  | succ fuel ih =>
    obtain ⟨c, more, rfl⟩ := List.exists_cons_of_ne_nil hne
    have hparts :=
      List.takeWhile_append_dropWhile (p := fun b => decide (b ≠ colon)) (l := c :: more)
    constructor
    · intro h
      rw [parseIpv6Groups] at h
      dsimp only at h
      split_ifs at h with hcount hdot hbad
      · obtain ⟨addr, haddr, rfl⟩ := Option.map_eq_some_iff.mp h
        simp only [not_or, not_not, Nat.not_lt, Nat.not_le] at hbad
        obtain ⟨hrest, hroom, _, hshort⟩ := hbad
        rw [hrest, List.append_nil] at hparts
        rw [hparts] at haddr hshort
        refine ⟨.dotted (parseIpv4Literal_iff.mp haddr) hshort, ?_⟩
        show count+2 ≤ 8
        omega
      · split at h
        · cases h
        · rename_i word hword hrest
          obtain rfl := Option.some.inj h
          rw [hrest, List.append_nil] at hparts
          rw [hparts] at hword
          refine ⟨.hex (parseWord_group.mp hword), ?_⟩
          show count+1 ≤ 8
          omega
        · cases h
        · rename_i word b d cursor hword hrest
          obtain ⟨others, hothers, rfl⟩ := Option.map_eq_some_iff.mp h
          have hcolon := at_byte hrest
          have hlength := congrArg List.length hparts
          rw [hrest, List.length_append, List.length_cons, List.length_cons] at hlength
          have hsmall : (d :: cursor).length ≤ fuel := by
            simp only [List.length_cons] at hlength hfuel ⊢
            omega
          obtain ⟨hgroups, hroom⟩ := (ih (List.cons_ne_nil d cursor) hsmall).mp hothers
          rw [← hparts, hrest, hcolon]
          refine ⟨.cons (parseWord_group.mp hword) hgroups, ?_⟩
          rw [List.length_cons]
          omega
    · rintro ⟨h, hroom⟩
      have hcount : ¬ 8 ≤ count := by
        have hpos := groups_length h
        omega
      rw [parseIpv6Groups, if_neg hcount]
      generalize c :: more = whole at h hfuel
      cases h with
      | hex h =>
        obtain ⟨htake, hdrop⟩ := no_byte h.no_colon
        rw [htake, hdrop]
        dsimp only
        rw [if_neg h.no_dot, parseWord_group.mpr h]
      | dotted h hshort =>
        obtain ⟨hnonempty, hplain⟩ := octets_plain h.1
        obtain ⟨htake, hdrop⟩ := no_byte fun b hb => (hplain b hb).1
        have hsix : ¬ 6 < count := by
          have htwo : count+2 ≤ 8 := hroom
          omega
        rw [htake, hdrop]
        dsimp only
        rw [if_pos (ipv4_dot h), if_neg, parseIpv4Literal_iff.mpr h]
        · rfl
        · rintro (hrest | hsmall | hempty | hlong)
          · exact hrest rfl
          · exact hsix hsmall
          · exact hnonempty hempty
          · exact Nat.not_le.mpr hshort hlong
      | @cons group rest word others h hrest =>
        obtain ⟨htake, hdrop⟩ := before_byte h.no_colon rest
        obtain ⟨d, cursor, rfl⟩ := List.exists_cons_of_ne_nil (groups_plain hrest).1
        rw [htake, hdrop]
        dsimp only
        rw [if_neg h.no_dot, parseWord_group.mpr h]
        dsimp only
        have hsmall : (d :: cursor).length ≤ fuel := by
          rw [List.length_append, List.length_cons] at hfuel
          omega
        rw [List.length_cons] at hroom
        rw [(ih (List.cons_ne_nil d cursor) hsmall).mpr ⟨hrest, by omega⟩]
        rfl

theorem split_plain {group : List UInt8} (h : ∀ b ∈ group, b ≠ colon) (rest : List UInt8) :
    splitCompression (group ++ rest) =
      (splitCompression rest).map fun parts => (group ++ parts.1, parts.2) := by
  induction group with
  | nil => simp
  | cons c group ih =>
    have hc := h c List.mem_cons_self
    have hgroup := ih fun b hb => h b (List.mem_cons_of_mem c hb)
    cases hmore : group ++ rest with
    | nil =>
      obtain ⟨rfl, rfl⟩ := List.append_eq_nil_iff.mp hmore
      rfl
    | cons d more =>
      rw [List.cons_append, hmore, splitCompression, if_neg fun hboth => hc hboth.1, ← hmore,
        hgroup, Option.map_map]
      rfl

theorem split_colon {text : List UInt8} (h : text.head? ≠ some colon) :
    splitCompression (colon :: text) =
      (splitCompression text).map fun parts => (colon :: parts.1, parts.2) := by
  cases text with
  | nil => rfl
  | cons d text =>
    rw [splitCompression, if_neg]
    rintro ⟨_, rfl⟩
    exact h rfl

theorem split_groups (h : Groups dotted text words) (rest : List UInt8) :
    splitCompression (text ++ rest) =
      (splitCompression rest).map fun parts => (text ++ parts.1, parts.2) := by
  induction h with
  | hex h => exact split_plain h.no_colon rest
  | dotted h _ => exact split_plain (fun b hb => ((octets_plain h.1).2 b hb).1) rest
  | @cons group others word more h hrest ih =>
    obtain ⟨hne, hhead, _⟩ := groups_plain hrest
    have hstart : (others ++ rest).head? ≠ some colon := by
      obtain ⟨c, tail, rfl⟩ := List.exists_cons_of_ne_nil hne
      exact hhead
    rw [List.append_assoc, split_plain h.no_colon, List.cons_append, split_colon hstart, ih,
      Option.map_map, Option.map_map]
    simp [Function.comp_def, List.append_assoc]

theorem split_side (h : Side dotted text words) (rest : List UInt8) :
    splitCompression (text ++ rest) =
      (splitCompression rest).map fun parts => (text ++ parts.1, parts.2) := by
  cases h with
  | empty => simp
  | groups h => exact split_groups h rest

theorem split_none (h : Side dotted text words) : splitCompression text = none := by
  have hsplit := split_side h []
  rw [List.append_nil] at hsplit
  exact hsplit

theorem split_found (h : Side dotted text words) (right : List UInt8) :
    splitCompression (text ++ colon :: colon :: right) = some (text, right) := by
  rw [split_side h, splitCompression, if_pos ⟨rfl, rfl⟩]
  simp

theorem split_sound {left right : List UInt8} (h : splitCompression text = some (left, right)) :
    text = left ++ colon :: colon :: right := by
  induction text generalizing left with
  | nil => cases h
  | cons c text ih =>
    cases text with
    | nil => cases h
    | cons d text =>
      rw [splitCompression] at h
      split_ifs at h with hboth
      · obtain ⟨rfl, rfl⟩ := Prod.mk.inj (Option.some.inj h)
        rw [hboth.1, hboth.2]
        rfl
      · obtain ⟨⟨before, after⟩, hrest, heq⟩ := Option.map_eq_some_iff.mp h
        obtain ⟨rfl, rfl⟩ := Prod.mk.inj heq
        rw [ih hrest]
        rfl

theorem ipv6Groups_iff : ipv6Groups text = some words ↔
    Side Short text words ∧ words.length ≤ 8 := by
  rw [ipv6Groups]
  cases text with
  | nil =>
    rw [parseIpv6Groups, Option.some.injEq]
    constructor
    · rintro rfl
      exact ⟨.empty, by decide⟩
    · rintro ⟨h, _⟩
      cases h with
      | empty => rfl
      | groups h => exact absurd rfl (groups_plain h).1
  | cons c more =>
    rw [parseIpv6Groups_iff (List.cons_ne_nil c more) (Nat.le_refl _), Nat.zero_add]
    constructor
    · rintro ⟨h, hlength⟩
      exact ⟨.groups h, hlength⟩
    · rintro ⟨h, hlength⟩
      cases h with
      | groups h => exact ⟨h, hlength⟩

def Anything (_ : List UInt8) : Prop := True

theorem parseWords_iff : parseWords text = some words ↔ WordsText Short Anything text words := by
  constructor
  · intro h
    unfold parseWords at h
    split_ifs at h with hempty
    cases hsplit : splitCompression text with
    | none =>
      rw [hsplit] at h
      dsimp only at h
      cases hgroups : ipv6Groups text with
      | none =>
        rw [hgroups] at h
        cases h
      | some left =>
        rw [hgroups] at h
        dsimp only at h
        split_ifs at h with hlength
        obtain rfl := Option.some.inj h
        rcases (ipv6Groups_iff.mp hgroups).1 with _ | hleft
        · exact absurd rfl hempty
        · exact .full hleft (not_not.mp hlength)
    | some parts =>
      obtain ⟨before, after⟩ := parts
      rw [hsplit] at h
      dsimp only at h
      split_ifs at h with hsecond
      cases hbefore : ipv6Groups before with
      | none =>
        rw [hbefore] at h
        cases h
      | some left =>
        cases hafter : ipv6Groups after with
        | none =>
          rw [hbefore, hafter] at h
          cases h
        | some right =>
          rw [hbefore, hafter] at h
          dsimp only at h
          split_ifs at h with hlong
          obtain rfl := Option.some.inj h
          rw [split_sound hsplit]
          exact .compressed (ipv6Groups_iff.mp hbefore).1 trivial (ipv6Groups_iff.mp hafter).1
            (by omega)
  · intro h
    unfold parseWords
    cases h with
    | full h hlength =>
      rw [if_neg (groups_plain h).1, split_none (.groups h)]
      dsimp only
      rw [ipv6Groups_iff.mpr ⟨.groups h, by omega⟩]
      dsimp only
      rw [if_neg (not_not.mpr hlength)]
    | compressed hleft _ hright hlength =>
      rw [if_neg (by simp), split_found hleft]
      dsimp only
      rw [split_none hright, ipv6Groups_iff.mpr ⟨hleft, by omega⟩,
        ipv6Groups_iff.mpr ⟨hright, by omega⟩]
      dsimp only
      rw [if_neg (by decide), if_neg (by omega)]

end JaszczurHal.NetLiterals
