import JaszczurHal.NetLiteralTexts

/-!
# What the literal parsers accept

The IPv4 parser accepts exactly the dotted texts. The IPv6 parser accepts
exactly the texts of an address as long as none of their dotted parts stands
before a double colon or is long.
-/

set_option autoImplicit false

namespace JaszczurHal.NetLiterals
open DecimalText WordBits

variable {dotted before : List UInt8 → Prop} {text src addr : List UInt8} {words : List UInt16}
  {scope : ℕ} {allow : Bool}

structure ScopeText (text : List UInt8) (scope : ℕ) : Prop where
  nonempty : text ≠ []
  digits : ∀ b ∈ text, digitByte b = true
  value : valueFrom 0 text = scope
  fits : scope ≤ uint32Max

/-- A literal with such an address: bare, or with a scope id where one may be. -/
def LiteralText (address : List UInt8 → List UInt16 → Prop) (allow : Bool)
    (src addr : List UInt8) (scope : ℕ) : Prop :=
  ∃ text words, address text words ∧ addr = storeWords words ∧
    (src = text ∧ scope = 0 ∨
      allow = true ∧ ∃ digits, ScopeText digits scope ∧ src = text ++ percent :: digits)

theorem scanScope_iff {cursor : List UInt8} {start : ℕ} (hstart : start ≤ uint32Max) :
    scanScope cursor start = some scope ↔ (∀ b ∈ cursor, digitByte b = true) ∧
      valueFrom start cursor = scope ∧ scope ≤ uint32Max := by
  induction cursor generalizing start with
  | nil =>
    rw [scanScope, Option.some.injEq]
    constructor
    · rintro rfl
      exact ⟨List.forall_mem_nil _, rfl, hstart⟩
    · rintro ⟨_, hvalue, _⟩
      exact hvalue
  | cons c cursor ih =>
    rw [scanScope, List.forall_mem_cons]
    by_cases hc : digitByte c = true
    · have hsmall := digit_lt hc
      have hmax : uint32Max = 4294967295 := rfl
      rw [if_pos hc]
      split_ifs with hlarge
      · refine iff_of_false (by rintro ⟨⟩) fun h => ?_
        have hgrows := valueFrom_ge (start*10+digit c) cursor
        have hvalue : valueFrom (start*10+digit c) cursor = scope := h.2.1
        have hle := h.2.2
        omega
      · rw [ih (by omega)]
        simp [hc, valueFrom]
    · rw [if_neg hc]
      exact iff_of_false (by rintro ⟨⟩) fun h => hc h.1.1

theorem scopeText_percent (h : ScopeText text scope) : percent ∉ text :=
  fun hin => (digit_plain _ (h.digits _ hin)).2 rfl

theorem splitScope_iff : splitScope src allow = some (text, scope) ↔ percent ∉ text ∧
    (src = text ∧ scope = 0 ∨ allow = true ∧ text ≠ [] ∧
      ∃ digits, ScopeText digits scope ∧ src = text ++ percent :: digits) := by
  rw [splitScope]
  by_cases hpercent : percent ∈ src
  · rw [if_pos hpercent]
    dsimp only
    have hplain : percent ∉ src.takeWhile (· ≠ percent) := by
      intro hin
      have hkept := List.mem_takeWhile_imp hin
      simp at hkept
    obtain ⟨b, more, hdrop⟩ : ∃ b more, src.dropWhile (· ≠ percent) = b :: more := by
      apply List.exists_cons_of_ne_nil
      intro hnil
      have hall := List.dropWhile_eq_nil_iff.mp hnil percent hpercent
      simp at hall
    have hparts := List.takeWhile_append_dropWhile (p := fun b => decide (b ≠ percent)) (l := src)
    rw [hdrop, at_byte hdrop] at hparts
    constructor
    · intro h
      split_ifs at h with hbad
      obtain ⟨found, hfound, heq⟩ := Option.map_eq_some_iff.mp h
      obtain ⟨rfl, rfl⟩ := Prod.mk.inj heq
      rw [hdrop, List.drop_one, List.tail_cons] at hbad hfound
      simp only [not_or, not_not] at hbad
      obtain ⟨hallow, haddress, hscope, _⟩ := hbad
      obtain ⟨hdigits, hvalue, hfits⟩ := (scanScope_iff (by decide)).mp hfound
      exact ⟨hplain, .inr ⟨hallow, haddress, more, ⟨hscope, hdigits, hvalue, hfits⟩,
        hparts.symm⟩⟩
    · rintro ⟨htext, ⟨rfl, _⟩ | ⟨hallow, hne, digits, hdigits, rfl⟩⟩
      · exact absurd hpercent htext
      · have hfree : ∀ b ∈ text, b ≠ percent := by
          rintro b hb rfl
          exact htext hb
        obtain ⟨htake, hrest⟩ := before_byte hfree digits
        rw [htake, hrest, List.drop_one, List.tail_cons, if_neg,
          (scanScope_iff (by decide)).mpr ⟨hdigits.digits, hdigits.value, hdigits.fits⟩]
        · rfl
        · rintro (hno | hempty | hnone | hsecond)
          · exact hno hallow
          · exact hne hempty
          · exact hdigits.nonempty hnone
          · exact scopeText_percent hdigits hsecond
  · rw [if_neg hpercent, Option.some.injEq, Prod.mk.injEq]
    constructor
    · rintro ⟨rfl, rfl⟩
      exact ⟨hpercent, .inl ⟨rfl, rfl⟩⟩
    · rintro ⟨_, ⟨rfl, rfl⟩ | ⟨_, _, digits, _, rfl⟩⟩
      · exact ⟨rfl, rfl⟩
      · exact absurd (by simp) hpercent

theorem side_percent (h : Side dotted text words) : percent ∉ text := by
  cases h with
  | empty => exact nofun
  | groups h => exact (groups_plain h).2.2

/-- The text of an address is not empty and has no scope. -/
theorem wordsText_plain (h : WordsText dotted before text words) :
    text ≠ [] ∧ percent ∉ text := by
  cases h with
  | full h => exact ⟨(groups_plain h).1, (groups_plain h).2.2⟩
  | compressed hleft _ hright =>
    refine ⟨by simp, ?_⟩
    simp only [List.mem_append, List.mem_cons, not_or]
    exact ⟨side_percent hleft, by decide, by decide, side_percent hright⟩

/-- A literal is one address text with what the scope is. -/
theorem literalText_iff {address : List UInt8 → List UInt16 → Prop}
    (hplain : ∀ text words, address text words → text ≠ [] ∧ percent ∉ text) :
    LiteralText address allow src addr scope ↔ ∃ text, splitScope src allow = some (text, scope) ∧
      ∃ words, address text words ∧ addr = storeWords words := by
  constructor
  · rintro ⟨text, words, haddress, hstored, hsrc⟩
    obtain ⟨hne, hpercent⟩ := hplain text words haddress
    refine ⟨text, splitScope_iff.mpr ⟨hpercent, ?_⟩, words, haddress, hstored⟩
    exact hsrc.imp_right fun ⟨hallow, hdigits⟩ => ⟨hallow, hne, hdigits⟩
  · rintro ⟨text, hsplit, words, haddress, hstored⟩
    refine ⟨text, words, haddress, hstored, ?_⟩
    exact (splitScope_iff.mp hsplit).2.imp_right fun ⟨hallow, _, hdigits⟩ => ⟨hallow, hdigits⟩

theorem parseIpv6Literal_iff : parseIpv6Literal src allow = some (addr, scope) ↔
    LiteralText (WordsText Short Anything) allow src addr scope := by
  rw [literalText_iff fun _ _ => wordsText_plain, parseIpv6Literal]
  cases hsplit : splitScope src allow with
  | none => simp
  | some parts =>
    obtain ⟨text, scopeId⟩ := parts
    simp only [Option.map_eq_some_iff, parseWords_iff, Prod.mk.injEq, Option.some.injEq]
    constructor
    · rintro ⟨words, hwords, rfl, rfl⟩
      exact ⟨text, ⟨rfl, rfl⟩, words, hwords, rfl⟩
    · rintro ⟨_, ⟨rfl, rfl⟩, words, hwords, rfl⟩
      exact ⟨words, hwords, rfl, rfl⟩

def Rfc4291 : List UInt8 → List UInt16 → Prop := WordsText Anything (dot ∉ ·)

inductive Misplaced : List UInt8 → List UInt16 → Prop where
  | before {left right : List UInt8} {leftWords rightWords : List UInt16}
      (hleft : Side Short left leftWords) (hdot : dot ∈ left) (hright : Side Short right rightWords)
      (hlength : leftWords.length+rightWords.length ≤ 7) :
      Misplaced (left ++ colon :: colon :: right)
        (leftWords ++ List.replicate (8-leftWords.length-rightWords.length) 0 ++ rightWords)

def Long (text : List UInt8) : Prop := 16 ≤ text.length

def LongDotted (text : List UInt8) (words : List UInt16) : Prop :=
  WordsText Long (dot ∉ ·) text words ∧ dot ∈ text

def Common : List UInt8 → List UInt16 → Prop := WordsText Short (dot ∉ ·)

variable {dotted' before' : List UInt8 → Prop}

theorem Groups.mono (h : Groups dotted text words) (himp : ∀ part, dotted part → dotted' part) :
    Groups dotted' text words := by
  induction h with
  | hex h => exact .hex h
  | dotted h hdotted => exact .dotted h (himp _ hdotted)
  | cons h _ ih => exact .cons h ih

theorem Side.mono (h : Side dotted text words) (himp : ∀ part, dotted part → dotted' part) :
    Side dotted' text words := by
  cases h with
  | empty => exact .empty
  | groups h => exact .groups (h.mono himp)

theorem WordsText.mono (h : WordsText dotted before text words)
    (himp : ∀ part, dotted part → dotted' part) (hbefore : ∀ part, before part → before' part) :
    WordsText dotted' before' text words := by
  cases h with
  | full h hlength => exact .full (h.mono himp) hlength
  | compressed hleft hplain hright hlength =>
    exact .compressed (hleft.mono himp) (hbefore _ hplain) (hright.mono himp) hlength

theorem groups_short_or_long (h : Groups Anything text words) :
    Groups Short text words ∨ Groups Long text words ∧ dot ∈ text := by
  induction h with
  | hex h => exact .inl (.hex h)
  | @dotted text addr h _ =>
    by_cases hshort : text.length < 16
    · exact .inl (.dotted h hshort)
    · exact .inr ⟨.dotted h (Nat.not_lt.mp hshort), ipv4_dot h⟩
  | cons h _ ih =>
    rcases ih with hshort | ⟨hlong, hdot⟩
    · exact .inl (.cons h hshort)
    · exact .inr ⟨.cons h hlong, by simp [hdot]⟩

theorem groups_no_dot (h : Groups dotted text words) (hdot : dot ∉ text) :
    Groups dotted' text words := by
  induction h with
  | hex h => exact .hex h
  | dotted h _ => exact absurd (ipv4_dot h) hdot
  | cons h _ ih =>
    apply Groups.cons h (ih _)
    intro hin
    exact hdot (by simp [hin])

theorem side_no_dot (h : Side dotted text words) (hdot : dot ∉ text) :
    Side dotted' text words := by
  cases h with
  | empty => exact .empty
  | groups h => exact .groups (groups_no_dot h hdot)

/-- The first group of a text is determined by the text. -/
theorem cons_inj {group group' rest rest' : List UInt8} {word word' : UInt16}
    (h : HexGroup group word) (h' : HexGroup group' word')
    (heq : group ++ colon :: rest = group' ++ colon :: rest') : rest = rest' := by
  have hdrop := (before_byte h.no_colon rest).2
  rw [heq, (before_byte h'.no_colon rest').2] at hdrop
  exact (List.cons.inj hdrop).2.symm

theorem groups_long_short {words' : List UInt16} (h : Groups Long text words) (hdot : dot ∈ text)
    (h' : Groups Short text words') : False := by
  induction h generalizing words' with
  | hex h => exact h.no_dot hdot
  | @dotted text addr h hlong =>
    have hplain := (octets_plain h.1).2
    cases h' with
    | hex h' => exact h'.no_dot hdot
    | dotted _ hshort => exact absurd hlong (Nat.not_le.mpr hshort)
    | cons => exact (hplain colon (by simp)).1 rfl
  | @cons group rest word words h hrest ih =>
    have hlater : dot ∈ rest := by
      rcases List.mem_append.mp hdot with hin | hin
      · exact absurd hin h.no_dot
      · exact (List.mem_cons.mp hin).resolve_left (by decide)
    generalize hwhole : group ++ colon :: rest = whole at h'
    cases h' with
    | hex h' => exact h'.no_colon colon (by simp [← hwhole]) rfl
    | dotted h' => exact ((octets_plain h'.1).2 colon (by simp [← hwhole])).1 rfl
    | cons h' hrest' =>
      obtain rfl := cons_inj h h' hwhole
      exact ih hlater hrest'

theorem accepted_iff : WordsText Short Anything text words ↔
    Common text words ∨ Misplaced text words := by
  constructor
  · intro h
    cases h with
    | full h hlength => exact .inl (.full h hlength)
    | @compressed left right leftWords rightWords hleft _ hright hlength =>
      by_cases hdot : dot ∈ left
      · exact .inr (.before hleft hdot hright hlength)
      · exact .inl (.compressed hleft hdot hright hlength)
  · rintro (h | h)
    · exact h.mono (fun _ hshort => hshort) fun _ _ => trivial
    · cases h with
      | before hleft _ hright hlength => exact .compressed hleft trivial hright hlength

theorem rfc4291_iff : Rfc4291 text words ↔ Common text words ∨ LongDotted text words := by
  constructor
  · intro h
    cases h with
    | full h hlength =>
      rcases groups_short_or_long h with hshort | ⟨hlong, hdot⟩
      · exact .inl (.full hshort hlength)
      · exact .inr ⟨.full hlong hlength, hdot⟩
    | compressed hleft hplain hright hlength =>
      cases hright with
      | empty => exact .inl (.compressed (side_no_dot hleft hplain) hplain .empty hlength)
      | groups hright =>
        rcases groups_short_or_long hright with hshort | ⟨hlong, hdot⟩
        · exact .inl (.compressed (side_no_dot hleft hplain) hplain (.groups hshort) hlength)
        · exact .inr ⟨.compressed (side_no_dot hleft hplain) hplain (.groups hlong) hlength,
            by simp [hdot]⟩
  · rintro (h | ⟨h, _⟩)
    · exact h.mono (fun _ _ => trivial) fun _ hplain => hplain
    · exact h.mono (fun _ _ => trivial) fun _ hplain => hplain

/-- The parts around the double colon are determined by the text. -/
theorem sides_inj {left right left' right' : List UInt8} {leftWords leftWords' : List UInt16}
    (h : Side dotted left leftWords) (h' : Side dotted' left' leftWords')
    (heq : left ++ colon :: colon :: right = left' ++ colon :: colon :: right') :
    left = left' ∧ right = right' := by
  have hfound := split_found h right
  rw [heq, split_found h' right'] at hfound
  obtain ⟨hleft, hright⟩ := Prod.mk.inj (Option.some.inj hfound)
  exact ⟨hleft.symm, hright.symm⟩

theorem groups_not_sides {left right : List UInt8} {leftWords : List UInt16}
    (h : Groups dotted text words) (hleft : Side dotted' left leftWords) :
    text ≠ left ++ colon :: colon :: right := by
  rintro rfl
  have hnone := split_none (.groups h)
  rw [split_found hleft right] at hnone
  cases hnone

theorem misplaced_not_rfc {words' : List UInt16} (h : Misplaced text words) :
    ¬ Rfc4291 text words' := by
  intro h'
  cases h with
  | @before left right leftWords rightWords hleft hdot hright hlength =>
    generalize hwhole : left ++ colon :: colon :: right = whole at h'
    cases h' with
    | full h' => exact groups_not_sides h' hleft hwhole.symm
    | compressed hleft' hplain =>
      obtain ⟨rfl, _⟩ := sides_inj hleft hleft' hwhole
      exact hplain hdot

theorem long_not_accepted {words' : List UInt16} (h : LongDotted text words) :
    ¬ WordsText Short Anything text words' := by
  intro h'
  obtain ⟨h, hdot⟩ := h
  cases h with
  | full h =>
    generalize text = whole at h h' hdot
    cases h' with
    | full h' => exact groups_long_short h hdot h'
    | compressed hleft' => exact groups_not_sides h hleft' rfl
  | @compressed left right leftWords rightWords hleft hplain hright =>
    generalize hwhole : left ++ colon :: colon :: right = whole at h'
    cases h' with
    | full h' => exact groups_not_sides h' hleft hwhole.symm
    | compressed hleft' _ hright' =>
      obtain ⟨rfl, rfl⟩ := sides_inj hleft hleft' hwhole
      have hlater : dot ∈ right := by
        rcases List.mem_append.mp hdot with hin | hin
        · exact absurd hin hplain
        · simpa [show dot ≠ colon by decide] using hin
      cases hright with
      | empty => cases hlater
      | groups hright =>
        cases hright' with
        | empty => cases hlater
        | groups hright' => exact groups_long_short hright hlater hright'

theorem misplaced_plain (h : Misplaced text words) : text ≠ [] ∧ percent ∉ text :=
  wordsText_plain (accepted_iff.mpr (.inr h))

variable {address address' : List UInt8 → List UInt16 → Prop}

theorem literalText_or (h : ∀ text words, address text words ∨ address' text words →
    text ≠ [] ∧ percent ∉ text) :
    LiteralText (fun text words => address text words ∨ address' text words) allow src addr scope ↔
      LiteralText address allow src addr scope ∨ LiteralText address' allow src addr scope := by
  rw [literalText_iff h, literalText_iff fun text words hone => h text words (.inl hone),
    literalText_iff fun text words hother => h text words (.inr hother), ← exists_or]
  apply exists_congr
  intro text
  rw [← and_or_left, ← exists_or]
  simp only [or_and_right]

theorem literalText_apart {addr' : List UInt8} {scope' : ℕ}
    (hplain : ∀ text words, address text words → text ≠ [] ∧ percent ∉ text)
    (hplain' : ∀ text words, address' text words → text ≠ [] ∧ percent ∉ text)
    (hapart : ∀ text words words', address text words → ¬ address' text words')
    (h : LiteralText address allow src addr scope) :
    ¬ LiteralText address' allow src addr' scope' := by
  intro h'
  obtain ⟨text, hsplit, words, haddress, _⟩ := (literalText_iff hplain).mp h
  obtain ⟨text', hsplit', words', haddress', _⟩ := (literalText_iff hplain').mp h'
  rw [hsplit] at hsplit'
  obtain ⟨rfl, _⟩ := Prod.mk.inj (Option.some.inj hsplit')
  exact hapart text words words' haddress haddress'

/-- The parser accepts a text exactly when it is one of RFC 4291, with its value. -/
def Ipv6Exact (src : List UInt8) (allow : Bool) : Prop :=
  ∀ addr scope, parseIpv6Literal src allow = some (addr, scope) ↔
    LiteralText Rfc4291 allow src addr scope

theorem ipv6Exact_iff : Ipv6Exact src allow ↔
    (∀ addr scope, ¬ LiteralText Misplaced allow src addr scope) ∧
      ∀ addr scope, ¬ LiteralText LongDotted allow src addr scope := by
  have hrfc : ∀ text words, Rfc4291 text words → text ≠ [] ∧ percent ∉ text :=
    fun _ _ => wordsText_plain
  have hcommon : ∀ text words, Common text words ∨ Misplaced text words →
      text ≠ [] ∧ percent ∉ text := fun _ _ h => wordsText_plain (accepted_iff.mpr h)
  have hlong : ∀ text words, Common text words ∨ LongDotted text words →
      text ≠ [] ∧ percent ∉ text := fun _ _ h => wordsText_plain (rfc4291_iff.mpr h)
  have haccepted : WordsText Short Anything =
      fun text words => Common text words ∨ Misplaced text words :=
    funext fun _ => funext fun _ => propext accepted_iff
  have hliteral : Rfc4291 = fun text words => Common text words ∨ LongDotted text words :=
    funext fun _ => funext fun _ => propext rfc4291_iff
  constructor
  · intro h
    constructor
    · intro addr scope hmisplaced
      refine literalText_apart (fun _ _ => misplaced_plain) hrfc
        (fun _ _ _ hone => misplaced_not_rfc hone) hmisplaced ((h addr scope).mp ?_)
      rw [parseIpv6Literal_iff, haccepted, literalText_or hcommon]
      exact .inr hmisplaced
    · intro addr scope hdotted
      refine literalText_apart (fun _ _ hone => wordsText_plain hone.1) (fun _ _ => wordsText_plain)
        (fun _ _ _ hone => long_not_accepted hone) hdotted
        (parseIpv6Literal_iff.mp ((h addr scope).mpr ?_))
      rw [hliteral, literalText_or hlong]
      exact .inr hdotted
  · rintro ⟨hmisplaced, hdotted⟩ addr scope
    rw [parseIpv6Literal_iff, haccepted, literalText_or hcommon, hliteral, literalText_or hlong]
    simp only [hmisplaced, hdotted, or_false]

end JaszczurHal.NetLiterals
