import Mathlib.Tactic

/-!
# Texts in UTF-8

A text is the bytes of its characters. A byte that does not continue a character
starts one, so a text can be cut in front of it; behind an ASCII byte a text can
be cut too.
-/

set_option autoImplicit false

namespace JaszczurHal.Utf8Texts

def Utf8 (text : List UInt8) : Prop :=
  ∃ chars : List Char, text = chars.flatMap String.utf8EncodeChar

def continuation (b : UInt8) : Bool := b &&& 0xC0 == 0x80

theorem continuation_tail : ∀ x : Fin 64, continuation (UInt8.ofNat (x+128)) = true := by
  decide +kernel

theorem start_two : ∀ x : Fin 32, continuation (UInt8.ofNat (x+192)) = false ∧
    ¬ UInt8.ofNat (x+192) < 0x80 := by
  decide +kernel

theorem start_three : ∀ x : Fin 16, continuation (UInt8.ofNat (x+224)) = false ∧
    ¬ UInt8.ofNat (x+224) < 0x80 := by
  decide +kernel

theorem start_four : ∀ x : Fin 8, continuation (UInt8.ofNat (x+240)) = false ∧
    ¬ UInt8.ofNat (x+240) < 0x80 := by
  decide +kernel

theorem start_one : ∀ x : Fin 128, continuation (UInt8.ofNat x) = false := by decide +kernel

/-- The first byte of a character starts it, and the other bytes continue it. -/
theorem encode_shape (c : Char) : ∃ first tail, String.utf8EncodeChar c = first :: tail ∧
    continuation first = false ∧ (∀ b ∈ tail, continuation b = true) ∧
      (first < 0x80 → tail = []) := by
  have htail : ∀ n, continuation (UInt8.ofNat (n%64+128)) = true := fun n =>
    continuation_tail ⟨n%64, Nat.mod_lt n (by decide)⟩
  rw [String.utf8EncodeChar]
  generalize c.val.toNat = v
  split_ifs with hone htwo hthree
  · exact ⟨_, _, rfl, start_one ⟨v, Nat.lt_succ_of_le hone⟩, nofun, fun _ => rfl⟩
  · obtain ⟨hstart, hlarge⟩ := start_two ⟨v/64%32, Nat.mod_lt _ (by decide)⟩
    refine ⟨_, _, rfl, hstart, ?_, fun hsmall => absurd hsmall hlarge⟩
    rintro b hb
    rw [List.mem_singleton.mp hb]
    exact htail _
  · obtain ⟨hstart, hlarge⟩ := start_three ⟨v/4096%16, Nat.mod_lt _ (by decide)⟩
    refine ⟨_, _, rfl, hstart, ?_, fun hsmall => absurd hsmall hlarge⟩
    simp only [List.forall_mem_cons]
    exact ⟨htail _, htail _, nofun⟩
  · obtain ⟨hstart, hlarge⟩ := start_four ⟨v/262144%8, Nat.mod_lt _ (by decide)⟩
    refine ⟨_, _, rfl, hstart, ?_, fun hsmall => absurd hsmall hlarge⟩
    simp only [List.forall_mem_cons]
    exact ⟨htail _, htail _, htail _, nofun⟩

variable {text more : List UInt8}

theorem Utf8.nil : Utf8 [] := ⟨[], rfl⟩

theorem Utf8.append (h : Utf8 text) (hmore : Utf8 more) : Utf8 (text ++ more) := by
  obtain ⟨chars, rfl⟩ := h
  obtain ⟨others, rfl⟩ := hmore
  exact ⟨chars ++ others, by rw [List.flatMap_append]⟩

theorem Utf8.cases (h : Utf8 text) (hne : text ≠ []) : ∃ first tail rest,
    text = first :: tail ++ rest ∧ Utf8 (first :: tail) ∧ Utf8 rest ∧
      continuation first = false ∧ (∀ b ∈ tail, continuation b = true) ∧
        (first < 0x80 → tail = []) := by
  obtain ⟨chars, rfl⟩ := h
  cases chars with
  | nil => exact absurd rfl hne
  | cons c chars =>
    obtain ⟨first, tail, hshape, hfacts⟩ := encode_shape c
    refine ⟨first, tail, chars.flatMap String.utf8EncodeChar, ?_, ⟨[c], ?_⟩, ⟨chars, rfl⟩, hfacts⟩
    · rw [List.flatMap_cons, hshape]
    · rw [List.flatMap_singleton, hshape]

theorem Utf8.first (h : Utf8 text) : text.head?.all (fun b => !continuation b) = true := by
  by_cases hne : text = []
  · rw [hne]
    rfl
  · obtain ⟨first, tail, rest, rfl, _, _, hstart, _⟩ := h.cases hne
    simp [hstart]

structure Boundary (text : List UInt8) (n : ℕ) : Prop where
  inside : n ≤ text.length
  before : Utf8 (text.take n)
  after : Utf8 (text.drop n)

theorem Boundary.whole (h : Utf8 text) : Boundary text text.length := by
  refine ⟨Nat.le_refl _, ?_, ?_⟩
  · rwa [List.take_length]
  · rw [List.drop_length]
    exact .nil

theorem Boundary.byte {n : ℕ} {b : UInt8} (h : Boundary text n) (hb : text[n]? = some b) :
    continuation b = false := by
  have hfirst := h.after.first
  rw [List.head?_drop, hb] at hfirst
  simpa using hfirst

theorem Boundary.cons {head rest : List UInt8} {n : ℕ} (hhead : Utf8 head)
    (h : Boundary rest n) : Boundary (head ++ rest) (head.length+n) := by
  obtain ⟨hinside, hbefore, hafter⟩ := h
  refine ⟨?_, ?_, ?_⟩
  · rw [List.length_append]
    omega
  · rw [List.take_length_add_append]
    exact hhead.append hbefore
  · rwa [List.drop_length_add_append]

/-- A text can be cut in front of a byte that starts a character. -/
theorem Boundary.of_byte (h : Utf8 text) {n : ℕ} {b : UInt8} (hb : text[n]? = some b)
    (hstart : continuation b = false) : Boundary text n := by
  obtain ⟨chars, rfl⟩ := h
  induction chars generalizing n with
  | nil => cases hb
  | cons c chars ih =>
    obtain ⟨first, tail, hshape, _, htail, _⟩ := encode_shape c
    have hchar : Utf8 (first :: tail) := ⟨[c], by rw [List.flatMap_singleton, hshape]⟩
    rw [List.flatMap_cons, hshape] at hb ⊢
    rcases Nat.lt_or_ge n (first :: tail).length with hinside | hlater
    · cases n with
      | zero => exact ⟨Nat.zero_le _, .nil, hchar.append ⟨chars, rfl⟩⟩
      | succ n =>
        -- The byte is in the middle of this character.
        rw [List.getElem?_append_left hinside, List.getElem?_cons_succ] at hb
        have hcontinues := htail b (List.mem_of_getElem? hb)
        rw [hstart] at hcontinues
        cases hcontinues
    · obtain ⟨m, rfl⟩ := Nat.exists_eq_add_of_le hlater
      rw [List.getElem?_append_right hlater, Nat.add_sub_cancel_left] at hb
      exact (ih hb).cons hchar

theorem ascii_start : ∀ b : UInt8, b < 0x80 → continuation b = false := by
  intro b hb
  have hfin := start_one ⟨b.toNat, hb⟩
  rwa [UInt8.ofNat_toNat] at hfin

theorem Boundary.after_ascii (h : Utf8 text) {n : ℕ} {b : UInt8} (hb : text[n]? = some b)
    (hascii : b < 0x80) : Boundary text (n+1) := by
  have hcut := Boundary.of_byte h hb (ascii_start b hascii)
  have hlt := (List.getElem?_eq_some_iff.mp hb).1
  have hne : text.drop n ≠ [] := by
    rw [Ne, List.drop_eq_nil_iff, Nat.not_le]
    exact hlt
  obtain ⟨first, tail, rest, hdrop, hchar, hrest, _, _, hsingle⟩ := hcut.after.cases hne
  have hfirst : first = b := by
    have hhead := congrArg List.head? hdrop
    rw [List.head?_drop, hb] at hhead
    exact (Option.some.inj hhead).symm
  rw [hsingle (hfirst ▸ hascii)] at hdrop hchar
  refine ⟨hlt, ?_, ?_⟩
  · rw [List.take_add, hdrop]
    exact hcut.before.append hchar
  · rw [← List.drop_drop, hdrop]
    exact hrest

end JaszczurHal.Utf8Texts
