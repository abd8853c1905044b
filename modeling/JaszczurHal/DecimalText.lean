import Mathlib.Algebra.GroupWithZero.Nat
import Mathlib.Data.List.Induction
import Mathlib.Data.Nat.Notation

/-!
# Shortest decimal numbers

A number has one text without a leading zero, and a text has one number. A
number that is followed by no digit can be told from what follows it.
-/

set_option autoImplicit false

namespace JaszczurHal.DecimalText

def digitByte (b : UInt8) : Bool := decide (48 ≤ b) && decide (b ≤ 57)

def digit (b : UInt8) : ℕ := b.toNat - 48

def valueFrom (value : ℕ) (digits : List UInt8) : ℕ :=
  digits.foldl (fun value b => value * 10 + digit b) value

def decimal (n : ℕ) : List UInt8 := (Nat.toDigits 10 n).map fun c => UInt8.ofNat c.toNat

structure Shortest (text : List UInt8) : Prop where
  digits : ∀ b ∈ text, digitByte b = true
  nonempty : text ≠ []
  leading : 1 < text.length → text.head? ≠ some 48

def Stops (rest : List UInt8) : Prop := ∀ b, rest.head? = some b → digitByte b = false

theorem digitByte_iff (b : UInt8) : digitByte b = true ↔ 48 ≤ b.toNat ∧ b.toNat ≤ 57 := by
  simp [digitByte, UInt8.le_iff_toNat_le]

theorem digit_lt {b : UInt8} (h : digitByte b = true) : digit b < 10 := by
  rw [digitByte_iff] at h
  unfold digit
  omega

theorem digit_byte {d : ℕ} (h : d < 10) :
    digitByte (UInt8.ofNat (48 + d)) = true ∧ digit (UInt8.ofNat (48 + d)) = d := by
  have hnat : (UInt8.ofNat (48 + d)).toNat = 48 + d := by
    simp only [UInt8.toNat_ofNat']
    omega
  rw [digitByte_iff, digit, hnat]
  omega

theorem byte_digit {b : UInt8} (h : digitByte b = true) : UInt8.ofNat (48 + digit b) = b := by
  rw [digitByte_iff] at h
  have hsum : 48 + digit b = b.toNat := by
    unfold digit
    omega
  rw [hsum, UInt8.ofNat_toNat]

theorem digitChar_byte : ∀ d : Fin 10, UInt8.ofNat (Nat.digitChar d).toNat = UInt8.ofNat (48 + d) := by
  decide

theorem decimal_small {d : ℕ} (h : d < 10) : decimal d = [UInt8.ofNat (48 + d)] := by
  rw [decimal, Nat.toDigits_of_lt_base h]
  exact congrArg (fun b => [b]) (digitChar_byte ⟨d, h⟩)

theorem decimal_step {n d : ℕ} (hn : 0 < n) (hd : d < 10) :
    decimal (n * 10 + d) = decimal n ++ [UInt8.ofNat (48 + d)] := by
  rw [← decimal_small hd, decimal, decimal, decimal, ← List.map_append,
    Nat.toDigits_append_toDigits (by omega) hn hd, Nat.mul_comm]

theorem valueFrom_append (value : ℕ) (text : List UInt8) (b : UInt8) :
    valueFrom value (text ++ [b]) = valueFrom value text * 10 + digit b := by
  simp [valueFrom]

theorem valueFrom_ge (value : ℕ) (text : List UInt8) : value ≤ valueFrom value text := by
  induction text generalizing value with
  | nil => exact Nat.le_refl _
  | cons b text ih =>
    have hle := ih (value * 10 + digit b)
    simp only [valueFrom, List.foldl_cons] at hle ⊢
    omega

theorem decimal_cases (n : ℕ) :
    (n < 10 ∧ decimal n = [UInt8.ofNat (48 + n)]) ∨
      (0 < n / 10 ∧ decimal n = decimal (n / 10) ++ [UInt8.ofNat (48 + n % 10)]) := by
  by_cases h : n < 10
  · exact Or.inl ⟨h, decimal_small h⟩
  · right
    have hn : 0 < n / 10 := by omega
    have hstep := decimal_step hn (Nat.mod_lt n (by omega : 0 < 10))
    rw [Nat.div_add_mod'] at hstep
    exact ⟨hn, hstep⟩

theorem decimal_ne_nil (n : ℕ) : decimal n ≠ [] := by
  cases decimal_cases n with
  | inl h => simp [h.2]
  | inr h => simp [h.2]

theorem valueFrom_decimal (n : ℕ) : valueFrom 0 (decimal n) = n := by
  induction n using Nat.strongRecOn with
  | ind n ih =>
    cases decimal_cases n with
    | inl h =>
      have hdigit := (digit_byte h.1).2
      rw [h.2]
      simp only [valueFrom, List.foldl_cons, List.foldl_nil, Nat.zero_mul, Nat.zero_add]
      exact hdigit
    | inr h =>
      have hdigit := (digit_byte (Nat.mod_lt n (by omega : 0 < 10))).2
      rw [h.2, valueFrom_append, ih (n / 10) (by omega), hdigit]
      omega

theorem decimal_digits (n : ℕ) : ∀ b ∈ decimal n, digitByte b = true := by
  induction n using Nat.strongRecOn with
  | ind n ih =>
    intro b hb
    cases decimal_cases n with
    | inl h =>
      rw [h.2, List.mem_singleton] at hb
      rw [hb]
      exact (digit_byte h.1).1
    | inr h =>
      rw [h.2, List.mem_append, List.mem_singleton] at hb
      cases hb with
      | inl hb => exact ih (n / 10) (by omega) b hb
      | inr hb =>
        rw [hb]
        exact (digit_byte (Nat.mod_lt n (by omega : 0 < 10))).1

theorem head_append {text rest : List UInt8} (h : text ≠ []) :
    (text ++ rest).head? = text.head? := by
  cases text with
  | nil => contradiction
  | cons b text => rfl

theorem decimal_head {n : ℕ} (hn : 0 < n) : (decimal n).head? ≠ some 48 := by
  induction n using Nat.strongRecOn with
  | ind n ih =>
    cases decimal_cases n with
    | inl h =>
      have hnat : (UInt8.ofNat (48 + n)).toNat = 48 + n := by
        simp only [UInt8.toNat_ofNat']
        omega
      rw [h.2, List.head?_cons]
      intro heq
      have hzero := congrArg UInt8.toNat (Option.some.inj heq)
      rw [hnat] at hzero
      simp at hzero
      omega
    | inr h =>
      rw [h.2, head_append (decimal_ne_nil _)]
      exact ih (n / 10) (by omega) h.1

theorem decimal_shortest (n : ℕ) : Shortest (decimal n) := by
  constructor
  · exact decimal_digits n
  · exact decimal_ne_nil n
  · intro hlength
    by_cases hn : 0 < n
    · exact decimal_head hn
    · have hzero : n = 0 := by omega
      rw [hzero, decimal_small (by omega)] at hlength
      simp at hlength

/-- A text without a leading zero is the text of its number. -/
theorem decimal_value {text : List UInt8} (h : Shortest text) :
    decimal (valueFrom 0 text) = text := by
  induction text using List.reverseRecOn with
  | nil => exact absurd rfl h.nonempty
  | append_singleton text b ih =>
    have hb := h.digits b (by simp)
    rw [valueFrom_append]
    by_cases hnil : text = []
    · rw [hnil]
      simp only [valueFrom, List.foldl_nil, Nat.zero_mul, Nat.zero_add, List.nil_append]
      rw [decimal_small (digit_lt hb), byte_digit hb]
    · have hlong : 1 < (text ++ [b]).length := by
        have hpos := List.length_pos_iff.mpr hnil
        simp
        omega
      have hhead := h.leading hlong
      rw [head_append hnil] at hhead
      have htext := ih ⟨fun c hc => h.digits c (by simp [hc]), hnil, fun _ => hhead⟩
      have hpos : 0 < valueFrom 0 text := by
        apply Nat.pos_of_ne_zero
        intro hzero
        rw [hzero, decimal_small (by omega)] at htext
        rw [← htext] at hhead
        simp at hhead
      rw [decimal_step hpos (digit_lt hb), htext, byte_digit hb]

theorem decimal_inj {n m : ℕ} (h : decimal n = decimal m) : n = m := by
  rw [← valueFrom_decimal n, h, valueFrom_decimal]

theorem takeWhile_digits {text rest : List UInt8} (htext : ∀ b ∈ text, digitByte b = true)
    (hrest : Stops rest) : (text ++ rest).takeWhile digitByte = text := by
  rw [List.takeWhile_append_of_pos htext]
  cases rest with
  | nil => simp
  | cons b rest => simp [hrest b rfl]

theorem decimal_length {n k : ℕ} (h : n < 10 ^ (k + 1)) : (decimal n).length ≤ k + 1 := by
  induction k generalizing n with
  | zero => simp [decimal_small (show n < 10 by simpa using h)]
  | succ k ih =>
    cases decimal_cases n with
    | inl hsmall => simp [hsmall.2]
    | inr hlarge =>
      have hdiv : n / 10 < 10 ^ (k + 1) := by
        rw [Nat.div_lt_iff_lt_mul (by omega), ← Nat.pow_succ]
        exact h
      have hlength := ih hdiv
      rw [hlarge.2, List.length_append, List.length_singleton]
      omega

/-- A number ends where the next byte is not a digit. -/
theorem decimal_append_inj {n m : ℕ} {rest rest' : List UInt8} (hrest : Stops rest)
    (hrest' : Stops rest') (h : decimal n ++ rest = decimal m ++ rest') : n = m ∧ rest = rest' := by
  have htake := congrArg (List.takeWhile digitByte) h
  rw [takeWhile_digits (decimal_digits n) hrest, takeWhile_digits (decimal_digits m) hrest'] at htake
  rw [htake, List.append_cancel_left_eq] at h
  exact ⟨decimal_inj htake, h⟩

theorem stops_cons {b : UInt8} {rest : List UInt8} (h : digitByte b = false) : Stops (b :: rest) := by
  intro c hc
  cases hc
  exact h

end JaszczurHal.DecimalText
