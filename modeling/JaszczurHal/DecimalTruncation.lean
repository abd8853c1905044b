import JaszczurHal.DecimalText
import Mathlib.Algebra.Order.Field.Power
import Mathlib.Algebra.Order.Ring.Rat
import Mathlib.Order.Compare
import Mathlib.Tactic.Linarith
import Mathlib.Tactic.Positivity
import Mathlib.Tactic.Ring

/-!
# Decimals cut after some digits

The value of a text of digits by its pieces, and what a decimal of few digits
can tell of a value that is cut after more.
-/

set_option autoImplicit false

namespace JaszczurHal.DecimalTruncation
open DecimalText

def Significant (n : ℕ) (w : ℚ) : Prop := ∃ m k : ℤ, w = m * 10 ^ k ∧ |m| < 10 ^ n

theorem significant_neg {n : ℕ} {w : ℚ} (h : Significant n w) : Significant n (-w) := by
  obtain ⟨m, k, hw, hm⟩ := h
  refine ⟨-m, k, ?_, ?_⟩
  · rw [hw]
    push_cast
    ring
  · rwa [abs_neg]

theorem significant_power {n : ℕ} (hn : 0 < n) (k : ℤ) : Significant n (10 ^ k) := by
  refine ⟨1, k, ?_, ?_⟩
  · simp
  · rw [abs_one]
    exact one_lt_pow₀ (by norm_num) (by omega)

theorem power_pos (k : ℤ) : (0 : ℚ) < 10 ^ k := zpow_pos (by norm_num) k

theorem power_le {j k : ℤ} (h : j ≤ k) : (10 : ℚ) ^ j ≤ 10 ^ k :=
  zpow_le_zpow_right₀ (by norm_num) h

/-- What follows `n + 1` digits is nothing that `n` digits can tell. -/
theorem cut_compare {n x : ℕ} (hx : 10 ^ n ≤ x) (s : ℤ) {r w : ℚ} (hw : Significant n w)
    (hr : 0 < r) (hr' : r < 1) :
    cmp ((x + r) * 10 ^ s) w = if w ≤ x * 10 ^ s then .gt else .lt := by
  have hs := power_pos s
  by_cases hle : w ≤ x * 10 ^ s
  · rw [if_pos hle, cmp_eq_gt_iff]
    calc
      w ≤ x * 10 ^ s := hle
      _ < (x + r) * 10 ^ s := by
        apply mul_lt_mul_of_pos_right _ hs
        linarith
  · rw [if_neg hle, cmp_eq_lt_iff]
    rw [not_le] at hle
    obtain ⟨m, k, rfl, hm⟩ := hw
    by_cases hk : s ≤ k
    · obtain ⟨j, hj⟩ := Int.le.dest hk
      have hwhole : (m : ℚ) * 10 ^ k = ((m * 10 ^ j : ℤ) : ℚ) * 10 ^ s := by
        rw [← hj, zpow_add₀ (by norm_num), zpow_natCast]
        push_cast
        ring
      rw [hwhole] at hle ⊢
      have hless : (x : ℚ) < ((m * 10 ^ j : ℤ) : ℚ) := lt_of_mul_lt_mul_right hle hs.le
      have hnext : (x : ℤ) + 1 ≤ m * 10 ^ j := by exact_mod_cast hless
      have hnext : (x : ℚ) + 1 ≤ ((m * 10 ^ j : ℤ) : ℚ) := by exact_mod_cast hnext
      apply mul_lt_mul_of_pos_right _ hs
      linarith
    · -- fewer places than the kept digits: too small to lie above them
      have hbound : (m : ℚ) * 10 ^ k ≤ x * 10 ^ s := by
        have hm' : (m : ℚ) ≤ 10 ^ n := by
          have hself := (le_abs_self m).trans hm.le
          exact_mod_cast hself
        have hx' : ((10 : ℚ)) ^ n ≤ x := by exact_mod_cast hx
        calc
          (m : ℚ) * 10 ^ k ≤ 10 ^ n * 10 ^ k := mul_le_mul_of_nonneg_right hm' (power_pos k).le
          _ ≤ x * 10 ^ s := mul_le_mul hx' (power_le (by omega)) (power_pos k).le (by positivity)
      linarith

theorem valueFrom_scale (value : ℕ) (text : List UInt8) :
    valueFrom value text = value * 10 ^ text.length + valueFrom 0 text := by
  induction text using List.reverseRecOn with
  | nil => simp [valueFrom]
  | append_singleton text b ih =>
    rw [valueFrom_append, valueFrom_append, ih, List.length_append, List.length_singleton]
    ring

theorem value_append (text rest : List UInt8) :
    valueFrom 0 (text ++ rest) = valueFrom 0 text * 10 ^ rest.length + valueFrom 0 rest := by
  rw [← valueFrom_scale]
  exact List.foldl_append

theorem value_cons (b : UInt8) (rest : List UInt8) :
    valueFrom 0 (b :: rest) = digit b * 10 ^ rest.length + valueFrom 0 rest := by
  have hsplit := value_append [b] rest
  simpa [valueFrom] using hsplit

theorem value_lt {text : List UInt8} (h : ∀ b ∈ text, digitByte b = true) :
    valueFrom 0 text < 10 ^ text.length := by
  induction text with
  | nil => simp [valueFrom]
  | cons b rest ih =>
    have hb := digit_lt (h b (List.mem_cons_self ..))
    have hrest := ih fun c hc => h c (List.mem_cons_of_mem _ hc)
    rw [value_cons, List.length_cons, pow_succ]
    nlinarith [Nat.pow_pos (n := rest.length) (show 0 < 10 by omega)]

theorem value_ge {b : UInt8} {rest : List UInt8} (hb : digitByte b = true) (hzero : b ≠ 48) :
    10 ^ rest.length ≤ valueFrom 0 (b :: rest) := by
  have hdigit : 1 ≤ digit b := by
    rw [digitByte_iff] at hb
    have hne : b.toNat ≠ 48 := fun h => hzero (UInt8.toNat_inj.mp h)
    unfold digit
    omega
  rw [value_cons]
  nlinarith [Nat.pow_pos (n := rest.length) (show 0 < 10 by omega)]

theorem value_zeros (text : List UInt8) :
    valueFrom 0 (text.dropWhile (· == 48)) = valueFrom 0 text := by
  induction text with
  | nil => rfl
  | cons b rest ih =>
    by_cases hb : b = 48
    · rw [List.dropWhile_cons_of_pos (by simp [hb]), ih, value_cons, hb]
      simp [digit]
    · rw [List.dropWhile_cons_of_neg (by simp [hb])]

theorem value_zero {text : List UInt8} (h : ∀ b ∈ text, b = 48) : valueFrom 0 text = 0 := by
  induction text with
  | nil => rfl
  | cons b rest ih =>
    rw [value_cons, h b (List.mem_cons_self ..), ih fun c hc => h c (List.mem_cons_of_mem _ hc)]
    simp [digit]

theorem value_pos {text : List UInt8} (hdigits : ∀ b ∈ text, digitByte b = true) {b : UInt8}
    (hb : b ∈ text) (hzero : b ≠ 48) : 0 < valueFrom 0 text := by
  obtain ⟨front, back, rfl⟩ := List.append_of_mem hb
  have hge : 10 ^ back.length ≤ valueFrom 0 (b :: back) := value_ge (hdigits b (by simp)) hzero
  rw [value_append]
  have hpos := Nat.pow_pos (n := back.length) (show 0 < 10 by omega)
  omega

end JaszczurHal.DecimalTruncation
