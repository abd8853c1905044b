import Mathlib.Data.Nat.Bitwise
import Mathlib.Data.Nat.Notation
import Mathlib.Tactic.IntervalCases

/-!
# Bytes and the words made of them

A statement about one byte is decided by looking at all of them. Words are cut
into bytes and put together again, bit by bit.
-/

set_option autoImplicit false

namespace JaszczurHal.WordBits

theorem byte_forall {P : UInt8 → Prop} (h : ∀ i : Fin 256, P (UInt8.ofFin i)) (b : UInt8) : P b :=
  h b.toFin

instance byteForallDecidable (P : UInt8 → Prop) [DecidablePred P] : Decidable (∀ b, P b) :=
  decidable_of_iff (∀ i : Fin 256, P (UInt8.ofFin i)) ⟨byte_forall, fun h i => h (UInt8.ofFin i)⟩

def word (b₀ b₁ b₂ b₃ : UInt8) : UInt32 :=
  b₀.toUInt32 ||| b₁.toUInt32 <<< 8 ||| b₂.toUInt32 <<< 16 ||| b₃.toUInt32 <<< 24

def byte0 (x : UInt32) : UInt8 := x.toUInt8
def byte1 (x : UInt32) : UInt8 := (x >>> 8).toUInt8
def byte2 (x : UInt32) : UInt8 := (x >>> 16).toUInt8
def byte3 (x : UInt32) : UInt8 := (x >>> 24).toUInt8

variable (b₀ b₁ b₂ b₃ : UInt8)

theorem toBitVec_word : (word b₀ b₁ b₂ b₃).toBitVec = b₀.toBitVec.setWidth 32 |||
    b₁.toBitVec.setWidth 32 <<< 8 ||| b₂.toBitVec.setWidth 32 <<< 16 |||
    b₃.toBitVec.setWidth 32 <<< 24 := rfl

theorem byte0_word : byte0 (word b₀ b₁ b₂ b₃) = b₀ := by
  apply UInt8.toBitVec_inj.mp
  rw [byte0, UInt32.toBitVec_toUInt8, toBitVec_word]
  ext i hi
  interval_cases i <;> simp

theorem byte1_word : byte1 (word b₀ b₁ b₂ b₃) = b₁ := by
  apply UInt8.toBitVec_inj.mp
  rw [byte1, UInt32.toBitVec_toUInt8, UInt32.toBitVec_shiftRight, toBitVec_word]
  ext i hi
  interval_cases i <;> simp

theorem byte2_word : byte2 (word b₀ b₁ b₂ b₃) = b₂ := by
  apply UInt8.toBitVec_inj.mp
  rw [byte2, UInt32.toBitVec_toUInt8, UInt32.toBitVec_shiftRight, toBitVec_word]
  ext i hi
  interval_cases i <;> simp

theorem byte3_word : byte3 (word b₀ b₁ b₂ b₃) = b₃ := by
  apply UInt8.toBitVec_inj.mp
  rw [byte3, UInt32.toBitVec_toUInt8, UInt32.toBitVec_shiftRight, toBitVec_word]
  ext i hi
  interval_cases i <;> simp

theorem toNat_and_mask {y mask : UInt32} (n : ℕ) (h : mask.toNat = 2^n-1) :
    (y &&& mask).toNat = y.toNat%2^n := by
  rw [UInt32.toNat_and, h, Nat.and_two_pow_sub_one_eq_mod]

theorem and_le_mask {y mask : UInt32} (n : ℕ) (h : mask.toNat = 2^n-1) : y &&& mask ≤ mask := by
  apply UInt32.le_iff_toNat_le.mpr
  rw [toNat_and_mask n h, h]
  have hlt := Nat.mod_lt y.toNat (Nat.two_pow_pos n)
  omega

/-- A word that the mask has room for is not changed by it. -/
theorem and_mask {y mask : UInt32} (n : ℕ) (hmask : mask.toNat = 2^n-1) (h : y ≤ mask) :
    y &&& mask = y := by
  apply UInt32.toNat_inj.mp
  have hle : y.toNat ≤ mask.toNat := UInt32.le_iff_toNat_le.mp h
  have hpos := Nat.two_pow_pos n
  rw [toNat_and_mask n hmask, Nat.mod_eq_of_lt (by omega)]

theorem toNat_or_add {y z : UInt32} (n : ℕ) (hy : y.toNat%2^n = 0) (hz : z.toNat < 2^n) :
    (y ||| z).toNat = y.toNat+z.toNat := by
  have hsplit : y.toNat = (y.toNat/2^n) <<< n := by
    rw [Nat.shiftLeft_eq]
    exact (Nat.div_mul_cancel (Nat.dvd_of_mod_eq_zero hy)).symm
  rw [UInt32.toNat_or, hsplit, ← Nat.shiftLeft_add_eq_or_of_lt hz]

theorem parts_div {high low n : ℕ} (h : low < 2^n) : (high*2^n+low)/2^n = high := by
  rw [Nat.mul_comm, Nat.mul_add_div (Nat.two_pow_pos n), Nat.div_eq_of_lt h, Nat.add_zero]

theorem parts_mod {high low n : ℕ} (h : low < 2^n) : (high*2^n+low)%2^n = low := by
  rw [Nat.mul_comm, Nat.mul_add_mod, Nat.mod_eq_of_lt h]

/-- Words whose bits do not meet have none in common. -/
theorem and_apart {y z : UInt32} (n : ℕ) (hy : y.toNat < 2^n) (hz : z.toNat%2^n = 0) :
    y &&& z = 0 := by
  apply UInt32.toNat_inj.mp
  rw [UInt32.toNat_and]
  apply Nat.eq_of_testBit_eq
  intro i
  rw [Nat.testBit_and]
  by_cases hi : i < n
  · have hbit := congrArg (Nat.testBit · i) hz
    simp [Nat.testBit_mod_two_pow, hi] at hbit
    simp [hbit]
  · have hlt : y.toNat < 2^i := Nat.lt_of_lt_of_le hy (Nat.pow_le_pow_right (by decide) (by omega))
    simp [Nat.testBit_lt_two_pow hlt]

theorem or_and_distrib (y z mask : UInt32) :
    (y ||| z) &&& mask = (y &&& mask) ||| (z &&& mask) := by
  apply UInt32.toBitVec_inj.mp
  ext i hi
  simp [Bool.and_or_distrib_right]

end JaszczurHal.WordBits
