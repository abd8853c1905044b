import Mathlib.Tactic
import Mathlib.Data.Nat.Bitwise

/-!
# Serial numbers and a sliding window of them

Sequence numbers are compared in 32-bit serial arithmetic. As long as the
numbers in use lie less than `2^31` beyond some base, their offsets from that
base order them, and a newest number with a 32-bit window below it stands for
a set of offsets.
-/

set_option autoImplicit false

namespace JaszczurHal.SerialWindow

structure Window where
  newest : UInt32
  bits : UInt32
  deriving DecidableEq, Repr

def newer (sequence newest : UInt32) : Bool :=
  decide (sequence-newest ≠ 0) && decide (sequence-newest < 0x80000000)

def Window.seen (w : Window) (sequence : UInt32) : Bool :=
  if newer sequence w.newest then false
  else decide (32 ≤ w.newest-sequence) ||
    decide (w.bits &&& (1 <<< (w.newest-sequence)) ≠ 0)

def Window.mark (w : Window) (sequence : UInt32) : Window :=
  if newer sequence w.newest then
    ⟨sequence, if 32 ≤ sequence-w.newest then 1
      else w.bits <<< (sequence-w.newest) ||| 1⟩
  else if w.newest-sequence < 32 then
    ⟨w.newest, w.bits ||| 1 <<< (w.newest-sequence)⟩
  else w

def offset (base sequence : UInt32) : ℕ := (sequence-base).toNat

theorem offset_sub_toNat {base a b : UInt32} (h : offset base b ≤ offset base a) :
    (a-b).toNat = offset base a-offset base b := by
  have hsplit : a-b = (a-base)-(b-base) := by grind
  rw [hsplit]
  exact UInt32.toNat_sub_of_le _ _ (UInt32.le_iff_toNat_le.mpr h)

theorem offset_sub_wrap {base a b : UInt32} (h : offset base a < offset base b) :
    (a-b).toNat = 2^32-(offset base b-offset base a) := by
  have hsplit : a-b = (a-base)-(b-base) := by grind
  have ha := (a-base).toNat_lt
  have hb := (b-base).toNat_lt
  rw [hsplit, UInt32.toNat_sub]
  simp only [offset] at h ⊢
  omega

theorem newer_iff {base s n : UInt32} (hs : offset base s < 2^31) (hn : offset base n < 2^31) :
    newer s n = true ↔ offset base n < offset base s := by
  rw [newer, Bool.and_eq_true, decide_eq_true_iff, decide_eq_true_iff]
  rw [← UInt32.toNat_inj.ne, UInt32.lt_iff_toNat_lt]
  have hhalf : (0x80000000 : UInt32).toNat = 2^31 := rfl
  have hzero : (0 : UInt32).toNat = 0 := rfl
  rw [hhalf, hzero]
  by_cases h : offset base n < offset base s
  · rw [offset_sub_toNat h.le]
    omega
  · rcases Nat.lt_or_ge (offset base s) (offset base n) with hlt | hge
    · rw [offset_sub_wrap hlt]
      omega
    · rw [offset_sub_toNat (by omega)]
      omega

theorem offset_inj {base a b : UInt32} (h : offset base a = offset base b) : a = b := by
  have hsub : a-base = b-base := UInt32.toNat_inj.mp h
  grind

def bit (bits : UInt32) (d : ℕ) : Bool := bits.toNat.testBit d

theorem and_bit (bits d : UInt32) (hd : d.toNat < 32) :
    bits &&& 1 <<< d ≠ 0 ↔ bit bits d.toNat = true := by
  have hshift : ((1 : UInt32) <<< d).toNat = 2^d.toNat := by
    rw [UInt32.toNat_shiftLeft, Nat.mod_eq_of_lt hd, show (1 : UInt32).toNat = 1 from rfl,
      Nat.one_shiftLeft]
    exact Nat.mod_eq_of_lt (Nat.pow_lt_pow_right (by omega) hd)
  rw [← UInt32.toNat_inj.ne, UInt32.toNat_and, hshift, Nat.and_two_pow, bit]
  cases h : bits.toNat.testBit d.toNat with
  | false => simp
  | true =>
    have hpow : 0 < 2^d.toNat := Nat.two_pow_pos _
    simp

theorem or_bit (bits d : UInt32) (hd : d.toNat < 32) (k : ℕ) :
    bit (bits ||| 1 <<< d) k = (bit bits k || decide (d.toNat = k)) := by
  have hshift : ((1 : UInt32) <<< d).toNat = 2^d.toNat := by
    rw [UInt32.toNat_shiftLeft, Nat.mod_eq_of_lt hd, show (1 : UInt32).toNat = 1 from rfl,
      Nat.one_shiftLeft]
    exact Nat.mod_eq_of_lt (Nat.pow_lt_pow_right (by omega) hd)
  rw [bit, bit, UInt32.toNat_or, hshift, Nat.testBit_or, Nat.testBit_two_pow]

theorem shift_bit (bits d : UInt32) (hd : d.toNat < 32) (k : ℕ) (hk : k < 32) :
    bit (bits <<< d ||| 1) k = (decide (k = 0) || (decide (d.toNat ≤ k) && bit bits (k-d.toNat))) := by
  rw [bit, bit, UInt32.toNat_or, UInt32.toNat_shiftLeft, Nat.mod_eq_of_lt hd,
    Nat.testBit_or, Nat.testBit_mod_two_pow, Nat.testBit_shiftLeft,
    show (1 : UInt32).toNat = 2^0 from rfl, Nat.testBit_two_pow]
  simp [hk, Bool.or_comm, eq_comm]

/-- The window stands for the offsets `S`: the newest is the greatest of
them, and the bits tell which of the 32 up to it are in `S`. -/
structure Represents (base : UInt32) (w : Window) (S : Set ℕ) : Prop where
  range : offset base w.newest < 2^31
  newest : offset base w.newest ∈ S
  greatest : ∀ x ∈ S, x ≤ offset base w.newest
  bits : ∀ d < 32, bit w.bits d = true ↔
    d ≤ offset base w.newest ∧ offset base w.newest-d ∈ S

theorem represents_single {base s : UInt32} (hs : offset base s < 2^31) :
    Represents base ⟨s, 1⟩ {offset base s} := by
  refine ⟨hs, rfl, fun x hx => le_of_eq hx, fun d hd => ?_⟩
  have hone : bit 1 d = decide (0 = d) := Nat.testBit_two_pow (n := 0)
  dsimp only
  rw [hone, decide_eq_true_iff, Set.mem_singleton_iff]
  omega

/-- A number is taken as seen when it is in the set or too old to tell. -/
theorem represents_seen {base s : UInt32} {w : Window} {S : Set ℕ} (h : Represents base w S)
    (hs : offset base s < 2^31) : w.seen s = true ↔ offset base s ≤ offset base w.newest ∧
      (offset base s+32 ≤ offset base w.newest ∨ offset base s ∈ S) := by
  have hnewer := newer_iff hs h.range
  rw [Window.seen]
  by_cases hlt : offset base w.newest < offset base s
  · rw [if_pos (hnewer.mpr hlt)]
    simp only [Bool.false_eq_true, false_iff]
    omega
  · have hle : offset base s ≤ offset base w.newest := by omega
    have hdelta := offset_sub_toNat hle
    rw [if_neg (by rw [hnewer]; exact hlt), Bool.or_eq_true, decide_eq_true_iff,
      decide_eq_true_iff, UInt32.le_iff_toNat_le, hdelta, show (32 : UInt32).toNat = 32 from rfl]
    by_cases hfar : offset base s+32 ≤ offset base w.newest
    · constructor
      · exact fun _ => ⟨hle, Or.inl hfar⟩
      · exact fun _ => Or.inl (by omega)
    · rw [and_bit _ _ (by omega), hdelta, h.bits _ (by omega)]
      have hback : offset base w.newest-(offset base w.newest-offset base s) =
          offset base s := by omega
      rw [hback]
      constructor
      · rintro (hbad | ⟨_, hmem⟩)
        · omega
        · exact ⟨hle, Or.inr hmem⟩
      · rintro ⟨_, hbad | hmem⟩
        · omega
        · exact Or.inr ⟨by omega, hmem⟩

theorem represents_mark {base s : UInt32} {w : Window} {S : Set ℕ} (h : Represents base w S)
    (hs : offset base s < 2^31) :
    Represents base (w.mark s) (insert (offset base s) S) := by
  have hnewer := newer_iff hs h.range
  rw [Window.mark]
  by_cases hlt : offset base w.newest < offset base s
  · have hdelta := offset_sub_toNat hlt.le
    rw [if_pos (hnewer.mpr hlt)]
    refine ⟨hs, Set.mem_insert _ _, ?_, fun d hd => ?_⟩
    · rintro x (rfl | hx)
      · exact le_rfl
      · exact (h.greatest x hx).trans hlt.le
    have hkept : offset base s-d ∈ S → offset base s-offset base w.newest ≤ d := by
      intro hmem
      have := h.greatest _ hmem
      omega
    by_cases hfar : 32 ≤ s-w.newest
    · have hone : bit 1 d = decide (0 = d) := Nat.testBit_two_pow (n := 0)
      have hfar' := UInt32.le_iff_toNat_le.mp hfar
      rw [hdelta, show (32 : UInt32).toNat = 32 from rfl] at hfar'
      dsimp only
      rw [if_pos hfar, hone, decide_eq_true_iff, Set.mem_insert_iff]
      constructor
      · rintro rfl
        exact ⟨Nat.zero_le _, Or.inl rfl⟩
      · rintro ⟨hle, heq | hmem⟩
        · omega
        · have := hkept hmem
          omega
    · have hnear := UInt32.lt_iff_toNat_lt.mp (UInt32.not_le.mp hfar)
      rw [hdelta, show (32 : UInt32).toNat = 32 from rfl] at hnear
      dsimp only
      rw [if_neg hfar, shift_bit _ _ (by omega) _ hd, hdelta, Set.mem_insert_iff]
      simp only [Bool.or_eq_true, Bool.and_eq_true, decide_eq_true_iff]
      rw [h.bits _ (by omega)]
      constructor
      · rintro (rfl | ⟨hd', hle, hmem⟩)
        · exact ⟨Nat.zero_le _, Or.inl rfl⟩
        · have hsame : offset base w.newest-(d-(offset base s-offset base w.newest)) =
              offset base s-d := by omega
          exact ⟨by omega, Or.inr (hsame ▸ hmem)⟩
      · rintro ⟨hle, heq | hmem⟩
        · exact Or.inl (by omega)
        · have hd' := hkept hmem
          have hsame : offset base w.newest-(d-(offset base s-offset base w.newest)) =
              offset base s-d := by omega
          exact Or.inr ⟨hd', by omega, hsame ▸ hmem⟩
  · have hle : offset base s ≤ offset base w.newest := by omega
    have hdelta := offset_sub_toNat hle
    rw [if_neg (by rw [hnewer]; exact hlt)]
    have hgreatest : ∀ x ∈ insert (offset base s) S, x ≤ offset base w.newest := by
      rintro x (rfl | hx)
      · exact hle
      · exact h.greatest x hx
    by_cases hnear : w.newest-s < 32
    · have hnear' := UInt32.lt_iff_toNat_lt.mp hnear
      rw [hdelta, show (32 : UInt32).toNat = 32 from rfl] at hnear'
      rw [if_pos hnear]
      refine ⟨h.range, Set.mem_insert_of_mem _ h.newest, hgreatest, fun d hd => ?_⟩
      dsimp only
      rw [or_bit _ _ (by omega), Bool.or_eq_true, h.bits d hd, decide_eq_true_iff, hdelta,
        Set.mem_insert_iff]
      constructor
      · rintro (⟨hd', hmem⟩ | heq)
        · exact ⟨hd', Or.inr hmem⟩
        · exact ⟨by omega, Or.inl (by omega)⟩
      · rintro ⟨hd', heq | hmem⟩
        · exact Or.inr (by omega)
        · exact Or.inl ⟨hd', hmem⟩
    · have hfar := UInt32.le_iff_toNat_le.mp (UInt32.not_lt.mp hnear)
      rw [hdelta, show (32 : UInt32).toNat = 32 from rfl] at hfar
      rw [if_neg hnear]
      refine ⟨h.range, Set.mem_insert_of_mem _ h.newest, hgreatest, fun d hd => ?_⟩
      rw [h.bits d hd, Set.mem_insert_iff]
      constructor
      · exact fun ⟨hd, hmem⟩ => ⟨hd, Or.inr hmem⟩
      · rintro ⟨hd', heq | hmem⟩
        · omega
        · exact ⟨hd', hmem⟩

end JaszczurHal.SerialWindow
