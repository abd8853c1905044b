import Mathlib.Data.Nat.Notation
import Mathlib.Tactic.ByContra
import Mathlib.Tactic.SplitIfs

/-!
# Spans

A line is cut into spans of given lengths. A place on it is a span and an offset
in it, and walking along the spans finds them.
-/

set_option autoImplicit false

namespace JaszczurHal.Spans

variable (length : ℕ → ℕ)

def before : ℕ → ℕ → ℕ
  | _, 0 => 0
  | first, count + 1 => length first + before (first + 1) count

def locate : ℕ → ℕ → ℕ → ℕ × ℕ
  | 0, span, rest => (span, rest)
  | most + 1, span, rest =>
    if rest < length span then (span, rest) else locate most (span + 1) (rest - length span)

variable {length}

theorem before_succ (first count : ℕ) :
    before length first (count + 1) = before length first count + length (first + count) := by
  induction count generalizing first with
  | zero => simp [before]
  | succ count ih =>
    rw [before, ih (first + 1), before, show first + 1 + count = first + (count + 1) by omega]
    omega

theorem before_mono {first count count' : ℕ} (h : count ≤ count') :
    before length first count ≤ before length first count' := by
  induction h with
  | refl => exact Nat.le_refl _
  | step _ ih =>
    rw [before_succ]
    omega

theorem locate_before {most first count offset : ℕ} (hcount : count < most)
    (hoffset : offset < length (first + count)) :
    locate length most first (before length first count + offset) = (first + count, offset) := by
  induction most generalizing first count with
  | zero => omega
  | succ most ih =>
    cases count with
    | zero =>
      simp only [before, Nat.zero_add, Nat.add_zero] at hoffset ⊢
      rw [locate, if_pos hoffset]
    | succ count =>
      have hstep : first + 1 + count = first + (count + 1) := by omega
      rw [before, locate, if_neg (by omega), Nat.add_assoc, Nat.add_sub_cancel_left,
        ih (by omega) (by rwa [hstep]), hstep]

theorem locate_ends (most first rest : ℕ) :
    ∃ count offset, locate length most first rest = (first + count, offset) ∧ count ≤ most ∧
      before length first count + offset = rest ∧
      (count < most → offset < length (first + count)) := by
  induction most generalizing first rest with
  | zero => exact ⟨0, rest, rfl, Nat.le_refl _, by simp [before], by omega⟩
  | succ most ih =>
    rw [locate]
    split_ifs with hless
    · exact ⟨0, rest, rfl, by omega, by simp [before], fun _ => hless⟩
    · obtain ⟨count, offset, hlocate, hcount, hrest, hoffset⟩ := ih (first + 1) (rest - length first)
      have hstep : first + 1 + count = first + (count + 1) := by omega
      rw [hstep] at hlocate hoffset
      constructor
      constructor
      · exact ⟨hlocate, by omega, by rw [before]; omega, fun h => hoffset (by omega)⟩

/-- Places are in the order of their spans, and of their offsets in one span. -/
theorem place_lt {first count count' offset offset' : ℕ} (h : offset < length (first + count))
    (h' : offset' < length (first + count')) :
    before length first count + offset < before length first count' + offset' ↔
      count < count' ∨ count = count' ∧ offset < offset' := by
  have hlater : ∀ a b, a < b → before length first a + length (first + a) ≤
      before length first b := by
    intro a b hab
    rw [← before_succ]
    exact before_mono hab
  constructor
  · intro hless
    by_cases heq : count = count'
    · subst heq
      exact Or.inr ⟨rfl, by omega⟩
    · left
      by_contra hle
      have hover := hlater count' count (by omega)
      omega
  · intro hplace
    cases hplace with
    | inl hless =>
      have hover := hlater count count' hless
      omega
    | inr hsame =>
      rw [hsame.1]
      omega

end JaszczurHal.Spans
