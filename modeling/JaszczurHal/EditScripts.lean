import Mathlib.Data.List.Infix
import Mathlib.Tactic

/-!
# Edit scripts

A script says line by line what becomes of one sequence on the way to another. A
script that keeps a longest common subsequence has the fewest edits.
-/

set_option autoImplicit false

namespace JaszczurHal.EditScripts

variable {α : Type}

inductive Tag where
  | equal
  | remove
  | insert
  deriving DecidableEq, Repr

inductive Script : List α → List α → List Tag → Prop where
  | done : Script [] [] []
  | equal {a b : List α} {tags : List Tag} (x : α) (h : Script a b tags) :
      Script (x :: a) (x :: b) (.equal :: tags)
  | remove {a b : List α} {tags : List Tag} (x : α) (h : Script a b tags) :
      Script (x :: a) b (.remove :: tags)
  | insert {a b : List α} {tags : List Tag} (y : α) (h : Script a b tags) :
      Script a (y :: b) (.insert :: tags)

def edits (tags : List Tag) : ℕ := tags.countP (· ≠ .equal)

def kept (tags : List Tag) : ℕ := tags.countP (· = .equal)

theorem edits_append (tags more : List Tag) : edits (tags ++ more) = edits tags+edits more :=
  List.countP_append

theorem edits_replicate (n : ℕ) (tag : Tag) :
    edits (List.replicate n tag) = if tag = .equal then 0 else n := by
  cases tag <;> simp [edits, List.countP_replicate]

variable {a b a' b' : List α} {tags tags' : List Tag}

theorem Script.append (h : Script a b tags) (h' : Script a' b' tags') :
    Script (a ++ a') (b ++ b') (tags ++ tags') := by
  induction h with
  | done => exact h'
  | equal x _ ih => exact .equal x ih
  | remove x _ ih => exact .remove x ih
  | insert y _ ih => exact .insert y ih

theorem Script.keep (a : List α) : Script a a (List.replicate a.length Tag.equal) := by
  induction a with
  | nil => exact .done
  | cons x a ih => exact .equal x ih

theorem Script.replace (a b : List α) :
    Script a b (List.replicate a.length Tag.remove ++ List.replicate b.length Tag.insert) := by
  induction a with
  | nil =>
    induction b with
    | nil => exact .done
    | cons y b ih => exact .insert y ih
  | cons x a ih => exact .remove x ih

theorem edits_cons (tag : Tag) (tags : List Tag) :
    edits (tag :: tags) = edits tags+if tag = .equal then 0 else 1 := by
  cases tag <;> simp [edits]

theorem kept_cons (tag : Tag) (tags : List Tag) :
    kept (tag :: tags) = kept tags+if tag = .equal then 1 else 0 := by
  cases tag <;> simp [kept]

theorem Script.count (h : Script a b tags) : edits tags+2*kept tags = a.length+b.length := by
  induction h with
  | done => rfl
  | equal x _ ih =>
    rw [edits_cons, kept_cons, if_pos rfl, if_pos rfl, List.length_cons, List.length_cons]
    omega
  | remove x _ ih =>
    rw [edits_cons, kept_cons, if_neg nofun, if_neg nofun, List.length_cons]
    omega
  | insert y _ ih =>
    rw [edits_cons, kept_cons, if_neg nofun, if_neg nofun, List.length_cons]
    omega

theorem Script.common (h : Script a b tags) :
    ∃ s : List α, s.Sublist a ∧ s.Sublist b ∧ s.length = kept tags := by
  induction h with
  | done => exact ⟨[], .slnil, .slnil, rfl⟩
  | equal x _ ih =>
    obtain ⟨s, ha, hb, hlength⟩ := ih
    refine ⟨x :: s, ha.cons_cons x, hb.cons_cons x, ?_⟩
    rw [kept_cons, if_pos rfl, List.length_cons, hlength]
  | remove x _ ih =>
    obtain ⟨s, ha, hb, hlength⟩ := ih
    refine ⟨s, ha.cons x, hb, ?_⟩
    rw [kept_cons, if_neg nofun, Nat.add_zero, hlength]
  | insert y _ ih =>
    obtain ⟨s, ha, hb, hlength⟩ := ih
    refine ⟨s, ha, hb.cons y, ?_⟩
    rw [kept_cons, if_neg nofun, Nat.add_zero, hlength]

variable [DecidableEq α]

def lcs : List α → List α → ℕ
  | [], _ => 0
  | _ :: _, [] => 0
  | x :: a, y :: b => if x = y then lcs a b+1 else max (lcs a (y :: b)) (lcs (x :: a) b)
termination_by a b => a.length+b.length

theorem lcs_nil_left (b : List α) : lcs [] b = 0 := by rw [lcs]

theorem lcs_nil_right (a : List α) : lcs a [] = 0 := by cases a <;> rw [lcs]

theorem lcs_attained (a b : List α) : ∃ s : List α, s.Sublist a ∧ s.Sublist b ∧
    s.length = lcs a b := by
  induction a, b using lcs.induct with
  | case1 b => exact ⟨[], List.nil_sublist _, List.nil_sublist _, (lcs_nil_left b).symm⟩
  | case2 x a => exact ⟨[], List.nil_sublist _, List.nil_sublist _, (lcs_nil_right _).symm⟩
  | case3 a y b ih =>
    obtain ⟨s, ha, hb, hlength⟩ := ih
    refine ⟨y :: s, ha.cons_cons y, hb.cons_cons y, ?_⟩
    rw [lcs, if_pos rfl, List.length_cons, hlength]
  | case4 x a y b hne iha ihb =>
    rw [lcs, if_neg hne]
    rcases le_total (lcs a (y :: b)) (lcs (x :: a) b) with hle | hle
    · obtain ⟨s, ha, hb, hlength⟩ := ihb
      exact ⟨s, ha, hb.cons y, by rw [hlength, max_eq_right hle]⟩
    · obtain ⟨s, ha, hb, hlength⟩ := iha
      exact ⟨s, ha.cons x, hb, by rw [hlength, max_eq_left hle]⟩

theorem lcs_longest {s : List α} (ha : s.Sublist a) (hb : s.Sublist b) : s.length ≤ lcs a b := by
  induction a, b using lcs.induct generalizing s with
  | case1 b =>
    rw [List.sublist_nil.mp ha]
    exact Nat.zero_le _
  | case2 x a =>
    rw [List.sublist_nil.mp hb]
    exact Nat.zero_le _
  | case3 a y b ih =>
    rw [lcs, if_pos rfl]
    cases s with
    | nil => exact Nat.zero_le _
    | cons z s => exact Nat.succ_le_succ (ih ha.of_cons_cons hb.of_cons_cons)
  | case4 x a y b hne iha ihb =>
    rw [lcs, if_neg hne]
    cases ha with
    | cons _ ha => exact (iha ha hb).trans (le_max_left _ _)
    | cons_cons _ ha =>
      cases hb with
      | cons _ hb => exact (ihb (ha.cons_cons x) hb).trans (le_max_right _ _)
      | cons_cons _ hb => exact absurd rfl hne

theorem lcs_reverse (a b : List α) : lcs a.reverse b.reverse = lcs a b := by
  apply le_antisymm
  · obtain ⟨s, ha, hb, hlength⟩ := lcs_attained a.reverse b.reverse
    rw [← hlength, ← List.length_reverse]
    exact lcs_longest (List.reverse_sublist.mp (by rwa [List.reverse_reverse]))
      (List.reverse_sublist.mp (by rwa [List.reverse_reverse]))
  · obtain ⟨s, ha, hb, hlength⟩ := lcs_attained a b
    rw [← hlength, ← List.length_reverse]
    exact lcs_longest (List.reverse_sublist.mpr ha) (List.reverse_sublist.mpr hb)

theorem lcs_prefix (common a b : List α) :
    lcs (common ++ a) (common ++ b) = common.length+lcs a b := by
  induction common with
  | nil => simp
  | cons x common ih =>
    rw [List.cons_append, List.cons_append, lcs, if_pos rfl, ih, List.length_cons]
    omega

theorem lcs_suffix (a b common : List α) :
    lcs (a ++ common) (b ++ common) = lcs a b+common.length := by
  rw [← lcs_reverse, List.reverse_append, List.reverse_append, lcs_prefix, lcs_reverse,
    List.length_reverse, Nat.add_comm]

/-- No script has fewer edits than one that keeps a longest common subsequence. -/
theorem Script.minimal (h : Script a b tags') (hkept : edits tags+2*lcs a b = a.length+b.length) :
    edits tags ≤ edits tags' := by
  obtain ⟨s, ha, hb, hlength⟩ := h.common
  have hlongest := lcs_longest ha hb
  have hcount := h.count
  omega

end JaszczurHal.EditScripts
