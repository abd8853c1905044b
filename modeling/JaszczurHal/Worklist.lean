import Mathlib.Data.List.Nodup
import Mathlib.Data.List.Perm.Subperm
import Mathlib.Data.Set.Basic

/-!
# Closure by a work list

What is seen grows by the successors of what is pending, in any order of the
pending elements. With as many turns as there are nodes, the result is the
least closed set.
-/

set_option autoImplicit false

namespace JaszczurHal.Worklist

variable {α : Type} {succ : α → List α}

def Closed (succ : α → List α) (S : Set α) : Prop := ∀ x ∈ S, ∀ y ∈ succ x, y ∈ S

def closureOf (succ : α → List α) (start : Set α) : Set α :=
  {x | ∀ S, start ⊆ S → Closed succ S → x ∈ S}

theorem subset_closureOf (start : Set α) : start ⊆ closureOf succ start := by
  intro x hx S hstart _
  exact hstart hx

theorem closureOf_closed (start : Set α) : Closed succ (closureOf succ start) := by
  intro x hx y hy S hstart hclosed
  exact hclosed x (hx S hstart hclosed) y hy

theorem closureOf_least {start S : Set α} (hstart : start ⊆ S) (hclosed : Closed succ S) :
    closureOf succ start ⊆ S := by
  intro x hx
  exact hx S hstart hclosed

variable [DecidableEq α] {push : List α → α → List α}

structure Work (α : Type) where
  seen : List α
  pending : List α

def visit (push : List α → α → List α) (w : Work α) (target : α) : Work α :=
  if target ∈ w.seen then w else ⟨w.seen ++ [target], push w.pending target⟩

def run (push : List α → α → List α) (succ : α → List α) : ℕ → Work α → List α
  | 0, w => w.seen
  | fuel + 1, w =>
    match w.pending with
    | [] => w.seen
    | x :: pending => run push succ fuel ((succ x).foldl (visit push) ⟨w.seen, pending⟩)

structure Pushes (push : List α → α → List α) : Prop where
  mem : ∀ pending target x, x ∈ push pending target ↔ x = target ∨ x ∈ pending
  length : ∀ pending target, (push pending target).length = pending.length + 1

def pushFront (pending : List α) (target : α) : List α := target :: pending

def pushBack (pending : List α) (target : α) : List α := pending ++ [target]

omit [DecidableEq α] in
theorem pushFront_pushes : Pushes (pushFront : List α → α → List α) := by
  constructor
  · intro pending target x
    simp [pushFront]
  · intro pending target
    simp [pushFront]

omit [DecidableEq α] in
theorem pushBack_pushes : Pushes (pushBack : List α → α → List α) := by
  constructor
  · intro pending target x
    simp [pushBack, or_comm]
  · intro pending target
    simp [pushBack]

theorem visits_seen (w : Work α) (targets : List α) (x : α) :
    x ∈ (targets.foldl (visit push) w).seen ↔ x ∈ w.seen ∨ x ∈ targets := by
  induction targets generalizing w with
  | nil => simp
  | cons target targets ih =>
    rw [List.foldl_cons, ih]
    unfold visit
    split_ifs with hseen
    · simp only [List.mem_cons]
      constructor
      · rintro (h | h)
        · exact Or.inl h
        · exact Or.inr (Or.inr h)
      · rintro (h | h | h)
        · exact Or.inl h
        · exact Or.inl (h ▸ hseen)
        · exact Or.inr h
    · simp [or_assoc]

theorem visits_pending (hpush : Pushes push) (w : Work α) (targets : List α) (x : α) :
    x ∈ (targets.foldl (visit push) w).pending ↔
      x ∈ w.pending ∨ (x ∈ targets ∧ x ∉ w.seen) := by
  induction targets generalizing w with
  | nil => simp
  | cons target targets ih =>
    rw [List.foldl_cons, ih]
    unfold visit
    split_ifs with hseen
    · by_cases hx : x = target
      · simp [hx, hseen]
      · simp [hx]
    · by_cases hx : x = target
      · simp [hx, hseen, hpush.mem]
      · simp [hx, hpush.mem]

theorem visits_length (hpush : Pushes push) (w : Work α) (targets : List α) :
    (targets.foldl (visit push) w).pending.length + w.seen.length =
      w.pending.length + (targets.foldl (visit push) w).seen.length := by
  induction targets generalizing w with
  | nil => rfl
  | cons target targets ih =>
    rw [List.foldl_cons]
    have hrest := ih (visit push w target)
    unfold visit at hrest ⊢
    split_ifs with hseen
    · rw [if_pos hseen] at hrest
      exact hrest
    · rw [if_neg hseen] at hrest
      simp only [hpush.length, List.length_append, List.length_singleton] at hrest
      omega

theorem visits_nodup (w : Work α) (targets : List α) (h : w.seen.Nodup) :
    (targets.foldl (visit push) w).seen.Nodup := by
  induction targets generalizing w with
  | nil => exact h
  | cons target targets ih =>
    rw [List.foldl_cons]
    apply ih
    unfold visit
    split_ifs with hseen
    · exact h
    · exact h.append (List.nodup_singleton target) (by simpa using hseen)

structure Expanding (succ : α → List α) (nodes : List α) (w : Work α) : Prop where
  nodup : w.seen.Nodup
  seen : ∀ x ∈ w.seen, x ∈ nodes
  pending : ∀ x ∈ w.pending, x ∈ nodes
  expanded : ∀ x ∈ w.seen, x ∈ w.pending ∨ ∀ y ∈ succ x, y ∈ w.seen

omit [DecidableEq α] in
theorem expanding_length {nodes : List α} {w : Work α} (h : Expanding succ nodes w) :
    w.seen.length ≤ nodes.length :=
  (h.nodup.subperm h.seen).length_le

theorem expanding_step (hpush : Pushes push) {nodes : List α}
    (hnodes : ∀ x ∈ nodes, ∀ y ∈ succ x, y ∈ nodes) {seen pending : List α} {x : α}
    (h : Expanding succ nodes ⟨seen, x :: pending⟩) :
    Expanding succ nodes ((succ x).foldl (visit push) ⟨seen, pending⟩) := by
  have hx : x ∈ nodes := h.pending x (List.mem_cons_self ..)
  constructor
  · exact visits_nodup _ _ h.nodup
  · intro y hy
    cases (visits_seen _ _ y).mp hy with
    | inl hseen => exact h.seen y hseen
    | inr hsucc => exact hnodes x hx y hsucc
  · intro y hy
    cases (visits_pending hpush _ _ y).mp hy with
    | inl hold => exact h.pending y (List.mem_cons_of_mem _ hold)
    | inr hnew => exact hnodes x hx y hnew.1
  · intro y hy
    by_cases hseen : y ∈ seen
    · cases h.expanded y hseen with
      | inl hpending =>
        by_cases hyx : y = x
        · right
          intro z hz
          exact (visits_seen _ _ z).mpr (Or.inr (hyx ▸ hz))
        · left
          apply (visits_pending hpush _ _ y).mpr
          exact Or.inl ((List.mem_cons.mp hpending).resolve_left hyx)
      | inr hexpanded =>
        right
        intro z hz
        exact (visits_seen _ _ z).mpr (Or.inl (hexpanded z hz))
    · left
      apply (visits_pending hpush _ _ y).mpr
      exact Or.inr ⟨((visits_seen _ _ y).mp hy).resolve_left hseen, hseen⟩

/-- With enough turns the result holds what was seen and the successors of what
was pending, and is closed. -/
theorem run_closed (hpush : Pushes push) {nodes : List α}
    (hnodes : ∀ x ∈ nodes, ∀ y ∈ succ x, y ∈ nodes) (fuel : ℕ) (w : Work α)
    (h : Expanding succ nodes w)
    (hfuel : w.pending.length + nodes.length ≤ fuel + w.seen.length) :
    (∀ x ∈ w.seen, x ∈ run push succ fuel w) ∧
      (∀ x ∈ w.pending, ∀ y ∈ succ x, y ∈ run push succ fuel w) ∧
      Closed succ {x | x ∈ run push succ fuel w} := by
  induction fuel generalizing w with
  | zero =>
    have hlength := expanding_length h
    have hempty : w.pending = [] := List.length_eq_zero_iff.mp (by omega)
    simp only [run, hempty]
    constructor
    · exact fun x hx => hx
    constructor
    · simp
    · intro x hx
      exact (h.expanded x hx).resolve_left (by simp [hempty])
  | succ fuel ih =>
    obtain ⟨seen, pending⟩ := w
    cases pending with
    | nil =>
      constructor
      · exact fun x hx => hx
      constructor
      · simp
      · intro x hx
        exact (h.expanded x hx).resolve_left (by simp)
    | cons x pending =>
      have hlength := visits_length hpush ⟨seen, pending⟩ (succ x)
      have hrest := ih ((succ x).foldl (visit push) ⟨seen, pending⟩)
        (expanding_step hpush hnodes h) (by
          simp only [List.length_cons] at hfuel hlength ⊢
          omega)
      simp only [run]
      constructor
      · intro y hy
        exact hrest.1 y ((visits_seen _ _ y).mpr (Or.inl hy))
      constructor
      · intro y hy z hz
        by_cases hyx : y = x
        · exact hrest.1 z ((visits_seen _ _ z).mpr (Or.inr (hyx ▸ hz)))
        · apply hrest.2.1 y _ z hz
          apply (visits_pending hpush _ _ y).mpr
          exact Or.inl ((List.mem_cons.mp hy).resolve_left hyx)
      · exact hrest.2.2

/-- A closed set that holds what is seen and the successors of what is pending
holds the result. -/
theorem run_least (hpush : Pushes push) {S : Set α} (hclosed : Closed succ S) (fuel : ℕ)
    (w : Work α) (hseen : ∀ x ∈ w.seen, x ∈ S)
    (hpending : ∀ x ∈ w.pending, ∀ y ∈ succ x, y ∈ S) :
    ∀ x ∈ run push succ fuel w, x ∈ S := by
  induction fuel generalizing w with
  | zero => exact hseen
  | succ fuel ih =>
    obtain ⟨seen, pending⟩ := w
    cases pending with
    | nil => exact hseen
    | cons x pending =>
      have hx := hpending x (List.mem_cons_self ..)
      apply ih
      · intro y hy
        cases (visits_seen _ _ y).mp hy with
        | inl hold => exact hseen y hold
        | inr hnew => exact hx y hnew
      · intro y hy
        cases (visits_pending hpush _ _ y).mp hy with
        | inl hold => exact hpending y (List.mem_cons_of_mem _ hold)
        | inr hnew => exact hclosed y (hx y hnew.1)

theorem run_nodup (fuel : ℕ) (w : Work α) (h : w.seen.Nodup) : (run push succ fuel w).Nodup := by
  induction fuel generalizing w with
  | zero => exact h
  | succ fuel ih =>
    obtain ⟨seen, pending⟩ := w
    cases pending with
    | nil => exact h
    | cons x pending => exact ih _ (visits_nodup _ _ h)

end JaszczurHal.Worklist
