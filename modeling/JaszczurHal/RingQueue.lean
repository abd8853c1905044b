import Mathlib.Tactic

/-!
# Circular queues

A queue in an array of fixed depth, given by the place of its first entry and
the number of its entries, read as the list it stands for.
-/

set_option autoImplicit false

namespace JaszczurHal.RingQueue

variable {α : Type*} {depth head count : ℕ} {slots : ℕ → α}

def place (depth head i : ℕ) : ℕ := (head+i) % depth

def contents (depth : ℕ) (slots : ℕ → α) (head count : ℕ) : List α :=
  (List.range count).map fun i => slots (place depth head i)

theorem place_lt (h : 0 < depth) (head i : ℕ) : place depth head i < depth := Nat.mod_lt _ h

theorem place_inj {i j : ℕ} (hi : i < depth) (hj : j < depth)
    (h : place depth head i = place depth head j) : i = j := by
  have hmod : i ≡ j [MOD depth] := Nat.ModEq.add_left_cancel' head h
  rwa [Nat.ModEq, Nat.mod_eq_of_lt hi, Nat.mod_eq_of_lt hj] at hmod

theorem place_succ (depth head i : ℕ) : place depth (place depth head 1) i = place depth head (i+1) := by
  simp [place, Nat.add_assoc, Nat.add_comm 1 i]

@[simp] theorem contents_length (depth : ℕ) (slots : ℕ → α) (head count : ℕ) :
    (contents depth slots head count).length = count := by
  simp [contents]

@[simp] theorem contents_zero (depth : ℕ) (slots : ℕ → α) (head : ℕ) :
    contents depth slots head 0 = [] := rfl

theorem contents_congr {other : ℕ → α}
    (h : ∀ i < count, slots (place depth head i) = other (place depth head i)) :
    contents depth slots head count = contents depth other head count := by
  apply List.map_congr_left
  intro i hi
  exact h i (List.mem_range.mp hi)

theorem contents_succ (depth : ℕ) (slots : ℕ → α) (head count : ℕ) :
    contents depth slots head (count+1) =
      contents depth slots head count ++ [slots (place depth head count)] := by
  simp [contents, List.range_succ]

/-- An entry written behind the last one is the new last one. -/
theorem contents_push (slots : ℕ → α) (head : ℕ) (h : count < depth) (a : α) :
    contents depth (Function.update slots (place depth head count) a) head (count+1) =
      contents depth slots head count ++ [a] := by
  have hrest : contents depth (Function.update slots (place depth head count) a) head count =
      contents depth slots head count := by
    apply contents_congr
    intro i hi
    apply Function.update_of_ne
    intro heq
    have := place_inj (by omega) h heq
    omega
  simp [contents_succ, hrest]

/-- The first entry, and the queue that starts behind it. -/
theorem contents_cons (depth : ℕ) (slots : ℕ → α) (head count : ℕ) :
    contents depth slots head (count+1) =
      slots (place depth head 0) :: contents depth slots (place depth head 1) count := by
  simp [contents, List.range_succ_eq_map, place_succ]

theorem contents_pop (depth : ℕ) (slots : ℕ → α) (head : ℕ) (h : 0 < count) :
    contents depth slots head count =
      slots (place depth head 0) :: contents depth slots (place depth head 1) (count-1) := by
  obtain ⟨n, rfl⟩ := Nat.exists_eq_succ_of_ne_zero (Nat.pos_iff_ne_zero.mp h)
  exact contents_cons depth slots head n

/-- An entry that has been taken out may be overwritten. -/
theorem contents_released (slots : ℕ → α) (head : ℕ) (hcount : count < depth) (a : α) :
    contents depth (Function.update slots (place depth head 0) a) (place depth head 1) count =
      contents depth slots (place depth head 1) count := by
  apply contents_congr
  intro i hi
  apply Function.update_of_ne
  rw [place_succ]
  intro heq
  have := place_inj (by omega) (by omega) heq
  omega

end JaszczurHal.RingQueue
