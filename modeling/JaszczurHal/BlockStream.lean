import Mathlib.Tactic

/-!
# Hashing a stream block by block

A compression function takes a state and one block. Bytes that do not fill a
block wait in a buffer. However a message is split into pieces, absorbing the
pieces one after another leaves the state and the buffer of the whole message.
-/

set_option autoImplicit false

namespace JaszczurHal.BlockStream

variable {σ α : Type*} (compress : σ → List α → σ) (size : ℕ)

def blocks : ℕ → σ → List α → σ × List α
  | 0, s, xs => (s, xs)
  | n+1, s, xs => blocks n (compress s (xs.take size)) (xs.drop size)

def absorb (s : σ) (xs : List α) : σ × List α :=
  blocks compress size (xs.length/size) s xs

theorem blocks_rest (n : ℕ) (s : σ) (xs : List α) :
    (blocks compress size n s xs).2 = xs.drop (n*size) := by
  induction n generalizing s xs with
  | zero => simp [blocks]
  | succ n ih =>
    rw [blocks, ih, List.drop_drop]
    congr 1
    ring

theorem blocks_add (m n : ℕ) (s : σ) (xs : List α) :
    blocks compress size (m+n) s xs =
      blocks compress size n (blocks compress size m s xs).1 (blocks compress size m s xs).2 := by
  induction m generalizing s xs with
  | zero => rw [Nat.zero_add, blocks]
  | succ m ih => rw [Nat.succ_add, blocks, ih, blocks]

theorem blocks_append (n : ℕ) (s : σ) (xs ys : List α) (h : n*size ≤ xs.length) :
    blocks compress size n s (xs ++ ys) =
      ((blocks compress size n s xs).1, (blocks compress size n s xs).2 ++ ys) := by
  induction n generalizing s xs with
  | zero => rfl
  | succ n ih =>
    have hone : size ≤ xs.length := by nlinarith
    have hrest : n*size ≤ (xs.drop size).length := by
      rw [List.length_drop]
      rw [Nat.succ_mul] at h
      omega
    rw [blocks, List.take_append_of_le_length hone, List.drop_append_of_le_length hone,
      ih _ _ hrest, blocks]

variable {compress size}

theorem absorb_short (s : σ) {xs : List α} (h : xs.length < size) :
    absorb compress size s xs = (s, xs) := by
  rw [absorb, Nat.div_eq_of_lt h, blocks]

theorem absorb_rest_lt (s : σ) (xs : List α) (hpos : 0 < size) :
    (absorb compress size s xs).2.length < size := by
  rw [absorb, blocks_rest, List.length_drop]
  have := Nat.mod_lt xs.length hpos
  have := Nat.div_add_mod xs.length size
  rw [Nat.mul_comm] at this
  omega

theorem absorb_rest_length (s : σ) (xs : List α) :
    (absorb compress size s xs).2.length = xs.length % size := by
  rw [absorb, blocks_rest, List.length_drop, Nat.mul_comm, ← Nat.mod_eq_sub_mul_div]

theorem absorb_block (s : σ) {block xs : List α} (hpos : 0 < size) (h : block.length = size) :
    absorb compress size s (block ++ xs) = absorb compress size (compress s block) xs := by
  have hcount : (block ++ xs).length/size = xs.length/size+1 := by
    rw [List.length_append, h, Nat.add_comm, Nat.add_div_right _ hpos]
  rw [absorb, hcount, blocks, List.take_left' h, List.drop_left' h, absorb]

theorem absorb_append (s : σ) (xs ys : List α) (hpos : 0 < size) :
    absorb compress size s (xs ++ ys) =
      absorb compress size (absorb compress size s xs).1 ((absorb compress size s xs).2 ++ ys) := by
  have hle : xs.length/size*size ≤ xs.length := Nat.div_mul_le_self _ _
  have hlen : (xs ++ ys).length =
      ((absorb compress size s xs).2 ++ ys).length+size*(xs.length/size) := by
    rw [absorb, blocks_rest, List.length_append, List.length_append, List.length_drop,
      Nat.mul_comm size]
    omega
  have hcount : (xs ++ ys).length/size =
      xs.length/size+((absorb compress size s xs).2 ++ ys).length/size := by
    rw [hlen, Nat.add_mul_div_left _ _ hpos, Nat.add_comm]
  conv_lhs => rw [absorb, hcount, blocks_add, blocks_append _ _ _ _ _ _ hle]
  rfl

end JaszczurHal.BlockStream
