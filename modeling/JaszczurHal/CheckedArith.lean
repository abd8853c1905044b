import Mathlib.Tactic

/-!
# Computations that can go out of range

The operations of C that are undefined for some operands, each with a check:
array accesses, shifts, signed arithmetic, divisions, and conversions that
must not lose bits. `Safe` is a triple without faults; its rules follow the
shape of a program.
-/

set_option autoImplicit false

namespace JaszczurHal.CheckedArith

inductive Fault where
  | outOfBounds
  | shiftRange
  | signedOverflow
  | divisionByZero
  | narrowed
  | unfinished
  deriving DecidableEq, Repr

abbrev Checked := Except Fault

variable {α β σ : Type}

def readAt (xs : List α) (i : ℕ) : Checked α :=
  match xs[i]? with
  | some x => .ok x
  | none => .error .outOfBounds

def appendAt (capacity : ℕ) (xs : List α) (x : α) : Checked (List α) :=
  if xs.length < capacity then .ok (xs ++ [x]) else .error .outOfBounds

def loadAt {n : ℕ} (xs : Vector α n) (i : ℕ) : Checked α :=
  if h : i < n then .ok (xs.get ⟨i, h⟩) else .error .outOfBounds

def storeAt {n : ℕ} (xs : Vector α n) (i : ℕ) (x : α) : Checked (Vector α n) :=
  if h : i < n then .ok (xs.set i x h) else .error .outOfBounds

def narrow (bits n : ℕ) : Checked ℕ :=
  if n < 2^bits then .ok n else .error .narrowed

def shiftLeft32 (x : UInt32) (n : ℕ) : Checked UInt32 :=
  if n < 32 then .ok (x <<< UInt32.ofNat n) else .error .shiftRange

def shiftLeft64 (x : UInt64) (n : ℕ) : Checked UInt64 :=
  if n < 64 then .ok (x <<< UInt64.ofNat n) else .error .shiftRange

def shiftRight64 (x : UInt64) (n : ℕ) : Checked UInt64 :=
  if n < 64 then .ok (x >>> UInt64.ofNat n) else .error .shiftRange

def signed (bits : ℕ) (n : ℤ) : Checked ℤ :=
  if -(2^(bits-1) : ℤ) ≤ n ∧ n < 2^(bits-1) then .ok n else .error .signedOverflow

def divide (bits : ℕ) (a b : ℤ) : Checked ℤ :=
  if b = 0 then .error .divisionByZero else signed bits (a.tdiv b)

def Safe (m : Checked α) (P : α → Prop) : Prop := ∃ a, m = .ok a ∧ P a

variable {P Q : α → Prop} {R : β → Prop}

theorem ok_bind (a : α) (f : α → Checked β) : (Except.ok a >>= f) = f a := rfl

theorem error_bind (e : Fault) (f : α → Checked β) : (Except.error e >>= f) = .error e := rfl

theorem safe_pure {a : α} (h : P a) : Safe (pure a) P := ⟨a, rfl, h⟩

theorem safe_bind {m : Checked α} {f : α → Checked β} (hm : Safe m P)
    (hf : ∀ a, P a → Safe (f a) R) : Safe (m >>= f) R := by
  obtain ⟨a, rfl, ha⟩ := hm
  exact hf a ha

theorem safe_mono {m : Checked α} (hm : Safe m P) (h : ∀ a, P a → Q a) : Safe m Q := by
  obtain ⟨a, ha, hp⟩ := hm
  exact ⟨a, ha, h a hp⟩

theorem safe_ite {c : Prop} [Decidable c] {m n : Checked α} (hm : c → Safe m P)
    (hn : ¬ c → Safe n P) : Safe (if c then m else n) P := by
  split
  · rename_i h
    exact hm h
  · rename_i h
    exact hn h

theorem safe_value {m : Checked α} (h : Safe m P) {a : α} (ha : m = .ok a) : P a := by
  obtain ⟨b, hb, hp⟩ := h
  rw [ha] at hb
  rw [Except.ok.inj hb]
  exact hp

theorem readAt_of {xs : List α} {i : ℕ} (h : i < xs.length) : readAt xs i = .ok xs[i] := by
  rw [readAt, List.getElem?_eq_getElem h]

theorem safe_readAt {xs : List α} {i : ℕ} (h : i < xs.length) :
    Safe (readAt xs i) fun x => x = xs[i] :=
  ⟨xs[i], readAt_of h, rfl⟩

theorem safe_appendAt {capacity : ℕ} {xs : List α} {x : α} (h : xs.length < capacity) :
    Safe (appendAt capacity xs x) fun ys => ys = xs ++ [x] :=
  ⟨xs ++ [x], by rw [appendAt, if_pos h], rfl⟩

theorem safe_loadAt {n : ℕ} {xs : Vector α n} {i : ℕ} (h : i < n) :
    Safe (loadAt xs i) fun x => x = xs.get ⟨i, h⟩ :=
  ⟨xs.get ⟨i, h⟩, by rw [loadAt, dif_pos h], rfl⟩

theorem safe_storeAt {n : ℕ} {xs : Vector α n} {i : ℕ} {x : α} (h : i < n) :
    Safe (storeAt xs i x) fun ys => ys = xs.set i x h :=
  ⟨xs.set i x h, by rw [storeAt, dif_pos h], rfl⟩

theorem safe_narrow {bits n : ℕ} (h : n < 2^bits) : Safe (narrow bits n) fun m => m = n :=
  ⟨n, by rw [narrow, if_pos h], rfl⟩

theorem safe_shiftLeft32 {x : UInt32} {n : ℕ} (h : n < 32) :
    Safe (shiftLeft32 x n) fun y => y = x <<< UInt32.ofNat n :=
  ⟨_, by rw [shiftLeft32, if_pos h], rfl⟩

theorem safe_shiftLeft64 {x : UInt64} {n : ℕ} (h : n < 64) :
    Safe (shiftLeft64 x n) fun y => y = x <<< UInt64.ofNat n :=
  ⟨_, by rw [shiftLeft64, if_pos h], rfl⟩

theorem safe_shiftRight64 {x : UInt64} {n : ℕ} (h : n < 64) :
    Safe (shiftRight64 x n) fun y => y = x >>> UInt64.ofNat n :=
  ⟨_, by rw [shiftRight64, if_pos h], rfl⟩

theorem signed_of {bits : ℕ} {n : ℤ} (h : -(2^(bits-1) : ℤ) ≤ n ∧ n < 2^(bits-1)) :
    signed bits n = .ok n := by
  rw [signed, if_pos h]

/-- A loop over the first `n` indices keeps its invariant. -/
theorem safe_range {f : σ → ℕ → Checked σ} {I : ℕ → σ → Prop} {n : ℕ} {s : σ} (h : I 0 s)
    (hstep : ∀ i < n, ∀ s, I i s → Safe (f s i) (I (i+1))) :
    Safe ((List.range n).foldlM f s) (I n) := by
  induction n with
  | zero => exact safe_pure h
  | succ n ih =>
    rw [List.range_succ, List.foldlM_append]
    refine safe_bind (ih fun i hi => hstep i (by omega)) fun t ht => ?_
    rw [List.foldlM_cons]
    exact safe_bind (hstep n (by omega) t ht) fun u hu => safe_pure hu

end JaszczurHal.CheckedArith
