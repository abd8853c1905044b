import Mathlib.Data.List.Infix
import Mathlib.Data.Nat.Notation
import Mathlib.Order.Lattice
import Mathlib.Order.MinMax
import Mathlib.Tactic.SplitIfs

/-!
# Secrets in the modem log

A line is cut to the size of a scratch buffer, and every registered secret and
the secret of the command are replaced by three stars in place, one after the
other. The functions are written for any kind of character, so that the same
code also runs on characters that remember where in the line they come from.
-/

set_option autoImplicit false

namespace JaszczurHal.ModemMasking

def scratchSize : ℕ := 160
def starByte : UInt8 := 0x2A

structure Alphabet (α : Type) where
  byte : α → UInt8
  star : α
  starByte_eq : byte star = starByte

def Alphabet.stars {α : Type} (A : Alphabet α) : List α := [A.star, A.star, A.star]

structure Buffer (α : Type) where
  text : List α
  written : ℕ

section Code

variable {α : Type} (A : Alphabet α)

def startsWith (s : List UInt8) (text : List α) : Bool := s.isPrefixOf (text.map A.byte)

def strstr (s : List UInt8) : List α → Option ℕ
  | [] => if s = [] then some 0 else none
  | c :: text =>
    if startsWith A s (c :: text) then some 0
    else (strstr s text).map (· + 1)

def maskLoop (size : ℕ) (s : List UInt8) : ℕ → Buffer α → ℕ → Option (Buffer α)
  | 0, _, _ => none
  | fuel+1, buf, p =>
    match strstr A s (buf.text.drop p) with
    | none => some buf
    | some k =>
      let off := p+k
      let curTotal := buf.text.length
      if off+s.length > curTotal then some buf
      else if s.length ≠ 3 ∧ curTotal+3+1 > size+s.length then some buf
      else
        let moved := if s.length ≠ 3 then curTotal+3-s.length+1 else 0
        maskLoop size s fuel
          ⟨buf.text.take off ++ A.stars ++ buf.text.drop (off+s.length),
            max buf.written (max moved (off+3))⟩ (off+3)

def maskSecret (size : ℕ) (buf : Buffer α) (s : List UInt8) : Option (Buffer α) :=
  if s = [] then some buf else maskLoop A size s (buf.text.length+1) buf 0

def logFiltered (secrets : List (List UInt8)) (cmdSecret : List UInt8) (line : List α) :
    Option (Buffer α) :=
  let inLen := if line.length ≥ scratchSize then scratchSize-1 else line.length
  (secrets ++ [cmdSecret]).foldlM (maskSecret A scratchSize) ⟨line.take inLen, inLen+1⟩

end Code

def plainBytes : Alphabet UInt8 where
  byte := id
  star := starByte
  starByte_eq := rfl

abbrev Traced := UInt8 × Option ℕ

def tracedBytes : Alphabet Traced where
  byte := Prod.fst
  star := (starByte, none)
  starByte_eq := rfl

def trace (line : List UInt8) : List Traced := line.zipIdx.map fun c => (c.1, some c.2)

section Erasure

variable {α : Type} {A : Alphabet α}

def Buffer.erase (A : Alphabet α) (buf : Buffer α) : Buffer UInt8 :=
  ⟨buf.text.map A.byte, buf.written⟩

theorem startsWith_erase (s : List UInt8) (text : List α) :
    startsWith plainBytes s (text.map A.byte) = startsWith A s text := by
  rw [startsWith, startsWith, show plainBytes.byte = id from rfl, List.map_id]

theorem strstr_erase (s : List UInt8) (text : List α) :
    strstr plainBytes s (text.map A.byte) = strstr A s text := by
  induction text with
  | nil => rfl
  | cons c text ih =>
    have hstarts := startsWith_erase (A := A) s (c :: text)
    rw [List.map_cons] at hstarts
    rw [List.map_cons, strstr, strstr, hstarts, ih]

theorem stars_erase : A.stars.map A.byte = plainBytes.stars := by
  rw [Alphabet.stars, List.map_cons, List.map_cons, List.map_cons, A.starByte_eq]
  rfl

theorem maskLoop_erase (size : ℕ) (s : List UInt8) (fuel : ℕ) (buf : Buffer α) (p : ℕ) :
    maskLoop plainBytes size s fuel (buf.erase A) p =
      (maskLoop A size s fuel buf p).map (Buffer.erase A) := by
  induction fuel generalizing buf p with
  | zero => rfl
  | succ fuel ih =>
    rw [maskLoop, maskLoop, Buffer.erase, ← List.map_drop, strstr_erase]
    cases strstr A s (buf.text.drop p) with
    | none => rfl
    | some k =>
      dsimp only
      rw [List.length_map]
      split_ifs
      · rfl
      · rfl
      · rw [← ih, Buffer.erase, List.map_append, List.map_append, List.map_take, List.map_drop,
          stars_erase]
      · rw [← ih, Buffer.erase, List.map_append, List.map_append, List.map_take, List.map_drop,
          stars_erase]

theorem maskSecret_erase (size : ℕ) (buf : Buffer α) (s : List UInt8) :
    maskSecret plainBytes size (buf.erase A) s =
      (maskSecret A size buf s).map (Buffer.erase A) := by
  rw [maskSecret, maskSecret]
  split_ifs
  · rfl
  · rw [← maskLoop_erase, Buffer.erase, List.length_map]

theorem masks_erase (size : ℕ) (secrets : List (List UInt8)) (buf : Buffer α) :
    secrets.foldlM (maskSecret plainBytes size) (buf.erase A) =
      (secrets.foldlM (maskSecret A size) buf).map (Buffer.erase A) := by
  induction secrets generalizing buf with
  | nil => rfl
  | cons s secrets ih =>
    rw [List.foldlM_cons, List.foldlM_cons, maskSecret_erase]
    cases maskSecret A size buf s with
    | none => rfl
    | some buf => exact ih buf

/-- Remembering the places changes nothing about the text. -/
theorem logFiltered_erase (secrets : List (List UInt8)) (cmdSecret : List UInt8)
    (line : List α) :
    logFiltered plainBytes secrets cmdSecret (line.map A.byte) =
      (logFiltered A secrets cmdSecret line).map (Buffer.erase A) := by
  rw [logFiltered, logFiltered, ← masks_erase, Buffer.erase, List.length_map]
  dsimp only
  rw [List.map_take]

end Erasure

theorem trace_bytes (line : List UInt8) : (trace line).map tracedBytes.byte = line := by
  rw [trace, List.map_map]
  exact List.zipIdx_map_fst 0 line

section Bounds

variable {α : Type} {A : Alphabet α} {size : ℕ} {s : List UInt8}

structure Buffer.Fits (buf : Buffer α) (size : ℕ) : Prop where
  text : buf.text.length < size
  written : buf.written ≤ size

theorem strstr_within {text : List α} {k : ℕ} (h : strstr A s text = some k) :
    k+s.length ≤ text.length ∧ s <+: (text.drop k).map A.byte := by
  induction text generalizing k with
  | nil =>
    rw [strstr] at h
    split_ifs at h with hs
    cases h
    rw [hs]
    exact ⟨le_rfl, List.nil_prefix⟩
  | cons c text ih =>
    rw [strstr] at h
    split_ifs at h with hstart
    · cases h
      have hleads := List.isPrefixOf_iff_prefix.mp hstart
      have hlength := hleads.length_le
      rw [List.length_map] at hlength
      exact ⟨by omega, hleads⟩
    · obtain ⟨k, hk, rfl⟩ := Option.map_eq_some_iff.mp h
      have hrest := ih hk
      exact ⟨by simp only [List.length_cons]; omega, hrest.2⟩

theorem strstr_least {text : List α} {k : ℕ} (hs : s <+: (text.drop k).map A.byte) :
    ∃ k' ≤ k, strstr A s text = some k' := by
  induction text generalizing k with
  | nil =>
    rw [List.drop_nil, List.map_nil, List.prefix_nil] at hs
    exact ⟨0, Nat.zero_le _, by rw [strstr, if_pos hs]⟩
  | cons c text ih =>
    rw [strstr]
    by_cases hstart : startsWith A s (c :: text) = true
    · exact ⟨0, Nat.zero_le _, if_pos hstart⟩
    · cases k with
      | zero => exact absurd (List.isPrefixOf_iff_prefix.mpr hs) hstart
      | succ k =>
        obtain ⟨k', hk', hfound⟩ := ih hs
        exact ⟨k'+1, by omega, by rw [if_neg hstart, hfound]; rfl⟩

theorem maskLoop_fits (hsize : s ≠ []) (fuel : ℕ) (buf : Buffer α) (p : ℕ)
    (hp : p ≤ buf.text.length)
    (hfuel : buf.text.length-p < fuel) (hfits : buf.Fits size) :
    ∃ result, maskLoop A size s fuel buf p = some result ∧ result.Fits size := by
  induction fuel generalizing buf p with
  | zero => omega
  | succ fuel ih =>
    rw [maskLoop]
    cases hfound : strstr A s (buf.text.drop p) with
    | none => exact ⟨buf, rfl, hfits⟩
    | some k =>
      have hwithin := (strstr_within hfound).1
      have hpos := List.length_pos_iff.mpr hsize
      rw [List.length_drop] at hwithin
      dsimp only
      split_ifs with hpast hfull
      · exact ⟨buf, rfl, hfits⟩
      · exact ⟨buf, rfl, hfits⟩
      all_goals
        have htext := hfits.text
        have hlength : (buf.text.take (p+k) ++ A.stars ++
            buf.text.drop (p+k+s.length)).length = buf.text.length+3-s.length := by
          simp only [List.length_append, List.length_take, List.length_drop, Alphabet.stars,
            List.length_cons, List.length_nil]
          omega
        apply ih
        · simp only [hlength]
          omega
        · simp only [hlength]
          omega
        · constructor
          · simp only [hlength]
            omega
          · have hbefore := hfits.written
            simp only [max_le_iff]
            omega

theorem maskSecret_fits (buf : Buffer α) (hfits : buf.Fits size) :
    ∃ result, maskSecret A size buf s = some result ∧ result.Fits size := by
  rw [maskSecret]
  split_ifs with hs
  · exact ⟨buf, rfl, hfits⟩
  · exact maskLoop_fits hs _ buf 0 (Nat.zero_le _) (by omega) hfits

theorem masks_fit (secrets : List (List UInt8)) (buf : Buffer α) (hfits : buf.Fits size) :
    ∃ result, secrets.foldlM (maskSecret A size) buf = some result ∧ result.Fits size := by
  induction secrets generalizing buf with
  | nil => exact ⟨buf, rfl, hfits⟩
  | cons s secrets ih =>
    obtain ⟨next, hnext, hfits⟩ := maskSecret_fits (A := A) (s := s) buf hfits
    rw [List.foldlM_cons, hnext]
    exact ih next hfits

theorem logFiltered_fits (secrets : List (List UInt8)) (cmdSecret : List UInt8) (line : List α) :
    ∃ result, logFiltered A secrets cmdSecret line = some result ∧ result.Fits scratchSize := by
  apply masks_fit
  constructor
  · rw [List.length_take]
    split_ifs <;> change _ < 160 <;> simp only [scratchSize] at * <;> omega
  · split_ifs <;> simp only [scratchSize] at * <;> omega

end Bounds

end JaszczurHal.ModemMasking
