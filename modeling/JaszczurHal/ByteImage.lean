import Mathlib.Tactic

/-!
# Byte images

A memory is a function from offsets to bytes; reading a slice and writing a
run of bytes are its two operations. Integers are stored most or least
significant byte first.
-/

set_option autoImplicit false

namespace JaszczurHal.ByteImage

abbrev Image := ℕ → UInt8

def ofList (bytes : List UInt8) : Image := fun i => bytes.getD i 0

def slice (m : Image) (offset length : ℕ) : List UInt8 :=
  (List.range length).map fun i => m (offset+i)

def write (m : Image) (offset : ℕ) (bytes : List UInt8) : Image := fun i =>
  if offset ≤ i ∧ i < offset+bytes.length then bytes.getD (i-offset) 0 else m i

@[simp] theorem slice_length (m : Image) (offset length : ℕ) :
    (slice m offset length).length = length := by
  simp [slice]

theorem slice_congr {m m' : Image} {offset length : ℕ}
    (h : ∀ i, offset ≤ i → i < offset+length → m i = m' i) :
    slice m offset length = slice m' offset length := by
  apply List.map_congr_left
  intro i hi
  have hlt := List.mem_range.mp hi
  exact h (offset+i) (by omega) (by omega)

theorem slice_eq_iff {m : Image} {offset : ℕ} {bytes : List UInt8} :
    slice m offset bytes.length = bytes ↔
      ∀ i < bytes.length, m (offset+i) = bytes.getD i 0 := by
  constructor
  · intro h i hi
    have hget := congrArg (fun l => l.getD i 0) h
    simpa [slice, hi] using hget
  · intro h
    apply List.ext_getElem (by simp)
    intro i hi hi'
    simp only [slice, List.getElem_map, List.getElem_range, h i hi',
      List.getD_eq_getElem?_getD, List.getElem?_eq_getElem hi', Option.getD_some]

theorem slice_ofList (bytes : List UInt8) : slice (ofList bytes) 0 bytes.length = bytes :=
  slice_eq_iff.mpr fun i _ => by rw [ofList, Nat.zero_add]

theorem slice_append (m : Image) (offset a b : ℕ) :
    slice m offset (a+b) = slice m offset a ++ slice m (offset+a) b := by
  rw [slice, List.range_add, List.map_append, List.map_map]
  congr 1
  apply List.map_congr_left
  intro i _
  simp [Nat.add_assoc]

theorem write_of_lt {m : Image} {offset i : ℕ} {bytes : List UInt8} (h : i < offset) :
    write m offset bytes i = m i := by
  rw [write, if_neg]
  omega

theorem write_of_ge {m : Image} {offset i : ℕ} {bytes : List UInt8}
    (h : offset+bytes.length ≤ i) : write m offset bytes i = m i := by
  rw [write, if_neg]
  omega

theorem write_at {m : Image} {offset i : ℕ} {bytes : List UInt8} (h : i < bytes.length) :
    write m offset bytes (offset+i) = bytes.getD i 0 := by
  rw [write, if_pos (by omega), Nat.add_sub_cancel_left]

theorem slice_write_self (m : Image) (offset : ℕ) (bytes : List UInt8) :
    slice (write m offset bytes) offset bytes.length = bytes :=
  slice_eq_iff.mpr fun _ hi => write_at hi

theorem slice_write_disjoint {m : Image} {offset start length : ℕ} {bytes : List UInt8}
    (h : start+length ≤ offset ∨ offset+bytes.length ≤ start) :
    slice (write m offset bytes) start length = slice m start length := by
  apply slice_congr
  intro i hle hlt
  rcases h with h | h
  · exact write_of_lt (by omega)
  · exact write_of_ge (by omega)

def loadLe16 (m : Image) (offset : ℕ) : UInt16 :=
  (m offset).toUInt16 ||| (m (offset+1)).toUInt16 <<< 8

def loadLe32 (m : Image) (offset : ℕ) : UInt32 :=
  (m offset).toUInt32 ||| (m (offset+1)).toUInt32 <<< 8 |||
    (m (offset+2)).toUInt32 <<< 16 ||| (m (offset+3)).toUInt32 <<< 24

def loadBe16 (m : Image) (offset : ℕ) : UInt16 :=
  (m offset).toUInt16 <<< 8 ||| (m (offset+1)).toUInt16

def loadBe32 (m : Image) (offset : ℕ) : UInt32 :=
  (m offset).toUInt32 <<< 24 ||| (m (offset+1)).toUInt32 <<< 16 |||
    (m (offset+2)).toUInt32 <<< 8 ||| (m (offset+3)).toUInt32

def storeLe16 (v : UInt16) : List UInt8 := [v.toUInt8, (v >>> 8).toUInt8]

def storeLe32 (v : UInt32) : List UInt8 :=
  [v.toUInt8, (v >>> 8).toUInt8, (v >>> 16).toUInt8, (v >>> 24).toUInt8]

def storeBe16 (v : UInt16) : List UInt8 := [(v >>> 8).toUInt8, v.toUInt8]

def storeBe32 (v : UInt32) : List UInt8 :=
  [(v >>> 24).toUInt8, (v >>> 16).toUInt8, (v >>> 8).toUInt8, v.toUInt8]

theorem or_low {a b k : ℕ} (h : b < 2^k) : a <<< k ||| b = a*2^k+b := by
  rw [← Nat.shiftLeft_add_eq_or_of_lt h, Nat.shiftLeft_eq]

theorem toNat_shift16 (b : UInt8) : (b.toUInt16 <<< 8).toNat = b.toNat <<< 8 := by
  have hb := b.toNat_lt
  simp [UInt16.toNat_shiftLeft, Nat.shiftLeft_eq]
  omega

theorem toNat_shift32 (b : UInt8) :
    (b.toUInt32 <<< 8).toNat = b.toNat <<< 8 ∧ (b.toUInt32 <<< 16).toNat = b.toNat <<< 16 ∧
      (b.toUInt32 <<< 24).toNat = b.toNat <<< 24 := by
  have hb := b.toNat_lt
  simp [UInt32.toNat_shiftLeft, Nat.shiftLeft_eq]
  omega

theorem toNat_loadBe16 (m : Image) (offset : ℕ) :
    (loadBe16 m offset).toNat = (m offset).toNat*2^8+(m (offset+1)).toNat := by
  rw [loadBe16, UInt16.toNat_or, toNat_shift16, UInt8.toNat_toUInt16,
    or_low (m (offset+1)).toNat_lt]

theorem toNat_loadLe16 (m : Image) (offset : ℕ) :
    (loadLe16 m offset).toNat = (m (offset+1)).toNat*2^8+(m offset).toNat := by
  rw [loadLe16, UInt16.toNat_or, toNat_shift16, UInt8.toNat_toUInt16, Nat.or_comm,
    or_low (m offset).toNat_lt]

theorem toNat_loadBe32 (m : Image) (offset : ℕ) :
    (loadBe32 m offset).toNat = (m offset).toNat*2^24+((m (offset+1)).toNat*2^16+
      ((m (offset+2)).toNat*2^8+(m (offset+3)).toNat)) := by
  have h1 := (m (offset+1)).toNat_lt
  have h2 := (m (offset+2)).toNat_lt
  have h3 := (m (offset+3)).toNat_lt
  rw [loadBe32, UInt32.toNat_or, UInt32.toNat_or, UInt32.toNat_or, (toNat_shift32 _).1,
    (toNat_shift32 _).2.1, (toNat_shift32 _).2.2, UInt8.toNat_toUInt32, Nat.or_assoc,
    Nat.or_assoc, or_low h3, or_low (a := (m (offset+1)).toNat) (by omega), or_low (by omega)]

theorem toNat_loadLe32 (m : Image) (offset : ℕ) :
    (loadLe32 m offset).toNat = (m (offset+3)).toNat*2^24+((m (offset+2)).toNat*2^16+
      ((m (offset+1)).toNat*2^8+(m offset).toNat)) := by
  have h0 := (m offset).toNat_lt
  have h1 := (m (offset+1)).toNat_lt
  have h2 := (m (offset+2)).toNat_lt
  rw [loadLe32, UInt32.toNat_or, UInt32.toNat_or, UInt32.toNat_or, (toNat_shift32 _).1,
    (toNat_shift32 _).2.1, (toNat_shift32 _).2.2, UInt8.toNat_toUInt32,
    Nat.or_comm (m offset).toNat, or_low h0, Nat.or_comm _ ((m (offset+2)).toNat <<< 16),
    or_low (by omega), Nat.or_comm, or_low (by omega)]

theorem loadLe16_congr {m m' : Image} {i j : ℕ} (h : ∀ k < 2, m (i+k) = m' (j+k)) :
    loadLe16 m i = loadLe16 m' j := by
  have h0 := h 0 (by omega)
  have h1 := h 1 (by omega)
  simp only [Nat.add_zero] at h0
  rw [loadLe16, loadLe16, h0, h1]

theorem loadLe32_congr {m m' : Image} {i j : ℕ} (h : ∀ k < 4, m (i+k) = m' (j+k)) :
    loadLe32 m i = loadLe32 m' j := by
  have h0 := h 0 (by omega)
  have h1 := h 1 (by omega)
  have h2 := h 2 (by omega)
  have h3 := h 3 (by omega)
  simp only [Nat.add_zero] at h0
  rw [loadLe32, loadLe32, h0, h1, h2, h3]

theorem loadBe16_congr {m m' : Image} {i j : ℕ} (h : ∀ k < 2, m (i+k) = m' (j+k)) :
    loadBe16 m i = loadBe16 m' j := by
  have h0 := h 0 (by omega)
  have h1 := h 1 (by omega)
  simp only [Nat.add_zero] at h0
  rw [loadBe16, loadBe16, h0, h1]

theorem loadBe32_congr {m m' : Image} {i j : ℕ} (h : ∀ k < 4, m (i+k) = m' (j+k)) :
    loadBe32 m i = loadBe32 m' j := by
  have h0 := h 0 (by omega)
  have h1 := h 1 (by omega)
  have h2 := h 2 (by omega)
  have h3 := h 3 (by omega)
  simp only [Nat.add_zero] at h0
  rw [loadBe32, loadBe32, h0, h1, h2, h3]

/-- What one of the stores wrote is what the matching load reads. -/
theorem loadLe16_store {m : Image} {offset : ℕ} {v : UInt16}
    (h : slice m offset 2 = storeLe16 v) : loadLe16 m offset = v := by
  have hget : ∀ i < (storeLe16 v).length, m (offset+i) = (storeLe16 v).getD i 0 := slice_eq_iff.mp h
  have h0 := hget 0 (by decide : 0 < 2)
  have h1 := hget 1 (by decide : 1 < 2)
  have hv := v.toNat_lt
  apply UInt16.toNat_inj.mp
  rw [toNat_loadLe16, h1, show m offset = _ from h0]
  simp [storeLe16, Nat.shiftRight_eq_div_pow]
  omega

theorem loadLe32_store {m : Image} {offset : ℕ} {v : UInt32}
    (h : slice m offset 4 = storeLe32 v) : loadLe32 m offset = v := by
  have hget : ∀ i < (storeLe32 v).length, m (offset+i) = (storeLe32 v).getD i 0 := slice_eq_iff.mp h
  have h0 := hget 0 (by decide : 0 < 4)
  have h1 := hget 1 (by decide : 1 < 4)
  have h2 := hget 2 (by decide : 2 < 4)
  have h3 := hget 3 (by decide : 3 < 4)
  have hv := v.toNat_lt
  apply UInt32.toNat_inj.mp
  rw [toNat_loadLe32, h1, h2, h3, show m offset = _ from h0]
  simp [storeLe32, Nat.shiftRight_eq_div_pow]
  omega

theorem loadBe16_store {m : Image} {offset : ℕ} {v : UInt16}
    (h : slice m offset 2 = storeBe16 v) : loadBe16 m offset = v := by
  have hget : ∀ i < (storeBe16 v).length, m (offset+i) = (storeBe16 v).getD i 0 := slice_eq_iff.mp h
  have h0 := hget 0 (by decide : 0 < 2)
  have h1 := hget 1 (by decide : 1 < 2)
  have hv := v.toNat_lt
  apply UInt16.toNat_inj.mp
  rw [toNat_loadBe16, h1, show m offset = _ from h0]
  simp [storeBe16, Nat.shiftRight_eq_div_pow]
  omega

theorem loadBe32_store {m : Image} {offset : ℕ} {v : UInt32}
    (h : slice m offset 4 = storeBe32 v) : loadBe32 m offset = v := by
  have hget : ∀ i < (storeBe32 v).length, m (offset+i) = (storeBe32 v).getD i 0 := slice_eq_iff.mp h
  have h0 := hget 0 (by decide : 0 < 4)
  have h1 := hget 1 (by decide : 1 < 4)
  have h2 := hget 2 (by decide : 2 < 4)
  have h3 := hget 3 (by decide : 3 < 4)
  have hv := v.toNat_lt
  apply UInt32.toNat_inj.mp
  rw [toNat_loadBe32, h1, h2, h3, show m offset = _ from h0]
  simp [storeBe32, Nat.shiftRight_eq_div_pow]
  omega

/-- What a load reads is what the matching store would have written. -/
theorem store_loadBe16 (m : Image) (offset : ℕ) :
    storeBe16 (loadBe16 m offset) = slice m offset 2 := by
  have h0 := (m offset).toNat_lt
  have h1 := (m (offset+1)).toNat_lt
  have hload := toNat_loadBe16 m offset
  have hhigh : (loadBe16 m offset >>> 8).toUInt8 = m offset := by
    apply UInt8.toNat_inj.mp
    simp [Nat.shiftRight_eq_div_pow, hload]
    omega
  have hlow : (loadBe16 m offset).toUInt8 = m (offset+1) := by
    apply UInt8.toNat_inj.mp
    simp [hload]
  rw [storeBe16, hhigh, hlow]
  rfl

theorem store_loadBe32 (m : Image) (offset : ℕ) :
    storeBe32 (loadBe32 m offset) = slice m offset 4 := by
  have h0 := (m offset).toNat_lt
  have h1 := (m (offset+1)).toNat_lt
  have h2 := (m (offset+2)).toNat_lt
  have h3 := (m (offset+3)).toNat_lt
  have hload := toNat_loadBe32 m offset
  have hbyte0 : (loadBe32 m offset >>> 24).toUInt8 = m offset := by
    apply UInt8.toNat_inj.mp
    simp [Nat.shiftRight_eq_div_pow, hload]
    omega
  have hbyte1 : (loadBe32 m offset >>> 16).toUInt8 = m (offset+1) := by
    apply UInt8.toNat_inj.mp
    simp [Nat.shiftRight_eq_div_pow, hload]
    omega
  have hbyte2 : (loadBe32 m offset >>> 8).toUInt8 = m (offset+2) := by
    apply UInt8.toNat_inj.mp
    simp [Nat.shiftRight_eq_div_pow, hload]
    omega
  have hbyte3 : (loadBe32 m offset).toUInt8 = m (offset+3) := by
    apply UInt8.toNat_inj.mp
    simp [hload]
    omega
  rw [storeBe32, hbyte0, hbyte1, hbyte2, hbyte3]
  rfl

theorem slice_append_iff {m : Image} {offset : ℕ} {a b : List UInt8} :
    slice m offset (a.length+b.length) = a ++ b ↔
      slice m offset a.length = a ∧ slice m (offset+a.length) b.length = b := by
  rw [slice_append]
  constructor
  · intro h
    exact List.append_inj h (by simp)
  · rintro ⟨ha, hb⟩
    rw [ha, hb]

theorem slice_take (m : Image) (offset : ℕ) {a b : ℕ} (h : a ≤ b) :
    (slice m offset b).take a = slice m offset a := by
  obtain ⟨c, rfl⟩ := Nat.exists_eq_add_of_le h
  rw [slice_append, List.take_left' (slice_length m offset a)]

end JaszczurHal.ByteImage
