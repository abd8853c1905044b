import JaszczurHal.GamepadBits
import JaszczurHal.GamepadDescriptor

/-!
# The items of a report descriptor

A descriptor is a sequence of items, each with up to four data bytes behind
its prefix. Long items carry nothing the parser uses. The reader of the parser
goes through this sequence.
-/

set_option autoImplicit false

namespace JaszczurHal.GamepadItems
open CheckedArith GamepadParser GamepadReport GamepadBits GamepadDescriptor ByteImage

def dataSize (prefixByte : UInt8) : ℕ := sizes.getD (prefixByte &&& 3).toNat 0

/-- The item with this prefix and these data, which are one little-endian
number, once without a sign and once in two's complement. -/
def itemOf (prefixByte : UInt8) (data : List UInt8) : Item where
  value := UInt32.ofNat (reportNumber data)
  signedValue := Int32.ofInt (BitVec.ofNat (8*data.length) (reportNumber data)).toInt
  dataSize := data.length
  type := prefixByte >>> 2 &&& 3
  tag := prefixByte >>> 4

def itemsOf : List UInt8 → List Item
  | [] => []
  | prefixByte :: bytes =>
    if prefixByte = 0xFE then itemsOf (bytes.drop (2+(bytes.headD 0).toNat))
    else itemOf prefixByte (bytes.take (dataSize prefixByte)) ::
      itemsOf (bytes.drop (dataSize prefixByte))
termination_by bytes => bytes.length
decreasing_by
  · simp
  · simp

variable {descriptor : List UInt8}

theorem dataSize_mem (prefixByte : UInt8) : dataSize prefixByte ∈ sizes := by
  have hsmall := sizes_small prefixByte
  rw [dataSize, List.getD_eq_getElem?_getD, List.getElem?_eq_getElem hsmall]
  exact List.getElem_mem hsmall

theorem safe_size (prefixByte : UInt8) :
    Safe (readAt sizes (prefixByte &&& 3).toNat) fun size => size = dataSize prefixByte := by
  apply safe_mono (safe_readAt (sizes_small prefixByte))
  intro size hsize
  rw [hsize, dataSize, List.getD_eq_getElem?_getD,
    List.getElem?_eq_getElem (sizes_small prefixByte)]
  rfl

theorem toNat_shiftLeft_data (b : UInt8) {i : ℕ} (h : i < 4) :
    (b.toUInt32 <<< UInt32.ofNat (i*8)).toNat = b.toNat <<< (8*i) := by
  have hb := b.toNat_lt
  have hpow : (2:ℕ)^(8*i) ≤ 2^24 := Nat.pow_le_pow_right (by omega) (by omega)
  have hshift : (UInt32.ofNat (i*8)).toNat = 8*i := by
    rw [UInt32.toNat_ofNat']
    omega
  rw [UInt32.toNat_shiftLeft, hshift, UInt8.toNat_toUInt32, Nat.mod_eq_of_lt (by omega : 8*i < 32),
    Nat.shiftLeft_eq, Nat.mod_eq_of_lt]
  calc b.toNat*2^(8*i) ≤ 255*2^24 := Nat.mul_le_mul (by omega) hpow
    _ < 2^32 := by norm_num

theorem safe_itemNumber {position size : ℕ} (hlength : descriptor.length < 2^16) (hsize : size ≤ 4)
    (h : position+size ≤ descriptor.length) :
    Safe (itemValue descriptor position size) fun r =>
      r.1.toNat = reportNumber ((descriptor.drop position).take size) ∧ r.2 = position+size := by
  have hdrop : (descriptor.drop position).length = descriptor.length-position := List.length_drop
  apply safe_range (I := fun i (r : UInt32 × ℕ) =>
    r.1.toNat = reportNumber ((descriptor.drop position).take i) ∧ r.2 = position+i)
  · exact ⟨rfl, rfl⟩
  · rintro i hi ⟨value, p⟩ ⟨hvalue, hp⟩
    have hp : p = position+i := hp
    subst hp
    have hindex : position+i < descriptor.length := by omega
    have hinside : i < (descriptor.drop position).length := by omega
    apply safe_bind (safe_readAt hindex)
    intro byte hbyte
    apply safe_bind (safe_narrow (by omega))
    intro p' hp'
    apply safe_bind (safe_shiftLeft32 (by omega))
    intro shifted hshifted
    apply safe_pure
    have hlt := reportNumber_lt ((descriptor.drop position).take i)
    rw [List.length_take, Nat.min_eq_left (by omega)] at hlt
    constructor
    · show (value ||| shifted).toNat = _
      have hvalue : value.toNat = reportNumber ((descriptor.drop position).take i) := hvalue
      rw [reportNumber_take_succ _ hinside, List.getElem_drop, ← hbyte, ← hvalue, hshifted,
        UInt32.toNat_or, toNat_shiftLeft_data _ (by omega), Nat.or_comm,
        or_low (by rw [hvalue]; exact hlt)]
      ring
    · exact hp'

theorem ofInt_of_toInt {x : Int32} {n : ℤ} (h : x.toInt = n) : x = Int32.ofInt n := by
  rw [← h, Int32.ofInt_toInt]

/-- One or two data bytes are extended as a field of that many bits. -/
theorem itemSigned_extend (value : UInt32) {size : ℕ} (h : size = 1 ∨ size = 2) :
    itemSigned value size = signExtend value (UInt8.ofNat (8*size)) := by
  rcases h with rfl | rfl
  · show (if value &&& (1 : UInt32) <<< 7 ≠ 0 then _ else _) =
      (if value &&& (1 : UInt32) <<< 7 = 0 then _ else _)
    rw [ite_not]
    rfl
  · show (if value &&& (1 : UInt32) <<< 15 ≠ 0 then _ else _) =
      (if value &&& (1 : UInt32) <<< 15 = 0 then _ else _)
    rw [ite_not]
    rfl

theorem safe_itemSigned {value : UInt32} {size : ℕ} (hsize : size ∈ sizes)
    (hvalue : value.toNat < 2^(8*size)) : Safe (itemSigned value size) fun signedValue =>
      signedValue = Int32.ofInt (BitVec.ofNat (8*size) value.toNat).toInt := by
  have hcases : size = 0 ∨ (size = 1 ∨ size = 2) ∨ size = 4 := by
    simp [sizes] at hsize
    omega
  rcases hcases with rfl | hsmall | rfl
  · have hzero : value = 0 := by
      apply UInt32.toNat_inj.mp
      simp at hvalue
      simp [hvalue]
    rw [hzero]
    exact safe_pure rfl
  · rw [itemSigned_extend value hsmall]
    have hbits : (UInt8.ofNat (8*size)).toNat = 8*size := by
      rw [UInt8.toNat_ofNat']
      omega
    apply safe_mono (safe_signExtend (by omega) (by omega) (by rw [hbits]; exact hvalue))
    intro signedValue hsigned
    rw [hbits] at hsigned
    exact ofInt_of_toInt hsigned
  · exact safe_pure (ofInt_of_toInt (toInt_toInt32 value))

def ReadsOf (item : Item) (next : ℕ) (position : ℕ) (descriptor : List UInt8) : Prop :=
  position ≤ next ∧ next ≤ descriptor.length ∧
    (itemsOf (descriptor.drop position) = item :: itemsOf (descriptor.drop next) ∨
      item.type = 3 ∧ itemsOf (descriptor.drop position) = itemsOf (descriptor.drop next))

def Reads (position : ℕ) (descriptor : List UInt8) (r : Option (Item × ℕ)) : Prop :=
  ∀ item next, r = some (item, next) → ReadsOf item next position descriptor

theorem safe_shortRead {position : ℕ} {prefixByte : UInt8} (hlength : descriptor.length < 2^16) :
    Safe (shortItem descriptor prefixByte position) fun r => ∀ item next,
      r = some (item, next) → next = position+dataSize prefixByte ∧ next ≤ descriptor.length ∧
        item = itemOf prefixByte ((descriptor.drop position).take (dataSize prefixByte)) := by
  have hmem := dataSize_mem prefixByte
  have hsmall : dataSize prefixByte ≤ 4 := by
    have hall : ∀ n ∈ sizes, n ≤ 4 := by decide
    exact hall _ hmem
  apply safe_bind (safe_size prefixByte)
  intro size hsize
  subst hsize
  apply safe_ite
  · intro _
    apply safe_pure
    intro item next hsome
    cases hsome
  · intro hinside
    have htake : ((descriptor.drop position).take (dataSize prefixByte)).length =
        dataSize prefixByte := by
      rw [List.length_take, List.length_drop]
      omega
    apply safe_bind (safe_itemNumber hlength hsmall (by omega))
    rintro ⟨value, next⟩ ⟨hvalue, hnext⟩
    have hvalue : value.toNat = _ := hvalue
    have hnext : next = _ := hnext
    have hlt := reportNumber_lt ((descriptor.drop position).take (dataSize prefixByte))
    rw [htake, ← hvalue] at hlt
    apply safe_bind (safe_itemSigned hmem hlt)
    intro signedValue hsigned
    apply safe_pure
    intro item next' hsome
    obtain ⟨rfl, rfl⟩ := Prod.mk.inj (Option.some.inj hsome)
    refine ⟨hnext, by omega, ?_⟩
    rw [itemOf, htake, ← hvalue, hsigned, UInt32.ofNat_toNat]

theorem drop_inside {position : ℕ} (h : position < descriptor.length) :
    descriptor.drop position = descriptor[position] :: descriptor.drop (position+1) :=
  List.drop_eq_getElem_cons h

/-- The reader finds the next short item, or it ends behind a long one. -/
theorem safe_nextRead (hlength : descriptor.length < 2^16) {fuel position : ℕ}
    (hposition : position ≤ descriptor.length) (hfuel : descriptor.length < position+fuel) :
    Safe (nextItem descriptor fuel position) (Reads position descriptor) := by
  induction fuel generalizing position with
  | zero => omega
  | succ fuel ih =>
    rw [nextItem]
    apply safe_ite
    · intro hinside
      apply safe_bind (safe_readAt hinside)
      intro prefixByte hleads
      apply safe_bind (safe_narrow (by omega))
      intro second hsecond
      subst hsecond
      have hitems := itemsOf.eq_2 prefixByte (descriptor.drop (position+1))
      rw [hleads, ← drop_inside hinside, ← hleads] at hitems
      apply safe_ite
      · intro hlong
        rw [if_pos hlong] at hitems
        apply safe_ite
        · intro _
          apply safe_pure
          intro item next hsome
          cases hsome
        · intro hroom
          apply safe_bind (safe_readAt (by omega : position+1 < descriptor.length))
          intro size hsize
          apply safe_bind (safe_narrow (by omega))
          intro third hthird
          apply safe_bind (safe_narrow (by omega))
          intro data hdata
          apply safe_ite
          · intro _
            apply safe_pure
            intro item next hsome
            cases hsome
          · intro hdatasize
            apply safe_bind (safe_narrow (by omega))
            intro after hafter
            have hhead : (descriptor.drop (position+1)).headD 0 = size := by
              rw [drop_inside (by omega : position+1 < descriptor.length)]
              exact hsize.symm
            rw [hhead, List.drop_drop] at hitems
            have hplace : position+1+(2+size.toNat) = after := by omega
            rw [hplace] at hitems
            apply safe_mono (ih (by omega) (by omega))
            intro r hr item next hsome
            obtain ⟨hle, hend, hread⟩ := hr item next hsome
            rw [← hitems] at hread
            exact ⟨by omega, hend, hread⟩
      · intro hshort
        rw [if_neg hshort] at hitems
        apply safe_mono (safe_shortRead hlength)
        intro r hr item next hsome
        obtain ⟨hnext, hend, hitem⟩ := hr item next hsome
        rw [List.drop_drop, ← hnext, ← hitem] at hitems
        exact ⟨by omega, hend, Or.inl hitems⟩
    · intro hend
      apply safe_pure
      intro item next hsome
      obtain ⟨rfl, rfl⟩ := Prod.mk.inj (Option.some.inj hsome)
      exact ⟨le_rfl, hposition, Or.inr ⟨rfl, rfl⟩⟩

end JaszczurHal.GamepadItems
