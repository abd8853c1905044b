import JaszczurHal.GamepadReport
import JaszczurHal.ByteImage
import Mathlib.Data.Nat.Bitwise

/-!
# Reading a field is taking a bit slice

Inside the report, the byte loop and the masks of the reader give a slice of
the report's number, and sign extension gives its value in two's complement.
-/

set_option autoImplicit false

namespace JaszczurHal.GamepadBits
open CheckedArith GamepadParser GamepadReport ByteImage

def reportNumber : List UInt8 → ℕ
  | [] => 0
  | b :: bs => b.toNat+2^8*reportNumber bs

def bitSlice (report : List UInt8) (position size : ℕ) : ℕ :=
  reportNumber report/2^position%2^size

theorem reportNumber_append (a b : List UInt8) :
    reportNumber (a ++ b) = reportNumber a+2^(8*a.length)*reportNumber b := by
  induction a with
  | nil => simp [reportNumber]
  | cons x a ih =>
    rw [List.cons_append, reportNumber, reportNumber, ih, List.length_cons, Nat.mul_add,
      Nat.mul_add, Nat.pow_add]
    ring

theorem reportNumber_lt (a : List UInt8) : reportNumber a < 2^(8*a.length) := by
  induction a with
  | nil => simp [reportNumber]
  | cons x a ih =>
    have hx := x.toNat_lt
    rw [reportNumber, List.length_cons, Nat.mul_add, Nat.pow_add]
    omega

theorem reportNumber_take (report : List UInt8) {n : ℕ} (h : n ≤ report.length) :
    reportNumber (report.take n) = reportNumber report%2^(8*n) := by
  have hlength : (report.take n).length = n := by
    rw [List.length_take]
    omega
  have hlt := reportNumber_lt (report.take n)
  calc reportNumber (report.take n)
      = reportNumber (report.take n)%2^(8*n) := by
        rw [hlength] at hlt
        rw [Nat.mod_eq_of_lt hlt]
    _ = (reportNumber (report.take n)+2^(8*n)*reportNumber (report.drop n))%2^(8*n) := by
        rw [Nat.add_mul_mod_self_left]
    _ = reportNumber report%2^(8*n) := by
        conv_rhs => rw [← List.take_append_drop n report, reportNumber_append, hlength]

theorem reportNumber_drop (report : List UInt8) {n : ℕ} (h : n ≤ report.length) :
    reportNumber (report.drop n) = reportNumber report/2^(8*n) := by
  have hlength : (report.take n).length = n := by
    rw [List.length_take]
    omega
  have hlt := reportNumber_lt (report.take n)
  rw [hlength] at hlt
  conv_rhs => rw [← List.take_append_drop n report, reportNumber_append, hlength]
  rw [Nat.add_mul_div_left _ _ (Nat.two_pow_pos _), Nat.div_eq_of_lt hlt, Nat.zero_add]

theorem reportNumber_take_succ (report : List UInt8) {n : ℕ} (h : n < report.length) :
    reportNumber (report.take (n+1)) = reportNumber (report.take n)+2^(8*n)*report[n].toNat := by
  rw [List.take_succ_eq_append_getElem h, reportNumber_append, List.length_take,
    Nat.min_eq_left (Nat.le_of_lt h)]
  simp [reportNumber]

theorem toNat_shiftLeft_byte (b : UInt8) {i : ℕ} (h : i ≤ 4) :
    (b.toUInt64 <<< UInt64.ofNat (i*8)).toNat = b.toNat <<< (8*i) := by
  have hb := b.toNat_lt
  have hpow : (2:ℕ)^(8*i) ≤ 2^32 := Nat.pow_le_pow_right (by omega) (by omega)
  have hshift : (UInt64.ofNat (i*8)).toNat = 8*i := by
    rw [UInt64.toNat_ofNat']
    omega
  rw [UInt64.toNat_shiftLeft, hshift, UInt8.toNat_toUInt64, Nat.mod_eq_of_lt (by omega : 8*i < 64),
    Nat.shiftLeft_eq, Nat.mod_eq_of_lt]
  calc b.toNat*2^(8*i) ≤ 255*2^32 := Nat.mul_le_mul (by omega) hpow
    _ < 2^64 := by norm_num

theorem safe_packedBytes {report : List UInt8} {offset count : ℕ} (hcount : count ≤ 5)
    (h : offset+count ≤ report.length) :
    Safe (packedBytes report offset count) fun packed =>
      packed.toNat = reportNumber report/2^(8*offset)%2^(8*count) := by
  have hdrop : (report.drop offset).length = report.length-offset := List.length_drop
  have hloop : Safe (packedBytes report offset count) fun packed =>
      packed.toNat = reportNumber ((report.drop offset).take count) := by
    refine safe_range (I := fun i (packed : UInt64) =>
      packed.toNat = reportNumber ((report.drop offset).take i)) rfl fun i hi packed hpacked => ?_
    have hindex : offset+i < report.length := by omega
    have hinside : i < (report.drop offset).length := by omega
    refine safe_bind (safe_readAt hindex) fun byte hbyte => ?_
    refine safe_bind (safe_shiftLeft64 (by omega)) fun shifted hshifted => safe_pure ?_
    have hlt := reportNumber_lt ((report.drop offset).take i)
    rw [List.length_take, Nat.min_eq_left (by omega)] at hlt
    rw [reportNumber_take_succ _ hinside, List.getElem_drop, ← hbyte, ← hpacked, hshifted,
      UInt64.toNat_or, toNat_shiftLeft_byte _ (by omega), Nat.or_comm,
      or_low (by rw [hpacked]; exact hlt)]
    ring
  exact safe_mono hloop fun packed hpacked => by
    rw [hpacked, reportNumber_take _ (by omega), reportNumber_drop _ (by omega)]

theorem slice_of_packed {n offset bits count size : ℕ} (h : bits+size ≤ 8*count) :
    n/2^(8*offset)%2^(8*count)/2^bits%2^size = n/2^(8*offset+bits)%2^size := by
  apply Nat.eq_of_testBit_eq
  intro i
  simp only [Nat.testBit_mod_two_pow, Nat.testBit_div_two_pow]
  by_cases hi : i < size
  · have hinside : i+bits < 8*count := by omega
    simp only [hi, hinside, decide_true, Bool.true_and]
    congr 1
    omega
  · simp [hi]

theorem safe_fieldMask {size : UInt8} (h : size.toNat ≤ 32) :
    Safe (fieldMask size) fun mask => mask.toNat = 2^size.toNat-1 := by
  unfold fieldMask
  refine safe_ite (fun hsize => ?_) fun hsize => ?_
  · rw [hsize]
    exact safe_pure rfl
  · refine safe_bind (safe_shiftLeft64 (by omega)) fun bit hbit => safe_pure ?_
    have hpow : (2:ℕ)^size.toNat ≤ 2^32 := Nat.pow_le_pow_right (by omega) h
    have hpos := Nat.two_pow_pos size.toNat
    have hshift : (UInt64.ofNat size.toNat).toNat = size.toNat := by
      rw [UInt64.toNat_ofNat']
      omega
    have htoNat : bit.toNat = 2^size.toNat := by
      rw [hbit, UInt64.toNat_shiftLeft, hshift, Nat.mod_eq_of_lt (by omega : size.toNat < 64)]
      show 1 <<< size.toNat%2^64 = _
      rw [Nat.shiftLeft_eq, Nat.one_mul, Nat.mod_eq_of_lt]
      omega
    rw [UInt64.toNat_sub_of_le _ _ (by rw [UInt64.le_iff_toNat_le, htoNat]; exact hpos), htoNat]
    rfl

/-- Inside the report the reader takes the slice of the field. -/
theorem safe_readUnsignedField {report : List UInt8} {position : ℕ} {size : UInt8}
    (hsize : size.toNat ≤ 32) (h : (position+size.toNat+7)/8 ≤ report.length)
    (hreport : report.length ≤ reportMax) (hpos : 0 < size.toNat) :
    Safe (readUnsignedField report position size) fun raw =>
      raw.toNat = bitSlice report position size.toNat := by
  have hmax : reportMax = 32 := rfl
  refine safe_bind (safe_narrow (by omega)) fun byteOffset hoffset => ?_
  refine safe_bind (safe_narrow (by omega)) fun bitOffset hbits => ?_
  refine safe_bind (safe_narrow (by omega)) fun byteCount hcount => ?_
  refine safe_bind (safe_packedBytes (by omega) (by omega)) fun packed hpacked => ?_
  refine safe_bind (safe_shiftRight64 (by omega)) fun shifted hshifted => ?_
  refine safe_bind (safe_fieldMask hsize) fun mask hmask => safe_pure ?_
  have hshift : (UInt64.ofNat bitOffset).toNat = bitOffset := by
    rw [UInt64.toNat_ofNat']
    omega
  have hlt : bitSlice report position size.toNat < 2^32 :=
    (Nat.mod_lt _ (Nat.two_pow_pos _)).trans_le (Nat.pow_le_pow_right (by omega) hsize)
  have hposition : 8*byteOffset+bitOffset = position := by omega
  have hvalue : (shifted &&& mask).toNat = bitSlice report position size.toNat := by
    rw [UInt64.toNat_and, hmask, Nat.and_two_pow_sub_one_eq_mod, hshifted, UInt64.toNat_shiftRight,
      hshift, Nat.mod_eq_of_lt (by omega : bitOffset < 64), Nat.shiftRight_eq_div_pow, hpacked,
      slice_of_packed (by omega), hposition]
    rfl
  rw [UInt64.toNat_toUInt32, hvalue, Nat.mod_eq_of_lt hlt]

theorem toInt_toInt32 (raw : UInt32) : raw.toInt32.toInt = (BitVec.ofNat 32 raw.toNat).toInt := by
  rw [← UInt32.toNat_toBitVec, BitVec.ofNat_toNat, BitVec.setWidth_eq]
  rfl

/-- The set bits from bit `k` on absorb bit `k` of a number of `k+1` bits. -/
theorem or_sign {raw k m : ℕ} (hodd : m%2 = 1) (hlow : 2^k ≤ raw) (hhigh : raw < 2^(k+1)) :
    raw ||| 2^k*m = raw-2^k+2^k*m := by
  have hrest : raw-2^k < 2^k := by
    rw [Nat.pow_succ] at hhigh
    omega
  have hraw : raw = 1 <<< k ||| (raw-2^k) := by
    rw [or_low hrest]
    omega
  have hm : m ||| 1 = m := by
    apply Nat.eq_of_testBit_eq
    intro i
    cases i with
    | zero => simp [hodd]
    | succ i =>
      have hone : Nat.testBit 1 (i+1) = false := by simp [Nat.testBit_succ]
      rw [Nat.testBit_or, hone, Bool.or_false]
  calc raw ||| 2^k*m
      = (m <<< k ||| 1 <<< k) ||| (raw-2^k) := by
        rw [Nat.shiftLeft_eq m, Nat.mul_comm m]
        conv_lhs => rw [hraw]
        rw [Nat.or_comm, Nat.or_assoc]
    _ = m <<< k ||| (raw-2^k) := by rw [← Nat.shiftLeft_or_distrib, hm]
    _ = raw-2^k+2^k*m := by rw [or_low hrest, Nat.mul_comm, Nat.add_comm]

theorem toNat_signMask {signBit : UInt32} {k : ℕ} (h : signBit.toNat = 2^k) (hk : k < 32) :
    (~~~(signBit-1)).toNat = 2^k*(2^(32-k)-1) := by
  have hpos := Nat.two_pow_pos k
  have hle : (2:ℕ)^k ≤ 2^31 := Nat.pow_le_pow_right (by omega) (by omega)
  have hsplit : (2:ℕ)^k*2^(32-k) = 2^32 := by
    rw [← Nat.pow_add]
    congr 1
    omega
  have hsub : (signBit-1).toNat = 2^k-1 := by
    rw [UInt32.toNat_sub_of_le _ _ (by rw [UInt32.le_iff_toNat_le, h]; exact hpos), h]
    rfl
  rw [UInt32.toNat_not, hsub, Nat.mul_sub, hsplit]
  show 2^32-1-(2^k-1) = _
  omega

theorem and_sign {raw k : ℕ} (h : raw < 2^(k+1)) : raw &&& 2^k = 0 ↔ raw < 2^k := by
  rw [Nat.and_two_pow]
  have hpos := Nat.two_pow_pos k
  constructor
  · intro hzero
    by_contra hle
    rw [Nat.testBit_of_two_pow_le_and_two_pow_add_one_gt (by omega) h] at hzero
    simp at hzero
  · intro hlt
    rw [Nat.testBit_lt_two_pow hlt]
    simp

theorem safe_signExtend {raw : UInt32} {size : UInt8} (hpos : 0 < size.toNat)
    (hsize : size.toNat ≤ 32) (hraw : raw.toNat < 2^size.toNat) :
    Safe (signExtend raw size) fun value =>
      value.toInt = (BitVec.ofNat size.toNat raw.toNat).toInt := by
  unfold signExtend
  refine safe_ite (fun h32 => ?_) fun h32 => ?_
  · rw [h32]
    exact safe_pure (toInt_toInt32 raw)
  have hlt : size.toNat < 32 := by
    have hne : size.toNat ≠ 32 := fun h => h32 (UInt8.toNat_inj.mp h)
    omega
  obtain ⟨k, hk⟩ := Nat.exists_eq_succ_of_ne_zero (by omega : size.toNat ≠ 0)
  have hk' : size.toNat = k+1 := hk
  have hshift : (size.toUInt32-1).toNat = k := by
    rw [UInt32.toNat_sub_of_le _ _ (by rw [UInt32.le_iff_toNat_le, UInt8.toNat_toUInt32]; exact hpos),
      UInt8.toNat_toUInt32, hk']
    rfl
  have hkpos := Nat.two_pow_pos k
  rw [hk'] at hraw
  refine safe_bind (safe_shiftLeft32 (by omega)) fun signBit hsign => ?_
  have hbit : signBit.toNat = 2^k := by
    have hle : (2:ℕ)^k ≤ 2^31 := Nat.pow_le_pow_right (by omega) (by omega)
    have hofNat : (UInt32.ofNat k).toNat = k := by
      rw [UInt32.toNat_ofNat']
      omega
    rw [hsign, hshift, UInt32.toNat_shiftLeft, hofNat, Nat.mod_eq_of_lt (by omega : k < 32)]
    show 1 <<< k%2^32 = _
    rw [Nat.shiftLeft_eq, Nat.one_mul, Nat.mod_eq_of_lt]
    omega
  have hzero : raw &&& signBit = 0 ↔ raw.toNat < 2^k := by
    rw [← UInt32.toNat_inj, UInt32.toNat_and, hbit]
    exact and_sign hraw
  rw [BitVec.toInt_eq_toNat_cond, BitVec.toNat_ofNat, hk', Nat.mod_eq_of_lt hraw]
  refine safe_ite (fun h => safe_pure ?_) fun h => safe_pure ?_
  · rw [toInt_toInt32, BitVec.toInt_eq_toNat_cond, BitVec.toNat_ofNat]
    have hlow := hzero.mp h
    have hle : (2:ℕ)^k ≤ 2^31 := Nat.pow_le_pow_right (by omega) (by omega)
    rw [Nat.mod_eq_of_lt (by omega), if_pos (by omega), if_pos (by rw [Nat.pow_succ]; omega)]
  · have hhigh : 2^k ≤ raw.toNat := Nat.le_of_not_lt fun hlow => h (hzero.mpr hlow)
    have hsplit : (2:ℕ)^k*2^(32-k) = 2^32 := by
      rw [← Nat.pow_add]
      congr 1
      omega
    have hdouble : (2:ℕ)^(k+1)*2^(32-(k+1)) = 2^32 := by
      rw [← Nat.pow_add]
      congr 1
      omega
    have hsuccle : (2:ℕ)^(k+1) ≤ 2^32 := Nat.pow_le_pow_right (by omega) (by omega)
    have hvalue : (raw ||| ~~~(signBit-1)).toNat = raw.toNat-2^k+(2^32-2^k) := by
      rw [UInt32.toNat_or, toNat_signMask hbit (by omega), or_sign _ hhigh hraw, Nat.mul_sub, hsplit]
      · omega
      · rw [Nat.two_pow_sub_one_mod_two, Nat.mod_eq_of_lt]
        exact Nat.one_lt_two_pow (by omega)
    rw [toInt_toInt32, hvalue, BitVec.toInt_eq_toNat_cond, BitVec.toNat_ofNat]
    rw [Nat.pow_succ] at hraw hsuccle
    have hpow31 : (2:ℕ)^k ≤ 2^31 := Nat.pow_le_pow_right (by omega) (by omega)
    rw [Nat.mod_eq_of_lt (by omega), if_neg (by omega), if_neg (by rw [Nat.pow_succ]; omega)]
    rw [Nat.pow_succ]
    omega

/-- The value of a field in a report: the slice at its place behind the report
id, in two's complement if the field has negative values. -/
def fieldValue (f : Field) (report : List UInt8) : ℤ :=
  let slice := bitSlice report (f.bitPosition+headerBits f.reportId) f.bitSize.toNat
  if f.logicalMinimum < 0 then (BitVec.ofNat f.bitSize.toNat slice).toInt
  else (BitVec.ofNat 32 slice).toInt

theorem safe_readField {f : Field} {report : List UInt8} (hpos : 0 < f.bitSize.toNat)
    (hsize : f.bitSize.toNat ≤ 32) (hreport : report.length ≤ reportMax)
    (h : (f.bitPosition+headerBits f.reportId+f.bitSize.toNat+7)/8 ≤ report.length) :
    Safe (readField f report) fun value => value.toInt = fieldValue f report := by
  have hmax : reportMax = 32 := rfl
  refine safe_bind (safe_narrow (by omega)) fun position hposition => ?_
  subst hposition
  refine safe_bind (safe_readUnsignedField hsize h hreport hpos) fun raw hraw => ?_
  unfold fieldValue
  refine safe_ite (fun hneg => ?_) fun hneg => ?_
  · rw [if_pos hneg, ← hraw]
    refine safe_signExtend hpos hsize ?_
    rw [hraw]
    exact Nat.mod_lt _ (Nat.two_pow_pos _)
  · rw [if_neg hneg, ← hraw]
    exact safe_pure (toInt_toInt32 raw)

end JaszczurHal.GamepadBits
