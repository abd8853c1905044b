import JaszczurHal.HalStatus
import JaszczurHal.HalCrc
import JaszczurHal.JhSha256
import JaszczurHal.OtaImage

/-!
# The signed header of an update

An update container starts with 160 bytes that name the target, the place and
the digest of its payload. A CRC-32 covers the header, and an HMAC-SHA256 the
fields before the signature.
-/

set_option autoImplicit false

namespace JaszczurHal.OtaManifest
open HalStatus HalCrc ByteImage JhSha256 OtaImage

def JH_OTA_IMAGE_HEADER_SIZE : ℕ := 160
def JH_OTA_IMAGE_VERSION : UInt16 := 1
def JH_OTA_SHA256_BYTES : ℕ := 32
def kImageCrcOffset : ℕ := JH_OTA_IMAGE_HEADER_SIZE-4

def kImageMagic : List UInt8 := [74, 72, 79, 84, 65, 49, 13, 10]

/-- `jh_ota_image_manifest_t`; the target zero is the unknown one. -/
structure Manifest where
  target : UInt16
  flags : UInt16
  programOffset : UInt32
  payloadSize : UInt32
  generation : UInt32
  sha256 : Vector UInt8 32
  version : Vector UInt8 32
  signature : Vector UInt8 32
  deriving DecidableEq, Repr

def manifestValid (m : Manifest) : Bool :=
  decide (m.target ≠ 0) && decide (0 < m.payloadSize) && textValid m.version.toList

def headerBody (m : Manifest) : List UInt8 :=
  kImageMagic ++ storeLe16 JH_OTA_IMAGE_VERSION ++
    storeLe16 (UInt16.ofNat JH_OTA_IMAGE_HEADER_SIZE) ++ storeLe16 m.target ++
    storeLe16 m.flags ++ storeLe32 m.programOffset ++ storeLe32 m.payloadSize ++
    storeLe32 m.generation ++ List.replicate 4 0 ++ m.sha256.toList ++ m.version.toList ++
    m.signature.toList ++ List.replicate 28 0

def manifestEncode (m : Manifest) : Except Status (List UInt8) :=
  if manifestValid m then .ok (headerBody m ++ storeLe32 (crc32 (headerBody m)))
  else .error .einval

def loadArray (raw : List UInt8) (offset : ℕ) : Vector UInt8 32 :=
  ⟨(slice (ofList raw) offset 32).toArray, by simp⟩

def manifestDecode (raw : List UInt8) : Except Status Manifest :=
  if raw.take kImageMagic.length ≠ kImageMagic ∨
      loadLe16 (ofList raw) 8 ≠ JH_OTA_IMAGE_VERSION ∨
      loadLe16 (ofList raw) 10 ≠ UInt16.ofNat JH_OTA_IMAGE_HEADER_SIZE ∨
      textValid (slice (ofList raw) 64 JH_OTA_VERSION_TEXT_SIZE) = false ∨
      loadLe32 (ofList raw) kImageCrcOffset ≠ crc32 (raw.take kImageCrcOffset) then
    .error .eproto
  else
    let m : Manifest :=
      { target := loadLe16 (ofList raw) 12
        flags := loadLe16 (ofList raw) 14
        programOffset := loadLe32 (ofList raw) 16
        payloadSize := loadLe32 (ofList raw) 20
        generation := loadLe32 (ofList raw) 24
        sha256 := loadArray raw 32
        version := loadArray raw 64
        signature := loadArray raw 96 }
    if manifestValid m then .ok m else .error .eproto

def unsigned (m : Manifest) : Manifest := { m with signature := Vector.replicate 32 0 }

def manifestAuthBytes (m : Manifest) : Except Status (List UInt8) :=
  if manifestValid m then
    match manifestEncode (unsigned m) with
    | .error status => .error status
    | .ok encoded => .ok (encoded.take 96)
  else .error .einval

theorem hmac_length (key message : List UInt8) : (halHmacSha256 key message).length = 32 := rfl

def manifestSign (m : Manifest) (key : List UInt8) : Except Status Manifest :=
  match manifestAuthBytes m with
  | .error status => .error status
  | .ok bytes => .ok { m with
      signature := ⟨(halHmacSha256 key bytes).toArray, hmac_length key bytes⟩ }

def difference (expected actual : List UInt8) : UInt8 :=
  (expected.zip actual).foldl (fun d p => d ||| p.1 ^^^ p.2) 0

def manifestVerify (m : Manifest) (key : List UInt8) : Status :=
  match manifestSign m key with
  | .error status => status
  | .ok expected =>
    if difference expected.signature.toList m.signature.toList = 0 then .ok else .eauth

theorem or_eq_zero {a b : UInt8} : a ||| b = 0 ↔ a = 0 ∧ b = 0 := by
  rw [← UInt8.toBitVec_inj, ← UInt8.toBitVec_inj, ← UInt8.toBitVec_inj, UInt8.toBitVec_or]
  exact BitVec.or_eq_zero_iff

theorem difference_from (d : UInt8) (expected actual : List UInt8)
    (h : expected.length = actual.length) :
    (expected.zip actual).foldl (fun d p => d ||| p.1 ^^^ p.2) d = 0 ↔
      d = 0 ∧ expected = actual := by
  induction expected generalizing d actual with
  | nil =>
    have hnil := List.length_eq_zero_iff.mp h.symm
    simp [hnil]
  | cons x expected ih =>
    cases actual with
    | nil => cases h
    | cons y actual =>
      rw [List.zip_cons_cons, List.foldl_cons, ih _ _ (Nat.succ.inj h), or_eq_zero,
        UInt8.xor_eq_zero_iff, List.cons.injEq, and_assoc]

theorem difference_eq_zero {expected actual : List UInt8} (h : expected.length = actual.length) :
    difference expected actual = 0 ↔ expected = actual := by
  rw [difference, difference_from 0 expected actual h]
  simp

def signedBytes (m : Manifest) : List UInt8 := (headerBody m).take 96

theorem signed_starts (m : Manifest) :
    signedBytes m = kImageMagic ++ storeLe16 JH_OTA_IMAGE_VERSION ++
      storeLe16 (UInt16.ofNat JH_OTA_IMAGE_HEADER_SIZE) ++ storeLe16 m.target ++
      storeLe16 m.flags ++ storeLe32 m.programOffset ++ storeLe32 m.payloadSize ++
      storeLe32 m.generation ++ List.replicate 4 0 ++ m.sha256.toList ++ m.version.toList := by
  rw [signedBytes, headerBody, List.append_assoc _ m.signature.toList]
  exact List.take_left' (by simp [kImageMagic, storeLe16, storeLe32])

theorem signed_unsigned (m : Manifest) : signedBytes (unsigned m) = signedBytes m := by
  rw [signed_starts, signed_starts]
  rfl

theorem authBytes_eq {m : Manifest} (h : manifestValid m = true) :
    manifestAuthBytes m = .ok (signedBytes m) := by
  have hlen : 96 ≤ (headerBody (unsigned m)).length := by
    simp [headerBody, kImageMagic, storeLe16, storeLe32]
  have hunsigned : manifestValid (unsigned m) = true := h
  rw [manifestAuthBytes, if_pos h, manifestEncode, if_pos hunsigned]
  dsimp only
  rw [List.take_append_of_le_length hlen]
  exact congrArg Except.ok (signed_unsigned m)

theorem decode_valid {raw : List UInt8} {m : Manifest} (h : manifestDecode raw = .ok m) :
    manifestValid m = true := by
  unfold manifestDecode at h
  split at h
  · cases h
  · dsimp only at h
    split at h
    · rename_i hvalid
      rw [← Except.ok.inj h]
      exact hvalid
    · cases h

theorem decode_error {raw : List UInt8} {status : Status}
    (h : manifestDecode raw = .error status) : status = .eproto := by
  unfold manifestDecode at h
  split at h
  · exact (Except.error.inj h).symm
  · dsimp only at h
    split at h
    · cases h
    · exact (Except.error.inj h).symm

theorem verify_ok {m : Manifest} {key : List UInt8} (hvalid : manifestValid m = true)
    (h : manifestVerify m key = .ok) :
    halHmacSha256 key (signedBytes m) = m.signature.toList := by
  rw [manifestVerify, manifestSign, authBytes_eq hvalid] at h
  dsimp only at h
  split at h
  · rename_i hd
    exact (difference_eq_zero (by simp [hmac_length])).mp hd
  · cases h

end JaszczurHal.OtaManifest
