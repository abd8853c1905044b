import JaszczurHal.ByteImage
import JaszczurHal.HalCrc
import JaszczurHal.HalStatus

/-!
# Bond records

A record of 38 bytes holds the identity of one bonded peer under a check sum.
What was encoded decodes to itself.
-/

set_option autoImplicit false

namespace JaszczurHal.BondCodec
open ByteImage HalCrc HalStatus

abbrev Address := Vector UInt8 6

structure Identity where
  address : Address
  linkKey : Vector UInt8 16
  sequence : UInt32
  profileId : UInt16
  linkKeyType : UInt8
  deriving DecidableEq, Repr

def bondMagic : UInt32 := 0x4243484A
def legacyMagic : UInt32 := 0x4247484A
def bondVersion : UInt8 := 1
def crcInit : UInt16 := 0xFFFF
def crcCoveredBytes : ℕ := 36

def recordBody (i : Identity) : List UInt8 :=
  storeLe32 bondMagic ++ ([bondVersion, 0] ++ (storeLe16 i.profileId ++ (i.address.toList ++
    (i.linkKey.toList ++ ([i.linkKeyType, 0] ++ storeLe32 i.sequence)))))

def bondEncode (i : Identity) : Except Status (List UInt8) :=
  if i.profileId = 0 then .error .einval
  else .ok (recordBody i ++ storeLe16 (crc16Ccitt (recordBody i) crcInit))

def loadVector (m : Image) (offset n : ℕ) : Vector UInt8 n :=
  ⟨(slice m offset n).toArray, by simp⟩

def bondDecode (blob : List UInt8) : Except Status Identity :=
  let m := ofList blob
  if (loadLe32 m 0 ≠ bondMagic ∧ loadLe32 m 0 ≠ legacyMagic) ∨ m 4 ≠ bondVersion ∨
      loadLe16 m 6 = 0 ∨ loadLe16 m 36 ≠ crc16Ccitt (slice m 0 crcCoveredBytes) crcInit then
    .error .eproto
  else
    .ok { profileId := loadLe16 m 6
          address := loadVector m 8 6
          linkKey := loadVector m 14 16
          linkKeyType := m 30
          sequence := loadLe32 m 32 }

theorem loadVector_eq {m : Image} {offset n : ℕ} {v : Vector UInt8 n}
    (h : slice m offset n = v.toList) : loadVector m offset n = v := by
  apply Vector.toList_inj.mp
  rw [← h]
  simp [loadVector]

theorem recordBody_length (i : Identity) : (recordBody i).length = 36 := by
  simp [recordBody, storeLe32, storeLe16]

theorem bondEncode_refused {i : Identity} : bondEncode i ≠ .error .ok := by
  rw [bondEncode]
  split <;> simp

theorem body_fields {m : Image} {i : Identity} (h : slice m 0 36 = recordBody i) :
    loadLe32 m 0 = bondMagic ∧ m 4 = bondVersion ∧ loadLe16 m 6 = i.profileId ∧
      loadVector m 8 6 = i.address ∧ loadVector m 14 16 = i.linkKey ∧ m 30 = i.linkKeyType ∧
      loadLe32 m 32 = i.sequence := by
  have haddress : i.address.toList.length = 6 := Vector.length_toList
  have hkey : i.linkKey.toList.length = 16 := Vector.length_toList
  have hlength : (recordBody i).length = 36 := recordBody_length i
  rw [← hlength] at h
  unfold recordBody at h
  rw [List.length_append] at h
  obtain ⟨hmagic, h⟩ := slice_append_iff.mp h
  rw [List.length_append] at h
  obtain ⟨hversion, h⟩ := slice_append_iff.mp h
  rw [List.length_append] at h
  obtain ⟨hprofile, h⟩ := slice_append_iff.mp h
  rw [List.length_append] at h
  obtain ⟨haddr, h⟩ := slice_append_iff.mp h
  rw [List.length_append] at h
  obtain ⟨hlink, h⟩ := slice_append_iff.mp h
  rw [List.length_append] at h
  obtain ⟨htype, hsequence⟩ := slice_append_iff.mp h
  simp only [haddress, hkey, storeLe32, storeLe16, List.length_cons, List.length_nil, Nat.zero_add,
    Nat.reduceAdd] at hmagic hversion hprofile haddr hlink htype hsequence
  have hsame : ∀ {offset : ℕ} {a b : UInt8}, slice m offset 2 = [a, b] → m offset = a := by
    intro offset a b hslice
    have hget : ∀ k < [a, b].length, m (offset+k) = [a, b].getD k 0 := slice_eq_iff.mp hslice
    exact hget 0 (by decide : 0 < 2)
  exact ⟨loadLe32_store hmagic, hsame hversion, loadLe16_store hprofile, loadVector_eq haddr,
    loadVector_eq hlink, hsame htype, loadLe32_store hsequence⟩

theorem bondDecode_encode {i : Identity} {blob : List UInt8} (h : bondEncode i = .ok blob) :
    bondDecode blob = .ok i := by
  unfold bondEncode at h
  split at h
  · cases h
  rename_i hprofile
  obtain rfl := Except.ok.inj h
  have hbody := recordBody_length i
  have hwhole := slice_ofList (recordBody i ++ storeLe16 (crc16Ccitt (recordBody i) crcInit))
  rw [List.length_append] at hwhole
  obtain ⟨hfront, hcrc⟩ := slice_append_iff.mp hwhole
  rw [hbody] at hfront hcrc
  obtain ⟨hmagic, hversion, hid, haddress, hkey, htype, hsequence⟩ := body_fields hfront
  have hsum := loadLe16_store hcrc
  rw [Nat.zero_add] at hsum
  unfold bondDecode
  dsimp only
  rw [if_neg]
  · rw [hid, haddress, hkey, htype, hsequence]
  · rw [hmagic, hversion, hid, hsum, crcCoveredBytes, hfront]
    rintro (⟨h, _⟩ | h | h | h)
    · exact h rfl
    · exact h rfl
    · exact hprofile h
    · exact h rfl

end JaszczurHal.BondCodec
