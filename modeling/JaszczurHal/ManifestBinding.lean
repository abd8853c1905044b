import JaszczurHal.OtaStateLog
import Mathlib.Data.Set.Function

/-!
# What a manifest's signature binds

The signed bytes determine every field but the signature. A manifest comes back
from its header unchanged, and a header whose fields were changed is refused as
long as the authentication code tells the two messages apart.
-/

set_option autoImplicit false

namespace JaszczurHal.OtaManifest
open HalStatus HalCrc ByteImage JhSha256 OtaImage OtaStateLog

def signedFields (m : Manifest) : List (List UInt8) :=
  [kImageMagic, storeLe16 JH_OTA_IMAGE_VERSION, storeLe16 (UInt16.ofNat JH_OTA_IMAGE_HEADER_SIZE),
    storeLe16 m.target, storeLe16 m.flags, storeLe32 m.programOffset, storeLe32 m.payloadSize,
    storeLe32 m.generation, List.replicate 4 0, m.sha256.toList, m.version.toList]

structure SameFields (m m' : Manifest) : Prop where
  target : m.target = m'.target
  flags : m.flags = m'.flags
  programOffset : m.programOffset = m'.programOffset
  payloadSize : m.payloadSize = m'.payloadSize
  generation : m.generation = m'.generation
  sha256 : m.sha256 = m'.sha256
  version : m.version = m'.version

def FieldChanged (raw raw' : List UInt8) : Prop :=
  slice (ofList raw') 12 16 ≠ slice (ofList raw) 12 16 ∨
    slice (ofList raw') 32 64 ≠ slice (ofList raw) 32 64

section Signed

variable {m m' : Manifest}

theorem signedBytes_flatten (m : Manifest) : signedBytes m = (signedFields m).flatten := by
  rw [signed_starts]
  simp [signedFields]

theorem signedFields_lengths (m : Manifest) :
    (signedFields m).map List.length = [8, 2, 2, 2, 2, 4, 4, 4, 4, 32, 32] := by
  simp [signedFields, kImageMagic, storeLe16, storeLe32]

theorem storeLe16_inj {v w : UInt16} (h : storeLe16 v = storeLe16 w) : v = w := by
  have hv : loadLe16 (ofList (storeLe16 v)) 0 = v := loadLe16_store (slice_ofList (storeLe16 v))
  have hw : loadLe16 (ofList (storeLe16 w)) 0 = w := loadLe16_store (slice_ofList (storeLe16 w))
  rw [← hv, h, hw]

theorem storeLe32_inj {v w : UInt32} (h : storeLe32 v = storeLe32 w) : v = w := by
  have hv : loadLe32 (ofList (storeLe32 v)) 0 = v := loadLe32_store (slice_ofList (storeLe32 v))
  have hw : loadLe32 (ofList (storeLe32 w)) 0 = w := loadLe32_store (slice_ofList (storeLe32 w))
  rw [← hv, h, hw]

theorem signedBytes_inj (h : signedBytes m = signedBytes m') : SameFields m m' := by
  rw [signedBytes_flatten, signedBytes_flatten] at h
  have hfields : signedFields m = signedFields m' := by
    apply List.eq_iff_flatten_eq.mpr
    exact ⟨h, by rw [signedFields_lengths, signedFields_lengths]⟩
  simp only [signedFields, List.cons.injEq, and_true, true_and] at hfields
  obtain ⟨htarget, hflags, hoffset, hsize, hgeneration, hsha, hversion⟩ := hfields
  exact ⟨storeLe16_inj htarget, storeLe16_inj hflags, storeLe32_inj hoffset, storeLe32_inj hsize,
    storeLe32_inj hgeneration, Vector.toList_inj.mp hsha, Vector.toList_inj.mp hversion⟩

theorem authBytes_inj {bytes : List UInt8} (h : manifestAuthBytes m = .ok bytes)
    (h' : manifestAuthBytes m' = .ok bytes) : SameFields m m' := by
  have hsigned : ∀ {x : Manifest}, manifestAuthBytes x = .ok bytes → signedBytes x = bytes := by
    intro x hx
    have hvalid : manifestValid x = true := by
      by_contra hinvalid
      rw [manifestAuthBytes, if_neg hinvalid] at hx
      contradiction
    rw [authBytes_eq hvalid] at hx
    exact Except.ok.inj hx
  apply signedBytes_inj
  rw [hsigned h, hsigned h']

end Signed

section Header

variable {m : Manifest}

def headerFields (m : Manifest) : List (List UInt8) :=
  signedFields m ++ [m.signature.toList, List.replicate 28 0]

theorem headerBody_flatten (m : Manifest) : headerBody m = (headerFields m).flatten := by
  simp [headerBody, headerFields, signedFields]

theorem headerBody_length (m : Manifest) : (headerBody m).length = kImageCrcOffset := by
  simp [headerBody, kImageMagic, storeLe16, storeLe32, kImageCrcOffset, JH_OTA_IMAGE_HEADER_SIZE]

def header (m : Manifest) : List UInt8 := headerBody m ++ storeLe32 (crc32 (headerBody m))

theorem header_offset {i : ℕ} (hi : i < 13) : ((headerFields m).take i).flatten.length =
    [0, 8, 10, 12, 14, 16, 20, 24, 28, 32, 64, 96, 128].getD i 0 := by
  have hoffsets : (List.range 13).map (fun i => ((headerFields m).take i).flatten.length) =
      [0, 8, 10, 12, 14, 16, 20, 24, 28, 32, 64, 96, 128] := by
    simp [headerFields, signedFields, kImageMagic, storeLe16, storeLe32, List.range_succ]
  rw [← hoffsets]
  simp [hi]

theorem header_field {i offset length : ℕ} (h : i < (headerFields m).length)
    (hoffset : ((headerFields m).take i).flatten.length = offset)
    (hlength : (headerFields m)[i].length = length) :
    slice (ofList (header m)) offset length = (headerFields m)[i] := by
  rw [← hoffset, ← hlength, header, headerBody_flatten]
  exact slice_field _ _ h

theorem signature_at (m : Manifest) :
    slice (ofList (header m)) 96 32 = m.signature.toList :=
  header_field (by decide : 11 < 13) (header_offset (by decide)) m.signature.length_toList

theorem header_take (m : Manifest) : (header m).take kImageCrcOffset = headerBody m :=
  List.take_left' (headerBody_length m)

theorem header_magic (m : Manifest) : (header m).take kImageMagic.length = kImageMagic := by
  simp [header, headerBody, List.append_assoc]

theorem header_crc (m : Manifest) :
    loadLe32 (ofList (header m)) kImageCrcOffset = crc32 (headerBody m) := by
  apply loadLe32_store
  have hmiddle := slice_middle (headerBody m) (storeLe32 (crc32 (headerBody m))) []
  rw [List.append_nil, headerBody_length] at hmiddle
  exact hmiddle

theorem decode_header (hvalid : manifestValid m = true) : manifestDecode (header m) = .ok m := by
  have hversion : loadLe16 (ofList (header m)) 8 = JH_OTA_IMAGE_VERSION :=
    loadLe16_store (header_field (by decide : 1 < 13) (header_offset (by decide)) rfl)
  have hsize : loadLe16 (ofList (header m)) 10 = UInt16.ofNat JH_OTA_IMAGE_HEADER_SIZE :=
    loadLe16_store (header_field (by decide : 2 < 13) (header_offset (by decide)) rfl)
  have htarget : loadLe16 (ofList (header m)) 12 = m.target :=
    loadLe16_store (header_field (by decide : 3 < 13) (header_offset (by decide)) rfl)
  have hflags : loadLe16 (ofList (header m)) 14 = m.flags :=
    loadLe16_store (header_field (by decide : 4 < 13) (header_offset (by decide)) rfl)
  have hoffset : loadLe32 (ofList (header m)) 16 = m.programOffset :=
    loadLe32_store (header_field (by decide : 5 < 13) (header_offset (by decide)) rfl)
  have hpayload : loadLe32 (ofList (header m)) 20 = m.payloadSize :=
    loadLe32_store (header_field (by decide : 6 < 13) (header_offset (by decide)) rfl)
  have hgeneration : loadLe32 (ofList (header m)) 24 = m.generation :=
    loadLe32_store (header_field (by decide : 7 < 13) (header_offset (by decide)) rfl)
  have hsha : loadArray (header m) 32 = m.sha256 :=
    loadArray_eq (header_field (by decide : 9 < 13) (header_offset (by decide))
      m.sha256.length_toList)
  have htext : slice (ofList (header m)) 64 JH_OTA_VERSION_TEXT_SIZE = m.version.toList :=
    header_field (by decide : 10 < 13) (header_offset (by decide)) m.version.length_toList
  have hsignature : loadArray (header m) 96 = m.signature := loadArray_eq (signature_at m)
  have hlabel : textValid m.version.toList = true := by
    simp only [manifestValid, Bool.and_eq_true] at hvalid
    exact hvalid.2
  unfold manifestDecode
  rw [hversion, hsize, header_crc, header_take, header_magic, htext, htarget, hflags, hoffset,
    hpayload, hgeneration, hsha, loadArray_eq htext, hsignature]
  simp [hlabel, hvalid]

theorem encode_header (hvalid : manifestValid m = true) : manifestEncode m = .ok (header m) := by
  rw [manifestEncode, if_pos hvalid]
  rfl

theorem sign_valid (key : List UInt8) (hvalid : manifestValid m = true) :
    ∃ s, manifestSign m key = .ok s ∧ SameFields s m ∧ manifestValid s = true ∧
      s.signature.toList = halHmacSha256 key (signedBytes m) := by
  rw [manifestSign, authBytes_eq hvalid]
  exact ⟨_, rfl, ⟨rfl, rfl, rfl, rfl, rfl, rfl, rfl⟩, hvalid, rfl⟩

theorem signedBytes_same {m' : Manifest} (h : SameFields m m') : signedBytes m = signedBytes m' := by
  obtain ⟨h1, h2, h3, h4, h5, h6, h7⟩ := h
  rw [signedBytes_flatten, signedBytes_flatten, signedFields, signedFields, h1, h2, h3, h4, h5, h6,
    h7]

theorem verify_valid {key : List UInt8} (hvalid : manifestValid m = true) : manifestVerify m key =
    if halHmacSha256 key (signedBytes m) = m.signature.toList then .ok else .eauth := by
  rw [manifestVerify, manifestSign, authBytes_eq hvalid]
  have hiff := @difference_eq_zero (halHmacSha256 key (signedBytes m)) m.signature.toList
    (by rw [hmac_length, Vector.length_toList])
  change (if difference (halHmacSha256 key (signedBytes m)) m.signature.toList = 0 then
    Status.ok else .eauth) = _
  by_cases hsame : halHmacSha256 key (signedBytes m) = m.signature.toList
  · rw [if_pos hsame, if_pos (hiff.mpr hsame)]
  · rw [if_neg hsame, if_neg (fun hzero => hsame (hiff.mp hzero))]

end Header

section Changes

/-- The fields of a header that was taken are the ones at their offsets. -/
theorem decode_fields {raw : List UInt8} {m : Manifest} (h : manifestDecode raw = .ok m) :
    m = { target := loadLe16 (ofList raw) 12
          flags := loadLe16 (ofList raw) 14
          programOffset := loadLe32 (ofList raw) 16
          payloadSize := loadLe32 (ofList raw) 20
          generation := loadLe32 (ofList raw) 24
          sha256 := loadArray raw 32
          version := loadArray raw 64
          signature := loadArray raw 96 } := by
  unfold manifestDecode at h
  split at h
  · contradiction
  · dsimp only at h
    split at h
    · exact (Except.ok.inj h).symm
    · contradiction

theorem slice_of_loadLe16 {m m' : Image} {offset : ℕ} (h : loadLe16 m offset = loadLe16 m' offset) :
    slice m offset 2 = slice m' offset 2 := by
  have hnat := congrArg UInt16.toNat h
  rw [toNat_loadLe16, toNat_loadLe16] at hnat
  have h0 := (m offset).toNat_lt
  have h1 := (m' offset).toNat_lt
  have hlow : m offset = m' offset := UInt8.toNat_inj.mp (by omega)
  have hhigh : m (offset+1) = m' (offset+1) := UInt8.toNat_inj.mp (by omega)
  simp [slice, List.range_succ, hlow, hhigh]

theorem slice_of_loadLe32 {m m' : Image} {offset : ℕ} (h : loadLe32 m offset = loadLe32 m' offset) :
    slice m offset 4 = slice m' offset 4 := by
  have hnat := congrArg UInt32.toNat h
  rw [toNat_loadLe32, toNat_loadLe32] at hnat
  have h0 := (m offset).toNat_lt
  have h0' := (m' offset).toNat_lt
  have h1 := (m (offset+1)).toNat_lt
  have h1' := (m' (offset+1)).toNat_lt
  have h2 := (m (offset+2)).toNat_lt
  have h2' := (m' (offset+2)).toNat_lt
  have hbyte0 : m offset = m' offset := UInt8.toNat_inj.mp (by omega)
  have hbyte1 : m (offset+1) = m' (offset+1) := UInt8.toNat_inj.mp (by omega)
  have hbyte2 : m (offset+2) = m' (offset+2) := UInt8.toNat_inj.mp (by omega)
  have hbyte3 : m (offset+3) = m' (offset+3) := UInt8.toNat_inj.mp (by omega)
  simp [slice, List.range_succ, hbyte0, hbyte1, hbyte2, hbyte3]

theorem loadArray_toList (raw : List UInt8) (offset : ℕ) :
    (loadArray raw offset).toList = slice (ofList raw) offset 32 := rfl

/-- Headers whose fields are read alike have the same bytes there. -/
theorem unchanged_of_same {raw raw' : List UInt8} {m m' : Manifest}
    (h : manifestDecode raw = .ok m) (h' : manifestDecode raw' = .ok m')
    (hsame : SameFields m' m) : ¬FieldChanged raw raw' := by
  rw [decode_fields h, decode_fields h'] at hsame
  obtain ⟨htarget, hflags, hoffset, hsize, hgeneration, hsha, hversion⟩ := hsame
  dsimp only at htarget hflags hoffset hsize hgeneration hsha hversion
  have hfront : slice (ofList raw') 12 16 = slice (ofList raw) 12 16 := by
    have hsplit : ∀ x : Image, slice x 12 16 = slice x 12 2 ++ (slice x 14 2 ++
        (slice x 16 4 ++ (slice x 20 4 ++ slice x 24 4))) := fun x => rfl
    rw [hsplit, hsplit, slice_of_loadLe16 htarget, slice_of_loadLe16 hflags,
      slice_of_loadLe32 hoffset, slice_of_loadLe32 hsize, slice_of_loadLe32 hgeneration]
  have hback : slice (ofList raw') 32 64 = slice (ofList raw) 32 64 := by
    have hsplit : ∀ x : Image, slice x 32 64 = slice x 32 32 ++ slice x 64 32 := fun x => rfl
    rw [hsplit, hsplit, ← loadArray_toList, ← loadArray_toList, ← loadArray_toList,
      ← loadArray_toList, hsha, hversion]
  intro hchanged
  cases hchanged with
  | inl hne => exact hne hfront
  | inr hne => exact hne hback

/-- A header with a changed field and the old signature is refused. -/
theorem changed_refused {key : List UInt8} {S : Set (List UInt8)} {m s m' : Manifest}
    {raw raw' : List UInt8} (hinj : Set.InjOn (halHmacSha256 key) S)
    (hsign : manifestSign m key = .ok s) (hencode : manifestEncode s = .ok raw)
    (hmem : signedBytes s ∈ S) (hmem' : signedBytes m' ∈ S)
    (hsignature : slice (ofList raw') 96 32 = slice (ofList raw) 96 32)
    (hchanged : FieldChanged raw raw') (hdecode : manifestDecode raw' = .ok m') :
    manifestVerify m' key = .eauth := by
  have hvalid : manifestValid m = true := by
    by_contra hinvalid
    rw [manifestSign, manifestAuthBytes, if_neg hinvalid] at hsign
    contradiction
  obtain ⟨s₁, hs₁, hsame, hsvalid, htag⟩ := sign_valid key hvalid
  rw [hsign] at hs₁
  cases hs₁
  rw [encode_header hsvalid] at hencode
  cases hencode
  have hdecoded := decode_header hsvalid
  rw [verify_valid (decode_valid hdecode), if_neg]
  intro hverified
  have hold := signature_at s
  have hnew := congrArg (fun x : Manifest => x.signature.toList) (decode_fields hdecode)
  dsimp only at hnew
  rw [hnew, loadArray_toList, hsignature, hold, htag, ← signedBytes_same hsame] at hverified
  have hequal := signedBytes_inj (hinj hmem' hmem hverified)
  exact unchanged_of_same hdecoded hdecode hequal hchanged

end Changes

/-- The signed bytes determine the fields, a valid manifest survives signing, encoding and
decoding and is verified, and no changed header is. -/
theorem manifest_bound :
    (∀ m m' bytes, manifestAuthBytes m = .ok bytes → manifestAuthBytes m' = .ok bytes →
        SameFields m m') ∧
      (∀ m key, manifestValid m = true → ∃ s raw, manifestSign m key = .ok s ∧
        manifestEncode s = .ok raw ∧ manifestDecode raw = .ok s ∧
        manifestVerify s key = .ok ∧ SameFields s m) ∧
      ∀ key S m s m' raw raw', Set.InjOn (halHmacSha256 key) S → manifestSign m key = .ok s →
        manifestEncode s = .ok raw → signedBytes s ∈ S → signedBytes m' ∈ S →
        slice (ofList raw') 96 32 = slice (ofList raw) 96 32 → FieldChanged raw raw' →
        manifestDecode raw' = .ok m' → manifestVerify m' key = .eauth := by
  constructor
  · intro m m' bytes h h'
    exact authBytes_inj h h'
  · constructor
    · intro m key hvalid
      obtain ⟨s, hsign, hsame, hsvalid, htag⟩ := sign_valid key hvalid
      refine ⟨s, header s, hsign, encode_header hsvalid, decode_header hsvalid, ?_, hsame⟩
      rw [verify_valid hsvalid, if_pos]
      rw [htag, signedBytes_same hsame]
    · intro key S m s m' raw raw' hinj hsign hencode hmem hmem' hsignature hchanged hdecode
      exact changed_refused hinj hsign hencode hmem hmem' hsignature hchanged hdecode

def plain (flags : UInt16) (signature : Vector UInt8 32) : Manifest :=
  ⟨1, flags, 0, 1, 0, Vector.replicate 32 0, Vector.replicate 32 0, signature⟩

def innerKey : Words :=
  ⟨0xf454dead, 0x9725214f, 0x90daf2a0, 0xdf1228ea, 0x64e5750f, 0xa3924181, 0x824a932b, 0xf8e04e32⟩

def outerKey : Words :=
  ⟨0xd385480f, 0x7abb6477, 0x37c9c538, 0x5dd82467, 0x8e043a72, 0x753434b0, 0xdeb82818, 0x361d45a6⟩

theorem plain_tag {message : List UInt8} {s t u : Words} (hlength : message.length = 96)
    (hfirst : compressNat innerKey (message.take 64) = s.numbers)
    (hrest : compressNat s (message.drop 64 ++ padding 32 1280) = t.numbers)
    (houter : compressNat outerKey (digestBytes t ++ padding 32 768) = u.numbers) :
    halHmacSha256 [] message = digestBytes u := by
  have hinner : halSha256 (List.replicate 64 0x36 ++ message) = digestBytes t := by
    have hblocks : (List.replicate 64 (0x36 : UInt8) ++ message).length = 160 := by
      simp [hlength]
    have hpadding : (padding 32 1280).length = 32 := by decide
    have hkey : (List.replicate 64 (0x36 : UInt8)).length = JH_SHA256_BLOCK_BYTES :=
      List.length_replicate
    rw [halSha256_blocks (n := 3) (by rw [hblocks]; decide), hblocks, List.append_assoc,
      blocks_step (t := innerKey) (by rw [List.take_left' hkey]; decide +kernel),
      List.drop_left' hkey]
    show digestBytes (BlockStream.blocks compress JH_SHA256_BLOCK_BYTES 2 innerKey
      (message ++ padding 32 1280)).1 = _
    have hblock : JH_SHA256_BLOCK_BYTES ≤ message.length := by rw [hlength]; decide
    have htake : (message ++ padding 32 1280).take JH_SHA256_BLOCK_BYTES = message.take 64 :=
      List.take_append_of_le_length hblock
    have hlast : (message.drop 64 ++ padding 32 1280).take JH_SHA256_BLOCK_BYTES =
        message.drop 64 ++ padding 32 1280 :=
      List.take_of_length_le (by simp [hlength, hpadding, JH_SHA256_BLOCK_BYTES])
    rw [blocks_step (t := s) (by rw [htake]; exact hfirst), List.drop_append_of_le_length hblock,
      blocks_step (t := t) (by rw [← hrest, ← hlast]; rfl), BlockStream.blocks]
  have hkey : (List.replicate 64 (0x5c : UInt8)).length = JH_SHA256_BLOCK_BYTES :=
    List.length_replicate
  have hlast : (List.replicate 64 (0x5c : UInt8) ++ digestBytes t).length = 96 := rfl
  have hdigest : (digestBytes t ++ padding 32 768).length = JH_SHA256_BLOCK_BYTES := rfl
  have hnested : halHmacSha256 [] message =
      halSha256 (List.replicate 64 0x5c ++ halSha256 (List.replicate 64 0x36 ++ message)) :=
    halHmacSha256_nested [] message (by decide)
  rw [hnested, hinner, halSha256_blocks (n := 2) (by rw [hlast]; decide), hlast, List.append_assoc,
    blocks_step (t := outerKey) (by rw [List.take_left' hkey]; decide +kernel),
    List.drop_left' hkey]
  show digestBytes (BlockStream.blocks compress JH_SHA256_BLOCK_BYTES 1 outerKey
    (digestBytes t ++ padding 32 768)).1 = _
  rw [blocks_step (t := u) (by rw [List.take_of_length_le hdigest.le]; exact houter),
    BlockStream.blocks]

theorem plain_tags (tag : Vector UInt8 32) :
    Set.InjOn (halHmacSha256 []) {signedBytes (plain 0 tag), signedBytes (plain 1 tag)} := by
  have hne : halHmacSha256 [] (signedBytes (plain 0 (Vector.replicate 32 0))) ≠
      halHmacSha256 [] (signedBytes (plain 1 (Vector.replicate 32 0))) := by
    rw [plain_tag (s := ⟨0x688ff758, 0x20f83f35, 0xe479fa2, 0x283590e3, 0x820671e5, 0x44e1e86b,
        0x2c117f44, 0xd2e111c4⟩) (t := ⟨0xb53597be, 0x39e4116a, 0x2b290435, 0x5f8caa7b, 0x1347fba9,
        0x2f6a73d0, 0x7627fe3f, 0x4fba70dc⟩) (u := ⟨0xbdd81ee4, 0x797dff1a, 0xceea658f, 0x2941944,
        0xd4f0544f, 0xb78e79c0, 0x51da5b73, 0x49791706⟩) (by decide +kernel) (by decide +kernel)
        (by decide +kernel) (by decide +kernel),
      plain_tag (s := ⟨0x1291ddb2, 0x81c8566e, 0x835f08d7, 0x3d3b2bd0, 0xe07f9c50, 0xae6167b6,
        0x19144b, 0xc45c8b20⟩) (t := ⟨0x4ec2e529, 0xd4b78090, 0xcd2d3c9f, 0xdb44b8a3, 0x51abca35,
        0xb41510f0, 0x4d177070, 0x81b47eee⟩) (u := ⟨0xf3206328, 0xd2e02be6, 0xbe167736, 0x14147db7,
        0xf85aa572, 0xfa814875, 0x195c1b4d, 0xcdeb0d98⟩) (by decide +kernel) (by decide +kernel)
        (by decide +kernel) (by decide +kernel)]
    decide
  have hsigned : ∀ flags, signedBytes (plain flags tag) =
      signedBytes (plain flags (Vector.replicate 32 0)) := by
    intro flags
    exact signedBytes_same ⟨rfl, rfl, rfl, rfl, rfl, rfl, rfl⟩
  rw [hsigned, hsigned, Set.injOn_pair]
  intro heq
  exact absurd heq hne

def plainTag : Vector UInt8 32 :=
  ⟨(halHmacSha256 [] (signedBytes (plain 0 (Vector.replicate 32 0)))).toArray, hmac_length _ _⟩

theorem plain_valid (flags : UInt16) (tag : Vector UInt8 32) :
    manifestValid (plain flags tag) = true := by
  have hvalid : manifestValid (plain 0 (Vector.replicate 32 0)) = true := by decide
  exact hvalid

theorem flags_changed (tag : Vector UInt8 32) :
    FieldChanged (header (plain 0 tag)) (header (plain 1 tag)) := by
  left
  intro heq
  have hmiddle := congrArg (fun bytes : List UInt8 => (bytes.drop 2).take 2) heq
  have hsplit : ∀ x : Image, ((slice x 12 16).drop 2).take 2 = slice x 14 2 := fun x => rfl
  rw [hsplit, hsplit] at hmiddle
  have hflags : ∀ flags, slice (ofList (header (plain flags tag))) 14 2 = storeLe16 flags := by
    intro flags
    exact header_field (by decide : 4 < 13) (header_offset (by decide)) rfl
  rw [hflags, hflags] at hmiddle
  have hone : (1 : UInt16) = 0 := storeLe16_inj hmiddle
  contradiction

theorem manifest_bound_flags :
    manifestSign (plain 0 (Vector.replicate 32 0)) [] = .ok (plain 0 plainTag) ∧
      manifestVerify (plain 1 plainTag) [] = .eauth := by
  have hsign : manifestSign (plain 0 (Vector.replicate 32 0)) [] = .ok (plain 0 plainTag) := by
    rw [manifestSign, authBytes_eq (plain_valid 0 _)]
    rfl
  constructor
  · exact hsign
  · apply manifest_bound.2.2 [] _ _ _ _ (header (plain 0 plainTag)) (header (plain 1 plainTag))
      (plain_tags plainTag) hsign (encode_header (plain_valid 0 _))
    · exact Or.inl rfl
    · exact Or.inr rfl
    · have hold := signature_at (plain 0 plainTag)
      have hnew := signature_at (plain 1 plainTag)
      rw [hold, hnew]
      rfl
    · exact flags_changed plainTag
    · exact decode_header (plain_valid 1 _)

end JaszczurHal.OtaManifest
