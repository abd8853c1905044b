import JaszczurHal.LoraMesh

/-!
# Frames and their image

Decoding accepts exactly what encoding writes, and the frames that a link cuts
from a message are valid and make up the message.
-/

set_option autoImplicit false

namespace JaszczurHal.LoraCodec
open HalStatus ByteImage HalCrc LoraFrame LoraLink LoraSender LoraReceiver LoraMesh

variable {κ : Type}

structure Sound (a : Aead κ) : Prop where
  correct : a.Correct
  seals : ∀ key nonce header body, body.length ≤ kMaxPayload →
    ∃ sealed, a.encrypt key nonce header body = some sealed

/-- The key that a frame needs is there, and a cipher with a key is sound. -/
structure Keyed (a : Aead κ) (key : Option κ) : Prop where
  sound : key ≠ none → Sound a

section Headers

theorem take_eq_slice {frame : List UInt8} {n : ℕ} (h : n ≤ frame.length) :
    frame.take n = slice (ofList frame) 0 n := by
  rw [← slice_take (ofList frame) 0 h, slice_ofList]

theorem encode_decodeHeader {frame : List UInt8} (hlength : kHeaderSize ≤ frame.length)
    (h0 : ofList frame 0 = 0x4A) (h1 : ofList frame 1 = 0x4C) (h2 : ofList frame 2 = 2) :
    encodeHeader (decodeHeader (ofList frame)) = frame.take kHeaderSize := by
  have hsplit : ∀ x : Image, slice x 0 25 = [x 0, x 1, x 2, x 3, x 4] ++ slice x 5 2 ++
      slice x 7 2 ++ slice x 9 4 ++ slice x 13 4 ++ [x 17, x 18] ++ slice x 19 2 ++
      slice x 21 4 := fun x => rfl
  rw [take_eq_slice hlength, kHeaderSize, hsplit, encodeHeader, decodeHeader]
  simp only [store_loadBe16, store_loadBe32, h0, h1, h2]

/-- A payload of a valid shape leaves room for the header and the tag. -/
theorem shape_room {h : Header} {length : ℕ} (hshape : payloadShapeValid h length = true) :
    kHeaderSize + length + tagSize h ≤ kMaxPayload := by
  unfold payloadShapeValid at hshape
  by_cases hack : isAck h = true
  · rw [if_pos hack, decide_eq_true_eq] at hshape
    rw [hshape]
    unfold tagSize kHeaderSize kAckPayloadSize kTagSize kMaxPayload
    split_ifs <;> omega
  · rw [if_neg hack] at hshape
    dsimp only at hshape
    split_ifs at hshape
    rw [decide_eq_true_eq] at hshape
    have hle : length ≤ payloadCapacity (isEncrypted h) := by omega
    unfold payloadCapacity at hle
    unfold tagSize kHeaderSize kTagSize kMaxPayload at *
    split_ifs at * <;> omega

end Headers

section Codec

variable {a : Aead κ} {h : Header} {payload frame : List UInt8} {key : Option κ}

structure Decoded (a : Aead κ) (h : Header) (payload frame : List UInt8) (key : Option κ)
    (capacity : ℕ) : Prop where
  header : h = decodeHeader (ofList frame)
  start : ofList frame 0 = 0x4A ∧ ofList frame 1 = 0x4C ∧ ofList frame 2 = 2
  common : headerCommonValid h = true
  length : kHeaderSize + tagSize h ≤ frame.length
  shape : payloadShapeValid h (frame.length - (kHeaderSize + tagSize h)) = true
  room : frame.length - (kHeaderSize + tagSize h) ≤ capacity
  body : if isEncrypted h then ∃ k, key = some k ∧
      a.decrypt k (buildNonce h) (frame.take kHeaderSize) (frame.drop kHeaderSize) = some payload
    else payload = frame.drop kHeaderSize

theorem decoded_of_ok {capacity : ℕ}
    (hdecode : frameDecode a frame key capacity = .ok (h, payload)) :
    Decoded a h payload frame key capacity := by
  unfold frameDecode at hdecode
  dsimp only at hdecode
  split at hdecode
  · contradiction
  rename_i hstart
  split at hdecode
  · contradiction
  rename_i hcommon
  split at hdecode
  · contradiction
  rename_i hlength
  split at hdecode
  · contradiction
  rename_i hshape
  split at hdecode
  · contradiction
  rename_i hroom
  simp only [not_or, Nat.not_lt, not_not] at hstart hcommon hshape
  obtain ⟨_, _, h0, h1, h2⟩ := hstart
  split at hdecode
  · rename_i hplain
    obtain ⟨rfl, rfl⟩ := Prod.mk.inj (Except.ok.inj hdecode)
    exact ⟨rfl, ⟨h0, h1, h2⟩, hcommon, Nat.le_of_not_lt hlength, hshape, Nat.le_of_not_lt hroom,
      by rw [if_neg hplain]⟩
  · rename_i hencrypted
    rw [not_not] at hencrypted
    cases key with
    | none => contradiction
    | some k =>
      dsimp only at hdecode
      split at hdecode
      · contradiction
      · rename_i body hbody
        obtain ⟨rfl, rfl⟩ := Prod.mk.inj (Except.ok.inj hdecode)
        exact ⟨rfl, ⟨h0, h1, h2⟩, hcommon, Nat.le_of_not_lt hlength, hshape,
          Nat.le_of_not_lt hroom, by rw [if_pos hencrypted]; exact ⟨k, rfl, hbody⟩⟩

/-- The two sides of the frame: a plain body is the payload, a sealed one opens to it. -/
theorem frameEncode_of_parts {body : List UInt8} (hcommon : headerCommonValid h = true)
    (hshape : payloadShapeValid h payload.length = true)
    (hbody : if isEncrypted h then ∃ k, key = some k ∧
        a.encrypt k (buildNonce h) (encodeHeader h) payload = some body
      else body = payload) :
    frameEncode a h payload key kMaxPayload = .ok (encodeHeader h ++ body) := by
  have hroom := shape_room hshape
  unfold frameEncode
  rw [if_neg (by simp [hcommon, hshape])]
  dsimp only
  rw [if_neg (by omega)]
  by_cases hencrypted : isEncrypted h = true
  · rw [if_pos hencrypted] at hbody
    obtain ⟨k, hkey, hseal⟩ := hbody
    rw [if_neg (by simp [hencrypted]), hkey]
    dsimp only
    rw [hseal]
  · rw [if_neg hencrypted] at hbody
    rw [if_pos hencrypted, hbody]

theorem body_length (hkeyed : Keyed a key) {body : List UInt8}
    (hbody : if isEncrypted h then ∃ k, key = some k ∧
        a.encrypt k (buildNonce h) (encodeHeader h) payload = some body
      else body = payload) : body.length = payload.length + tagSize h := by
  unfold tagSize
  by_cases hencrypted : isEncrypted h = true
  · rw [if_pos hencrypted] at hbody ⊢
    obtain ⟨k, hkey, hseal⟩ := hbody
    have hsound := hkeyed.sound (by rw [hkey]; simp)
    exact hsound.correct.length _ _ _ _ _ hseal
  · rw [if_neg hencrypted] at hbody ⊢
    rw [hbody, Nat.add_zero]

theorem decode_encode (hkeyed : Keyed a key) {frameCapacity capacity : ℕ}
    (hencode : frameEncode a h payload key frameCapacity = .ok frame)
    (hcapacity : payload.length ≤ capacity) :
    frameDecode a frame key capacity = .ok (h, payload) := by
  obtain ⟨hcommon, hshape, body, hframe, hbody⟩ := frameEncode_ok hencode
  have hlength := body_length hkeyed hbody
  have hroom := shape_room hshape
  have hdrop : (encodeHeader h ++ body).drop kHeaderSize = body :=
    List.drop_left' (header_length h)
  have htake : (encodeHeader h ++ body).take kHeaderSize = encodeHeader h :=
    List.take_left' (header_length h)
  have hwhole : (encodeHeader h ++ body).length = kHeaderSize + (payload.length + tagSize h) := by
    rw [List.length_append, header_length, hlength]
  have hrest : kHeaderSize + (payload.length + tagSize h) - (kHeaderSize + tagSize h) =
      payload.length := by omega
  obtain ⟨h0, h1, h2⟩ := header_bytes h body
  rw [hframe]
  unfold frameDecode
  dsimp only
  rw [h0, h1, h2, decode_encodeHeader, hdrop, htake, hwhole, hrest]
  rw [if_neg (by simp; omega), if_neg (by simp [hcommon]), if_neg (by omega),
    if_neg (by simp [hshape]), if_neg (by omega)]
  by_cases hencrypted : isEncrypted h = true
  · rw [if_pos hencrypted] at hbody
    obtain ⟨k, hkey, hseal⟩ := hbody
    have hsound := hkeyed.sound (by rw [hkey]; simp)
    rw [if_neg (by simp [hencrypted]), hkey]
    dsimp only
    rw [(hsound.correct.opens _ _ _ _ _).mpr hseal]
  · rw [if_neg hencrypted] at hbody
    rw [if_pos hencrypted, hbody]

theorem encode_decode (hkeyed : Keyed a key) {capacity : ℕ}
    (hdecode : frameDecode a frame key capacity = .ok (h, payload)) :
    frameEncode a h payload key kMaxPayload = .ok frame ∧ payload.length ≤ capacity := by
  have hparts := decoded_of_ok hdecode
  obtain ⟨h0, h1, h2⟩ := hparts.start
  have hlow : kHeaderSize ≤ frame.length := Nat.le_trans (Nat.le_add_right _ _) hparts.length
  have hheader : encodeHeader h = frame.take kHeaderSize := by
    rw [hparts.header]
    exact encode_decodeHeader hlow h0 h1 h2
  have hframe : frame = encodeHeader h ++ frame.drop kHeaderSize := by
    rw [hheader, List.take_append_drop]
  have hbody : if isEncrypted h then ∃ k, key = some k ∧
      a.encrypt k (buildNonce h) (encodeHeader h) payload = some (frame.drop kHeaderSize)
      else frame.drop kHeaderSize = payload := by
    have hopened := hparts.body
    by_cases hencrypted : isEncrypted h = true
    · rw [if_pos hencrypted] at hopened ⊢
      obtain ⟨k, hkey, hopen⟩ := hopened
      have hsound := hkeyed.sound (by rw [hkey]; simp)
      rw [← hheader] at hopen
      exact ⟨k, hkey, (hsound.correct.opens _ _ _ _ _).mp hopen⟩
    · rw [if_neg hencrypted] at hopened ⊢
      exact hopened.symm
  have hlength := body_length hkeyed hbody
  rw [List.length_drop] at hlength
  have hsize : frame.length - (kHeaderSize + tagSize h) = payload.length := by omega
  have hshape := hparts.shape
  have hroom := hparts.room
  rw [hsize] at hshape hroom
  have hencode := frameEncode_of_parts hparts.common hshape hbody
  rw [← hframe] at hencode
  exact ⟨hencode, hroom⟩

/-- A header and a payload that validate can be encoded. -/
theorem encode_valid (hkeyed : Keyed a key) (hcommon : headerCommonValid h = true)
    (hshape : payloadShapeValid h payload.length = true)
    (hkey : isEncrypted h = true → key ≠ none) :
    ∃ frame, frameEncode a h payload key kMaxPayload = .ok frame := by
  by_cases hencrypted : isEncrypted h = true
  · cases key with
    | none => exact absurd rfl (hkey hencrypted)
    | some k =>
      have hsound := hkeyed.sound (by simp)
      have hroom := shape_room hshape
      obtain ⟨sealed, hseal⟩ := hsound.seals k (buildNonce h) (encodeHeader h) payload (by omega)
      have hbody : if isEncrypted h then ∃ k', some k = some k' ∧
          a.encrypt k' (buildNonce h) (encodeHeader h) payload = some sealed
          else sealed = payload := by
        rw [if_pos hencrypted]
        exact ⟨k, rfl, hseal⟩
      exact ⟨_, frameEncode_of_parts hcommon hshape hbody⟩
  · have hbody : if isEncrypted h then ∃ k, key = some k ∧
        a.encrypt k (buildNonce h) (encodeHeader h) payload = some payload
        else payload = payload := by
      rw [if_neg hencrypted]
    exact ⟨_, frameEncode_of_parts hcommon hshape hbody⟩

end Codec

section Fragments

theorem pieces_take {α : Type} (message : List α) (size count : ℕ) :
    (List.range count).flatMap (fun i => (message.drop (i * size)).take size) =
      message.take (count * size) := by
  induction count with
  | zero => simp
  | succ count ih =>
    rw [List.range_succ, List.flatMap_append, ih, List.flatMap_singleton, Nat.succ_mul,
      List.take_add]

structure ValidConfig (config : Config κ) : Prop where
  address : config.localAddress ≠ kAddressNone
  single : config.localAddress ≠ kAddressBroadcast
  session : config.sessionId ≠ 0

structure Sendable (b : Build) (destination : UInt16) (data : List UInt8) (acknowledged : Bool) :
    Prop where
  addressed : destination ≠ kAddressNone
  broadcast : destination = kAddressBroadcast → acknowledged = false
  some : 0 < data.length
  most : data.length ≤ b.maxMessage

variable {b : Build} {a : Aead κ} {c : Context κ} {destination : UInt16} {port : UInt8}
  {data : List UInt8} {acknowledged : Bool}

def sending (destination : UInt16) (port : UInt8) (data : List UInt8) (acknowledged : Bool)
    (c : Context κ) (index : UInt8) : Context κ :=
  { beginSend destination port data acknowledged (fragmentCountFor c data.length) c with
    txFragmentIndex := index }

theorem fragments_le (h : Sendable b destination data acknowledged) (encrypted : Bool) :
    1 ≤ fragmentsOf data.length (payloadCapacity encrypted) ∧
      fragmentsOf data.length (payloadCapacity encrypted) ≤ 20 := by
  have hmost := Nat.le_trans h.most b.message_le
  have hsome := h.some
  unfold fragmentsOf
  cases encrypted with
  | false =>
    have hcapacity : payloadCapacity false = 230 := rfl
    rw [hcapacity]
    omega
  | true =>
    have hcapacity : payloadCapacity true = 214 := rfl
    rw [hcapacity]
    omega

theorem fragmentCount_toNat (h : Sendable b destination data acknowledged) (c : Context κ) :
    (fragmentCountFor c data.length).toNat =
      fragmentsOf data.length (payloadCapacity c.usesCrypto) := by
  have hle := fragments_le h c.usesCrypto
  rw [fragmentCountFor, UInt8.toNat_ofNat']
  exact Nat.mod_eq_of_lt (by omega)

theorem request_flags : ∀ encrypted acknowledged : Bool,
    let flags := (if encrypted then kFlagEncrypted else 0) |||
      (if acknowledged then kFlagAckRequest else 0)
    flags &&& 0xF8 = 0 ∧ decide (flags &&& kFlagAckRequest ≠ 0) = acknowledged := by
  decide

theorem fragment_common (hconfig : ValidConfig c.config)
    (h : Sendable b destination data acknowledged) {i : UInt8}
    (hi : i < fragmentCountFor c data.length) :
    headerCommonValid (dataHeader (sending destination port data acknowledged c i) i) = true := by
  have hflags := request_flags c.usesCrypto acknowledged
  have hdata := dataHeader_flags (sending destination port data acknowledged c i) i
  have hrequest : hasFlag (dataHeader (sending destination port data acknowledged c i) i)
      kFlagAckRequest = acknowledged := hflags.2
  have hlength := Nat.le_trans h.most b.message_le
  have hpositive : 0 < UInt16.ofNat data.length := by
    have hsome := h.some
    rw [UInt16.lt_iff_toNat_lt, UInt16.toNat_ofNat']
    have hmod : data.length % 2 ^ 16 = data.length := Nat.mod_eq_of_lt (by omega)
    rw [hmod]
    exact hsome
  have hcount : 0 < fragmentCountFor c data.length := by
    rw [UInt8.lt_iff_toNat_lt] at hi ⊢
    exact Nat.lt_of_le_of_lt (Nat.zero_le _) hi
  unfold headerCommonValid
  rw [if_neg, if_neg (by simp [hdata.1]), decide_eq_true_eq]
  · exact ⟨hcount, hi, hpositive⟩
  · rw [hdata.1, hrequest]
    rintro (hbits | hsource | hsource | hdestination | hsession | hack | hack | hbroadcast)
    · exact hbits hflags.1
    · exact hconfig.address hsource
    · exact hconfig.single hsource
    · exact h.addressed hdestination
    · exact hconfig.session hsession
    · simp at hack
    · simp at hack
    · have hplain := h.broadcast hbroadcast.2.1
      rw [hplain] at hbroadcast
      simp at hbroadcast

/-- Every fragment has the length that its header stands for. -/
theorem fragment_shape (h : Sendable b destination data acknowledged) {i : UInt8} :
    payloadShapeValid (dataHeader (sending destination port data acknowledged c i) i)
      (fragmentPayload c.usesCrypto data i).length = true := by
  have hdata := dataHeader_flags (sending destination port data acknowledged c i) i
  have hcrypto : (sending destination port data acknowledged c i).usesCrypto = c.usesCrypto := rfl
  have hlength : (dataHeader (sending destination port data acknowledged c i) i).messageLength.toNat =
      data.length := by
    have hmost := Nat.le_trans h.most b.message_le
    change (UInt16.ofNat data.length).toNat = data.length
    rw [UInt16.toNat_ofNat']
    exact Nat.mod_eq_of_lt (by omega)
  have hcount : (dataHeader (sending destination port data acknowledged c i) i).fragmentCount =
      fragmentCountFor c data.length := rfl
  have hindex : (dataHeader (sending destination port data acknowledged c i) i).fragmentIndex = i :=
    rfl
  have hle := fragments_le h c.usesCrypto
  unfold payloadShapeValid
  rw [if_neg (by simp [hdata.1])]
  dsimp only
  rw [hdata.2, hcrypto, hlength, hcount, hindex, fragmentCount_toNat h c, if_neg (by omega),
    decide_eq_true_eq, fragmentPayload, List.length_take, List.length_drop]
  omega

theorem fragments_partition (h : Sendable b destination data acknowledged) (c : Context κ) :
    (List.range (fragmentCountFor c data.length).toNat).flatMap
      (fun i => fragmentPayload c.usesCrypto data (UInt8.ofNat i)) = data := by
  have hle := fragments_le h c.usesCrypto
  have hcover := @fragments_cover data.length _ (capacity_pos c.usesCrypto)
  have hpieces := pieces_take data (payloadCapacity c.usesCrypto)
    (fragmentCountFor c data.length).toNat
  rw [fragmentCount_toNat h c, List.take_of_length_le hcover] at hpieces
  rw [fragmentCount_toNat h c]
  refine Eq.trans ?_ hpieces
  apply List.flatMap_congr
  intro i hi
  rw [List.mem_range] at hi
  have hnat : (UInt8.ofNat i).toNat = i := by
    rw [UInt8.toNat_ofNat']
    exact Nat.mod_eq_of_lt (by omega)
  rw [fragmentPayload, hnat]

end Fragments

/-- The frame of a fragment is given to the radio, and decodes to the fragment. -/
theorem fragment_sent {b : Build} {a : Aead κ} {c : Context κ} {destination : UInt16} {port : UInt8}
    {data : List UInt8} {acknowledged : Bool} (hkeyed : Keyed a c.config.key)
    (hconfig : ValidConfig c.config) (h : Sendable b destination data acknowledged) {i : UInt8}
    (hi : i < fragmentCountFor c data.length) (r : Replies) :
    ∃ frame, (startDataFragment a r (sending destination port data acknowledged c i)).2.history.aired =
        (dataHeader (sending destination port data acknowledged c i) i, frame) ::
          (sending destination port data acknowledged c i).history.aired ∧
      frameDecode a frame c.config.key kMaxPayload =
        .ok (dataHeader (sending destination port data acknowledged c i) i,
          fragmentPayload c.usesCrypto data i) := by
  have hdata := dataHeader_flags (sending destination port data acknowledged c i) i
  have hcommon := @fragment_common κ b c destination port data acknowledged hconfig h i hi
  have hshape := @fragment_shape κ b c destination port data acknowledged h i
  have hkey : isEncrypted (dataHeader (sending destination port data acknowledged c i) i) = true →
      c.config.key ≠ none := by
    intro hencrypted hnone
    have hcrypto : c.config.key.isSome = true := by
      rw [hdata.2] at hencrypted
      exact hencrypted
    rw [hnone] at hcrypto
    contradiction
  obtain ⟨frame, hencode⟩ := encode_valid hkeyed hcommon hshape hkey
  have hroom := shape_room hshape
  refine ⟨frame, ?_, decode_encode hkeyed hencode (by omega)⟩
  change frameEncode a (dataHeader (sending destination port data acknowledged c i)
    (sending destination port data acknowledged c i).txFragmentIndex) (fragmentPayload
      (sending destination port data acknowledged c i).usesCrypto
      (sending destination port data acknowledged c i).txMessage
      (sending destination port data acknowledged c i).txFragmentIndex)
      (sending destination port data acknowledged c i).config.key kMaxPayload = .ok frame at hencode
  unfold startDataFragment
  dsimp only
  rw [hencode]
  dsimp only
  split_ifs <;> rfl

/-- Valid frames survive the round trip, decoding accepts exactly the image of encoding, and
the fragments of a message are valid frames that make it up. Without a key nothing is asked
of the cipher. -/
theorem codec_exact (a : Aead κ) :
    (∀ key h payload, Keyed a key → headerCommonValid h = true →
        payloadShapeValid h payload.length = true → (isEncrypted h = true → key ≠ none) →
        ∃ frame, frameEncode a h payload key kMaxPayload = .ok frame ∧
          ∀ capacity, payload.length ≤ capacity →
            frameDecode a frame key capacity = .ok (h, payload)) ∧
      (∀ key frame h payload capacity, Keyed a key →
        (frameDecode a frame key capacity = .ok (h, payload) ↔
          frameEncode a h payload key kMaxPayload = .ok frame ∧ payload.length ≤ capacity)) ∧
      ∀ (b : Build) (c : Context κ) destination port data acknowledged, Keyed a c.config.key →
        ValidConfig c.config → Sendable b destination data acknowledged →
        (∀ i < fragmentCountFor c data.length, ∀ r, ∃ frame,
          (startDataFragment a r
              (sending destination port data acknowledged c i)).2.history.aired =
            (dataHeader (sending destination port data acknowledged c i) i, frame) ::
              (sending destination port data acknowledged c i).history.aired ∧
          frameDecode a frame c.config.key kMaxPayload =
            .ok (dataHeader (sending destination port data acknowledged c i) i,
              fragmentPayload c.usesCrypto data i)) ∧
        (List.range (fragmentCountFor c data.length).toNat).flatMap
          (fun i => fragmentPayload c.usesCrypto data (UInt8.ofNat i)) = data := by
  constructor
  · intro key h payload hkeyed hcommon hshape hkey
    obtain ⟨frame, hencode⟩ := encode_valid hkeyed hcommon hshape hkey
    exact ⟨frame, hencode, fun capacity => decode_encode hkeyed hencode⟩
  · constructor
    · intro key frame h payload capacity hkeyed
      constructor
      · exact encode_decode hkeyed
      · intro hencode
        exact decode_encode hkeyed hencode.1 hencode.2
    · intro b c destination port data acknowledged hkeyed hconfig h
      constructor
      · intro i hi r
        exact fragment_sent hkeyed hconfig h hi r
      · exact fragments_partition h c

def codecTag : List UInt8 := List.replicate kTagSize 0

/-- It seals the body of the mesh as the device does, and any other one with a
plain tag. -/
def codecAead : Aead (List UInt8) where
  encrypt key nonce header body :=
    if key = meshKey ∧ nonce = meshNonce ∧ header = meshHeader ∧ body = meshBody then
      some meshSealed
    else some (body ++ codecTag)
  decrypt key nonce header sealed :=
    if key = meshKey ∧ nonce = meshNonce ∧ header = meshHeader ∧ sealed = meshSealed then
      some meshBody
    else if sealed.drop (sealed.length-kTagSize) = codecTag ∧
        ¬(key = meshKey ∧ nonce = meshNonce ∧ header = meshHeader ∧
          sealed.take (sealed.length-kTagSize) = meshBody) then
      some (sealed.take (sealed.length-kTagSize))
    else none

theorem codecTag_length : codecTag.length = kTagSize := List.length_replicate

theorem meshSealed_untagged : meshSealed.drop (meshSealed.length-kTagSize) ≠ codecTag := by
  decide

theorem sealed_tagged {sealed body : List UInt8} :
    body ++ codecTag = sealed ↔ sealed.drop (sealed.length-kTagSize) = codecTag ∧
      sealed.take (sealed.length-kTagSize) = body := by
  constructor
  · rintro rfl
    have hlength : (body ++ codecTag).length-kTagSize = body.length := by
      rw [List.length_append, codecTag_length, Nat.add_sub_cancel]
    rw [hlength, List.drop_left, List.take_left]
    exact ⟨rfl, rfl⟩
  · rintro ⟨htag, rfl⟩
    rw [← htag, List.take_append_drop]

theorem codecAead_mesh (sealed body : List UInt8) :
    codecAead.decrypt meshKey meshNonce meshHeader sealed = some body ↔
      codecAead.encrypt meshKey meshNonce meshHeader body = some sealed := by
  simp only [codecAead, true_and]
  by_cases hsealed : sealed = meshSealed
  · subst hsealed
    by_cases hbody : body = meshBody
    · simp [hbody]
    · have huntagged : body ++ codecTag ≠ meshSealed := fun h =>
        meshSealed_untagged (sealed_tagged.mp h).1
      simp [hbody, Ne.symm hbody, huntagged]
  · by_cases hbody : body = meshBody
    · subst hbody
      simp only [if_neg hsealed, if_true, Option.some.injEq, Ne.symm hsealed, iff_false]
      split_ifs with htag
      · exact fun h => htag.2 (Option.some.inj h)
      · intro h
        cases h
    · rw [if_neg hsealed, if_neg hbody, Option.some.injEq, sealed_tagged]
      constructor
      · intro h
        split_ifs at h with htag
        exact ⟨htag.1, Option.some.inj h⟩
      · rintro ⟨htag, rfl⟩
        rw [if_pos ⟨htag, hbody⟩]

theorem codecAead_other {key nonce header : List UInt8}
    (hother : ¬(key = meshKey ∧ nonce = meshNonce ∧ header = meshHeader))
    (sealed body : List UInt8) : codecAead.decrypt key nonce header sealed = some body ↔
      codecAead.encrypt key nonce header body = some sealed := by
  have hnever : ∀ p : Prop, ¬(key = meshKey ∧ nonce = meshNonce ∧ header = meshHeader ∧ p) :=
    fun p h => hother ⟨h.1, h.2.1, h.2.2.1⟩
  simp only [codecAead, hnever, not_false_eq_true, and_true, if_false]
  rw [Option.some.injEq, sealed_tagged]
  constructor
  · intro h
    split_ifs at h with htag
    exact ⟨htag, Option.some.inj h⟩
  · rintro ⟨htag, rfl⟩
    rw [if_pos htag]

theorem codecAead_sound : Sound codecAead := by
  refine ⟨⟨?_, ?_⟩, ?_⟩
  · intro key nonce header sealed body
    by_cases hplace : key = meshKey ∧ nonce = meshNonce ∧ header = meshHeader
    · obtain ⟨rfl, rfl, rfl⟩ := hplace
      exact codecAead_mesh sealed body
    · exact codecAead_other hplace sealed body
  · intro key nonce header sealed body h
    simp only [codecAead] at h
    split_ifs at h with hmesh
    · obtain ⟨_, _, _, rfl⟩ := hmesh
      rw [← Option.some.inj h]
      rfl
    · rw [← Option.some.inj h, List.length_append, codecTag_length]
  · intro key nonce header body _
    simp only [codecAead]
    split_ifs
    · exact ⟨_, rfl⟩
    · exact ⟨_, rfl⟩

theorem codec_exact_sealed :
    frameEncode codecAead (decodeHeader (ofList meshHeader)) meshBody (some meshKey) kMaxPayload =
      .ok (meshHeader ++ meshSealed) ∧
    ∀ capacity, 2 ≤ capacity →
      frameDecode codecAead (meshHeader ++ meshSealed) (some meshKey) capacity =
        .ok (decodeHeader (ofList meshHeader), meshBody) := by
  have hencoded : frameEncode codecAead (decodeHeader (ofList meshHeader)) meshBody
      (some meshKey) kMaxPayload = .ok (meshHeader ++ meshSealed) := by
    decide +kernel
  refine ⟨hencoded, fun capacity hcapacity => ?_⟩
  exact ((codec_exact codecAead).2.1 (some meshKey) _ _ _ capacity
    ⟨fun _ => codecAead_sound⟩).mpr ⟨hencoded, hcapacity⟩

end JaszczurHal.LoraCodec
