import JaszczurHal.HalStatus
import JaszczurHal.ByteImage

/-!
# The frames of a LoRa link

A frame is a 25-byte header, a payload and, when encrypted, a 16-byte tag
that covers both. The cipher is a parameter: nothing of it is used but that
opening a sealed body under the same nonce and header gives the body back.
-/

set_option autoImplicit false

namespace JaszczurHal.LoraFrame
open HalStatus ByteImage

def kMaxPayload : ℕ := 255
def kHeaderSize : ℕ := 25
def kTagSize : ℕ := 16
def kMaxPlaintext : ℕ := kMaxPayload-kHeaderSize
def kAckPayloadSize : ℕ := 8

def kFlagAckRequest : UInt8 := 0x01
def kFlagAck : UInt8 := 0x02
def kFlagEncrypted : UInt8 := 0x04

def kAddressNone : UInt16 := 0
def kAddressBroadcast : UInt16 := 0xFFFF

structure Header where
  flags : UInt8
  port : UInt8
  source : UInt16
  destination : UInt16
  sessionId : UInt32
  sequence : UInt32
  fragmentIndex : UInt8
  fragmentCount : UInt8
  messageLength : UInt16
  integrity : UInt32
  deriving DecidableEq, Repr

def hasFlag (h : Header) (flag : UInt8) : Bool := decide (h.flags &&& flag ≠ 0)

def isAck (h : Header) : Bool := hasFlag h kFlagAck

def isEncrypted (h : Header) : Bool := hasFlag h kFlagEncrypted

def payloadCapacity (encrypted : Bool) : ℕ :=
  kMaxPayload-(kHeaderSize+if encrypted then kTagSize else 0)

def encodeHeader (h : Header) : List UInt8 :=
  [0x4A, 0x4C, 2, h.flags, h.port] ++ storeBe16 h.source ++ storeBe16 h.destination ++
    storeBe32 h.sessionId ++ storeBe32 h.sequence ++ [h.fragmentIndex, h.fragmentCount] ++
    storeBe16 h.messageLength ++ storeBe32 h.integrity

def decodeHeader (input : Image) : Header where
  flags := input 3
  port := input 4
  source := loadBe16 input 5
  destination := loadBe16 input 7
  sessionId := loadBe32 input 9
  sequence := loadBe32 input 13
  fragmentIndex := input 17
  fragmentCount := input 18
  messageLength := loadBe16 input 19
  integrity := loadBe32 input 21

def headerCommonValid (h : Header) : Bool :=
  if h.flags &&& 0xF8 ≠ 0 ∨ h.source = kAddressNone ∨ h.source = kAddressBroadcast ∨
      h.destination = kAddressNone ∨ h.sessionId = 0 ∨
      (isAck h ∧ h.destination = kAddressBroadcast) ∨
      (isAck h ∧ hasFlag h kFlagAckRequest) ∨
      (¬ isAck h ∧ h.destination = kAddressBroadcast ∧ hasFlag h kFlagAckRequest) then false
  else if isAck h then
    decide (h.port = 0 ∧ h.fragmentIndex = 0 ∧ h.fragmentCount = 1 ∧
      h.messageLength.toNat = kAckPayloadSize)
  else decide (0 < h.fragmentCount ∧ h.fragmentIndex < h.fragmentCount ∧ 0 < h.messageLength)

def fragmentsOf (length capacity : ℕ) : ℕ := (length+capacity-1)/capacity

def payloadShapeValid (h : Header) (payloadLength : ℕ) : Bool :=
  if isAck h then decide (payloadLength = kAckPayloadSize)
  else
    let capacity := payloadCapacity (isEncrypted h)
    let expectedFragments := fragmentsOf h.messageLength.toNat capacity
    if expectedFragments ≠ h.fragmentCount.toNat ∨ 32 < expectedFragments then false
    else
      let remaining := h.messageLength.toNat-h.fragmentIndex.toNat*capacity
      decide (payloadLength = min remaining capacity)

def buildNonce (h : Header) : List UInt8 :=
  storeBe32 h.sessionId ++ storeBe16 h.source ++ storeBe32 h.sequence ++
    [h.fragmentIndex, if isAck h then 1 else 0]

/-- ChaCha20-Poly1305 with the tag after the ciphertext: key, nonce,
authenticated header, body. `none` is a refused call. -/
structure Aead (κ : Type) where
  encrypt : κ → List UInt8 → List UInt8 → List UInt8 → Option (List UInt8)
  decrypt : κ → List UInt8 → List UInt8 → List UInt8 → Option (List UInt8)

/-- A body opens exactly to what was sealed, and the tag has its length. -/
structure Aead.Correct {κ : Type} (a : Aead κ) : Prop where
  opens : ∀ key nonce header sealed body,
    a.decrypt key nonce header sealed = some body ↔
      a.encrypt key nonce header body = some sealed
  length : ∀ key nonce header sealed body,
    a.encrypt key nonce header body = some sealed → sealed.length = body.length+kTagSize

/-- Two keys are the same, or nothing sealed under the first opens under the
second. -/
def Aead.Compatible {κ : Type} (a : Aead κ) (key key' : Option κ) : Prop :=
  ∀ k k', key = some k → key' = some k' → k = k' ∨ ∀ nonce header body sealed,
    a.encrypt k nonce header body = some sealed → a.decrypt k' nonce header sealed = none

def noAead : Aead Unit := ⟨fun _ _ _ _ => none, fun _ _ _ _ => none⟩

theorem noAead_correct : noAead.Correct where
  opens _ _ _ _ _ := by simp [noAead]
  length _ _ _ _ _ h := by simp [noAead] at h

variable {κ : Type}

def tagSize (h : Header) : ℕ := if isEncrypted h then kTagSize else 0

def frameEncode (a : Aead κ) (h : Header) (payload : List UInt8) (key : Option κ)
    (frameCapacity : ℕ) : Except Status (List UInt8) :=
  if ¬ headerCommonValid h ∨ ¬ payloadShapeValid h payload.length then .error .einval
  else
    let frameLength := kHeaderSize+payload.length+tagSize h
    if frameCapacity < frameLength ∨ kMaxPayload < frameLength then .error .eoverflow
    else if ¬ isEncrypted h then .ok (encodeHeader h ++ payload)
    else match key with
      | none => .error .einval
      | some key =>
        match a.encrypt key (buildNonce h) (encodeHeader h) payload with
        | none => .error .eauth
        | some body => .ok (encodeHeader h ++ body)

def frameDecode (a : Aead κ) (frame : List UInt8) (key : Option κ) (payloadCapacity : ℕ) :
    Except Status (Header × List UInt8) :=
  let input := ofList frame
  if frame.length < kHeaderSize ∨ kMaxPayload < frame.length ∨ input 0 ≠ 0x4A ∨
      input 1 ≠ 0x4C ∨ input 2 ≠ 2 then .error .eproto
  else
    let h := decodeHeader input
    if ¬ headerCommonValid h then .error .eproto
    else
      let overhead := kHeaderSize+tagSize h
      if frame.length < overhead then .error .eproto
      else if ¬ payloadShapeValid h (frame.length-overhead) then .error .eproto
      else if payloadCapacity < frame.length-overhead then .error .eoverflow
      else if ¬ isEncrypted h then .ok (h, frame.drop kHeaderSize)
      else match key with
        | none => .error .eauth
        | some key =>
          match a.decrypt key (buildNonce h) (frame.take kHeaderSize)
              (frame.drop kHeaderSize) with
          | none => .error .eauth
          | some payload => .ok (h, payload)

def encodeAckBody (sessionId sequence : UInt32) : List UInt8 :=
  storeBe32 sessionId ++ storeBe32 sequence

def decodeAckBody (body : List UInt8) : Option (UInt32 × UInt32) :=
  if body.length ≠ kAckPayloadSize then none
  else some (loadBe32 (ofList body) 0, loadBe32 (ofList body) 4)

theorem header_length (h : Header) : (encodeHeader h).length = kHeaderSize := rfl

theorem header_bytes (h : Header) (rest : List UInt8) :
    ofList (encodeHeader h ++ rest) 0 = 0x4A ∧ ofList (encodeHeader h ++ rest) 1 = 0x4C ∧
      ofList (encodeHeader h ++ rest) 2 = 2 :=
  ⟨rfl, rfl, rfl⟩

theorem decode_encodeHeader (h : Header) (rest : List UInt8) :
    decodeHeader (ofList (encodeHeader h ++ rest)) = h := by
  have hs : loadBe16 (ofList (encodeHeader h ++ rest)) 5 = h.source := loadBe16_store rfl
  have hd : loadBe16 (ofList (encodeHeader h ++ rest)) 7 = h.destination := loadBe16_store rfl
  have hi : loadBe32 (ofList (encodeHeader h ++ rest)) 9 = h.sessionId := loadBe32_store rfl
  have hq : loadBe32 (ofList (encodeHeader h ++ rest)) 13 = h.sequence := loadBe32_store rfl
  have hl : loadBe16 (ofList (encodeHeader h ++ rest)) 19 = h.messageLength :=
    loadBe16_store rfl
  have hc : loadBe32 (ofList (encodeHeader h ++ rest)) 21 = h.integrity := loadBe32_store rfl
  simp only [decodeHeader, hs, hd, hi, hq, hl, hc]
  rfl

theorem decode_encodeAckBody (sessionId sequence : UInt32) :
    decodeAckBody (encodeAckBody sessionId sequence) = some (sessionId, sequence) := by
  have hs : loadBe32 (ofList (encodeAckBody sessionId sequence)) 0 = sessionId :=
    loadBe32_store rfl
  have hq : loadBe32 (ofList (encodeAckBody sessionId sequence)) 4 = sequence :=
    loadBe32_store rfl
  rw [decodeAckBody, hs, hq]
  rfl

theorem frameEncode_ok {a : Aead κ} {h : Header} {payload frame : List UInt8}
    {key : Option κ} {capacity : ℕ}
    (hok : frameEncode a h payload key capacity = .ok frame) :
    headerCommonValid h = true ∧ payloadShapeValid h payload.length = true ∧
    ∃ body, frame = encodeHeader h ++ body ∧
      if isEncrypted h then ∃ k, key = some k ∧
        a.encrypt k (buildNonce h) (encodeHeader h) payload = some body
      else body = payload := by
  unfold frameEncode at hok
  split at hok
  · cases hok
  rename_i hvalid
  rw [not_or, not_not, not_not] at hvalid
  dsimp only at hok
  split at hok
  · cases hok
  split at hok
  · rename_i hplain
    rw [Bool.not_eq_true] at hplain
    refine ⟨hvalid.1, hvalid.2, payload, (Except.ok.inj hok).symm, ?_⟩
    simp [hplain]
  · rename_i henc
    rw [not_not] at henc
    cases key with
    | none => cases hok
    | some k =>
      dsimp only at hok
      split at hok
      · cases hok
      · rename_i body hbody
        refine ⟨hvalid.1, hvalid.2, body, (Except.ok.inj hok).symm, ?_⟩
        rw [if_pos henc]
        exact ⟨k, rfl, hbody⟩

/-- A receiver reads from a frame what was put in it, or nothing. -/
theorem decode_faithful {a : Aead κ} (ha : a.Correct) {h h' : Header}
    {payload payload' frame : List UInt8} {key key' : Option κ} {capacity capacity' : ℕ}
    (hkey : a.Compatible key key')
    (hok : frameEncode a h payload key capacity = .ok frame)
    (hdec : frameDecode a frame key' capacity' = .ok (h', payload')) :
    h' = h ∧ payload' = payload := by
  obtain ⟨hcommon, _, body, rfl, hbody⟩ := frameEncode_ok hok
  have hdrop : (encodeHeader h ++ body).drop kHeaderSize = body :=
    List.drop_left' (header_length h)
  have htake : (encodeHeader h ++ body).take kHeaderSize = encodeHeader h :=
    List.take_left' (header_length h)
  unfold frameDecode at hdec
  simp only [decode_encodeHeader, hdrop, htake, hcommon, not_true_eq_false, if_false] at hdec
  split at hdec
  · cases hdec
  split at hdec
  · cases hdec
  split at hdec
  · cases hdec
  split at hdec
  · cases hdec
  split at hdec
  · rename_i hplain
    rw [Bool.not_eq_true] at hplain
    simp only [hplain, Bool.false_eq_true, if_false] at hbody
    obtain ⟨rfl, rfl⟩ := Prod.mk.inj (Except.ok.inj hdec)
    exact ⟨rfl, hbody⟩
  · rename_i henc
    rw [not_not] at henc
    rw [if_pos henc] at hbody
    obtain ⟨k, rfl, hseal⟩ := hbody
    cases key' with
    | none => cases hdec
    | some k' =>
      dsimp only at hdec
      rcases hkey k k' rfl rfl with rfl | hother
      · rw [(ha.opens _ _ _ _ _).mpr hseal] at hdec
        obtain ⟨rfl, rfl⟩ := Prod.mk.inj (Except.ok.inj hdec)
        exact ⟨rfl, rfl⟩
      · rw [hother _ _ _ _ hseal] at hdec
        cases hdec

theorem frameDecode_ok {a : Aead κ} (ha : a.Correct) {h : Header} {payload frame : List UInt8}
    {key : Option κ} {capacity : ℕ} (hdec : frameDecode a frame key capacity = .ok (h, payload)) :
    h = decodeHeader (ofList frame) ∧ headerCommonValid h = true ∧
    payloadShapeValid h payload.length = true ∧
    (isEncrypted h = true → ∃ k, key = some k ∧
      a.decrypt k (buildNonce h) (frame.take kHeaderSize) (frame.drop kHeaderSize) =
        some payload) := by
  unfold frameDecode at hdec
  dsimp only at hdec
  split at hdec
  · cases hdec
  split at hdec
  · cases hdec
  rename_i hcommon
  rw [not_not] at hcommon
  split at hdec
  · cases hdec
  split at hdec
  · cases hdec
  rename_i hlength hshape
  rw [not_not] at hshape
  split at hdec
  · cases hdec
  split at hdec
  · rename_i hplain
    obtain ⟨rfl, rfl⟩ := Prod.mk.inj (Except.ok.inj hdec)
    refine ⟨rfl, hcommon, ?_, fun henc => absurd henc hplain⟩
    rw [Bool.not_eq_true] at hplain
    rw [tagSize, hplain, if_neg Bool.false_ne_true] at hshape
    rw [List.length_drop]
    exact hshape
  · rename_i henc
    rw [not_not] at henc
    cases key with
    | none => cases hdec
    | some k =>
      dsimp only at hdec
      split at hdec
      · cases hdec
      · rename_i body hbody
        obtain ⟨rfl, rfl⟩ := Prod.mk.inj (Except.ok.inj hdec)
        refine ⟨rfl, hcommon, ?_, fun _ => ⟨k, rfl, hbody⟩⟩
        have hsealed := ha.length _ _ _ _ _ ((ha.opens _ _ _ _ _).mp hbody)
        rw [List.length_drop] at hsealed
        rw [tagSize, henc, if_pos rfl] at hshape
        rw [show body.length = frame.length-(kHeaderSize+kTagSize) by omega]
        exact hshape

end JaszczurHal.LoraFrame
