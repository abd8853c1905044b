import JaszczurHal.CommandWire

/-!
# What the command adapters share

`jh_command_adapter_internal`: the messages an adapter builds for itself and
the response it encodes for a handler. A response that cannot be encoded is
replaced by an empty one that carries an error.
-/

set_option autoImplicit false

namespace JaszczurHal.CommandAdapter
open JaszczurHal.ByteImage JaszczurHal.CommandTypes JaszczurHal.HalStatus JaszczurHal.CommandWire

structure Response where
  status : ℤ
  encoding : ℤ
  body : List UInt8
  bodyLen : ℕ
  overflow : Bool
  deriving DecidableEq

def Response.zero : Response := ⟨0, 0, [], 0, false⟩

def statusIsHard (status : Status) : Bool :=
  status ≠ .ok && status ≠ .eagain && status ≠ .ebusy && status ≠ .ignored

def nextRequestId (requestId : UInt32) : UInt32 :=
  if requestId = 0xFFFFFFFF then 1 else requestId+1

variable {l : Limits}

def zeroMessage (l : Limits) : Message l where
  type := 0
  encoding := 0
  requestId := 0
  status := 0
  name := zeroPadded l.nameMax []
  payload := zeroPadded l.maxPayload []
  payloadLength := 0
  name_size := zeroPadded_length _ _
  payload_size := zeroPadded_length _ _

/-- `copy_message_name`: the bytes of the name, `none` for `HAL_EINVAL`. `name`
is the memory at the pointer, its terminator included. -/
def copyMessageName (l : Limits) (name : Option (List UInt8)) : Option (List UInt8) :=
  match name with
  | none => none
  | some memory =>
    match (memory.take l.nameMax).findIdx? (fun b => b = 0) with
    | none => none
    | some length => if length = 0 then none else some (memory.take length)

/-- `jh_command_adapter_prepare_message`: the status, the scratch message, the
length and what is written to the wire. `payload` is the memory at the
pointer. -/
def prepareMessage (scratch : Message l) (type : ℤ) (requestId : UInt32)
    (name : Option (List UInt8)) (encoding : ℤ) (payload : Option (List UInt8))
    (payloadLength wireCapacity : ℕ) : Status × Message l × ℕ × List UInt8 :=
  if payloadLength > 0 ∧ payload = none then (.einval, scratch, 0, [])
  else if payloadLength > l.maxPayload then (.eoverflow, scratch, 0, [])
  else
    let blank : Message l := { zeroMessage l with
      type := type
      encoding := encoding
      requestId := requestId
      status := Status.value .none }
    match copyMessageName l name with
    | none => (.einval, blank, 0, [])
    | some name =>
      let message : Message l := { blank with
        name := zeroPadded l.nameMax name
        payload := zeroPadded l.maxPayload ((payload.getD []).take payloadLength)
        payloadLength := payloadLength
        name_size := zeroPadded_length _ _
        payload_size := zeroPadded_length _ _ }
      let (status, length, bytes) := encode message wireCapacity
      (status, message, length, bytes)

def overflowed (l : Limits) (bodySize : ℕ) (response : Response) : Bool :=
  response.overflow || response.bodyLen > bodySize || response.bodyLen > l.maxPayload

def replyMessage (l : Limits) (bodySize : ℕ) (response : Response) (requestId : UInt32) :
    Message l :=
  let head : Message l := { zeroMessage l with
    type := messageResponse
    encoding := response.encoding
    requestId := requestId
    status := response.status }
  if overflowed l bodySize response then
    { head with
      encoding := encodingBinary
      status := Status.value .eoverflow }
  else
    { head with
      payload := zeroPadded l.maxPayload (response.body.take response.bodyLen)
      payloadLength := response.bodyLen
      payload_size := zeroPadded_length _ _ }

def errorMessage (l : Limits) (requestId : UInt32) : Message l :=
  { zeroMessage l with
    type := messageResponse
    encoding := encodingBinary
    requestId := requestId
    status := Status.value .einternal }

def encodeResponse (scratch : Message l) (bodySize : ℕ) (response : Response)
    (requestId : UInt32) (wireCapacity : ℕ) : Status × Message l × ℕ × List UInt8 :=
  if requestId = 0 then (.einval, scratch, 0, [])
  else
    let reply := replyMessage l bodySize response requestId
    match encode reply wireCapacity with
    | (.ok, length, bytes) => (.ok, reply, length, bytes)
    | _ =>
      let error := errorMessage l requestId
      let (status, length, bytes) := encode error wireCapacity
      (status, error, length, bytes)

def Encodable (capacity : ℕ) (response : Response) : Prop :=
  encodingValid response.encoding = true ∧ messageStatusValid response.status = true ∧
    response.status ≠ Status.value .none ∧ headerSize+response.bodyLen ≤ capacity

instance (capacity : ℕ) (response : Response) : Decidable (Encodable capacity response) :=
  inferInstanceAs (Decidable (_ ∧ _))

/-- What the response to a request says: the handler's status, encoding and
body, or an error without a body where they overflow or cannot be encoded. -/
structure Answer (bodySize capacity : ℕ) (response : Response) (requestId : UInt32)
    (m : Message l) : Prop where
  type : m.type = messageResponse
  requestId : m.requestId = requestId
  body : overflowed l bodySize response = false → Encodable capacity response →
    m.status = response.status ∧ m.encoding = response.encoding ∧
      m.payloadLength = response.bodyLen ∧
      m.payload = zeroPadded l.maxPayload (response.body.take response.bodyLen)
  overflow : overflowed l bodySize response = true →
    m.status = Status.value .eoverflow ∧ m.payloadLength = 0
  unencodable : overflowed l bodySize response = false → ¬Encodable capacity response →
    m.status = Status.value .einternal ∧ m.payloadLength = 0

theorem zeroPadded_nil_head (size : ℕ) : (zeroPadded size [])[0]?.getD 0 = 0 := by
  cases size with
  | zero => rfl
  | succ n => simp [zeroPadded, List.replicate_succ]

theorem zeroPadded_again (size : ℕ) {k : ℕ} {bytes : List UInt8} (h : bytes.length ≤ k) :
    zeroPadded size ((zeroPadded size bytes).take k) = zeroPadded size bytes := by
  apply List.ext_getElem
  · rw [zeroPadded_length, zeroPadded_length]
  · intro i hi _
    rw [zeroPadded_length] at hi
    by_cases hik : i < k
    · simp [zeroPadded, List.getElem_append, hi, hik]
    · have hpast : ¬i < bytes.length := by omega
      simp [zeroPadded, List.getElem_append, hpast, hik]

theorem errorMessage_valid {requestId : UInt32} (hid : requestId ≠ 0) :
    validateMessage (errorMessage l requestId) = some 0 := by
  simp [validateMessage, errorMessage, zeroMessage, hid, messageTypeValid, encodingValid,
    encodingBinary, messageStatusValid, Status.value, zeroPadded_nil_head]

theorem reply_overflow_valid {bodySize : ℕ} {response : Response} {requestId : UInt32}
    (hid : requestId ≠ 0) (hover : overflowed l bodySize response = true) :
    validateMessage (replyMessage l bodySize response requestId) = some 0 := by
  simp [validateMessage, replyMessage, hover, zeroMessage, hid, messageTypeValid, encodingValid,
    encodingBinary, messageStatusValid, Status.value, zeroPadded_nil_head]

theorem reply_valid_iff {bodySize : ℕ} {response : Response} {requestId : UInt32}
    (hid : requestId ≠ 0) (hover : overflowed l bodySize response = false) :
    validateMessage (replyMessage l bodySize response requestId) = some 0 ↔
      encodingValid response.encoding = true ∧ messageStatusValid response.status = true ∧
        response.status ≠ Status.value .none := by
  have hroom : ¬response.bodyLen > l.maxPayload := by
    simp only [overflowed, Bool.or_eq_false_iff, decide_eq_false_iff_not] at hover
    exact hover.2
  simp only [validateMessage, replyMessage, hover, zeroMessage]
  by_cases hencoding : encodingValid response.encoding = true
  · by_cases hstatus : messageStatusValid response.status = true
    · by_cases hnone : response.status = Status.value .none
      · simp [hencoding, hnone, hid, hroom]
      · simp [hencoding, hstatus, hnone, hid, hroom, messageTypeValid, zeroPadded_nil_head]
    · simp [hstatus]
  · simp [hencoding]

theorem reply_nameLength {bodySize n : ℕ} {response : Response} {requestId : UInt32}
    (h : validateMessage (replyMessage l bodySize response requestId) = some n) : n = 0 := by
  have htype : (replyMessage l bodySize response requestId).type = messageResponse := by
    simp only [replyMessage]
    by_cases hover : overflowed l bodySize response = true
    · rw [if_pos hover]
    · rw [if_neg hover]
  simp only [validateMessage, htype, if_true] at h
  split at h
  · cases h
  · split at h
    · cases h
    · exact (Option.some.inj h).symm

theorem encode_decodes {m : Message l} {capacity length : ℕ} {bytes : List UInt8}
    (h : encode m capacity = (.ok, length, bytes)) :
    bytes.length = length ∧ length ≤ capacity ∧
      ∃ n, validateMessage m = some n ∧ decode l (ofList bytes) length = .ok (m.trimmed n) := by
  obtain ⟨n, hvalid, hlength, hroom, rfl⟩ := encode_ok_iff.mp h
  obtain ⟨hsize, hdecode, _⟩ := valid_frame hvalid
  have hsame : (frameBytes m n).length = length := hsize.trans hlength.symm
  rw [hsame] at hdecode
  exact ⟨hsame, hroom, n, hvalid, hdecode⟩

theorem encode_room {m : Message l} {n capacity : ℕ} (hvalid : validateMessage m = some n)
    (hroom : headerSize+n+m.payloadLength ≤ capacity) :
    encode m capacity = (.ok, headerSize+n+m.payloadLength, frameBytes m n) :=
  encode_ok_iff.mpr ⟨n, hvalid, rfl, hroom, rfl⟩

theorem answer_error {bodySize capacity : ℕ} {response : Response} {requestId : UInt32}
    (hfit : overflowed l bodySize response = false) (hbad : ¬Encodable capacity response) :
    Answer bodySize capacity response requestId ((errorMessage l requestId).trimmed 0) where
  type := rfl
  requestId := rfl
  body _ hgood := absurd hgood hbad
  overflow hover := by simp [hfit] at hover
  unencodable _ _ := ⟨rfl, rfl⟩

theorem answer_overflow {bodySize capacity : ℕ} {response : Response} {requestId : UInt32}
    (hover : overflowed l bodySize response = true) :
    Answer bodySize capacity response requestId
      ((replyMessage l bodySize response requestId).trimmed 0) := by
  rw [replyMessage, if_pos hover]
  constructor
  · rfl
  · rfl
  · intro hfit
    simp [hover] at hfit
  · intro _
    exact ⟨rfl, rfl⟩
  · intro hfit
    simp [hover] at hfit

theorem answer_body {bodySize capacity : ℕ} {response : Response} {requestId : UInt32}
    (hfit : overflowed l bodySize response = false) (hgood : Encodable capacity response) :
    Answer bodySize capacity response requestId
      ((replyMessage l bodySize response requestId).trimmed 0) := by
  rw [replyMessage, if_neg (by simp [hfit])]
  constructor
  · rfl
  · rfl
  · intro _ _
    have hbody : (response.body.take response.bodyLen).length ≤ response.bodyLen :=
      List.length_take_le _ _
    exact ⟨rfl, rfl, rfl, zeroPadded_again _ hbody⟩
  · intro hover
    simp [hfit] at hover
  · intro _ hbad
    exact absurd hgood hbad

theorem reply_encodes_iff {bodySize capacity : ℕ} {response : Response} {requestId : UInt32}
    (hid : requestId ≠ 0) (hfit : overflowed l bodySize response = false) :
    (∃ length bytes,
      encode (replyMessage l bodySize response requestId) capacity = (.ok, length, bytes)) ↔
      Encodable capacity response := by
  have hlength : (replyMessage l bodySize response requestId).payloadLength =
      response.bodyLen := by
    rw [replyMessage, if_neg (by simp [hfit])]
  constructor
  · rintro ⟨length, bytes, h⟩
    obtain ⟨n, hvalid, hsize, hroom, _⟩ := encode_ok_iff.mp h
    obtain rfl := reply_nameLength hvalid
    obtain ⟨hencoding, hstatus, hnone⟩ := (reply_valid_iff hid hfit).mp hvalid
    exact ⟨hencoding, hstatus, hnone, by omega⟩
  · intro h
    have hvalid := (reply_valid_iff hid hfit).mpr ⟨h.1, h.2.1, h.2.2.1⟩
    exact ⟨_, _, encode_room hvalid (by rw [hlength]; exact h.2.2.2)⟩

/-- What is encoded for a request is always sendable, and the peer reads an
answer to that request. -/
theorem encodeResponse_answer {scratch : Message l} {bodySize capacity : ℕ} {response : Response}
    {requestId : UInt32} (hid : requestId ≠ 0) (hcapacity : headerSize ≤ capacity) :
    ∃ m length bytes,
      encodeResponse scratch bodySize response requestId capacity = (.ok, m, length, bytes) ∧
      bytes.length = length ∧ length ≤ capacity ∧
      ∃ read : Message l, decode l (ofList bytes) length = .ok read ∧
        Answer bodySize capacity response requestId read := by
  rw [encodeResponse, if_neg hid]
  dsimp only
  split
  · rename_i length bytes hreply
    obtain ⟨hlength, hroom, n, hvalid, hdecode⟩ := encode_decodes hreply
    obtain rfl := reply_nameLength hvalid
    refine ⟨_, length, bytes, rfl, hlength, hroom, _, hdecode, ?_⟩
    by_cases hover : overflowed l bodySize response = true
    · exact answer_overflow hover
    · have hfit : overflowed l bodySize response = false := by simpa using hover
      exact answer_body hfit ((reply_encodes_iff hid hfit).mp ⟨length, bytes, hreply⟩)
  · rename_i hreply
    have hfit : overflowed l bodySize response = false := by
      by_contra hover
      have hover : overflowed l bodySize response = true := by simpa using hover
      have hlength : (replyMessage l bodySize response requestId).payloadLength = 0 := by
        rw [replyMessage, if_pos hover]
        rfl
      exact hreply _ _ (encode_room (reply_overflow_valid hid hover) (by omega))
    have hbad : ¬Encodable capacity response := by
      intro hgood
      obtain ⟨length, bytes, h⟩ := (reply_encodes_iff hid hfit).mpr hgood
      exact hreply length bytes h
    have herror := @encode_room _ _ _ capacity (errorMessage_valid (l := l) hid) hcapacity
    obtain ⟨hlength, hroom, n, hvalid, hdecode⟩ := encode_decodes herror
    obtain rfl := Option.some.inj (hvalid.symm.trans (errorMessage_valid hid))
    exact ⟨_, _, _, by rw [herror], hlength, hroom, _, hdecode, answer_error hfit hbad⟩

/-- What an adapter builds for itself is read back with the type it asked for. -/
theorem prepareMessage_type {scratch m : Message l} {type encoding : ℤ} {requestId : UInt32}
    {name payload : Option (List UInt8)} {payloadLength capacity length : ℕ} {bytes : List UInt8}
    (h : prepareMessage scratch type requestId name encoding payload payloadLength capacity =
      (.ok, m, length, bytes)) :
    bytes.length = length ∧
      ∃ read : Message l, decode l (ofList bytes) length = .ok read ∧ read.type = type := by
  simp only [prepareMessage] at h
  split at h
  · cases h
  · split at h
    · cases h
    · split at h
      · cases h
      · simp only [Prod.mk.injEq] at h
        obtain ⟨hstatus, _, hlength, hbytes⟩ := h
        obtain ⟨hsame, _, n, _, hdecode⟩ := encode_decodes
          (Prod.ext hstatus (Prod.ext hlength hbytes))
        exact ⟨hsame, _, hdecode, rfl⟩

end JaszczurHal.CommandAdapter
