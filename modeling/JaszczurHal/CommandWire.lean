import JaszczurHal.ByteImage
import JaszczurHal.CommandTypes
import JaszczurHal.HalStatus

/-!
# The command wire format

`hal_command_wire`: a header of 16 bytes, the name and the payload. The
incremental sizer, the encoder and the decoder check the same fields in three
places; the results below are that they agree.
-/

set_option autoImplicit false

namespace JaszczurHal.CommandWire
open JaszczurHal.ByteImage JaszczurHal.CommandTypes JaszczurHal.HalStatus

def headerSize : ℕ := 16
def version : UInt8 := 1

def messageRequest : ℤ := 1
def messageResponse : ℤ := 2
def messageEvent : ℤ := 3

structure Message (l : Limits) where
  type : ℤ
  encoding : ℤ
  requestId : UInt32
  status : ℤ
  name : List UInt8
  payload : List UInt8
  payloadLength : ℕ
  name_size : name.length = l.nameMax
  payload_size : payload.length = l.maxPayload
  deriving DecidableEq

variable {l : Limits}

def messageTypeValid (type : ℤ) : Bool :=
  type = messageRequest || type = messageResponse || type = messageEvent

def messageStatusValid (status : ℤ) : Bool :=
  Status.value .eunknown ≤ status && status ≤ Status.value .ok

def validateMessage (m : Message l) : Option ℕ :=
  if !messageTypeValid m.type || !encodingValid m.encoding || !messageStatusValid m.status ||
      m.payloadLength > l.maxPayload then
    none
  else if m.type = messageResponse then
    if m.requestId = 0 || m.status = Status.value .none || m.name.getD 0 0 ≠ 0 then none
    else some 0
  else
    match nameValid l m.name with
    | none => none
    | some nameLength =>
      if m.status ≠ Status.value .none then none
      else if (m.type = messageRequest && m.requestId = 0) ||
          (m.type = messageEvent && m.requestId ≠ 0) then
        none
      else some nameLength

def wireStatus (raw : UInt16) : ℤ :=
  if raw.toNat ≤ 32767 then raw.toNat else raw.toNat-65536

def frameSize (l : Limits) (data : Image) (available : ℕ) : Status × ℕ :=
  if available < headerSize then
    (.eagain, headerSize)
  else if data 0 ≠ 0x4A || data 1 ≠ 0x43 || data 2 ≠ version || data 6 ≠ 0 || data 7 ≠ 0 then
    (.eproto, headerSize)
  else
    let type : ℤ := (data 3).toNat
    let encoding : ℤ := (data 4).toNat
    let nameLength := (data 5).toNat
    let requestId := loadBe32 data 8
    let status := wireStatus (loadBe16 data 12)
    let payloadLength := (loadBe16 data 14).toNat
    if !messageTypeValid type || !encodingValid encoding || !messageStatusValid status ||
        nameLength ≥ l.nameMax || payloadLength > l.maxPayload then
      (.eproto, headerSize)
    else if (type = messageResponse &&
          (requestId = 0 || status = Status.value .none || nameLength ≠ 0)) ||
        (type = messageRequest &&
          (requestId = 0 || status ≠ Status.value .none || nameLength = 0)) ||
        (type = messageEvent &&
          (requestId ≠ 0 || status ≠ Status.value .none || nameLength = 0)) then
      (.eproto, headerSize)
    else
      let frameLength := headerSize+nameLength+payloadLength
      (if available < frameLength then .eagain else .ok, frameLength)

def frameBytes (m : Message l) (nameLength : ℕ) : List UInt8 :=
  [0x4A, 0x43, version, UInt8.ofInt m.type, UInt8.ofInt m.encoding, UInt8.ofNat nameLength,
    0, 0] ++ (storeBe32 m.requestId ++ (storeBe16 (UInt16.ofInt m.status) ++
      (storeBe16 (UInt16.ofNat m.payloadLength) ++
        (m.name.take nameLength ++ m.payload.take m.payloadLength))))

def encode (m : Message l) (outputCapacity : ℕ) : Status × ℕ × List UInt8 :=
  match validateMessage m with
  | none => (.einval, 0, [])
  | some nameLength =>
    let required := headerSize+nameLength+m.payloadLength
    if required > outputCapacity then (.eoverflow, required, [])
    else (.ok, required, frameBytes m nameLength)

def zeroPadded (size : ℕ) (bytes : List UInt8) : List UInt8 :=
  (bytes ++ List.replicate size 0).take size

theorem zeroPadded_length (size : ℕ) (bytes : List UInt8) :
    (zeroPadded size bytes).length = size := by
  simp [zeroPadded]

def decode (l : Limits) (data : Image) (length : ℕ) : Except Status (Message l) :=
  let (frameStatus, frameLength) := frameSize l data length
  if frameStatus ≠ .ok || frameLength ≠ length then
    .error .eproto
  else
    let nameLength := (data 5).toNat
    let payloadLength := (loadBe16 data 14).toNat
    let expected := headerSize+nameLength+payloadLength
    if nameLength ≥ l.nameMax || payloadLength > l.maxPayload || expected ≠ length then
      .error .eproto
    else
      let m : Message l := {
        type := (data 3).toNat
        encoding := (data 4).toNat
        requestId := loadBe32 data 8
        status := wireStatus (loadBe16 data 12)
        name := zeroPadded l.nameMax (slice data headerSize nameLength)
        payload := zeroPadded l.maxPayload (slice data (headerSize+nameLength) payloadLength)
        payloadLength := payloadLength
        name_size := zeroPadded_length _ _
        payload_size := zeroPadded_length _ _ }
      if validateMessage m = some nameLength then .ok m else .error .eproto

def Message.trimmed (m : Message l) (nameLength : ℕ) : Message l :=
  { m with
    name := zeroPadded l.nameMax (m.name.take nameLength)
    payload := zeroPadded l.maxPayload (m.payload.take m.payloadLength)
    name_size := zeroPadded_length _ _
    payload_size := zeroPadded_length _ _ }

theorem zeroPadded_take {size : ℕ} {bytes : List UInt8} (h : bytes.length ≤ size) :
    (zeroPadded size bytes).take bytes.length = bytes := by
  rw [zeroPadded, List.take_take, Nat.min_eq_left h, List.take_left]

theorem zeroPadded_append {size : ℕ} {bytes : List UInt8} (h : bytes.length < size) :
    ∃ rest, zeroPadded size bytes = bytes ++ 0 :: rest := by
  obtain ⟨k, rfl⟩ := Nat.exists_eq_add_of_lt h
  refine ⟨List.replicate k 0, ?_⟩
  rw [zeroPadded, List.take_append, List.take_of_length_le (by omega), List.take_replicate,
    show bytes.length+k+1-bytes.length = k+1 by omega, Nat.min_eq_left (by omega),
    List.replicate_succ]

structure HeaderOk (l : Limits) (type encoding : ℤ) (requestId : UInt32) (status : ℤ)
    (nameLength payloadLength : ℕ) : Prop where
  type_valid : type = messageRequest ∨ type = messageResponse ∨ type = messageEvent
  encoding_valid : encodingValid encoding = true
  status_valid : -23 ≤ status ∧ status ≤ 1
  name_lt : nameLength < l.nameMax
  payload_le : payloadLength ≤ l.maxPayload
  response : type = messageResponse → requestId ≠ 0 ∧ status ≠ 0 ∧ nameLength = 0
  request : type = messageRequest → requestId ≠ 0 ∧ status = 0 ∧ nameLength ≠ 0
  event : type = messageEvent → requestId = 0 ∧ status = 0 ∧ nameLength ≠ 0

theorem messageTypeValid_iff (type : ℤ) : messageTypeValid type = true ↔
    type = messageRequest ∨ type = messageResponse ∨ type = messageEvent := by
  simp [messageTypeValid, or_assoc]

theorem messageStatusValid_iff (status : ℤ) :
    messageStatusValid status = true ↔ -23 ≤ status ∧ status ≤ 1 := by
  rw [messageStatusValid, Bool.and_eq_true, decide_eq_true_eq, decide_eq_true_eq]
  rfl

theorem fields_valid_iff (type encoding status : ℤ) (payloadLength : ℕ) :
    ¬ (!messageTypeValid type || !encodingValid encoding || !messageStatusValid status ||
        payloadLength > l.maxPayload) = true ↔
      (type = messageRequest ∨ type = messageResponse ∨ type = messageEvent) ∧
        encodingValid encoding = true ∧ (-23 ≤ status ∧ status ≤ 1) ∧
        payloadLength ≤ l.maxPayload := by
  simp only [Bool.or_eq_true, Bool.not_eq_true', decide_eq_true_eq, not_or, Bool.not_eq_false,
    messageTypeValid_iff, messageStatusValid_iff, not_lt, gt_iff_lt, and_assoc]

/-- A message validates when its header fields do and its name is well formed. -/
theorem validateMessage_iff {m : Message l} {n : ℕ} : validateMessage m = some n ↔
    HeaderOk l m.type m.encoding m.requestId m.status n m.payloadLength ∧
      (m.type = messageResponse → m.name.getD 0 0 = 0) ∧
      (m.type ≠ messageResponse → nameValid l m.name = some n) := by
  have hnone : Status.value .none = 0 := rfl
  have hlimit := l.nameMax_ge
  rw [validateMessage, hnone]
  by_cases hfields : (!messageTypeValid m.type || !encodingValid m.encoding ||
      !messageStatusValid m.status || m.payloadLength > l.maxPayload) = true
  · rw [if_pos hfields]
    constructor
    · intro h
      cases h
    · rintro ⟨h, _⟩
      exact absurd hfields ((fields_valid_iff (l := l) _ _ _ _).mpr
        ⟨h.type_valid, h.encoding_valid, h.status_valid, h.payload_le⟩)
  · rw [if_neg hfields]
    obtain ⟨htype, hencoding, hstatus, hpayload⟩ := (fields_valid_iff _ _ _ _).mp hfields
    by_cases hresponse : m.type = messageResponse
    · rw [if_pos hresponse]
      have hnot : m.type ≠ messageRequest ∧ m.type ≠ messageEvent := by
        rw [hresponse]
        decide
      constructor
      · intro h
        split at h
        · cases h
        · rename_i hok
          simp only [Bool.or_eq_true, decide_eq_true_eq, not_or, not_not, ne_eq] at hok
          obtain rfl := Option.some.inj h
          refine ⟨⟨htype, hencoding, hstatus, by omega, hpayload, fun _ => ⟨hok.1.1, hok.1.2, rfl⟩,
            fun h => absurd h hnot.1, fun h => absurd h hnot.2⟩, fun _ => hok.2,
            fun h => absurd hresponse h⟩
      · rintro ⟨hheader, hname, _⟩
        obtain ⟨hid, hne, rfl⟩ := hheader.response hresponse
        have hok : ¬ (m.requestId = 0 || m.status = 0 || m.name.getD 0 0 ≠ 0) = true := by
          simp only [Bool.or_eq_true, decide_eq_true_eq, not_or, ne_eq, not_not]
          exact ⟨⟨hid, hne⟩, hname hresponse⟩
        rw [if_neg hok]
    · rw [if_neg hresponse]
      cases hname : nameValid l m.name with
      | none =>
        constructor
        · intro h
          cases h
        · rintro ⟨_, _, h⟩
          cases h hresponse
      | some k =>
        obtain ⟨hkpos, hkmax, _, _⟩ := nameValid_some hname
        dsimp only
        constructor
        · intro h
          split at h
          · cases h
          · rename_i hzero
            split at h
            · cases h
            · rename_i hid
              obtain rfl := Option.some.inj h
              simp only [ne_eq, not_not] at hzero
              simp only [Bool.or_eq_true, Bool.and_eq_true, decide_eq_true_eq, not_or, not_and,
                ne_eq, not_not] at hid
              exact ⟨⟨htype, hencoding, hstatus, hkmax, hpayload, fun h => absurd h hresponse,
                fun h => ⟨hid.1 h, hzero, by omega⟩, fun h => ⟨hid.2 h, hzero, by omega⟩⟩,
                fun h => absurd h hresponse, fun _ => rfl⟩
        · rintro ⟨hheader, _, hvalid⟩
          have hzero : m.status = 0 := by
            rcases htype with h | h | h
            · exact (hheader.request h).2.1
            · exact absurd h hresponse
            · exact (hheader.event h).2.1
          have hid : ¬ ((m.type = messageRequest && m.requestId = 0) ||
              (m.type = messageEvent && m.requestId ≠ 0)) = true := by
            simp only [Bool.or_eq_true, Bool.and_eq_true, decide_eq_true_eq, not_or, not_and,
              ne_eq, not_not]
            exact ⟨fun h => (hheader.request h).1, fun h => (hheader.event h).1⟩
          rw [if_neg (by simp [hzero]), if_neg hid, ← hvalid hresponse]

def MagicOk (data : Image) : Prop :=
  data 0 = 0x4A ∧ data 1 = 0x43 ∧ data 2 = version ∧ data 6 = 0 ∧ data 7 = 0

def HeaderAt (l : Limits) (data : Image) : Prop :=
  MagicOk data ∧ HeaderOk l (data 3).toNat (data 4).toNat (loadBe32 data 8)
    (wireStatus (loadBe16 data 12)) (data 5).toNat (loadBe16 data 14).toNat

def frameLengthAt (data : Image) : ℕ :=
  headerSize+(data 5).toNat+(loadBe16 data 14).toNat

theorem magic_iff (data : Image) :
    ¬ (data 0 ≠ 0x4A || data 1 ≠ 0x43 || data 2 ≠ version || data 6 ≠ 0 || data 7 ≠ 0) = true ↔
      MagicOk data := by
  simp only [MagicOk, Bool.or_eq_true, decide_eq_true_eq, not_or, ne_eq, not_not, and_assoc]

theorem fields_header_iff (type : ℤ) (requestId : UInt32) (status : ℤ) (nameLength : ℕ) :
    ¬ ((type = messageResponse &&
          (requestId = 0 || status = Status.value .none || nameLength ≠ 0)) ||
        (type = messageRequest &&
          (requestId = 0 || status ≠ Status.value .none || nameLength = 0)) ||
        (type = messageEvent &&
          (requestId ≠ 0 || status ≠ Status.value .none || nameLength = 0))) = true ↔
      (type = messageResponse → requestId ≠ 0 ∧ status ≠ 0 ∧ nameLength = 0) ∧
      (type = messageRequest → requestId ≠ 0 ∧ status = 0 ∧ nameLength ≠ 0) ∧
      (type = messageEvent → requestId = 0 ∧ status = 0 ∧ nameLength ≠ 0) := by
  have hnone : Status.value .none = 0 := rfl
  simp only [hnone, Bool.or_eq_true, Bool.and_eq_true, decide_eq_true_eq, not_or, not_and,
    ne_eq, not_not, and_assoc]

/-- The sizer, with its checks folded into one condition. -/
theorem frameSize_ok {data : Image} {available : ℕ} (havailable : headerSize ≤ available)
    (h : HeaderAt l data) :
    frameSize l data available =
      (if available < frameLengthAt data then .eagain else .ok, frameLengthAt data) := by
  obtain ⟨hmagic, h⟩ := h
  have hfields : ¬ (!messageTypeValid (data 3).toNat || !encodingValid (data 4).toNat ||
      !messageStatusValid (wireStatus (loadBe16 data 12)) || (data 5).toNat ≥ l.nameMax ||
      (loadBe16 data 14).toNat > l.maxPayload) = true := by
    have hold := (fields_valid_iff (l := l) _ _ _ _).mpr
      ⟨h.type_valid, h.encoding_valid, h.status_valid, h.payload_le⟩
    have hname := h.name_lt
    simp only [Bool.or_eq_true, decide_eq_true_eq, not_or] at hold ⊢
    exact ⟨⟨hold.1, by omega⟩, hold.2⟩
  rw [frameSize, if_neg (by omega), if_neg ((magic_iff data).mpr hmagic), if_neg hfields,
    if_neg ((fields_header_iff _ _ _ _).mpr ⟨h.response, h.request, h.event⟩)]
  rfl

theorem frameSize_bad {data : Image} {available : ℕ} (havailable : headerSize ≤ available)
    (h : ¬ HeaderAt l data) : frameSize l data available = (.eproto, headerSize) := by
  rw [frameSize, if_neg (by omega)]
  by_cases hmagic : MagicOk data
  · rw [if_neg ((magic_iff data).mpr hmagic)]
    by_cases hfields : (!messageTypeValid (data 3).toNat || !encodingValid (data 4).toNat ||
        !messageStatusValid (wireStatus (loadBe16 data 12)) || (data 5).toNat ≥ l.nameMax ||
        (loadBe16 data 14).toNat > l.maxPayload) = true
    · rw [if_pos hfields]
    · rw [if_neg hfields, if_pos]
      by_contra hheader
      obtain ⟨hresponse, hrequest, hevent⟩ := (fields_header_iff _ _ _ _).mp hheader
      simp only [Bool.or_eq_true, decide_eq_true_eq, not_or] at hfields
      obtain ⟨htype, hencoding, hstatus, hpayload⟩ :=
        (fields_valid_iff (l := l) (data 3).toNat (data 4).toNat
          (wireStatus (loadBe16 data 12)) (loadBe16 data 14).toNat).mp (by
            simp only [Bool.or_eq_true, decide_eq_true_eq, not_or]
            exact ⟨hfields.1.1, hfields.2⟩)
      exact h ⟨hmagic, htype, hencoding, hstatus, not_le.mp hfields.1.2, hpayload, hresponse,
        hrequest, hevent⟩
  · rw [if_pos]
    by_contra hneg
    exact hmagic ((magic_iff data).mp hneg)

structure Layout (data : Image) (m : Message l) (n : ℕ) : Prop where
  magic : MagicOk data
  type : data 3 = UInt8.ofInt m.type
  encoding : data 4 = UInt8.ofInt m.encoding
  nameLength : data 5 = UInt8.ofNat n
  requestId : loadBe32 data 8 = m.requestId
  status : loadBe16 data 12 = UInt16.ofInt m.status
  payloadLength : loadBe16 data 14 = UInt16.ofNat m.payloadLength
  name : slice data headerSize n = m.name.take n
  payload : slice data (headerSize+n) m.payloadLength = m.payload.take m.payloadLength

theorem frameBytes_length {m : Message l} {n : ℕ} (hname : n ≤ m.name.length)
    (hpayload : m.payloadLength ≤ m.payload.length) :
    (frameBytes m n).length = headerSize+n+m.payloadLength := by
  simp only [frameBytes, storeBe32, storeBe16, List.length_append, List.length_cons,
    List.length_nil, List.length_take, Nat.min_eq_left hname, Nat.min_eq_left hpayload,
    headerSize]
  omega

theorem layout_iff {data : Image} {m : Message l} {n : ℕ} (hname : n ≤ m.name.length)
    (hpayload : m.payloadLength ≤ m.payload.length) :
    slice data 0 (headerSize+n+m.payloadLength) = frameBytes m n ↔ Layout data m n := by
  have htake : (m.name.take n).length = n := List.length_take_of_le hname
  have htake' : (m.payload.take m.payloadLength).length = m.payloadLength :=
    List.length_take_of_le hpayload
  have hsplit : slice data 0 (headerSize+n+m.payloadLength) = slice data 0 8 ++
      (slice data 8 4 ++ (slice data 12 2 ++ (slice data 14 2 ++ (slice data headerSize n ++
        slice data (headerSize+n) m.payloadLength)))) := by
    rw [show headerSize+n+m.payloadLength = 8+(4+(2+(2+(n+m.payloadLength)))) by
      simp only [headerSize]; omega]
    simp only [slice_append, headerSize, Nat.zero_add, Nat.reduceAdd]
  have hhead : slice data 0 8 =
      [data 0, data 1, data 2, data 3, data 4, data 5, data 6, data 7] := rfl
  constructor
  · intro h
    rw [hsplit, frameBytes] at h
    obtain ⟨h8, h⟩ := List.append_inj h (by simp)
    obtain ⟨hid, h⟩ := List.append_inj h (by simp [storeBe32])
    obtain ⟨hstatus, h⟩ := List.append_inj h (by simp [storeBe16])
    obtain ⟨hlength, h⟩ := List.append_inj h (by simp [storeBe16])
    obtain ⟨hn, hp⟩ := List.append_inj h (by rw [slice_length, htake])
    rw [hhead] at h8
    simp only [List.cons.injEq, and_true] at h8
    obtain ⟨h0, h1, h2, h3, h4, h5, h6, h7⟩ := h8
    exact ⟨⟨h0, h1, h2, h6, h7⟩, h3, h4, h5, loadBe32_store hid, loadBe16_store hstatus,
      loadBe16_store hlength, hn, hp⟩
  · intro h
    obtain ⟨h0, h1, h2, h6, h7⟩ := h.magic
    rw [hsplit, frameBytes, hhead, h0, h1, h2, h.type, h.encoding, h.nameLength, h6, h7,
      ← store_loadBe32, h.requestId, ← store_loadBe16, h.status, ← store_loadBe16,
      h.payloadLength, h.name, h.payload]

theorem uint8_ofInt_toNat {z : ℤ} (hlo : 0 ≤ z) (hhi : z < 256) :
    ((UInt8.ofInt z).toNat : ℤ) = z := by
  have hnat : (z % 2^8).toNat < 2^8 := by omega
  rw [UInt8.ofInt, UInt8.toNat_ofNat_of_lt' hnat]
  omega

theorem uint8_ofInt_ofNat (b : UInt8) : UInt8.ofInt b.toNat = b := by
  have hb := b.toNat_lt
  apply UInt8.toNat_inj.mp
  have h := uint8_ofInt_toNat (z := b.toNat) (by omega) (by omega)
  exact_mod_cast h

theorem wireStatus_ofInt {status : ℤ} (h : -23 ≤ status ∧ status ≤ 1) :
    wireStatus (UInt16.ofInt status) = status := by
  have hnat : (status % 2^16).toNat < 2^16 := by omega
  have hvalue : (UInt16.ofInt status).toNat = (status % 2^16).toNat := by
    rw [UInt16.ofInt, UInt16.toNat_ofNat_of_lt' hnat]
  rw [wireStatus, hvalue]
  split <;> omega

theorem ofInt_wireStatus (raw : UInt16) : UInt16.ofInt (wireStatus raw) = raw := by
  have hraw := raw.toNat_lt
  apply UInt16.toNat_inj.mp
  have hnat : (wireStatus raw % 2^16).toNat = raw.toNat := by
    rw [wireStatus]
    split <;> omega
  rw [UInt16.ofInt, hnat, UInt16.toNat_ofNat_of_lt' hraw]

theorem HeaderOk.type_bounds {type encoding status : ℤ} {requestId : UInt32}
    {nameLength payloadLength : ℕ}
    (h : HeaderOk l type encoding requestId status nameLength payloadLength) :
    (0 ≤ type ∧ type < 256) ∧ 0 ≤ encoding ∧ encoding < 256 := by
  have hencoding := (encodingValid_iff encoding).mp h.encoding_valid
  simp only [encodingBinary, encodingText, encodingJson] at hencoding
  have htype := h.type_valid
  simp only [messageRequest, messageResponse, messageEvent] at htype
  omega

/-- A frame of a valid message has a header the sizer accepts. -/
theorem layout_header {data : Image} {m : Message l} {n : ℕ} (h : Layout data m n)
    (hvalid : HeaderOk l m.type m.encoding m.requestId m.status n m.payloadLength) :
    HeaderAt l data ∧ frameLengthAt data = headerSize+n+m.payloadLength := by
  obtain ⟨⟨htype0, htype1⟩, hencoding0, hencoding1⟩ := hvalid.type_bounds
  have hname := hvalid.name_lt
  have hnameMax := l.nameMax_le
  have hpayload := hvalid.payload_le
  have hpayloadMax := l.maxPayload_le
  have hn : (data 5).toNat = n := by
    rw [h.nameLength, UInt8.toNat_ofNat_of_lt' (show n < 2^8 by omega)]
  have hp : (loadBe16 data 14).toNat = m.payloadLength := by
    rw [h.payloadLength, UInt16.toNat_ofNat_of_lt' (show m.payloadLength < 2^16 by omega)]
  refine ⟨⟨h.magic, ?_⟩, by rw [frameLengthAt, hn, hp]⟩
  rw [h.type, h.encoding, h.requestId, h.status, hn, hp, uint8_ofInt_toNat htype0 htype1,
    uint8_ofInt_toNat hencoding0 hencoding1, wireStatus_ofInt hvalid.status_valid]
  exact hvalid

theorem validate_name_lt {m : Message l} {n : ℕ} (h : validateMessage m = some n) :
    n ≤ m.name.length ∧ m.payloadLength ≤ m.payload.length := by
  have hheader := (validateMessage_iff.mp h).1
  have hname := hheader.name_lt
  have hpayload := hheader.payload_le
  rw [m.name_size, m.payload_size]
  omega

/-- Zeroing the unused ends of the arrays changes nothing that is checked. -/
theorem validateMessage_trimmed {m : Message l} {n : ℕ} (h : validateMessage m = some n) :
    validateMessage (m.trimmed n) = some n := by
  obtain ⟨hheader, _, hname⟩ := validateMessage_iff.mp h
  have htake : (m.name.take n).length = n := List.length_take_of_le (validate_name_lt h).1
  obtain ⟨rest, hrest⟩ := @zeroPadded_append l.nameMax (m.name.take n)
    (by rw [htake]; exact hheader.name_lt)
  apply validateMessage_iff.mpr
  refine ⟨hheader, fun hresponse => ?_, fun hother => ?_⟩
  · obtain rfl := (hheader.response hresponse).2.2
    show (zeroPadded l.nameMax (m.name.take 0)).getD 0 0 = 0
    rw [hrest]
    rfl
  · obtain ⟨hpos, hlt, _, hall⟩ := nameValid_some (hname hother)
    show nameValid l (zeroPadded l.nameMax (m.name.take n)) = some n
    rw [hrest, nameValid_append (by omega) (by omega) hall, htake]

/-- Decoding the frame of a valid message gives the message back. -/
theorem decode_frame {data : Image} {m : Message l} {n : ℕ} (hvalid : validateMessage m = some n)
    (h : Layout data m n) :
    decode l data (headerSize+n+m.payloadLength) = .ok (m.trimmed n) := by
  have hheader := (validateMessage_iff.mp hvalid).1
  obtain ⟨hat, hlength⟩ := layout_header h hheader
  obtain ⟨⟨htype0, htype1⟩, hencoding0, hencoding1⟩ := hheader.type_bounds
  have hname := hheader.name_lt
  have hnameMax := l.nameMax_le
  have hpayload := hheader.payload_le
  have hpayloadMax := l.maxPayload_le
  have hn : (data 5).toNat = n := by
    rw [h.nameLength, UInt8.toNat_ofNat_of_lt' (show n < 2^8 by omega)]
  have hp : (loadBe16 data 14).toNat = m.payloadLength := by
    rw [h.payloadLength, UInt16.toNat_ofNat_of_lt' (show m.payloadLength < 2^16 by omega)]
  have hframe : frameSize l data (headerSize+n+m.payloadLength) =
      (.ok, headerSize+n+m.payloadLength) := by
    rw [frameSize_ok (by omega) hat, hlength, if_neg (by omega)]
  have hmessage : ({
      type := (data 3).toNat
      encoding := (data 4).toNat
      requestId := loadBe32 data 8
      status := wireStatus (loadBe16 data 12)
      name := zeroPadded l.nameMax (slice data headerSize n)
      payload := zeroPadded l.maxPayload (slice data (headerSize+n) m.payloadLength)
      payloadLength := m.payloadLength
      name_size := zeroPadded_length _ _
      payload_size := zeroPadded_length _ _ } : Message l) = m.trimmed n := by
    rw [Message.trimmed]
    congr 1
    · rw [h.type, uint8_ofInt_toNat htype0 htype1]
    · rw [h.encoding, uint8_ofInt_toNat hencoding0 hencoding1]
    · exact h.requestId
    · rw [h.status, wireStatus_ofInt hheader.status_valid]
    · rw [h.name]
    · rw [h.payload]
  simp only [decode, hframe, hn, hp]
  rw [if_neg (by simp), if_neg (by simp; omega), hmessage,
    if_pos (validateMessage_trimmed hvalid)]

/-- An accepted frame is the frame of the message it decodes to. -/
theorem frame_decode {data : Image} {length : ℕ} {m : Message l}
    (h : decode l data length = .ok m) :
    ∃ n, validateMessage m = some n ∧ length = headerSize+n+m.payloadLength ∧
      Layout data m n ∧ m.trimmed n = m := by
  have hmax := l.nameMax_le
  have hfive := (data 5).toNat_lt
  simp only [decode] at h
  split at h
  · cases h
  · rename_i hframe
    simp only [Bool.or_eq_true, decide_eq_true_eq, not_or, ne_eq, not_not] at hframe
    split at h
    · cases h
    · rename_i hsizes
      simp only [Bool.or_eq_true, decide_eq_true_eq, not_or, ne_eq, not_not, ge_iff_le, not_le,
        gt_iff_lt, not_lt] at hsizes
      obtain ⟨⟨hname, hpayload⟩, hlength⟩ := hsizes
      split at h
      · rename_i hvalid
        have hat : HeaderAt l data := by
          by_contra hbad
          rw [frameSize_bad (by omega) hbad] at hframe
          cases hframe.1
        simp only [Except.ok.injEq] at h
        subst h
        have hname' : (slice data headerSize (data 5).toNat).length = (data 5).toNat :=
          slice_length _ _ _
        have hpayload' : (slice data (headerSize+(data 5).toNat)
            (loadBe16 data 14).toNat).length = (loadBe16 data 14).toNat := slice_length _ _ _
        have hnameTake := @zeroPadded_take l.nameMax
          (slice data headerSize (data 5).toNat) (by omega)
        have hpayloadTake := @zeroPadded_take l.maxPayload
          (slice data (headerSize+(data 5).toNat) (loadBe16 data 14).toNat) (by omega)
        rw [hname'] at hnameTake
        rw [hpayload'] at hpayloadTake
        refine ⟨(data 5).toNat, hvalid, hlength.symm, ?_, ?_⟩
        · exact ⟨hat.1, (uint8_ofInt_ofNat _).symm, (uint8_ofInt_ofNat _).symm, by simp, rfl,
            (ofInt_wireStatus _).symm, by simp, hnameTake.symm, hpayloadTake.symm⟩
        · simp only [Message.trimmed, hnameTake, hpayloadTake]
      · cases h

theorem encode_ok_iff {m : Message l} {capacity length : ℕ} {bytes : List UInt8} :
    encode m capacity = (.ok, length, bytes) ↔ ∃ n, validateMessage m = some n ∧
      length = headerSize+n+m.payloadLength ∧ length ≤ capacity ∧ bytes = frameBytes m n := by
  rw [encode]
  cases hvalid : validateMessage m with
  | none => simp
  | some n =>
    dsimp only
    by_cases hroom : headerSize+n+m.payloadLength > capacity
    · rw [if_pos hroom]
      simp only [Prod.mk.injEq, reduceCtorEq, false_and, false_iff, not_exists, not_and]
      rintro k hk rfl hle
      obtain rfl := Option.some.inj hk
      omega
    · rw [if_neg hroom]
      simp only [Prod.mk.injEq, true_and, Option.some.injEq]
      constructor
      · rintro ⟨rfl, rfl⟩
        exact ⟨n, rfl, rfl, by omega, rfl⟩
      · rintro ⟨k, rfl, rfl, _, rfl⟩
        exact ⟨rfl, rfl⟩

/-- The sizer and the decoder look at no byte past the length they are given. -/
theorem frameSize_congr {data data' : Image} {available : ℕ}
    (h : ∀ i < available, data i = data' i) :
    frameSize l data available = frameSize l data' available := by
  by_cases hshort : available < headerSize
  · rw [frameSize, frameSize, if_pos hshort, if_pos hshort]
  · simp only [headerSize] at hshort
    have hid : loadBe32 data 8 = loadBe32 data' 8 :=
      loadBe32_congr fun k hk => h (8+k) (by omega)
    have hstatus : loadBe16 data 12 = loadBe16 data' 12 :=
      loadBe16_congr fun k hk => h (12+k) (by omega)
    have hlength : loadBe16 data 14 = loadBe16 data' 14 :=
      loadBe16_congr fun k hk => h (14+k) (by omega)
    simp only [frameSize, hid, hstatus, hlength, h 0 (by omega), h 1 (by omega),
      h 2 (by omega), h 3 (by omega), h 4 (by omega), h 5 (by omega), h 6 (by omega),
      h 7 (by omega)]

theorem decode_congr {data data' : Image} {length : ℕ} (h : ∀ i < length, data i = data' i) :
    decode l data length = decode l data' length := by
  have hframe := frameSize_congr (l := l) h
  by_cases hshort : length < headerSize
  · simp only [decode, frameSize, if_pos hshort]
    rw [if_pos (by simp), if_pos (by simp)]
  · simp only [headerSize] at hshort
    have hid : loadBe32 data 8 = loadBe32 data' 8 :=
      loadBe32_congr fun k hk => h (8+k) (by omega)
    have hstatus : loadBe16 data 12 = loadBe16 data' 12 :=
      loadBe16_congr fun k hk => h (12+k) (by omega)
    have hlength : loadBe16 data 14 = loadBe16 data' 14 :=
      loadBe16_congr fun k hk => h (14+k) (by omega)
    simp only [decode, hframe, hid, hstatus, hlength, h 3 (by omega), h 4 (by omega),
      h 5 (by omega)]
    by_cases hexpected :
        headerSize+(data' 5).toNat+(loadBe16 data' 14).toNat = length
    · -- both copies end at the length
      have hname : slice data headerSize (data' 5).toNat =
          slice data' headerSize (data' 5).toNat :=
        slice_congr fun i _ hi => h i (by omega)
      have hpayload : slice data (headerSize+(data' 5).toNat) (loadBe16 data' 14).toNat =
          slice data' (headerSize+(data' 5).toNat) (loadBe16 data' 14).toNat :=
        slice_congr fun i _ hi => h i (by omega)
      simp only [hname, hpayload]
    · simp [hexpected]

theorem decode_error {data : Image} {length : ℕ} {status : Status}
    (h : decode l data length = .error status) : status = .eproto := by
  simp only [decode] at h
  split at h
  · exact (Except.error.inj h).symm
  · split at h
    · exact (Except.error.inj h).symm
    · split at h
      · cases h
      · exact (Except.error.inj h).symm

/-- The frame of a valid message, and every way to cut it short. -/
theorem valid_frame {m : Message l} {n : ℕ} (hvalid : validateMessage m = some n) :
    (frameBytes m n).length = headerSize+n+m.payloadLength ∧
    decode l (ofList (frameBytes m n)) (frameBytes m n).length = .ok (m.trimmed n) ∧
    ∀ data available, available ≤ (frameBytes m n).length →
      (∀ i < available, data i = ofList (frameBytes m n) i) →
      frameSize l data available = if available < headerSize then (.eagain, headerSize) else
        (if available < (frameBytes m n).length then .eagain else .ok,
          (frameBytes m n).length) := by
  obtain ⟨hname, hpayload⟩ := validate_name_lt hvalid
  have hsize := frameBytes_length hname hpayload
  have hlayout : Layout (ofList (frameBytes m n)) m n := by
    rw [← layout_iff hname hpayload, ← hsize]
    exact slice_ofList _
  obtain ⟨hat, hlength⟩ := layout_header hlayout (validateMessage_iff.mp hvalid).1
  refine ⟨hsize, ?_, fun data available _ hleads => ?_⟩
  · rw [hsize]
    exact decode_frame hvalid hlayout
  · rw [frameSize_congr hleads]
    by_cases hshort : available < headerSize
    · rw [if_pos hshort, frameSize, if_pos hshort]
    · rw [if_neg hshort, frameSize_ok (by omega) hat, hlength, hsize]

/-- Decoding undoes encoding: it accepts exactly the frames of valid messages,
re-encoding an accepted frame gives its bytes, and a frame cut short is sized
as incomplete. (`trimmed` zeroes what the arrays hold past the name and the
payload, which is not part of the message.) -/
theorem wire_codec (l : Limits) :
    (∀ (m : Message l) (n : ℕ), validateMessage m = some n →
      (∀ capacity ≥ (frameBytes m n).length,
        encode m capacity = (.ok, (frameBytes m n).length, frameBytes m n)) ∧
      decode l (ofList (frameBytes m n)) (frameBytes m n).length = .ok (m.trimmed n) ∧
      ∀ data available, available ≤ (frameBytes m n).length →
        (∀ i < available, data i = ofList (frameBytes m n) i) →
        frameSize l data available = if available < headerSize then (.eagain, headerSize) else
          (if available < (frameBytes m n).length then .eagain else .ok,
            (frameBytes m n).length)) ∧
    (∀ data length, (∃ m : Message l, encode m length = (.ok, length, slice data 0 length)) ↔
      ∃ m : Message l, decode l data length = .ok m) ∧
    (∀ data length (m : Message l), decode l data length = .ok m →
      encode m length = (.ok, length, slice data 0 length)) ∧
    (∀ data length status, decode l data length = .error status → status = .eproto) ∧
    ∀ data data' : Image, ∀ length, (∀ i < length, data i = data' i) →
      decode l data length = decode l data' length ∧
      frameSize l data length = frameSize l data' length := by
  have hback : ∀ data length (m : Message l), decode l data length = .ok m →
      encode m length = (.ok, length, slice data 0 length) := by
    intro data length m h
    obtain ⟨n, hvalid, rfl, hlayout, _⟩ := frame_decode h
    obtain ⟨hname, hpayload⟩ := validate_name_lt hvalid
    exact encode_ok_iff.mpr ⟨n, hvalid, rfl, Nat.le_refl _, (layout_iff hname hpayload).mpr hlayout⟩
  refine ⟨fun m n hvalid => ?_, fun data length => ⟨?_, ?_⟩, hback,
    fun data length status => decode_error,
    fun data data' length h => ⟨decode_congr h, frameSize_congr h⟩⟩
  · obtain ⟨hsize, hdecode, hleads⟩ := valid_frame hvalid
    refine ⟨fun capacity hroom => ?_, hdecode, hleads⟩
    exact encode_ok_iff.mpr ⟨n, hvalid, hsize, hroom, rfl⟩
  · rintro ⟨m, h⟩
    obtain ⟨n, hvalid, rfl, _, hbytes⟩ := encode_ok_iff.mp h
    obtain ⟨hname, hpayload⟩ := validate_name_lt hvalid
    exact ⟨_, decode_frame hvalid ((layout_iff hname hpayload).mp hbytes)⟩
  · rintro ⟨m, h⟩
    exact ⟨m, hback data length m h⟩

end JaszczurHal.CommandWire
