import JaszczurHal.ByteImage
import JaszczurHal.HalCrc
import JaszczurHal.CheckedArith

/-!
# Records and banks of the key-value store

A bank begins with its header, whose fields say where the body of records
ends. A record is a header, a payload and a footer, with check sums of the
header and of the payload. Every access is checked against the size of the
bank.
-/

set_option autoImplicit false

namespace JaszczurHal.KvRecord
open ByteImage HalCrc CheckedArith

def KV_BANK_MAGIC : UInt32 := 0x564B484A
def KV_BANK_VERSION : UInt8 := 3
def KV_BANK_VERSION_NO_LOG : UInt8 := 2
def KV_BANK_HDR_SIZE : ℕ := 24
def KV_REC_MAGIC : UInt16 := 0xA55A
def KV_REC_FOOTER : UInt16 := 0x5AA5
def KV_REC_TYPE_U32 : UInt8 := 1
def KV_REC_TYPE_BLOB : UInt8 := 2
def KV_REC_TYPE_DELETE : UInt8 := 3
def KV_REC_TYPE_COMMIT : UInt8 := 4
def KV_COMMIT_LEN : ℕ := 4
def KV_REC_HDR_SIZE : ℕ := 16
def KV_REC_FTR_SIZE : ℕ := 2
def KV_REC_OVERHEAD : ℕ := KV_REC_HDR_SIZE+KV_REC_FTR_SIZE

structure Config where
  maxBankSize : ℕ
  maxKeys : ℕ
  publishSize : ℕ
  bank_fits : maxBankSize ≤ 0xFFFF
  keys_bounded : 1 ≤ maxKeys ∧ maxKeys ≤ 4096
  publish_fits : publishSize ≤ 0xFFFF
  publish_header : KV_BANK_HDR_SIZE ≤ publishSize

structure BankHeader where
  magic : UInt32
  version : UInt8
  reserved : UInt8
  headerSize : UInt16
  generation : UInt32
  usedOffset : UInt16
  bankSize : UInt16
  recordCount : UInt16
  bodyCrc : UInt16
  reserved2 : UInt16
  headerCrc : UInt16
  deriving DecidableEq, Repr

structure RecordHeader where
  magic : UInt16
  key : UInt16
  type : UInt8
  flags : UInt8
  len : UInt16
  seq : UInt32
  payloadCrc : UInt16
  headerCrc : UInt16
  deriving DecidableEq, Repr

def crc16 (data : List UInt8) : UInt16 := crc16Ccitt data 0xFFFF

def recordSize (len : ℕ) : ℕ := KV_REC_OVERHEAD+len

def recordTypeValid (type : UInt8) (len : UInt16) : Bool :=
  if type = KV_REC_TYPE_U32 then decide (len = 4)
  else if type = KV_REC_TYPE_BLOB then true
  else decide (type = KV_REC_TYPE_DELETE) && decide (len = 0)

def encodeBankHeader (h : BankHeader) : List UInt8 :=
  storeLe32 h.magic ++ [h.version, h.reserved] ++ storeLe16 h.headerSize ++
    storeLe32 h.generation ++ storeLe16 h.usedOffset ++ storeLe16 h.bankSize ++
    storeLe16 h.recordCount ++ storeLe16 h.bodyCrc ++ storeLe16 h.reserved2 ++
    storeLe16 h.headerCrc

def decodeBankHeader (m : Image) : BankHeader where
  magic := loadLe32 m 0
  version := m 4
  reserved := m 5
  headerSize := loadLe16 m 6
  generation := loadLe32 m 8
  usedOffset := loadLe16 m 12
  bankSize := loadLe16 m 14
  recordCount := loadLe16 m 16
  bodyCrc := loadLe16 m 18
  reserved2 := loadLe16 m 20
  headerCrc := loadLe16 m 22

def encodeRecordHeader (h : RecordHeader) : List UInt8 :=
  storeLe16 h.magic ++ storeLe16 h.key ++ [h.type, h.flags] ++ storeLe16 h.len ++
    storeLe32 h.seq ++ storeLe16 h.payloadCrc ++ storeLe16 h.headerCrc

def decodeRecordHeader (m : Image) (offset : ℕ) : RecordHeader where
  magic := loadLe16 m offset
  key := loadLe16 m (offset+2)
  type := m (offset+4)
  flags := m (offset+5)
  len := loadLe16 m (offset+6)
  seq := loadLe32 m (offset+8)
  payloadCrc := loadLe16 m (offset+12)
  headerCrc := loadLe16 m (offset+14)

def bankHeaderCrc (h : BankHeader) : UInt16 :=
  crc16 ((encodeBankHeader { h with headerCrc := 0 }).take (KV_BANK_HDR_SIZE-2))

def recordHeaderCrc (h : RecordHeader) : UInt16 :=
  crc16 ((encodeRecordHeader { h with headerCrc := 0 }).take (KV_REC_HDR_SIZE-2))

def difference (a b : ℕ) : Checked ℕ := if b ≤ a then narrow 16 (a-b) else .error .narrowed

def inside (size offset length : ℕ) : Checked Unit :=
  if offset+length ≤ size then .ok () else .error .outOfBounds

def fetch (size : ℕ) (m : Image) (offset length : ℕ) : Checked (List UInt8) := do
  inside size offset length
  pure (slice m offset length)

def put (size : ℕ) (m : Image) (offset : ℕ) (bytes : List UInt8) : Checked Image := do
  inside size offset bytes.length
  pure (write m offset bytes)

def fetchRecordHeader (size : ℕ) (m : Image) (offset : ℕ) : Checked RecordHeader := do
  inside size offset KV_REC_HDR_SIZE
  pure (decodeRecordHeader m offset)

def fetchLe16 (size : ℕ) (m : Image) (offset : ℕ) : Checked UInt16 := do
  inside size offset 2
  pure (loadLe16 m offset)

def validateBankHeader (cfg : Config) (m : Image) (expectedBankSize : ℕ) : Option BankHeader :=
  let header := decodeBankHeader m
  if header.magic ≠ KV_BANK_MAGIC ∨
      (header.version ≠ KV_BANK_VERSION ∧ header.version ≠ KV_BANK_VERSION_NO_LOG) ∨
      header.headerSize.toNat ≠ KV_BANK_HDR_SIZE ∨ header.bankSize.toNat ≠ expectedBankSize ∨
      header.usedOffset.toNat < cfg.publishSize ∨ expectedBankSize < header.usedOffset.toNat then
    none
  else if bankHeaderCrc header ≠ header.headerCrc then none
  else some header

def headerRefused (record : RecordHeader) (offset limit : ℕ) (allowCommit : Bool) : Prop :=
  record.magic ≠ KV_REC_MAGIC ∨ record.flags ≠ 0 ∨
    (¬ (record.type = KV_REC_TYPE_COMMIT ∧ record.len.toNat = KV_COMMIT_LEN ∧ allowCommit = true) ∧
      recordTypeValid record.type record.len = false) ∨
    record.headerCrc ≠ recordHeaderCrc record ∨ limit < offset+recordSize record.len.toNat

instance (record : RecordHeader) (offset limit : ℕ) (allowCommit : Bool) :
    Decidable (headerRefused record offset limit allowCommit) := by
  unfold headerRefused
  infer_instance

def recordValid (size : ℕ) (m : Image) (offset limit : ℕ) (allowCommit : Bool) :
    Checked (Option RecordHeader) :=
  if limit < offset+KV_REC_OVERHEAD then pure none
  else do
    let record ← fetchRecordHeader size m offset
    if headerRefused record offset limit allowCommit then pure none
    else do
      let payloadOffset ← narrow 16 (offset+KV_REC_HDR_SIZE)
      let payload ← fetch size m payloadOffset record.len.toNat
      if crc16 payload ≠ record.payloadCrc then pure none
      else do
        let footer ← fetchLe16 size m (payloadOffset+record.len.toNat)
        if footer ≠ KV_REC_FOOTER then pure none else pure (some record)

def bytesErased (size : ℕ) (m : Image) (offset length : ℕ) : Checked Bool := do
  let bytes ← fetch size m offset length
  pure (bytes.all fun b => b = 0xFF)

def writeRecord (size : ℕ) (m : Image) (offset : ℕ) (key : UInt16) (type : UInt8)
    (data : List UInt8) (seq : UInt32) : Checked Image := do
  let payloadOffset ← narrow 16 (offset+KV_REC_HDR_SIZE)
  let len ← narrow 16 data.length
  let m ← put size m payloadOffset data
  let payload ← fetch size m payloadOffset len
  let record : RecordHeader :=
    ⟨KV_REC_MAGIC, key, type, 0, UInt16.ofNat len, seq, crc16 payload, 0⟩
  let m ← put size m offset
    (encodeRecordHeader { record with headerCrc := recordHeaderCrc record })
  put size m (payloadOffset+len) (storeLe16 KV_REC_FOOTER)

end JaszczurHal.KvRecord

namespace JaszczurHal.KvRecordSound
open ByteImage CheckedArith KvRecord

variable {size offset length : ℕ} {m : Image}

theorem safe_inside (h : offset+length ≤ size) : Safe (inside size offset length) fun _ => True :=
  ⟨(), by rw [inside, if_pos h], trivial⟩

theorem safe_fetch (h : offset+length ≤ size) :
    Safe (fetch size m offset length) fun bytes => bytes = slice m offset length := by
  apply safe_bind (safe_inside h)
  intro _ _
  exact safe_pure rfl

theorem safe_put {bytes : List UInt8} (h : offset+bytes.length ≤ size) :
    Safe (put size m offset bytes) fun m' => m' = write m offset bytes := by
  apply safe_bind (safe_inside h)
  intro _ _
  exact safe_pure rfl

theorem safe_fetchRecordHeader (h : offset+KV_REC_HDR_SIZE ≤ size) :
    Safe (fetchRecordHeader size m offset) fun record => record = decodeRecordHeader m offset := by
  apply safe_bind (safe_inside h)
  intro _ _
  exact safe_pure rfl

theorem safe_fetchLe16 (h : offset+2 ≤ size) :
    Safe (fetchLe16 size m offset) fun value => value = loadLe16 m offset := by
  apply safe_bind (safe_inside h)
  intro _ _
  exact safe_pure rfl

theorem safe_difference {a b : ℕ} (h : b ≤ a) (ha : a < 2^16) :
    Safe (difference a b) fun d => d = a-b := by
  rw [difference, if_pos h]
  exact safe_narrow (by omega)

structure Whole (m : Image) (offset : ℕ) (record : RecordHeader) : Prop where
  decoded : decodeRecordHeader m offset = record
  magic : record.magic = KV_REC_MAGIC
  flags : record.flags = 0
  headerCrc : record.headerCrc = recordHeaderCrc record
  payloadCrc : crc16 (slice m (offset+KV_REC_HDR_SIZE) record.len.toNat) = record.payloadCrc
  footer : loadLe16 m (offset+KV_REC_HDR_SIZE+record.len.toNat) = KV_REC_FOOTER

def Known (record : RecordHeader) : Prop := recordTypeValid record.type record.len = true

theorem known_not_commit {record : RecordHeader} (h : Known record) :
    record.type ≠ KV_REC_TYPE_COMMIT := by
  intro htype
  rw [Known, htype] at h
  exact Bool.false_ne_true h

structure Accepted (m : Image) (offset limit : ℕ) (allowCommit : Bool) (record : RecordHeader) :
    Prop where
  whole : Whole m offset record
  inside : offset+recordSize record.len.toNat ≤ limit
  known : Known record ∨ allowCommit = true ∧ record.type = KV_REC_TYPE_COMMIT ∧
    record.len.toNat = KV_COMMIT_LEN

theorem safe_recordValid {limit : ℕ} {allowCommit : Bool} (hlimit : limit ≤ size)
    (hsize : size < 2^16) : Safe (recordValid size m offset limit allowCommit) fun r =>
      ∀ record, r = some record → Accepted m offset limit allowCommit record := by
  have hheader : KV_REC_HDR_SIZE = 16 := rfl
  have hoverhead : KV_REC_OVERHEAD = 18 := rfl
  rw [recordValid]
  apply safe_ite
  · intro _
    exact safe_pure nofun
  · intro hroom
    apply safe_bind (safe_fetchRecordHeader (by omega))
    intro record hrecord
    apply safe_ite
    · intro _
      exact safe_pure nofun
    · intro hgood
      rw [headerRefused, not_or, not_or, not_or, not_or, not_not, not_not, not_not, not_lt] at hgood
      obtain ⟨hmagic, hflags, htype, hcrc, hinside⟩ := hgood
      have hlen : recordSize record.len.toNat = 18+record.len.toNat := rfl
      apply safe_bind (safe_narrow (by omega))
      intro payloadOffset hpayload
      subst hpayload
      apply safe_bind (safe_fetch (by omega))
      intro payload hdata
      subst hdata
      apply safe_ite
      · intro _
        exact safe_pure nofun
      · intro hsum
        apply safe_bind (safe_fetchLe16 (by omega))
        intro footer hfooter
        subst hfooter
        apply safe_ite
        · intro _
          exact safe_pure nofun
        · intro hend
          apply safe_pure
          intro record' hsome
          obtain rfl := Option.some.inj hsome
          constructor
          · exact ⟨hrecord.symm, hmagic, hflags, hcrc, not_not.mp hsum, not_not.mp hend⟩
          · exact hinside
          · by_cases hknown : Known record
            · exact Or.inl hknown
            · rw [not_and_or, not_not, Bool.not_eq_false] at htype
              rcases htype with hcommit | hvalid
              · exact Or.inr ⟨hcommit.2.2, hcommit.1, hcommit.2.1⟩
              · exact absurd hvalid hknown

inductive Chain (m : Image) : ℕ → ℕ → Prop
  | nil (offset : ℕ) : Chain m offset offset
  | cons {offset last : ℕ} {record : RecordHeader} : Whole m offset record → Known record →
    Chain m (offset+recordSize record.len.toNat) last → Chain m offset last

theorem Chain.append {a b c : ℕ} (h : Chain m a b) (h' : Chain m b c) : Chain m a c := by
  induction h with
  | nil offset => exact h'
  | cons hwhole hknown _ ih => exact .cons hwhole hknown (ih h')

theorem Chain.single {record : RecordHeader} (hwhole : Whole m offset record)
    (hknown : Known record) : Chain m offset (offset+recordSize record.len.toNat) :=
  .cons hwhole hknown (.nil _)

theorem Chain.le {a b : ℕ} (h : Chain m a b) : a ≤ b := by
  induction h with
  | nil => exact le_rfl
  | cons _ _ _ ih => omega

theorem encode_length (h : RecordHeader) : (encodeRecordHeader h).length = KV_REC_HDR_SIZE := rfl

theorem bankEncode_length (h : BankHeader) : (encodeBankHeader h).length = KV_BANK_HDR_SIZE := rfl

theorem decode_encode {h : RecordHeader}
    (hm : slice m offset KV_REC_HDR_SIZE = encodeRecordHeader h) :
    decodeRecordHeader m offset = h := by
  have hbytes : ∀ i < KV_REC_HDR_SIZE, m (offset+i) = (encodeRecordHeader h).getD i 0 := by
    rw [← encode_length h] at hm
    exact slice_eq_iff.mp hm
  have hhalf : ∀ i (v : UInt16), i+1 < KV_REC_HDR_SIZE →
      [(encodeRecordHeader h).getD i 0, (encodeRecordHeader h).getD (i+1) 0] = storeLe16 v →
      loadLe16 m (offset+i) = v := by
    intro i v hi hv
    apply loadLe16_store
    rw [← hv, ← hbytes i (by omega), ← hbytes (i+1) hi]
    rfl
  have hword : ∀ i (v : UInt32), i+3 < KV_REC_HDR_SIZE →
      [(encodeRecordHeader h).getD i 0, (encodeRecordHeader h).getD (i+1) 0,
        (encodeRecordHeader h).getD (i+2) 0, (encodeRecordHeader h).getD (i+3) 0] = storeLe32 v →
      loadLe32 m (offset+i) = v := by
    intro i v hi hv
    apply loadLe32_store
    rw [← hv, ← hbytes i (by omega), ← hbytes (i+1) (by omega), ← hbytes (i+2) (by omega),
      ← hbytes (i+3) hi]
    rfl
  obtain ⟨magic, key, type, flags, len, seq, payloadCrc, headerCrc⟩ := h
  rw [decodeRecordHeader]
  congr 1
  · exact hhalf 0 _ (by decide) rfl
  · exact hhalf 2 _ (by decide) rfl
  · exact hbytes 4 (by decide)
  · exact hbytes 5 (by decide)
  · exact hhalf 6 _ (by decide) rfl
  · exact hword 8 _ (by decide) rfl
  · exact hhalf 12 _ (by decide) rfl
  · exact hhalf 14 _ (by decide) rfl

def headerOf (key : UInt16) (type : UInt8) (data : List UInt8) (seq : UInt32) : RecordHeader :=
  let record : RecordHeader :=
    ⟨KV_REC_MAGIC, key, type, 0, UInt16.ofNat data.length, seq, crc16 data, 0⟩
  { record with headerCrc := recordHeaderCrc record }

structure Written (m : Image) (offset : ℕ) (key : UInt16) (type : UInt8) (data : List UInt8)
    (seq : UInt32) (m' : Image) : Prop where
  whole : Whole m' offset (headerOf key type data seq)
  payload : slice m' (offset+KV_REC_HDR_SIZE) data.length = data
  others : ∀ i, i < offset ∨ offset+recordSize data.length ≤ i → m' i = m i

theorem safe_writeRecord {key : UInt16} {type : UInt8} {data : List UInt8} {seq : UInt32}
    (h : offset+recordSize data.length ≤ size) (hsize : size < 2^16) :
    Safe (writeRecord size m offset key type data seq) (Written m offset key type data seq) := by
  have hheader : KV_REC_HDR_SIZE = 16 := rfl
  have hlen : recordSize data.length = 18+data.length := rfl
  have hfooter : (storeLe16 KV_REC_FOOTER).length = 2 := rfl
  rw [writeRecord]
  apply safe_bind (safe_narrow (by omega))
  intro payloadOffset hpayload
  subst hpayload
  apply safe_bind (safe_narrow (by omega))
  intro len hlength
  subst hlength
  apply safe_bind (safe_put (by omega))
  intro m1 hm1
  apply safe_bind (safe_fetch (by omega))
  intro payload hdata
  have hdata : payload = data := by rw [hdata, hm1, slice_write_self]
  subst hdata
  have hencoded : (encodeRecordHeader (headerOf key type payload seq)).length = 16 := rfl
  apply safe_bind (safe_put (by rw [encode_length]; omega))
  intro m2 hm2
  have hm2 : m2 = write m1 offset (encodeRecordHeader (headerOf key type payload seq)) := hm2
  apply safe_mono (safe_put (by omega))
  intro m3 hm3
  have hheaderKept : slice m3 offset KV_REC_HDR_SIZE =
      encodeRecordHeader (headerOf key type payload seq) := by
    rw [hm3, slice_write_disjoint (Or.inl (by omega)), hm2, hheader, ← hencoded, slice_write_self]
  have hpayloadKept : slice m3 (offset+KV_REC_HDR_SIZE) payload.length = payload := by
    rw [hm3, slice_write_disjoint (Or.inl (by omega)), hm2,
      slice_write_disjoint (Or.inr (by omega)), hm1, slice_write_self]
  have hlenOf : (headerOf key type payload seq).len.toNat = payload.length := by
    show (UInt16.ofNat payload.length).toNat = _
    rw [UInt16.toNat_ofNat']
    omega
  constructor
  · constructor
    · exact decode_encode hheaderKept
    · rfl
    · rfl
    · rfl
    · rw [hlenOf, hpayloadKept]
      rfl
    · rw [hlenOf]
      apply loadLe16_store
      rw [hm3]
      exact slice_write_self m2 _ (storeLe16 KV_REC_FOOTER)
  · exact hpayloadKept
  · intro i hi
    rw [hm3, hm2, hm1]
    rcases hi with hlow | hhigh
    · rw [write_of_lt (by omega), write_of_lt hlow, write_of_lt (by omega)]
    · rw [write_of_ge (by omega), write_of_ge (by omega), write_of_ge (by omega)]

end JaszczurHal.KvRecordSound
