import JaszczurHal.HalStatus
import JaszczurHal.KvRecordSound

/-!
# The key-value store

The active bank is kept in RAM. Its body and its log are replayed into an
index of the live records; mutations append records behind them, and when the
bank is full the live records are moved to its front. The medium appears as
the bytes that it reads and the statuses that it answers.
-/

set_option autoImplicit false

namespace JaszczurHal.KvStore
open ByteImage CheckedArith HalStatus KvRecord

structure Entry where
  inUse : Bool
  key : UInt16
  type : UInt8
  len : ℕ
  payloadOffset : ℕ
  seq : UInt32
  deriving DecidableEq, Repr

def emptyEntry : Entry := ⟨false, 0, 0, 0, 0, 0⟩

structure Meta where
  generation : UInt32
  usedOffset : ℕ
  recordCount : UInt16
  deriving DecidableEq, Repr

structure Store where
  ready : Bool
  autoCommit : Bool
  dirty : Bool
  needsPublish : Bool
  appendSize : ℕ
  flashEnd : ℕ
  base : ℕ
  bankSize : ℕ
  activeBank : ℕ
  usedOffset : ℕ
  recordCount : UInt16
  generation : UInt32
  nextSeq : UInt32
  bank : Image
  index : List Entry

structure Answers where
  append : Status
  regionErased : Status × Bool
  replace : Status

/-- The provider in use: the size of the medium and its granularities. An
appended range starts and ends on `appendSize`. -/
structure Provider where
  size : ℕ
  eraseSize : ℕ
  programSize : ℕ
  appendSize : ℕ
  size_positive : 0 < size
  size_fits : size ≤ 0xFFFF
  erase_positive : 0 < eraseSize
  program_positive : 0 < programSize
  append_positive : 0 < appendSize
  append_divides : appendSize ∣ eraseSize

def rpFlash (size : ℕ) (h : 0 < size) (hfits : size ≤ 0xFFFF) : Provider :=
  ⟨size, 4096, 256, 1, h, hfits, by decide, by decide, by decide, by decide⟩

def stm32Flash (size : ℕ) (h : 0 < size) (hfits : size ≤ 0xFFFF) : Provider :=
  ⟨size, 2048, 8, 8, h, hfits, by decide, by decide, by decide, by decide⟩

def at24c256 : Provider :=
  ⟨32768, 1, 1, 1, by decide, by decide, by decide, by decide, by decide, by decide⟩

def alignUp (appendSize value : ℕ) : ℕ := (value+appendSize-1)/appendSize*appendSize

def bankBase (s : Store) (bank : ℕ) : Checked ℕ := narrow 16 (s.base+bank*s.bankSize)

def scanBody (size : ℕ) (m : Image) (usedOffset : ℕ) :
    ℕ → ℕ → UInt16 → Checked (Option (ℕ × UInt16))
  | 0, _, _ => .error .unfinished
  | fuel+1, offset, records =>
    if offset < usedOffset then do
      match ← recordValid size m offset usedOffset false with
      | none => pure none
      | some record => do
        let next ← narrow 16 (offset+recordSize record.len.toNat)
        scanBody size m usedOffset fuel next (records+1)
    else pure (some (offset, records))

def validateBankBuffer (cfg : Config) (size : ℕ) (m : Image) : Checked (Option Meta) := do
  inside size 0 KV_BANK_HDR_SIZE
  match validateBankHeader cfg m size with
  | none => pure none
  | some header => do
    let bodySize ← difference header.usedOffset.toNat cfg.publishSize
    let body ← fetch size m cfg.publishSize bodySize
    if crc16 body ≠ header.bodyCrc then pure none
    else do
      match ← scanBody size m header.usedOffset.toNat (size+1) cfg.publishSize 0 with
      | none => pure none
      | some (offset, records) =>
        if offset ≠ header.usedOffset.toNat ∨ records ≠ header.recordCount then pure none
        else pure (some ⟨header.generation, header.usedOffset.toNat, header.recordCount⟩)

def indexFind (index : List Entry) (key : UInt16) : Option ℕ :=
  index.findIdx? fun e => e.inUse && decide (e.key = key)

def indexAlloc (index : List Entry) : Option ℕ := index.findIdx? fun e => !e.inUse

def release (index : List Entry) (i : ℕ) : List Entry :=
  index.modify i fun e => { e with inUse := false }

def indexSlot (index : List Entry) (key : UInt16) : Option ℕ :=
  match indexFind index key with
  | some i => some i
  | none => indexAlloc index

def applyRecord (index : List Entry) (record : RecordHeader) (payloadOffset : ℕ) :
    Option (List Entry) :=
  if record.type = KV_REC_TYPE_DELETE then
    match indexFind index record.key with
    | some i => some (release index i)
    | none => some index
  else (indexSlot index record.key).map fun i => index.set i
    ⟨true, record.key, record.type, record.len.toNat, payloadOffset, record.seq⟩

def indexApplyRange (last : ℕ) : ℕ → ℕ → Store → Checked (Status × Store)
  | 0, _, _ => .error .unfinished
  | fuel+1, offset, s =>
    if offset < last then do
      let record ← fetchRecordHeader s.bankSize s.bank offset
      let payloadOffset ← narrow 16 (offset+KV_REC_HDR_SIZE)
      match applyRecord s.index record payloadOffset with
      | none => pure (.enomem, s)
      | some index => do
        let next ← narrow 16 (offset+recordSize record.len.toNat)
        indexApplyRange last fuel next { s with index := index, nextSeq := record.seq+1 }
    else pure (.ok, s)

structure LogScan where
  store : Store
  committed : ℕ
  batch : ℕ
  offset : ℕ
  damaged : Bool

def commitRefused (s : Store) (batch offset : ℕ) : Checked Bool := do
  let payload := offset+KV_REC_HDR_SIZE
  let start ← fetchLe16 s.bankSize s.bank payload
  if start.toNat ≠ batch ∨ offset = batch then pure true
  else do
    let sum ← fetchLe16 s.bankSize s.bank (payload+2)
    let length ← difference offset batch
    let records ← fetch s.bankSize s.bank batch length
    pure (decide (sum ≠ crc16 records))

def scanBatches : ℕ → LogScan → Checked (Status × LogScan)
  | 0, _ => .error .unfinished
  | fuel+1, l =>
    let s := l.store
    if l.batch < s.bankSize then do
      let left ← difference s.bankSize l.offset
      if ← bytesErased s.bankSize s.bank l.offset left then
        pure (.ok, { l with damaged := decide (l.offset ≠ l.batch) })
      else do
        match ← recordValid s.bankSize s.bank l.offset s.bankSize true with
        | none => pure (.ok, { l with damaged := true })
        | some record => do
          let next ← narrow 16 (l.offset+recordSize record.len.toNat)
          if record.type ≠ KV_REC_TYPE_COMMIT then scanBatches fuel { l with offset := next }
          else if ← commitRefused s l.batch l.offset then pure (.ok, { l with damaged := true })
          else do
            let (status, s) ← indexApplyRange l.offset (s.bankSize+1) l.batch s
            if status ≠ .ok then pure (status, { l with store := s })
            else do
              let batch ← narrow 16 (alignUp s.appendSize next)
              scanBatches fuel { l with
                store := s, committed := next, batch := batch, offset := batch }
    else pure (.ok, l)

def scanLog (s : Store) (bodyEnd : ℕ) : Checked (Status × Store) := do
  let batch ← narrow 16 (alignUp s.appendSize bodyEnd)
  let (status, l) ← scanBatches (s.bankSize+2) ⟨s, bodyEnd, batch, batch, false⟩
  if status ≠ .ok then pure (status, l.store)
  else do
    let flashEnd ← narrow 16 (alignUp s.appendSize l.committed)
    pure (.ok, { l.store with
      flashEnd := flashEnd
      usedOffset := if l.damaged then l.committed else flashEnd
      needsPublish := l.damaged })

/-- The step of the insertion sort: `item` sinks below the entries behind it.
The sorted part is given from its end. -/
def insertEntry (index : List Entry) (item : ℕ) : List ℕ → List ℕ
  | [] => [item]
  | last :: rest =>
    if (index.getD item emptyEntry).payloadOffset < (index.getD last emptyEntry).payloadOffset then
      last :: insertEntry index item rest
    else item :: last :: rest

def liveOrder (index : List Entry) : List ℕ :=
  (((List.range index.length).filter fun i => (index.getD i emptyEntry).inUse).foldl
    (fun sorted item => insertEntry index item sorted) []).reverse

def moveRecord (size : ℕ) (state : Image × List Entry × ℕ) (i : ℕ) :
    Checked (Image × List Entry × ℕ) := do
  let (bank, index, destination) := state
  let entry ← readAt index i
  let data ← fetch size bank entry.payloadOffset entry.len
  let bank ← writeRecord size bank destination entry.key entry.type data entry.seq
  let payloadOffset ← narrow 16 (destination+KV_REC_HDR_SIZE)
  let next ← narrow 16 (destination+recordSize entry.len)
  pure (bank, index.set i { entry with payloadOffset := payloadOffset }, next)

def compact (cfg : Config) (s : Store) : Checked Store := do
  let order := liveOrder s.index
  let (bank, index, destination) ←
    order.foldlM (moveRecord s.bankSize) (s.bank, s.index, cfg.publishSize)
  pure { s with
    bank := bank
    index := index
    usedOffset := destination
    recordCount := UInt16.ofNat order.length
    needsPublish := true
    dirty := true }

def fill (size : ℕ) (m : Image) (offset length : ℕ) : Checked Image :=
  put size m offset (List.replicate length 0xFF)

def fillTail (size : ℕ) (m : Image) (offset : ℕ) : Checked Image :=
  if offset < size then fill size m offset (size-offset) else pure m

def prepareBankHeader (cfg : Config) (s : Store) (generation : UInt32) : Checked Store := do
  let bank ← fill s.bankSize s.bank 0 cfg.publishSize
  let bank ← fillTail s.bankSize bank s.usedOffset
  let bodySize ← difference s.usedOffset cfg.publishSize
  let body ← fetch s.bankSize bank cfg.publishSize bodySize
  let header : BankHeader :=
    ⟨KV_BANK_MAGIC, KV_BANK_VERSION, 0, UInt16.ofNat KV_BANK_HDR_SIZE, generation,
      UInt16.ofNat s.usedOffset, UInt16.ofNat s.bankSize, s.recordCount, crc16 body, 0, 0⟩
  let bank ← put s.bankSize bank 0
    (encodeBankHeader { header with headerCrc := bankHeaderCrc header })
  pure { s with bank := bank }

def publishFull (cfg : Config) (answers : Answers) (s : Store) : Checked (Status × Store) := do
  let destination := if s.activeBank = 0 then 1 else 0
  let generation := s.generation+1
  let s ← prepareBankHeader cfg s generation
  let _ ← bankBase s destination
  if answers.replace.isError then pure (answers.replace, s)
  else do
    let flashEnd ← narrow 16 (alignUp s.appendSize s.usedOffset)
    pure (.ok, { s with
      activeBank := destination
      generation := generation
      flashEnd := flashEnd
      usedOffset := flashEnd
      needsPublish := false
      dirty := false })

def commitRecordReserve (s : Store) : ℕ :=
  if s.needsPublish then 0 else recordSize KV_COMMIT_LEN+s.appendSize-1

def appendBatch (answers : Answers) (s : Store) : Checked (Status × Store) := do
  let batch := s.flashEnd
  let commit := s.usedOffset
  let last := alignUp s.appendSize (commit+recordSize KV_COMMIT_LEN)
  if s.bankSize < last then pure (.enomem, s)
  else do
    let length ← difference commit batch
    let records ← fetch s.bankSize s.bank batch length
    let payload := storeLe16 (UInt16.ofNat batch) ++ storeLe16 (crc16 records)
    let bank ← writeRecord s.bankSize s.bank commit 0 KV_REC_TYPE_COMMIT payload s.nextSeq
    let base ← bankBase s s.activeBank
    let _ ← narrow 16 (base+batch)
    let appended ← difference last batch
    let _ ← fetch s.bankSize bank batch appended
    if answers.append.isError then do
      let tail ← difference last commit
      let bank ← fill s.bankSize bank commit tail
      let refused := answers.regionErased.1 = .ok ∧ answers.regionErased.2 = true
      pure (answers.append, { s with
        bank := bank
        needsPublish := s.needsPublish || decide (¬ refused) })
    else do
      let flashEnd ← narrow 16 last
      pure (.ok, { s with
        bank := bank, flashEnd := flashEnd, usedOffset := flashEnd, dirty := false })

def compactAndPublish (cfg : Config) (answers : Answers) (s : Store) :
    Checked (Status × Store) := do
  let s ← compact cfg s
  publishFull cfg answers s

def commitStore (cfg : Config) (answers : Answers) (s : Store) : Checked (Status × Store) :=
  if s.dirty = false then pure (.ok, s)
  else if s.needsPublish then compactAndPublish cfg answers s
  else if s.usedOffset = s.flashEnd then pure (.ok, { s with dirty := false })
  else do
    let (status, s) ← appendBatch answers s
    if status ≠ .enomem ∧ status ≠ .estate then pure (status, s)
    else compactAndPublish cfg answers s

def finishMutation (cfg : Config) (answers : Answers) (s : Store) : Checked (Status × Store) :=
  let s := { s with dirty := true }
  if s.autoCommit then commitStore cfg answers s else pure (.ok, s)

def finishNoChange (cfg : Config) (answers : Answers) (s : Store) : Checked (Status × Store) :=
  if s.autoCommit && s.dirty then commitStore cfg answers s else pure (.ok, s)

def appendRecord (s : Store) (key : UInt16) (type : UInt8) (data : List UInt8) :
    Checked (Status × Store) := do
  let total := recordSize data.length
  if s.bankSize < s.usedOffset+total then pure (.enomem, s)
  else do
    let bank ← writeRecord s.bankSize s.bank s.usedOffset key type data s.nextSeq
    let usedOffset ← narrow 16 (s.usedOffset+total)
    pure (.ok, { s with
      bank := bank
      nextSeq := s.nextSeq+1
      usedOffset := usedOffset
      recordCount := s.recordCount+1 })

def compactedSize (cfg : Config) (index : List Entry) (skip : Option ℕ) : ℕ :=
  cfg.publishSize+(index.zipIdx.map fun (e, i) =>
    if e.inUse && decide (skip ≠ some i) then recordSize e.len else 0).sum

def without (s : Store) : Option ℕ → Store
  | none => s
  | some i => { s with index := release s.index i }

def ensureSpace (cfg : Config) (len : ℕ) (replaced : Option ℕ) (s : Store) :
    Checked (Status × Store) :=
  let required := recordSize len
  if s.usedOffset+required+commitRecordReserve s ≤ s.bankSize then pure (.ok, s)
  else if s.bankSize < compactedSize cfg s.index replaced+required then pure (.enomem, s)
  else do
    let s ← compact cfg (without s replaced)
    pure (.ok, s)

def unchanged (s : Store) (entry : Entry) (type : UInt8) (data : List UInt8) : Checked Bool :=
  if entry.type ≠ type ∨ entry.len ≠ data.length then pure false
  else do
    let stored ← fetch s.bankSize s.bank entry.payloadOffset entry.len
    pure (decide (stored = data))

def storeRecord (cfg : Config) (answers : Answers) (key : UInt16) (type : UInt8)
    (data : List UInt8) (s : Store) : Checked (Status × Store) := do
  let payloadOffset ← narrow 16 (s.usedOffset+KV_REC_HDR_SIZE)
  let (status, s) ← appendRecord s key type data
  if status.isError then pure (status, s)
  else
    match indexSlot s.index key with
    | none => .error .outOfBounds
    | some i => finishMutation cfg answers { s with
        index := s.index.set i ⟨true, key, type, data.length, payloadOffset, s.nextSeq-1⟩ }

def setChanged (cfg : Config) (answers : Answers) (key : UInt16) (type : UInt8)
    (data : List UInt8) (found : Option ℕ) (s : Store) : Checked (Status × Store) :=
  if found = none ∧ indexAlloc s.index = none then pure (.enomem, s)
  else do
    let (status, s) ← ensureSpace cfg data.length found s
    if status.isError then pure (status, s)
    else storeRecord cfg answers key type data s

def setBlob (cfg : Config) (answers : Answers) (key : UInt16) (type : UInt8) (data : List UInt8)
    (s : Store) : Checked (Status × Store) :=
  if s.bankSize < recordSize data.length+cfg.publishSize then pure (.eoverflow, s)
  else
    match indexFind s.index key with
    | none => setChanged cfg answers key type data none s
    | some i => do
      let entry ← readAt s.index i
      if ← unchanged s entry type data then finishNoChange cfg answers s
      else setChanged cfg answers key type data (some i) s

def deleteKey (cfg : Config) (answers : Answers) (key : UInt16) (s : Store) :
    Checked (Status × Store) :=
  match indexFind s.index key with
  | none => finishNoChange cfg answers s
  | some i => do
    let (status, s) ← ensureSpace cfg 0 (some i) s
    if status.isError then pure (status, s)
    else do
      let (status, s) ← appendRecord s key KV_REC_TYPE_DELETE []
      if status.isError then pure (status, s)
      else finishMutation cfg answers { s with index := release s.index i }

def generationNewer (lhs rhs : UInt32) : Bool := decide (0 < (lhs-rhs).toInt32)

def reset (cfg : Config) (s : Store) : Store where
  ready := false
  autoCommit := s.autoCommit
  dirty := false
  needsPublish := false
  appendSize := 1
  flashEnd := 0
  base := 0
  bankSize := 0
  activeBank := 0
  usedOffset := 0
  recordCount := 0
  generation := 0
  nextSeq := 1
  bank := fun _ => 0
  index := List.replicate cfg.maxKeys emptyEntry

/-- The medium while it is opened: what is in the two banks, the statuses of
the three reads, and what a failed one leaves in the buffer. -/
structure Medium where
  provider : Option Provider
  banks : ℕ → Image
  first : Status
  second : Status
  again : Status
  left : Image

def regionStatus (provider : Provider) (addr len publishSize : ℕ) : Status :=
  if len ≠ 0 ∧ (provider.size ≤ addr ∨ provider.size < addr+len) then .eoverflow
  else if len = 0 ∨ publishSize = 0 ∨ len ≤ publishSize ∨ addr%provider.eraseSize ≠ 0 ∨
      len%provider.eraseSize ≠ 0 ∨ addr%provider.programSize ≠ 0 ∨
      len%provider.programSize ≠ 0 ∨ publishSize%provider.programSize ≠ 0 then .einval
  else .ok

def geometry (cfg : Config) (provider : Option Provider) (baseAddr sizeBytes : ℕ) :
    Status × ℕ × ℕ :=
  if sizeBytes = 0 ∨ sizeBytes%2 ≠ 0 then (.einval, 0, 1)
  else
    let bankSize := sizeBytes/2
    if cfg.maxBankSize < bankSize ∨ bankSize < (cfg.publishSize+KV_REC_OVERHEAD)%2^16 then
      (.einval, 0, 1)
    else
      match provider with
      | none => (.euninit, 0, 1)
      | some provider =>
        if provider.size < baseAddr+sizeBytes then (.eoverflow, 0, 1)
        else
          let status := regionStatus provider baseAddr bankSize cfg.publishSize
          (status, bankSize, provider.appendSize)

def format (cfg : Config) (answers : Answers) (s : Store) : Checked (Status × Store) := do
  let bank ← fill s.bankSize s.bank 0 s.bankSize
  let (status, t) ← commitStore cfg answers { s with
    bank := bank
    index := List.replicate cfg.maxKeys emptyEntry
    activeBank := 1
    usedOffset := cfg.publishSize
    recordCount := 0
    generation := 0
    nextSeq := 1
    dirty := true
    needsPublish := true }
  if status.isError then pure (status, reset cfg t)
  else pure (.ok, { t with ready := true, dirty := false })

def activeOf (first second : Option Meta) : Option (ℕ × Meta) :=
  match first, second with
  | none, none => none
  | some a, none => some (0, a)
  | none, some b => some (1, b)
  | some a, some b => if generationNewer b.generation a.generation then some (1, b) else some (0, a)

def load (cfg : Config) (medium : Medium) (bank : ℕ) (active : Meta) (s : Store) :
    Checked (Status × Store) := do
  let _ ← bankBase s bank
  if medium.again.isError then pure (medium.again, reset cfg s)
  else do
    match ← validateBankBuffer cfg s.bankSize (medium.banks bank) with
    | none => pure (.eio, reset cfg s)
    | some _ => do
      let s := { s with
        bank := medium.banks bank
        activeBank := bank
        generation := active.generation
        usedOffset := active.usedOffset
        recordCount := active.recordCount
        nextSeq := 1
        index := List.replicate cfg.maxKeys emptyEntry }
      let (status, s) ← indexApplyRange active.usedOffset (s.bankSize+1) cfg.publishSize s
      if status ≠ .ok then pure (status, reset cfg s)
      else do
        let (status, s) ← scanLog s active.usedOffset
        if status.isError then pure (status, reset cfg s)
        else pure (.ok, { s with ready := true, dirty := false })

def openBanks (cfg : Config) (medium : Medium) (answers : Answers) (s : Store) :
    Checked (Status × Store) := do
  let _ ← bankBase s 0
  if medium.first.isError then pure (medium.first, { s with bank := medium.left })
  else do
    let first ← validateBankBuffer cfg s.bankSize (medium.banks 0)
    let _ ← bankBase s 1
    if medium.second.isError then pure (medium.second, { s with bank := medium.left })
    else do
      let second ← validateBankBuffer cfg s.bankSize (medium.banks 1)
      match activeOf first second with
      | none => format cfg answers { s with bank := medium.banks 1 }
      | some (bank, active) => load cfg medium bank active s

def initEx (cfg : Config) (medium : Medium) (answers : Answers) (baseAddr sizeBytes : ℕ)
    (s : Store) : Checked (Status × Store) :=
  let s := reset cfg s
  let (status, bankSize, appendSize) := geometry cfg medium.provider baseAddr sizeBytes
  if status ≠ .ok then pure (status, s)
  else openBanks cfg medium answers { s with
    base := baseAddr, bankSize := bankSize, appendSize := appendSize }

abbrev Payload : Type := { data : List UInt8 // data.length < 2^16 }

inductive Op where
  | init (medium : Medium) (baseAddr sizeBytes : UInt16)
  | setU32 (key : UInt16) (value : UInt32)
  | setBlob (key : UInt16) (data : Payload)
  | delete (key : UInt16)
  | gc
  | commit
  | setAutoCommit (enabled : Bool)

def whenReady (s : Store) (call : Checked (Status × Store)) : Checked (Status × Store) :=
  if s.ready then call else pure (.euninit, s)

def perform (cfg : Config) (s : Store) (answers : Answers) : Op → Checked (Status × Store)
  | .init medium baseAddr sizeBytes => initEx cfg medium answers baseAddr.toNat sizeBytes.toNat s
  | .setU32 key value =>
    whenReady s (setBlob cfg answers key KV_REC_TYPE_U32 (storeLe32 value) s)
  | .setBlob key data => whenReady s (setBlob cfg answers key KV_REC_TYPE_BLOB data.val s)
  | .delete key => whenReady s (deleteKey cfg answers key s)
  | .gc => whenReady s do
    let s ← compact cfg s
    if s.autoCommit then commitStore cfg answers s else pure (.ok, s)
  | .commit => whenReady s (commitStore cfg answers s)
  | .setAutoCommit enabled => pure (.ok, { s with autoCommit := enabled })

def initial (cfg : Config) : Store :=
  reset cfg ⟨false, true, false, false, 1, 0, 0, 0, 0, 0, 0, 0, 1, fun _ => 0, []⟩

def step (cfg : Config) (s : Store) (call : Answers × Op) : Checked Store := do
  let (_, s) ← perform cfg s call.1 call.2
  pure s

def run (cfg : Config) (calls : List (Answers × Op)) : Checked Store :=
  calls.foldlM (step cfg) (initial cfg)

end JaszczurHal.KvStore
