import JaszczurHal.GamepadParser
import JaszczurHal.ByteImage

/-!
# Gamepad input reports

The fields of a report are slices of one little-endian number. A report is
applied to a copy of the last snapshot, and changed snapshots go through a
ring of sixteen.
-/

set_option autoImplicit false

namespace JaszczurHal.GamepadReport
open HalStatus CheckedArith GamepadParser

def packedBytes (report : List UInt8) (byteOffset byteCount : ℕ) : Checked UInt64 :=
  (List.range byteCount).foldlM (fun packed index => do
    let byte ← readAt report (byteOffset+index)
    let shifted ← shiftLeft64 byte.toUInt64 (index*8)
    pure (packed ||| shifted)) 0

def fieldMask (bitSize : UInt8) : Checked UInt64 :=
  if bitSize = 32 then pure 0xFFFFFFFF
  else do
    let bit ← shiftLeft64 1 bitSize.toNat
    pure (bit-1)

def readUnsignedField (report : List UInt8) (bitPosition : ℕ) (bitSize : UInt8) :
    Checked UInt32 := do
  let byteOffset ← narrow 8 (bitPosition/8)
  let bitOffset ← narrow 8 (bitPosition%8)
  let byteCount ← narrow 8 ((bitOffset+bitSize.toNat+7)/8)
  let packed ← packedBytes report byteOffset byteCount
  let packed ← shiftRight64 packed bitOffset
  let mask ← fieldMask bitSize
  pure (packed &&& mask).toUInt32

def signExtend (value : UInt32) (bitSize : UInt8) : Checked Int32 :=
  if bitSize = 32 then pure value.toInt32
  else do
    let signBit ← shiftLeft32 1 (bitSize.toUInt32-1).toNat
    if value &&& signBit = 0 then pure value.toInt32
    else pure (value ||| ~~~(signBit-1)).toInt32

def normalizeAxis (value logicalMinimum logicalMaximum : Int32) : Checked Int16 := do
  let range ← signed 64 (logicalMaximum.toInt-logicalMinimum.toInt)
  let offset ← signed 64 (value.toInt-logicalMinimum.toInt)
  let product ← signed 64 (offset*65534)
  let quotient ← divide 64 product range
  let scaled ← signed 64 (quotient-32767)
  if scaled < -32767 then pure (-32767)
  else if 32767 < scaled then pure 32767
  else pure (Int16.ofInt scaled)

def dpadNone : UInt8 := 0
def dpadUp : UInt8 := 1
def dpadRight : UInt8 := 2
def dpadDown : UInt8 := 4
def dpadLeft : UInt8 := 8

def directions : List UInt8 :=
  [dpadUp, dpadUp ||| dpadRight, dpadRight, dpadRight ||| dpadDown, dpadDown,
    dpadDown ||| dpadLeft, dpadLeft, dpadLeft ||| dpadUp]

/-- The direction and whether the value is valid. The difference is formed in
32 bits. -/
def normalizeHat (value logicalMinimum logicalMaximum : Int32) (mainFlags : UInt8) :
    Checked (UInt8 × Bool) :=
  if value < logicalMinimum ∨ logicalMaximum < value then
    pure (dpadNone, decide (mainFlags &&& mainFlagNullState ≠ 0))
  else do
    let position ← signed 32 (value.toInt-logicalMinimum.toInt)
    if position < 0 ∨ 7 < position then pure (dpadNone, false)
    else do
      let direction ← readAt directions position.toNat
      pure (direction, true)

def headerBits (reportId : UInt16) : ℕ := if reportId = reportIdUndefined then 0 else 8

def readField (f : Field) (report : List UInt8) : Checked Int32 := do
  let bitPosition ← narrow 16 (f.bitPosition+headerBits f.reportId)
  let raw ← readUnsignedField report bitPosition f.bitSize
  if f.logicalMinimum < 0 then signExtend raw f.bitSize else pure raw.toInt32

def applyValue (s : Snapshot) (f : Field) (value : Int32) : Checked (Bool × Snapshot) :=
  if f.kind = .hat then do
    let (dpad, valid) ← normalizeHat value f.logicalMinimum f.logicalMaximum f.mainFlags
    pure (valid, { s with dpad := dpad })
  else if value < f.logicalMinimum ∨ f.logicalMaximum < value then pure (false, s)
  else if f.kind = .button then do
    let mask ← shiftLeft32 1 f.index
    pure (true, { s with
      buttons := if value ≠ 0 then s.buttons ||| mask else s.buttons &&& ~~~mask })
  else if f.logicalMaximum = f.logicalMinimum then pure (false, s)
  else do
    let axis ← normalizeAxis value f.logicalMinimum f.logicalMaximum
    let axes ← storeAt s.axes f.index axis
    let bit ← shiftLeft32 1 f.index
    pure (true, { s with axes := axes, axesPresent := s.axesPresent ||| bit.toUInt16 })

def applyField (s : Snapshot) (f : Field) (report : List UInt8) : Checked (Bool × Snapshot) := do
  let value ← readField f report
  applyValue s f value

/-- The loop of `parse_input`; it ends at the first field that is not valid. -/
def applyFields (reportId : UInt16) (report : List UInt8) :
    List Field → Snapshot → Checked (Bool × Snapshot)
  | [], s => pure (true, s)
  | f :: fields, s =>
    if f.reportId = reportId then do
      let (valid, s) ← applyField s f report
      if valid then applyFields reportId report fields s else pure (false, s)
    else applyFields reportId report fields s

def makeRoom (p : Parser) : Parser :=
  if p.queueCount = queueCapacity then
    { p with
      queueHead := 0
      queueCount := 0
      overflowPending := true
      diagnostics := { p.diagnostics with
        droppedSnapshots := p.diagnostics.droppedSnapshots+UInt32.ofNat p.queueCount
        lastStatus := .eoverflow
        lastRejectReason := .queueOverflow } }
  else p

def storeSnapshot (p : Parser) : Checked Parser := do
  let tail ← narrow 8 ((p.queueHead+p.queueCount)%queueCapacity)
  let queue ← storeAt p.queue tail p.current
  let queueCount ← narrow 8 (p.queueCount+1)
  pure { p with
    queue := queue
    queueCount := queueCount
    diagnostics := { p.diagnostics with
      queueHighWater := if p.diagnostics.queueHighWater < queueCount then queueCount
        else p.diagnostics.queueHighWater } }

def enqueueSnapshot (p : Parser) : Checked Parser := storeSnapshot (makeRoom p)

def cleared (s : Snapshot) : Snapshot :=
  { s with buttons := 0, axesPresent := 0, dpad := dpadNone, axes := Vector.replicate 9 0 }

def accepted (p : Parser) : Parser :=
  { p with diagnostics := { p.diagnostics with lastStatus := .ok, lastRejectReason := .none } }

def connectionOpened (p : Parser) : Checked (Status × Parser) :=
  if p.configured = false then pure (.euninit, p)
  else if p.current.connected then pure (.estate, p)
  else do
    let p ← enqueueSnapshot (accepted { p with current := { cleared p.current with
      generation := p.current.generation+1, connected := true } })
    pure (.ok, p)

def connectionClosed (p : Parser) : Checked (Status × Parser) :=
  if p.configured = false then pure (.euninit, p)
  else if p.current.connected = false then pure (.estate, p)
  else do
    let p ← enqueueSnapshot (accepted { p with
      current := { cleared p.current with connected := false } })
    pure (.ok, p)

def countReport (p : Parser) (length : ℕ) : Parser :=
  { p with diagnostics := { p.diagnostics with
      reportsReceived := p.diagnostics.reportsReceived+1
      reportBytes := if 0xFFFFFFFF-p.diagnostics.reportBytes.toNat < length then 0xFFFFFFFF
        else p.diagnostics.reportBytes+UInt32.ofNat length
      reportLengthHighWater := if p.diagnostics.reportLengthHighWater < length then atMost16 length
        else p.diagnostics.reportLengthHighWater } }

def acceptReport (p : Parser) (next : Snapshot) : Checked (Status × Parser) :=
  let p := { p with diagnostics := { p.diagnostics with
    reportsAccepted := p.diagnostics.reportsAccepted+1
    lastStatus := .ok
    lastRejectReason := .none } }
  if next = p.current then
    pure (.ok, { p with diagnostics := { p.diagnostics with
      duplicateReports := p.diagnostics.duplicateReports+1 } })
  else do
    let p ← enqueueSnapshot { p with
      current := next
      diagnostics := { p.diagnostics with stateChanges := p.diagnostics.stateChanges+1 } }
    pure (.ok, p)

def reportIdOf (p : Parser) (report : List UInt8) : Checked UInt16 :=
  if p.reportIdsDeclared then do
    let byte ← readAt report 0
    pure byte.toUInt16
  else pure reportIdUndefined

def parseFields (p : Parser) (reportId : UInt16) (report : List UInt8) :
    Checked (Status × Parser) := do
  let (valid, next) ← applyFields reportId report p.fields p.current
  if valid then acceptReport p next else pure (rejectReport p .eproto .reportValue)

def parseInput (p : Parser) (report : List UInt8) : Checked (Status × Parser) :=
  if report.length = 0 then pure (rejectReport p .einval .invalidArgument)
  else
    let p := countReport p report.length
    if p.configured = false then pure (rejectReport p .euninit .invalidArgument)
    else if p.current.connected = false then pure (rejectReport p .estate .disconnected)
    else if reportMax < report.length then pure (rejectReport p .eoverflow .reportTooLarge)
    else do
      let reportId ← reportIdOf p report
      match findReportLayout p.reportLayouts reportId with
      | none =>
        pure (rejectReport { p with diagnostics := { p.diagnostics with
          unknownReportIds := p.diagnostics.unknownReportIds+1 } } .enoent .unknownReportId)
      | some layout =>
        if report.length < layout.requiredBytes then
          pure (rejectReport { p with diagnostics := { p.diagnostics with
            truncatedReports := p.diagnostics.truncatedReports+1 } } .eproto .reportTooShort)
        else parseFields p reportId report

def next (p : Parser) : Checked (Status × Option Snapshot × Parser) :=
  if p.configured = false then pure (.euninit, none, p)
  else if p.overflowPending then pure (.eoverflow, none, { p with overflowPending := false })
  else if p.queueCount = 0 then pure (.eagain, none, p)
  else do
    let snapshot ← loadAt p.queue p.queueHead
    let queueHead ← narrow 8 ((p.queueHead+1)%queueCapacity)
    pure (.ok, some snapshot, { p with queueHead := queueHead, queueCount := p.queueCount-1 })

end JaszczurHal.GamepadReport
