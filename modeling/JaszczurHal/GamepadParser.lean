import JaszczurHal.HalStatus
import JaszczurHal.CheckedArith

/-!
# The HID gamepad parser

A report descriptor is read item by item into a list of fields and the sizes
of the reports; an input report is then read field by field. Every access,
shift and signed operation is checked, and so is every conversion that is not
meant to drop bits.
-/

set_option autoImplicit false

namespace JaszczurHal.GamepadParser
open HalStatus CheckedArith

def descriptorMax : ℕ := 256
def reportMax : ℕ := 32
def queueCapacity : ℕ := 16
def buttonCount : ℕ := 32
def axisCount : ℕ := 9
def fieldCapacity : ℕ := 48
def reportIdCapacity : ℕ := 8
def collectionDepthMax : ℕ := 8
def globalStackMax : ℕ := 4
def localUsageCapacity : ℕ := fieldCapacity
def reportIdUndefined : UInt16 := 0xFFFF

def usageJoystick : UInt16 := 0x04
def usageGamePad : UInt16 := 0x05
def usageX : UInt16 := 0x30
def usageWheel : UInt16 := 0x38
def usageHatSwitch : UInt16 := 0x39
def usagePageDesktop : UInt16 := 0x01
def usagePageButton : UInt16 := 0x09
def collectionApplication : UInt32 := 0x01
def mainFlagConstant : UInt32 := 1
def mainFlagVariable : UInt8 := 2
def mainFlagNullState : UInt8 := 64

inductive RejectReason where
  | none
  | invalidArgument
  | descriptorTooLarge
  | descriptorMalformed
  | unsupportedCollection
  | tooManyFields
  | tooManyReportIds
  | duplicateUsage
  | reportTooLarge
  | reportTooShort
  | unknownReportId
  | reportValue
  | disconnected
  | queueOverflow
  deriving DecidableEq, Repr

structure Diagnostics where
  descriptorsAccepted : UInt32
  descriptorsRejected : UInt32
  reportsReceived : UInt32
  reportsAccepted : UInt32
  reportsRejected : UInt32
  duplicateReports : UInt32
  stateChanges : UInt32
  ignoredUsages : UInt32
  unknownReportIds : UInt32
  truncatedReports : UInt32
  droppedSnapshots : UInt32
  reportBytes : UInt32
  descriptorLengthHighWater : ℕ
  reportLengthHighWater : ℕ
  queueHighWater : ℕ
  lastStatus : Status
  lastRejectReason : RejectReason
  deriving DecidableEq, Repr

inductive FieldKind where
  | button
  | axis
  | hat
  deriving DecidableEq, Repr

structure Field where
  logicalMinimum : Int32
  logicalMaximum : Int32
  reportId : UInt16
  bitPosition : ℕ
  bitSize : UInt8
  index : ℕ
  mainFlags : UInt8
  kind : FieldKind
  deriving DecidableEq, Repr

structure Layout where
  reportId : UInt16
  bitLength : ℕ
  requiredBytes : ℕ
  deriving DecidableEq, Repr

structure Snapshot where
  generation : UInt32
  buttons : UInt32
  axes : Vector Int16 9
  axesPresent : UInt16
  dpad : UInt8
  connected : Bool
  deriving DecidableEq, Repr

/-- `jh_bluetooth_gamepad_parser_t`; the two lists are the parts in use of its
arrays. -/
structure Parser where
  fields : List Field
  reportLayouts : List Layout
  queue : Vector Snapshot 16
  current : Snapshot
  diagnostics : Diagnostics
  queueHead : ℕ
  queueCount : ℕ
  configured : Bool
  reportIdsDeclared : Bool
  overflowPending : Bool
  deriving DecidableEq, Repr

def emptySnapshot : Snapshot := ⟨0, 0, Vector.replicate 9 0, 0, 0, false⟩

def init : Parser where
  fields := []
  reportLayouts := []
  queue := Vector.replicate 16 emptySnapshot
  current := emptySnapshot
  diagnostics := ⟨0, 0, 0, 0, 0, 0, 0, 0, 0, 0, 0, 0, 0, 0, 0, .none, .none⟩
  queueHead := 0
  queueCount := 0
  configured := false
  reportIdsDeclared := false
  overflowPending := false

structure Globals where
  logicalMinimum : Int32
  logicalMaximum : Int32
  usagePage : UInt16
  reportId : UInt16
  reportSize : UInt8
  reportCount : UInt8
  deriving DecidableEq, Repr

structure Item where
  value : UInt32
  signedValue : Int32
  dataSize : ℕ
  type : UInt8
  tag : UInt8
  deriving DecidableEq, Repr

structure Locals where
  usages : List UInt32
  usageMinimum : UInt32
  usageMaximum : UInt32
  haveUsageMinimum : Bool
  haveUsageMaximum : Bool
  deriving DecidableEq, Repr

structure UsageField where
  usagePage : UInt16
  usage : UInt16
  reportId : UInt16
  bitPosition : ℕ
  logicalMinimum : Int32
  logicalMaximum : Int32
  bitSize : UInt8
  mainFlags : UInt8

def rejectDescriptor (p : Parser) (status : Status) (reason : RejectReason) : Status × Parser :=
  (status, { p with
    configured := false
    diagnostics := { p.diagnostics with
      descriptorsRejected := p.diagnostics.descriptorsRejected+1
      lastStatus := status
      lastRejectReason := reason } })

def rejectReport (p : Parser) (status : Status) (reason : RejectReason) : Status × Parser :=
  (status, { p with
    diagnostics := { p.diagnostics with
      reportsRejected := p.diagnostics.reportsRejected+1
      lastStatus := status
      lastRejectReason := reason } })

def findReportLayout (layouts : List Layout) (reportId : UInt16) : Option Layout :=
  layouts.find? fun l => l.reportId = reportId

def getReportLayout (p : Parser) (reportId : UInt16) : Checked (Option (Layout × Parser)) :=
  match findReportLayout p.reportLayouts reportId with
  | some layout => pure (some (layout, p))
  | none =>
    if p.reportLayouts.length ≥ reportIdCapacity then pure none
    else do
      let layouts ← appendAt reportIdCapacity p.reportLayouts ⟨reportId, 0, 0⟩
      pure (some (⟨reportId, 0, 0⟩, { p with reportLayouts := layouts }))

def updateLayout (reportId : UInt16) (f : Layout → Layout) : List Layout → List Layout
  | [] => []
  | l :: layouts => if l.reportId = reportId then f l :: layouts
      else l :: updateLayout reportId f layouts

def sizes : List ℕ := [0, 1, 2, 4]

def itemValue (descriptor : List UInt8) (position dataSize : ℕ) : Checked (UInt32 × ℕ) :=
  (List.range dataSize).foldlM (fun (value, position) index => do
    let byte ← readAt descriptor position
    let position ← narrow 16 (position+1)
    let shifted ← shiftLeft32 byte.toUInt32 (index*8)
    pure (value ||| shifted, position)) (0, position)

def itemSigned (value : UInt32) (dataSize : ℕ) : Checked Int32 :=
  if 0 < dataSize ∧ dataSize < 4 then do
    let bitCount ← narrow 8 (dataSize*8)
    let signBit ← shiftLeft32 1 (bitCount-1)
    if value &&& signBit ≠ 0 then pure (value ||| ~~~(signBit-1)).toInt32
    else pure value.toInt32
  else pure value.toInt32

def shortItem (descriptor : List UInt8) (prefixByte : UInt8) (position : ℕ) :
    Checked (Option (Item × ℕ)) := do
  let dataSize ← readAt sizes (prefixByte &&& 3).toNat
  if position+dataSize > descriptor.length then pure none
  else do
    let (value, position) ← itemValue descriptor position dataSize
    let signedValue ← itemSigned value dataSize
    pure (some (⟨value, signedValue, dataSize, prefixByte >>> 2 &&& 3, prefixByte >>> 4⟩, position))

/-- `next_item`: the item and the position behind it, or nothing where the
descriptor is cut short. Long items are passed over. -/
def nextItem (descriptor : List UInt8) : ℕ → ℕ → Checked (Option (Item × ℕ))
  | 0, _ => .error .unfinished
  | fuel+1, position =>
    if position < descriptor.length then do
      let prefixByte ← readAt descriptor position
      let position ← narrow 16 (position+1)
      if prefixByte = 0xFE then
        if position+2 > descriptor.length then pure none
        else do
          let dataSize ← readAt descriptor position
          let position ← narrow 16 (position+1)
          let position ← narrow 16 (position+1)
          if position+dataSize.toNat > descriptor.length then pure none
          else do
            let position ← narrow 16 (position+dataSize.toNat)
            nextItem descriptor fuel position
      else shortItem descriptor prefixByte position
    else pure (some (⟨0, 0, 0, 3, 0⟩, position))

def localUsageValue (item : Item) (usagePage : UInt16) : UInt32 :=
  if item.dataSize > 2 then item.value
  else usagePage.toUInt32 <<< 16 ||| item.value &&& 0xFFFF

def resetLocals : Locals := ⟨[], 0, 0, false, false⟩

def acceptedApplicationUsage (usage : UInt32) : Bool :=
  decide ((usage >>> 16).toUInt16 = usagePageDesktop) &&
    (decide (usage.toUInt16 = usageGamePad) || decide (usage.toUInt16 = usageJoystick))

def localUsageAt (l : Locals) (index : ℕ) : Checked (Option UInt32) :=
  if index < l.usages.length then some <$> readAt l.usages index
  else if l.haveUsageMinimum && l.haveUsageMaximum && decide (l.usageMinimum ≤ l.usageMaximum) then
    let available := l.usageMaximum-l.usageMinimum+1
    pure (some (l.usageMinimum+
      (if UInt32.ofNat index < available then UInt32.ofNat index else available-1)))
  else if 0 < l.usages.length then some <$> readAt l.usages (l.usages.length-1)
  else pure none

def axisIndexForUsage (usage : UInt16) : Option ℕ :=
  if usage < usageX ∨ usageWheel < usage then none
  else if (usage-usageX).toNat < axisCount then some (usage-usageX).toNat
  else none

def mappedField (item : UsageField) : Option (FieldKind × ℕ) :=
  if item.usagePage = usagePageButton ∧ 1 ≤ item.usage.toNat ∧ item.usage.toNat ≤ buttonCount then
    some (.button, item.usage.toNat-1)
  else if item.usagePage ≠ usagePageDesktop then none
  else if item.usage = usageHatSwitch then some (.hat, 0)
  else (axisIndexForUsage item.usage).map fun index => (.axis, index)

def duplicateField (fields : List Field) (kind : FieldKind) (index : ℕ) : Bool :=
  fields.any fun f => decide (f.kind = kind) && decide (f.index = index)

def ignoreUsages (p : Parser) (count : UInt32) : Parser :=
  { p with diagnostics := { p.diagnostics with
      ignoredUsages := p.diagnostics.ignoredUsages+count } }

def appendField (p : Parser) (item : UsageField) : Checked (Status × Parser) :=
  match mappedField item with
  | none => pure (.ok, ignoreUsages p 1)
  | some (kind, index) =>
    if item.bitSize = 0 ∨ 32 < item.bitSize ∨ item.logicalMaximum < item.logicalMinimum then
      pure (.eproto, p)
    else if duplicateField p.fields kind index then pure (.eexist, p)
    else if p.fields.length ≥ fieldCapacity then pure (.eoverflow, p)
    else do
      let fields ← appendAt fieldCapacity p.fields
        { logicalMinimum := item.logicalMinimum
          logicalMaximum := item.logicalMaximum
          reportId := item.reportId
          bitPosition := item.bitPosition
          bitSize := item.bitSize
          index := index
          mainFlags := item.mainFlags
          kind := kind }
      pure (.ok, { p with fields := fields })

def collectFrom (g : Globals) (l : Locals) (bitPosition : ℕ) (mainFlags : UInt8) :
    ℕ → ℕ → Parser → Checked (Status × Parser)
  | 0, _, p => pure (.ok, p)
  | left+1, index, p => do
    match ← localUsageAt l index with
    | none => collectFrom g l bitPosition mainFlags left (index+1) (ignoreUsages p 1)
    | some usage => do
      let offset ← narrow 16 (index*g.reportSize.toNat)
      let position ← narrow 16 (bitPosition+offset)
      let (status, p) ← appendField p
        { usagePage := (usage >>> 16).toUInt16
          usage := usage.toUInt16
          reportId := g.reportId
          bitPosition := position
          logicalMinimum := g.logicalMinimum
          logicalMaximum := g.logicalMaximum
          bitSize := g.reportSize
          mainFlags := mainFlags }
      if status = .ok then collectFrom g l bitPosition mainFlags left (index+1) p
      else pure (status, p)

def collectInputFields (p : Parser) (g : Globals) (l : Locals) (bitPosition : ℕ)
    (mainFlags : UInt8) : Checked (Status × Parser) :=
  if mainFlags &&& mainFlagVariable = 0 then
    pure (.ok, ignoreUsages p g.reportCount.toUInt32)
  else collectFrom g l bitPosition mainFlags g.reportCount.toNat 0 p

/-- The locals of `parse_descriptor`; `accepted` is as long as the collections
are deep. -/
structure Scan where
  parser : Parser
  position : ℕ
  globals : Globals
  globalStack : List Globals
  locals : Locals
  accepted : List Bool
  foundGamepad : Bool
  inputWithoutId : Bool
  inputWithId : Bool
  rejectReason : RejectReason

def Scan.setGlobals (s : Scan) (g : Globals) : Scan := { s with globals := g }

def globalItem (item : Item) (s : Scan) : Checked (Status × Scan) :=
  match item.tag.toNat with
  | 0 => -- usage page
    if 0xFFFF < item.value then pure (.eproto, s)
    else pure (.ok, s.setGlobals { s.globals with usagePage := item.value.toUInt16 })
  | 1 => pure (.ok, s.setGlobals { s.globals with logicalMinimum := item.signedValue })
  | 2 => pure (.ok, s.setGlobals { s.globals with logicalMaximum := item.signedValue })
  | 7 => -- report size
    if item.value = 0 ∨ 32 < item.value then pure (.eproto, s)
    else pure (.ok, s.setGlobals { s.globals with reportSize := item.value.toUInt8 })
  | 8 => -- report id
    if item.value = 0 ∨ 0xFF < item.value then pure (.eproto, s)
    else pure (.ok, { s with
      globals := { s.globals with reportId := item.value.toUInt16 }
      parser := { s.parser with reportIdsDeclared := true } })
  | 9 => -- report count
    if item.value = 0 ∨ 0xFF < item.value then pure (.eproto, s)
    else pure (.ok, s.setGlobals { s.globals with reportCount := item.value.toUInt8 })
  | 10 => -- push
    if s.globalStack.length ≥ globalStackMax then pure (.eoverflow, s)
    else do
      let stack ← appendAt globalStackMax s.globalStack s.globals
      pure (.ok, { s with globalStack := stack })
  | 11 => -- pop
    if s.globalStack.length = 0 then pure (.eproto, s)
    else do
      let g ← readAt s.globalStack (s.globalStack.length-1)
      pure (.ok, { s with globals := g, globalStack := s.globalStack.dropLast })
  | 3 | 4 | 5 | 6 => pure (.ok, s)
  | _ => pure (.eproto, s)

def localItem (item : Item) (s : Scan) : Checked (Status × Scan) :=
  let usage := localUsageValue item s.globals.usagePage
  match item.tag.toNat with
  | 0 =>
    if s.locals.usages.length ≥ localUsageCapacity then pure (.eoverflow, s)
    else do
      let usages ← appendAt localUsageCapacity s.locals.usages usage
      pure (.ok, { s with locals := { s.locals with usages := usages } })
  | 1 => pure (.ok, { s with
      locals := { s.locals with usageMinimum := usage, haveUsageMinimum := true } })
  | 2 => pure (.ok, { s with
      locals := { s.locals with usageMaximum := usage, haveUsageMaximum := true } })
  | _ => pure (.ok, s)

def insideGamepad (s : Scan) : Checked Bool :=
  if 0 < s.accepted.length then readAt s.accepted (s.accepted.length-1) else pure false

def finishMain (status : Status) (s : Scan) : Status × Scan :=
  (status, { s with
    locals := resetLocals
    rejectReason := if status = .eoverflow then .tooManyFields
      else if status = .eexist then .duplicateUsage
      else s.rejectReason })

def collectionUsage (l : Locals) : Checked (Option UInt32) :=
  if 0 < l.usages.length then some <$> readAt l.usages (l.usages.length-1) else localUsageAt l 0

def collectionItem (item : Item) (s : Scan) : Checked (Status × Scan) :=
  if s.accepted.length ≥ collectionDepthMax then pure (.eoverflow, s)
  else do
    let usage ← collectionUsage s.locals
    let parentAccepted ← insideGamepad s
    let thisAccepted := parentAccepted || (decide (item.value = collectionApplication) &&
      (usage.map acceptedApplicationUsage).getD false)
    let accepted ← appendAt collectionDepthMax s.accepted thisAccepted
    pure (finishMain .ok { s with
      accepted := accepted, foundGamepad := s.foundGamepad || thisAccepted })

def inputFields (item : Item) (s : Scan) (bitPosition : ℕ) (inside : Bool) (p : Parser) :
    Checked (Status × Parser) :=
  if inside && decide (item.value &&& mainFlagConstant = 0) then
    collectInputFields p s.globals s.locals bitPosition item.value.toUInt8
  else pure (.ok, p)

def inputItem (item : Item) (s : Scan) : Checked (Status × Scan) :=
  if s.globals.reportSize = 0 ∨ s.globals.reportCount = 0 then pure (.eproto, s)
  else
    let withoutId := s.inputWithoutId || decide (s.globals.reportId = reportIdUndefined)
    let withId := s.inputWithId || decide (s.globals.reportId ≠ reportIdUndefined)
    let s := { s with inputWithoutId := withoutId, inputWithId := withId }
    if withId && withoutId then pure (.eproto, s)
    else do
      match ← getReportLayout s.parser s.globals.reportId with
      | none => pure (.eoverflow, { s with rejectReason := .tooManyReportIds })
      | some (layout, parser) =>
        let totalBits := layout.bitLength+s.globals.reportSize.toNat*s.globals.reportCount.toNat
        let totalBytes := (totalBits+7)/8+
          (if s.globals.reportId = reportIdUndefined then 0 else 1)
        if 0xFFFF < totalBits ∨ reportMax < totalBytes then
          pure (.eoverflow, { s with parser := parser })
        else do
          let inside ← insideGamepad s
          let (mainStatus, parser) ← inputFields item s layout.bitLength inside parser
          let bitLength ← narrow 16 totalBits
          let requiredBytes ← narrow 8 totalBytes
          pure (finishMain mainStatus { s with parser := { parser with
            reportLayouts := updateLayout s.globals.reportId
              (fun l => { l with bitLength := bitLength, requiredBytes := requiredBytes })
              parser.reportLayouts } })

def mainItem (item : Item) (s : Scan) : Checked (Status × Scan) :=
  match item.tag.toNat with
  | 10 => collectionItem item s
  | 12 =>
    if s.accepted.length = 0 then pure (.eproto, s)
    else pure (finishMain .ok { s with accepted := s.accepted.dropLast })
  | 8 => inputItem item s
  | _ => pure (finishMain .ok s)

def handleItem (item : Item) (s : Scan) : Checked (Status × Scan) :=
  match item.type.toNat with
  | 1 => globalItem item s
  | 2 => localItem item s
  | 0 => mainItem item s
  | _ => pure (.ok, s)

def closeDescriptor (s : Scan) : Status × Scan :=
  if s.accepted.length ≠ 0 ∨ s.globalStack.length ≠ 0 then (.eproto, s)
  else if s.foundGamepad = false ∨ s.parser.fields.length = 0 then
    (.eunsupported, { s with rejectReason := .unsupportedCollection })
  else (if s.parser.reportLayouts.length = 0 then .eproto else .ok, s)

def parseItems (descriptor : List UInt8) : ℕ → Scan → Checked (Status × Scan)
  | 0, _ => .error .unfinished
  | fuel+1, s =>
    if s.position < descriptor.length then do
      match ← nextItem descriptor (descriptor.length+1) s.position with
      | none => pure (.eproto, s)
      | some (item, position) => do
        let (status, s) ← handleItem item { s with position := position }
        if status = .ok then parseItems descriptor fuel s else pure (status, s)
    else pure (closeDescriptor s)

def startScan (p : Parser) : Scan where
  parser := p
  position := 0
  globals := ⟨0, 0, 0, reportIdUndefined, 0, 0⟩
  globalStack := []
  locals := resetLocals
  accepted := []
  foundGamepad := false
  inputWithoutId := false
  inputWithId := false
  rejectReason := .descriptorMalformed

def parseDescriptor (p : Parser) (descriptor : List UInt8) : Checked (Status × Scan) :=
  parseItems descriptor (descriptor.length+1) (startScan p)

def atMost16 (n : ℕ) : ℕ := if 0xFFFF < n then 0xFFFF else n

/-- `jh_bluetooth_gamepad_parser_configure`; it begins with `init`. -/
def configure (descriptor : List UInt8) : Checked (Status × Parser) :=
  if descriptor.length = 0 then pure (rejectDescriptor init .einval .invalidArgument)
  else
    let p := { init with diagnostics := { init.diagnostics with
      descriptorLengthHighWater := atMost16 descriptor.length } }
    if descriptor.length > descriptorMax then
      pure (rejectDescriptor p .eoverflow .descriptorTooLarge)
    else do
      let (status, s) ← parseDescriptor p descriptor
      if status ≠ .ok then pure (rejectDescriptor s.parser status s.rejectReason)
      else pure (.ok, { s.parser with
        configured := true
        diagnostics := { s.parser.diagnostics with
          descriptorsAccepted := s.parser.diagnostics.descriptorsAccepted+1
          lastStatus := .ok
          lastRejectReason := .none } })

end JaszczurHal.GamepadParser
