import JaszczurHal.CanFrames
import JaszczurHal.Mcp2515Filters

/-!
# Frames in the memory of a controller

What each driver writes to send a frame and what it makes of the memory when
it receives one. A transmit object is read here as if it were a received one.
-/

set_option autoImplicit false

namespace JaszczurHal.CanObjects
open HalStatus ByteImage CanFrames

namespace Mcp251xfd

def flagsEsi : UInt32 := 0x100
def flagsFdf : UInt32 := 0x80
def flagsBrs : UInt32 := 0x40
def flagsRtr : UInt32 := 0x20
def flagsIde : UInt32 := 0x10

def objHeader : ℕ := 8

def roundToWord (len : ℕ) : ℕ := (len+3)/4*4

def encodeId (id : UInt32) (flags : UInt8) : UInt32 :=
  if has flags frameExtended then ((id >>> 18) &&& stdIdMask) ||| ((id &&& 0x3FFFF) <<< 11)
  else id &&& stdIdMask

def decodeId (rawId rawFlags : UInt32) : UInt32 :=
  if rawFlags &&& flagsIde ≠ 0 then
    ((rawId &&& stdIdMask) <<< 18) ||| ((rawId >>> 11) &&& 0x3FFFF)
  else rawId &&& stdIdMask

def encodeFlags (dlc flags : UInt8) : UInt32 :=
  (dlc &&& 0x0F).toUInt32 ||| (if has flags frameExtended then flagsIde else 0) |||
    (if has flags frameRtr then flagsRtr else 0) ||| (if has flags frameFd then flagsFdf else 0) |||
    (if has flags frameBrs then flagsBrs else 0) ||| (if has flags frameEsi then flagsEsi else 0)

def object (f : Frame) : Image :=
  let header := write (write (fun _ => 0) 0 (storeLe32 (encodeId f.id f.flags))) 4
    (storeLe32 (encodeFlags f.dlc f.flags))
  if ¬ has f.flags frameRtr ∧ 0 < f.len then
    write header objHeader (slice f.data 0 f.len.toNat)
  else header

def objectLength (f : Frame) : ℕ :=
  if ¬ has f.flags frameRtr ∧ 0 < f.len then objHeader+roundToWord (dlcToBytes f.dlc).toNat
  else objHeader

def sendFrame (ram : Image) (address : ℕ) (f : Frame) : Image :=
  write ram address (slice (object f) 0 (objectLength f))

def decodeFlags (rawFlags : UInt32) : UInt8 :=
  (if rawFlags &&& flagsIde ≠ 0 then frameExtended else 0) |||
    (if rawFlags &&& flagsRtr ≠ 0 then frameRtr else 0) |||
    (if rawFlags &&& flagsFdf ≠ 0 then frameFd else 0) |||
    (if rawFlags &&& flagsBrs ≠ 0 then frameBrs else 0) |||
    (if rawFlags &&& flagsEsi ≠ 0 then frameEsi else 0)

/-- The length code; in a classic frame 9 to 15 mean eight bytes. -/
def decodeDlc (rawFlags : UInt32) : UInt8 :=
  let dlc := (rawFlags &&& 0x0F).toUInt8
  if ¬ has (decodeFlags rawFlags) frameFd ∧ maxDataLen < dlc then maxDataLen else dlc

def decodeObject (obj : Image) : Frame :=
  let rawFlags := loadLe32 obj 4
  let len := dlcToBytes (decodeDlc rawFlags)
  { id := decodeId (loadLe32 obj 0) rawFlags
    flags := decodeFlags rawFlags
    dlc := decodeDlc rawFlags
    len
    data := fun i =>
      if ¬ has (decodeFlags rawFlags) frameRtr ∧ i < len.toNat then obj (objHeader+i) else 0 }

def receiveFrame (ram : Image) (address : ℕ) : Except Status Frame :=
  let f := decodeObject fun i => ram (address+i)
  if frameValid f then .ok f else .error .eio

end Mcp251xfd

namespace Fdcan

def elemEsi : UInt32 := 0x80000000
def elemXtd : UInt32 := 0x40000000
def elemRtr : UInt32 := 0x20000000
def elemFdf : UInt32 := 0x200000
def elemBrs : UInt32 := 0x100000
def elemEfc : UInt32 := 0x800000

abbrev Ram := ℕ → UInt32

def frameHeader0 (id : UInt32) (flags : UInt8) : UInt32 :=
  (if has flags frameExtended then (id &&& extIdMask) ||| elemXtd
    else (id &&& stdIdMask) <<< 18) |||
    (if has flags frameRtr then elemRtr else 0) ||| (if has flags frameEsi then elemEsi else 0)

def frameHeader1 (dlc flags : UInt8) : UInt32 :=
  (dlc &&& 0x0F).toUInt32 <<< 16 ||| (if has flags frameBrs then elemBrs else 0) |||
    (if has flags frameFd then elemFdf else 0)

def decodeId (h0 : UInt32) : UInt32 :=
  if h0 &&& elemXtd ≠ 0 then h0 &&& extIdMask else (h0 >>> 18) &&& stdIdMask

def decodeFlags (h0 h1 : UInt32) : UInt8 :=
  (if h0 &&& elemXtd ≠ 0 then frameExtended else 0) |||
    (if h0 &&& elemRtr ≠ 0 then frameRtr else 0) |||
    (if h0 &&& elemEsi ≠ 0 then frameEsi else 0) |||
    (if h1 &&& elemFdf ≠ 0 then frameFd else 0) |||
    (if h1 &&& elemBrs ≠ 0 then frameBrs else 0)

def decodeDlc (h0 h1 : UInt32) : UInt8 :=
  let dlc := ((h1 >>> 16) &&& 0x0F).toUInt8
  if ¬ has (decodeFlags h0 h1) frameFd ∧ 8 < dlc then 8 else dlc

/-- The bytes of a payload; a last word that they do not fill has zeros. -/
def padded (data : Image) (len : ℕ) : Image := fun i => if i < len then data i else 0

def writePayload (ram : Ram) (word : ℕ) (data : Image) (len : ℕ) : Ram := fun w =>
  if word ≤ w ∧ w < word+(len+3)/4 then loadLe32 (padded data len) (4*(w-word)) else ram w

def readPayload (ram : Ram) (word : ℕ) (len : ℕ) : Image := fun i =>
  if i < len then (storeLe32 (ram (word+i/4))).getD (i%4) 0 else 0

def writeTxElement (ram : Ram) (elem : ℕ) (f : Frame) (event : Option UInt32) : Ram :=
  let marker := match event with
    | none => 0
    | some index => elemEfc ||| index <<< 24
  let ram := Function.update ram elem (frameHeader0 f.id f.flags)
  let ram := Function.update ram (elem+1) (frameHeader1 f.dlc f.flags ||| marker)
  if has f.flags frameRtr then ram else writePayload ram (elem+2) f.data f.len.toNat

def readRxElement (ram : Ram) (elem : ℕ) : Frame :=
  let h0 := ram elem
  let h1 := ram (elem+1)
  let len := dlcToBytes (decodeDlc h0 h1)
  { id := decodeId h0
    flags := decodeFlags h0 h1
    dlc := decodeDlc h0 h1
    len
    data :=
      if has (decodeFlags h0 h1) frameRtr then fun _ => 0
      else readPayload ram (elem+2) len.toNat }

end Fdcan

namespace Mcp2515

def canIsExtended : UInt32 := 0x80000000
def canIsRemoteRequest : UInt32 := 0x40000000
def rtrMask : UInt8 := 0x40
def dlcMask : UInt8 := 0x0F
def exideMask : UInt8 := 0x08

/-- The message that the driver holds: `m_nID`, `m_nRtr`, `m_nExtFlg`, `m_nDlc`
and `m_nDta`. -/
structure Message where
  id : UInt32
  rtr : Bool
  ext : Bool
  dlc : UInt8
  data : Image

def setMsg (id : UInt32) (rtr ext : Bool) (len : UInt8) (buf : Image) : Message :=
  let dlc := if 8 < len then 8 else len
  { id, rtr, ext, dlc, data := fun i => if i < dlc.toNat then buf i else 0 }

def sendMsgBuf (id : UInt32) (len : UInt8) (buf : Image) : Message :=
  let ext := id &&& canIsExtended = canIsExtended
  let id := if ext then id &&& ~~~canIsExtended else id
  let rtr := id &&& canIsRemoteRequest = canIsRemoteRequest
  let id := if rtr then id &&& ~~~canIsRemoteRequest else id
  setMsg id rtr ext len buf

def sendFrame (f : Frame) : Message :=
  let id := if has f.flags frameExtended then f.id ||| canIsExtended else f.id
  let id := if has f.flags frameRtr then id ||| canIsRemoteRequest else id
  let buf : Image := fun i =>
    if ¬ has f.flags frameRtr ∧ 0 < f.len ∧ i < f.len.toNat then f.data i else 0
  sendMsgBuf id f.len buf

def writeId (ext : Bool) (id : UInt32) : List UInt8 :=
  if ext then
    let image := Mcp2515Filters.encodeExtendedId id.toBitVec
    [.ofBitVec image.sidh, .ofBitVec image.sidl, .ofBitVec image.eid8, .ofBitVec image.eid0]
  else
    let canid := id.toUInt16
    [(canid >>> 3).toUInt8, ((canid &&& 0x07) <<< 5).toUInt8, 0, 0]

def writeCanMsg (registers : Image) (m : Message) : Image :=
  let registers := write registers 5 (slice m.data 0 m.dlc.toNat)
  let registers := write registers 4 [if m.rtr then m.dlc ||| rtrMask else m.dlc]
  write registers 0 (writeId m.ext m.id)

def decodeId (registers : Image) : Bool × UInt32 :=
  let sidl := registers 1
  let id := ((registers 0).toUInt32 <<< 3)+(sidl >>> 5).toUInt32
  if sidl &&& exideMask = exideMask then
    let id := (id <<< 2)+(sidl &&& 0x03).toUInt32
    let id := (id <<< 8)+(registers 2).toUInt32
    let id := (id <<< 8)+(registers 3).toUInt32
    (true, id)
  else (false, id)

def readRx (registers : Image) : Message :=
  let code := registers 4 &&& dlcMask
  let dlc := if 8 < code then 8 else code
  let ext := (decodeId registers).1
  { id := (decodeId registers).2
    ext
    rtr := if ext then registers 4 &&& rtrMask ≠ 0 else registers 1 &&& 0x10 ≠ 0
    dlc
    data := fun i => if i < dlc.toNat then registers (5+i) else 0 }

def receiveFrame (m : Message) : Frame :=
  let id := if m.rtr then m.id ||| canIsRemoteRequest else m.id
  let extended := id &&& canIsExtended ≠ 0 ∨ m.ext
  let id := if extended then id &&& ~~~canIsExtended else id
  let remote := id &&& canIsRemoteRequest ≠ 0
  let id := if remote then id &&& ~~~canIsRemoteRequest else id
  let len := if m.dlc < 8 then m.dlc else 8
  { id
    flags := (if extended then frameExtended else 0) ||| (if remote then frameRtr else 0)
    len
    dlc := len
    data := fun i => if i < len.toNat then m.data i else 0 }

end Mcp2515

end JaszczurHal.CanObjects
