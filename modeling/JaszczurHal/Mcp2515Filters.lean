import JaszczurHal.HalStatus
import Mathlib.Tactic

/-!
# Acceptance filters of the MCP2515

The chip has two masks and six filters, and every filter is always active.
`begin` leaves all of them at zero; a call of `hal_can_set_filter` writes one
filter and the mask of its group. A frame is received when it passes one of
the six.
-/

set_option autoImplicit false

namespace JaszczurHal.Mcp2515Filters
open HalStatus

abbrev Registers := ℕ → BitVec 8

def rxb0Ctrl : ℕ := 0x60
def rxb1Ctrl : ℕ := 0x70

def filterAddress : ℕ → ℕ
  | 0 => 0x00
  | 1 => 0x04
  | 2 => 0x08
  | 3 => 0x10
  | 4 => 0x14
  | _ => 0x18

def maskAddress : ℕ → ℕ
  | 0 => 0x20
  | _ => 0x24

def rxMask : BitVec 8 := 0x60
def rxAny : BitVec 8 := 0x60
def rxStdExt : BitVec 8 := 0x00
def buktMask : BitVec 8 := 0x04

def setRegister (r : Registers) (address : ℕ) (value : BitVec 8) : Registers :=
  fun i => if i = address then value else r i

def modifyRegister (r : Registers) (address : ℕ) (mask data : BitVec 8) : Registers :=
  setRegister r address ((r address &&& ~~~mask) ||| (data &&& mask))

structure Image where
  sidh : BitVec 8
  sidl : BitVec 8
  eid8 : BitVec 8
  eid0 : BitVec 8
  deriving DecidableEq, Repr

def setRegisterS (r : Registers) (address : ℕ) (image : Image) : Registers := fun i =>
  if i = address then image.sidh
  else if i = address+1 then image.sidl
  else if i = address+2 then image.eid8
  else if i = address+3 then image.eid0
  else r i

def encodeExtendedId (id : BitVec 32) : Image :=
  let low := id.setWidth 16
  let high := (id >>> 16).setWidth 16
  { eid0 := low.setWidth 8
    eid8 := (low >>> 8).setWidth 8
    sidl := ((high &&& 0x03).setWidth 8+((high &&& 0x1C) <<< 3).setWidth 8) ||| 0x08
    sidh := (high >>> 5).setWidth 8 }

def encodeStandardId (id : BitVec 32) : Image :=
  let low := id.setWidth 16
  let high := (id >>> 16).setWidth 16
  { eid0 := low.setWidth 8
    eid8 := (low >>> 8).setWidth 8
    sidl := ((high &&& 0x07) <<< 5).setWidth 8
    sidh := (high >>> 3).setWidth 8 }

def writeMf (r : Registers) (address : ℕ) (ext : Bool) (id : BitVec 32) : Registers :=
  setRegisterS r address (if ext then encodeExtendedId id else encodeStandardId id)

def clearTransmit (r : Registers) : Registers :=
  (List.range 14).foldl (fun r i =>
    setRegister (setRegister (setRegister r (0x30+i) 0) (0x40+i) 0) (0x50+i) 0) r

def initCanBuffers (r : Registers) : Registers :=
  let r := writeMf (writeMf r (maskAddress 0) true 0) (maskAddress 1) true 0
  let r := writeMf (writeMf r (filterAddress 0) true 0) (filterAddress 1) false 0
  let r := writeMf (writeMf r (filterAddress 2) true 0) (filterAddress 3) false 0
  let r := writeMf (writeMf r (filterAddress 4) true 0) (filterAddress 5) false 0
  setRegister (setRegister (clearTransmit r) rxb0Ctrl 0) rxb1Ctrl 0

def beginAny (r : Registers) : Registers :=
  modifyRegister
    (modifyRegister (initCanBuffers r) rxb0Ctrl (rxMask ||| buktMask) (rxAny ||| buktMask))
    rxb1Ctrl rxMask rxAny

structure Filter where
  id : BitVec 32
  mask : BitVec 32
  flags : BitVec 8
  deriving DecidableEq, Repr

def filterExtended : BitVec 8 := 0x01
def stdIdMask : BitVec 32 := 0x7FF
def extIdMask : BitVec 32 := 0x1FFFFFFF

def Filter.extended (f : Filter) : Bool := f.flags &&& filterExtended != 0

def validateFilter (f : Filter) : Status :=
  let idMask := if f.extended then extIdMask else stdIdMask
  if f.flags &&& ~~~filterExtended ≠ 0 ∨ f.id > idMask ∨ f.mask > idMask then .einval else .ok

structure Modes where
  maskEnters : Bool
  maskLeaves : Bool
  filterEnters : Bool
  filterLeaves : Bool
  deriving DecidableEq, Repr

def initMask (r : Registers) (num : ℕ) (ext : Bool) (data : BitVec 32) (enters leaves : Bool) :
    Registers × Status :=
  if enters = false then (r, .etimeout)
  else
    let written := if num = 0 ∨ num = 1 then writeMf r (maskAddress num) ext data else r
    (written, if leaves = true ∧ (num = 0 ∨ num = 1) then .ok else .etimeout)

def initFilt (r : Registers) (num : ℕ) (ext : Bool) (data : BitVec 32) (enters leaves : Bool) :
    Registers × Status :=
  if enters = false then (r, .etimeout)
  else
    let written :=
      if num < 6 then
        modifyRegister
          (modifyRegister (writeMf r (filterAddress num) ext data) rxb0Ctrl rxMask rxStdExt)
          rxb1Ctrl rxMask rxStdExt
      else r
    (written, if leaves = true ∧ num < 6 then .ok else .etimeout)

def maskGroup (index : ℕ) : ℕ := if index < 2 then 0 else 1

def mcp2515SetFilter (r : Registers) (index : ℕ) (f : Filter) (m : Modes) : Registers × Status :=
  let ext := f.extended
  let id := if ext then f.id &&& extIdMask else (f.id &&& stdIdMask) <<< 16
  let mask := if ext then f.mask &&& extIdMask else (f.mask &&& stdIdMask) <<< 16
  let masked := initMask r (maskGroup index) ext mask m.maskEnters m.maskLeaves
  if masked.2 = .ok then initFilt masked.1 index ext id m.filterEnters m.filterLeaves else masked

def maxFilters : ℕ := 6

def halCanSetFilter (r : Registers) (index : ℕ) (f : Filter) (m : Modes) : Registers × Status :=
  if validateFilter f ≠ .ok then (r, .einval)
  else if index < maxFilters then mcp2515SetFilter r index f m
  else (r, .einval)

structure Call where
  index : ℕ
  filter : Filter
  modes : Modes
  deriving DecidableEq, Repr

def setFilters (r : Registers) (calls : List Call) : Registers :=
  calls.foldl (fun r c => (halCanSetFilter r c.index c.filter c.modes).1) r

inductive FrameId where
  | std (id : BitVec 11)
  | ext (id : BitVec 29)
  deriving DecidableEq, Repr

/-- An arriving frame. The chip compares the first two data bytes of a standard
frame with the lower part of a filter, where the frame has them. -/
structure Frame where
  id : FrameId
  leading : Option (BitVec 16)
  deriving DecidableEq, Repr

def Image.bits (i : Image) : BitVec 29 :=
  ((i.sidh ++ i.sidl.extractLsb' 5 3) ++ ((i.sidl.extractLsb' 0 2 ++ i.eid8) ++ i.eid0)).cast
    (by decide)

def Image.extended (i : Image) : Bool := i.sidl.getLsbD 3

def imageAt (r : Registers) (address : ℕ) : Image :=
  ⟨r address, r (address+1), r (address+2), r (address+3)⟩

def agrees (extended : Bool) (bits mask : BitVec 29) : FrameId → Bool
  | .std id => !extended && ((id ^^^ bits.extractLsb' 18 11) &&& mask.extractLsb' 18 11 == 0)
  | .ext id => extended && ((id ^^^ bits) &&& mask == 0)

def dataAgrees (bits mask : BitVec 29) (f : Frame) : Bool :=
  match f.id, f.leading with
  | .std _, some d => (d ^^^ bits.extractLsb' 0 16) &&& mask.extractLsb' 0 16 == 0
  | _, _ => true

def passes (filter mask : Image) (f : Frame) : Bool :=
  agrees filter.extended filter.bits mask.bits f.id && dataAgrees filter.bits mask.bits f

def filtersOff (r : Registers) (ctrl : ℕ) : Bool := r ctrl &&& rxMask == rxAny

def passesFilter (r : Registers) (f : Frame) (index : ℕ) : Bool :=
  passes (imageAt r (filterAddress index)) (imageAt r (maskAddress (maskGroup index))) f

def entersRxb0 (r : Registers) (f : Frame) : Bool :=
  filtersOff r rxb0Ctrl || [0, 1].any (passesFilter r f)

def entersRxb1 (r : Registers) (f : Frame) : Bool :=
  filtersOff r rxb1Ctrl || [2, 3, 4, 5].any (passesFilter r f)

def received (r : Registers) (f : Frame) : Bool := entersRxb0 r f || entersRxb1 r f

/-- The slots that were set, with the kind and the identifier bits of each, and
the mask that each group was given last. -/
structure Slots where
  slot : ℕ → Option (Bool × BitVec 29)
  mask : ℕ → Option (BitVec 29)

def emptySlots : Slots := ⟨fun _ => none, fun _ => none⟩

def aligned (ext : Bool) (id : BitVec 32) : BitVec 29 :=
  if ext then id.setWidth 29 else id.setWidth 11 ++ (0 : BitVec 18)

def Slots.setMask (s : Slots) (group : ℕ) (mask : BitVec 29) : Slots :=
  { s with mask := fun g => if g = group then some mask else s.mask g }

def Slots.setSlot (s : Slots) (index : ℕ) (entry : Bool × BitVec 29) : Slots :=
  { s with slot := fun i => if i = index then some entry else s.slot i }

def Slots.set (s : Slots) (c : Call) : Slots :=
  if validateFilter c.filter = .ok ∧ c.index < maxFilters ∧ c.modes.maskEnters = true then
    let t := s.setMask (maskGroup c.index) (aligned c.filter.extended c.filter.mask)
    if c.modes.maskLeaves = true ∧ c.modes.filterEnters = true then
      t.setSlot c.index (c.filter.extended, aligned c.filter.extended c.filter.id)
    else t
  else s

def slotsAfter (calls : List Call) : Slots := calls.foldl Slots.set emptySlots

def Slots.groupMask (s : Slots) (index : ℕ) : BitVec 29 := (s.mask (maskGroup index)).getD 0

def Slots.Wanted (s : Slots) (f : Frame) : Prop :=
  ∃ i < maxFilters, ∃ entry, s.slot i = some entry ∧
    agrees entry.1 entry.2 (s.groupMask i) f.id = true

def undisturbed (mask : BitVec 29) (f : Frame) : Bool := dataAgrees 0 mask f

/-- The frame matches a slot that has been set, data bytes included. -/
def Slots.Kept (s : Slots) (f : Frame) : Prop :=
  ∃ i < maxFilters, ∃ entry, s.slot i = some entry ∧
    agrees entry.1 entry.2 (s.groupMask i) f.id = true ∧ undisturbed (s.groupMask i) f = true

/-- The frame has no identifier bit under the mask of a slot that was never
set, and is of the kind that slot has after `begin`: extended for the even ones. -/
def Slots.Stray (s : Slots) (f : Frame) : Prop :=
  ∃ i < maxFilters, s.slot i = none ∧
    agrees (i%2 == 0) 0 (s.groupMask i) f.id = true ∧ undisturbed (s.groupMask i) f = true

def Slots.AnySet (s : Slots) : Prop := ∃ i < maxFilters, s.slot i ≠ none

/-- A slot has been set. A frame that matches one is not disturbed in its data
bytes, or is a stray one, and a frame that matches none is no stray one. -/
def Slots.Exact (s : Slots) (f : Frame) : Prop :=
  s.AnySet ∧ (s.Wanted f ∧ (s.Kept f ∨ s.Stray f) ∨ ¬ s.Wanted f ∧ ¬ s.Stray f)

theorem sidl_disjoint (high : BitVec 16) :
    (high &&& 0x03).setWidth 8 &&& ((high &&& 0x1C) <<< 3).setWidth 8 = (0 : BitVec 8) := by
  ext i hi
  interval_cases i <;> simp

theorem encodeExtendedId_bits (id : BitVec 32) : (encodeExtendedId id).bits = id.setWidth 29 := by
  unfold encodeExtendedId Image.bits
  dsimp only
  rw [BitVec.add_eq_or_of_and_eq_zero _ _ (sidl_disjoint _)]
  apply BitVec.eq_of_getLsbD_eq
  intro i hi
  simp only [BitVec.getLsbD_cast, BitVec.getLsbD_append, BitVec.getLsbD_extractLsb']
  interval_cases i <;> simp

theorem encodeExtendedId_extended (id : BitVec 32) : (encodeExtendedId id).extended = true := by
  unfold encodeExtendedId Image.extended
  dsimp only
  rw [BitVec.add_eq_or_of_and_eq_zero _ _ (sidl_disjoint _)]
  simp

theorem encodeStandardId_bits (id : BitVec 32) :
    (encodeStandardId ((id &&& stdIdMask) <<< 16)).bits = id.setWidth 11 ++ (0 : BitVec 18) := by
  unfold encodeStandardId Image.bits stdIdMask
  dsimp only
  apply BitVec.eq_of_getLsbD_eq
  intro i hi
  simp only [BitVec.getLsbD_cast, BitVec.getLsbD_append, BitVec.getLsbD_extractLsb']
  interval_cases i <;> simp

theorem encodeStandardId_extended (id : BitVec 32) : (encodeStandardId id).extended = false := by
  unfold encodeStandardId Image.extended
  simp

def placed (ext : Bool) (id : BitVec 32) : BitVec 32 :=
  if ext then id &&& extIdMask else (id &&& stdIdMask) <<< 16

def encodeId (ext : Bool) (id : BitVec 32) : Image :=
  if ext then encodeExtendedId id else encodeStandardId id

theorem encodeId_placed (ext : Bool) (id : BitVec 32) :
    (encodeId ext (placed ext id)).bits = aligned ext id ∧
      (encodeId ext (placed ext id)).extended = ext := by
  cases ext with
  | true =>
    refine ⟨?_, encodeExtendedId_extended _⟩
    refine (encodeExtendedId_bits (id &&& extIdMask)).trans ?_
    show (id &&& extIdMask).setWidth 29 = id.setWidth 29
    ext i hi
    interval_cases i <;> simp [extIdMask]
  | false => exact ⟨encodeStandardId_bits id, encodeStandardId_extended _⟩

theorem imageAt_same (r : Registers) (address : ℕ) (image : Image) :
    imageAt (setRegisterS r address image) address = image := by
  simp [imageAt, setRegisterS]

theorem imageAt_other {r : Registers} {address other : ℕ} {image : Image}
    (h : address+4 ≤ other ∨ other+4 ≤ address) :
    imageAt (setRegisterS r address image) other = imageAt r other := by
  have hkeep : ∀ k < 4, setRegisterS r address image (other+k) = r (other+k) := by
    intro k hk
    rw [setRegisterS, if_neg (by omega), if_neg (by omega), if_neg (by omega), if_neg (by omega)]
  have hzero := hkeep 0 (by omega)
  rw [Nat.add_zero] at hzero
  rw [imageAt, hzero, hkeep 1 (by omega), hkeep 2 (by omega), hkeep 3 (by omega)]
  rfl

theorem imageAt_modify {r : Registers} {ctrl address : ℕ} {mask data : BitVec 8}
    (h : address+3 < ctrl) :
    imageAt (modifyRegister r ctrl mask data) address = imageAt r address := by
  have hkeep : ∀ i < ctrl, modifyRegister r ctrl mask data i = r i := by
    intro i hi
    rw [modifyRegister, setRegister, if_neg (by omega)]
  rw [imageAt, hkeep _ (by omega), hkeep _ (by omega), hkeep _ (by omega), hkeep _ (by omega)]
  rfl

theorem filtersOff_write {r : Registers} {address ctrl : ℕ} {image : Image}
    (h : address+4 ≤ ctrl) :
    filtersOff (setRegisterS r address image) ctrl = filtersOff r ctrl := by
  rw [filtersOff, setRegisterS, if_neg (by omega), if_neg (by omega), if_neg (by omega),
    if_neg (by omega)]
  rfl

theorem writeMf_eq (r : Registers) (address : ℕ) (ext : Bool) (id : BitVec 32) :
    writeMf r address ext id = setRegisterS r address (encodeId ext id) := rfl

theorem maskGroup_lt (index : ℕ) : maskGroup index < 2 := by
  unfold maskGroup
  split <;> omega

theorem filterAddress_lt (index : ℕ) : filterAddress index+4 ≤ 0x20 := by
  unfold filterAddress
  split <;> omega

theorem maskAddress_bounds (group : ℕ) : 0x20 ≤ maskAddress group ∧ maskAddress group+4 ≤ 0x28 := by
  unfold maskAddress
  split <;> omega

theorem filterAddress_apart {i j : ℕ} (hi : i < maxFilters) (hj : j < maxFilters) (h : i ≠ j) :
    filterAddress i+4 ≤ filterAddress j ∨ filterAddress j+4 ≤ filterAddress i := by
  have hall : ∀ i < 6, ∀ j < 6, i ≠ j →
      filterAddress i+4 ≤ filterAddress j ∨ filterAddress j+4 ≤ filterAddress i := by decide
  exact hall i hi j hj h

theorem maskAddress_apart {g h : ℕ} (hg : g < 2) (hh : h < 2) (hne : g ≠ h) :
    maskAddress g+4 ≤ maskAddress h ∨ maskAddress h+4 ≤ maskAddress g := by
  have hall : ∀ g < 2, ∀ h < 2, g ≠ h →
      maskAddress g+4 ≤ maskAddress h ∨ maskAddress h+4 ≤ maskAddress g := by decide
  exact hall g hg h hh hne

def Slots.entry (s : Slots) (index : ℕ) : Bool × BitVec 29 :=
  (s.slot index).getD (index%2 == 0, 0)

structure Programmed (r : Registers) (s : Slots) : Prop where
  filters : ∀ i < maxFilters, ((imageAt r (filterAddress i)).extended,
    (imageAt r (filterAddress i)).bits) = s.entry i
  masks : ∀ g < 2, (imageAt r (maskAddress g)).bits = (s.mask g).getD 0
  off0 : filtersOff r rxb0Ctrl = true ↔ ¬ s.AnySet
  off1 : filtersOff r rxb1Ctrl = true ↔ ¬ s.AnySet
  short : ∀ i entry, s.slot i = some entry → entry.1 = false → entry.2.extractLsb' 0 16 = 0

theorem programmed_begin (r : Registers) : Programmed (beginAny r) emptySlots where
  filters := by
    intro i hi
    have h0 : imageAt (beginAny r) (filterAddress 0) = encodeExtendedId 0 := rfl
    have h1 : imageAt (beginAny r) (filterAddress 1) = encodeStandardId 0 := rfl
    have h2 : imageAt (beginAny r) (filterAddress 2) = encodeExtendedId 0 := rfl
    have h3 : imageAt (beginAny r) (filterAddress 3) = encodeStandardId 0 := rfl
    have h4 : imageAt (beginAny r) (filterAddress 4) = encodeExtendedId 0 := rfl
    have h5 : imageAt (beginAny r) (filterAddress 5) = encodeStandardId 0 := rfl
    unfold maxFilters at hi
    interval_cases i
    · rw [h0]; rfl
    · rw [h1]; rfl
    · rw [h2]; rfl
    · rw [h3]; rfl
    · rw [h4]; rfl
    · rw [h5]; rfl
  masks := by
    intro g hg
    have h0 : imageAt (beginAny r) (maskAddress 0) = encodeExtendedId 0 := rfl
    have h1 : imageAt (beginAny r) (maskAddress 1) = encodeExtendedId 0 := rfl
    interval_cases g
    · rw [h0]; rfl
    · rw [h1]; rfl
  off0 := by
    have hctrl : beginAny r rxb0Ctrl = ((0 &&& ~~~(rxMask ||| buktMask)) |||
      ((rxAny ||| buktMask) &&& (rxMask ||| buktMask))) := rfl
    refine ⟨fun _ ⟨i, _, hi⟩ => hi rfl, fun _ => ?_⟩
    rw [filtersOff, hctrl]
    decide
  off1 := by
    have hctrl : beginAny r rxb1Ctrl = ((0 &&& ~~~rxMask) ||| (rxAny &&& rxMask)) := rfl
    refine ⟨fun _ ⟨i, _, hi⟩ => hi rfl, fun _ => ?_⟩
    rw [filtersOff, hctrl]
    decide
  short := by
    intro i entry h
    cases h

theorem programmed_mask {r : Registers} {s : Slots} (h : Programmed r s) (index : ℕ) (ext : Bool)
    (mask : BitVec 32) :
    Programmed (writeMf r (maskAddress (maskGroup index)) ext (placed ext mask))
      (s.setMask (maskGroup index) (aligned ext mask)) := by
  obtain ⟨hlow, hhigh⟩ := maskAddress_bounds (maskGroup index)
  refine ⟨fun i hi => ?_, fun g hg => ?_, ?_, ?_, h.short⟩
  · have hfilter := filterAddress_lt i
    rw [writeMf_eq, imageAt_other (by omega)]
    exact h.filters i hi
  · rw [writeMf_eq]
    by_cases hsame : g = maskGroup index
    · rw [hsame, imageAt_same, (encodeId_placed ext mask).1]
      simp [Slots.setMask]
    · have hapart := maskAddress_apart (maskGroup_lt index) hg (Ne.symm hsame)
      rw [imageAt_other hapart, h.masks g hg]
      simp [Slots.setMask, hsame]
  · rw [writeMf_eq, filtersOff_write (by unfold rxb0Ctrl; omega)]
    exact h.off0
  · rw [writeMf_eq, filtersOff_write (by unfold rxb1Ctrl; omega)]
    exact h.off1

theorem filtersOff_cleared (r : Registers) (ctrl : ℕ) :
    filtersOff (modifyRegister r ctrl rxMask rxStdExt) ctrl = false := by
  rw [filtersOff, modifyRegister, setRegister, if_pos rfl]
  have hzero : (r ctrl &&& ~~~rxMask ||| rxStdExt &&& rxMask) &&& rxMask = 0 := by
    unfold rxMask rxStdExt
    ext i hi
    interval_cases i <;> simp
  rw [hzero]
  decide

theorem filtersOff_modify {r : Registers} {ctrl other : ℕ} {mask data : BitVec 8}
    (h : other ≠ ctrl) :
    filtersOff (modifyRegister r ctrl mask data) other = filtersOff r other := by
  rw [filtersOff, modifyRegister, setRegister, if_neg h]
  rfl

theorem anySet_setSlot {s : Slots} {index : ℕ} (h : index < maxFilters) (entry : Bool × BitVec 29) :
    (s.setSlot index entry).AnySet := by
  refine ⟨index, h, ?_⟩
  simp [Slots.setSlot]

theorem aligned_short (id : BitVec 32) : (aligned false id).extractLsb' 0 16 = 0 := by
  show (id.setWidth 11 ++ (0 : BitVec 18)).extractLsb' 0 16 = 0
  apply BitVec.eq_of_getLsbD_eq
  intro i hi
  simp only [BitVec.getLsbD_append, BitVec.getLsbD_extractLsb']
  interval_cases i <;> simp

theorem programmed_filter {r : Registers} {s : Slots} (h : Programmed r s) {index : ℕ}
    (hindex : index < maxFilters) (ext : Bool) (id : BitVec 32) :
    Programmed
      (modifyRegister (modifyRegister (writeMf r (filterAddress index) ext (placed ext id))
        rxb0Ctrl rxMask rxStdExt) rxb1Ctrl rxMask rxStdExt)
      (s.setSlot index (ext, aligned ext id)) := by
  have hwritten := filterAddress_lt index
  have hany := anySet_setSlot (s := s) hindex (ext, aligned ext id)
  refine ⟨fun i hi => ?_, fun g hg => ?_, ?_, ?_, fun i entry hentry hstd => ?_⟩
  · have hfilter := filterAddress_lt i
    rw [imageAt_modify (by unfold rxb1Ctrl; omega), imageAt_modify (by unfold rxb0Ctrl; omega),
      writeMf_eq]
    by_cases hsame : i = index
    · obtain ⟨hbits, hext⟩ := encodeId_placed ext id
      rw [hsame, imageAt_same, hbits, hext]
      simp [Slots.entry, Slots.setSlot]
    · rw [imageAt_other (filterAddress_apart hindex hi (Ne.symm hsame)), h.filters i hi]
      simp [Slots.entry, Slots.setSlot, hsame]
  · obtain ⟨hlow, hhigh⟩ := maskAddress_bounds g
    rw [imageAt_modify (by unfold rxb1Ctrl; omega), imageAt_modify (by unfold rxb0Ctrl; omega),
      writeMf_eq, imageAt_other (by omega)]
    exact h.masks g hg
  · rw [filtersOff_modify (by decide), filtersOff_cleared]
    exact iff_of_false Bool.false_ne_true (not_not_intro hany)
  · rw [filtersOff_cleared]
    exact iff_of_false Bool.false_ne_true (not_not_intro hany)
  · by_cases hsame : i = index
    · have hslot : entry = (ext, aligned ext id) := by
        simpa [Slots.setSlot, hsame] using hentry.symm
      subst hslot
      dsimp only at hstd ⊢
      rw [hstd]
      exact aligned_short id
    · apply h.short i entry ?_ hstd
      simpa [Slots.setSlot, hsame] using hentry

theorem initMask_slot (r : Registers) (index : ℕ) (ext : Bool) (data : BitVec 32)
    (enters leaves : Bool) :
    initMask r (maskGroup index) ext data enters leaves =
      if enters = true then
        (writeMf r (maskAddress (maskGroup index)) ext data,
          if leaves = true then Status.ok else Status.etimeout)
      else (r, Status.etimeout) := by
  have hgroup : maskGroup index = 0 ∨ maskGroup index = 1 := by
    have hlt := maskGroup_lt index
    omega
  cases enters with
  | false => rfl
  | true => simp [initMask, hgroup]

theorem initFilt_slot {index : ℕ} (h : index < maxFilters) (r : Registers) (ext : Bool)
    (data : BitVec 32) (enters leaves : Bool) :
    (initFilt r index ext data enters leaves).1 =
      if enters = true then
        modifyRegister (modifyRegister (writeMf r (filterAddress index) ext data) rxb0Ctrl rxMask
          rxStdExt) rxb1Ctrl rxMask rxStdExt
      else r := by
  cases enters with
  | false => rfl
  | true => simp [initFilt, show index < 6 from h]

theorem mcp2515SetFilter_registers {index : ℕ} (hindex : index < maxFilters) (r : Registers)
    (f : Filter) (m : Modes) :
    (mcp2515SetFilter r index f m).1 =
      if m.maskEnters = true then
        if m.maskLeaves = true ∧ m.filterEnters = true then
          modifyRegister (modifyRegister
            (writeMf (writeMf r (maskAddress (maskGroup index)) f.extended (placed f.extended f.mask))
              (filterAddress index) f.extended (placed f.extended f.id))
            rxb0Ctrl rxMask rxStdExt) rxb1Ctrl rxMask rxStdExt
        else writeMf r (maskAddress (maskGroup index)) f.extended (placed f.extended f.mask)
      else r := by
  have hcall : mcp2515SetFilter r index f m =
      if (initMask r (maskGroup index) f.extended (placed f.extended f.mask) m.maskEnters
        m.maskLeaves).2 = .ok then
        initFilt (initMask r (maskGroup index) f.extended (placed f.extended f.mask) m.maskEnters
          m.maskLeaves).1 index f.extended (placed f.extended f.id) m.filterEnters m.filterLeaves
      else initMask r (maskGroup index) f.extended (placed f.extended f.mask) m.maskEnters
        m.maskLeaves := rfl
  rw [hcall, initMask_slot]
  by_cases henters : m.maskEnters = true
  · rw [if_pos henters, if_pos henters]
    by_cases hleaves : m.maskLeaves = true
    · rw [if_pos hleaves, if_pos rfl, initFilt_slot hindex]
      simp only [hleaves, true_and]
    · rw [if_neg hleaves, if_neg (fun hok => Status.noConfusion hok),
        if_neg (fun hc => hleaves hc.1)]
  · rw [if_neg henters, if_neg henters, if_neg (fun hok => Status.noConfusion hok)]

/-- A call leaves the registers and the slots in step. -/
theorem programmed_call {r : Registers} {s : Slots} (h : Programmed r s) (c : Call) :
    Programmed (halCanSetFilter r c.index c.filter c.modes).1 (s.set c) := by
  unfold halCanSetFilter Slots.set
  by_cases hvalid : validateFilter c.filter = .ok
  swap
  · rw [if_pos hvalid, if_neg (fun hc => hvalid hc.1)]
    exact h
  rw [if_neg (not_not_intro hvalid)]
  by_cases hindex : c.index < maxFilters
  swap
  · rw [if_neg hindex, if_neg (fun hc => hindex hc.2.1)]
    exact h
  rw [if_pos hindex, mcp2515SetFilter_registers hindex]
  have hmask := programmed_mask h c.index c.filter.extended c.filter.mask
  by_cases henters : c.modes.maskEnters = true
  swap
  · rw [if_neg henters, if_neg (fun hc => henters hc.2.2)]
    exact h
  have hset : validateFilter c.filter = .ok ∧ c.index < maxFilters ∧ c.modes.maskEnters = true :=
    ⟨hvalid, hindex, henters⟩
  rw [if_pos henters, if_pos hset]
  dsimp only
  by_cases hboth : c.modes.maskLeaves = true ∧ c.modes.filterEnters = true
  · rw [if_pos hboth, if_pos hboth]
    exact programmed_filter hmask hindex c.filter.extended c.filter.id
  · rw [if_neg hboth, if_neg hboth]
    exact hmask

theorem programmed_after (r : Registers) (calls : List Call) :
    Programmed (setFilters (beginAny r) calls) (slotsAfter calls) := by
  have hrun : ∀ (calls : List Call) {r : Registers} {s : Slots}, Programmed r s →
      Programmed (setFilters r calls) (calls.foldl Slots.set s) := by
    intro calls
    induction calls with
    | nil => exact fun h => h
    | cons c calls ih => exact fun h => ih (programmed_call h c)
  exact hrun calls (programmed_begin r)

variable {r : Registers} {s : Slots}

/-- For a frame of a filter's kind, only the mask decides about data bytes. -/
theorem dataAgrees_undisturbed {extended : Bool} {bits mask : BitVec 29} {f : Frame}
    (hshort : extended = false → bits.extractLsb' 0 16 = 0)
    (h : agrees extended bits mask f.id = true) :
    dataAgrees bits mask f = undisturbed mask f := by
  obtain ⟨id, leading⟩ := f
  cases id with
  | ext id => rfl
  | std id =>
    cases leading with
    | none => rfl
    | some d =>
      cases extended with
      | true => cases h
      | false =>
        unfold undisturbed dataAgrees
        rw [hshort rfl]
        rfl

theorem entry_short (h : Programmed r s) (index : ℕ) :
    (s.entry index).1 = false → (s.entry index).2.extractLsb' 0 16 = 0 := by
  intro hstd
  unfold Slots.entry at hstd ⊢
  cases hslot : s.slot index with
  | none => rfl
  | some entry =>
    rw [hslot] at hstd
    exact h.short index entry hslot hstd

theorem passesFilter_iff (h : Programmed r s) {index : ℕ} (hindex : index < maxFilters)
    (f : Frame) :
    passesFilter r f index = true ↔
      agrees (s.entry index).1 (s.entry index).2 (s.groupMask index) f.id = true ∧
        undisturbed (s.groupMask index) f = true := by
  have hext : (imageAt r (filterAddress index)).extended = (s.entry index).1 :=
    congrArg Prod.fst (h.filters index hindex)
  have hbits : (imageAt r (filterAddress index)).bits = (s.entry index).2 :=
    congrArg Prod.snd (h.filters index hindex)
  have hmask : (imageAt r (maskAddress (maskGroup index))).bits = s.groupMask index :=
    h.masks (maskGroup index) (maskGroup_lt index)
  rw [passesFilter, passes, Bool.and_eq_true, hext, hbits, hmask]
  constructor
  · rintro ⟨hid, hdata⟩
    exact ⟨hid, dataAgrees_undisturbed (entry_short h index) hid ▸ hdata⟩
  · rintro ⟨hid, hdata⟩
    refine ⟨hid, ?_⟩
    rw [dataAgrees_undisturbed (entry_short h index) hid]
    exact hdata

theorem received_iff_passes (r : Registers) (f : Frame) :
    received r f = true ↔ filtersOff r rxb0Ctrl = true ∨ filtersOff r rxb1Ctrl = true ∨
      ∃ i < maxFilters, passesFilter r f i = true := by
  have hsix : (∃ i < maxFilters, passesFilter r f i = true) ↔
      (passesFilter r f 0 = true ∨ passesFilter r f 1 = true ∨ passesFilter r f 2 = true ∨
        passesFilter r f 3 = true ∨ passesFilter r f 4 = true ∨ passesFilter r f 5 = true) := by
    constructor
    · rintro ⟨i, hi, h⟩
      unfold maxFilters at hi
      interval_cases i <;> simp [h]
    · rintro (h | h | h | h | h | h)
      · exact ⟨0, by decide, h⟩
      · exact ⟨1, by decide, h⟩
      · exact ⟨2, by decide, h⟩
      · exact ⟨3, by decide, h⟩
      · exact ⟨4, by decide, h⟩
      · exact ⟨5, by decide, h⟩
  rw [hsix, received, entersRxb0, entersRxb1]
  simp only [List.any_cons, List.any_nil, Bool.or_eq_true, Bool.or_false]
  constructor
  · rintro ((h | h | h) | (h | h | h | h | h)) <;> simp [h]
  · rintro (h | h | h | h | h | h | h | h) <;> simp [h]

/-- A frame is received before the first slot is set, when it matches a slot,
and when it strays into one that was never set. -/
theorem received_iff (h : Programmed r s) (f : Frame) :
    received r f = true ↔ ¬ s.AnySet ∨ s.Kept f ∨ s.Stray f := by
  rw [received_iff_passes, h.off0, h.off1]
  constructor
  · rintro (hnone | hnone | ⟨i, hi, hpass⟩)
    · exact Or.inl hnone
    · exact Or.inl hnone
    · obtain ⟨hid, hdata⟩ := (passesFilter_iff h hi f).mp hpass
      cases hslot : s.slot i with
      | none =>
        rw [Slots.entry, hslot] at hid
        exact Or.inr (Or.inr ⟨i, hi, hslot, hid, hdata⟩)
      | some entry =>
        rw [Slots.entry, hslot] at hid
        exact Or.inr (Or.inl ⟨i, hi, entry, hslot, hid, hdata⟩)
  · rintro (hnone | ⟨i, hi, entry, hslot, hid, hdata⟩ | ⟨i, hi, hslot, hid, hdata⟩)
    · exact Or.inl hnone
    · refine Or.inr (Or.inr ⟨i, hi, (passesFilter_iff h hi f).mpr ⟨?_, hdata⟩⟩)
      rw [Slots.entry, hslot]
      exact hid
    · refine Or.inr (Or.inr ⟨i, hi, (passesFilter_iff h hi f).mpr ⟨?_, hdata⟩⟩)
      rw [Slots.entry, hslot]
      exact hid

theorem kept_wanted {f : Frame} (h : s.Kept f) : s.Wanted f := by
  obtain ⟨i, hi, entry, hslot, hid, _⟩ := h
  exact ⟨i, hi, entry, hslot, hid⟩

theorem wanted_anySet {f : Frame} (h : s.Wanted f) : s.AnySet := by
  obtain ⟨i, hi, entry, hslot, _⟩ := h
  exact ⟨i, hi, by rw [hslot]; exact Option.some_ne_none entry⟩

/-- For every history of calls, whichever of them fail, and every frame. -/
theorem filters_exact (r : Registers) (calls : List Call) (f : Frame) :
    (received (setFilters (beginAny r) calls) f = true ↔ (slotsAfter calls).Wanted f) ↔
      (slotsAfter calls).Exact f := by
  have hkept : (slotsAfter calls).Kept f → (slotsAfter calls).Wanted f := kept_wanted
  have hany : (slotsAfter calls).Wanted f → (slotsAfter calls).AnySet := wanted_anySet
  rw [received_iff (programmed_after r calls) f, Slots.Exact]
  tauto

def oneSlot : List Call := [⟨0, ⟨0x100, 0x7FF, 0⟩, ⟨true, true, true, true⟩⟩]

/-- Every other frame is still received, through the group that has no slot set. -/
theorem one_slot_receives_all :
    received (setFilters (beginAny fun _ => 0) oneSlot) ⟨.std 0x200, none⟩ = true ∧
      ¬ (slotsAfter oneSlot).Wanted ⟨.std 0x200, none⟩ := by
  have hslot : ∀ i < maxFilters, i ≠ 0 → (slotsAfter oneSlot).slot i = none := by decide
  refine ⟨by decide +kernel, ?_⟩
  rintro ⟨i, hi, entry, hentry, hid⟩
  by_cases hzero : i = 0
  · subst hzero
    have hfirst : (slotsAfter oneSlot).slot 0 = some (false, 0x100#11 ++ 0#18) := by decide
    rw [hfirst] at hentry
    obtain rfl := Option.some.inj hentry
    exact absurd hid (by decide)
  · rw [hslot i hi hzero] at hentry
    cases hentry

end JaszczurHal.Mcp2515Filters
