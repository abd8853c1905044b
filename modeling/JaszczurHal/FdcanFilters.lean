import JaszczurHal.HalStatus
import Mathlib.Tactic

/-!
# Acceptance filters of the FDCAN provider

Two lists of filter elements in the message RAM, one for each kind of
identifier, the owner of every element, and the calls that change them. The
controller takes the first element that matches.
-/

set_option autoImplicit false

namespace JaszczurHal.FdcanFilters
open HalStatus

def stdIdMask : UInt32 := 0x7FF
def extIdMask : UInt32 := 0x1FFFFFFF

def idMask (ext : Bool) : UInt32 := if ext then extIdMask else stdIdMask

def filterMask : UInt8 := 0
def filterRange : UInt8 := 1
def filterDual : UInt8 := 2
def filterAccept : UInt8 := 0
def filterReject : UInt8 := 1
def filterExtended : UInt8 := 1
def maxFilters : UInt8 := 6
def filterFirstAdded : UInt8 := maxFilters
def filterNone : UInt8 := 0xFF

structure Filter where
  id : UInt32
  mask : UInt32
  flags : UInt8
  deriving DecidableEq, Repr

structure FilterEx where
  type : UInt8
  action : UInt8
  flags : UInt8
  id1 : UInt32
  id2 : UInt32
  deriving DecidableEq, Repr

def FilterEx.ext (f : FilterEx) : Bool := f.flags &&& filterExtended ≠ 0

structure Frame where
  id : UInt32
  ext : Bool
  rtr : Bool
  fits : id ≤ idMask ext

def filterExValid (f : FilterEx) : Bool :=
  f.type ≤ filterDual ∧ f.action ≤ filterReject ∧ f.flags &&& ~~~filterExtended = 0 ∧
    f.id1 ≤ idMask f.ext ∧ f.id2 ≤ idMask f.ext ∧ (f.type = filterRange → f.id1 ≤ f.id2)

def filterExMatches (frame : Frame) (f : FilterEx) : Bool :=
  if frame.ext ≠ f.ext then false
  else if f.type = filterMask then frame.id &&& f.id2 = f.id1 &&& f.id2
  else if f.type = filterRange then f.id1 ≤ frame.id ∧ frame.id ≤ f.id2
  else frame.id = f.id1 ∨ frame.id = f.id2

def classicAsEx (f : Filter) : FilterEx := ⟨filterMask, filterAccept, f.flags, f.id, f.mask⟩

def ownerFree : UInt8 := filterNone
def ownerAcceptAll : UInt8 := 0xFE

def stdFilterWord : ℕ := 0
def extFilterWord : ℕ := 28

def listSize (ext : Bool) : ℕ := if ext then 8 else 28

/-- The context of an instance with the message RAM and those bits of CCCR and
RXGFC that change; `owner ext` is the table of one list. -/
structure Fdcan where
  owner : Bool → ℕ → UInt8
  ram : ℕ → UInt32
  policySet : Bool
  cccrInit : Bool
  rrfs : Bool
  rrfe : Bool

def ramWr (fd : Fdcan) (word : ℕ) (value : UInt32) : Fdcan :=
  { fd with ram := Function.update fd.ram word value }

def setOwner (fd : Fdcan) (ext : Bool) (elem : ℕ) (owner : UInt8) : Fdcan :=
  { fd with owner := Function.update fd.owner ext (Function.update (fd.owner ext) elem owner) }

def sftOf (type : UInt8) : UInt32 :=
  if type = filterMask then (2 : UInt32) <<< 30
  else if type = filterRange then (0 : UInt32) <<< 30 else (1 : UInt32) <<< 30

def eftOf (type : UInt8) : UInt32 :=
  if type = filterMask then (2 : UInt32) <<< 30
  else if type = filterRange then (3 : UInt32) <<< 30 else (1 : UInt32) <<< 30

def elementAction (f : FilterEx) : UInt32 := if f.action = filterReject then 3 else 1

def stdElementWord (f : FilterEx) : UInt32 :=
  sftOf f.type ||| (elementAction f <<< 27) ||| ((f.id1 &&& stdIdMask) <<< 16) |||
    (f.id2 &&& stdIdMask)

def extElementWord0 (f : FilterEx) : UInt32 := (elementAction f <<< 29) ||| (f.id1 &&& extIdMask)

def extElementWord1 (f : FilterEx) : UInt32 := eftOf f.type ||| (f.id2 &&& extIdMask)

def writeElement (fd : Fdcan) (elem : ℕ) (f : FilterEx) : Fdcan :=
  if f.ext = false then ramWr fd (stdFilterWord+elem) (stdElementWord f)
  else
    let word := extFilterWord+elem*2
    ramWr (ramWr (ramWr fd word 0) (word+1) (extElementWord1 f)) word (extElementWord0 f)

def clearElement (fd : Fdcan) (ext : Bool) (elem : ℕ) : Fdcan :=
  setOwner (ramWr fd (if ext then extFilterWord+elem*2 else stdFilterWord+elem) 0) ext elem ownerFree

def freeElement (fd : Fdcan) (ext : Bool) : Option ℕ :=
  (List.range (listSize ext)).find? fun i => fd.owner ext i = ownerFree

def findIn (fd : Fdcan) (ext : Bool) (index : UInt8) : Option ℕ :=
  (List.range (listSize ext)).find? fun i => fd.owner ext i = index

def findOwner (fd : Fdcan) (index : UInt8) : Option (Bool × ℕ) :=
  match findIn fd false index with
  | some elem => some (false, elem)
  | none => (findIn fd true index).map fun elem => (true, elem)

def placeFilter (fd : Fdcan) (index : UInt8) (f : FilterEx) : Fdcan × Status :=
  match freeElement fd f.ext with
  | none => (fd, .enomem)
  | some elem => (writeElement (setOwner fd f.ext elem index) elem f, .ok)

def acceptAll (ext : Bool) : FilterEx :=
  ⟨filterMask, filterAccept, if ext then filterExtended else 0, 0, 0⟩

def last (ext : Bool) : ℕ := listSize ext-1

def acceptUnmatched (fd : Fdcan) (ext on : Bool) : Fdcan × Status :=
  if on = false then
    if fd.owner ext (last ext) = ownerAcceptAll then (clearElement fd ext (last ext), .ok)
    else (fd, .ok)
  else if fd.owner ext (last ext) = ownerAcceptAll then (fd, .ok)
  else if fd.owner ext (last ext) ≠ ownerFree then (fd, .enomem)
  else (writeElement (setOwner fd ext (last ext) ownerAcceptAll) (last ext) (acceptAll ext), .ok)

/-- `reset_filters`, on a message RAM of zeros; RXGFC receives remote frames. -/
def resetFilters (cccrInit : Bool) : Fdcan :=
  let fd : Fdcan := ⟨fun _ _ => ownerFree, fun _ => 0, false, cccrInit, false, false⟩
  (acceptUnmatched (acceptUnmatched fd false true).1 true true).1

def filterOf (fd : Fdcan) (ext : Bool) (fidx : ℕ) : UInt8 :=
  if listSize ext ≤ fidx then filterNone
  else if fd.owner ext fidx < ownerAcceptAll then fd.owner ext fidx else filterNone

def setFilter (fd : Fdcan) (index : UInt8) (filter : Filter) : Fdcan × Status :=
  let ex := classicAsEx filter
  let old := findOwner fd index
  let inPlace := old.any fun o => o.1 = ex.ext
  let freesLast := fd.policySet = false ∧ fd.owner ex.ext (last ex.ext) = ownerAcceptAll
  if inPlace = false ∧ freeElement fd ex.ext = none ∧ ¬freesLast then (fd, .enomem)
  else
    let fd :=
      if fd.policySet = false then
        { (acceptUnmatched (acceptUnmatched fd false false).1 true false).1 with policySet := true }
      else fd
    match old with
    | none => placeFilter fd index ex
    | some (oldExt, elem) =>
      if oldExt = ex.ext then (writeElement fd elem ex, .ok)
      else placeFilter (clearElement fd oldExt elem) index ex

def freeIndex (fd : Fdcan) : ℕ → UInt8 → Option UInt8
  | 0, _ => none
  | fuel+1, candidate =>
    if (findOwner fd candidate).isSome then freeIndex fd fuel (candidate+1) else some candidate

def searchFuel : ℕ := 37

def addFilter (fd : Fdcan) (filter : FilterEx) : Fdcan × Except Status UInt8 :=
  match freeIndex fd searchFuel filterFirstAdded with
  | none => (fd, .error .einternal)
  | some candidate =>
    match placeFilter fd candidate filter with
    | (fd, .ok) => (fd, .ok candidate)
    | (fd, status) => (fd, .error status)

def removeFilter (fd : Fdcan) (index : UInt8) : Fdcan × Status :=
  if ownerAcceptAll ≤ index then (fd, .enoent)
  else
    match findOwner fd index with
    | none => (fd, .enoent)
    | some (ext, elem) => (clearElement fd ext elem, .ok)

def setUnmatchedPolicy (fd : Fdcan) (acceptStd acceptExt acceptRtr : Bool) : Fdcan × Status :=
  let rtrChange := (!fd.rrfs && !fd.rrfe) != acceptRtr
  if rtrChange ∧ fd.cccrInit = false then (fd, .ebusy)
  else if (acceptStd = true ∧ fd.owner false (last false) ≠ ownerFree ∧
        fd.owner false (last false) ≠ ownerAcceptAll) ∨
      (acceptExt = true ∧ fd.owner true (last true) ≠ ownerFree ∧
        fd.owner true (last true) ≠ ownerAcceptAll) then (fd, .enomem)
  else
    let fd := (acceptUnmatched (acceptUnmatched fd false acceptStd).1 true acceptExt).1
    let fd := if rtrChange then { fd with rrfs := !acceptRtr, rrfe := !acceptRtr } else fd
    ({ fd with policySet := true }, .ok)

end JaszczurHal.FdcanFilters
