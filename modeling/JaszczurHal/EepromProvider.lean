import JaszczurHal.HalStatus
import JaszczurHal.ByteImage

/-!
# The buffered flash provider of the EEPROM

`jh_eeprom_flash_provider`: a RAM mirror of the flash, written through the byte
interface and committed as a whole, while regions of it are replaced, appended
to and erased directly. Each call of the flash backend may fail and leave its
range partly written. Buffers are lists; a NULL buffer is left out.
-/

set_option autoImplicit false

namespace JaszczurHal.EepromProvider
open JaszczurHal.HalStatus JaszczurHal.ByteImage

structure Backend where
  mirrorCapacity : ℕ
  clampOversizedRequest : Bool
  clearFullStorageOnReset : Bool
  hasReplaceRegion : Bool
  eraseSize : ℕ
  programSize : ℕ
  appendSize : ℕ

structure Info where
  size : ℕ
  eraseSize : ℕ
  programSize : ℕ
  appendSize : ℕ
  deriving DecidableEq

/-- How a write of the backend ends. A failed one leaves bytes of its own
choice in its range. -/
inductive Outcome
  | done
  | failed (status : Status) (refused : status ≠ .ok) (left : Image)

def Outcome.status : Outcome → Status
  | .done => .ok
  | .failed status _ _ => status

/-- The medium after a write of `target` to a range. Erasing sets bits and
programming clears bits that are clear in the target, so even a failed write
keeps an erased byte that was to stay erased. -/
def settle (medium target : Image) (addr len : ℕ) : Outcome → Image
  | .done => fun i => if addr ≤ i ∧ i < addr+len then target i else medium i
  | .failed _ _ left => fun i =>
    if (addr ≤ i ∧ i < addr+len) ∧ ¬ (medium i = 0xFF ∧ target i = 0xFF) then left i
    else medium i

inductive Load
  | done (storageSize : ℕ)
  | failed (status : Status) (refused : status ≠ .ok) (left : Image)

structure Env where
  prepare : Status
  first : Outcome
  second : Outcome
  readBack : Status

structure State where
  medium : Image
  mirror : Image
  storageSize : ℕ
  activeSize : ℕ
  ready : Bool
  dirty : Bool

def start (medium : Image) : State := ⟨medium, fun _ => 0, 0, 0, false, false⟩

inductive Event
  | loaded
  | wrote (addr len : ℕ)
  | stored (status : Status)
  | programmed (addr len : ℕ) (status : Status)
  | replaced (addr len : ℕ) (destinationErased : Bool) (status : Status)
  | erased (addr len : ℕ) (status : Status)
  | readBack (addr len : ℕ) (status : Status)
  | read (data : List UInt8)
  | reported (addr len : ℕ) (erased : Bool)
  | returned (status : Status)
  deriving DecidableEq

def initializeProvider (b : Backend) (s : State) (requestedSize : ℕ) (load : Load) :
    (Status × Option Info) × State × List Event :=
  let s := { s with ready := false, dirty := false, storageSize := 0 }
  match load with
  | .failed status _ left => ((status, none), { s with mirror := left }, [])
  | .done storageSize =>
    let s := { s with
      storageSize := storageSize
      mirror := fun i => if i < storageSize then s.medium i else s.mirror i }
    if storageSize = 0 || storageSize > b.mirrorCapacity then ((.econfig, none), s, [.loaded])
    else if requestedSize > storageSize && !b.clampOversizedRequest then
      ((.einval, none), s, [.loaded])
    else
      let activeSize :=
        if requestedSize = 0 || requestedSize > storageSize then storageSize else requestedSize
      ((.ok, some ⟨activeSize, b.eraseSize, b.programSize, b.appendSize⟩),
        { s with activeSize := activeSize, ready := true }, [.loaded])

def rangeValid (s : State) (addr len : ℕ) : Bool :=
  s.ready && addr ≤ s.activeSize && len ≤ s.activeSize-addr

def storageRangeValid (s : State) (addr len : ℕ) : Bool :=
  addr ≤ s.storageSize && len ≤ s.storageSize-addr

def mirrorErased (s : State) (addr len : ℕ) : Bool :=
  (List.range len).all fun index => s.mirror (addr+index) = 0xFF

def setMirror (s : State) (addr : ℕ) (data : List UInt8) : State :=
  { s with mirror := write s.mirror addr data }

def resyncMirror (s : State) (addr len : ℕ) (readBack : Status) : State × List Event :=
  ({ s with mirror := fun i =>
      if addr ≤ i ∧ i < addr+len then (if readBack = .ok then s.medium i else 0)
      else s.mirror i },
    [.readBack addr len readBack])

def readBytes (s : State) (addr len : ℕ) : Status × List Event :=
  if !rangeValid s addr len then (if s.ready then .einval else .euninit, [])
  else (.ok, [.read (slice s.mirror addr len)])

def readMedium (s : State) (addr len : ℕ) (status : Status) : Status × List Event :=
  if !rangeValid s addr len then (if s.ready then .einval else .euninit, [])
  else if len = 0 || status = .ok then (.ok, [.read (slice s.medium addr len)])
  else (status, [])

def writeBytes (s : State) (addr : ℕ) (data : List UInt8) : Status × State × List Event :=
  if !rangeValid s addr data.length then (if s.ready then .einval else .euninit, s, [])
  else if data.length > 0 then
    (.ok, { setMirror s addr data with dirty := true }, [.wrote addr data.length])
  else (.ok, s, [])

def commit (s : State) (env : Env) : Status × State × List Event :=
  if !s.ready then (.euninit, s, [])
  else if !s.dirty then (.ok, s, [])
  else if env.prepare ≠ .ok then (env.prepare, s, [])
  else
    let status := env.first.status
    let s := { s with medium := settle s.medium s.mirror 0 s.storageSize env.first }
    (status, if status = .ok then { s with dirty := false } else s, [.stored status])

/-- `replace_region`; the backend publishes the first `publishSize` bytes last. -/
def replaceRegion (b : Backend) (s : State) (addr : ℕ) (data : List UInt8) (publishSize : ℕ)
    (env : Env) : Status × State × List Event :=
  if !s.ready || !b.hasReplaceRegion then
    (if s.ready then .eunsupported else .euninit, s, [])
  else if publishSize = 0 || publishSize ≥ data.length || addr > s.storageSize ||
      data.length > s.storageSize-addr then
    (.einval, s, [])
  else if env.prepare ≠ .ok then (env.prepare, s, [])
  else
    let readsErased := mirrorErased s addr data.length
    let target := write s.medium addr data
    let s := { s with medium := settle s.medium target addr data.length env.first }
    let status := env.first.status
    let retry := status = .eio && readsErased
    let s := if retry then
        { s with medium := settle s.medium target addr data.length env.second } else s
    let calls := .replaced addr data.length readsErased status ::
      (if retry then [.replaced addr data.length false env.second.status] else [])
    let status := if retry then env.second.status else status
    if status = .ok then (status, setMirror s addr data, calls)
    else
      let (s, reads) := resyncMirror s addr data.length env.readBack
      (status, s, calls ++ reads)

def append (s : State) (addr : ℕ) (data : List UInt8) (env : Env) :
    Status × State × List Event :=
  if !s.ready then (.euninit, s, [])
  else if data.length = 0 || !storageRangeValid s addr data.length then (.einval, s, [])
  else if !mirrorErased s addr data.length then (.estate, s, [])
  else if env.prepare ≠ .ok then (env.prepare, s, [])
  else
    let status := env.first.status
    let s := { s with
      medium := settle s.medium (write s.medium addr data) addr data.length env.first }
    let call := .programmed addr data.length status
    if status = .ok then (status, setMirror s addr data, [call])
    else
      let (s, reads) := resyncMirror s addr data.length env.readBack
      let status := if status = .eio && mirrorErased s addr data.length then .estate else status
      (status, s, call :: reads)

def erase (s : State) (addr len : ℕ) (env : Env) : Status × State × List Event :=
  if !s.ready then (.euninit, s, [])
  else if !storageRangeValid s addr len then (.einval, s, [])
  else if env.prepare ≠ .ok then (env.prepare, s, [])
  else
    let status := env.first.status
    let s := { s with medium := settle s.medium (fun _ => 0xFF) addr len env.first }
    let call := .erased addr len status
    if status = .ok then (status, setMirror s addr (List.replicate len 0xFF), [call])
    else
      let (s, reads) := resyncMirror s addr len env.readBack
      (status, s, call :: reads)

def regionErased (s : State) (addr len : ℕ) : Status × List Event :=
  if !s.ready then (.euninit, [])
  else if !storageRangeValid s addr len then (.einval, [])
  else (.ok, [.reported addr len (mirrorErased s addr len)])

def reset (b : Backend) (s : State) (env : Env) : Status × State × List Event :=
  if !s.ready then (.euninit, s, [])
  else
    let clearSize := if b.clearFullStorageOnReset then s.storageSize else s.activeSize
    let (status, s, calls) :=
      commit { setMirror s 0 (List.replicate clearSize 0) with dirty := true } env
    (status, s, .wrote 0 clearSize :: calls)

inductive Action
  | init (requestedSize : ℕ) (load : Load)
  | read (addr len : ℕ)
  | readMedium (addr len : ℕ) (status : Status)
  | write (addr : ℕ) (data : List UInt8)
  | commit (env : Env)
  | replaceRegion (addr : ℕ) (data : List UInt8) (publishSize : ℕ) (env : Env)
  | append (addr : ℕ) (data : List UInt8) (env : Env)
  | erase (addr len : ℕ) (env : Env)
  | regionErased (addr len : ℕ)
  | reset (env : Env)

def answered (result : Status × State × List Event) : State × List Event :=
  (result.2.1, result.2.2 ++ [.returned result.1])

def step (b : Backend) (s : State) : Action → State × List Event
  | .init requestedSize load =>
    let (answer, s, events) := initializeProvider b s requestedSize load
    (s, events ++ [.returned answer.1])
  | .read addr len => answered ((readBytes s addr len).1, s, (readBytes s addr len).2)
  | .readMedium addr len status =>
    answered ((readMedium s addr len status).1, s, (readMedium s addr len status).2)
  | .write addr data => answered (writeBytes s addr data)
  | .commit env => answered (commit s env)
  | .replaceRegion addr data publishSize env =>
    answered (replaceRegion b s addr data publishSize env)
  | .append addr data env => answered (append s addr data env)
  | .erase addr len env => answered (erase s addr len env)
  | .regionErased addr len => answered ((regionErased s addr len).1, s, (regionErased s addr len).2)
  | .reset env => answered (reset b s env)

def run (b : Backend) (s : State) : List Action → State × List Event
  | [] => (s, [])
  | a :: as =>
    let (s', events) := step b s a
    let (s'', events') := run b s' as
    (s'', events ++ events')

end JaszczurHal.EepromProvider
