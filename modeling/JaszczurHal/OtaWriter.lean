import JaszczurHal.OtaBoot
import JaszczurHal.OtaManifest

/-!
# The update writer

The functions that receive an update container in pieces, store its payload in
the staging slot page by page, and hand a verified one to the boot image. The
writer lives in RAM: it is passed along, and a loss of power takes it.
-/

set_option autoImplicit false

namespace JaszczurHal.OtaWriter
open HalStatus CrashRun OtaImage OtaFlash ByteImage OtaManifest
open OtaBoot hiding Manifest OtaWriter flushPage finish

def FLASH_PAGE_SIZE : ℕ := 256
def FLASH_SECTOR_SIZE : ℕ := 4096
def HAL_MD5_HEX_BUF_SIZE : ℕ := 33

abbrev RpFlash := Flash Image (List UInt8)
abbrev RpDevice := Device Image (List UInt8)

/-- What the build fixes. Two slots and 32 KiB of boot and control sectors lie
in a flash whose size is a 32-bit number. -/
structure Build where
  sectors : ℕ
  pos : 0 < sectors
  fits : 2*(sectors*FLASH_SECTOR_SIZE)+0x8000 ≤ 2^32
  programOffset : UInt32
  target : UInt16
  programSize : Option UInt32
  maxBootAttempts : UInt8

def Build.slotSize (b : Build) : ℕ := b.sectors*FLASH_SECTOR_SIZE

def digestChunks : ℕ → JhSha256.Context → List UInt8 → JhSha256.Context
  | 0, context, _ => context
  | n+1, context, bytes =>
    if bytes = [] then context
    else digestChunks n (JhSha256.update context (bytes.take 1024)) (bytes.drop 1024)

def digest (sectors : List Image) (size : UInt32) : List UInt8 :=
  let bytes := (List.range size.toNat).map fun a =>
    (sectors.getD (a/FLASH_SECTOR_SIZE) fun _ => kErased) (a%FLASH_SECTOR_SIZE)
  (JhSha256.final (digestChunks size.toNat JhSha256.init bytes)).1

def Build.layout (b : Build) : Layout Image (List UInt8) :=
  ⟨b.sectors, b.pos, UInt32.ofNat b.slotSize, digest⟩

def Build.binary (b : Build) : Binary (List UInt8) :=
  ⟨b.programSize, b.maxBootAttempts, List.replicate JH_OTA_SHA256_BYTES 0⟩

/-- `OtaWriter`. The first `header_used` bytes of the header, and the first
`page_used` bytes of the page; the others are 0xFF. -/
structure Writer where
  active : Bool
  stagingReady : Bool
  containerSize : ℕ
  containerReceived : ℕ
  payloadReceived : ℕ
  header : List UInt8
  page : List UInt8
  manifest : OtaManifest.Manifest
  sha256 : JhSha256.Context
  authenticationKey : List UInt8

def cleared : Writer :=
  { active := false, stagingReady := false
    containerSize := 0, containerReceived := 0, payloadReceived := 0
    header := [], page := []
    manifest := ⟨0, 0, 0, 0, 0, Vector.replicate 32 0, Vector.replicate 32 0,
      Vector.replicate 32 0⟩
    sha256 := ⟨⟨0, 0, 0, 0, 0, 0, 0, 0⟩, 0, [], false⟩
    authenticationKey := [] }

def stagingByte (f : RpFlash) (address : ℕ) : UInt8 :=
  f.staging (address/FLASH_SECTOR_SIZE) (address%FLASH_SECTOR_SIZE)

def rangeValid (b : Build) (offset size : ℕ) : Bool :=
  decide (offset ≤ b.slotSize) && decide (size ≤ b.slotSize-offset)

def eraseStaging (b : Build) (offset : ℕ) : Step RpDevice Status :=
  if rangeValid b offset FLASH_SECTOR_SIZE then
    callback (fun f => f.put .staging (offset/FLASH_SECTOR_SIZE) fun _ => kErased)
      (fun x _ f => f.put .staging (offset/FLASH_SECTOR_SIZE) x) (fun _ => .ok) .eio
  else pure .einval

def overlay (x : Image) (offset size : ℕ) (change : ℕ → UInt8) : Image := fun i =>
  if offset ≤ i ∧ i < offset+size then change i else x i

def programmed (x : Image) (offset : ℕ) (data : List UInt8) : Image :=
  overlay x offset data.length fun i => x i &&& data.getD (i-offset) 0

/-- `jh_rp_flash_storage_program` of one page of the staging slot, which is
read back and compared. A torn page holds anything. -/
def programStaging (b : Build) (offset : ℕ) (data : List UInt8) : Step RpDevice Status :=
  let s := offset/FLASH_SECTOR_SIZE
  let place := offset%FLASH_SECTOR_SIZE
  if rangeValid b offset data.length then
    callback (fun f => f.put .staging s (programmed (f.staging s) place data))
      (fun x _ f => f.put .staging s (overlay (f.staging s) place data.length x))
      (fun f => if slice (f.staging s) place data.length = data then .ok else .eio) .eio
  else pure .einval

/-- The device, and what each operation on it changed. The record of changes
is not part of the code; no operation reads it. -/
structure Watched where
  device : RpDevice
  changes : List (RpFlash × RpFlash)

def watch {β : Type} (m : Step RpDevice β) : Step Watched β := fun x =>
  let r := m x.device
  (r.1, ⟨r.2, x.changes ++ [(x.device.flash, r.2.flash)]⟩)

def prepareStaging (b : Build) (w : Writer) : Status × Writer :=
  match manifestDecode w.header with
  | .error status => (status, w)
  | .ok manifest =>
    let w := { w with manifest := manifest }
    if manifest.target ≠ b.target ∨ manifest.programOffset ≠ b.programOffset ∨
        manifest.payloadSize = 0 ∨ b.slotSize < manifest.payloadSize.toNat ∨
        w.containerSize ≠ JH_OTA_IMAGE_HEADER_SIZE+manifest.payloadSize.toNat then
      (.econfig, w)
    else
      let status := manifestVerify manifest w.authenticationKey
      if status ≠ .ok then (status, w)
      else (.ok, { w with sha256 := JhSha256.init, page := [], stagingReady := true })

def pageBytes (w : Writer) : List UInt8 :=
  w.page ++ List.replicate (FLASH_PAGE_SIZE-w.page.length) kErased

def openSector (b : Build) (pageOffset : ℕ) : Step Watched Status :=
  if pageOffset%FLASH_SECTOR_SIZE = 0 then watch (eraseStaging b pageOffset) else pure .ok

def flushPage (b : Build) (w : Writer) : Step Watched (Status × Writer) :=
  if w.page = [] then pure (.ok, w)
  else do
    let offset := w.payloadReceived-w.page.length
    let pageOffset := offset-offset%FLASH_PAGE_SIZE
    let erased ← openSector b pageOffset
    if erased ≠ .ok then pure (erased, w)
    else do
      let status ← watch (programStaging b pageOffset (pageBytes w))
      if status ≠ .ok then pure (status, w) else pure (.ok, { w with page := [] })

def consumePayload (b : Build) : ℕ → Writer → List UInt8 → Step Watched (Status × Writer)
  | _, w, [] => pure (.ok, w)
  | 0, w, _ => pure (.einternal, w)
  | fuel+1, w, data =>
    let chunk := min data.length (FLASH_PAGE_SIZE-w.page.length)
    let page := w.page ++ data.take chunk
    if !w.sha256.initialized then pure (.einval, w)
    else
      let w := { w with
        sha256 := JhSha256.update w.sha256 (data.take chunk)
        page := page
        payloadReceived := w.payloadReceived+chunk }
      if page.length = FLASH_PAGE_SIZE then do
        let (status, w) ← flushPage b w
        if status ≠ .ok then pure (status, w) else consumePayload b fuel w (data.drop chunk)
      else consumePayload b fuel w (data.drop chunk)

def begin (w : Writer) (containerSize : UInt32) (authenticationKey : List UInt8) :
    Step Watched (Status × Writer) :=
  if containerSize.toNat ≤ JH_OTA_IMAGE_HEADER_SIZE ∨ w.active = true ∨
      HAL_MD5_HEX_BUF_SIZE < authenticationKey.length then
    pure (if w.active then .ebusy else .einval, w)
  else do
    let started := { cleared with
      active := true, containerSize := containerSize.toNat
      authenticationKey := authenticationKey }
    match ← watch loadState with
    | .ok (state, _) => if state.mode ≠ .stable then pure (.estate, w) else pure (.ok, started)
    | .error status => if status ≠ .enoent then pure (status, w) else pure (.ok, started)

def writeHeader (b : Build) (w : Writer) (data : List UInt8) : Status × Writer × List UInt8 :=
  if w.header.length < JH_OTA_IMAGE_HEADER_SIZE then
    let chunk := min data.length (JH_OTA_IMAGE_HEADER_SIZE-w.header.length)
    let w := { w with
      header := w.header ++ data.take chunk
      containerReceived := w.containerReceived+chunk }
    if w.header.length = JH_OTA_IMAGE_HEADER_SIZE then
      let (status, w) := prepareStaging b w
      (status, w, data.drop chunk)
    else (.ok, w, data.drop chunk)
  else (.ok, w, data)

/-- The part of a write that goes to the staging slot; the sum is a 32-bit one. -/
def writePayload (b : Build) (w : Writer) (data : List UInt8) : Step Watched (Status × Writer) :=
  if data = [] then pure (.ok, w)
  else if w.stagingReady = false ∨
      w.manifest.payloadSize.toNat < (w.payloadReceived+data.length)%2^32 then
    pure (.eoverflow, w)
  else do
    let (status, w) ← consumePayload b (data.length+1) w data
    if status ≠ .ok then pure (status, w)
    else pure (.ok, { w with containerReceived := w.containerReceived+data.length })

def writeRest (b : Build) (size : ℕ) :
    Status × Writer × List UInt8 → Step Watched (Except Status ℕ × Writer)
  | (status, w, rest) =>
    if status ≠ .ok then pure (.error status, w)
    else do
      let (status, w) ← writePayload b w rest
      if status ≠ .ok then pure (.error status, w) else pure (.ok size, w)

def write (b : Build) (w : Writer) (data : List UInt8) :
    Step Watched (Except Status ℕ × Writer) :=
  if w.active = false ∨ data = [] ∨ w.containerSize-w.containerReceived < data.length then
    pure (.error .einval, w)
  else writeRest b data.length (writeHeader b w data)

def recorded (m : OtaManifest.Manifest) : OtaBoot.Manifest (List UInt8) :=
  ⟨m.payloadSize, m.generation, m.sha256.toList, m.version.toList⟩

def publish (b : Build) (w : Writer) : Step Watched (Status × Writer) := do
  match ← watch (loadOrInitialiseState b.layout b.binary) with
  | .error status => pure (status, w)
  | .ok (state, index) =>
    if state.mode ≠ .stable then pure (.estate, w)
    else do
      let erased ← watch erasePhase
      if erased ≠ .ok then pure (erased, w)
      else do
        let status ← watch (writeState (pendingState state (recorded w.manifest)) index)
        pure (status, if status = .ok then cleared else w)

def finish (b : Build) (w : Writer) : Step Watched (Status × Writer) :=
  if w.active = false ∨ w.stagingReady = false ∨ w.containerReceived ≠ w.containerSize ∨
      w.payloadReceived ≠ w.manifest.payloadSize.toNat then pure (.estate, w)
  else do
    let (status, w) ← flushPage b w
    if status ≠ .ok then pure (status, w)
    else if w.sha256.initialized = false then pure (.einval, w)
    else do
      let (digest, sha256) := JhSha256.final w.sha256
      let w := { w with sha256 := sha256 }
      if digest ≠ w.manifest.sha256.toList then pure (.eauth, w)
      else do
        match ← watch (digestPartition b.layout .staging w.manifest.payloadSize) with
        | .error status => pure (status, w)
        | .ok flashDigest =>
          if flashDigest ≠ w.manifest.sha256.toList then pure (.eio, w) else publish b w

inductive Call where
  | begin (containerSize : UInt32) (authenticationKey : List UInt8)
  | write (data : List UInt8)
  | finish
  | abort
  | confirmBoot

/-- The program with its flash. `key` is the one the session began with and
`accepted` the bytes of its writes that succeeded; no code reads either. -/
structure Updater where
  watched : Watched
  writer : Writer
  key : List UInt8
  accepted : List UInt8

def boot (d : RpDevice) : Updater := ⟨⟨d, []⟩, cleared, [], []⟩

def Updater.flash (u : Updater) : RpFlash := u.watched.device.flash

/-- What a call returns with the writer it leaves; `abort` returns nothing. -/
def perform (b : Build) (w : Writer) : Call → Step Watched (Status × Writer)
  | .begin containerSize authenticationKey => begin w containerSize authenticationKey
  | .write data => do
    let (written, w) ← write b w data
    match written with
    | .ok _ => pure (.ok, w)
    | .error status => pure (status, w)
  | .finish => finish b w
  | .abort => pure (.ok, cleared)
  | .confirmBoot => do
    let status ← watch confirmBoot
    pure (status, w)

def Updater.note (u : Updater) (status : Status) : Call → Updater
  | .begin _ key => if status = .ok then { u with key := key, accepted := [] } else u
  | .write data => if status = .ok then { u with accepted := u.accepted ++ data } else u
  | _ => u

/-- A call that loses power returns nothing and takes the writer with it. -/
def invoke (b : Build) (call : Call) (u : Updater) : Option Status × Updater :=
  match perform b u.writer call u.watched with
  | (none, x) => (none, { u with watched := x, writer := cleared })
  | (some (status, w), x) => (some status, { u with watched := x, writer := w }.note status call)

/-- The states of a program between two losses of power, from any flash. -/
inductive Reached (b : Build) : Updater → Prop where
  | boot (d : RpDevice) : Reached b (boot d)
  | call (u u' : Updater) (call : Call) (status : Status) (hu : Reached b u)
      (h : invoke b call u = (some status, u')) : Reached b u'

end JaszczurHal.OtaWriter
