import JaszczurHal.OtaSwap

/-!
# The boot applier and the writers of its record

What the boot image does on every reset, how a received update becomes a
pending one, and how a trial image confirms itself. The states these three
leave in the two records are the only thing they hand to each other.
-/

set_option autoImplicit false

namespace JaszczurHal.OtaBoot
open HalStatus CrashRun OtaImage OtaFlash OtaSwap

inductive Action where
  | launch
  | restart
  deriving DecidableEq, Repr

variable {α δ : Type}

def swapStarted : ℕ → ℕ → Step (Device α δ) Bool
  | 0, _ => pure false
  | remaining+1, sector => do
    match ← readPhase sector with
    | .error _ => pure true
    | .ok phase => if phase ≠ kErased then pure true else swapStarted remaining (sector+1)

def swapStateRoles (state : BootState δ) : BootState δ :=
  { state with
    programSize := state.stagingSize
    stagingSize := state.programSize
    programGeneration := state.stagingGeneration
    stagingGeneration := state.programGeneration
    programSha256 := state.stagingSha256
    stagingSha256 := state.programSha256
    programVersion := state.stagingVersion
    stagingVersion := state.programVersion }

def nextState (state : BootState δ) (mode : BootMode) : BootState δ :=
  { state with sequence := state.sequence+1, mode := mode }

def writeNextState (state : BootState δ) (index : Bool) (mode : BootMode) :
    Step (Device α δ) (Status × BootState δ × Bool) := do
  let status ← writeState (nextState state mode) index
  pure (status, nextState state mode, if status = .ok then !index else index)

def swapCompleted (state : BootState δ) : BootState δ :=
  { swapStateRoles state with attempts := 0 }

def completeSwap (l : Layout α δ) (state : BootState δ) (index : Bool)
    (completedMode : BootMode) : Step (Device α δ) (Action × BootState δ) := do
  let status ← swapExecute l.sectors
  if status ≠ .ok then do
    if ← swapStarted l.sectors 0 then pure (.restart, state)
    else do
      let (_, state, _) ← writeNextState state index .recovery
      pure (.launch, state)
  else do
    let (status, state, _) ← writeNextState (swapCompleted state) index completedMode
    if status ≠ .ok then pure (.restart, state)
    else do
      let _ ← erasePhase
      pure (.launch, state)

variable [DecidableEq δ]

def pendingRefused (l : Layout α δ) (state : BootState δ) : Step (Device α δ) Bool := do
  if ← swapStarted l.sectors 0 then pure false
  else do
    let whole ← slotMatches l .staging state.stagingSize state.stagingSha256
    pure !whole

def bootApply (l : Layout α δ) (state : BootState δ) (index : Bool) :
    Step (Device α δ) (Action × BootState δ) :=
  if l.sectors = 0 then pure (.launch, state)
  else match state.mode with
  | .pending => do
    if ← pendingRefused l state then do
      let (_, state, _) ← writeNextState state index .recovery
      pure (.launch, state)
    else do
      let (action, state) ← completeSwap l state index .trial
      if action ≠ .launch ∨ state.mode ≠ .trial then pure (action, state)
      else do
        let whole ← slotMatches l .program state.programSize state.programSha256
        pure (if whole then .launch else .restart, state)
  | .trial =>
    if state.attempts < state.maxAttempts then do
      let (status, state, _) ←
        writeNextState { state with attempts := state.attempts+1 } index .trial
      pure (if status = .ok then .launch else .restart, state)
    else do
      let status ← erasePhase
      if status ≠ .ok then pure (.restart, state)
      else do
        let (status, state, index) ← writeNextState state index .rollback
        if status ≠ .ok then pure (.restart, state)
        else completeSwap l state index .stable
  | .rollback => completeSwap l state index .stable
  | .stable => pure (.launch, state)
  | .recovery => pure (.launch, state)

def selected (f : Flash α δ) : Option (BootState δ × Bool) :=
  stateSelect (f.record false) (f.record true)

def readState : Step (Device α δ) (Option (BootState δ × Bool)) :=
  fun d => (some (selected d.flash), d)

def boot (l : Layout α δ) : Step (Device α δ) (Action × Option (BootState δ)) := do
  match ← readState with
  | none => pure (.launch, none)
  | some (state, index) =>
    let (action, state) ← bootApply l state index
    pure (action, some state)

def readRecord (index : Bool) :
    Step (Device α δ) (Except Status (Option (BootState δ))) :=
  callback id (fun _ _ => id) (fun f => .ok (f.record index)) (.error .eio)

def loadState : Step (Device α δ) (Except Status (BootState δ × Bool)) := do
  match ← readRecord false with
  | .error status => pure (.error status)
  | .ok first =>
    match ← readRecord true with
    | .error status => pure (.error status)
    | .ok second =>
      match stateSelect first second with
      | none => pure (.error .enoent)
      | some (state, index) => pure (.ok (state, index))

def confirmBoot : Step (Device α δ) Status := do
  match ← loadState with
  | .error status => pure status
  | .ok (state, index) =>
    if state.mode = .stable then pure .ok
    else if state.mode ≠ .trial then pure .estate
    else writeState { nextState state .stable with attempts := 0 } index

structure Manifest (δ : Type) where
  payloadSize : UInt32
  generation : UInt32
  sha256 : δ
  version : List UInt8

/-- The writer of an update when its last byte has arrived. `page` is the
sector of the staging slot that flushing the last page completes, `digest`
what the running SHA-256 of the payload comes to. -/
structure OtaWriter (α δ : Type) where
  active : Bool
  stagingReady : Bool
  containerSize : UInt32
  containerReceived : UInt32
  payloadReceived : UInt32
  manifest : Manifest δ
  page : Option (ℕ × α)
  digest : δ

/-- The running image: its size by the linker's symbols, when they lie in
the program slot, and `HAL_RP_OTA_MAX_BOOT_ATTEMPTS`. -/
structure Binary (δ : Type) where
  size : Option UInt32
  maxBootAttempts : UInt8
  emptySha256 : δ

def flushPage : Option (ℕ × α) → Step (Device α δ) Status
  | none => pure .ok
  | some (sector, x) => callback (fun f => f.put .staging sector x)
      (fun y _ f => f.put .staging sector y) (fun _ => .ok) .eio

def sha256Final (digest : δ) : Step (Device α δ) (Except Status δ) :=
  callback id (fun _ _ => id) (fun _ => .ok digest) (.error .eio)

def digestPartition (l : Layout α δ) (slot : Slot) (size : UInt32) :
    Step (Device α δ) (Except Status δ) :=
  if size = 0 ∨ l.slotSize < size then pure (.error .einval)
  else callback id (fun _ _ => id)
    (fun f => .ok (l.digest (contents l.sectors (f.get slot)) size)) (.error .eio)

def text (s : List UInt8) : List UInt8 :=
  s ++ List.replicate (JH_OTA_VERSION_TEXT_SIZE-s.length) 0

def factoryText : List UInt8 := [102, 97, 99, 116, 111, 114, 121]

def emptyText : List UInt8 := [101, 109, 112, 116, 121]

def initialiseFactoryState (l : Layout α δ) (binary : Binary δ) :
    Step (Device α δ) (Except Status (BootState δ × Bool)) :=
  match binary.size with
  | none => pure (.error .econfig)
  | some size => do
    match ← digestPartition l .program size with
    | .error status => pure (.error status)
    | .ok sha256 => do
      let state : BootState δ :=
        { sequence := 1, mode := .stable, attempts := 0
          maxAttempts := binary.maxBootAttempts
          programSize := size, stagingSize := 0
          programGeneration := 0, stagingGeneration := 0
          programSha256 := sha256, stagingSha256 := binary.emptySha256
          programVersion := text factoryText, stagingVersion := text emptyText }
      let status ← writeState state true
      if status = .ok then pure (.ok (state, false)) else pure (.error status)

def loadOrInitialiseState (l : Layout α δ) (binary : Binary δ) :
    Step (Device α δ) (Except Status (BootState δ × Bool)) := do
  match ← loadState with
  | .ok found => pure (.ok found)
  | .error status =>
    if status ≠ .enoent then pure (.error status) else initialiseFactoryState l binary

def pendingState (state : BootState δ) (manifest : Manifest δ) : BootState δ :=
  { nextState state .pending with
    attempts := 0
    stagingSize := manifest.payloadSize
    stagingGeneration := manifest.generation
    stagingSha256 := manifest.sha256
    stagingVersion := manifest.version }

def finish (l : Layout α δ) (binary : Binary δ) (w : OtaWriter α δ) :
    Step (Device α δ) Status :=
  if !w.active || !w.stagingReady || w.containerReceived ≠ w.containerSize ||
      w.payloadReceived ≠ w.manifest.payloadSize then pure .estate
  else do
    let status ← flushPage w.page
    if status ≠ .ok then pure status
    else do
      match ← sha256Final w.digest with
      | .error status => pure status
      | .ok digest =>
        if digest ≠ w.manifest.sha256 then pure .eauth
        else do
          match ← digestPartition l .staging w.manifest.payloadSize with
          | .error status => pure status
          | .ok flashDigest =>
            if flashDigest ≠ w.manifest.sha256 then pure .eio
            else do
              match ← loadOrInitialiseState l binary with
              | .error status => pure status
              | .ok (state, index) =>
                if state.mode ≠ .stable then pure .estate
                else do
                  let status ← erasePhase
                  if status ≠ .ok then pure status
                  else writeState (pendingState state w.manifest) index

end JaszczurHal.OtaBoot
