import JaszczurHal.HalStatus
import Mathlib.Tactic

/-!
# The LoRa radio facade

A call locks the radio, marks it busy and lets go of the lock while its
provider works; it takes the lock again to finish. A pending call is one that
still has to take the lock. The calls of several tasks may take turns between
any two of these sections.
-/

set_option autoImplicit false

namespace JaszczurHal.LoraRadio
open HalStatus

inductive RadioState where
  | standby
  | rx
  | tx
  | cad
  | sleep
  | error
  deriving DecidableEq, Repr

inductive OperationState where
  | idle
  | inProgress
  | succeeded
  | timedOut
  | cancelled
  | failed
  deriving DecidableEq, Repr

inductive OperationKind where
  | transmit
  | receive
  | channelActivityDetection
  deriving DecidableEq, Repr

inductive EventType where
  | txComplete
  | rxReady
  | channelActivityComplete
  | timeout
  | cancelled
  | error
  deriving DecidableEq, Repr

structure OperationStatus where
  state : OperationState
  result : Status
  deriving DecidableEq, Repr

structure ChannelActivityStatus where
  state : OperationState
  result : Status
  detected : Bool
  deriving DecidableEq, Repr

structure Event where
  type : EventType
  operation : OperationKind
  result : Status
  channelActivityDetected : Bool
  deriving DecidableEq, Repr

structure ProviderEvents where
  txDone : Bool
  rxDone : Bool
  timeout : Bool
  crcError : Bool
  headerError : Bool
  cadDone : Bool
  cadDetected : Bool
  deriving DecidableEq, Repr

def noEvents : ProviderEvents := ⟨false, false, false, false, false, false, false⟩

/-- The context of a radio. `rejected` notes a state change that was refused;
`callback` says whether there is an event callback. -/
structure Radio where
  state : RadioState
  configured : Bool
  operationBusy : Bool
  txBuffer : List UInt8
  transmitTimeoutMs : UInt32
  txStatus : OperationStatus
  rxBuffer : List UInt8
  rxReady : Bool
  rxResult : Status
  receiveContinuous : Bool
  receiveTimeoutMs : UInt32
  channelActivityStatus : ChannelActivityStatus
  channelActivityTimeoutMs : UInt32
  callback : Bool
  event : Option Event
  lastError : Status
  rejected : Bool
  deriving DecidableEq, Repr

def stateTransitionValid (old new : RadioState) : Bool :=
  if old = new ∨ new = .error then true
  else
    match old with
    | .standby => new = .rx || new = .tx || new = .cad || new = .sleep
    | .rx | .tx | .cad | .sleep | .error => new = .standby

def Radio.setState (r : Radio) (state : RadioState) : Radio :=
  if stateTransitionValid r.state state then { r with state := state }
  else { r with state := .error, lastError := .einternal, rejected := true }

def Radio.recordError (r : Radio) (status : Status) : Radio :=
  if status = .ok ∨ status = .eagain ∨ status = .eoverflow then r else { r with lastError := status }

def Radio.queueEvent (r : Radio) (type : EventType) (operation : OperationKind) (result : Status) :
    Radio :=
  if r.callback then { r with event := some ⟨type, operation, result, false⟩ } else r

def Radio.setTxStatus (r : Radio) (state : OperationState) (result : Status) : Radio :=
  { r with txStatus := ⟨state, result⟩ }

def Radio.setCadStatus (r : Radio) (state : OperationState) (result : Status) (detected : Bool) :
    Radio :=
  { r with channelActivityStatus := ⟨state, result, detected⟩ }

def Radio.setRxResult (r : Radio) (result : Status) : Radio := { r with rxResult := result }

def Radio.setBusy (r : Radio) (busy : Bool) : Radio := { r with operationBusy := busy }

def completeTx (r : Radio) (status : Status) : Radio :=
  match status with
  | .ok =>
    ((r.setTxStatus .succeeded .ok).setState .standby).queueEvent .txComplete .transmit .ok
  | .etimeout =>
    (((r.setTxStatus .timedOut .etimeout).setState .standby).recordError .etimeout).queueEvent
      .timeout .transmit .etimeout
  | .ecanceled =>
    ((r.setTxStatus .cancelled .ecanceled).setState .standby).queueEvent .cancelled .transmit
      .ecanceled
  | _ =>
    (((r.setTxStatus .failed status).setState .error).recordError status).queueEvent .error
      .transmit status

def Radio.endSingle (r : Radio) : Radio := if r.receiveContinuous then r else r.setState .standby

def failRx (r : Radio) (status : Status) : Radio :=
  (((r.setRxResult status).setState .error).recordError status).queueEvent .error .receive status

def completeRx (r : Radio) (status : Status) (events : ProviderEvents) : Radio :=
  if status ≠ .ok ∧ status ≠ .etimeout ∧ status ≠ .eproto then failRx r status
  else if events.crcError || events.headerError then
    ((r.setRxResult .eproto).endSingle.recordError .eproto).queueEvent .error .receive .eproto
  else if events.rxDone = true ∧ status = .ok then
    (r.setRxResult .ok).endSingle.queueEvent .rxReady .receive .ok
  else if events.timeout = true ∨ status = .etimeout then
    (((r.setRxResult .etimeout).setState .standby).recordError .etimeout).queueEvent .timeout
      .receive .etimeout
  else failRx r status

def completeChannelActivity (r : Radio) (status : Status) (events : ProviderEvents) : Radio :=
  if status = .ok ∧ events.cadDone = true then
    let done := ((r.setCadStatus .succeeded .ok events.cadDetected).setState .standby).queueEvent
      .channelActivityComplete .channelActivityDetection .ok
    { done with
      event := done.event.map fun e => { e with channelActivityDetected := events.cadDetected } }
  else if status = .etimeout ∨ events.timeout = true then
    (((r.setCadStatus .timedOut .etimeout false).setState .standby).recordError
      .etimeout).queueEvent .timeout .channelActivityDetection .etimeout
  else if status = .ecanceled then
    ((r.setCadStatus .cancelled .ecanceled false).setState .standby).queueEvent .cancelled
      .channelActivityDetection .ecanceled
  else
    (((r.setCadStatus .failed status false).setState .error).recordError status).queueEvent .error
      .channelActivityDetection status

inductive Caller where
  | process
  | receive (bufferSize : ℕ)
  | transmit
  deriving DecidableEq, Repr

/-- What a call still has to do. All but the last four wait for a provider. -/
inductive Pending where
  | configure
  | transmitStart (blocking : Bool)
  | receiveStart
  | channelActivityStart
  | instantRssi
  | service (active : RadioState) (caller : Caller)
  | cancel (active : RadioState)
  | calibrate
  | power (sleep : Bool)
  | serve (caller : Caller)
  | dispatch (status : Status)
  | collect (bufferSize : ℕ)
  | watch
  deriving DecidableEq, Repr

inductive Next where
  | done (status : Status)
  | wait (pending : Pending)
  deriving DecidableEq, Repr

inductive Call where
  | configure (configValid : Bool)
  | transmit (data : List UInt8) (timeoutMs : UInt32) (auto : Except Status UInt32)
      (blocking : Bool)
  | receiveStart (timeoutMs : UInt32) (continuous : Bool)
  | receive (bufferSize : ℕ)
  | instantRssi
  | channelActivityStart (timeoutMs : UInt32)
  | process
  | setEventCallback (present : Bool)
  | cancel
  | calibrate
  | power (sleep : Bool)

def maxPayload : ℕ := 255

def RadioState.Active (s : RadioState) : Prop := s = .tx ∨ s = .rx ∨ s = .cad

instance (s : RadioState) : Decidable s.Active := by
  unfold RadioState.Active
  infer_instance

def afterService (caller : Caller) (status : Status) : Next :=
  match caller with
  | .process => if status = .ebusy ∨ status = .euninit then .done status else .wait (.dispatch status)
  | .receive bufferSize => .wait (.collect bufferSize)
  | .transmit => if status = .eagain ∨ status = .ok then .wait .watch else .done status

def serviceActiveOperation (r : Radio) (caller : Caller) : Radio × Next :=
  if r.operationBusy then (r, afterService caller .ebusy)
  else if ¬ r.state.Active then (r, afterService caller .ok)
  else if r.state = .rx ∧ (r.rxReady = true ∨ r.rxResult ≠ .eagain) then
    (r, afterService caller r.rxResult)
  else (r.setBusy true, .wait (.service r.state caller))

def transmitStartWithTimeout (r : Radio) (data : List UInt8) (timeoutMs : UInt32)
    (auto : Except Status UInt32) (blocking : Bool) : Radio × Next :=
  if data.length = 0 ∨ maxPayload < data.length then (r, .done .einval)
  else if r.configured = false then (r, .done .euninit)
  else if r.operationBusy = true ∨ r.state ≠ .standby then (r, .done .ebusy)
  else
    match if timeoutMs = 0 then auto else .ok timeoutMs with
    | .error status => (r, .done status)
    | .ok timeout =>
      let started := { r with txBuffer := data, transmitTimeoutMs := timeout }
      (((started.setTxStatus .inProgress .eagain).setBusy true).setState .tx,
        .wait (.transmitStart blocking))

def receiveStart (r : Radio) (timeoutMs : UInt32) (continuous : Bool) : Radio × Next :=
  if continuous = false ∧ timeoutMs = 0 then (r, .done .einval)
  else if r.configured = false then (r, .done .euninit)
  else if r.operationBusy = true ∨ r.state ≠ .standby then (r, .done .ebusy)
  else
    let started := { r with rxReady := false, rxBuffer := [], receiveContinuous := continuous,
                            receiveTimeoutMs := timeoutMs }
    (((started.setRxResult .eagain).setBusy true).setState .rx, .wait .receiveStart)

def receive (r : Radio) (bufferSize : ℕ) : Radio × Next :=
  if r.operationBusy then (r, .done .ebusy)
  else if r.state = .rx ∧ r.rxReady = false ∧ r.rxResult = .eagain then
    (r, .wait (.serve (.receive bufferSize)))
  else if r.rxReady = false ∧ r.rxResult = .none then (r, .done .estate)
  else (r, .wait (.collect bufferSize))

def instantRssi (r : Radio) : Radio × Next :=
  if r.configured = false then (r, .done .euninit)
  else if r.operationBusy then (r, .done .ebusy)
  else if r.state ≠ .rx then (r, .done .estate)
  else (r.setBusy true, .wait .instantRssi)

def channelActivityDetectStart (r : Radio) (timeoutMs : UInt32) : Radio × Next :=
  if timeoutMs = 0 then (r, .done .einval)
  else if r.configured = false then (r, .done .euninit)
  else if r.operationBusy = true ∨ r.state ≠ .standby then (r, .done .ebusy)
  else
    let started := { r with channelActivityTimeoutMs := timeoutMs }
    (((started.setCadStatus .inProgress .eagain false).setBusy true).setState .cad,
      .wait .channelActivityStart)

def setEventCallback (r : Radio) (present : Bool) : Radio × Next :=
  ({ r with callback := present, event := if present then r.event else none }, .done .ok)

def cancel (r : Radio) : Radio × Next :=
  if r.operationBusy then (r, .done .ebusy)
  else if ¬ r.state.Active then (r, .done .estate)
  else (r.setBusy true, .wait (.cancel r.state))

def calibrate (r : Radio) : Radio × Next :=
  if r.configured = false then (r, .done .euninit)
  else if r.operationBusy = true ∨ r.state.Active then (r, .done .ebusy)
  else if r.state ≠ .standby then (r, .done .estate)
  else (r.setBusy true, .wait .calibrate)

def setPowerState (r : Radio) (sleep : Bool) : Radio × Next :=
  if r.operationBusy = true ∨ r.state.Active then (r, .done .ebusy)
  else if sleep = true ∧ r.state ≠ .standby then (r, .done .estate)
  else (r.setBusy true, .wait (.power sleep))

def configure (r : Radio) (configValid : Bool) : Radio × Next :=
  if configValid = false then (r, .done .einval)
  else if r.operationBusy = true ∨ r.state.Active then (r, .done .ebusy)
  else (r.setBusy true, .wait .configure)

structure Answer where
  status : Status
  events : ProviderEvents
  deriving DecidableEq, Repr

def failState (r : Radio) (status : Status) : Radio := (r.setState .error).recordError status

def configureEnd (r : Radio) (status : Status) : Radio × Next :=
  let r := r.setBusy false
  (if status = .ok then { r with configured := true }.setState .standby else failState r status,
    .done status)

def transmitStartEnd (r : Radio) (status : Status) (blocking : Bool) : Radio × Next :=
  let r := r.setBusy false
  (if status = .ok then r else completeTx r status,
    if blocking = true ∧ status = .ok then .wait .watch else .done status)

def receiveStartEnd (r : Radio) (status : Status) : Radio × Next :=
  let r := r.setBusy false
  (if status = .ok then r else completeRx r status noEvents, .done status)

def channelActivityStartEnd (r : Radio) (status : Status) : Radio × Next :=
  let r := r.setBusy false
  (if status = .ok then r else completeChannelActivity r status noEvents, .done status)

def instantRssiEnd (r : Radio) (status : Status) : Radio × Next :=
  let r := r.setBusy false
  (if status = .ok then r else r.recordError status, .done status)

def serviceTx (r : Radio) (a : Answer) : Radio × Status :=
  if a.status = .ok ∧ a.events.timeout = true then (completeTx r .etimeout, .etimeout)
  else if a.status = .ok ∧ a.events.txDone = false then (r, .eagain)
  else (completeTx r a.status, a.status)

def serviceCad (r : Radio) (a : Answer) : Radio × Status :=
  if a.status = .ok ∧ a.events.timeout = true then
    (completeChannelActivity r .etimeout a.events, .etimeout)
  else if a.status = .ok ∧ a.events.cadDone = false then (r, .eagain)
  else (completeChannelActivity r a.status a.events, a.status)

def serviceRx (r : Radio) (a : Answer) : Radio × Status :=
  let e := a.events
  if a.status ≠ .ok ∨ (e.rxDone || e.timeout || e.crcError || e.headerError) = true then
    let status :=
      if a.status = .ok ∧ e.timeout = true then .etimeout
      else if a.status = .ok ∧ (e.crcError || e.headerError) = true then .eproto
      else a.status
    (completeRx r status e, status)
  else (r, .eagain)

def serviceEnd (r : Radio) (active : RadioState) (caller : Caller) (a : Answer) : Radio × Next :=
  let r := r.setBusy false
  if a.status = .eagain then (r, afterService caller .eagain)
  else
    let served :=
      if active = .tx then serviceTx r a else if active = .cad then serviceCad r a else serviceRx r a
    (served.1, afterService caller served.2)

def cancelEnd (r : Radio) (active : RadioState) (status : Status) : Radio × Next :=
  let r := r.setBusy false
  let kind : OperationKind :=
    if active = .tx then .transmit
    else if active = .cad then .channelActivityDetection
    else .receive
  (if status = .ok then
      if active = .tx then completeTx r .ecanceled
      else if active = .cad then completeChannelActivity r .ecanceled noEvents
      else ((r.setRxResult .ecanceled).setState .standby).queueEvent .cancelled .receive .ecanceled
    else (failState r status).queueEvent .error kind status,
    .done status)

def calibrateEnd (r : Radio) (status : Status) : Radio × Next :=
  let r := r.setBusy false
  (if status = .ok ∨ status = .eunsupported then r else failState r status, .done status)

def powerEnd (r : Radio) (sleep : Bool) (status : Status) : Radio × Next :=
  let r := r.setBusy false
  (if status = .ok then r.setState (if sleep then .sleep else .standby) else failState r status,
    .done status)

def dispatch (r : Radio) (status : Status) : Radio × Next :=
  match r.event with
  | none => (r, .done status)
  | some event =>
    if r.callback then
      ({ r with event := none },
        .done (if event.result ≠ .ok then event.result
          else if status = .eagain then .ok else status))
    else (r, .done status)

def Radio.spent (r : Radio) : Radio :=
  r.setRxResult (if r.receiveContinuous then .eagain else .none)

def collect (r : Radio) (bufferSize : ℕ) : Radio × Next :=
  if r.rxReady then
    ({ r with rxReady := false }.spent,
      .done (if min r.rxBuffer.length bufferSize < r.rxBuffer.length then .eoverflow else .ok))
  else if r.rxResult ≠ .eagain ∧ r.rxResult ≠ .none then (r.spent, .done r.rxResult)
  else (r, .done (if r.state = .rx then .eagain else .estate))

def watch (r : Radio) : Radio × Next :=
  if r.txStatus.state ≠ .inProgress then (r, .done r.txStatus.result)
  else (r, .wait (.serve .transmit))

structure System where
  radio : Radio
  pending : List Pending
  deriving DecidableEq, Repr

def callBegin (r : Radio) : Call → Radio × Next
  | .configure configValid => configure r configValid
  | .transmit data timeoutMs auto blocking =>
    transmitStartWithTimeout r data timeoutMs auto blocking
  | .receiveStart timeoutMs continuous => receiveStart r timeoutMs continuous
  | .receive bufferSize => receive r bufferSize
  | .instantRssi => instantRssi r
  | .channelActivityStart timeoutMs => channelActivityDetectStart r timeoutMs
  | .process => serviceActiveOperation r .process
  | .setEventCallback present => setEventCallback r present
  | .cancel => cancel r
  | .calibrate => calibrate r
  | .power sleep => setPowerState r sleep

def resume (r : Radio) (p : Pending) (a : Answer) : Radio × Next :=
  match p with
  | .configure => configureEnd r a.status
  | .transmitStart blocking => transmitStartEnd r a.status blocking
  | .receiveStart => receiveStartEnd r a.status
  | .channelActivityStart => channelActivityStartEnd r a.status
  | .instantRssi => instantRssiEnd r a.status
  | .service active caller => serviceEnd r active caller a
  | .cancel active => cancelEnd r active a.status
  | .calibrate => calibrateEnd r a.status
  | .power sleep => powerEnd r sleep a.status
  | .serve caller => serviceActiveOperation r caller
  | .dispatch status => dispatch r status
  | .collect bufferSize => collect r bufferSize
  | .watch => watch r

def Next.toPending : Next → List Pending
  | .done _ => []
  | .wait p => [p]

/-- A call begins, a pending call takes the lock again, or a provider that
services a reception stores a packet. -/
inductive Turn where
  | call (c : Call)
  | resume (index : ℕ) (a : Answer)
  | store (packet : List UInt8)

def System.turn (s : System) : Turn → System
  | .call c =>
    let begun := callBegin s.radio c
    ⟨begun.1, s.pending ++ begun.2.toPending⟩
  | .resume index a =>
    match s.pending[index]? with
    | none => s
    | some p =>
      let resumed := LoraRadio.resume s.radio p a
      ⟨resumed.1, s.pending.eraseIdx index ++ resumed.2.toPending⟩
  | .store packet =>
    if s.pending.any fun p => match p with | .service .rx _ => true | _ => false then
      { s with radio := { s.radio with rxBuffer := packet, rxReady := true } }
    else s

def run (s : System) (turns : List Turn) : System := turns.foldl System.turn s

def created : System where
  radio :=
    { state := .standby, configured := false, operationBusy := false, txBuffer := []
      transmitTimeoutMs := 0, txStatus := ⟨.idle, .none⟩, rxBuffer := [], rxReady := false
      rxResult := .none, receiveContinuous := false, receiveTimeoutMs := 0
      channelActivityStatus := ⟨.idle, .none, false⟩, channelActivityTimeoutMs := 0
      callback := false, event := none, lastError := .none, rejected := false }
  pending := []

end JaszczurHal.LoraRadio
