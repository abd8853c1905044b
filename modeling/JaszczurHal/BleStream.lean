import JaszczurHal.BleSession

/-!
# The runtime of a BLE stream

The one stream of a device between its application and its Bluetooth backend.
Every call holds the lock of the runtime, so calls and events follow one
another; a lifecycle call releases it while the backend works and goes on
later. What the backend, the clock and the entropy source answer within a
call is an input of that call.
-/

set_option autoImplicit false

namespace JaszczurHal.BleStream
open HalStatus ByteImage BleSession

def kAttOverhead : ℕ := 3
def kMinAttMtu : ℕ := kHandshakeFrameLen+kAttOverhead

inductive BleState where
  | uninitialized
  | starting
  | ready
  | advertising
  | connected
  | scanning
  | failed
  deriving DecidableEq, Repr

structure BleInfo where
  status : Status
  state : BleState
  generation : UInt32

inductive StreamState where
  | uninitialized
  | idle
  | subscribed
  | handshaking
  | authenticated
  | backoff
  deriving DecidableEq, Repr

structure PayloadInfo where
  generation : UInt32
  sessionId : UInt64
  counter : UInt64
  deriving DecidableEq, Repr

structure StreamPayload where
  data : List UInt8
  info : PayloadInfo
  deriving DecidableEq, Repr

inductive Tick where
  | backoff
  | failure
  | activity
  | idle
  deriving DecidableEq, Repr

structure Replies where
  entropy : Entropy
  notify : Status
  discard : Status
  published : Status
  unpublished : Status
  streamCapable : Bool
  ble : BleInfo
  millis : Tick → UInt32

inductive Operation where
  | publishing (capabilities : UInt16) (idleTimeoutMs generation : UInt32)
  | rollingBack (published : Status)
  | unpublishing
  deriving DecidableEq, Repr

/-- `operation` stands for `operation_active`. `staged` tells in which
session the data frame was sent that the backend was given last; no call
reads it. -/
structure Runtime where
  state : StreamState
  lastStatus : Status
  capabilities : UInt16
  negotiatedCapabilities : UInt16
  generation : UInt32
  idleTimeoutMs : UInt32
  txCounter : UInt64
  rxCounter : UInt64
  authFailures : UInt32
  replayRejections : UInt32
  droppedRxFrames : UInt32
  droppedTxFrames : UInt32
  nativeConnection : UInt16
  session : Session
  authAttempts : UInt32
  backoffUntilMs : UInt32
  lastActivityMs : UInt32
  rx : List StreamPayload
  tx : List (List UInt8)
  controlFrame : List UInt8
  attMtu : UInt16
  initialized : Bool
  operation : Option Operation
  subscribed : Bool
  rxOverflowPending : Bool
  notificationPending : Bool
  staged : Option ℕ

def boot : Runtime where
  state := .uninitialized
  lastStatus := .none
  capabilities := 0
  negotiatedCapabilities := 0
  generation := 0
  idleTimeoutMs := 0
  txCounter := 0
  rxCounter := 0
  authFailures := 0
  replayRejections := 0
  droppedRxFrames := 0
  droppedTxFrames := 0
  nativeConnection := 0
  session := emptySession
  authAttempts := 0
  backoffUntilMs := 0
  lastActivityMs := 0
  rx := []
  tx := []
  controlFrame := []
  attMtu := 0
  initialized := false
  operation := none
  subscribed := false
  rxOverflowPending := false
  notificationPending := false
  staged := none

def clearPayloadQueues (s : Runtime) : Runtime :=
  { s with
    rx := []
    tx := []
    rxOverflowPending := false
    txCounter := 0
    rxCounter := 0 }

def restingState (s : Runtime) : StreamState := if s.subscribed then .subscribed else .idle

def closeSession (s : Runtime) : Runtime :=
  let s := { clearPayloadQueues { s with session := reset s.session } with
    controlFrame := []
    negotiatedCapabilities := 0 }
  if s.state = .backoff then s else { s with state := restingState s }

def registerAuthFailure (b : Build) (r : Replies) (s : Runtime) : Runtime :=
  let s := { s with authFailures := s.authFailures+1, authAttempts := s.authAttempts+1 }
  if b.authAttemptLimit ≤ s.authAttempts then
    { s with backoffUntilMs := r.millis .failure+b.authBackoffMs, state := .backoff }
  else s

def backoffActive (r : Replies) (s : Runtime) : Bool × Runtime :=
  if s.state ≠ .backoff then (false, s)
  else if r.millis .backoff-s.backoffUntilMs < 0x80000000 then
    (false, { s with authAttempts := 0, state := restingState s })
  else (true, s)

def activeSessionId (s : Runtime) : UInt64 :=
  if s.state ≠ .authenticated then 0 else loadLe64 (ofList s.session.sessionId) 0

def activeSessionMatches (expectedGeneration : UInt32) (expectedSessionId : UInt64)
    (s : Runtime) : Bool :=
  decide (s.state = .authenticated ∧ s.generation = expectedGeneration ∧
    activeSessionId s = expectedSessionId)

def flushControl (r : Replies) (s : Runtime) : Status × Runtime :=
  if r.notify = .ok then
    (.ok, { s with controlFrame := [], notificationPending := true, staged := none })
  else if r.notify = .eagain then (.eagain, s)
  else (r.notify, closeSession { s with lastStatus := r.notify })

def flushData (b : Build) (k : Crypto) (r : Replies) (payload : List UInt8)
    (rest : List (List UInt8)) (s : Runtime) : Status × Runtime :=
  match buildData b k payload s.session with
  | .error built =>
    let s := { s with lastStatus := built }
    (built, if built = .eoverflow then closeSession s else s)
  | .ok (frame, session) =>
    let previousCounter := s.txCounter
    let session := record (fun l => { l with offered := l.offered ++ [frame] }) session
    if r.notify = .eagain then
      (.eagain, { s with session := { session with txCounter := previousCounter } })
    else if r.notify ≠ .ok then
      (r.notify, closeSession { s with session := session, lastStatus := r.notify })
    else
      (.ok, { s with
        session := record (fun l => { l with sent := l.sent ++ [frame] }) session
        tx := rest
        txCounter := session.txCounter
        notificationPending := true
        staged := some session.history.sessions.length })

def flushTx (b : Build) (k : Crypto) (r : Replies) (s : Runtime) : Status × Runtime :=
  if s.notificationPending then (.eagain, s)
  else if s.controlFrame ≠ [] then flushControl r s
  else match s.tx with
    | [] => (.ok, s)
    | payload :: rest => flushData b k r payload rest s

def sendAuthorized (expected : Option (UInt32 × UInt64)) (s : Runtime) : Bool :=
  match expected with
  | some (generation, sessionId) => activeSessionMatches generation sessionId s
  | none => decide (s.state = .authenticated)

def streamSend (b : Build) (k : Crypto) (r : Replies) (data : List UInt8)
    (expected : Option (UInt32 × UInt64)) (s : Runtime) : Status × Runtime :=
  let frameLength := kFrameHeaderLen+kCounterLen+data.length+kTagLen
  if data.length = 0 ∨ b.maxPayload < data.length then (.einval, s)
  else if s.operation.isSome then (.ebusy, s)
  else if ¬ s.initialized then (.euninit, s)
  else if ¬ sendAuthorized expected s then (.eauth, s)
  else if s.attMtu.toNat < kAttOverhead ∨ s.attMtu.toNat-kAttOverhead < frameLength then
    (.eoverflow, s)
  else if s.tx.length = b.txQueueDepth then
    (.eagain, { s with droppedTxFrames := s.droppedTxFrames+1 })
  else
    let (flushed, s) := flushTx b k r { s with
      tx := s.tx ++ [data]
      session := record (fun l => { l with queued := l.queued ++ [data] }) s.session }
    (if flushed = .eagain then .ok else flushed, s)

structure Received where
  status : Status
  bytes : List UInt8
  info : Option PayloadInfo
  deriving DecidableEq, Repr

def noPayload (status : Status) : Received := ⟨status, [], none⟩

def receiveAuthorized (expected : Option (UInt32 × UInt64)) (s : Runtime) : Bool :=
  match expected with
  | some (generation, sessionId) => activeSessionMatches generation sessionId s
  | none => true

def expectedInfo (expected : Option (UInt32 × UInt64)) (info : PayloadInfo) : Bool :=
  match expected with
  | some (generation, sessionId) =>
    decide (info.generation = generation ∧ info.sessionId = sessionId)
  | none => true

def streamReceive (capacity : ℕ) (expected : Option (UInt32 × UInt64)) (s : Runtime) :
    Received × Runtime :=
  if capacity = 0 then (noPayload .einval, s)
  else if s.operation.isSome then (noPayload .ebusy, s)
  else if ¬ s.initialized then (noPayload .euninit, s)
  else if ¬ receiveAuthorized expected s then (noPayload .eauth, s)
  else if s.rxOverflowPending then (noPayload .eoverflow, { s with rxOverflowPending := false })
  else match s.rx with
    | [] => (noPayload .eagain, s)
    | payload :: rest =>
      if ¬ expectedInfo expected payload.info then (noPayload .eproto, s)
      else if capacity < payload.data.length then (noPayload .eoverflow, s)
      else
        (⟨.ok, payload.data, some payload.info⟩, { s with
          rx := rest
          session := record (fun l =>
            { l with returned := l.returned ++ [(payload.info.counter, payload.data)] })
            s.session })

structure StreamConfig where
  capabilities : UInt16
  idleTimeoutMs : UInt32

def unlink (s : Runtime) : Runtime :=
  { s with
    subscribed := false
    nativeConnection := 0
    attMtu := 0
    notificationPending := false }

/-- `hal_ble_stream_initialize` up to the release of the lock; it answers
with no status when it goes on. -/
def streamInitialize (b : Build) (config : StreamConfig) (r : Replies) (s : Runtime) :
    Option Status × Runtime :=
  if r.ble.status ≠ .ok then (some r.ble.status, s)
  else if r.ble.state = .uninitialized then (some .euninit, s)
  else if r.ble.state = .failed ∨ r.ble.generation = 0 then (some .estate, s)
  else if ¬ r.streamCapable then (some .eunsupported, s)
  else if s.operation.isSome then (some .ebusy, s)
  else if s.initialized then
    (some .ok, if s.generation ≠ r.ble.generation then
      closeSession (unlink { s with generation := r.ble.generation }) else s)
  else
    (none, { s with operation := some (.publishing config.capabilities
      (if config.idleTimeoutMs ≠ 0 then config.idleTimeoutMs else b.sessionIdleTimeoutMs)
      r.ble.generation) })

def publishStatus (generation : UInt32) (r : Replies) : Status :=
  if r.published ≠ .ok then r.published
  else if r.ble.status ≠ .ok then r.ble.status
  else if r.ble.state = .uninitialized then .euninit
  else if r.ble.state = .failed ∨ r.ble.generation = 0 ∨ r.ble.generation ≠ generation then .estate
  else .ok

def commit (capabilities : UInt16) (idleTimeoutMs generation : UInt32) (s : Runtime) : Runtime :=
  let s := unlink { s with
    capabilities := capabilities
    idleTimeoutMs := idleTimeoutMs
    state := .idle
    lastStatus := .ok
    generation := generation
    initialized := true
    authAttempts := 0
    backoffUntilMs := 0
    lastActivityMs := 0
    authFailures := 0
    replayRejections := 0
    droppedRxFrames := 0
    droppedTxFrames := 0
    session := { clear s.session with localCapabilities := capabilities } }
  { closeSession s with operation := none }

def rollBack (published : Status) (s : Runtime) : Runtime :=
  { unlink (clearPayloadQueues { s with session := clear s.session }) with
    controlFrame := []
    initialized := false
    state := .uninitialized
    lastStatus := published
    operation := none }

def deinitializeStream (s : Runtime) : Option Status × Runtime :=
  if s.operation.isSome then (some .ebusy, s)
  else if ¬ s.initialized then (some .ok, s)
  else (none, { s with operation := some .unpublishing })

def tearDown (unpublished : Status) (s : Runtime) : Runtime :=
  let s := closeSession { s with state := .idle }
  { unlink { s with session := clear s.session } with
    initialized := false
    state := .uninitialized
    lastStatus := unpublished
    operation := none }

def resume (r : Replies) (s : Runtime) : Option Status × Runtime :=
  match s.operation with
  | none => (none, s)
  | some (.publishing capabilities idleTimeoutMs generation) =>
    if publishStatus generation r = .ok then
      (some .ok, commit capabilities idleTimeoutMs generation s)
    else (none, { s with operation := some (.rollingBack (publishStatus generation r)) })
  | some (.rollingBack published) => (some published, rollBack published s)
  | some .unpublishing => (some r.unpublished, tearDown r.unpublished s)

def streamSetSecret (secret : List UInt8) (s : Runtime) : Status × Runtime :=
  if secret.length < kSecretMinLen ∨ kSecretMaxLen < secret.length then (.einval, s)
  else if s.operation.isSome then (.ebusy, s)
  else if ¬ s.initialized then (.euninit, s)
  else
    let s := closeSession s
    ((setSecret secret s.session).1, { s with session := (setSecret secret s.session).2 })

def clearSecret (s : Runtime) : Status × Runtime :=
  if s.operation.isSome then (.ebusy, s)
  else if ¬ s.initialized then (.euninit, s)
  else (.ok, closeSession { s with
    session := { clear s.session with localCapabilities := s.capabilities } })

def streamCloseSession (reason : CloseReason) (s : Runtime) : Status × Runtime :=
  if s.operation.isSome then (.ebusy, s)
  else if ¬ s.initialized then (.euninit, s)
  else if reason = .authFailed then
    (.ok, closeSession { s with authFailures := s.authFailures+1 })
  else if reason = .replayDetected then
    (.ok, closeSession { s with replayRejections := s.replayRejections+1 })
  else (.ok, closeSession s)

structure StreamInfo where
  state : StreamState
  lastStatus : Status
  capabilities : UInt16
  negotiatedCapabilities : UInt16
  generation : UInt32
  sessionId : UInt64
  txCounter : UInt64
  rxCounter : UInt64
  authFailures : UInt32
  replayRejections : UInt32
  droppedRxFrames : UInt32
  droppedTxFrames : UInt32
  pendingRx : ℕ
  pendingTx : ℕ
  secretProvisioned : Bool
  subscribed : Bool

def getInfo (s : Runtime) : StreamInfo where
  state := s.state
  lastStatus := s.lastStatus
  capabilities := s.capabilities
  negotiatedCapabilities := s.negotiatedCapabilities
  generation := s.generation
  sessionId := activeSessionId s
  txCounter := s.txCounter
  rxCounter := s.rxCounter
  authFailures := s.authFailures
  replayRejections := s.replayRejections
  droppedRxFrames := s.droppedRxFrames
  droppedTxFrames := s.droppedTxFrames
  pendingRx := s.rx.length
  pendingTx := s.tx.length+if s.notificationPending then 1 else 0
  secretProvisioned := decide (s.session.secret.length ≠ 0)
  subscribed := s.subscribed

inductive BackendEvent where
  | subscription (subscribed : Bool) (nativeConnection mtu : UInt16)
  | write (frame : List UInt8) (mtu : UInt16)
  | canSend (status : Status)
  | mtuUpdated (nativeConnection mtu : UInt16)

def isHello (frame : List UInt8) : Bool :=
  decide (kFrameHeaderLen ≤ frame.length ∧ ofList frame 0 = kProtocolVersion ∧
    ofList frame 1 = kFrameHello)

def onSubscription (subscribed : Bool) (nativeConnection mtu : UInt16) (s : Runtime) : Runtime :=
  let s := { s with
    subscribed := subscribed
    nativeConnection := nativeConnection
    attMtu := mtu }
  if ¬ s.subscribed then closeSession { s with notificationPending := false }
  else if s.state = .idle then { s with state := .subscribed }
  else s

def respond (b : Build) (k : Crypto) (r : Replies) (result : Result) (s : Runtime) : Runtime :=
  if result.response = [] then s
  else (flushTx b k r { s with controlFrame := result.response }).2

def queueReceived (b : Build) (result : Result) (s : Runtime) : Runtime :=
  if result.payload = [] then s
  else
    let s :=
      if s.rx.length = b.rxQueueDepth then
        { s with droppedRxFrames := s.droppedRxFrames+1, rxOverflowPending := true }
      else
        { s with rx := s.rx ++ [⟨result.payload,
          ⟨s.generation, activeSessionId s, s.session.rxCounter⟩⟩] }
    { s with rxCounter := s.session.rxCounter }

def followSession (result : Result) (s : Runtime) : Runtime :=
  if result.close.isSome then closeSession s
  else if s.session.state = .authenticated then
    { s with
      state := .authenticated
      negotiatedCapabilities := s.capabilities &&& s.session.peerCapabilities
      authAttempts := 0 }
  else if s.session.state = .handshaking then { s with state := .handshaking }
  else s

def noteResult (b : Build) (r : Replies) (frame : List UInt8) (status : Status) (result : Result)
    (s : Runtime) : Runtime :=
  let s :=
    if status = .ok ∧ isHello frame ∧ s.session.state = .handshaking then
      { clearPayloadQueues s with negotiatedCapabilities := 0 }
    else s
  if status = .eauth then registerAuthFailure b r s
  else if result.close = some .replayDetected then
    { s with replayRejections := s.replayRejections+1 }
  else s

def acceptFrame (b : Build) (k : Crypto) (r : Replies) (frame : List UInt8) (s : Runtime) :
    Runtime :=
  let (status, result, session) := handleFrame b k r.entropy frame s.session
  let s := noteResult b r frame status result { s with
    session := session
    lastStatus := status
    lastActivityMs := r.millis .activity }
  followSession result (queueReceived b result (respond b k r result s))

def checkMtu (b : Build) (k : Crypto) (r : Replies) (frame : List UInt8) (mtu : UInt16)
    (s : Runtime) : Runtime :=
  if isHello frame ∧ mtu.toNat < kMinAttMtu then { s with lastStatus := .eoverflow }
  else acceptFrame b k r frame s

def onWrite (b : Build) (k : Crypto) (r : Replies) (frame : List UInt8) (mtu : UInt16)
    (s : Runtime) : Runtime :=
  let (active, s) := backoffActive r s
  if active then { s with droppedRxFrames := s.droppedRxFrames+1, lastStatus := .eauth }
  else if s.controlFrame ≠ [] then
    { s with droppedRxFrames := s.droppedRxFrames+1, lastStatus := .ebusy }
  else if isHello frame ∧ s.notificationPending then
    if r.discard ≠ .ok then
      let s := { s with droppedRxFrames := s.droppedRxFrames+1, lastStatus := r.discard }
      if r.discard ≠ .ebusy then closeSession s else s
    else checkMtu b k r frame mtu { s with notificationPending := false }
  else checkMtu b k r frame mtu s

def onCanSend (b : Build) (k : Crypto) (r : Replies) (status : Status) (s : Runtime) : Runtime :=
  let s := { s with notificationPending := false }
  if status = .ok then (flushTx b k r s).2
  else closeSession { s with lastStatus := status }

def onBackendEvent (b : Build) (k : Crypto) (r : Replies) (event : BackendEvent) (s : Runtime) :
    Runtime :=
  if ¬ s.initialized ∨ s.operation.isSome then s
  else match event with
    | .subscription subscribed nativeConnection mtu =>
      onSubscription subscribed nativeConnection mtu s
    | .write frame mtu => onWrite b k r frame mtu s
    | .canSend status => onCanSend b k r status s
    | .mtuUpdated nativeConnection mtu =>
      if s.nativeConnection = nativeConnection then { s with attMtu := mtu } else s

def expireSession (r : Replies) (s : Runtime) : Runtime :=
  if s.state = .authenticated ∧ s.idleTimeoutMs ≤ r.millis .idle-s.lastActivityMs then
    closeSession { s with lastStatus := .etimeout }
  else s

def onPoll (b : Build) (k : Crypto) (r : Replies) (s : Runtime) : Runtime :=
  if ¬ s.initialized ∨ s.operation.isSome then s
  else
    let s := expireSession r (backoffActive r s).2
    if s.controlFrame ≠ [] ∨ s.tx ≠ [] then (flushTx b k r s).2 else s

def onLinkLost (generation : UInt32) (s : Runtime) : Runtime :=
  if s.initialized then closeSession (unlink { s with generation := generation }) else s

inductive Call where
  | start (config : StreamConfig)
  | deinitializeStream
  | resume
  | setSecret (secret : List UInt8)
  | clearSecret
  | send (data : List UInt8) (expected : Option (UInt32 × UInt64))
  | receive (capacity : ℕ) (expected : Option (UInt32 × UInt64))
  | closeSession (reason : CloseReason)
  | backendEvent (event : BackendEvent)
  | poll
  | linkLost (generation : UInt32)

def step (b : Build) (k : Crypto) (r : Replies) (call : Call) (s : Runtime) : Runtime :=
  match call with
  | .start config => (streamInitialize b config r s).2
  | .deinitializeStream => (deinitializeStream s).2
  | .resume => (resume r s).2
  | .setSecret secret => (streamSetSecret secret s).2
  | .clearSecret => (clearSecret s).2
  | .send data expected => (streamSend b k r data expected s).2
  | .receive capacity expected => (streamReceive capacity expected s).2
  | .closeSession reason => (streamCloseSession reason s).2
  | .backendEvent event => onBackendEvent b k r event s
  | .poll => onPoll b k r s
  | .linkLost generation => onLinkLost generation s

def run (b : Build) (k : Crypto) : List (Call × Replies) → Runtime → Runtime
  | [], s => s
  | (call, r) :: rest, s => run b k rest (step b k r call s)

end JaszczurHal.BleStream
