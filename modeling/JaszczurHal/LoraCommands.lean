import JaszczurHal.CommandAdapter

/-!
# Commands over the LoRa link

`hal_lora_commands`: one transmit buffer, one pending response and one received
message for the application. Every call runs under the context's mutex; only a
request's handler runs with the mutex released, so a step is a call, or the
part of `process` before or after the handler. What the link and the router
answer comes with the step.
-/

set_option autoImplicit false

namespace JaszczurHal.LoraCommands
open JaszczurHal.ByteImage JaszczurHal.CommandTypes JaszczurHal.HalStatus JaszczurHal.CommandWire
  JaszczurHal.CommandAdapter

/-- The build's sizes and the configuration that `hal_lora_commands_create`
accepts. -/
structure Config extends Limits where
  responseBufferSize : ℕ
  maxMessageSize : ℕ
  maxMessageSize_ge : headerSize ≤ maxMessageSize
  port : UInt8
  acknowledged : Bool
  initialRequestId : UInt32
  initialRequestId_ne : initialRequestId ≠ 0

def addressNone : UInt16 := 0
def addressBroadcast : UInt16 := 0xFFFF

structure Info where
  source : UInt16
  destination : UInt16
  sessionId : UInt32
  sequence : UInt32
  port : UInt8
  fragmentCount : UInt8
  encrypted : Bool
  deriving DecidableEq

def Info.zero : Info := ⟨0, 0, 0, 0, 0, 0, false⟩

structure Context (c : Config) where
  lastError : Status
  lastReceived : Info
  scratchMessage : Message c.toLimits
  dispatchMessage : Message c.toLimits
  dispatchInfo : Info
  handlerResponse : Response
  receiveWire : Image
  transmitWire : Image
  pendingResponseLength : ℕ
  pendingResponseDestination : UInt16
  nextRequestId : UInt32
  receivedMessage : Message c.toLimits
  receivedInfo : Info
  pendingResponse : Bool
  receivedReady : Bool
  processActive : Bool
  dispatchActive : Bool

structure Delivery (c : Config) where
  bytes : List UInt8
  info : Info
  bytes_le : bytes.length ≤ c.maxMessageSize

inductive Received (c : Config)
  | message (delivery : Delivery c)
  | refused (status : Status) (h : status ≠ .ok)

structure Send where
  destination : UInt16
  port : UInt8
  bytes : List UInt8
  acknowledged : Bool
  status : Status
  deriving DecidableEq

structure Frame where
  linkStatus : Status
  requestId : UInt32
  source : UInt16

structure Log (c : Config) where
  deliveries : List (Delivery c)
  calls : List (Message c.toLimits × Info)
  replies : List Response
  sends : List Send
  handed : List (Message c.toLimits × Info)

structure State (c : Config) where
  context : Context c
  frame : Option Frame
  log : Log c

def start (c : Config) : State c where
  context := {
    lastError := .none
    lastReceived := .zero
    scratchMessage := zeroMessage _
    dispatchMessage := zeroMessage _
    dispatchInfo := .zero
    handlerResponse := .zero
    receiveWire := fun _ => 0
    transmitWire := fun _ => 0
    pendingResponseLength := 0
    pendingResponseDestination := 0
    nextRequestId := c.initialRequestId
    receivedMessage := zeroMessage _
    receivedInfo := .zero
    pendingResponse := false
    receivedReady := false
    processActive := false
    dispatchActive := false }
  frame := none
  log := ⟨[], [], [], [], []⟩

variable {c : Config}

abbrev State.update (s : State c) (context : Context c) : State c := { s with context := context }

def recordError (s : State c) (status : Status) : State c :=
  if statusIsHard status then s.update { s.context with lastError := status } else s

def selectProcessStatus (linkStatus operationStatus : Status) (progressed : Bool) : Status :=
  if statusIsHard linkStatus then linkStatus
  else if statusIsHard operationStatus then operationStatus
  else if operationStatus = .ignored ∨ linkStatus = .ignored then .ignored
  else if progressed then .ok else .eagain

def linkSendStart (s : State c) (destination : UInt16) (length : ℕ) (acknowledged : Bool)
    (status : Status) : State c :=
  { s with log := { s.log with sends := s.log.sends ++
      [⟨destination, c.port, slice s.context.transmitWire 0 length, acknowledged, status⟩] } }

def clearWire (wire : Image) (length : ℕ) : Image := write wire 0 (List.replicate length 0)

def tryPendingResponse (s : State c) (status : Status) : Status × State c :=
  let sent := linkSendStart s s.context.pendingResponseDestination
    s.context.pendingResponseLength c.acknowledged status
  if status = .ok then
    (.ok, sent.update { sent.context with
      transmitWire := clearWire sent.context.transmitWire sent.context.pendingResponseLength
      pendingResponseLength := 0
      pendingResponseDestination := addressNone
      pendingResponse := false })
  else if status = .ebusy ∨ status = .eagain then (status, sent)
  else
    (status, recordError (sent.update { sent.context with
      pendingResponseLength := 0
      pendingResponseDestination := addressNone
      pendingResponse := false }) status)

def encodeDispatchResponse (s : State c) (requestId : UInt32) (destination : UInt16) :
    Status × State c :=
  let (status, scratch, length, bytes) := encodeResponse s.context.scratchMessage
    c.responseBufferSize s.context.handlerResponse requestId c.maxMessageSize
  let encoded := s.update { s.context with
    scratchMessage := scratch
    transmitWire := write s.context.transmitWire 0 bytes }
  if status ≠ .ok then (status, recordError encoded status)
  else
    (.ok, encoded.update { encoded.context with
      pendingResponseLength := length
      pendingResponseDestination := destination
      pendingResponse := true })

def finishProcess (s : State c) (status : Status) : Option Status × State c :=
  (some status, s.update { s.context with processActive := false })

def dispatchRequest (s : State c) (linkStatus : Status) : Option Status × State c :=
  let request := s.context.dispatchMessage
  let info := s.context.dispatchInfo
  (none, {
    context := { s.context with dispatchActive := true }
    frame := some ⟨linkStatus, request.requestId, info.source⟩
    log := { s.log with calls := s.log.calls ++ [(request, info)] } })

def handleReceivedMessage (s : State c) (wireLength : ℕ) (linkStatus : Status) :
    Option Status × State c :=
  match decode c.toLimits s.context.receiveWire wireLength with
  | .error status =>
    let s := s.update { s.context with scratchMessage := zeroMessage _ }
    finishProcess (recordError s status) (selectProcessStatus linkStatus status true)
  | .ok message =>
    let s := s.update { s.context with scratchMessage := message }
    if s.context.scratchMessage.type = messageRequest then
      dispatchRequest (s.update { s.context with
        dispatchMessage := s.context.scratchMessage
        dispatchInfo := s.context.lastReceived }) linkStatus
    else if s.context.scratchMessage.type = messageResponse ∨
        s.context.scratchMessage.type = messageEvent then
      finishProcess (s.update { s.context with
        receivedMessage := s.context.scratchMessage
        receivedInfo := s.context.lastReceived
        receivedReady := true }) (selectProcessStatus linkStatus .ok true)
    else
      finishProcess s (selectProcessStatus linkStatus .eproto true)

def receiveLink (s : State c) (linkStatus : Status) (progressed : Bool)
    (received : Received c) : Option Status × State c :=
  match received with
  | .refused status _ =>
    if status = .eagain then finishProcess s (selectProcessStatus linkStatus status progressed)
    else
      finishProcess (recordError s status) (selectProcessStatus linkStatus status progressed)
  | .message delivery =>
    let s := { s with
      context := { s.context with
        receiveWire := write s.context.receiveWire 0 delivery.bytes
        lastReceived := delivery.info }
      log := { s.log with deliveries := s.log.deliveries ++ [delivery] } }
    if delivery.info.port ≠ c.port then
      finishProcess s (selectProcessStatus linkStatus .ignored true)
    else
      handleReceivedMessage s delivery.bytes.length linkStatus

def process (s : State c) (linkStatus send : Status) (received : Received c) :
    Option Status × State c :=
  if s.context.processActive then (some .ebusy, s)
  else
    let s := recordError (s.update { s.context with processActive := true }) linkStatus
    let progressed : Bool := linkStatus = .ok
    if s.context.pendingResponse then
      let (pendingStatus, s) := tryPendingResponse s send
      let progressed : Bool := progressed || pendingStatus = .ok
      if pendingStatus ≠ .ok ∧ pendingStatus ≠ .ebusy ∧ pendingStatus ≠ .eagain then
        finishProcess s (selectProcessStatus linkStatus pendingStatus progressed)
      else if s.context.pendingResponse then
        finishProcess s (selectProcessStatus linkStatus .eagain progressed)
      else if s.context.receivedReady then
        finishProcess s (selectProcessStatus linkStatus .eagain progressed)
      else
        receiveLink s linkStatus progressed received
    else if s.context.receivedReady then
      finishProcess s (selectProcessStatus linkStatus .eagain progressed)
    else
      receiveLink s linkStatus progressed received

def afterDispatch (s : State c) (f : Frame) (response : Response) (send : Status) :
    Option Status × State c :=
  let s := { s with
    context := { s.context with
      handlerResponse := response
      dispatchActive := false }
    frame := none
    log := { s.log with replies := s.log.replies ++ [response] } }
  let (status, s) := encodeDispatchResponse s f.requestId f.source
  let s := s.update { s.context with
    dispatchMessage := zeroMessage _
    dispatchInfo := .zero
    handlerResponse := .zero }
  if status ≠ .ok then finishProcess s (selectProcessStatus f.linkStatus status true)
  else
    let (status, s) := tryPendingResponse s send
    let status := if status = .ebusy ∨ status = .eagain then .ok else status
    finishProcess s (selectProcessStatus f.linkStatus status true)

def sendMessage (s : State c) (destination : UInt16) (type : ℤ) (requestId : UInt32)
    (name : Option (List UInt8)) (encoding : ℤ) (payload : Option (List UInt8))
    (payloadLength : ℕ) (acknowledged : Bool) (send : Status) : Status × State c :=
  let (status, scratch, length, bytes) := prepareMessage s.context.scratchMessage type requestId
    name encoding payload payloadLength c.maxMessageSize
  let prepared := s.update { s.context with
    scratchMessage := scratch
    transmitWire := write s.context.transmitWire 0 bytes }
  if status ≠ .ok then (status, recordError prepared status)
  else
    let sent := linkSendStart prepared destination length acknowledged send
    if send = .ok then
      (.ok, sent.update { sent.context with
        transmitWire := clearWire sent.context.transmitWire length })
    else (send, recordError sent send)

def requestStart (s : State c) (destination : UInt16) (command : Option (List UInt8))
    (encoding : ℤ) (arguments : Option (List UInt8)) (argumentsLength : ℕ) (send : Status) :
    Status × UInt32 × State c :=
  if destination = addressBroadcast then (.einval, 0, s)
  else if s.context.pendingResponse then (.ebusy, 0, s)
  else
    let requestId := s.context.nextRequestId
    let (status, s) := sendMessage s destination messageRequest requestId command encoding
      arguments argumentsLength c.acknowledged send
    if status = .ok then
      (.ok, requestId, s.update { s.context with
        nextRequestId := CommandAdapter.nextRequestId requestId })
    else (status, 0, s)

def eventStart (s : State c) (destination : UInt16) (event : Option (List UInt8))
    (encoding : ℤ) (payload : Option (List UInt8)) (payloadLength : ℕ) (send : Status) :
    Status × State c :=
  if s.context.pendingResponse then (.ebusy, s)
  else
    let acknowledged := if destination = addressBroadcast then false else c.acknowledged
    sendMessage s destination messageEvent 0 event encoding payload payloadLength acknowledged send

def receive (s : State c) : Status × State c :=
  if !s.context.receivedReady then (.eagain, s)
  else
    (.ok, { s with
      context := { s.context with
        receivedMessage := zeroMessage _
        receivedInfo := .zero
        receivedReady := false }
      log := { s.log with handed := s.log.handed ++
        [(s.context.receivedMessage, s.context.receivedInfo)] } })

inductive Action (c : Config)
  | process (linkStatus send : Status) (received : Received c)
  | handlerReturns (response : Response) (send : Status)
  | requestStart (destination : UInt16) (command : Option (List UInt8)) (encoding : ℤ)
      (arguments : Option (List UInt8)) (argumentsLength : ℕ) (send : Status)
  | eventStart (destination : UInt16) (event : Option (List UInt8)) (encoding : ℤ)
      (payload : Option (List UInt8)) (payloadLength : ℕ) (send : Status)
  | receive

/-- One locked section: what the call returns, where it ends, and the state. A
handler's return is a step only while a handler runs. -/
def step (s : State c) : Action c → Option Status × State c
  | .process linkStatus send received => process s linkStatus send received
  | .handlerReturns response send =>
    match s.frame with
    | none => (none, s)
    | some f => afterDispatch s f response send
  | .requestStart destination command encoding arguments argumentsLength send =>
    let (status, _, s) := requestStart s destination command encoding arguments argumentsLength send
    (some status, s)
  | .eventStart destination event encoding payload payloadLength send =>
    let (status, s) := eventStart s destination event encoding payload payloadLength send
    (some status, s)
  | .receive =>
    let (status, s) := receive s
    (some status, s)

def run (s : State c) : List (Action c) → State c
  | [] => s
  | action :: rest => run (step s action).2 rest

end JaszczurHal.LoraCommands
