import JaszczurHal.GpsNmea
import JaszczurHal.ModemRouter
import JaszczurHal.SerialFrame

/-!
# MQTT over the SimCom modem

Six handlers and the line observer fill one record from the lines of the stream.
A message is handed to the application at the end of a poll that finds the record
complete. The handlers also keep the connection flags of the two clients.
-/

set_option autoImplicit false

namespace JaszczurHal.SimcomMqtt
open WebSocketHandshake (ascii)
open ModemAt
open GpsNmea (isSpace isDigit digitsValue)

def topicMax : ℕ := 128
def payloadMax : ℕ := 512
def plus : UInt8 := 43
def minus : UInt8 := 45
def comma : UInt8 := 44

def scanInt (text : List UInt8) : Option (ℤ × List UInt8) :=
  let unsigned := fun digits : List UInt8 =>
    if digits.takeWhile isDigit = [] then none
    else some ((digitsValue digits : ℤ), digits.dropWhile isDigit)
  match text.dropWhile isSpace with
  | [] => none
  | c :: rest =>
    if c = minus then (unsigned rest).map fun scanned => (-scanned.1, scanned.2)
    else if c = plus then unsigned rest
    else unsigned (c :: rest)

def scanInts : ℕ → List UInt8 → List ℤ
  | 0, _ => []
  | count+1, text =>
    match scanInt text with
    | none => []
    | some (value, []) => [value]
    | some (value, c :: rest) => value :: (if c = comma then scanInts count rest else [])

structure Message where
  clientIndex : ℤ
  topic : List UInt8
  payload : List UInt8
  deriving DecidableEq

structure Rx where
  inProgress : Bool
  clientIndex : ℤ
  topicLenAnnounced : ℕ
  payloadLenAnnounced : ℕ
  topic : List UInt8
  payload : List UInt8
  expectTopicLine : Bool
  expectPayloadLine : Bool
  complete : Bool
  deriving DecidableEq

def rxReset : Rx := ⟨false, -1, 0, 0, [], [], false, false, false⟩

/-- The driver with a message callback; `delivered` holds its calls. A connect
result is unknown until a line brings it. -/
structure Driver where
  rx : Rx
  connected : Fin 2 → Bool
  lastConnectResult : Fin 2 → Option ℤ
  delivered : List Message

def announced (length : ℤ) (other : ℕ) : ℕ := if 0 < length then length.toNat else other

def argumentsOf (urcPrefix : String) (count : ℕ) (line : List UInt8) : List ℤ :=
  scanInts count (line.drop (ascii urcPrefix).length)

def onUrcRxStart (d : Driver) (line : List UInt8) : Driver :=
  match argumentsOf "+CMQTTRXSTART:" 3 line with
  | [] => d
  | clientIndex :: lengths =>
    { d with rx :=
      { rxReset with
        inProgress := true
        clientIndex := clientIndex
        topicLenAnnounced := announced (lengths.getD 0 0) 0
        payloadLenAnnounced := announced (lengths.getD 1 0) 0 } }

def onUrcRxTopic (d : Driver) (line : List UInt8) : Driver :=
  if d.rx.inProgress then
    match argumentsOf "+CMQTTRXTOPIC:" 2 line with
    | [] => d
    | _ :: lengths =>
      { d with rx :=
        { d.rx with
          topicLenAnnounced := announced (lengths.getD 0 0) d.rx.topicLenAnnounced
          expectTopicLine := true } }
  else d

def onUrcRxPayload (d : Driver) (line : List UInt8) : Driver :=
  if d.rx.inProgress then
    match argumentsOf "+CMQTTRXPAYLOAD:" 2 line with
    | [] => d
    | _ :: lengths =>
      { d with rx :=
        { d.rx with
          payloadLenAnnounced := announced (lengths.getD 0 0) d.rx.payloadLenAnnounced
          expectPayloadLine := true } }
  else d

def onUrcRxEnd (d : Driver) : Driver :=
  if d.rx.inProgress then { d with rx := { d.rx with complete := true } } else d

def onUrcAny (d : Driver) (line : List UInt8) : Driver :=
  if d.rx.inProgress then
    if line.head? = some plus then d
    else if d.rx.expectTopicLine then
      { d with rx := { d.rx with topic := line.take (topicMax-1), expectTopicLine := false } }
    else if d.rx.expectPayloadLine then
      { d with rx := { d.rx with payload := line.take payloadMax, expectPayloadLine := false } }
    else d
  else d

def clientOf (index : ℤ) : Option (Fin 2) :=
  if index = 0 then some 0 else if index = 1 then some 1 else none

theorem client_exists : NeZero 2 := ⟨by decide⟩

def disconnected (d : Driver) (i : Fin 2) : Driver :=
  { d with connected := Function.update d.connected i false }

def onUrcDisconn (d : Driver) (line : List UInt8) : Driver :=
  match (argumentsOf "+CMQTTCONNLOST:" 2 line).head?.bind clientOf with
  | some i => disconnected d i
  | none => { d with connected := fun _ => false }

def parseCmqttResult (line : List UInt8) (urcPrefix : String) : Option (Fin 2 × ℤ) :=
  if (ascii urcPrefix).isPrefixOf line then
    match argumentsOf urcPrefix 2 line with
    | [clientIndex, result] =>
      if result < 0 then none else (clientOf clientIndex).map fun i => (i, result)
    | _ => none
  else none

def onUrcMqttConnect (d : Driver) (line : List UInt8) : Driver :=
  match parseCmqttResult line "+CMQTTCONNECT:" with
  | none => d
  | some (i, result) =>
    let d := { d with lastConnectResult := Function.update d.lastConnectResult i (some result) }
    if result = 0 then d else disconnected d i

def mqttUrcs : List Urc :=
  [⟨ascii "+CMQTTRXSTART:", 0⟩, ⟨ascii "+CMQTTRXTOPIC:", 1⟩, ⟨ascii "+CMQTTRXPAYLOAD:", 2⟩,
    ⟨ascii "+CMQTTRXEND:", 3⟩, ⟨ascii "+CMQTTCONNLOST:", 4⟩, ⟨ascii "+CMQTTCONNECT:", 5⟩]

def mqttRouter : Router :=
  ⟨mqttUrcs.map some ++ [none, none], true, by decide +kernel, by decide +kernel⟩

theorem mqttRouter_urcs : mqttRouter.urcs = mqttUrcs := rfl

def react (d : Driver) (event : Event) : Driver :=
  match event with
  | .written _ => d
  | .observed line => onUrcAny d line
  | .handled u line =>
    match u.cb with
    | 0 => onUrcRxStart d line
    | 1 => onUrcRxTopic d line
    | 2 => onUrcRxPayload d line
    | 3 => onUrcRxEnd d
    | 4 => onUrcDisconn d line
    | 5 => onUrcMqttConnect d line
    | _ => d

def feed (d : Driver) (events : List Event) : Driver := events.foldl react d

def handOver (d : Driver) : Driver :=
  if d.rx.complete then
    { d with
      rx := rxReset
      delivered := if d.rx.topic = [] then d.delivered
        else d.delivered ++ [⟨d.rx.clientIndex, d.rx.topic, d.rx.payload⟩] }
  else d

structure Modem where
  state : State
  driver : Driver

def advance (c : Config) (m : Modem) (i : Input) : Modem :=
  let s := step c mqttRouter m.state i
  ⟨s, feed m.driver (s.engine.log.drop m.state.engine.log.length)⟩

def mqttPoll (c : Config) (m : Modem) : Modem :=
  match m.state.phase with
  | .idle =>
    let polled := advance c m .urcPoll
    { polled with driver := handOver polled.driver }
  | _ => m

end JaszczurHal.SimcomMqtt
