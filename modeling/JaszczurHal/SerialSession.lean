import JaszczurHal.SerialFrame

/-!
# The serial session

One framed endpoint: bytes are gathered into lines, framed lines dispatched to
the handlers. Each byte comes with what the clock and the entropy source would
answer while it is handled. Debug output muting is left out.
-/

set_option autoImplicit false

namespace JaszczurHal.SerialSession
open JaszczurHal.SerialFrame

def protocolVersion : ℕ := 1
def maxLine : ℕ := 128
def challengeBytes : ℕ := 16
def responseBytes : ℕ := 32
def deviceUidBytes : ℕ := 8

def salt : List UInt8 := bytes "FIESTA-SC-AUTH-v1"

abbrev Challenge := Vector UInt8 challengeBytes

abbrev Hmac := List UInt8 → List UInt8 → Option (Vector UInt8 responseBytes)

/-- `hal_serial_session_vocabulary_t`; a field that is `none` is not
recognised, or not emitted. -/
structure Vocabulary where
  cmdBye : Option (List UInt8)
  cmdAuthBegin : Option (List UInt8)
  cmdAuthProve : Option (List UInt8)
  cmdRebootBootloader : Option (List UInt8)
  replyByeOk : Option (List UInt8)
  replyUnknownCmd : Option (List UInt8)
  replyNotReadyHelloRequired : Option (List UInt8)
  replyAuthChallengeFmt : Option (List UInt8)
  replyAuthOk : Option (List UInt8)
  replyAuthFailedNoChallenge : Option (List UInt8)
  replyAuthFailedBadLength : Option (List UInt8)
  replyAuthFailedBadHex : Option (List UInt8)
  replyAuthFailedKeyDerivation : Option (List UInt8)
  replyAuthFailedMacCompute : Option (List UInt8)
  replyAuthFailedBadMac : Option (List UInt8)
  replyNotAuthorized : Option (List UInt8)
  replyRebootOk : Option (List UInt8)
  replyAuthFailedEntropy : Option (List UInt8)

def Vocabulary.empty : Vocabulary :=
  ⟨none, none, none, none, none, none, none, none, none, none, none, none, none, none, none,
    none, none, none⟩

structure Identity where
  moduleTag : List UInt8
  fwVersion : List UInt8
  buildId : List UInt8
  uidHex : List UInt8
  uidBytes : Vector UInt8 deviceUidBytes
  vocab : Vocabulary

structure UnknownHandler where
  callback : ℕ
  user : ℕ
  deriving DecidableEq

structure Session where
  identity : Identity
  active : Bool
  sessionId : UInt32
  helloCounter : UInt32
  lastActivityMs : UInt32
  line : List UInt8
  unknownHandler : Option UnknownHandler
  inRequest : Bool
  requestSeq : UInt16
  authenticated : Bool
  challengePending : Bool
  challenge : Challenge
  authCounter : UInt32
  authFailures : UInt32

structure Moment where
  millis : UInt32
  random : Option Challenge

inductive Event
  | line (framed : List UInt8)
  | hello (sessionId : UInt32)
  | bye
  | authBegin (issued : Option Challenge)
  | authProve (args : List UInt8) (authenticated : Bool)
  | enterBootloader
  | unknown (handler : UnknownHandler) (inner : List UInt8)

def unknownText : List UInt8 := bytes "unknown"

def orUnknown (text : Option (List UInt8)) : List UInt8 :=
  match text with
  | some (c :: cs) => c :: cs
  | _ => unknownText

def init (moduleTag fwVersion buildId : Option (List UInt8))
    (uidBytes : Vector UInt8 deviceUidBytes) (uidHex : Option (List UInt8))
    (vocab : Option Vocabulary) : Session where
  identity :=
    { moduleTag := moduleTag.getD unknownText
      fwVersion := orUnknown fwVersion
      buildId := orUnknown buildId
      uidHex := uidHex.getD []
      uidBytes := uidBytes
      vocab := vocab.getD .empty }
  active := false
  sessionId := 0
  helloCounter := 0
  lastActivityMs := 0
  line := []
  unknownHandler := none
  inRequest := false
  requestSeq := 0
  authenticated := false
  challengePending := false
  challenge := Vector.replicate challengeBytes 0
  authCounter := 0
  authFailures := 0

def println (s : Session) (payload : Option (List UInt8)) : List Event :=
  match payload with
  | none => []
  | some payload =>
    if !s.inRequest || payload.length > payloadMax || payload.any special then []
    else (encode s.requestSeq payload lineMax).toList.map .line

def formatString : List UInt8 → List UInt8 → List UInt8
  | 0x25 :: 0x73 :: rest, arg => arg ++ rest
  | c :: rest, arg => c :: formatString rest arg
  | [], _ => []

def fitting (size : ℕ) (text : List UInt8) : List UInt8 := text.take (size-1)

def emitHello (s : Session) : List Event :=
  println s (some (fitting 192 (bytes "OK HELLO module=" ++ s.identity.moduleTag ++
    bytes " proto=" ++ decimal protocolVersion ++ bytes " session=" ++
    decimal s.sessionId.toNat ++ bytes " fw=" ++ s.identity.fwVersion ++ bytes " build=" ++
    s.identity.buildId ++ bytes " uid=" ++ s.identity.uidHex)))

def resetAuth (s : Session) : Session :=
  { s with
    authenticated := false
    challengePending := false
    challenge := Vector.replicate challengeBytes 0 }

def hexDecode : ℕ → List UInt8 → Option (List UInt8)
  | 0, _ => some []
  | n+1, high :: low :: rest =>
    match hexNibble high, hexNibble low with
    | some high, some low => (hexDecode n rest).map fun out => (high <<< 4 ||| low) :: out
    | _, _ => none
  | _+1, _ => none

def deriveDeviceKey (hmac : Hmac) (uid : List UInt8) : Option (Vector UInt8 responseBytes) :=
  if uid.length = 0 then none else hmac salt uid

def toBytesBe (n : UInt32) : List UInt8 :=
  [(n >>> 24).toUInt8, (n >>> 16).toUInt8, (n >>> 8).toUInt8, n.toUInt8]

def computeResponse (hmac : Hmac) (key : Vector UInt8 responseBytes) (challenge : Challenge)
    (sessionId : UInt32) : Option (Vector UInt8 responseBytes) :=
  hmac key.toList (challenge.toList ++ toBytesBe sessionId)

def generateChallenge (s : Session) (random : Option Challenge) : Bool × Session :=
  match random with
  | none => (false, { s with challenge := Vector.replicate challengeBytes 0 })
  | some challenge =>
    (true, { s with challenge := challenge, authCounter := s.authCounter+1 })

def handleAuthBegin (s : Session) (moment : Moment) : Session × List Event :=
  if !s.active then
    (s, .authBegin none :: println s s.identity.vocab.replyNotReadyHelloRequired)
  else
    let (generated, s) := generateChallenge (resetAuth s) moment.random
    if !generated then
      (s, .authBegin none :: println s s.identity.vocab.replyAuthFailedEntropy)
    else
      let s := { s with challengePending := true }
      let hex := s.challenge.toList.flatMap (hexByte false)
      (s, .authBegin (some s.challenge) ::
        println s (s.identity.vocab.replyAuthChallengeFmt.map fun format =>
          fitting 64 (formatString format hex)))

def proveField (args : List UInt8) : List UInt8 :=
  (args.dropWhile (fun c => c = space)).takeWhile (fun c => c ≠ space)

def checkProof (hmac : Hmac) (s : Session) (args : List UInt8) : Bool × Option (List UInt8) :=
  let vocab := s.identity.vocab
  if (proveField args).length ≠ responseBytes*2 then (false, vocab.replyAuthFailedBadLength)
  else
    match hexDecode responseBytes (proveField args) with
    | none => (false, vocab.replyAuthFailedBadHex)
    | some provided =>
      match deriveDeviceKey hmac s.identity.uidBytes.toList with
      | none => (false, vocab.replyAuthFailedKeyDerivation)
      | some key =>
        match computeResponse hmac key s.challenge s.sessionId with
        | none => (false, vocab.replyAuthFailedMacCompute)
        | some expected =>
          if provided ≠ expected.toList then (false, vocab.replyAuthFailedBadMac)
          else (true, vocab.replyAuthOk)

def handleAuthProve (hmac : Hmac) (s : Session) (args : List UInt8) : Session × List Event :=
  if !s.active then
    (s, .authProve args false :: println s s.identity.vocab.replyNotReadyHelloRequired)
  else if !s.challengePending then
    (s, .authProve args false :: println s s.identity.vocab.replyAuthFailedNoChallenge)
  else
    let (authenticated, reply) := checkProof hmac s args
    let s := { s with
      challengePending := false
      authenticated := authenticated
      authFailures := if authenticated then s.authFailures else s.authFailures+1
      challenge := Vector.replicate challengeBytes 0 }
    (s, .authProve args authenticated :: println s reply)

def handleRebootBootloader (s : Session) : Session × List Event :=
  if !s.authenticated then (s, println s s.identity.vocab.replyNotAuthorized)
  else (s, println s s.identity.vocab.replyRebootOk ++ [.enterBootloader])

def handleBye (s : Session) (moment : Moment) : Session × List Event :=
  (resetAuth { s with active := false, lastActivityMs := moment.millis },
    .bye :: println s s.identity.vocab.replyByeOk)

def handleHello (s : Session) (moment : Moment) : Session × List Event :=
  let helloCounter := s.helloCounter+1
  let sessionId := helloCounter <<< 20 ^^^ (moment.millis &&& 0x000FFFFF)
  let s := resetAuth { s with
    active := true
    helloCounter := helloCounter
    lastActivityMs := moment.millis
    sessionId := sessionId }
  (s, .hello sessionId :: emitHello s)

def proveArgs (vocab : Vocabulary) (inner : List UInt8) : Option (List UInt8) :=
  match vocab.cmdAuthProve with
  | none => none
  | some command =>
    let rest := inner.drop command.length
    if command.isPrefixOf inner && (rest.isEmpty || rest.head? = some space) then some rest
    else none

def dispatchInner (hmac : Hmac) (s : Session) (inner : List UInt8) (moment : Moment) :
    Session × List Event :=
  let vocab := s.identity.vocab
  if inner = bytes "HELLO" then handleHello s moment
  else if vocab.cmdBye = some inner then handleBye s moment
  else if vocab.cmdAuthBegin = some inner then handleAuthBegin s moment
  else
    match proveArgs vocab inner with
    | some args => handleAuthProve hmac s args
    | none =>
      if vocab.cmdRebootBootloader = some inner then handleRebootBootloader s
      else
        match s.unknownHandler with
        | some handler => (s, [.unknown handler inner])
        | none => (s, println s vocab.replyUnknownCmd)

def cString (buffer : List UInt8) : List UInt8 := buffer.takeWhile (fun c => c ≠ 0)

def pollByte (hmac : Hmac) (s : Session) (character : UInt8) (moment : Moment) :
    Session × List Event :=
  if character ≠ carriageReturn && character ≠ lineFeed then
    (if s.line.length < maxLine then { s with line := s.line ++ [character] } else s, [])
  else if s.line.length = 0 then (s, [])
  else
    let line := s.line
    let s := { s with line := [] }
    if line.length < framePrefix.length ||
        (cString line).take framePrefix.length ≠ framePrefix then
      (s, [])
    else
      match decode (cString line) (maxLine+1) with
      | none => (s, [])
      | some (sequence, inner) =>
        let (s, events) :=
          dispatchInner hmac { s with inRequest := true, requestSeq := sequence } inner moment
        ({ s with inRequest := false }, events)

/-- The unknown-handler slot is the only other thing its owner changes. -/
inductive Input
  | byte (character : UInt8) (moment : Moment)
  | setUnknownHandler (handler : Option UnknownHandler)

def step (hmac : Hmac) (s : Session) : Input → Session × List Event
  | .byte character moment => pollByte hmac s character moment
  | .setUnknownHandler handler => ({ s with unknownHandler := handler }, [])

def run (hmac : Hmac) (s : Session) : List Input → Session × List Event
  | [] => (s, [])
  | input :: inputs =>
    let (s', events) := step hmac s input
    let (s'', events') := run hmac s' inputs
    (s'', events ++ events')

end JaszczurHal.SerialSession
