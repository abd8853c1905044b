import JaszczurHal.HalCrc
import JaszczurHal.LoraFrame
import JaszczurHal.SerialWindow

/-!
# A reliable LoRa link

The context of one link and its calls. Every answer of the radio and every
reading of the clock within a call is an input of that call. What the link
hands to the radio, accepts and hands out is kept in a history that no call
reads.
-/

set_option autoImplicit false

namespace JaszczurHal.LoraLink
open HalStatus HalCrc ByteImage LoraFrame SerialWindow

def kMaxFragments : ℕ := 32

structure Build where
  maxMessage : ℕ
  maxPeers : ℕ
  message_pos : 0 < maxMessage
  message_le : maxMessage ≤ 4096
  peers_pos : 0 < maxPeers
  peers_le : maxPeers ≤ 32

theorem default_peers_pos : 0 < 8 := by decide

def defaultBuild : Build := ⟨1024, 8, by decide, by decide, default_peers_pos, by decide⟩

inductive RadioState where
  | standby
  | rx
  | tx
  | cad
  | sleep
  | error
  deriving DecidableEq, Repr

inductive OperationState where
  | idle
  | inProgress
  | succeeded
  | timedOut
  | cancelled
  | failed
  deriving DecidableEq, Repr

inductive LinkState where
  | receiving
  | transmitting
  | waitingAcknowledgement
  | retryWait
  | sendingAcknowledgement
  | error
  deriving DecidableEq, Repr

inductive Tick where
  | expire
  | seen
  | slot (index : ℕ) (oldest : Bool)
  | mark
  | reassembly
  | ackWait
  | retry
  | backoff
  deriving DecidableEq, Repr

structure Replies where
  stopState : Status × RadioState
  stopCancel : Status
  stopStandby : Status
  receiveState : Status × RadioState
  receiveStandby : Status
  receiveContinuous : Status
  transmitStart : Status
  receiveStart : Status
  process : Status
  received : Status × List UInt8
  txStatus : Status × OperationState × Status
  millis : Tick → UInt32

def silentRadio : Replies where
  stopState := (.ok, .rx)
  stopCancel := .ok
  stopStandby := .ok
  receiveState := (.ok, .standby)
  receiveStandby := .ok
  receiveContinuous := .ok
  transmitStart := .ok
  receiveStart := .ok
  process := .ok
  received := (.eagain, [])
  txStatus := (.ok, .succeeded, .ok)
  millis := fun _ => 0

structure Peer where
  source : UInt16
  sessionId : UInt32
  newestSequence : UInt32
  receivedWindow : UInt32
  lastSeenMs : UInt32
  valid : Bool
  deriving DecidableEq, Repr

structure Reassembly where
  source : UInt16
  destination : UInt16
  sessionId : UInt32
  sequence : UInt32
  integrity : UInt32
  receivedFragments : UInt32
  startedMs : UInt32
  messageLength : UInt16
  port : UInt8
  fragmentCount : UInt8
  acknowledged : Bool
  encrypted : Bool
  active : Bool
  deriving DecidableEq, Repr

structure SendStatus where
  state : OperationState
  result : Status
  sequence : UInt32
  attempts : UInt16
  fragmentCount : UInt8
  deriving DecidableEq, Repr

structure MessageInfo where
  source : UInt16
  destination : UInt16
  sessionId : UInt32
  sequence : UInt32
  port : UInt8
  fragmentCount : UInt8
  encrypted : Bool
  deriving DecidableEq, Repr

/-- `aired` are the frames given to the radio with their headers, `sent` the
messages taken for sending with the header of their first fragment,
`accepted` the complete messages, `handed` those given to the application,
`taken` counts sequence numbers. -/
structure History where
  aired : List (Header × List UInt8)
  sent : List (Header × List UInt8)
  accepted : List (MessageInfo × List UInt8)
  handed : List MessageInfo
  taken : ℕ

/-- The link's configuration; `key` is set when its security is encrypted. -/
structure Config (κ : Type) where
  localAddress : UInt16
  sessionId : UInt32
  initialSequence : UInt32
  acknowledgementTimeoutMs : UInt32
  retryBackoffMs : UInt32
  reassemblyTimeoutMs : UInt32
  maxRetries : UInt8
  key : Option κ

structure Context (κ : Type) where
  config : Config κ
  state : LinkState
  sendStatus : SendStatus
  txMessage : List UInt8
  txDestination : UInt16
  txSequence : UInt32
  txIntegrity : UInt32
  acknowledgementStartedMs : UInt32
  retryStartedMs : UInt32
  txPort : UInt8
  txFragmentIndex : UInt8
  txFragmentCount : UInt8
  retriesCompleted : UInt8
  txAcknowledged : Bool
  txActive : Bool
  sequenceExhausted : Bool
  rxMessage : Image
  rxLength : ℕ
  rxInfo : MessageInfo
  rxReady : Bool
  reassembly : Reassembly
  peers : List Peer
  history : History

variable {κ : Type}

def Context.usesCrypto (c : Context κ) : Bool := c.config.key.isSome

def emptyReassembly : Reassembly := ⟨0, 0, 0, 0, 0, 0, 0, 0, 0, 0, false, false, false⟩

def emptyPeer : Peer := ⟨0, 0, 0, 0, 0, false⟩

def create (b : Build) (config : Config κ) : Context κ where
  config := config
  state := .receiving
  sendStatus := ⟨.idle, .none, 0, 0, 0⟩
  txMessage := []
  txDestination := 0
  txSequence := 0
  txIntegrity := 0
  acknowledgementStartedMs := 0
  retryStartedMs := 0
  txPort := 0
  txFragmentIndex := 0
  txFragmentCount := 0
  retriesCompleted := 0
  txAcknowledged := false
  txActive := false
  sequenceExhausted := false
  rxMessage := fun _ => 0
  rxLength := 0
  rxInfo := ⟨0, 0, 0, 0, 0, 0, false⟩
  rxReady := false
  reassembly := emptyReassembly
  peers := List.replicate b.maxPeers emptyPeer
  history := ⟨[], [], [], [], 0⟩

def startReceive (r : Replies) (c : Context κ) : Status × Context κ :=
  let status := if r.receiveState.1 = .ok ∧ r.receiveState.2 = .error
    then r.receiveStandby else r.receiveState.1
  let status := if status = .ok then r.receiveContinuous else status
  if status = .ok then (status, { c with state := .receiving })
  else (status, { c with state := .error })

def stopRadioOperation (r : Replies) : Status :=
  if r.stopState.1 ≠ .ok then r.stopState.1
  else match r.stopState.2 with
    | .rx => r.stopCancel
    | .tx => r.stopCancel
    | .cad => r.stopCancel
    | .standby => .ok
    | .sleep => r.stopStandby
    | .error => r.stopStandby

def fragmentCountFor (c : Context κ) (length : ℕ) : UInt8 :=
  UInt8.ofNat (fragmentsOf length (payloadCapacity c.usesCrypto))

def dataHeader (c : Context κ) (index : UInt8) : Header where
  flags := (if c.usesCrypto then kFlagEncrypted else 0) |||
    (if c.txAcknowledged then kFlagAckRequest else 0)
  port := c.txPort
  source := c.config.localAddress
  destination := c.txDestination
  sessionId := c.config.sessionId
  sequence := c.txSequence
  fragmentIndex := index
  fragmentCount := c.txFragmentCount
  messageLength := UInt16.ofNat c.txMessage.length
  integrity := c.txIntegrity

def fragmentPayload (encrypted : Bool) (message : List UInt8) (index : UInt8) : List UInt8 :=
  (message.drop (index.toNat*payloadCapacity encrypted)).take (payloadCapacity encrypted)

def air (h : Header) (frame : List UInt8) (c : Context κ) : Context κ :=
  { c with history := { c.history with aired := (h, frame) :: c.history.aired } }

def startDataFragment (a : Aead κ) (r : Replies) (c : Context κ) : Status × Context κ :=
  let h := dataHeader c c.txFragmentIndex
  match frameEncode a h (fragmentPayload c.usesCrypto c.txMessage c.txFragmentIndex)
      c.config.key kMaxPayload with
  | .error status => (status, c)
  | .ok frame =>
    let c := air h frame c
    if r.transmitStart = .ok then (.ok, { c with state := .transmitting })
    else (r.transmitStart, c)

def finishState (result : Status) : OperationState :=
  if result = .ok then .succeeded
  else if result = .etimeout then .timedOut
  else if result = .ecanceled then .cancelled
  else .failed

def finishSend (r : Replies) (result : Status) (c : Context κ) : Status × Context κ :=
  let c := { c with
    txActive := false
    sendStatus := { c.sendStatus with result := result, state := finishState result } }
  let (receiveStatus, c) := startReceive r c
  (if receiveStatus = .ok then result else receiveStatus, c)

def takeSequence (c : Context κ) : UInt32 × Context κ :=
  let sequence := c.config.initialSequence
  (sequence, { c with
    config := { c.config with initialSequence := sequence+1 }
    sequenceExhausted := c.sequenceExhausted || (c.usesCrypto && decide (sequence = 0xFFFFFFFF))
    history := { c.history with taken := c.history.taken+1 } })

def beginSend (destination : UInt16) (port : UInt8) (data : List UInt8) (acknowledged : Bool)
    (fragmentCount : UInt8) (c : Context κ) : Context κ :=
  let (sequence, c) := takeSequence c
  let c := { c with
    txMessage := data
    txDestination := destination
    txPort := port
    txSequence := sequence
    txIntegrity := if c.usesCrypto then 0 else crc32 data
    txFragmentIndex := 0
    txFragmentCount := fragmentCount
    retriesCompleted := 0
    txAcknowledged := acknowledged
    txActive := true
    sendStatus := ⟨.inProgress, .eagain, sequence, 1, fragmentCount⟩ }
  { c with history := { c.history with sent := (dataHeader c 0, data) :: c.history.sent } }

def sendStart (b : Build) (a : Aead κ) (destination : UInt16) (port : UInt8)
    (data : List UInt8) (acknowledged : Bool) (r : Replies) (c : Context κ) :
    Status × Context κ :=
  if destination = kAddressNone ∨ (destination = kAddressBroadcast ∧ acknowledged) ∨
      data.length = 0 ∨ b.maxMessage < data.length ∨ 0xFFFF < data.length then (.einval, c)
  else if c.state ≠ .receiving ∨ c.txActive then (.ebusy, c)
  else if c.sequenceExhausted then (.eoverflow, c)
  else
    let fragmentCount := fragmentCountFor c data.length
    if fragmentCount = 0 ∨ kMaxFragments < fragmentCount.toNat then (.eoverflow, c)
    else if stopRadioOperation r ≠ .ok then (stopRadioOperation r, c)
    else
      let (status, c) :=
        startDataFragment a r (beginSend destination port data acknowledged fragmentCount c)
      if status ≠ .ok then finishSend r status c else (status, c)

def elapsed (now started interval : UInt32) : Bool := decide (interval ≤ now-started)

def startAckWait (r : Replies) (c : Context κ) : Status × Context κ :=
  if r.receiveStart = .ok then
    (.ok, { c with
      acknowledgementStartedMs := r.millis .ackWait
      state := .waitingAcknowledgement })
  else (r.receiveStart, c)

def restartAckWait (r : Replies) (c : Context κ) : Status :=
  if elapsed (r.millis .ackWait) c.acknowledgementStartedMs c.config.acknowledgementTimeoutMs
  then .etimeout else r.receiveStart

def peerSequenceSeen (p : Peer) (sequence : UInt32) : Bool :=
  if ¬ p.valid then false
  else
    let newerDelta := sequence-p.newestSequence
    if newerDelta ≠ 0 ∧ newerDelta < 0x80000000 then false
    else
      let olderDelta := p.newestSequence-sequence
      decide (32 ≤ olderDelta ∨ p.receivedWindow &&& (1 <<< olderDelta) ≠ 0)

def scanPeers (r : Replies) (source : UInt16) (sessionId : UInt32) (allocate : Bool) :
    List Peer → ℕ → ℕ → UInt32 → Option ℕ × ℕ
  | [], _, oldest, _ => (none, oldest)
  | p :: rest, index, oldest, oldestSeenMs =>
    if p.valid ∧ p.source = source ∧ p.sessionId = sessionId then (some index, oldest)
    else if ¬ p.valid then
      if allocate then (none, index)
      else scanPeers r source sessionId allocate rest (index+1) index p.lastSeenMs
    else if r.millis (.slot index true)-oldestSeenMs < r.millis (.slot index false)-p.lastSeenMs
    then scanPeers r source sessionId allocate rest (index+1) index p.lastSeenMs
    else scanPeers r source sessionId allocate rest (index+1) oldest oldestSeenMs

def findPeer (r : Replies) (source : UInt16) (sessionId : UInt32) (c : Context κ) : Option ℕ :=
  (scanPeers r source sessionId false c.peers 0 0 (c.peers.getD 0 emptyPeer).lastSeenMs).1

def allocatePeer (r : Replies) (source : UInt16) (sessionId : UInt32) (c : Context κ) :
    ℕ × List Peer :=
  match scanPeers r source sessionId true c.peers 0 0
      (c.peers.getD 0 emptyPeer).lastSeenMs with
  | (some index, _) => (index, c.peers)
  | (none, oldest) => (oldest, c.peers.set oldest ⟨source, sessionId, 0, 0, 0, true⟩)

def markPeerSequence (r : Replies) (p : Peer) (sequence : UInt32) : Peer :=
  let p :=
    if p.receivedWindow = 0 then { p with newestSequence := sequence, receivedWindow := 1 }
    else
      let newerDelta := sequence-p.newestSequence
      if newerDelta ≠ 0 ∧ newerDelta < 0x80000000 then
        { p with
          receivedWindow := if 32 ≤ newerDelta then 1
            else p.receivedWindow <<< newerDelta ||| 1
          newestSequence := sequence }
      else
        let olderDelta := p.newestSequence-sequence
        if olderDelta < 32 then
          { p with receivedWindow := p.receivedWindow ||| 1 <<< olderDelta }
        else p
  { p with lastSeenMs := r.millis .mark }

def ackRequested (h : Header) : Bool := hasFlag h kFlagAckRequest

def sameReassembly (s : Reassembly) (h : Header) (encrypted : Bool) : Bool :=
  decide (s.active ∧ s.source = h.source ∧ s.destination = h.destination ∧
    s.sessionId = h.sessionId ∧ s.sequence = h.sequence ∧ s.integrity = h.integrity ∧
    s.messageLength = h.messageLength ∧ s.port = h.port ∧
    s.fragmentCount = h.fragmentCount ∧ s.acknowledged = ackRequested h ∧
    s.encrypted = encrypted)

def beginReassembly (r : Replies) (h : Header) (encrypted : Bool) : Reassembly where
  source := h.source
  destination := h.destination
  sessionId := h.sessionId
  sequence := h.sequence
  integrity := h.integrity
  receivedFragments := 0
  startedMs := r.millis .reassembly
  messageLength := h.messageLength
  port := h.port
  fragmentCount := h.fragmentCount
  acknowledged := ackRequested h
  encrypted := encrypted
  active := true

def fragmentMask (fragmentCount : UInt8) : UInt32 :=
  if fragmentCount = 32 then 0xFFFFFFFF else 1 <<< fragmentCount.toUInt32-1

def ackHeader (c : Context κ) (received : Header) (sequence : UInt32) : Header where
  flags := kFlagAck ||| (if c.usesCrypto then kFlagEncrypted else 0)
  port := 0
  source := c.config.localAddress
  destination := received.source
  sessionId := c.config.sessionId
  sequence := sequence
  fragmentIndex := 0
  fragmentCount := 1
  messageLength := UInt16.ofNat kAckPayloadSize
  integrity := if c.usesCrypto then 0
    else crc32 (encodeAckBody received.sessionId received.sequence)

def startAcknowledgement (a : Aead κ) (r : Replies) (received : Header) (c : Context κ) :
    Status × Context κ :=
  if c.sequenceExhausted then (.eoverflow, c)
  else if stopRadioOperation r ≠ .ok then (stopRadioOperation r, c)
  else
    let body := encodeAckBody received.sessionId received.sequence
    let (sequence, c) := takeSequence c
    let h := ackHeader c received sequence
    let (status, c) := match frameEncode a h body c.config.key kMaxPayload with
      | .error status => (status, c)
      | .ok frame => (r.transmitStart, air h frame c)
    if status = .ok then (status, { c with state := .sendingAcknowledgement })
    else
      let (receiveStatus, c) := startReceive r c
      (if receiveStatus ≠ .ok then receiveStatus else status, c)

def lastFragment (h : Header) : Bool :=
  decide (h.fragmentIndex.toNat+1 = h.fragmentCount.toNat)

def messageInfo (h : Header) (encrypted : Bool) : MessageInfo where
  source := h.source
  destination := h.destination
  sessionId := h.sessionId
  sequence := h.sequence
  port := h.port
  fragmentCount := h.fragmentCount
  encrypted := encrypted

def admitPeer (r : Replies) (source : UInt16) (sessionId sequence : UInt32) (c : Context κ) :
    List Peer :=
  let (index, peers) := allocatePeer r source sessionId c
  peers.set index (markPeerSequence r (peers.getD index emptyPeer) sequence)

def acceptMessage (r : Replies) (h : Header) (encrypted : Bool) (c : Context κ) : Context κ :=
  { c with
    peers := admitPeer r h.source h.sessionId h.sequence c
    rxLength := h.messageLength.toNat
    rxInfo := messageInfo h encrypted
    rxReady := true
    reassembly := { c.reassembly with active := false }
    history := { c.history with
      accepted := (messageInfo h encrypted, slice c.rxMessage 0 h.messageLength.toNat) ::
        c.history.accepted } }

def putFragment (h : Header) (payload : List UInt8) (encrypted : Bool) (c : Context κ) :
    Context κ :=
  { c with
    rxMessage := write c.rxMessage (h.fragmentIndex.toNat*payloadCapacity encrypted) payload
    reassembly := { c.reassembly with
      receivedFragments := c.reassembly.receivedFragments ||| 1 <<< h.fragmentIndex.toUInt32 } }

def dropReassembly (c : Context κ) : Context κ :=
  { c with reassembly := { c.reassembly with active := false } }

def storeFragment (a : Aead κ) (r : Replies) (h : Header) (payload : List UInt8)
    (encrypted : Bool) (c : Context κ) : Status × Context κ :=
  let c := putFragment h payload encrypted c
  if c.reassembly.receivedFragments ≠ fragmentMask h.fragmentCount then (.ok, c)
  else if ¬ encrypted ∧ crc32 (slice c.rxMessage 0 h.messageLength.toNat) ≠ h.integrity then
    (.eproto, dropReassembly c)
  else
    let c := acceptMessage r h encrypted c
    if ackRequested h ∧ lastFragment h then startAcknowledgement a r h c else (.ok, c)

def claimReassembly (r : Replies) (h : Header) (encrypted : Bool) (c : Context κ) : Context κ :=
  if sameReassembly c.reassembly h encrypted then c
  else { c with reassembly := beginReassembly r h encrypted }

def touchPeer (index : ℕ) (now : UInt32) (c : Context κ) : Context κ :=
  { c with
    peers := c.peers.set index { c.peers.getD index emptyPeer with lastSeenMs := now } }

def repeatedFrame (a : Aead κ) (r : Replies) (h : Header) (index : ℕ) (c : Context κ) :
    Status × Context κ :=
  let c := touchPeer index (r.millis .seen) c
  if lastFragment h ∧ ackRequested h then startAcknowledgement a r h c else (.ok, c)

def sequenceSeen (r : Replies) (h : Header) (c : Context κ) : Option ℕ :=
  (findPeer r h.source h.sessionId c).filter fun index =>
    peerSequenceSeen (c.peers.getD index emptyPeer) h.sequence

def acceptDataFrame (b : Build) (a : Aead κ) (r : Replies) (h : Header) (payload : List UInt8)
    (c : Context κ) : Status × Context κ :=
  let encrypted := isEncrypted h
  match sequenceSeen r h c with
  | some index => repeatedFrame a r h index c
  | none =>
    if c.rxReady then (.ebusy, c)
    else if b.maxMessage < h.messageLength.toNat then (.eoverflow, c)
    else if ¬ sameReassembly c.reassembly h encrypted ∧ c.reassembly.active ∧
        h.fragmentIndex ≠ 0 then (.eagain, c)
    else
      let c := claimReassembly r h encrypted c
      if c.reassembly.receivedFragments &&& 1 <<< h.fragmentIndex.toUInt32 ≠ 0 then (.ok, c)
      else storeFragment a r h payload encrypted c

def decodeReceivedFrame (a : Aead κ) (frame : List UInt8) (c : Context κ) :
    Except Status (Header × List UInt8) :=
  match frameDecode a frame c.config.key kMaxPlaintext with
  | .error status => .error status
  | .ok (h, payload) =>
    if isEncrypted h ≠ c.usesCrypto ∨ (isEncrypted h ∧ h.integrity ≠ 0) then .error .eauth
    else .ok (h, payload)

def acknowledgementMatches (c : Context κ) (h : Header) (body : List UInt8) : Bool :=
  isAck h && decide (h.source = c.txDestination) &&
    decide (h.destination = c.config.localAddress) &&
    decide (decodeAckBody body = some (c.config.sessionId, c.txSequence)) &&
    (c.usesCrypto || decide (h.integrity = crc32 body))

def scheduleRetry (a : Aead κ) (r : Replies) (c : Context κ) : Status × Context κ :=
  if c.config.maxRetries ≤ c.retriesCompleted then finishSend r .etimeout c
  else
    let c := { c with
      retriesCompleted := c.retriesCompleted+1
      sendStatus := { c.sendStatus with attempts := c.sendStatus.attempts+1 }
      txFragmentIndex := 0
      retryStartedMs := r.millis .retry
      state := .retryWait }
    if c.config.retryBackoffMs = 0 then
      let (status, c) := startDataFragment a r c
      if status = .ok then (.ok, c) else finishSend r status c
    else (.ok, c)

def finishAcknowledgement (r : Replies) (result : Status) (c : Context κ) :
    Status × Context κ :=
  let (receiveStatus, c) := startReceive r c
  (if receiveStatus = .ok then result else receiveStatus, c)

def finishTransmit (r : Replies) (result : Status) (c : Context κ) : Status × Context κ :=
  if c.state = .sendingAcknowledgement then finishAcknowledgement r result c
  else finishSend r result c

def processTransmit (a : Aead κ) (r : Replies) (c : Context κ) : Status × Context κ :=
  if r.txStatus.1 ≠ .ok then finishTransmit r r.txStatus.1 c
  else if r.txStatus.2.1 = .inProgress then (.eagain, c)
  else if r.txStatus.2.2 ≠ .ok then finishTransmit r r.txStatus.2.2 c
  else if c.state = .sendingAcknowledgement then finishAcknowledgement r .ok c
  else if c.txFragmentIndex.toNat+1 < c.txFragmentCount.toNat then
    let (status, c) := startDataFragment a r { c with txFragmentIndex := c.txFragmentIndex+1 }
    if status = .ok then (.ok, c) else finishSend r status c
  else if ¬ c.txAcknowledged then finishSend r .ok c
  else
    let (status, c) := startAckWait r c
    if status = .ok then (.ok, c) else finishSend r status c

def keepWaiting (a : Aead κ) (r : Replies) (c : Context κ) : Status × Context κ :=
  let status := restartAckWait r c
  if status = .etimeout then scheduleRetry a r c
  else if status = .ok then (.eagain, c) else finishSend r status c

def processAckWait (a : Aead κ) (r : Replies) (c : Context κ) : Status × Context κ :=
  let status := if r.received.1 = .eagain ∧ r.process = .etimeout then .etimeout
    else r.received.1
  if status = .eagain then (.eagain, c)
  else if status = .etimeout then scheduleRetry a r c
  else if status = .eproto then keepWaiting a r c
  else if status ≠ .ok then finishSend r status c
  else match decodeReceivedFrame a r.received.2 c with
    | .error _ => keepWaiting a r c
    | .ok (h, payload) =>
      if acknowledgementMatches c h payload then finishSend r .ok c else keepWaiting a r c

def processReceive (b : Build) (a : Aead κ) (r : Replies) (c : Context κ) :
    Status × Context κ :=
  if r.received.1 = .eagain then
    if r.process = .eproto then (.eproto, c)
    else (if r.process = .ok then .eagain else r.process, c)
  else if r.received.1 ≠ .ok then (r.received.1, c)
  else match decodeReceivedFrame a r.received.2 c with
    | .error status => (status, c)
    | .ok (h, payload) =>
      if h.destination ≠ c.config.localAddress ∧ h.destination ≠ kAddressBroadcast then
        (.ignored, c)
      else if h.source = c.config.localAddress ∨ isAck h then (.ignored, c)
      else acceptDataFrame b a r h payload c

def expireReassembly (r : Replies) (c : Context κ) : Context κ :=
  if c.reassembly.active ∧
      elapsed (r.millis .expire) c.reassembly.startedMs c.config.reassemblyTimeoutMs then
    dropReassembly c
  else c

def processRetry (a : Aead κ) (r : Replies) (c : Context κ) : Status × Context κ :=
  if elapsed (r.millis .backoff) c.retryStartedMs c.config.retryBackoffMs then
    let (status, c) := startDataFragment a r c
    if status ≠ .ok then finishSend r status c else (status, c)
  else (.eagain, c)

def process (b : Build) (a : Aead κ) (r : Replies) (c : Context κ) : Status × Context κ :=
  let c := expireReassembly r c
  match c.state with
  | .receiving => processReceive b a r c
  | .transmitting => processTransmit a r c
  | .sendingAcknowledgement => processTransmit a r c
  | .waitingAcknowledgement => processAckWait a r c
  | .retryWait => processRetry a r c
  | .error => (.estate, c)

structure Received where
  status : Status
  bytes : List UInt8
  length : ℕ
  info : Option MessageInfo
  deriving DecidableEq, Repr

def receive (bufferSize : ℕ) (c : Context κ) : Received × Context κ :=
  if ¬ c.rxReady then (⟨.eagain, [], 0, none⟩, c)
  else
    let copyLength := min c.rxLength bufferSize
    (⟨if copyLength < c.rxLength then .eoverflow else .ok, slice c.rxMessage 0 copyLength,
      c.rxLength, some c.rxInfo⟩,
      { c with
        rxReady := false
        history := { c.history with handed := c.rxInfo :: c.history.handed } })

def cancel (r : Replies) (c : Context κ) : Status × Context κ :=
  if ¬ c.txActive then (.estate, c)
  else if stopRadioOperation r ≠ .ok then (stopRadioOperation r, c)
  else
    let (status, c) := finishSend r .ecanceled c
    (if status = .ok then .ecanceled else status, c)

inductive Call where
  | sendStart (destination : UInt16) (port : UInt8) (data : List UInt8)
      (acknowledged : Bool) (replies : Replies)
  | process (replies : Replies)
  | receive (bufferSize : ℕ)
  | cancel (replies : Replies)

def heardRadio (bytes : List UInt8) : Replies := { silentRadio with received := (.ok, bytes) }

def hearing (bytes : List UInt8) : Call := .process (heardRadio bytes)

def step (b : Build) (a : Aead κ) (call : Call) (c : Context κ) : Context κ :=
  match call with
  | .sendStart destination port data acknowledged r =>
    (sendStart b a destination port data acknowledged r c).2
  | .process r => (process b a r c).2
  | .receive bufferSize => (receive bufferSize c).2
  | .cancel r => (cancel r c).2

def run (b : Build) (a : Aead κ) : List Call → Context κ → Context κ
  | [], c => c
  | call :: rest, c => run b a rest (step b a call c)

end JaszczurHal.LoraLink
