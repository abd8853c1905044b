import JaszczurHal.HalStatus
import JaszczurHal.RingQueue

/-!
# The A2DP sink and its two queues

`hal_bluetooth_a2dp_sink`: media packets are queued by backend events, polled
into PCM blocks and read by the application. A step is one section under the
runtime's mutex; `hal_bluetooth_a2dp_sink_poll` is several of them, and other
calls and events may come in between.
-/

set_option autoImplicit false

namespace JaszczurHal.A2dpSink
open JaszczurHal.HalStatus JaszczurHal.RingQueue

inductive ChannelMode
  | unset
  | mono
  | stereo
  | jointStereo
  deriving DecidableEq

structure Format where
  sampleRateHz : ℕ
  channels : ℕ
  channelMode : ChannelMode
  blockLength : ℕ
  subbands : ℕ
  minBitpool : ℕ
  maxBitpool : ℕ
  deriving DecidableEq

def Format.zero : Format := ⟨0, 0, .unset, 0, 0, 0, 0⟩

structure SbcFrame where
  format : Format
  frameLength : ℕ

def formatEqual (first second : Format) : Bool :=
  first.sampleRateHz = second.sampleRateHz && first.channels = second.channels &&
    first.channelMode = second.channelMode && first.blockLength = second.blockLength &&
    first.subbands = second.subbands && first.minBitpool ≤ second.maxBitpool &&
    second.maxBitpool ≤ first.maxBitpool

def sampleRate (frequencyIndex : ℕ) : Option ℕ :=
  if frequencyIndex = 2 then some 44100 else if frequencyIndex = 3 then some 48000 else none

def channelMode (channelIndex : ℕ) : Option ChannelMode :=
  if channelIndex = 0 then some .mono
  else if channelIndex = 2 then some .stereo
  else if channelIndex = 3 then some .jointStereo
  else none

def sbcFrameParse (data : List UInt8) : Except Status SbcFrame :=
  if data.length < 4 ∨ data.getD 0 0 ≠ 0x9c then .error .eproto
  else
    let header := (data.getD 1 0).toNat
    let channelIndex := header/4%4
    let subbands := if header%2 ≠ 0 then 8 else 4
    let channels := if channelIndex = 0 then 1 else 2
    let blocks := 4*(header/16%4+1)
    let bitpool := (data.getD 2 0).toNat
    match sampleRate (header/64), channelMode channelIndex with
    | some sampleRateHz, some mode =>
      if bitpool < 2 ∨ bitpool > 53 then .error .eproto
      else
        let scaleFactorBytes := (4*subbands*channels+7)/8
        let audioBits := if channelIndex = 0 ∨ channelIndex = 2 then blocks*bitpool
          else subbands+blocks*bitpool
        let frameLength := 4+scaleFactorBytes+(audioBits+7)/8
        if frameLength > data.length then .error .eproto
        else .ok ⟨⟨sampleRateHz, channels, mode, blocks, subbands, bitpool, bitpool⟩, frameLength⟩
    | _, _ => .error .eunsupported

def walkFrames (expected : Format) (payload : List UInt8) : ℕ → ℕ → Except Status ℕ
  | 0, cursor => .ok cursor
  | count+1, cursor =>
    match sbcFrameParse (payload.drop cursor) with
    | .error status => .error status
    | .ok frame =>
      if formatEqual expected frame.format then
        walkFrames expected payload count (cursor+frame.frameLength)
      else .error .eproto

structure ParsedPacket where
  frames : List UInt8
  frameCount : ℕ

def payloadOffset (data : List UInt8) : Except Status ℕ :=
  let offset := 12+4*((data.getD 0 0).toNat%16)
  if offset > data.length then .error .eproto
  else if (data.getD 0 0).toNat/16%2 = 0 then .ok offset
  else if data.length-offset < 4 then .error .eproto
  else
    let extensionWords := (data.getD (offset+2) 0).toNat*256+(data.getD (offset+3) 0).toNat
    let offset := offset+4+extensionWords*4
    if offset > data.length then .error .eproto else .ok offset

def payloadEnd (data : List UInt8) (offset : ℕ) : Except Status ℕ :=
  if (data.getD 0 0).toNat/32%2 = 0 then .ok data.length
  else
    let padding := (data.getD (data.length-1) 0).toNat
    if padding = 0 ∨ padding > data.length-offset then .error .eproto
    else .ok (data.length-padding)

def mediaPacketParse (data : List UInt8) (expected : Format) : Except Status ParsedPacket := do
  if data.length < 13 ∨ (data.getD 0 0).toNat/64 ≠ 2 then throw Status.eproto
  let offset ← payloadOffset data
  let last ← payloadEnd data offset
  if last ≤ offset then throw Status.eproto
  let sbcHeader := (data.getD offset 0).toNat
  let frameCount := sbcHeader%16
  if sbcHeader/16 ≠ 0 ∨ frameCount = 0 ∨ offset+1 ≥ last then throw Status.eproto
  let payload := (data.drop (offset+1)).take (last-(offset+1))
  let cursor ← walkFrames expected payload frameCount 0
  if cursor ≠ payload.length then throw Status.eproto
  return ⟨payload, frameCount⟩

structure Sizes where
  packetMaxLen : ℕ
  packetQueueDepth : ℕ
  pcmQueueDepth : ℕ
  prebufferBlocks : ℕ
  packetQueueDepth_ge : 2 ≤ packetQueueDepth
  pcmQueueDepth_ge : 4 ≤ pcmQueueDepth
  prebufferBlocks_ge : 1 ≤ prebufferBlocks
  prebufferBlocks_lt : prebufferBlocks < pcmQueueDepth
  /-- The depth is a `size_t`. -/
  packetQueueDepth_lt : packetQueueDepth < 2^32

inductive StreamState
  | ready
  | connected
  | streaming
  | suspended
  | failed
  deriving DecidableEq

inductive OutputMode
  | native
  | mono
  deriving DecidableEq

structure MediaPacket where
  data : List UInt8
  number : ℕ
  deriving DecidableEq

def MediaPacket.zero : MediaPacket := ⟨[], 0⟩

structure PcmBlock where
  samples : List ℤ
  frames : ℕ
  sampleRateHz : ℕ
  channels : ℕ
  packet : ℕ
  deriving DecidableEq

def PcmBlock.zero : PcmBlock := ⟨[], 0, 0, 0, 0⟩

/-- The PCM event of one decoded frame; the backend emits no other. -/
structure PcmEvent where
  samples : List ℤ
  frames : ℕ
  sampleRateHz : ℕ
  channels : ℕ
  frames_valid : 0 < frames ∧ frames ≤ 128
  channels_valid : channels = 1 ∨ channels = 2
  sampleRateHz_valid : sampleRateHz = 44100 ∨ sampleRateHz = 48000

structure Sink where
  state : StreamState
  format : Format
  formatValid : Bool
  outputMode : OutputMode
  volume : ℕ
  packets : ℕ → MediaPacket
  packetHead : ℕ
  packetCount : ℕ
  pcm : ℕ → PcmBlock
  pcmHead : ℕ
  pcmCount : ℕ
  correctionAccumulator : ℤ
  prebuffering : Bool
  playbackStarted : Bool
  bondSaved : Bool
  droppedPackets : UInt32
  corruptFrames : UInt32
  pcmOverflows : UInt32

/-- What a poll has copied of the head packet and of the state around it, and
how many resets and removals there had been then. -/
structure Copy where
  packet : MediaPacket
  format : Format
  ready : Bool
  resets : ℕ
  removals : ℕ

inductive Phase
  | copied (copy : Copy)
  | decoding (copy : Copy) (parsed : ParsedPacket) (offset index : ℕ) (status : Status)
  | saving (status : Status)
  | done (status : Status)

/-- What happened so far. Packets are numbered in the order of their events;
`streams` gives the number of resets before each packet's event. -/
structure Log where
  streams : List ℕ
  resets : ℕ
  ignored : ℕ
  removed : List (MediaPacket × MediaPacket)
  decoded : List ℕ
  corrupt : List ℕ
  dropped : List ℕ
  discarded : List ℕ
  blocks : List PcmBlock
  returned : List (PcmBlock × ℕ)

structure System where
  sink : Sink
  polls : List Phase
  log : Log

variable (z : Sizes)

def start (outputMode : OutputMode) (volume : ℕ) : System where
  sink := {
    state := .ready
    format := .zero
    formatValid := false
    outputMode := outputMode
    volume := volume
    packets := fun _ => .zero
    packetHead := 0
    packetCount := 0
    pcm := fun _ => .zero
    pcmHead := 0
    pcmCount := 0
    correctionAccumulator := 0
    prebuffering := false
    playbackStarted := false
    bondSaved := false
    droppedPackets := 0
    corruptFrames := 0
    pcmOverflows := 0 }
  polls := []
  log := ⟨[], 0, 0, [], [], [], [], [], [], []⟩

def Sink.queue (k : Sink) : List MediaPacket :=
  contents z.packetQueueDepth k.packets k.packetHead k.packetCount

def Sink.blocks (k : Sink) : List PcmBlock :=
  contents z.pcmQueueDepth k.pcm k.pcmHead k.pcmCount

def resetQueues (s : System) (prebuffer : Bool) : System :=
  { s with
    sink := { s.sink with
      packets := fun _ => .zero
      packetHead := 0
      packetCount := 0
      pcm := fun _ => .zero
      pcmHead := 0
      pcmCount := 0
      correctionAccumulator := 0
      prebuffering := prebuffer
      playbackStarted := false }
    log := { s.log with
      resets := s.log.resets+1
      discarded := s.log.discarded ++ (s.sink.queue z).map MediaPacket.number } }

def queueMedia (s : System) (data : List UInt8) : System :=
  let number := s.log.streams.length
  let s := { s with log := { s.log with streams := s.log.streams ++ [s.log.resets] } }
  if data.length = 0 ∨ data.length > z.packetMaxLen ∨ s.sink.packetCount = z.packetQueueDepth then
    { s with
      sink := { s.sink with droppedPackets := s.sink.droppedPackets+1 }
      log := { s.log with dropped := s.log.dropped ++ [number] } }
  else
    let tail := place z.packetQueueDepth s.sink.packetHead s.sink.packetCount
    { s with sink := { s.sink with
      packets := Function.update s.sink.packets tail ⟨data, number⟩
      packetCount := s.sink.packetCount+1 } }

def popMedia (s : System) (parsed : MediaPacket) : System :=
  { s with
    sink := { s.sink with
      packetHead := place z.packetQueueDepth s.sink.packetHead 1
      packetCount := (s.sink.packetCount+(2^32-1))%2^32 }
    log := { s.log with removed := s.log.removed ++
      [(parsed, s.sink.packets (place z.packetQueueDepth s.sink.packetHead 0))] } }

def pcmValid (event : PcmEvent) : Bool :=
  !(event.frames = 0 || event.frames > 128 || (event.channels ≠ 1 && event.channels ≠ 2) ||
    (event.sampleRateHz ≠ 44100 && event.sampleRateHz ≠ 48000))

def pcmEvent (s : System) (event : PcmEvent) (packet : ℕ) : System :=
  let block : PcmBlock :=
    ⟨event.samples, event.frames, event.sampleRateHz, event.channels, packet⟩
  let s := { s with log := { s.log with blocks := s.log.blocks ++ [block] } }
  if s.sink.state ≠ .streaming then s
  else if !pcmValid event then
    { s with sink := { s.sink with corruptFrames := s.sink.corruptFrames+1 } }
  else if s.sink.pcmCount = z.pcmQueueDepth then
    { s with sink := { s.sink with pcmOverflows := s.sink.pcmOverflows+1 } }
  else
    let tail := place z.pcmQueueDepth s.sink.pcmHead s.sink.pcmCount
    { s with sink := { s.sink with
      pcm := Function.update s.sink.pcm tail block
      pcmCount := s.sink.pcmCount+1 } }

inductive Event
  | connected
  | format (format : Format) (status : Status)
  | started
  | suspended
  | stopped
  | disconnected
  | media (data : List UInt8)
  | error (fatal : Bool)

def setState (s : System) (state : StreamState) : System :=
  { s with sink := { s.sink with state := state } }

def backendEvent (s : System) : Event → System
  | .connected => setState s .connected
  | .format format status =>
    { s with sink := { s.sink with
      format := format
      formatValid := status = .ok } }
  | .started => setState (resetQueues z s true) .streaming
  | .suspended => setState (resetQueues z s false) .suspended
  | .stopped => setState (resetQueues z s false) .connected
  | .disconnected =>
    let s := setState (resetQueues z s false) .ready
    { s with sink := { s.sink with
      formatValid := false
      bondSaved := false } }
  | .media data =>
    if s.sink.state = .streaming then queueMedia z s data
    else
      { s with
        sink := { s.sink with droppedPackets := s.sink.droppedPackets+1 }
        log := { s.log with ignored := s.log.ignored+1 } }
  | .error fatal => if fatal then setState (resetQueues z s false) .failed else s

def setPoll (s : System) (k : ℕ) (phase : Phase) : System :=
  { s with polls := s.polls.set k phase }

def pollCopy (s : System) : System :=
  if s.sink.packetCount = 0 then s
  else
    let copy : Copy := {
      packet := s.sink.packets (place z.packetQueueDepth s.sink.packetHead 0)
      format := s.sink.format
      ready := s.sink.formatValid && s.sink.state = .streaming
      resets := s.log.resets
      removals := s.log.removed.length }
    { s with polls := s.polls ++ [.copied copy] }

inductive Verdict
  | notReady
  | corrupt (status : Status)
  | full
  | admitted (parsed : ParsedPacket)

def verdict (k : Sink) (copy : Copy) : Verdict :=
  if !copy.ready then .notReady
  else
    match mediaPacketParse copy.packet.data copy.format with
    | .error status => .corrupt status
    | .ok parsed =>
      if parsed.frameCount > z.pcmQueueDepth-k.pcmCount then .full else .admitted parsed

def pollTake (s : System) (k : ℕ) (copy : Copy) : System :=
  match verdict z s.sink copy with
  | .notReady =>
    let s := popMedia z s copy.packet
    setPoll { s with
      sink := { s.sink with droppedPackets := s.sink.droppedPackets+1 }
      log := { s.log with dropped := s.log.dropped ++ [copy.packet.number] } } k (.done .estate)
  | .corrupt status =>
    let s := popMedia z s copy.packet
    setPoll { s with
      sink := { s.sink with corruptFrames := s.sink.corruptFrames+1 }
      log := { s.log with corrupt := s.log.corrupt ++ [copy.packet.number] } } k (.done status)
  | .full => setPoll s k (.done .ebusy)
  | .admitted parsed => setPoll (popMedia z s copy.packet) k (.decoding copy parsed 0 0 .ok)

inductive Decoded
  | block (event : PcmEvent)
  | refused (status : Status) (h : status ≠ .ok)

def pollDecode (s : System) (k : ℕ) (copy : Copy) (parsed : ParsedPacket) (offset index : ℕ)
    (result : Decoded) : System :=
  match sbcFrameParse (parsed.frames.drop offset) with
  | .error status => setPoll s k (.decoding copy parsed offset index status)
  | .ok frame =>
    match result with
    | .refused status _ => setPoll s k (.decoding copy parsed offset index status)
    | .block event =>
      setPoll (pcmEvent z s event copy.packet.number) k
        (.decoding copy parsed (offset+frame.frameLength) (index+1) .ok)

def pollCount (s : System) (k : ℕ) (copy : Copy) (index : ℕ) (status : Status) : System :=
  let next : Phase := if index ≠ 0 ∧ !s.sink.bondSaved then .saving status else .done status
  if status ≠ .ok then
    setPoll { s with
      sink := { s.sink with corruptFrames := s.sink.corruptFrames+1 }
      log := { s.log with corrupt := s.log.corrupt ++ [copy.packet.number] } } k next
  else
    setPoll { s with log := { s.log with decoded := s.log.decoded ++ [copy.packet.number] } } k next

def pollSave (s : System) (k : ℕ) (status save : Status) : System :=
  if save = .ok then
    setPoll { s with sink := { s.sink with bondSaved := true } } k (.done status)
  else setPoll s k (.done (if save = .eauth then status else save))

/-- The next section of poll `k`. `result` and `save` are used where that
section decodes a frame or saves the bond. -/
def pollNext (s : System) (k : ℕ) (result : Decoded) (save : Status) : System :=
  match s.polls[k]? with
  | none => s
  | some (.copied copy) => pollTake z s k copy
  | some (.decoding copy parsed offset index status) =>
    if status = .ok ∧ index < parsed.frameCount then
      pollDecode z s k copy parsed offset index result
    else pollCount s k copy index status
  | some (.saving status) => pollSave s k status save
  | some (.done _) => s

def clockCorrection (k : Sink) (frames : ℕ) : ℤ × ℤ :=
  let targetLevel := z.pcmQueueDepth/2
  let remaining := k.pcmCount-1
  let correctionPpm : ℤ := if remaining < targetLevel then 2000
    else if remaining > targetLevel then -2000 else 0
  let next := k.correctionAccumulator+correctionPpm*frames
  if next ≥ 1000000 then (1, next-1000000)
  else if next ≤ -1000000 then (-1, next+1000000)
  else (0, next)

/-- The section of `hal_bluetooth_a2dp_sink_pcm_next`. The block is what it
then transforms into the caller's buffer. -/
def pcmNext (s : System) (sampleCapacity : ℕ) : System :=
  if s.sink.prebuffering ∧ s.sink.pcmCount < z.prebufferBlocks then s
  else
    let k := if s.sink.prebuffering then
        { s.sink with prebuffering := false, playbackStarted := true } else s.sink
    let s := { s with sink := k }
    if s.sink.pcmCount = 0 then
      if s.sink.playbackStarted then
        { s with sink := { s.sink with playbackStarted := false, prebuffering := true } }
      else s
    else
      let block := s.sink.pcm (place z.pcmQueueDepth s.sink.pcmHead 0)
      let outputMode := if s.sink.format.channels = 1 then .mono else s.sink.outputMode
      let (adjustment, accumulator) := clockCorrection z s.sink block.frames
      let channels := if outputMode = OutputMode.mono then 1 else block.channels
      if (block.frames+adjustment)*channels > sampleCapacity then s
      else
        { s with
          sink := { s.sink with
            pcmHead := place z.pcmQueueDepth s.sink.pcmHead 1
            pcmCount := s.sink.pcmCount-1
            correctionAccumulator := accumulator }
          log := { s.log with returned := s.log.returned ++ [(block, s.log.resets)] } }

inductive Action
  | event (event : Event)
  | pollCopy
  | pollNext (k : ℕ) (result : Decoded) (save : Status)
  | pcmNext (sampleCapacity : ℕ)

def step (s : System) : Action → System
  | .event event => backendEvent z s event
  | .pollCopy => pollCopy z s
  | .pollNext k result save => pollNext z s k result save
  | .pcmNext sampleCapacity => pcmNext z s sampleCapacity

def run (s : System) : List Action → System
  | [] => s
  | action :: actions => run (step z s action) actions

end JaszczurHal.A2dpSink
