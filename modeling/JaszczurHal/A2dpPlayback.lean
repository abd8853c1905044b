import JaszczurHal.A2dpStreams

/-!
# When playback of the A2DP sink can be stuck

A poll waits for room in the PCM queue, the application waits for the
prebuffer threshold. Both wait for good as soon as the queue is below the
threshold and the head packet has more frames than there are places left.
-/

set_option autoImplicit false

namespace JaszczurHal.A2dpSink
open JaszczurHal.HalStatus JaszczurHal.RingQueue

variable (z : Sizes)

def neededSamples (k : Sink) : ℤ :=
  let block := k.pcm (place z.pcmQueueDepth k.pcmHead 0)
  let outputMode := if k.format.channels = 1 then .mono else k.outputMode
  let channels : ℤ := if outputMode = OutputMode.mono then 1 else block.channels
  (block.frames+(clockCorrection z k block.frames).1)*channels

def pcmNextStatus (s : System) (sampleCapacity : ℕ) : Status :=
  if s.sink.prebuffering ∧ s.sink.pcmCount < z.prebufferBlocks then .eagain
  else if s.sink.pcmCount = 0 then .eagain
  else if neededSamples z s.sink > sampleCapacity then .eoverflow
  else .ok

def PollBusy (s : System) : Prop :=
  ∀ result save, (run z s [.pollCopy, .pollNext s.polls.length result save]).polls[s.polls.length]? =
    some (.done .ebusy)

def Deadlocked (s : System) : Prop :=
  s.sink.state = .streaming ∧ PollBusy z s ∧ ∀ sampleCapacity, pcmNextStatus z s sampleCapacity = .eagain

/-- The most frames that fit a packet: no frame is shorter than seven bytes. -/
def maxFrames : ℕ := min 15 ((z.packetMaxLen-13)/7)

variable {z}

theorem pcmNextStatus_again {s : System} {sampleCapacity : ℕ} :
    pcmNextStatus z s sampleCapacity = .eagain ↔
      (s.sink.prebuffering ∧ s.sink.pcmCount < z.prebufferBlocks) ∨ s.sink.pcmCount = 0 := by
  rw [pcmNextStatus]
  by_cases hwait : s.sink.prebuffering ∧ s.sink.pcmCount < z.prebufferBlocks
  · simp [hwait]
  · by_cases hempty : s.sink.pcmCount = 0
    · simp [hempty]
    · rw [if_neg hwait, if_neg hempty]
      split
      · simp [hwait, hempty]
      · simp [hwait, hempty]

def awake (k : Sink) : Sink :=
  if k.prebuffering then { k with prebuffering := false, playbackStarted := true } else k

theorem awake_kept (k : Sink) : (awake k).pcmCount = k.pcmCount ∧ (awake k).packets = k.packets ∧
    neededSamples z (awake k) = neededSamples z k := by
  rw [awake]
  split
  · exact ⟨rfl, rfl, rfl⟩
  · exact ⟨rfl, rfl, rfl⟩

def takeBlock (s : System) (k : Sink) : System :=
  let block := k.pcm (place z.pcmQueueDepth k.pcmHead 0)
  { s with
    sink := { k with
      pcmHead := place z.pcmQueueDepth k.pcmHead 1
      pcmCount := k.pcmCount-1
      correctionAccumulator := (clockCorrection z k block.frames).2 }
    log := { s.log with returned := s.log.returned ++ [(block, s.log.resets)] } }

theorem pcmNext_eq (s : System) (sampleCapacity : ℕ) : pcmNext z s sampleCapacity =
    if s.sink.prebuffering ∧ s.sink.pcmCount < z.prebufferBlocks then s
    else if (awake s.sink).pcmCount = 0 then
      if (awake s.sink).playbackStarted then
        { s with sink := { awake s.sink with playbackStarted := false, prebuffering := true } }
      else { s with sink := awake s.sink }
    else if neededSamples z (awake s.sink) > sampleCapacity then { s with sink := awake s.sink }
    else takeBlock (z := z) s (awake s.sink) := rfl

theorem pollNext_last {s : System} {front : List Phase} {phase : Phase}
    (h : s.polls = front ++ [phase]) : s.polls[front.length]? = some phase := by
  rw [h]
  simp

theorem setPoll_last {s : System} {front : List Phase} {phase : Phase}
    (h : s.polls = front ++ [phase]) (next : Phase) :
    (setPoll s front.length next).polls = front ++ [next] := by
  rw [setPoll, h]
  simp

def headCopy (s : System) : Copy where
  packet := s.sink.packets (place z.packetQueueDepth s.sink.packetHead 0)
  format := s.sink.format
  ready := s.sink.formatValid && s.sink.state = .streaming
  resets := s.log.resets
  removals := s.log.removed.length

theorem pollCopy_some {s : System} (h : s.sink.packetCount ≠ 0) :
    pollCopy z s = { s with polls := s.polls ++ [.copied (headCopy s (z := z))] } := by
  rw [pollCopy, if_neg h]
  rfl

def Verdict.next (copy : Copy) : Verdict → Phase
  | .notReady => .done .estate
  | .corrupt status => .done status
  | .full => .done .ebusy
  | .admitted parsed => .decoding copy parsed 0 0 .ok

theorem pollTake_polls {s : System} {front : List Phase} {copy : Copy}
    (h : s.polls = front ++ [.copied copy]) :
    (pollTake z s front.length copy).polls = front ++ [(verdict z s.sink copy).next copy] := by
  rw [pollTake]
  cases verdict z s.sink copy with
  | notReady => exact setPoll_last (by exact h) _
  | corrupt status => exact setPoll_last (by exact h) _
  | full => exact setPoll_last h _
  | admitted parsed => exact setPoll_last (by exact h) _

theorem sbcFrameParse_status {data : List UInt8} {status : Status}
    (h : sbcFrameParse data = .error status) : status ≠ .ebusy := by
  rw [sbcFrameParse] at h
  intro hbusy
  rw [hbusy] at h
  dsimp only at h
  repeat' split at h
  all_goals simp at h

/-- A header of four bytes, two of scale factors and one of samples. -/
theorem frameLength_ge {subbands channels audioBits : ℕ} (hsubbands : 4 ≤ subbands)
    (hchannels : 1 ≤ channels) (haudio : 1 ≤ audioBits) :
    7 ≤ 4+(4*subbands*channels+7)/8+(audioBits+7)/8 := by
  have hfactors : 4*subbands ≤ 4*subbands*channels := Nat.le_mul_of_pos_right _ hchannels
  omega

theorem sbcFrameParse_length {data : List UInt8} {frame : SbcFrame}
    (h : sbcFrameParse data = .ok frame) : 7 ≤ frame.frameLength := by
  rw [sbcFrameParse] at h
  dsimp only at h
  generalize hsubbands : (if (data.getD 1 0).toNat%2 ≠ 0 then 8 else 4) = subbands at h
  generalize hchannels : (if (data.getD 1 0).toNat/4%4 = 0 then 1 else 2) = channels at h
  have hfour : 4 ≤ subbands := by
    rw [← hsubbands]
    split
    · omega
    · omega
  have hone : 1 ≤ channels := by
    rw [← hchannels]
    split
    · omega
    · omega
  split at h
  · cases h
  · split at h
    · split at h
      · cases h
      · rename_i hbitpool
        have hsamples : 1 ≤ 4*((data.getD 1 0).toNat/16%4+1)*(data.getD 2 0).toNat :=
          Nat.mul_pos (by omega) (by omega)
        generalize haudio : (if (data.getD 1 0).toNat/4%4 = 0 ∨ (data.getD 1 0).toNat/4%4 = 2 then
          4*((data.getD 1 0).toNat/16%4+1)*(data.getD 2 0).toNat else
          subbands+4*((data.getD 1 0).toNat/16%4+1)*(data.getD 2 0).toNat) = audioBits at h
        have hbits : 1 ≤ audioBits := by
          rw [← haudio]
          split
          · exact hsamples
          · omega
        split at h
        · cases h
        · obtain rfl := Except.ok.inj h
          exact frameLength_ge hfour hone hbits
    · cases h

theorem walkFrames_status {expected : Format} {payload : List UInt8} {count cursor : ℕ}
    {status : Status} (h : walkFrames expected payload count cursor = .error status) :
    status ≠ .ebusy := by
  induction count generalizing cursor with
  | zero => cases h
  | succ count ih =>
    rw [walkFrames] at h
    split at h
    · rename_i status' hframe
      obtain rfl := Except.error.inj h
      exact sbcFrameParse_status hframe
    · split at h
      · exact ih h
      · obtain rfl := Except.error.inj h
        simp

theorem walkFrames_length {expected : Format} {payload : List UInt8} {count cursor last : ℕ}
    (h : walkFrames expected payload count cursor = .ok last) : cursor+7*count ≤ last := by
  induction count generalizing cursor with
  | zero =>
    obtain rfl := Except.ok.inj h
    simp
  | succ count ih =>
    rw [walkFrames] at h
    split at h
    · cases h
    · rename_i frame hframe
      split at h
      · have hrest := ih h
        have hlength := sbcFrameParse_length hframe
        omega
      · cases h

theorem payloadOffset_ge {data : List UInt8} {offset : ℕ} (h : payloadOffset data = .ok offset) :
    12 ≤ offset := by
  rw [payloadOffset] at h
  dsimp only at h
  split at h
  · cases h
  · split at h
    · obtain rfl := Except.ok.inj h
      omega
    · split at h
      · cases h
      · split at h
        · cases h
        · obtain rfl := Except.ok.inj h
          omega

theorem payloadEnd_le {data : List UInt8} {offset last : ℕ}
    (h : payloadEnd data offset = .ok last) : last ≤ data.length := by
  rw [payloadEnd] at h
  split at h
  · obtain rfl := Except.ok.inj h
    exact Nat.le_refl _
  · dsimp only at h
    split at h
    · cases h
    · obtain rfl := Except.ok.inj h
      exact Nat.sub_le _ _

theorem payloadOffset_status {data : List UInt8} {status : Status}
    (h : payloadOffset data = .error status) : status = .eproto := by
  rw [payloadOffset] at h
  dsimp only at h
  split at h
  · exact (Except.error.inj h).symm
  · split at h
    · cases h
    · split at h
      · exact (Except.error.inj h).symm
      · split at h
        · exact (Except.error.inj h).symm
        · cases h

theorem payloadEnd_status {data : List UInt8} {offset : ℕ} {status : Status}
    (h : payloadEnd data offset = .error status) : status = .eproto := by
  rw [payloadEnd] at h
  split at h
  · cases h
  · dsimp only at h
    split at h
    · exact (Except.error.inj h).symm
    · cases h

/-- The frames of a packet that is accepted fit into its length, and a refused
packet is not taken for a full queue. -/
theorem mediaPacketParse_spec (data : List UInt8) (expected : Format) :
    match mediaPacketParse data expected with
    | .error status => status ≠ .ebusy
    | .ok parsed => parsed.frameCount < 16 ∧ 13+7*parsed.frameCount ≤ data.length := by
  rw [mediaPacketParse]
  simp only [bind, Except.bind, throw, throwThe, MonadExceptOf.throw, pure, Except.pure]
  split
  · rename_i status h
    split at h
    · simp [← Except.error.inj h]
    · split at h
      · rename_i hoffset
        simp [← Except.error.inj h, payloadOffset_status hoffset]
      · split at h
        · rename_i hend
          simp [← Except.error.inj h, payloadEnd_status hend]
        · split at h
          · simp [← Except.error.inj h]
          · split at h
            · simp [← Except.error.inj h]
            · split at h
              · rename_i hwalk
                rw [← Except.error.inj h]
                exact walkFrames_status hwalk
              · split at h
                · simp [← Except.error.inj h]
                · cases h
  · rename_i parsed h
    split at h
    · cases h
    · split at h
      · cases h
      · rename_i offset hoffset
        split at h
        · cases h
        · rename_i last hend
          have hfirst := payloadOffset_ge hoffset
          have hlast := payloadEnd_le hend
          split at h
          · cases h
          · split at h
            · cases h
            · split at h
              · cases h
              · rename_i cursor hwalk
                have hframes := walkFrames_length hwalk
                split at h
                · cases h
                · obtain rfl := Except.ok.inj h
                  simp only [List.length_take, List.length_drop] at *
                  constructor
                  · omega
                  · omega

theorem verdict_corrupt {k : Sink} {copy : Copy} {status : Status}
    (h : verdict z k copy = .corrupt status) : status ≠ .ebusy := by
  have hparse := mediaPacketParse_spec copy.packet.data copy.format
  rw [verdict] at h
  split at h
  · cases h
  · split at h
    · rename_i hstatus
      rw [hstatus] at hparse
      rw [← Verdict.corrupt.inj h]
      exact hparse
    · split at h
      · cases h
      · cases h

theorem verdict_full {k : Sink} {copy : Copy} : verdict z k copy = .full ↔
    copy.ready = true ∧ ∃ parsed, mediaPacketParse copy.packet.data copy.format = .ok parsed ∧
      z.pcmQueueDepth-k.pcmCount < parsed.frameCount := by
  rw [verdict]
  cases hready : copy.ready with
  | false => simp
  | true =>
    simp only [Bool.not_true, Bool.false_eq_true, if_false, true_and]
    cases hparse : mediaPacketParse copy.packet.data copy.format with
    | error status => simp
    | ok parsed =>
      by_cases hroom : parsed.frameCount > z.pcmQueueDepth-k.pcmCount
      · simp [hroom]
      · simp [hroom]

theorem pollBusy_iff {s : System} : PollBusy z s ↔
    s.sink.packetCount ≠ 0 ∧ verdict z s.sink (headCopy s (z := z)) = .full := by
  have hrun : ∀ result save, run z s [.pollCopy, .pollNext s.polls.length result save] =
      pollNext z (pollCopy z s) s.polls.length result save := fun _ _ => rfl
  by_cases hempty : s.sink.packetCount = 0
  · constructor
    · intro h
      have hanswer := h (.refused .eio (by simp)) .ok
      rw [hrun, pollCopy, if_pos hempty, pollNext] at hanswer
      simp at hanswer
    · intro h
      exact absurd hempty h.1
  · have hpolls : ∀ result save, (pollNext z (pollCopy z s) s.polls.length result save).polls =
        s.polls ++ [(verdict z s.sink (headCopy s (z := z))).next (headCopy s (z := z))] := by
      intro result save
      rw [pollCopy_some hempty, pollNext, pollNext_last rfl]
      exact pollTake_polls rfl
    constructor
    · intro h
      have hanswer := h (.refused .eio (by simp)) .ok
      rw [hrun, hpolls] at hanswer
      refine ⟨hempty, ?_⟩
      simp only [List.getElem?_concat_length, Option.some.injEq] at hanswer
      cases hverdict : verdict z s.sink (headCopy s (z := z)) with
      | full => rfl
      | notReady =>
        rw [hverdict] at hanswer
        simp [Verdict.next] at hanswer
      | admitted parsed =>
        rw [hverdict] at hanswer
        simp [Verdict.next] at hanswer
      | corrupt status =>
        rw [hverdict] at hanswer
        have hstatus : status = .ebusy := by simpa [Verdict.next] using hanswer
        exact absurd hstatus (verdict_corrupt hverdict)
    · intro h result save
      rw [hrun, hpolls, h.2]
      simp [Verdict.next]

def Fits (s : System) : Prop := ∀ i, (s.sink.packets i).data.length ≤ z.packetMaxLen

theorem Fits.packets {s t : System} (h : Fits (z := z) s)
    (hpackets : t.sink.packets = s.sink.packets) : Fits (z := z) t := by
  intro i
  rw [hpackets]
  exact h i

theorem resetQueues_fits (s : System) (prebuffer : Bool) : Fits (z := z) (resetQueues z s prebuffer) := by
  intro i
  exact Nat.zero_le _

theorem queueMedia_fits {s : System} (h : Fits (z := z) s) (data : List UInt8) :
    Fits (z := z) (queueMedia z s data) := by
  rw [queueMedia]
  dsimp only
  split
  · exact h.packets rfl
  · rename_i hroom
    intro i
    dsimp only
    by_cases hi : i = place z.packetQueueDepth s.sink.packetHead s.sink.packetCount
    · rw [hi, Function.update_self]
      dsimp only
      omega
    · rw [Function.update_of_ne hi]
      exact h i

theorem backendEvent_fits {s : System} (h : Fits (z := z) s) (event : Event) :
    Fits (z := z) (backendEvent z s event) := by
  cases event with
  | connected => exact h
  | format format status => exact h
  | started => exact resetQueues_fits s true
  | suspended => exact resetQueues_fits s false
  | stopped => exact resetQueues_fits s false
  | disconnected => exact resetQueues_fits s false
  | media data =>
    rw [backendEvent]
    split
    · exact queueMedia_fits h data
    · exact h
  | error fatal =>
    rw [backendEvent]
    split
    · exact resetQueues_fits s false
    · exact h

theorem pcmEvent_packets (s : System) (event : PcmEvent) (packet : ℕ) :
    (pcmEvent z s event packet).sink.packets = s.sink.packets := by
  rw [pcmEvent]
  dsimp only
  split
  · rfl
  · split
    · rfl
    · split
      · rfl
      · rfl

theorem pollTake_packets (s : System) (k : ℕ) (copy : Copy) :
    (pollTake z s k copy).sink.packets = s.sink.packets := by
  rw [pollTake]
  cases verdict z s.sink copy with
  | notReady => rfl
  | corrupt status => rfl
  | full => rfl
  | admitted parsed => rfl

theorem pollNext_packets (s : System) (k : ℕ) (result : Decoded) (save : Status) :
    (pollNext z s k result save).sink.packets = s.sink.packets := by
  rw [pollNext]
  split
  · rfl
  · exact pollTake_packets s k _
  · split
    · rw [pollDecode]
      split
      · rfl
      · cases result with
        | refused status h => rfl
        | block event => exact pcmEvent_packets s event _
    · rw [pollCount]
      dsimp only
      split
      · rfl
      · rfl
  · rw [pollSave]
    split
    · rfl
    · rfl
  · rfl

theorem pcmNext_packets (s : System) (sampleCapacity : ℕ) :
    (pcmNext z s sampleCapacity).sink.packets = s.sink.packets := by
  obtain ⟨_, hpackets, _⟩ := awake_kept (z := z) s.sink
  rw [pcmNext_eq]
  split
  · rfl
  · split
    · split
      · exact hpackets
      · exact hpackets
    · split
      · exact hpackets
      · exact hpackets

theorem step_fits {s : System} (h : Fits (z := z) s) (action : Action) :
    Fits (z := z) (step z s action) := by
  cases action with
  | event event => exact backendEvent_fits h event
  | pollCopy =>
    rw [step, pollCopy]
    split
    · exact h
    · exact h
  | pollNext k result save => exact h.packets (pollNext_packets s k result save)
  | pcmNext sampleCapacity => exact h.packets (pcmNext_packets s sampleCapacity)

theorem run_fits {s : System} (h : Fits (z := z) s) (actions : List Action) :
    Fits (z := z) (run z s actions) := by
  induction actions generalizing s with
  | nil => exact h
  | cons action actions ih => exact ih (step_fits h action)

/-- Where the threshold leaves room for the longest packet, nobody waits. -/
theorem not_deadlocked {s : System} (hfits : Fits (z := z) s)
    (hroom : z.prebufferBlocks+maxFrames z ≤ z.pcmQueueDepth+1) : ¬Deadlocked z s := by
  intro h
  obtain ⟨_, hbusy, hagain⟩ := h
  obtain ⟨_, hfull⟩ := pollBusy_iff.mp hbusy
  obtain ⟨_, parsed, hparsed, hcount⟩ := verdict_full.mp hfull
  have hframes := mediaPacketParse_spec (headCopy s (z := z)).packet.data (headCopy s (z := z)).format
  rw [hparsed] at hframes
  have hlength : (headCopy s (z := z)).packet.data.length ≤ z.packetMaxLen := hfits _
  have hmax : parsed.frameCount ≤ maxFrames z := by
    rw [maxFrames]
    obtain ⟨hfifteen, hseven⟩ := hframes
    omega
  have hprebuffer := z.prebufferBlocks_ge
  rcases pcmNextStatus_again.mp (hagain 0) with ⟨_, hwait⟩ | hempty
  · omega
  · omega

def shortFrame : List UInt8 := [0x9c, 0x80, 2, 0, 0, 0, 0]

def shortFormat : Format := ⟨44100, 1, .mono, 4, 4, 2, 2⟩

def mediaOf (n : ℕ) : List UInt8 :=
  0x80 :: List.replicate 11 0 ++ UInt8.ofNat n :: (List.replicate n shortFrame).flatten

theorem mediaOf_length (n : ℕ) : (mediaOf n).length = 13+7*n := by
  simp [mediaOf, shortFrame]
  omega

theorem mediaOf_parse {n : ℕ} (hn : 1 ≤ n) (hmax : n ≤ 15) :
    ∃ parsed, mediaPacketParse (mediaOf n) shortFormat = .ok parsed ∧ parsed.frameCount = n := by
  have hall : ∀ n ∈ List.range' 1 15, (mediaPacketParse (mediaOf n) shortFormat).toOption.map
      ParsedPacket.frameCount = some n := by
    decide +kernel
  have hone := hall n (by simp; omega)
  cases hparse : mediaPacketParse (mediaOf n) shortFormat with
  | error status =>
    rw [hparse] at hone
    simp [Except.toOption] at hone
  | ok parsed =>
    rw [hparse] at hone
    exact ⟨parsed, rfl, by simpa [Except.toOption] using hone⟩

theorem mediaOf_one : mediaPacketParse (mediaOf 1) shortFormat = .ok ⟨shortFrame, 1⟩ := by
  rfl

def silence : PcmEvent where
  samples := List.replicate 16 0
  frames := 16
  sampleRateHz := 44100
  channels := 1
  frames_valid := by decide
  channels_valid := by decide
  sampleRateHz_valid := by decide

structure Filling (blocks : ℕ) (s : System) : Prop where
  state : s.sink.state = .streaming
  format : s.sink.format = shortFormat
  formatValid : s.sink.formatValid = true
  prebuffering : s.sink.prebuffering = true
  pcmCount : s.sink.pcmCount = blocks

structure Queued (blocks n : ℕ) (s : System) : Prop extends Filling blocks s where
  packetCount : s.sink.packetCount = 1
  head : (s.sink.packets (place z.packetQueueDepth s.sink.packetHead 0)).data = mediaOf n

theorem media_queued {blocks n : ℕ} {s : System} (h : Filling blocks s)
    (hempty : s.sink.packetCount = 0) (hlength : 13+7*n ≤ z.packetMaxLen) :
    Queued (z := z) blocks n (step z s (.event (.media (mediaOf n)))) ∧
    (step z s (.event (.media (mediaOf n)))).polls = s.polls := by
  have hdepth := z.packetQueueDepth_ge
  have hqueue : step z s (.event (.media (mediaOf n))) = queueMedia z s (mediaOf n) :=
    if_pos h.state
  rw [hqueue, queueMedia]
  dsimp only
  rw [mediaOf_length, if_neg (by omega)]
  refine ⟨⟨⟨h.state, h.format, h.formatValid, h.prebuffering, h.pcmCount⟩, ?_, ?_⟩, rfl⟩
  · rw [hempty]
  · rw [hempty]
    dsimp only
    rw [Function.update_self]

theorem queued_deadlocked {blocks n : ℕ} {s : System} (h : Queued (z := z) blocks n s)
    (hn : 1 ≤ n) (hmax : n ≤ 15) (hwait : blocks < z.prebufferBlocks)
    (hroom : z.pcmQueueDepth < blocks+n) : Deadlocked z s := by
  obtain ⟨parsed, hparse, hcount⟩ := mediaOf_parse hn hmax
  refine ⟨h.state, pollBusy_iff.mpr ⟨by simp [h.packetCount], verdict_full.mpr ⟨?_, parsed, ?_, ?_⟩⟩,
    fun sampleCapacity => ?_⟩
  · simp [headCopy, h.state, h.formatValid]
  · rw [headCopy]
    dsimp only
    rw [h.head, h.format]
    exact hparse
  · rw [h.pcmCount, hcount]
    omega
  · exact pcmNextStatus_again.mpr (Or.inl ⟨h.prebuffering, by rw [h.pcmCount]; exact hwait⟩)

def pollActions (k : ℕ) : List Action :=
  [.pollCopy, .pollNext k (.block silence) .ok, .pollNext k (.block silence) .ok,
    .pollNext k (.block silence) .ok, .pollNext k (.block silence) .ok]

theorem pcmEvent_silence {blocks : ℕ} {s : System} (h : Filling blocks s)
    (hroom : blocks < z.pcmQueueDepth) (packet : ℕ) :
    Filling (blocks+1) (pcmEvent z s silence packet) ∧
    (pcmEvent z s silence packet).sink.packetCount = s.sink.packetCount ∧
    (pcmEvent z s silence packet).polls = s.polls := by
  rw [pcmEvent]
  dsimp only
  rw [if_neg (by simp [h.state]), if_neg (by decide), if_neg (by rw [h.pcmCount]; omega)]
  exact ⟨⟨h.state, h.format, h.formatValid, h.prebuffering, by rw [h.pcmCount]⟩, rfl, rfl⟩

structure Polling (blocks : ℕ) (front : List Phase) (phase : Phase) (s : System) : Prop
    extends Filling blocks s where
  packetCount : s.sink.packetCount = 0
  polls : s.polls = front ++ [phase]

section Polling

variable {blocks : ℕ} {front : List Phase} {copy : Copy} {s : System}

theorem poll_taken (h : Filling blocks s) (hcount : s.sink.packetCount = 1)
    (hpolls : s.polls = front ++ [.copied copy]) {parsed : ParsedPacket}
    (hverdict : verdict z s.sink copy = .admitted parsed) (result : Decoded) (save : Status) :
    Polling blocks front (.decoding copy parsed 0 0 .ok)
      (pollNext z s front.length result save) := by
  rw [pollNext, pollNext_last hpolls]
  dsimp only
  rw [pollTake, hverdict]
  refine ⟨⟨h.state, h.format, h.formatValid, h.prebuffering, h.pcmCount⟩, ?_, ?_⟩
  · simp [setPoll, popMedia, hcount]
  · exact setPoll_last (by exact hpolls) _

theorem poll_decoded (h : Polling blocks front (.decoding copy ⟨shortFrame, 1⟩ 0 0 .ok) s)
    (hroom : blocks < z.pcmQueueDepth) (save : Status) :
    Polling (blocks+1) front (.decoding copy ⟨shortFrame, 1⟩ 7 1 .ok)
      (pollNext z s front.length (.block silence) save) := by
  have hframe : sbcFrameParse (shortFrame.drop 0) = .ok ⟨shortFormat, 7⟩ := by rfl
  obtain ⟨hfilled, hcount, hpolls⟩ := pcmEvent_silence h.toFilling hroom copy.packet.number
  rw [pollNext, pollNext_last h.polls]
  dsimp only
  rw [if_pos ⟨rfl, Nat.one_pos⟩, pollDecode, hframe]
  refine ⟨⟨hfilled.state, hfilled.format, hfilled.formatValid, hfilled.prebuffering,
    hfilled.pcmCount⟩, ?_, ?_⟩
  · exact hcount.trans h.packetCount
  · exact setPoll_last (hpolls.trans h.polls) _

theorem poll_counted {offset : ℕ} {parsed : ParsedPacket} (hparsed : parsed.frameCount = 1)
    (h : Polling blocks front (.decoding copy parsed offset 1 .ok) s) (result : Decoded)
    (save : Status) :
    ∃ phase, (phase = .saving .ok ∨ phase = .done .ok) ∧
      Polling blocks front phase (pollNext z s front.length result save) := by
  rw [pollNext, pollNext_last h.polls]
  dsimp only
  rw [hparsed, if_neg (by simp), pollCount]
  dsimp only
  rw [if_neg (by simp)]
  refine ⟨_, ?_, ⟨h.state, h.format, h.formatValid, h.prebuffering, h.pcmCount⟩, h.packetCount,
    setPoll_last (by exact h.polls) _⟩
  split
  · exact Or.inl rfl
  · exact Or.inr rfl

theorem poll_saved {phase : Phase} (hphase : phase = .saving .ok ∨ phase = .done .ok)
    (h : Polling blocks front phase s) (result : Decoded) :
    Polling blocks front (.done .ok) (pollNext z s front.length result .ok) := by
  rw [pollNext, pollNext_last h.polls]
  rcases hphase with hphase | hphase
  · rw [hphase]
    dsimp only
    rw [pollSave, if_pos rfl]
    exact ⟨⟨h.state, h.format, h.formatValid, h.prebuffering, h.pcmCount⟩, h.packetCount,
      setPoll_last (by exact h.polls) _⟩
  · rw [hphase] at h ⊢
    exact h

end Polling

theorem run_pollActions (s : System) (k : ℕ) : run z s (pollActions k) =
    pollNext z (pollNext z (pollNext z (pollNext z (pollCopy z s) k (.block silence) .ok) k
      (.block silence) .ok) k (.block silence) .ok) k (.block silence) .ok := rfl

theorem poll_fills {blocks : ℕ} {s : System} (h : Queued (z := z) blocks 1 s)
    (hroom : blocks < z.pcmQueueDepth) :
    Polling (blocks+1) s.polls (.done .ok) (run z s (pollActions s.polls.length)) := by
  have hparse : mediaPacketParse (headCopy s (z := z)).packet.data
      (headCopy s (z := z)).format = .ok ⟨shortFrame, 1⟩ := by
    rw [headCopy]
    dsimp only
    rw [h.head, h.format]
    exact mediaOf_one
  have hverdict : verdict z s.sink (headCopy s (z := z)) = .admitted ⟨shortFrame, 1⟩ := by
    have hfits : ¬1 > z.pcmQueueDepth-s.sink.pcmCount := by
      rw [h.pcmCount]
      omega
    rw [verdict, if_neg (by simp [headCopy, h.state, h.formatValid]), hparse]
    exact if_neg hfits
  have hcopied : pollCopy z s = { s with polls := s.polls ++ [.copied (headCopy s (z := z))] } :=
    pollCopy_some (by simp [h.packetCount])
  have htaken : Polling blocks s.polls (.decoding (headCopy s (z := z)) ⟨shortFrame, 1⟩ 0 0 .ok)
      (pollNext z (pollCopy z s) s.polls.length (.block silence) .ok) := by
    rw [hcopied]
    apply poll_taken
    · exact ⟨h.state, h.format, h.formatValid, h.prebuffering, h.pcmCount⟩
    · exact h.packetCount
    · rfl
    · exact hverdict
  have hdecoded := poll_decoded htaken hroom .ok
  obtain ⟨phase, hphase, hcounted⟩ := poll_counted rfl hdecoded (.block silence) .ok
  rw [run_pollActions]
  exact poll_saved hphase hcounted _

theorem run_append (s : System) (first second : List Action) :
    run z s (first ++ second) = run z (run z s first) second := by
  induction first generalizing s with
  | nil => rfl
  | cons action actions ih => exact ih _

/-- Below the threshold every number of blocks is reached, one packet at a time. -/
theorem filling_reached (outputMode : OutputMode) (volume : ℕ) (hlength : 20 ≤ z.packetMaxLen)
    {blocks : ℕ} (hblocks : blocks ≤ z.pcmQueueDepth) :
    ∃ actions, Filling blocks (run z (start outputMode volume) actions) ∧
      (run z (start outputMode volume) actions).sink.packetCount = 0 := by
  induction blocks with
  | zero =>
    refine ⟨[.event .connected, .event (.format shortFormat .ok), .event .started], ?_, ?_⟩
    · simp only [run, step, backendEvent]
      exact ⟨rfl, rfl, rfl, rfl, rfl⟩
    · rfl
  | succ blocks ih =>
    obtain ⟨actions, hfilling, hempty⟩ := ih (by omega)
    generalize hs : run z (start outputMode volume) actions = s at hfilling hempty
    obtain ⟨hqueued, hpolls⟩ := media_queued hfilling hempty (n := 1) (by omega)
    have hfilled := poll_fills hqueued (by omega)
    refine ⟨actions ++ .event (.media (mediaOf 1)) ::
      pollActions (step z s (.event (.media (mediaOf 1)))).polls.length, ?_⟩
    rw [run_append, hs, run]
    exact ⟨hfilled.toFilling, hfilled.packetCount⟩

theorem deadlock_reached (outputMode : OutputMode) (volume : ℕ)
    (hroom : z.pcmQueueDepth+1 < z.prebufferBlocks+maxFrames z) :
    ∃ actions, Deadlocked z (run z (start outputMode volume) actions) := by
  have hone := z.prebufferBlocks_ge
  have hprebuffer := z.prebufferBlocks_lt
  have hmax : maxFrames z ≤ 15 ∧ 13+7*maxFrames z ≤ max 13 z.packetMaxLen := by
    rw [maxFrames]
    omega
  have hblocks : z.prebufferBlocks-1 ≤ z.pcmQueueDepth := by omega
  obtain ⟨actions, hfilling, hempty⟩ := filling_reached outputMode volume (z := z) (by omega) hblocks
  obtain ⟨hqueued, _⟩ := media_queued (z := z) hfilling hempty (n := maxFrames z) (by omega)
  refine ⟨actions ++ [.event (.media (mediaOf (maxFrames z)))], ?_⟩
  rw [run_append]
  apply queued_deadlocked hqueued
  · omega
  · exact hmax.1
  · omega
  · omega

variable (z)

/-- Playback gets stuck in no run exactly when a queue below the threshold has
room for the longest packet. -/
theorem playback_live :
    (∀ outputMode volume actions, ¬Deadlocked z (run z (start outputMode volume) actions)) ↔
      z.prebufferBlocks+maxFrames z ≤ z.pcmQueueDepth+1 := by
  constructor
  · intro h
    by_contra hroom
    obtain ⟨actions, hdead⟩ := deadlock_reached .native 0 (z := z) (by omega)
    exact h .native 0 actions hdead
  · intro hroom outputMode volume actions
    apply not_deadlocked _ hroom
    apply run_fits
    intro i
    exact Nat.zero_le _

/-- With the header's depths three packets of one frame and one of fifteen are
enough. -/
theorem default_deadlocks :
    Deadlocked defaultSizes (run defaultSizes (start .native 0)
      ([.event .connected, .event (.format shortFormat .ok), .event .started] ++
        .event (.media (mediaOf 1)) :: pollActions 0 ++
        .event (.media (mediaOf 1)) :: pollActions 1 ++
        .event (.media (mediaOf 1)) :: pollActions 2 ++ [.event (.media (mediaOf 15))])) := by
  apply queued_deadlocked (n := 15)
  · refine ⟨⟨rfl, rfl, rfl, rfl, rfl⟩, rfl, rfl⟩
  · decide
  · decide
  · decide
  · decide

end JaszczurHal.A2dpSink
