import JaszczurHal.A2dpSink

/-!
# The queues of the A2DP sink over whole runs

A poll looks at the head packet in one section and removes the head in a later
one, and it decodes in further sections. The queues stay consistent in every
run in which nothing empties or shortens the packet queue between the first
two, and no block of a finished stream is queued in a later one.
-/

set_option autoImplicit false

namespace JaszczurHal.A2dpSink
open JaszczurHal.HalStatus JaszczurHal.RingQueue

variable (z : Sizes)

def Phase.packet : Phase → Option ℕ
  | .decoding copy _ _ _ _ => some copy.packet.number
  | _ => none

def inDecoding (polls : List Phase) : List ℕ := polls.filterMap Phase.packet

/-- How often packet `n` is queued, being decoded, decoded, reported as
corrupt, counted as dropped, or discarded with its stream. -/
def places (s : System) (n : ℕ) : ℕ :=
  ((s.sink.queue z).map MediaPacket.number).count n + (inDecoding s.polls).count n +
    s.log.decoded.count n + s.log.corrupt.count n + s.log.dropped.count n +
    s.log.discarded.count n

/-- What holds of the queues and of everything that has passed through them. -/
structure Consistent (s : System) : Prop where
  packetCount : s.sink.packetCount ≤ z.packetQueueDepth
  pcmCount : s.sink.pcmCount ≤ z.pcmQueueDepth
  removed : ∀ p ∈ s.log.removed, p.2 = p.1
  once : ∀ n, places z s n = if n < s.log.streams.length then 1 else 0
  droppedPackets : s.sink.droppedPackets = UInt32.ofNat (s.log.dropped.length+s.log.ignored)
  corruptFrames : s.sink.corruptFrames = UInt32.ofNat s.log.corrupt.length
  order : (s.log.returned.map Prod.fst).Sublist s.log.blocks
  stream : ∀ p ∈ s.log.returned, s.log.streams[p.1.packet]? = some p.2

/-- The copy is still of the head: nothing was reset or removed since. -/
def Copy.Fresh (copy : Copy) (log : Log) : Prop :=
  copy.resets = log.resets ∧ copy.removals = log.removed.length

/-- A poll removes a packet only while its copy is fresh, and a decoded block
is queued only in the stream its packet came with. -/
def Clean (s : System) : Action → Prop
  | .pollNext k result _ =>
    match s.polls[k]? with
    | some (.copied copy) =>
      match verdict z s.sink copy with
      | .full => True
      | _ => copy.Fresh s.log
    | some (.decoding copy _ _ _ _) =>
      match result with
      | .block _ => s.sink.state = .streaming → copy.resets = s.log.resets
      | .refused _ _ => True
    | _ => True
  | _ => True

def AllClean : System → List Action → Prop
  | _, [] => True
  | s, action :: actions => Clean z s action ∧ AllClean (step z s action) actions

structure Queues (k : Sink) (log : Log) : Prop where
  packetCount : k.packetCount ≤ z.packetQueueDepth
  pcmCount : k.pcmCount ≤ z.pcmQueueDepth
  packets : ∀ p ∈ k.queue z, log.streams[p.number]? = some log.resets
  pcm : ∀ b ∈ k.blocks z, log.streams[b.packet]? = some log.resets
  order : (log.returned.map Prod.fst ++ k.blocks z).Sublist log.blocks
  stream : ∀ p ∈ log.returned, log.streams[p.1.packet]? = some p.2

structure Polls (polls : List Phase) (queue : List MediaPacket) (log : Log) : Prop where
  copied : ∀ copy, Phase.copied copy ∈ polls →
    copy.resets ≤ log.resets ∧ copy.removals ≤ log.removed.length ∧
      log.streams[copy.packet.number]? = some copy.resets ∧
      (copy.Fresh log → ∃ rest, queue = copy.packet :: rest)
  decoding : ∀ copy parsed offset index status,
    Phase.decoding copy parsed offset index status ∈ polls →
      log.streams[copy.packet.number]? = some copy.resets

structure Accounts (s : System) : Prop where
  removed : ∀ p ∈ s.log.removed, p.2 = p.1
  once : ∀ n, places z s n = if n < s.log.streams.length then 1 else 0
  droppedPackets : s.sink.droppedPackets = UInt32.ofNat (s.log.dropped.length+s.log.ignored)
  corruptFrames : s.sink.corruptFrames = UInt32.ofNat s.log.corrupt.length

structure Holds (s : System) : Prop where
  queues : Queues z s.sink s.log
  polls : Polls s.polls (s.sink.queue z) s.log
  accounts : Accounts z s

variable {z}

theorem Holds.consistent {s : System} (h : Holds z s) : Consistent z s where
  packetCount := h.queues.packetCount
  pcmCount := h.queues.pcmCount
  removed := h.accounts.removed
  once := h.accounts.once
  droppedPackets := h.accounts.droppedPackets
  corruptFrames := h.accounts.corruptFrames
  order := (List.sublist_append_left _ _).trans h.queues.order
  stream := h.queues.stream

theorem start_holds (outputMode : OutputMode) (volume : ℕ) :
    Holds z (start outputMode volume) := by
  constructor
  · constructor
    · exact Nat.zero_le _
    · exact Nat.zero_le _
    · intro p hp
      cases hp
    · intro b hb
      cases hb
    · exact List.Sublist.refl _
    · intro p hp
      cases hp
  · constructor
    · intro copy hcopy
      cases hcopy
    · intro copy parsed offset index status hphase
      cases hphase
  · constructor
    · intro p hp
      cases hp
    · intro n
      rfl
    · rfl
    · rfl

/-- The invariant does not read the other fields of the runtime. -/
theorem Holds.sink {s : System} (h : Holds z s) (k : Sink)
    (hpackets : k.packets = s.sink.packets) (hhead : k.packetHead = s.sink.packetHead)
    (hcount : k.packetCount = s.sink.packetCount) (hpcm : k.pcm = s.sink.pcm)
    (hpcmHead : k.pcmHead = s.sink.pcmHead) (hpcmCount : k.pcmCount = s.sink.pcmCount)
    (hdropped : k.droppedPackets = s.sink.droppedPackets)
    (hcorrupt : k.corruptFrames = s.sink.corruptFrames) : Holds z { s with sink := k } := by
  have hqueue : k.queue z = s.sink.queue z := by
    simp only [Sink.queue, hpackets, hhead, hcount]
  have hblocks : k.blocks z = s.sink.blocks z := by
    simp only [Sink.blocks, hpcm, hpcmHead, hpcmCount]
  constructor
  · constructor
    · exact hcount.le.trans h.queues.packetCount
    · exact hpcmCount.le.trans h.queues.pcmCount
    · rw [hqueue]
      exact h.queues.packets
    · rw [hblocks]
      exact h.queues.pcm
    · rw [hblocks]
      exact h.queues.order
    · exact h.queues.stream
  · rw [hqueue]
    exact h.polls
  · constructor
    · exact h.accounts.removed
    · simp only [places, hqueue]
      exact h.accounts.once
    · exact hdropped.trans h.accounts.droppedPackets
    · exact hcorrupt.trans h.accounts.corruptFrames

/-- A reset discards what is queued and begins another stream. -/
theorem resetQueues_holds {s : System} (h : Holds z s) (prebuffer : Bool) :
    Holds z (resetQueues z s prebuffer) := by
  constructor
  · constructor
    · exact Nat.zero_le _
    · exact Nat.zero_le _
    · intro p hp
      cases hp
    · intro b hb
      cases hb
    · have hreturned := (List.sublist_append_left _ _).trans h.queues.order
      simpa [Sink.blocks, resetQueues] using hreturned
    · exact h.queues.stream
  · constructor
    · intro copy hcopy
      obtain ⟨hresets, hremovals, hstream, _⟩ := h.polls.copied copy hcopy
      refine ⟨Nat.le_succ_of_le hresets, hremovals, hstream, fun hfresh => ?_⟩
      have hsame : copy.resets = s.log.resets+1 := hfresh.1
      omega
    · exact h.polls.decoding
  · constructor
    · exact h.accounts.removed
    · intro n
      apply Eq.trans _ (h.accounts.once n)
      simp only [places, resetQueues, Sink.queue, contents_zero, List.map_nil, List.count_nil,
        List.count_append]
      omega
    · exact h.accounts.droppedPackets
    · exact h.accounts.corruptFrames

/-- An old index still reads the same behind more entries. -/
theorem stream_append {streams : List ℕ} {n r : ℕ} (h : streams[n]? = some r) (next : ℕ) :
    (streams ++ [next])[n]? = some r := by
  rw [List.getElem?_append_left (List.getElem?_eq_some_iff.mp h).1]
  exact h

theorem Polls.media {polls : List Phase} {queue more : List MediaPacket} {log : Log}
    (h : Polls polls queue log) (next : ℕ) (dropped : List ℕ) :
    Polls polls (queue ++ more)
      { log with streams := log.streams ++ [next], dropped := dropped } := by
  constructor
  · intro copy hcopy
    obtain ⟨hresets, hremovals, hstream, hhead⟩ := h.copied copy hcopy
    refine ⟨hresets, hremovals, stream_append hstream next, fun hfresh => ?_⟩
    obtain ⟨rest, hrest⟩ := hhead hfresh
    exact ⟨rest ++ more, by rw [hrest, List.cons_append]⟩
  · intro copy parsed offset index status hphase
    exact stream_append (h.decoding copy parsed offset index status hphase) next

theorem count_up (n : ℕ) : UInt32.ofNat (n+1) = UInt32.ofNat n+1 := UInt32.ofNat_add n 1

/-- How often the number of the next packet is found. -/
theorem count_next (n m : ℕ) : [m].count n + (if n < m then 1 else 0) = if n < m+1 then 1 else 0 := by
  rw [List.count_singleton]
  by_cases heq : m = n
  · simp [heq]
  · rw [if_neg (by simpa using heq)]
    by_cases hlt : n < m
    · rw [if_pos hlt, if_pos (by omega)]
    · rw [if_neg hlt, if_neg (by omega)]

theorem queueMedia_holds {s : System} (h : Holds z s) (data : List UInt8) :
    Holds z (queueMedia z s data) := by
  have hnew : (s.log.streams ++ [s.log.resets])[s.log.streams.length]? = some s.log.resets := by
    simp
  have hqueued : ∀ p ∈ s.sink.queue z,
      (s.log.streams ++ [s.log.resets])[p.number]? = some s.log.resets :=
    fun p hp => stream_append (h.queues.packets p hp) _
  have hpcm : ∀ b ∈ s.sink.blocks z,
      (s.log.streams ++ [s.log.resets])[b.packet]? = some s.log.resets :=
    fun b hb => stream_append (h.queues.pcm b hb) _
  have hstream : ∀ p ∈ s.log.returned,
      (s.log.streams ++ [s.log.resets])[p.1.packet]? = some p.2 :=
    fun p hp => stream_append (h.queues.stream p hp) _
  simp only [queueMedia]
  by_cases hdrop : data.length = 0 ∨ data.length > z.packetMaxLen ∨
      s.sink.packetCount = z.packetQueueDepth
  · rw [if_pos hdrop]
    constructor
    · exact ⟨h.queues.packetCount, h.queues.pcmCount, hqueued, hpcm, h.queues.order, hstream⟩
    · have hpolls := @Polls.media _ _ [] _ h.polls s.log.resets
        (s.log.dropped ++ [s.log.streams.length])
      rw [List.append_nil] at hpolls
      exact hpolls
    · constructor
      · exact h.accounts.removed
      · intro n
        have honce := h.accounts.once n
        have hnext := count_next n s.log.streams.length
        simp only [places, Sink.queue, List.count_append, List.length_append,
          List.length_singleton] at honce ⊢
        omega
      · simp only [h.accounts.droppedPackets, List.length_append, List.length_singleton]
        rw [Nat.add_right_comm, count_up]
      · exact h.accounts.corruptFrames
  · rw [if_neg hdrop]
    have hroom : s.sink.packetCount < z.packetQueueDepth := by
      have hle := h.queues.packetCount
      have hne : s.sink.packetCount ≠ z.packetQueueDepth := fun heq => hdrop (Or.inr (Or.inr heq))
      omega
    have hpush := contents_push s.sink.packets s.sink.packetHead hroom
      ⟨data, s.log.streams.length⟩
    constructor
    · constructor
      · exact hroom
      · exact h.queues.pcmCount
      · simp only [Sink.queue, hpush]
        intro p hp
        rcases List.mem_append.mp hp with hp | hp
        · exact hqueued p hp
        · rw [List.mem_singleton.mp hp]
          exact hnew
      · exact hpcm
      · exact h.queues.order
      · exact hstream
    · simp only [Sink.queue, hpush]
      exact h.polls.media _ _
    · constructor
      · exact h.accounts.removed
      · intro n
        have honce := h.accounts.once n
        have hnext := count_next n s.log.streams.length
        simp only [places, Sink.queue, hpush, List.map_append, List.map_cons, List.map_nil,
          List.count_append, List.length_append, List.length_singleton] at honce ⊢
        omega
      · exact h.accounts.droppedPackets
      · exact h.accounts.corruptFrames

theorem inDecoding_set {polls : List Phase} {k : ℕ} {old : Phase} (h : polls[k]? = some old)
    (next : Phase) (n : ℕ) :
    (inDecoding (polls.set k next)).count n + old.packet.toList.count n =
      (inDecoding polls).count n + next.packet.toList.count n := by
  induction polls generalizing k with
  | nil => simp at h
  | cons phase rest ih =>
    have hcons : ∀ (p : Phase) (ps : List Phase),
        (inDecoding (p :: ps)).count n = p.packet.toList.count n + (inDecoding ps).count n := by
      intro p ps
      simp only [inDecoding, List.filterMap_cons]
      cases p.packet with
      | none => simp
      | some number => simp [List.count_cons, Nat.add_comm]
    cases k with
    | zero =>
      obtain rfl := Option.some.inj h
      rw [List.set_cons_zero, hcons, hcons]
      omega
    | succ k =>
      have hrest := ih (k := k) (by simpa using h)
      rw [List.set_cons_succ, hcons, hcons]
      omega

/-- The section that follows knows what the section before knew. -/
theorem Polls.set {polls : List Phase} {queue : List MediaPacket} {log : Log}
    (h : Polls polls queue log) (k : ℕ) {next : Phase}
    (hcopied : ∀ copy, next ≠ .copied copy)
    (hdecoding : ∀ copy parsed offset index status,
      next = .decoding copy parsed offset index status →
        log.streams[copy.packet.number]? = some copy.resets) :
    Polls (polls.set k next) queue log := by
  constructor
  · intro copy hcopy
    rcases List.mem_or_eq_of_mem_set hcopy with hold | hnew
    · exact h.copied copy hold
    · exact absurd hnew.symm (hcopied copy)
  · intro copy parsed offset index status hphase
    rcases List.mem_or_eq_of_mem_set hphase with hold | hnew
    · exact h.decoding copy parsed offset index status hold
    · exact hdecoding copy parsed offset index status hnew.symm

theorem Holds.setPoll {s : System} (h : Holds z s) {k : ℕ} {old next : Phase}
    (hk : s.polls[k]? = some old) (hpacket : next.packet = old.packet)
    (hcopied : ∀ copy, next ≠ .copied copy)
    (hdecoding : ∀ copy parsed offset index status,
      next = .decoding copy parsed offset index status →
        s.log.streams[copy.packet.number]? = some copy.resets) :
    Holds z (setPoll s k next) := by
  constructor
  · exact h.queues
  · exact h.polls.set k hcopied hdecoding
  · constructor
    · exact h.accounts.removed
    · intro n
      apply Eq.trans _ (h.accounts.once n)
      have hset := inDecoding_set hk next n
      rw [hpacket] at hset
      simp only [places, A2dpSink.setPoll]
      omega
    · exact h.accounts.droppedPackets
    · exact h.accounts.corruptFrames

theorem pollCopy_holds {s : System} (h : Holds z s) : Holds z (pollCopy z s) := by
  rw [pollCopy]
  by_cases hempty : s.sink.packetCount = 0
  · rw [if_pos hempty]
    exact h
  · rw [if_neg hempty]
    have hqueue := contents_pop z.packetQueueDepth s.sink.packets s.sink.packetHead
      (Nat.pos_of_ne_zero hempty)
    constructor
    · exact h.queues
    · constructor
      · intro copy hcopy
        rcases List.mem_append.mp hcopy with hold | hnew
        · exact h.polls.copied copy hold
        · have hsame := List.mem_singleton.mp hnew
          simp only [Phase.copied.injEq] at hsame
          subst hsame
          refine ⟨Nat.le_refl _, Nat.le_refl _, ?_, fun _ => ⟨_, hqueue⟩⟩
          apply h.queues.packets
          rw [Sink.queue, hqueue]
          exact List.mem_cons_self
      · intro copy parsed offset index status hphase
        rcases List.mem_append.mp hphase with hold | hnew
        · exact h.polls.decoding copy parsed offset index status hold
        · cases List.mem_singleton.mp hnew
    · constructor
      · exact h.accounts.removed
      · intro n
        apply Eq.trans _ (h.accounts.once n)
        simp only [places, inDecoding, List.filterMap_append, List.count_append]
        rfl
      · exact h.accounts.droppedPackets
      · exact h.accounts.corruptFrames

theorem popMedia_queue {s : System} (h : Queues z s.sink s.log) {packet : MediaPacket}
    {rest : List MediaPacket} (hqueue : s.sink.queue z = packet :: rest) (parsed : MediaPacket) :
    (popMedia z s parsed).sink.queue z = rest ∧
    s.sink.packets (place z.packetQueueDepth s.sink.packetHead 0) = packet ∧
    (popMedia z s parsed).sink.packetCount+1 = s.sink.packetCount := by
  have hlength : s.sink.packetCount = rest.length+1 := by
    have hcount := congrArg List.length hqueue
    simpa [Sink.queue] using hcount
  have hle := h.packetCount
  have hdepth := z.packetQueueDepth_lt
  have hwrap : (s.sink.packetCount+(2^32-1))%2^32 = s.sink.packetCount-1 := by omega
  have hpop := contents_pop z.packetQueueDepth s.sink.packets s.sink.packetHead
    (show 0 < s.sink.packetCount by omega)
  rw [Sink.queue, hpop] at hqueue
  obtain ⟨hhead, hrest⟩ := List.cons.inj hqueue
  refine ⟨?_, hhead, ?_⟩
  · simp only [popMedia, Sink.queue, hwrap]
    exact hrest
  · simp only [popMedia, hwrap]
    omega

/-- The poll removes the packet it has copied and goes on with `next`. -/
theorem Holds.take {s : System} (h : Holds z s) {k : ℕ} {copy : Copy} {next : Phase}
    (hk : s.polls[k]? = some (.copied copy)) (hfresh : copy.Fresh s.log)
    {dropped corrupt : List ℕ} {droppedPackets corruptFrames : UInt32}
    (hmoved : ∀ n, next.packet.toList.count n + dropped.count n + corrupt.count n =
      [copy.packet.number].count n + s.log.dropped.count n + s.log.corrupt.count n)
    (hdropped : droppedPackets = UInt32.ofNat (dropped.length+s.log.ignored))
    (hcorrupt : corruptFrames = UInt32.ofNat corrupt.length)
    (hcopied : ∀ other, next ≠ .copied other)
    (hdecoding : ∀ other parsed offset index status,
      next = .decoding other parsed offset index status → other = copy) :
    Holds z (A2dpSink.setPoll { popMedia z s copy.packet with
      sink := { (popMedia z s copy.packet).sink with
        droppedPackets := droppedPackets
        corruptFrames := corruptFrames }
      log := { (popMedia z s copy.packet).log with
        dropped := dropped
        corrupt := corrupt } } k next) := by
  have hmember := List.mem_of_getElem? hk
  obtain ⟨_, _, hstream, hhead⟩ := h.polls.copied copy hmember
  obtain ⟨rest, hqueue⟩ := hhead hfresh
  obtain ⟨hrest, hfirst, hcount⟩ := popMedia_queue h.queues hqueue copy.packet
  have hleft : Sink.queue z { (popMedia z s copy.packet).sink with
      droppedPackets := droppedPackets
      corruptFrames := corruptFrames } = rest := hrest
  constructor
  · constructor
    · have hle := h.queues.packetCount
      simp only [A2dpSink.setPoll]
      omega
    · exact h.queues.pcmCount
    · intro p hp
      simp only [A2dpSink.setPoll, hleft] at hp
      apply h.queues.packets
      rw [hqueue]
      exact List.mem_cons_of_mem _ hp
    · exact h.queues.pcm
    · exact h.queues.order
    · exact h.queues.stream
  · apply Polls.set
    · constructor
      · intro other hother
        obtain ⟨hresets, hremovals, hotherStream, _⟩ := h.polls.copied other hother
        refine ⟨hresets, ?_, hotherStream, fun hstale => ?_⟩
        · simp only [A2dpSink.setPoll, popMedia, List.length_append, List.length_singleton]
          omega
        · -- another copy of this head is stale now
          have hsame := hstale.2
          simp only [A2dpSink.setPoll, popMedia, List.length_append, List.length_singleton] at hsame
          omega
      · exact h.polls.decoding
    · exact hcopied
    · intro other parsed offset index status hphase
      rw [hdecoding other parsed offset index status hphase]
      exact hstream
  · constructor
    · intro p hp
      rcases List.mem_append.mp hp with hp | hp
      · exact h.accounts.removed p hp
      · rw [List.mem_singleton.mp hp]
        exact hfirst
    · intro n
      apply Eq.trans _ (h.accounts.once n)
      have hset := inDecoding_set hk next n
      have hmove := hmoved n
      simp only [places, A2dpSink.setPoll, hleft, hqueue]
      have hcopiedNone : (Phase.copied copy).packet.toList.count n = 0 := rfl
      simp only [popMedia, List.map_cons, List.count_cons, List.count_nil] at hmove ⊢
      omega
    · exact hdropped
    · exact hcorrupt

theorem pollTake_holds {s : System} (h : Holds z s) {k : ℕ} {copy : Copy}
    (hk : s.polls[k]? = some (.copied copy))
    (hclean : match verdict z s.sink copy with
      | .full => True
      | _ => copy.Fresh s.log) : Holds z (pollTake z s k copy) := by
  rw [pollTake]
  cases hverdict : verdict z s.sink copy with
  | notReady =>
    rw [hverdict] at hclean
    apply h.take hk hclean
    · intro n
      simp only [Phase.packet, popMedia, Option.toList_none, List.count_nil, List.count_append]
      omega
    · simp only [popMedia, h.accounts.droppedPackets, List.length_append, List.length_singleton]
      rw [Nat.add_right_comm, count_up]
    · exact h.accounts.corruptFrames
    · intro other hother
      cases hother
    · intro other parsed offset index status hother
      cases hother
  | corrupt status =>
    rw [hverdict] at hclean
    apply h.take hk hclean
    · intro n
      simp only [Phase.packet, popMedia, Option.toList_none, List.count_nil, List.count_append]
      omega
    · exact h.accounts.droppedPackets
    · simp only [popMedia, h.accounts.corruptFrames, List.length_append, List.length_singleton]
      rw [count_up]
    · intro other hother
      cases hother
    · intro other parsed offset index status hother
      cases hother
  | full =>
    apply h.setPoll hk
    · rfl
    · intro other hother
      cases hother
    · intro other parsed offset index status hother
      cases hother
  | admitted parsed =>
    rw [hverdict] at hclean
    apply h.take hk hclean
    · intro n
      simp only [Phase.packet, Option.toList_some]
    · exact h.accounts.droppedPackets
    · exact h.accounts.corruptFrames
    · intro other hother
      cases hother
    · intro other parsed offset index status hother
      simp only [Phase.decoding.injEq] at hother
      exact hother.1.symm

/-- A block joins the queue of the stream it belongs to. -/
theorem pcmEvent_holds {s : System} (h : Holds z s) (event : PcmEvent) {packet : ℕ}
    (hstream : s.sink.state = .streaming → s.log.streams[packet]? = some s.log.resets) :
    Holds z (pcmEvent z s event packet) := by
  have hvalid : pcmValid event = true := by
    have hframes := event.frames_valid
    have hchannels := event.channels_valid
    have hrate := event.sampleRateHz_valid
    simp only [pcmValid, Bool.not_eq_true', Bool.or_eq_false_iff, Bool.and_eq_false_iff,
      decide_eq_false_iff_not, not_not]
    omega
  -- the block is decoded, whether or not it is queued
  have hdecoded : ∀ block : PcmBlock,
      Holds z { s with log := { s.log with blocks := s.log.blocks ++ [block] } } := by
    intro block
    constructor
    · constructor
      · exact h.queues.packetCount
      · exact h.queues.pcmCount
      · exact h.queues.packets
      · exact h.queues.pcm
      · exact h.queues.order.trans (List.sublist_append_left _ _)
      · exact h.queues.stream
    · exact { copied := h.polls.copied, decoding := h.polls.decoding }
    · exact { h.accounts with once := h.accounts.once }
  simp only [pcmEvent]
  by_cases hstate : s.sink.state ≠ .streaming
  · rw [if_pos hstate]
    exact hdecoded _
  · rw [if_neg hstate, if_neg (by simp [hvalid])]
    by_cases hfull : s.sink.pcmCount = z.pcmQueueDepth
    · rw [if_pos hfull]
      exact (hdecoded _).sink _ rfl rfl rfl rfl rfl rfl rfl rfl
    · rw [if_neg hfull]
      have hroom : s.sink.pcmCount < z.pcmQueueDepth := by
        have hle := h.queues.pcmCount
        omega
      have hpush := contents_push s.sink.pcm s.sink.pcmHead hroom
        ⟨event.samples, event.frames, event.sampleRateHz, event.channels, packet⟩
      constructor
      · constructor
        · exact h.queues.packetCount
        · exact hroom
        · exact h.queues.packets
        · simp only [Sink.blocks, hpush]
          intro b hb
          rcases List.mem_append.mp hb with hb | hb
          · exact h.queues.pcm b hb
          · rw [List.mem_singleton.mp hb]
            exact hstream (by simpa using hstate)
        · simp only [Sink.blocks, hpush, ← List.append_assoc]
          exact h.queues.order.append (List.Sublist.refl _)
        · exact h.queues.stream
      · exact { copied := h.polls.copied, decoding := h.polls.decoding }
      · exact { h.accounts with once := h.accounts.once }

theorem pcmEvent_polls (s : System) (event : PcmEvent) (packet : ℕ) :
    (pcmEvent z s event packet).polls = s.polls ∧
    (pcmEvent z s event packet).log.streams = s.log.streams := by
  simp only [pcmEvent]
  split
  · exact ⟨rfl, rfl⟩
  · split
    · exact ⟨rfl, rfl⟩
    · split
      · exact ⟨rfl, rfl⟩
      · exact ⟨rfl, rfl⟩

theorem pollDecode_holds {s : System} (h : Holds z s) {k : ℕ} {copy : Copy}
    {parsed : ParsedPacket} {offset index : ℕ} {status : Status}
    (hk : s.polls[k]? = some (.decoding copy parsed offset index status)) (result : Decoded)
    (hclean : match result with
      | .block _ => s.sink.state = .streaming → copy.resets = s.log.resets
      | .refused _ _ => True) :
    Holds z (pollDecode z s k copy parsed offset index result) := by
  have hstream := h.polls.decoding copy parsed offset index status (List.mem_of_getElem? hk)
  -- the next section is of the same packet
  have hnext : ∀ t : System, Holds z t → t.polls = s.polls → t.log.streams = s.log.streams →
      ∀ offset' index' status',
        Holds z (setPoll t k (.decoding copy parsed offset' index' status')) := by
    intro t ht hpolls hstreams offset' index' status'
    rw [← hpolls] at hk
    apply ht.setPoll hk
    · rfl
    · intro other hother
      cases hother
    · intro other parsed' offset'' index'' status'' hother
      simp only [Phase.decoding.injEq] at hother
      rw [hstreams, ← hother.1]
      exact hstream
  rw [pollDecode]
  cases sbcFrameParse (parsed.frames.drop offset) with
  | error status => exact hnext s h rfl rfl _ _ _
  | ok frame =>
    cases result with
    | refused status hbad => exact hnext s h rfl rfl _ _ _
    | block event =>
      obtain ⟨hpolls, hstreams⟩ := pcmEvent_polls (z := z) s event copy.packet.number
      apply hnext _ _ hpolls hstreams
      apply pcmEvent_holds h
      intro hstate
      rw [hstream]
      exact congrArg some (hclean hstate)

theorem pollCount_holds {s : System} (h : Holds z s) {k : ℕ} {copy : Copy}
    {parsed : ParsedPacket} {offset index : ℕ} {status : Status}
    (hk : s.polls[k]? = some (.decoding copy parsed offset index status)) :
    Holds z (pollCount s k copy index status) := by
  rw [pollCount]
  generalize hnext : (if index ≠ 0 ∧ !s.sink.bondSaved then Phase.saving status
    else Phase.done status) = next
  have hpacket : next.packet = none := by
    rw [← hnext]
    split
    · rfl
    · rfl
  have hpolls : Polls (s.polls.set k next) (s.sink.queue z) s.log := by
    apply h.polls.set
    · intro other hother
      rw [← hnext] at hother
      split at hother
      · cases hother
      · cases hother
    · intro other parsed' offset' index' status' hother
      rw [hother] at hpacket
      cases hpacket
  have hset : ∀ n, (inDecoding (s.polls.set k next)).count n + [copy.packet.number].count n =
      (inDecoding s.polls).count n + 0 := by
    intro n
    have hn := inDecoding_set hk next n
    rw [hpacket] at hn
    exact hn
  dsimp only
  split
  · constructor
    · exact { h.queues with order := h.queues.order }
    · exact { copied := hpolls.copied, decoding := hpolls.decoding }
    · constructor
      · exact h.accounts.removed
      · intro n
        apply Eq.trans _ (h.accounts.once n)
        have hn := hset n
        simp only [places, setPoll, Sink.queue, List.count_append]
        omega
      · exact h.accounts.droppedPackets
      · simp only [setPoll, h.accounts.corruptFrames, List.length_append, List.length_singleton]
        rw [count_up]
  · constructor
    · exact { h.queues with order := h.queues.order }
    · exact { copied := hpolls.copied, decoding := hpolls.decoding }
    · constructor
      · exact h.accounts.removed
      · intro n
        apply Eq.trans _ (h.accounts.once n)
        have hn := hset n
        simp only [places, setPoll, List.count_append]
        omega
      · exact h.accounts.droppedPackets
      · exact h.accounts.corruptFrames

theorem pollSave_holds {s : System} (h : Holds z s) {k : ℕ} {status : Status}
    (hk : s.polls[k]? = some (.saving status)) (save : Status) :
    Holds z (pollSave s k status save) := by
  have hdone : ∀ t : System, Holds z t → t.polls = s.polls → ∀ result,
      Holds z (setPoll t k (.done result)) := by
    intro t ht hpolls result
    rw [← hpolls] at hk
    apply ht.setPoll hk
    · rfl
    · intro other hother
      cases hother
    · intro other parsed offset index status' hother
      cases hother
  rw [pollSave]
  split
  · apply hdone
    · exact h.sink _ rfl rfl rfl rfl rfl rfl rfl rfl
    · rfl
  · exact hdone s h rfl _

theorem holds_ite {p : Prop} [Decidable p] {s t : System} (hs : Holds z s) (ht : Holds z t) :
    Holds z (if p then s else t) := by
  split
  · exact hs
  · exact ht

theorem pcmNext_holds {s : System} (h : Holds z s) (sampleCapacity : ℕ) :
    Holds z (pcmNext z s sampleCapacity) := by
  rw [pcmNext]
  split
  · exact h
  · dsimp only
    generalize hk : (if s.sink.prebuffering then
      { s.sink with prebuffering := false, playbackStarted := true } else s.sink) = k
    have hplaying : Holds z { s with sink := k } := by
      rw [← hk]
      split
      · exact h.sink _ rfl rfl rfl rfl rfl rfl rfl rfl
      · exact h
    split
    · split
      · exact hplaying.sink _ rfl rfl rfl rfl rfl rfl rfl rfl
      · exact hplaying
    · rename_i hcount
      apply holds_ite
      · exact hplaying
      · have hpop := contents_pop z.pcmQueueDepth k.pcm k.pcmHead (Nat.pos_of_ne_zero hcount)
        have horder := hplaying.queues.order
        have hpcm := hplaying.queues.pcm
        simp only [Sink.blocks, hpop] at horder hpcm
        constructor
        · constructor
          · exact hplaying.queues.packetCount
          · exact (Nat.sub_le _ _).trans hplaying.queues.pcmCount
          · exact hplaying.queues.packets
          · intro b hb
            exact hpcm b (List.mem_cons_of_mem _ hb)
          · simpa [Sink.blocks] using horder
          · intro p hp
            rcases List.mem_append.mp hp with hp | hp
            · exact hplaying.queues.stream p hp
            · rw [List.mem_singleton.mp hp]
              exact hpcm _ List.mem_cons_self
        · exact { copied := hplaying.polls.copied, decoding := hplaying.polls.decoding }
        · exact { hplaying.accounts with once := hplaying.accounts.once }

theorem backendEvent_holds {s : System} (h : Holds z s) (event : Event) :
    Holds z (backendEvent z s event) := by
  have hreset : ∀ prebuffer state, Holds z (setState (resetQueues z s prebuffer) state) :=
    fun prebuffer state =>
      (resetQueues_holds h prebuffer).sink _ rfl rfl rfl rfl rfl rfl rfl rfl
  cases event with
  | connected => exact h.sink _ rfl rfl rfl rfl rfl rfl rfl rfl
  | format format status => exact h.sink _ rfl rfl rfl rfl rfl rfl rfl rfl
  | started => exact hreset true .streaming
  | suspended => exact hreset false .suspended
  | stopped => exact hreset false .connected
  | disconnected => exact (hreset false .ready).sink _ rfl rfl rfl rfl rfl rfl rfl rfl
  | media data =>
    simp only [backendEvent]
    split
    · exact queueMedia_holds h data
    · constructor
      · exact { h.queues with order := h.queues.order }
      · exact { copied := h.polls.copied, decoding := h.polls.decoding }
      · constructor
        · exact h.accounts.removed
        · exact h.accounts.once
        · simp only [h.accounts.droppedPackets]
          rw [← count_up, Nat.add_assoc]
        · exact h.accounts.corruptFrames
  | error fatal =>
    simp only [backendEvent]
    split
    · exact hreset false .failed
    · exact h

theorem step_holds {s : System} (h : Holds z s) {action : Action} (hclean : Clean z s action) :
    Holds z (step z s action) := by
  cases action with
  | event event => exact backendEvent_holds h event
  | pollCopy => exact pollCopy_holds h
  | pollNext k result save =>
    simp only [step, pollNext]
    simp only [Clean] at hclean
    cases hk : s.polls[k]? with
    | none => exact h
    | some phase =>
      rw [hk] at hclean
      cases phase with
      | copied copy => exact pollTake_holds h hk hclean
      | decoding copy parsed offset index status =>
        dsimp only
        split
        · exact pollDecode_holds h hk result hclean
        · exact pollCount_holds h hk
      | saving status => exact pollSave_holds h hk save
      | done status => exact h
  | pcmNext sampleCapacity => exact pcmNext_holds h sampleCapacity

theorem run_holds {s : System} (h : Holds z s) {actions : List Action}
    (hclean : AllClean z s actions) : Holds z (run z s actions) := by
  induction actions generalizing s with
  | nil => exact h
  | cons action actions ih => exact ih (step_holds h hclean.1) hclean.2

/-- In a run in which every poll removes the packet it copied while that is
still the head, and queues no block of a stream that is over, the queues stay
consistent and belong to one stream. -/
theorem queues_consistent (z : Sizes) (outputMode : OutputMode) (volume : ℕ)
    (actions : List Action) (hclean : AllClean z (start outputMode volume) actions) :
    Consistent z (run z (start outputMode volume) actions) :=
  (run_holds (start_holds outputMode volume) hclean).consistent

def defaultSizes : Sizes where
  packetMaxLen := 1024
  packetQueueDepth := 8
  pcmQueueDepth := 16
  prebufferBlocks := 4
  packetQueueDepth_ge := by decide
  pcmQueueDepth_ge := by decide
  prebufferBlocks_ge := by decide
  prebufferBlocks_lt := by decide
  packetQueueDepth_lt := by decide

def monoFormat : Format := ⟨44100, 1, .mono, 4, 4, 2, 53⟩

def monoPacket : List UInt8 :=
  [0x80, 0x60, 0, 1, 0, 0, 0, 0, 0, 0, 0, 0, 0x01, 0x9c, 0x80, 2, 0, 0, 0, 0]

def copiedRun : List Action :=
  [.event (.format monoFormat .ok), .event .started, .event (.media monoPacket), .pollCopy]

/-- Four frames in one packet, as many as playback waits for. -/
def fourFrames : List UInt8 :=
  monoPacket.take 12 ++ 4 :: (List.replicate 4 (monoPacket.drop 13)).flatten

theorem quietBlock_frames : 0 < 16 ∧ 16 ≤ 128 := by decide

theorem quietBlock_channels : 1 = 1 ∨ 1 = 2 := Or.inl rfl

theorem quietBlock_sampleRate : 44100 = 44100 ∨ 44100 = 48000 := Or.inl rfl

def quietBlock : PcmEvent :=
  ⟨List.replicate 16 0, 16, 44100, 1, quietBlock_frames, quietBlock_channels,
    quietBlock_sampleRate⟩

def playedRun : List Action :=
  ([.event (.format monoFormat .ok), .event .started, .event (.media fourFrames),
    .pollCopy] : List Action) ++
    List.replicate 7 (Action.pollNext 0 (.block quietBlock) .ok) ++ [Action.pcmNext 4096]

/-- The packet is decoded and counted, the bond is saved, and the first block is
returned. -/
theorem queues_consistent_played :
    Consistent defaultSizes (run defaultSizes (start .native 64) playedRun) ∧
    (run defaultSizes (start .native 64) playedRun).log.decoded = [0] ∧
    (run defaultSizes (start .native 64) playedRun).log.returned.length = 1 := by
  have hclean : AllClean defaultSizes (start .native 64) playedRun :=
    ⟨trivial, trivial, trivial, trivial, ⟨rfl, rfl⟩, fun _ => rfl, fun _ => rfl, fun _ => rfl,
      fun _ => rfl, fun _ => rfl, trivial, trivial, trivial⟩
  exact ⟨queues_consistent defaultSizes .native 64 _ hclean, by decide +kernel, by decide +kernel⟩

/-- The stream is suspended between the two sections: the poll removes a packet
from an empty queue and the count wraps. -/
theorem suspended_between : ¬Consistent defaultSizes (run defaultSizes (start .native 64)
    (copiedRun ++ [.event .suspended, .pollNext 0 (.refused .eproto (by decide)) .ok])) := by
  intro h
  have hcount : (run defaultSizes (start .native 64) (copiedRun ++
      [.event .suspended, .pollNext 0 (.refused .eproto (by decide)) .ok])).sink.packetCount =
      2^32-1 := by
    decide +kernel
  have hle := h.packetCount
  rw [hcount] at hle
  exact absurd hle (by decide)

end JaszczurHal.A2dpSink
