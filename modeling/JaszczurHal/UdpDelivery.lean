import JaszczurHal.LwipUdp

/-!
# Delivery of datagrams

Every read of a run is recorded with the number of its datagram, the offset and
the sender that the HAL socket names. Reads follow the order of arrival in every
run; senders and the progress of a caller that parses before it reads depend on
what has arrived.
-/

set_option autoImplicit false

namespace JaszczurHal.UdpDelivery
open HalStatus RingQueue LwipUdp

/-- A read that met a current datagram: its number among the accepted ones, the
bytes from the offset on, and the sender that the HAL socket names. -/
structure Read where
  datagram : ℕ
  offset : ℕ
  bytes : List UInt8
  reported : Remote
  deriving DecidableEq

/-- What a run has done: the datagrams for which the queue had room, the number
of those that have been released, and the reads. -/
structure Log where
  accepted : List Datagram
  finished : ℕ
  reads : List Read

structure System where
  socket : UdpSocket
  log : Log

/-- A call of one round is one event; a call that waits is several. -/
inductive Event where
  | arrive (isIpv4 : Bool) (d : Datagram)
  | parse (ready context : Bool)
  | read (ready context : Bool) (maxLength : ℕ)
  | recvfrom (parseContext readContext : Bool) (maxLength : ℕ)
  | canRecv (context : Bool)

def observe (g : Log) (u : UdpSocket) (maxLength : ℕ) (discard : Bool) : Log :=
  if u.udp.currentReceive.isNone ∨ maxLength = 0 then g
  else
    let read := lwipRead u.udp maxLength discard
    { g with
      reads := g.reads ++ [⟨g.finished, u.udp.currentOffset, read.2.1, u.lastRemote⟩]
      finished := if read.2.2.currentReceive.isNone then g.finished+1 else g.finished }

variable (l : Limits)

def step (s : System) : Event → System
  | .arrive isIpv4 d =>
    let t := receiveCallback l s.socket.udp isIpv4 d
    ⟨{ s.socket with udp := t },
      { s.log with accepted := if s.socket.udp.receiveCount < t.receiveCount then
          s.log.accepted ++ [d] else s.log.accepted }⟩
  | .parse ready context => { s with socket := (parsePacketEx l s.socket ready context).2.2 }
  | .read ready context maxLength =>
    ⟨(readEx l s.socket ready context maxLength).2.2,
      if s.socket.bound && ready && context then observe s.log s.socket maxLength false else s.log⟩
  | .recvfrom parseContext readContext maxLength =>
    let u := (socketParsePacketLocked l s.socket parseContext).2.2
    let round := recvfromRound l s.socket parseContext readContext maxLength
    ⟨round.2.2.2, if round.1 = .ok then observe s.log u maxLength true else s.log⟩
  | .canRecv context => { s with socket := (socketParsePacketLocked l s.socket context).2.2 }

def run (s : System) (events : List Event) : System := events.foldl (step l) s

def boundSocket : UdpSocket := ⟨⟨true, fun _ => none, 0, 0, none, 0, noRemote⟩, true, 0, noRemote⟩

def initial : System := ⟨boundSocket, ⟨[], 0, []⟩⟩

def parseThenRead (maxLength : ℕ) (s : System) : System :=
  let t := step l s (.parse true true)
  if 0 < (parsePacketEx l s.socket true true).2.1 then step l t (.read true true maxLength) else t

def Drains (maxLength : ℕ) (s : System) : Prop :=
  ∃ rounds, ((parseThenRead l maxLength)^[rounds] s).log.finished = s.log.accepted.length

def Before (a b : Read) : Prop :=
  a.datagram < b.datagram ∨ (a.datagram = b.datagram ∧ a.offset+a.bytes.length ≤ b.offset)

structure Recorded (t : LwipSocket) (g : Log) : Prop where
  finished_le : g.finished ≤ g.accepted.length
  outstanding : outstanding l t = g.accepted.drop g.finished
  before : ∀ r ∈ g.reads, r.datagram < g.finished ∨
    (r.datagram = g.finished ∧ r.offset+r.bytes.length ≤ t.currentOffset)
  slice : ∀ r ∈ g.reads, ∃ d, g.accepted[r.datagram]? = some d ∧
    r.bytes = (d.payload.drop r.offset).take r.bytes.length
  ordered : g.reads.Pairwise Before
  consumed : ∀ i < g.finished, ∃ r ∈ g.reads, r.datagram = i

structure Bound (u : UdpSocket) : Prop where
  udp : Sound l u.udp
  bound : u.bound = true
  pending : u.pendingPacketSize = 0 ∨ u.pendingPacketSize = remaining u.udp

variable {l}

theorem recorded_view {t t' : LwipSocket} {g : Log} (h : Recorded l t g)
    (houtstanding : outstanding l t' = outstanding l t)
    (hoffset : t'.currentOffset = t.currentOffset) : Recorded l t' g := by
  constructor
  · exact h.finished_le
  · rw [houtstanding]
    exact h.outstanding
  · rw [hoffset]
    exact h.before
  · exact h.slice
  · exact h.ordered
  · exact h.consumed

/-- The current datagram is the first one that has not been released. -/
theorem current_accepted {t : LwipSocket} {g : Log} (h : Recorded l t g) {d : Datagram}
    (hcurrent : t.currentReceive = some d) : g.accepted[g.finished]? = some d := by
  have houtstanding := h.outstanding
  rw [LwipUdp.outstanding, hcurrent, Option.toList_some, List.singleton_append] at houtstanding
  have hhead := congrArg List.head? houtstanding
  rw [List.head?_drop] at hhead
  exact hhead.symm

theorem recorded_accept {t t' : LwipSocket} {g : Log} (h : Recorded l t g) (d : Datagram)
    (hqueued : queued l t' = queued l t ++ [d]) (hcurrent : t'.currentReceive = t.currentReceive)
    (hoffset : t'.currentOffset = t.currentOffset) :
    Recorded l t' { g with accepted := g.accepted ++ [d] } := by
  have hle := h.finished_le
  constructor
  · simp only [List.length_append]
    omega
  · rw [List.drop_append_of_le_length hle, ← h.outstanding]
    simp [LwipUdp.outstanding, hqueued, hcurrent]
  · rw [hoffset]
    exact h.before
  · intro r hr
    obtain ⟨e, he, hbytes⟩ := h.slice r hr
    have hlt := (List.getElem?_eq_some_iff.mp he).1
    exact ⟨e, by rw [List.getElem?_append_left hlt, he], hbytes⟩
  · exact h.ordered
  · exact h.consumed

/-- A recorded read follows all earlier ones, and the datagram it ends is the
next released one. -/
theorem recorded_observe {u : UdpSocket} {g : Log} (hsound : Sound l u.udp)
    (h : Recorded l u.udp g) (n : ℕ) (discard : Bool) :
    Recorded l (lwipRead u.udp n discard).2.2 (observe g u n discard) := by
  cases hcurrent : u.udp.currentReceive with
  | none => simpa [observe, lwipRead, hcurrent, hsound.bound] using h
  | some d =>
    by_cases hn : n = 0
    · simpa [observe, lwipRead, hcurrent, hsound.bound, hn] using h
    obtain ⟨-, hbytes, hsocket⟩ := lwipRead_current hsound hcurrent hn discard
    have haccepted := current_accepted h hcurrent
    have hlt : g.finished < g.accepted.length := (List.getElem?_eq_some_iff.mp haccepted).1
    have hqueue := lwipRead_queue (l := l) u.udp n discard
    have hslice : ∀ r ∈ g.reads ++ [⟨g.finished, u.udp.currentOffset,
        (lwipRead u.udp n discard).2.1, u.lastRemote⟩], ∃ d, g.accepted[r.datagram]? = some d ∧
          r.bytes = (d.payload.drop r.offset).take r.bytes.length := by
      intro r hr
      rcases List.mem_append.mp hr with hr | hr
      · exact h.slice r hr
      · obtain rfl := List.mem_singleton.mp hr
        refine ⟨d, haccepted, ?_⟩
        rw [hbytes]
        simp
    have hordered : (g.reads ++ [(⟨g.finished, u.udp.currentOffset,
        (lwipRead u.udp n discard).2.1, u.lastRemote⟩ : Read)]).Pairwise Before := by
      rw [List.pairwise_append]
      refine ⟨h.ordered, List.pairwise_singleton _ _, ?_⟩
      intro a ha b hb
      obtain rfl := List.mem_singleton.mp hb
      exact h.before a ha
    simp only [observe, hcurrent, hn, Option.isNone_some, Bool.false_eq_true, or_self, if_false]
    by_cases hends : (discard || decide (d.payload.length ≤ u.udp.currentOffset+n)) = true
    · rw [if_pos hends] at hsocket
      have hnone : (lwipRead u.udp n discard).2.2.currentReceive = none := by rw [hsocket]; rfl
      simp only [hnone, Option.isNone_none, if_true]
      constructor
      · exact hlt
      · have houtstanding := h.outstanding
        rw [LwipUdp.outstanding, hcurrent] at houtstanding
        have htail := congrArg List.tail houtstanding
        rw [List.tail_drop] at htail
        simpa [LwipUdp.outstanding, hnone, hqueue] using htail
      · intro r hr
        left
        rcases List.mem_append.mp hr with hr | hr
        · rcases h.before r hr with hr | hr
          · exact Nat.lt_succ_of_lt hr
          · exact Nat.lt_succ_of_le hr.1.le
        · obtain rfl := List.mem_singleton.mp hr
          exact Nat.lt_succ_self _
      · exact hslice
      · exact hordered
      · intro i hi
        rcases Nat.lt_succ_iff_lt_or_eq.mp hi with hi | rfl
        · obtain ⟨r, hr, hdatagram⟩ := h.consumed i hi
          exact ⟨r, List.mem_append_left _ hr, hdatagram⟩
        · exact ⟨_, List.mem_append_right _ (List.mem_singleton_self _), rfl⟩
    · rw [if_neg hends] at hsocket
      have hsome : (lwipRead u.udp n discard).2.2.currentReceive = some d := by
        rw [hsocket]
        exact hcurrent
      have hoffset : (lwipRead u.udp n discard).2.2.currentOffset = u.udp.currentOffset+n := by
        rw [hsocket]
      simp only [hsome, Option.isNone_some, Bool.false_eq_true, if_false]
      constructor
      · exact h.finished_le
      · rw [← h.outstanding]
        simp [LwipUdp.outstanding, hsome, hcurrent, hqueue]
      · intro r hr
        rw [hoffset]
        rcases List.mem_append.mp hr with hr | hr
        · rcases h.before r hr with hr | ⟨hr, hle⟩
          · exact Or.inl hr
          · exact Or.inr ⟨hr, by omega⟩
        · obtain rfl := List.mem_singleton.mp hr
          right
          refine ⟨rfl, ?_⟩
          rw [hbytes]
          simp only [List.length_take]
          omega
      · exact hslice
      · exact hordered
      · intro i hi
        obtain ⟨r, hr, hdatagram⟩ := h.consumed i hi
        exact ⟨r, List.mem_append_left _ hr, hdatagram⟩

theorem remaining_current {t : LwipSocket} (h : 0 < remaining t) : t.currentReceive ≠ none := by
  intro hnone
  simp [remaining, hnone] at h

theorem head_of_current {t : LwipSocket} {d : Datagram} (h : t.currentReceive = some d) :
    (outstanding l t).head? = some d := by simp [outstanding, h]

/-- Parsing releases nothing, and what it answers is about the oldest datagram
that is outstanding. -/
theorem socketParse_keeps {u : UdpSocket} (h : Bound l u) (context : Bool) :
    outstanding l (socketParsePacketLocked l u context).2.2.udp = outstanding l u.udp ∧
    (socketParsePacketLocked l u context).2.2.udp.currentOffset = u.udp.currentOffset ∧
    Bound l (socketParsePacketLocked l u context).2.2 := by
  unfold socketParsePacketLocked
  simp only [h.bound, Bool.not_true, Bool.false_eq_true, if_false]
  split
  · exact ⟨rfl, rfl, h⟩
  split
  · exact ⟨rfl, rfl, h⟩
  next hpending =>
    obtain ⟨houtstanding, hoffset, -, hsize, hsound⟩ := lwipParse_outstanding h.udp
    refine ⟨houtstanding, hoffset, ?_⟩
    constructor
    · exact hsound
    · rfl
    · dsimp only
      split
      · exact Or.inr hsize
      · exact Or.inl (by omega)

theorem socketParse_answer {u : UdpSocket} (h : Bound l u) :
    ∃ size packet, (socketParsePacketLocked l u true).1 = some size ∧
      (socketParsePacketLocked l u true).2.1 = packet ∧
      size = remaining (socketParsePacketLocked l u true).2.2.udp ∧
      (socketParsePacketLocked l u true).2.2.udp.currentReceive = (outstanding l u.udp).head? := by
  unfold socketParsePacketLocked
  simp only [h.bound, Bool.not_true, Bool.false_eq_true, if_false]
  split
  next hpending =>
    have hsize := h.pending.resolve_left hpending.ne'
    obtain ⟨d, hd⟩ := Option.ne_none_iff_exists'.mp (remaining_current (hsize ▸ hpending))
    exact ⟨_, _, rfl, rfl, hsize, by rw [head_of_current hd]; exact hd⟩
  next =>
    obtain ⟨-, -, hcurrent, hsize, -⟩ := lwipParse_outstanding h.udp
    exact ⟨_, _, rfl, rfl, hsize, hcurrent⟩

theorem readEx_socket {u : UdpSocket} (h : Bound l u) {n : ℕ} (hn : n ≠ 0) :
    (readEx l u true true n).2.2 =
      { u with
        udp := (lwipParse l (lwipRead u.udp n false).2.2).2
        pendingPacketSize := (lwipParse l (lwipRead u.udp n false).2.2).1 } := by
  simp [readEx, hn, h.bound]

theorem readEx_refused {u : UdpSocket} (ready context : Bool) (n : ℕ)
    (h : n = 0 ∨ ready = false ∨ context = false) :
    (readEx l u ready context n).2.2 = u := by
  unfold readEx
  split
  · rfl
  split
  · rfl
  split
  · rfl
  split
  · rfl
  next hn hready hbound hcontext =>
    exfalso
    rcases h with h | h | h
    · exact hn h
    · simp [h] at hready
    · simp [h] at hcontext

structure Valid (l : Limits) (s : System) : Prop where
  bound : Bound l s.socket
  recorded : Recorded l s.socket.udp s.log

theorem observe_zero (g : Log) (u : UdpSocket) (discard : Bool) : observe g u 0 discard = g := by
  simp [observe]

theorem read_valid {s : System} (h : Valid l s) (ready context : Bool) (n : ℕ) :
    Valid l (step l s (.read ready context n)) := by
  by_cases hrefused : n = 0 ∨ ready = false ∨ context = false
  · have hsocket := readEx_refused (l := l) (u := s.socket) ready context n hrefused
    have hlog : (if s.socket.bound && ready && context then observe s.log s.socket n false
        else s.log) = s.log := by
      rcases hrefused with rfl | rfl | rfl
      · simp [observe_zero]
      · simp
      · simp
    simp only [step, hsocket, hlog]
    exact h
  · simp only [not_or, Bool.not_eq_false] at hrefused
    obtain ⟨hn, rfl, rfl⟩ := hrefused
    have hsound := lwipRead_sound h.bound.udp n false
    obtain ⟨houtstanding, hoffset, -, hsize, hparsed⟩ := lwipParse_outstanding hsound
    have hrecorded := recorded_view (recorded_observe h.bound.udp h.recorded n false) houtstanding
      hoffset
    have hsocket := readEx_socket h.bound hn
    have hlog : (if s.socket.bound && true && true then observe s.log s.socket n false
        else s.log) = observe s.log s.socket n false := by simp [h.bound.bound]
    simp only [step, hsocket, hlog]
    constructor
    · constructor
      · exact hparsed
      · exact h.bound.bound
      · exact Or.inr hsize
    · exact hrecorded

theorem round_valid {s : System} (h : Valid l s) (parseContext readContext : Bool) (n : ℕ) :
    Valid l (step l s (.recvfrom parseContext readContext n)) := by
  obtain ⟨houtstanding, hoffset, hbound⟩ := socketParse_keeps h.bound parseContext
  have hrecorded := recorded_view h.recorded houtstanding hoffset
  have hobserved := recorded_observe hbound.udp hrecorded n true
  have hread := lwipRead_sound hbound.udp n true
  -- every way out of the round keeps the parsed socket, apart from the read
  have hquiet : ∀ t : UdpSocket, t.udp = (socketParsePacketLocked l s.socket parseContext).2.2.udp →
      t.bound = true → (t.pendingPacketSize = 0 ∨ t.pendingPacketSize = remaining t.udp) →
      Valid l ⟨t, s.log⟩ := by
    intro t ht hb hp
    constructor
    · exact ⟨ht ▸ hbound.udp, hb, hp⟩
    · rw [ht]
      exact hrecorded
  simp only [step]
  generalize hparse : socketParsePacketLocked l s.socket parseContext = parsed at *
  obtain ⟨size, packet, t⟩ := parsed
  simp only [recvfromRound, h.bound.bound, hparse, Bool.not_true, Bool.false_eq_true, if_false]
  cases size with
  | none => exact hquiet t rfl hbound.bound hbound.pending
  | some size =>
    cases packet with
    | false => exact hquiet t rfl hbound.bound hbound.pending
    | true =>
      dsimp only
      by_cases hn : n = 0
      · simp only [hn, if_true, observe_zero]
        exact hquiet t rfl hbound.bound hbound.pending
      · cases readContext with
        | false =>
          simp only [hn, if_false, Bool.not_false, if_true]
          exact hquiet _ rfl hbound.bound (Or.inl rfl)
        | true =>
          simp only [hn, if_false, Bool.not_true, Bool.false_eq_true]
          have hok : (lwipRead t.udp n true).1 = .ok := by
            have hlive : t.udp.bound = true := hbound.udp.bound
            cases hcurrent : t.udp.currentReceive with
            | none => simp [lwipRead, hcurrent, hlive]
            | some d => exact (lwipRead_current hbound.udp hcurrent hn true).1
          simp only [hok, if_true]
          constructor
          · exact ⟨hread, hbound.bound, Or.inl rfl⟩
          · exact hobserved

theorem arrive_valid {s : System} (h : Valid l s) (isIpv4 : Bool) (d : Datagram) :
    Valid l (step l s (.arrive isIpv4 d)) := by
  by_cases hroom : isIpv4 = true ∧ s.socket.udp.receiveCount < l.queueDepth
  · obtain ⟨rfl, hroom⟩ := hroom
    obtain ⟨hqueued, hsound⟩ := receiveCallback_kept h.bound.udp d hroom
    have hcount : s.socket.udp.receiveCount <
        (receiveCallback l s.socket.udp true d).receiveCount := by
      rw [← queued_length hsound, hqueued, ← queued_length h.bound.udp]
      simp
    have hrest : (receiveCallback l s.socket.udp true d).currentReceive =
          s.socket.udp.currentReceive ∧
        (receiveCallback l s.socket.udp true d).currentOffset = s.socket.udp.currentOffset := by
      unfold receiveCallback
      split
      · simp
      · split <;> simp
    constructor
    · constructor
      · exact hsound
      · exact h.bound.bound
      · have hpending := h.bound.pending
        simpa [step, remaining, hrest] using hpending
    · simp only [step, if_pos hcount]
      exact recorded_accept h.recorded d hqueued hrest.1 hrest.2
  · have hdropped := receiveCallback_dropped h.bound.udp isIpv4 d (by
      simp only [not_and_or, Bool.not_eq_true, not_lt] at hroom
      exact hroom)
    simp only [step, hdropped, lt_irrefl, if_false]
    exact h

theorem parse_socket (u : UdpSocket) (ready context : Bool) :
    (parsePacketEx l u ready context).2.2 = u ∨ (ready = true ∧
      (parsePacketEx l u ready context).2.2 = (socketParsePacketLocked l u context).2.2) := by
  unfold parsePacketEx
  split
  · exact Or.inl rfl
  next hready =>
    split
    · exact Or.inl rfl
    · right
      constructor
      · simpa using hready
      · split
        next heq => rw [heq]
        next heq => rw [heq]

theorem step_valid {s : System} (h : Valid l s) (e : Event) : Valid l (step l s e) := by
  have hparse : ∀ context, Valid l { s with
      socket := (socketParsePacketLocked l s.socket context).2.2 } := by
    intro context
    obtain ⟨houtstanding, hoffset, hbound⟩ := socketParse_keeps h.bound context
    exact ⟨hbound, recorded_view h.recorded houtstanding hoffset⟩
  cases e with
  | arrive isIpv4 d => exact arrive_valid h isIpv4 d
  | parse ready context =>
    simp only [step]
    rcases parse_socket (l := l) s.socket ready context with heq | ⟨-, heq⟩
    · rw [heq]
      exact h
    · rw [heq]
      exact hparse context
  | read ready context n => exact read_valid h ready context n
  | recvfrom parseContext readContext n => exact round_valid h parseContext readContext n
  | canRecv context => exact hparse context

theorem initial_valid : Valid l initial := by
  constructor
  · constructor
    · constructor
      · rfl
      · exact Nat.zero_le _
      · exact l.positive
      · rfl
      · intro _
        rfl
      · intro d hd
        cases hd
      · intro d hd
        cases hd
    · rfl
    · exact Or.inl rfl
  · constructor
    · exact Nat.le_refl 0
    · rfl
    · intro r hr
      cases hr
    · intro r hr
      cases hr
    · exact List.Pairwise.nil
    · intro i hi
      exact absurd hi (Nat.not_lt_zero i)

theorem run_valid {s : System} (h : Valid l s) (events : List Event) : Valid l (run l s events) := by
  induction events generalizing s with
  | nil => exact h
  | cons e events ih => exact ih (step_valid h e)

end JaszczurHal.UdpDelivery
