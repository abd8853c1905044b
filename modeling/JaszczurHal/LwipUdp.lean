import JaszczurHal.HalStatus
import JaszczurHal.RingQueue
import Mathlib.Data.List.ReduceOption

/-!
# Received datagrams

The lwIP adapter queues datagrams, keeps the current one with its offset and
remembers the sender of the last one it started. The HAL socket above it keeps
the size that was parsed and a copy of the sender.
-/

set_option autoImplicit false

namespace JaszczurHal.LwipUdp
open HalStatus RingQueue

structure Remote where
  address : UInt32
  port : UInt16
  deriving DecidableEq

def noRemote : Remote := ⟨0, 0⟩

structure Datagram where
  payload : List UInt8
  remote : Remote
  fits : payload.length < 65536
  deriving DecidableEq

structure Limits where
  queueDepth : ℕ
  positive : 0 < queueDepth

variable (l : Limits)

structure LwipSocket where
  bound : Bool
  receiveQueue : ℕ → Option Datagram
  receiveHead : ℕ
  receiveCount : ℕ
  currentReceive : Option Datagram
  currentOffset : ℕ
  lastRemote : Remote

structure UdpSocket where
  udp : LwipSocket
  bound : Bool
  pendingPacketSize : ℕ
  lastRemote : Remote

def receiveCallback (s : LwipSocket) (isIpv4 : Bool) (d : Datagram) : LwipSocket :=
  if !s.bound || !isIpv4 then s
  else if l.queueDepth ≤ s.receiveCount then s
  else
    { s with
      receiveQueue :=
        Function.update s.receiveQueue (place l.queueDepth s.receiveHead s.receiveCount) (some d)
      receiveCount := s.receiveCount+1 }

def remaining (s : LwipSocket) : ℕ :=
  match s.currentReceive with
  | some d => d.payload.length-s.currentOffset
  | none => 0

def startNext (s : LwipSocket) : LwipSocket :=
  { s with
    receiveQueue := Function.update s.receiveQueue s.receiveHead none
    receiveHead := (s.receiveHead+1) % l.queueDepth
    receiveCount := s.receiveCount-1
    currentReceive := s.receiveQueue s.receiveHead
    currentOffset := 0
    lastRemote := ((s.receiveQueue s.receiveHead).map Datagram.remote).getD noRemote }

def lwipParse (s : LwipSocket) : ℕ × LwipSocket :=
  if !s.bound then (0, s)
  else if s.currentReceive.isSome then (remaining s, s)
  else if s.receiveCount = 0 then (0, s)
  else (remaining (startNext l s), startNext l s)

def hasPacket (s : LwipSocket) : Bool :=
  s.bound && (s.currentReceive.isSome || decide (0 < s.receiveCount))

def release (s : LwipSocket) : LwipSocket := { s with currentReceive := none, currentOffset := 0 }

def lwipRead (s : LwipSocket) (maxLength : ℕ) (discardRemainder : Bool) :
    Status × List UInt8 × LwipSocket :=
  if !s.bound then (.estate, [], s)
  else
    match s.currentReceive with
    | none => (.ok, [], s)
    | some d =>
      if maxLength = 0 then (.ok, [], s)
      else
        let bytes := (d.payload.drop s.currentOffset).take maxLength
        let offset := s.currentOffset+bytes.length
        if discardRemainder || decide (d.payload.length ≤ offset) then (.ok, bytes, release s)
        else (.ok, bytes, { s with currentOffset := offset })

def getLastRemote (s : LwipSocket) : Option Remote :=
  if s.lastRemote.port = 0 ∨ s.lastRemote.address = 0 then none else some s.lastRemote

/-- `socket_parse_packet_locked`: the size, unless the lwIP context cannot be
entered, whether there is a packet, and the socket. -/
def socketParsePacketLocked (s : UdpSocket) (context : Bool) : Option ℕ × Bool × UdpSocket :=
  if !s.bound then (some 0, false, s)
  else if 0 < s.pendingPacketSize then (some s.pendingPacketSize, true, s)
  else if !context then (none, false, s)
  else
    let parsed := lwipParse l s.udp
    let packet := hasPacket parsed.2
    let remote := if packet then (getLastRemote parsed.2).getD s.lastRemote else s.lastRemote
    (some parsed.1, packet,
      { s with
        udp := parsed.2
        lastRemote := remote
        pendingPacketSize := if 0 < parsed.1 then parsed.1 else s.pendingPacketSize })

def parsePacketEx (s : UdpSocket) (ready context : Bool) : Status × ℕ × UdpSocket :=
  if !ready then (.euninit, 0, s)
  else if !s.bound then (.euninit, 0, s)
  else
    match socketParsePacketLocked l s context with
    | (none, _, t) => (.eio, 0, t)
    | (some size, _, t) => (.ok, size, t)

def readEx (s : UdpSocket) (ready context : Bool) (maxLength : ℕ) :
    Status × List UInt8 × UdpSocket :=
  if maxLength = 0 then (.ok, [], s)
  else if !ready then (.euninit, [], s)
  else if !s.bound then (.euninit, [], s)
  else if !context then (.eio, [], s)
  else
    match lwipRead s.udp maxLength false with
    | (status, bytes, udp) =>
      let parsed := lwipParse l udp
      (status, bytes, { s with udp := parsed.2, pendingPacketSize := parsed.1 })

/-- One round of `hal_udp_socket_recvfrom_ex`: the status (`HAL_EAGAIN` for a
round without a packet), the remote endpoint if there is a packet, the bytes and
the socket. -/
def recvfromRound (s : UdpSocket) (parseContext readContext : Bool) (maxLength : ℕ) :
    Status × Option Remote × List UInt8 × UdpSocket :=
  if !s.bound then (.estate, none, [], s)
  else
    match socketParsePacketLocked l s parseContext with
    | (none, _, t) => (.eio, none, [], t)
    | (some _, false, t) => (.eagain, none, [], t)
    | (some _, true, t) =>
      if maxLength = 0 then (.ok, some t.lastRemote, [], t)
      else if !readContext then (.eio, some t.lastRemote, [], { t with pendingPacketSize := 0 })
      else
        match lwipRead t.udp maxLength true with
        | (status, bytes, udp) =>
          (status, some t.lastRemote, bytes, { t with udp := udp, pendingPacketSize := 0 })

def queued (s : LwipSocket) : List Datagram :=
  (contents l.queueDepth s.receiveQueue s.receiveHead s.receiveCount).reduceOption

def outstanding (s : LwipSocket) : List Datagram := s.currentReceive.toList ++ queued l s

structure Sound (s : LwipSocket) : Prop where
  bound : s.bound = true
  count : s.receiveCount ≤ l.queueDepth
  head : s.receiveHead < l.queueDepth
  filled : contents l.queueDepth s.receiveQueue s.receiveHead s.receiveCount = (queued l s).map some
  idle : s.currentReceive = none → s.currentOffset = 0
  offset : ∀ d, s.currentReceive = some d →
    s.currentOffset < d.payload.length ∨ s.currentOffset = 0
  last : ∀ d, s.currentReceive = some d → s.lastRemote = d.remote

variable {l}

theorem place_head {s : LwipSocket} (h : Sound l s) :
    place l.queueDepth s.receiveHead 0 = s.receiveHead := Nat.mod_eq_of_lt h.head

theorem queued_length {s : LwipSocket} (h : Sound l s) : (queued l s).length = s.receiveCount := by
  have hlength := congrArg List.length h.filled
  simpa using hlength.symm

theorem reduceOption_map_some {α : Type*} (as : List α) : (as.map some).reduceOption = as := by
  simp [List.reduceOption]

/-- A datagram that is kept is the last one of the queue. -/
theorem receiveCallback_kept {s : LwipSocket} (h : Sound l s) (d : Datagram)
    (hroom : s.receiveCount < l.queueDepth) :
    queued l (receiveCallback l s true d) = queued l s ++ [d] ∧
      Sound l (receiveCallback l s true d) := by
  have hstep : receiveCallback l s true d =
      { s with
        receiveQueue :=
          Function.update s.receiveQueue (place l.queueDepth s.receiveHead s.receiveCount) (some d)
        receiveCount := s.receiveCount+1 } := by
    simp [receiveCallback, h.bound, hroom]
  have hcontents := contents_push s.receiveQueue s.receiveHead hroom (some d)
  have hqueued : queued l (receiveCallback l s true d) = queued l s ++ [d] := by
    simp [queued, hstep, hcontents, List.reduceOption]
  constructor
  · exact hqueued
  · constructor
    · rw [hstep]
      exact h.bound
    · rw [hstep]
      exact hroom
    · rw [hstep]
      exact h.head
    · rw [hqueued, hstep]
      simp [hcontents, h.filled]
    · rw [hstep]
      exact h.idle
    · rw [hstep]
      exact h.offset
    · rw [hstep]
      exact h.last

/-- A datagram is dropped only where the queue is full, or where it is not IPv4. -/
theorem receiveCallback_dropped {s : LwipSocket} (h : Sound l s) (isIpv4 : Bool) (d : Datagram)
    (hfull : isIpv4 = false ∨ l.queueDepth ≤ s.receiveCount) :
    receiveCallback l s isIpv4 d = s := by
  rcases hfull with rfl | hfull
  · simp [receiveCallback]
  · cases isIpv4 with
    | false => simp [receiveCallback]
    | true => simp [receiveCallback, h.bound, hfull]

theorem startNext_head {s : LwipSocket} (h : Sound l s) (hcount : 0 < s.receiveCount) :
    ∃ d, queued l s = d :: queued l (startNext l s) ∧
      (startNext l s).currentReceive = some d ∧ Sound l (startNext l s) := by
  have hpop := contents_pop l.queueDepth s.receiveQueue s.receiveHead hcount
  have hcontents : contents l.queueDepth (startNext l s).receiveQueue (startNext l s).receiveHead
      (startNext l s).receiveCount = contents l.queueDepth s.receiveQueue
        (place l.queueDepth s.receiveHead 1) (s.receiveCount-1) := by
    have hshort : s.receiveCount-1 < l.queueDepth := by
      have := h.count
      omega
    have hreleased := contents_released s.receiveQueue s.receiveHead hshort none
    rwa [place_head h] at hreleased
  have hlength := queued_length h
  cases hqueue : queued l s with
  | nil =>
    rw [hqueue] at hlength
    simp at hlength
    omega
  | cons d rest =>
    have hsplit := h.filled
    rw [hpop, hqueue, List.map_cons, List.cons.injEq, place_head h, ← hcontents] at hsplit
    obtain ⟨hhead, htail⟩ := hsplit
    have hrest : queued l (startNext l s) = rest := by
      rw [queued, htail, reduceOption_map_some]
    refine ⟨d, by rw [hrest], hhead, ?_⟩
    constructor
    · exact h.bound
    · have := h.count
      simp only [startNext]
      omega
    · exact Nat.mod_lt _ l.positive
    · rw [hrest, htail]
    · intro _
      rfl
    · intro _ _
      exact Or.inr rfl
    · intro e he
      have : d = e := Option.some.inj (hhead.symm.trans he)
      simp [startNext, hhead, this]

/-- Parsing makes the oldest datagram current and releases none. -/
theorem lwipParse_outstanding {s : LwipSocket} (h : Sound l s) :
    outstanding l (lwipParse l s).2 = outstanding l s ∧
      (lwipParse l s).2.currentOffset = s.currentOffset ∧
      (lwipParse l s).2.currentReceive = (outstanding l s).head? ∧
      (lwipParse l s).1 = remaining (lwipParse l s).2 ∧ Sound l (lwipParse l s).2 := by
  unfold lwipParse
  simp only [h.bound, Bool.not_true, Bool.false_eq_true, if_false]
  cases hcurrent : s.currentReceive with
  | some d => simp [outstanding, hcurrent, h]
  | none =>
    by_cases hcount : s.receiveCount = 0
    · have hqueue : queued l s = [] := List.length_eq_zero_iff.mp ((queued_length h).trans hcount)
      simp [hcount, outstanding, hcurrent, hqueue, remaining, h]
    · obtain ⟨d, hqueue, hstarted, hsound⟩ := startNext_head h (Nat.pos_of_ne_zero hcount)
      simp only [Option.isSome_none, Bool.false_eq_true, if_false, if_neg hcount]
      have hidle := h.idle hcurrent
      have hzero : (startNext l s).currentOffset = 0 := rfl
      simp [outstanding, hcurrent, hqueue, hstarted, hsound, hidle, hzero]

/-- A socket has a packet exactly when a datagram is outstanding. -/
theorem hasPacket_iff {s : LwipSocket} (h : Sound l s) :
    hasPacket s = true ↔ outstanding l s ≠ [] := by
  have hlength := queued_length h
  cases hcurrent : s.currentReceive with
  | some d => simp [hasPacket, h.bound, hcurrent, outstanding]
  | none =>
    simp only [hasPacket, h.bound, hcurrent, outstanding, Option.isSome_none, Bool.true_and,
      Bool.false_or, decide_eq_true_eq, Option.toList_none, List.nil_append, ← hlength]
    exact List.length_pos_iff

/-- A read of the current datagram ends it or moves its offset. -/
theorem lwipRead_current {s : LwipSocket} (h : Sound l s) {d : Datagram}
    (hcurrent : s.currentReceive = some d) {n : ℕ} (hn : n ≠ 0) (discard : Bool) :
    (lwipRead s n discard).1 = .ok ∧
    (lwipRead s n discard).2.1 = (d.payload.drop s.currentOffset).take n ∧
    (lwipRead s n discard).2.2 =
      if discard || decide (d.payload.length ≤ s.currentOffset+n) then release s
      else { s with currentOffset := s.currentOffset+n } := by
  have hoffset := h.offset d hcurrent
  have hlength : ((d.payload.drop s.currentOffset).take n).length =
      min n (d.payload.length-s.currentOffset) := by simp
  simp only [lwipRead, h.bound, hcurrent, hn, Bool.not_true, Bool.false_eq_true, if_false]
  have hends : d.payload.length ≤
      s.currentOffset+((d.payload.drop s.currentOffset).take n).length ↔
        d.payload.length ≤ s.currentOffset+n := by omega
  simp only [hends]
  split
  · simp
  next hopen =>
    simp only [Bool.or_eq_true, decide_eq_true_eq, not_or] at hopen
    have hmoved : ((d.payload.drop s.currentOffset).take n).length = n := by omega
    simp [hmoved]

theorem release_sound {s : LwipSocket} (h : Sound l s) : Sound l (release s) := by
  constructor
  · exact h.bound
  · exact h.count
  · exact h.head
  · exact h.filled
  · intro _
    rfl
  · intro d hd
    cases hd
  · intro d hd
    cases hd

theorem lwipRead_sound {s : LwipSocket} (h : Sound l s) (n : ℕ) (discard : Bool) :
    Sound l (lwipRead s n discard).2.2 := by
  cases hcurrent : s.currentReceive with
  | none => simp [lwipRead, hcurrent, h.bound, h]
  | some d =>
    by_cases hn : n = 0
    · simp [lwipRead, hcurrent, h.bound, hn, h]
    rw [(lwipRead_current h hcurrent hn discard).2.2]
    split
    · exact release_sound h
    next hopen =>
      simp only [Bool.or_eq_true, decide_eq_true_eq, not_or, not_le] at hopen
      constructor
      · exact h.bound
      · exact h.count
      · exact h.head
      · exact h.filled
      · intro hnone
        exact absurd (hcurrent.symm.trans hnone) (by simp)
      · intro e he
        obtain rfl := Option.some.inj (hcurrent.symm.trans he)
        exact Or.inl hopen.2
      · exact h.last

/-- The packet queue is not touched by a read, so a datagram that arrives
between the parse and the read of a round may as well arrive behind it. -/
theorem lwipRead_queue (s : LwipSocket) (n : ℕ) (discard : Bool) :
    queued l (lwipRead s n discard).2.2 = queued l s := by
  unfold lwipRead
  split
  · rfl
  split
  · rfl
  split
  · rfl
  dsimp only
  split
  · rfl
  · rfl

end JaszczurHal.LwipUdp
