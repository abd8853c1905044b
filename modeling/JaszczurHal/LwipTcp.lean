import JaszczurHal.HalStatus
import JaszczurHal.RingQueue
import JaszczurHal.LwipUdp

/-!
# TCP connections over lwIP

A connection is pointed at by the record that owns it, an entry of the accept
queue or a socket of the pool, and points back through the argument of its
callbacks. The environment delivers segments, closes and errors to the record
that the argument names.
-/

set_option autoImplicit false

namespace JaszczurHal.LwipTcp
open HalStatus RingQueue
open LwipUdp (Remote noRemote)

inductive Err where
  | ok
  | mem
  | arg
  | abrt
  | other (code : ℕ)
  deriving DecidableEq

inductive TcpState where
  | closed
  | connecting
  | connected
  | remoteClosed
  | error
  deriving DecidableEq

abbrev Chain : Type := List (List UInt8)

def Chain.bytes (chain : Chain) : List UInt8 := chain.flatten

def pbufCopyPartial : Chain → ℕ → List UInt8
  | [], _ => []
  | part :: rest, n => part.take n ++ pbufCopyPartial rest (n-part.length)

def pbufFreeHeader : Chain → ℕ → Chain
  | [], _ => []
  | part :: rest, n =>
    if n = 0 then part :: rest
    else if part.length ≤ n then pbufFreeHeader rest (n-part.length)
    else part.drop n :: rest

inductive Owner where
  | pending (i : ℕ)
  | socket (j : ℕ)
  deriving DecidableEq

structure TcpSocket where
  pcb : Option ℕ
  receivePacket : Chain
  receiveLength : ℕ
  state : TcpState
  lastError : Err
  /-- The connection that the record was made for; no function reads it. -/
  origin : Option ℕ
  deriving DecidableEq

/-- What lwIP keeps of a connection. Its callbacks are set and cleared together
with their argument. -/
structure Connection where
  alive : Bool
  argument : Option Owner
  /-- A segment that was refused and will be offered again. -/
  refused : Option Chain
  recved : ℕ
  /-- The bytes of the segments that were accepted, and those that reads have
  returned; no function reads them. -/
  accepted : List UInt8
  returned : List UInt8

structure Listener where
  opened : Bool
  listening : Bool
  backlog : ℕ
  pendingHead : ℕ
  pendingCount : ℕ
  remotes : ℕ → Remote

structure Limits where
  rxLimit : ℕ
  queueDepth : ℕ
  positive : 0 < queueDepth

structure Memory where
  cells : Owner → TcpSocket
  connections : ℕ → Connection
  /-- The connections that were closed or aborted, in this order. -/
  ended : List ℕ

structure System where
  listener : Listener
  memory : Memory
  /-- How many connections lwIP has made. -/
  next : ℕ
  /-- The connections that were handed over to a socket, in this order. -/
  taken : List ℕ

def socketInit : TcpSocket := ⟨none, [], 0, .closed, .ok, none⟩

def freshConnection : Connection := ⟨true, none, none, 0, [], []⟩

def setCell (m : Memory) (o : Owner) (s : TcpSocket) : Memory :=
  { m with cells := Function.update m.cells o s }

def setConnection (m : Memory) (p : ℕ) (c : Connection) : Memory :=
  { m with connections := Function.update m.connections p c }

variable (l : Limits)

def receiveCallback (m : Memory) (argument : Option Owner) (packet : Option Chain) (status : Err) :
    Err × Memory :=
  match argument with
  | none => (.arg, m)
  | some o =>
    match packet with
    | none => (.ok, setCell m o { m.cells o with state := .remoteClosed })
    | some packet =>
      if status ≠ .ok then (status, setCell m o { m.cells o with lastError := status, state := .error })
      else if l.rxLimit-(m.cells o).receiveLength < packet.bytes.length then (.mem, m)
      else (.ok, setCell m o { m.cells o with
        receivePacket := (m.cells o).receivePacket ++ packet
        receiveLength := (m.cells o).receiveLength+packet.bytes.length })

def errorCallback (m : Memory) (argument : Option Owner) (status : Err) : Memory :=
  match argument with
  | none => m
  | some o => setCell m o { m.cells o with pcb := none, lastError := status, state := .error }

def configureCallbacks (m : Memory) (o : Owner) : Memory :=
  match (m.cells o).pcb with
  | none => m
  | some p => setConnection m p { m.connections p with argument := some o }

/-- `tcp_arg` and the callbacks set to null, then `tcp_close`, and `tcp_abort`
where that fails, or `tcp_abort` alone: lwIP lets go of the connection. -/
def endConnection (m : Memory) (p : ℕ) : Memory :=
  { setConnection m p { m.connections p with alive := false, argument := none } with
    ended := m.ended ++ [p] }

def socketClose (m : Memory) (o : Owner) : Memory :=
  match (m.cells o).pcb with
  | none => setCell m o socketInit
  | some p => setCell (endConnection m p) o socketInit

def abortPendingConnection (m : Memory) (i : ℕ) : Memory := socketClose m (.pending i)

def connectedCallback (m : Memory) (argument : Option Owner) (status : Err) : Memory :=
  match argument with
  | none => m
  | some o => setCell m o { m.cells o with
      lastError := status, state := if status = .ok then .connected else .error }

def adopt (m : Memory) (o : Owner) (p : ℕ) (state : TcpState) : Memory :=
  configureCallbacks
    (setCell m o { socketInit with pcb := some p, state := state, origin := some p }) o

/-- `jh_lwip_tcp_socket_connect`; `status` is what `tcp_connect` returns. -/
def socketConnect (m : Memory) (o : Owner) (newPcb : Option ℕ) (status : Err) : Memory :=
  match newPcb with
  | none => socketClose m o
  | some p =>
    let m := adopt (setConnection (socketClose m o) p freshConnection) o p .connecting
    if status = .ok then m else socketClose m o

def acceptCallback (s : System) (newPcb : Option ℕ) (status : Err) (isIpv4 : Bool)
    (remote : Remote) : Err × System :=
  match newPcb with
  | none => (if status = .ok then .arg else status, s)
  | some p =>
    if status ≠ .ok ∨ !s.listener.listening ∨ !isIpv4 ∨
        s.listener.backlog ≤ s.listener.pendingCount ∨ l.queueDepth ≤ s.listener.pendingCount then
      (.abrt, { s with memory := endConnection s.memory p })
    else
      let tail := place l.queueDepth s.listener.pendingHead s.listener.pendingCount
      (.ok, { s with
        memory := adopt s.memory (.pending tail) p .connected
        listener := { s.listener with
          remotes := Function.update s.listener.remotes tail remote
          pendingCount := s.listener.pendingCount+1 } })

def socketReceive (m : Memory) (o : Owner) (maxLength : ℕ) : Status × List UInt8 × Memory :=
  let s := m.cells o
  if maxLength = 0 ∨ s.receiveLength = 0 then (.ok, [], m)
  else
    let readLength := min (min maxLength s.receiveLength) 65535
    let copied := pbufCopyPartial s.receivePacket readLength
    if copied.length ≠ readLength then (.eio, [], m)
    else
      let m := setCell m o { s with
        receivePacket := pbufFreeHeader s.receivePacket readLength
        receiveLength := s.receiveLength-readLength }
      match s.pcb with
      | none => (.ok, copied, m)
      | some p =>
        (.ok, copied,
          setConnection m p { m.connections p with recved := (m.connections p).recved+readLength })

def isConnected (s : TcpSocket) : Bool :=
  decide (s.state = .connected) || decide (0 < s.receiveLength)

/-- The hand-over of `jh_lwip_tcp_listener_accept`: the record is copied to the
closed target, the entry is reset and the callbacks get the new argument. -/
def handOver (m : Memory) (i : ℕ) (o : Owner) : Memory :=
  let closed := socketClose m o
  let copied := setCell closed o (closed.cells (.pending i))
  configureCallbacks (setCell copied (.pending i) socketInit) o

def popPending (s : System) : System :=
  { s with listener := { s.listener with
      pendingHead := (s.listener.pendingHead+1) % l.queueDepth
      pendingCount := s.listener.pendingCount-1 } }

def releaseHead (s : System) : System :=
  { popPending l s with memory := abortPendingConnection s.memory s.listener.pendingHead }

def takeHead (s : System) (o : Owner) (p : ℕ) : System :=
  { popPending l s with
    memory := handOver s.memory s.listener.pendingHead o
    taken := s.taken ++ [p] }

def acceptEntries (s : System) (o : Owner) : ℕ → Status × Remote × System
  | 0 => (.eagain, noRemote, s)
  | entries+1 =>
    match (s.memory.cells (.pending s.listener.pendingHead)).pcb with
    | none => acceptEntries (releaseHead l s) o entries
    | some p => (.ok, s.listener.remotes s.listener.pendingHead, takeHead l s o p)

def listenerAccept (s : System) (o : Owner) : Status × Remote × System :=
  if !s.listener.listening || !s.listener.opened then (.estate, noRemote, s)
  else acceptEntries l s o s.listener.pendingCount

def canAccept (s : System) : Bool :=
  s.listener.listening && (List.range s.listener.pendingCount).any fun offset =>
    (s.memory.cells (.pending (place l.queueDepth s.listener.pendingHead offset))).pcb.isSome

def closedListener : Listener := ⟨false, false, 0, 0, 0, fun _ => noRemote⟩

def abortPending (m : Memory) : ℕ → Memory
  | 0 => m
  | n+1 => abortPendingConnection (abortPending m n) n

def listenerClose (s : System) : System :=
  { s with memory := abortPending s.memory l.queueDepth, listener := closedListener }

inductive Event where
  | incoming (status : Err) (isIpv4 : Bool) (remote : Remote)
  | incomingFailed (status : Err)
  | segment (p : ℕ) (packet : Chain) (status : Err)
  | offerAgain (p : ℕ)
  | remoteClose (p : ℕ)
  | error (p : ℕ) (status : Err)
  | connect (j : ℕ) (status : Err)
  | connectFailed (j : ℕ)
  | connected (p : ℕ) (status : Err)
  | accept (j : ℕ)
  | receive (j maxLength : ℕ)
  | close (j : ℕ)
  | closeListener

/-- A segment is offered to a living connection. lwIP keeps a segment that is
refused with `ERR_MEM`, and counts what is accepted. -/
def offer (m : Memory) (p : ℕ) (packet : Chain) (status : Err) : Memory :=
  let answer := receiveCallback l m (m.connections p).argument (some packet) status
  let c := answer.2.connections p
  setConnection answer.2 p
    { c with
      refused := if answer.1 = .mem then some packet else none
      accepted := if answer.1 = .ok then c.accepted ++ packet.bytes else c.accepted }

def noteReturned (m : Memory) (origin : Option ℕ) (bytes : List UInt8) : Memory :=
  match origin with
  | none => m
  | some p => setConnection m p { m.connections p with returned := (m.connections p).returned ++ bytes }

def step (s : System) : Event → System
  | .incoming status isIpv4 remote =>
    (acceptCallback l
      { s with memory := setConnection s.memory s.next freshConnection, next := s.next+1 }
      (some s.next) status isIpv4 remote).2
  | .connect j status =>
    { s with
      memory := socketConnect s.memory (.socket j) (some s.next) status
      next := s.next+1 }
  | .connectFailed j => { s with memory := socketConnect s.memory (.socket j) none .ok }
  | .connected p status =>
    if (s.memory.connections p).alive then
      { s with memory := connectedCallback s.memory (s.memory.connections p).argument status }
    else s
  | .incomingFailed status => (acceptCallback l s none status true noRemote).2
  | .segment p packet status =>
    if (s.memory.connections p).alive ∧ (s.memory.connections p).refused = none then
      { s with memory := offer l s.memory p packet status }
    else s
  | .offerAgain p =>
    match (s.memory.connections p).alive, (s.memory.connections p).refused with
    | true, some packet => { s with memory := offer l s.memory p packet .ok }
    | _, _ => s
  | .remoteClose p =>
    if (s.memory.connections p).alive then
      { s with memory := (receiveCallback l s.memory (s.memory.connections p).argument none .ok).2 }
    else s
  | .error p status =>
    if (s.memory.connections p).alive then
      let m := errorCallback s.memory (s.memory.connections p).argument status
      { s with memory := setConnection m p { m.connections p with alive := false } }
    else s
  | .accept j => (listenerAccept l s (.socket j)).2.2
  | .receive j maxLength =>
    let read := socketReceive s.memory (.socket j) maxLength
    { s with memory := noteReturned read.2.2 (s.memory.cells (.socket j)).origin read.2.1 }
  | .close j => { s with memory := socketClose s.memory (.socket j) }
  | .closeListener => listenerClose l s

def run (s : System) (events : List Event) : System := events.foldl (step l) s

/-- A listener that has just been made to listen, with no connection yet. -/
def initial (backlog : ℕ) : System where
  listener := ⟨true, true, backlog, 0, 0, fun _ => noRemote⟩
  memory := ⟨fun _ => socketInit, fun _ => { freshConnection with alive := false }, []⟩
  next := 0
  taken := []

end JaszczurHal.LwipTcp
