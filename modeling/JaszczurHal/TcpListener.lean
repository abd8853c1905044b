import JaszczurHal.LwipTcpRuns

/-!
# The TCP listener

An accept call looks for a living entry before it takes a socket from the pool
and lets the adapter release the dead entries, so a queue of dead entries only
is left as it is.
-/

set_option autoImplicit false

namespace JaszczurHal.TcpListener
open HalStatus RingQueue LwipTcp
open LwipUdp (Remote noRemote)

structure Pool where
  system : System
  inUse : ℕ → Bool
  listenerInUse : Bool
  listening : Bool

variable (l : Limits) (maxSockets : ℕ)

def allocateSocket (h : Pool) : Option (ℕ × Pool) :=
  ((List.range maxSockets).find? fun j => !h.inUse j).map fun j =>
    (j, { h with
      system := { h.system with memory := setCell h.system.memory (.socket j) socketInit }
      inUse := Function.update h.inUse j true })

/-- A round of `hal_tcp_listener_accept_ex`; `context` is what the entry of the
lwIP context returns. -/
def acceptRound (h : Pool) (context : Status) : Status × Pool :=
  if !h.listenerInUse then (.einval, h)
  else if !h.listening then (.estate, h)
  else if context ≠ .ok then (context, h)
  else if !canAccept l h.system then (.eagain, h)
  else
    match allocateSocket maxSockets h with
    | none => (.enomem, h)
    | some (j, g) =>
      match listenerAccept l g.system (.socket j) with
      | (.ok, _, s) => (.ok, { g with system := s })
      | (status, _, s) =>
        (status, { g with
          system := { s with memory := setCell s.memory (.socket j) socketInit }
          inUse := Function.update g.inUse j false })

def closeSocket (h : Pool) (j : ℕ) (context : Status) : Pool :=
  if h.inUse j then
    let m := if context = .ok then socketClose h.system.memory (.socket j) else h.system.memory
    { h with
      system := { h.system with memory := setCell m (.socket j) socketInit }
      inUse := Function.update h.inUse j false }
  else h

def listenerInit (s : System) : System :=
  { s with
    listener := closedListener
    memory := { s.memory with cells := fun o =>
      match o with
      | .pending _ => socketInit
      | .socket j => s.memory.cells (.socket j) } }

def closeListener (h : Pool) (context : Status) : Pool :=
  if h.listenerInUse then
    let s := if context = .ok then listenerClose l h.system else h.system
    { h with system := listenerInit s, listenerInUse := false, listening := false }
  else h

inductive HalEvent where
  | incoming (status : Err) (isIpv4 : Bool) (remote : Remote)
  | segment (p : ℕ) (packet : Chain) (status : Err)
  | offerAgain (p : ℕ)
  | remoteClose (p : ℕ)
  | error (p : ℕ) (status : Err)
  | openSocket
  | accept (context : Status)
  | receive (j maxLength : ℕ) (context : Status)
  | closeSocket (j : ℕ) (context : Status)
  | closeListener (context : Status)

def deliver (h : Pool) (e : Event) : Pool := { h with system := LwipTcp.step l h.system e }

def step (h : Pool) : HalEvent → Pool
  | .incoming status isIpv4 remote => deliver l h (.incoming status isIpv4 remote)
  | .segment p packet status => deliver l h (.segment p packet status)
  | .offerAgain p => deliver l h (.offerAgain p)
  | .remoteClose p => deliver l h (.remoteClose p)
  | .error p status => deliver l h (.error p status)
  | .openSocket => ((allocateSocket maxSockets h).map Prod.snd).getD h
  | .accept context => (acceptRound l maxSockets h context).2
  | .receive j maxLength context =>
    if h.inUse j ∧ context = .ok then deliver l h (.receive j maxLength) else h
  | .closeSocket j context => closeSocket h j context
  | .closeListener context => closeListener l h context

def run (h : Pool) (events : List HalEvent) : Pool := events.foldl (step l maxSockets) h

/-- A listener behind `hal_tcp_listener_listen_ex`, with the backlog capped. -/
def listeningPool (backlog : ℕ) : Pool :=
  ⟨initial (min backlog l.queueDepth), fun _ => false, true, true⟩

/-- An accept call that can hand over a connection: the listener listens, the
lwIP context is entered and a slot is free. -/
def Attempts (h : Pool) (context : Status) : Prop :=
  h.listenerInUse = true ∧ h.listening = true ∧ context = .ok ∧ ∃ j < maxSockets, h.inUse j = false

/-- The steps outside the defects: no accept attempt meets a queue of dead
entries only, and no record with a connection is reset without the context. -/
def Clean (h : Pool) : HalEvent → Prop
  | .accept context => Attempts maxSockets h context →
    h.system.listener.pendingCount = 0 ∨ canAccept l h.system = true
  | .closeSocket j context => context = .ok ∨ (h.system.memory.cells (.socket j)).pcb = none
  | .closeListener context => h.listenerInUse = true →
    context = .ok ∨ ∀ i, (h.system.memory.cells (.pending i)).pcb = none
  | _ => True

def AllClean : Pool → List HalEvent → Prop
  | _, [] => True
  | h, e :: events => Clean l maxSockets h e ∧ AllClean (step l maxSockets h e) events

/-- A state of the pool: a slot that is not in use is blank, and the queue of a
listener that listens stays within its backlog. -/
structure Ready (h : Pool) : Prop where
  valid : Valid l h.system
  free : ∀ j, h.inUse j = false → h.system.memory.cells (.socket j) = socketInit
  listening : h.listening = true → h.system.listener.listening = true ∧
    h.system.listener.opened = true ∧ 0 < h.system.listener.backlog ∧
    h.system.listener.backlog ≤ l.queueDepth
  count : h.system.listener.pendingCount ≤ h.system.listener.backlog

/-- What an accept attempt leaves behind: the dead entries ahead of the first
living one are gone and that one is handed over, and the next connection gets a
place in the queue. -/
structure Served (s t : Pool) : Prop where
  released : ∃ dead : List ℕ, (∀ q ∈ dead, (s.system.memory.connections q).alive = false) ∧
    ((∃ p j, (s.system.memory.connections p).alive = true ∧
        waiting l s.system = dead.map some ++ some p :: waiting l t.system ∧
        t.system.taken = s.system.taken ++ [p] ∧
        (t.system.memory.cells (.socket j)).pcb = some p) ∨
      (waiting l s.system = dead.map some ∧ waiting l t.system = [] ∧
        t.system.taken = s.system.taken))
  room : ∀ remote, waiting l (step l maxSockets t (.incoming .ok true remote)).system =
    waiting l t.system ++ [some t.system.next]

/-- Every living connection has one owner, and lwIP was told once at most to
close or abort a connection. -/
structure Kept (h : Pool) : Prop where
  owner : ∀ p, (h.system.memory.connections p).alive = true →
    ∃! o, (h.system.memory.cells o).pcb = some p
  ordered : h.system.taken.Pairwise (· < ·)
  endedOnce : h.system.memory.ended.Nodup
  endedDead : ∀ p ∈ h.system.memory.ended, (h.system.memory.connections p).alive = false

variable {l maxSockets}

theorem kept_of_valid {h : Pool} (hvalid : Valid l h.system) : Kept h := by
  constructor
  · intro p halive
    obtain ⟨o, ho⟩ := hvalid.owned.held p halive
    refine ⟨o, ho, ?_⟩
    intro o' ho'
    exact hvalid.owned.single o' o p (hvalid.owned.pointed o' p ho').2.2
      (hvalid.owned.pointed o p ho).2.2
  · obtain ⟨ids, -, hsorted, -⟩ := hvalid.queued.order
    exact hsorted.sublist (List.sublist_append_left _ _)
  · exact hvalid.owned.endedOnce
  · intro p hp
    exact (hvalid.owned.endedDead p hp).1

theorem setCell_blank {m : Memory} {o : Owner} (h : m.cells o = socketInit) :
    setCell m o socketInit = m := by
  simp [setCell, ← h]

/-- An allocation takes a slot whose record is blank. -/
theorem allocateSocket_some {h g : Pool} {j : ℕ} (hready : Ready l h)
    (hslot : allocateSocket maxSockets h = some (j, g)) :
    h.inUse j = false ∧ g = { h with inUse := Function.update h.inUse j true } := by
  unfold allocateSocket at hslot
  obtain ⟨i, hfind, hpair⟩ := Option.map_eq_some_iff.mp hslot
  simp only [Prod.mk.injEq] at hpair
  obtain ⟨rfl, rfl⟩ := hpair
  have hfree : h.inUse i = false := by simpa using List.find?_some hfind
  refine ⟨hfree, ?_⟩
  rw [setCell_blank (hready.free i hfree)]

theorem allocateSocket_none {h : Pool} (hslot : allocateSocket maxSockets h = none) :
    ∀ j < maxSockets, h.inUse j = true := by
  intro j hj
  unfold allocateSocket at hslot
  rw [Option.map_eq_none_iff, List.find?_eq_none] at hslot
  simpa using hslot j (List.mem_range.mpr hj)

/-- Records that the adapter leaves blank, and a queue within its backlog. -/
theorem deliver_ready {h : Pool} (hready : Ready l h) (e : Event)
    (hblank : ∀ j, h.inUse j = false → (LwipTcp.step l h.system e).memory.cells (.socket j) =
      h.system.memory.cells (.socket j))
    (hlistener : (LwipTcp.step l h.system e).listener.listening = h.system.listener.listening ∧
      (LwipTcp.step l h.system e).listener.opened = h.system.listener.opened ∧
      (LwipTcp.step l h.system e).listener.backlog = h.system.listener.backlog)
    (hcount : (LwipTcp.step l h.system e).listener.pendingCount ≤ h.system.listener.backlog) :
    Ready l (deliver l h e) := by
  constructor
  · exact step_valid hready.valid e
  · intro j hj
    exact (hblank j hj).trans (hready.free j hj)
  · intro hlistening
    simp only [deliver, hlistener]
    exact hready.listening hlistening
  · simp only [deliver, hlistener]
    exact hcount

theorem incoming_ready {h : Pool} (hready : Ready l h) (status : Err) (isIpv4 : Bool)
    (remote : Remote) : Ready l (deliver l h (.incoming status isIpv4 remote)) := by
  by_cases hopen : Queues l h.system status isIpv4
  · apply deliver_ready hready
    · intro j _
      rw [incoming_queued hopen]
      simp only
      rw [adopt_other _ _ _ (by simp)]
      rfl
    · rw [incoming_queued hopen]
      exact ⟨rfl, rfl, rfl⟩
    · rw [incoming_queued hopen]
      exact hopen.2.2.2.1
  · apply deliver_ready hready
    · intro j _
      rw [incoming_refused hopen]
      rfl
    · rw [incoming_refused hopen]
      exact ⟨rfl, rfl, rfl⟩
    · rw [incoming_refused hopen]
      exact hready.count

/-- A living connection is never owned by a blank record. -/
theorem blank_other {s : System} {o o' : Owner} {p : ℕ}
    (hpcb : (s.memory.cells o).pcb = some p) (hblank : s.memory.cells o' = socketInit) : o' ≠ o := by
  rintro rfl
  rw [hblank] at hpcb
  cases hpcb

theorem idle_ready {h : Pool} (hready : Ready l h) {e : Event}
    (he : LwipTcp.step l h.system e = h.system) : Ready l (deliver l h e) := by
  rw [deliver, he]
  exact hready

/-- The record of a living connection is the only one that changes. -/
theorem marked_ready {h : Pool} (hready : Ready l h) {e : Event} {p : ℕ} {o : Owner}
    (hpcb : (h.system.memory.cells o).pcb = some p)
    (hcells : ∀ o', o' ≠ o → (LwipTcp.step l h.system e).memory.cells o' = h.system.memory.cells o')
    (hlistener : (LwipTcp.step l h.system e).listener = h.system.listener) :
    Ready l (deliver l h e) := by
  apply deliver_ready hready
  · intro j hj
    exact hcells _ (blank_other hpcb (hready.free j hj))
  · rw [hlistener]
    exact ⟨rfl, rfl, rfl⟩
  · rw [hlistener]
    exact hready.count

theorem offer_ready {h : Pool} (hready : Ready l h) {e : Event} {p : ℕ}
    (halive : (h.system.memory.connections p).alive = true) (packet : Chain) (status : Err)
    (he : LwipTcp.step l h.system e =
      { h.system with memory := offer l h.system.memory p packet status }) :
    Ready l (deliver l h e) := by
  obtain ⟨o, hargument, hpcb, -⟩ := record_of_alive hready.valid halive
  apply marked_ready hready hpcb
  · intro o' hne
    rw [he]
    simp only [offer, hargument, receiveCallback, setConnection_cells]
    split
    · exact setCell_other _ _ hne
    · split
      · rfl
      · exact setCell_other _ _ hne
  · rw [he]

theorem segment_ready {h : Pool} (hready : Ready l h) (p : ℕ) (packet : Chain) (status : Err) :
    Ready l (deliver l h (.segment p packet status)) := by
  by_cases hopen : (h.system.memory.connections p).alive = true ∧
      (h.system.memory.connections p).refused = none
  · apply offer_ready hready hopen.1 packet status
    simp only [LwipTcp.step, if_pos hopen]
  · apply idle_ready hready
    simp only [LwipTcp.step, if_neg hopen]

theorem offerAgain_ready {h : Pool} (hready : Ready l h) (p : ℕ) :
    Ready l (deliver l h (.offerAgain p)) := by
  cases halive : (h.system.memory.connections p).alive with
  | false =>
    apply idle_ready hready
    simp only [LwipTcp.step, halive]
  | true =>
    cases hrefused : (h.system.memory.connections p).refused with
    | none =>
      apply idle_ready hready
      simp only [LwipTcp.step, halive, hrefused]
    | some packet =>
      apply offer_ready hready halive packet .ok
      simp only [LwipTcp.step, halive, hrefused]

theorem remoteClose_ready {h : Pool} (hready : Ready l h) (p : ℕ) :
    Ready l (deliver l h (.remoteClose p)) := by
  by_cases halive : (h.system.memory.connections p).alive = true
  · obtain ⟨o, hargument, hpcb, -⟩ := record_of_alive hready.valid halive
    apply marked_ready hready hpcb
    · intro o' hne
      simp only [LwipTcp.step, if_pos halive, hargument, receiveCallback]
      exact setCell_other _ _ hne
    · simp only [LwipTcp.step, if_pos halive]
  · apply idle_ready hready
    simp only [LwipTcp.step, if_neg halive]

theorem error_ready {h : Pool} (hready : Ready l h) (p : ℕ) (status : Err) :
    Ready l (deliver l h (.error p status)) := by
  by_cases halive : (h.system.memory.connections p).alive = true
  · obtain ⟨o, hargument, hpcb, -⟩ := record_of_alive hready.valid halive
    apply marked_ready hready hpcb
    · intro o' hne
      simp only [LwipTcp.step, if_pos halive, hargument, errorCallback, setConnection_cells]
      exact setCell_other _ _ hne
    · simp only [LwipTcp.step, if_pos halive]
  · apply idle_ready hready
    simp only [LwipTcp.step, if_neg halive]

theorem receive_ready {h : Pool} (hready : Ready l h) {j : ℕ} (hj : h.inUse j = true) (n : ℕ) :
    Ready l (deliver l h (.receive j n)) := by
  apply deliver_ready hready
  · intro i hi
    have hne : Owner.socket i ≠ Owner.socket j := by
      simp only [ne_eq, Owner.socket.injEq]
      rintro rfl
      rw [hj] at hi
      cases hi
    simp only [LwipTcp.step, noteReturned_cells]
    unfold socketReceive
    dsimp only
    split
    · rfl
    · split
      · rfl
      · split
        · exact setCell_other _ _ hne
        · rw [setConnection_cells]
          exact setCell_other _ _ hne
  · exact ⟨rfl, rfl, rfl⟩
  · exact hready.count

theorem openSocket_ready {h : Pool} (hready : Ready l h) :
    Ready l (step l maxSockets h .openSocket) := by
  simp only [step]
  cases hslot : allocateSocket maxSockets h with
  | none => exact hready
  | some pair =>
    obtain ⟨j, g⟩ := pair
    obtain ⟨-, rfl⟩ := allocateSocket_some hready hslot
    constructor
    · exact hready.valid
    · intro i hi
      simp only [Option.map_some, Option.getD_some] at hi ⊢
      apply hready.free
      by_cases heq : i = j
      · rw [heq, Function.update_self] at hi
        cases hi
      · rwa [Function.update_of_ne heq] at hi
    · exact hready.listening
    · exact hready.count

/-- The accept loop changes no other socket, and only the queue of the listener. -/
theorem acceptEntries_kept (s : System) (j entries : ℕ) :
    (∀ i, i ≠ j → (acceptEntries l s (.socket j) entries).2.2.memory.cells (.socket i) =
      s.memory.cells (.socket i)) ∧
    (acceptEntries l s (.socket j) entries).2.2.listener.listening = s.listener.listening ∧
    (acceptEntries l s (.socket j) entries).2.2.listener.opened = s.listener.opened ∧
    (acceptEntries l s (.socket j) entries).2.2.listener.backlog = s.listener.backlog ∧
    (acceptEntries l s (.socket j) entries).2.2.listener.pendingCount ≤
      s.listener.pendingCount := by
  induction entries generalizing s with
  | zero => exact ⟨fun _ _ => rfl, rfl, rfl, rfl, le_rfl⟩
  | succ entries ih =>
    rw [acceptEntries]
    cases (s.memory.cells (.pending s.listener.pendingHead)).pcb with
    | none =>
      obtain ⟨hcells, hlistening, hopened, hbacklog, hcount⟩ := ih (releaseHead l s)
      refine ⟨?_, hlistening, hopened, hbacklog, ?_⟩
      · intro i hi
        rw [hcells i hi]
        exact socketClose_other _ (by simp)
      · exact hcount.trans (Nat.sub_le _ 1)
    | some p =>
      refine ⟨?_, rfl, rfl, rfl, Nat.sub_le _ 1⟩
      intro i hi
      have hne : Owner.socket i ≠ Owner.socket j := by simpa using hi
      have hpending : Owner.socket i ≠ Owner.pending s.listener.pendingHead := by simp
      simp only [takeHead, handOver, configureCallbacks_cells]
      rw [setCell_other _ _ hpending, setCell_other _ _ hne, socketClose_other _ hne]

/-- An entry that can be accepted is a living connection of the queue. -/
theorem canAccept_alive {s : System} (hvalid : Valid l s) (h : canAccept l s = true) :
    ∃ p, some p ∈ waiting l s ∧ (s.memory.connections p).alive = true := by
  simp only [canAccept, Bool.and_eq_true, List.any_eq_true, List.mem_range] at h
  obtain ⟨-, k, hk, hsome⟩ := h
  obtain ⟨p, hpcb⟩ := Option.isSome_iff_exists.mp hsome
  obtain ⟨halive, -, horigin⟩ := hvalid.owned.pointed _ p hpcb
  refine ⟨p, ?_, halive⟩
  rw [waiting, contents]
  apply List.mem_map.mpr
  exact ⟨k, List.mem_range.mpr hk, horigin⟩

theorem waiting_length (s : System) : (waiting l s).length = s.listener.pendingCount := by
  simp [waiting]

/-- The next connection is queued where the queue is shorter than the backlog. -/
theorem room_of_count {h : Pool} (hready : Ready l h) (hlistening : h.listening = true)
    (hcount : h.system.listener.pendingCount < h.system.listener.backlog) (remote : Remote) :
    waiting l (step l maxSockets h (.incoming .ok true remote)).system =
      waiting l h.system ++ [some h.system.next] := by
  obtain ⟨hopen, -, -, hbacklog⟩ := hready.listening hlistening
  exact waiting_incoming ⟨rfl, hopen, rfl, hcount, by omega⟩ remote

/-- A round of an accept call: a refused one changes nothing, any other one hands
over the first living entry. -/
theorem acceptRound_cases (maxSockets : ℕ) {h : Pool} (hready : Ready l h) (context : Status) :
    (acceptRound l maxSockets h context).2 = h ∧
        ¬(Attempts maxSockets h context ∧ canAccept l h.system = true) ∨
      ∃ (dead : List ℕ) (p j : ℕ), (∀ q ∈ dead, (h.system.memory.connections q).alive = false) ∧
        (h.system.memory.connections p).alive = true ∧
        waiting l h.system =
          dead.map some ++ some p :: waiting l (acceptRound l maxSockets h context).2.system ∧
        (acceptRound l maxSockets h context).2.system.taken = h.system.taken ++ [p] ∧
        ((acceptRound l maxSockets h context).2.system.memory.cells (.socket j)).pcb = some p ∧
        (acceptRound l maxSockets h context).2.listening = h.listening ∧
        (acceptRound l maxSockets h context).2.system.listener.backlog = h.system.listener.backlog ∧
        Ready l (acceptRound l maxSockets h context).2 := by
  unfold acceptRound
  by_cases huse : h.listenerInUse = true
  swap
  · left
    simp [huse, Attempts]
  by_cases hlistening : h.listening = true
  swap
  · left
    simp [huse, hlistening, Attempts]
  by_cases hcontext : context = .ok
  swap
  · left
    simp [huse, hlistening, hcontext, Attempts]
  by_cases haccept : canAccept l h.system = true
  swap
  · left
    simp [huse, hlistening, hcontext, haccept]
  cases hslot : allocateSocket maxSockets h with
  | none =>
    left
    have hfull := allocateSocket_none hslot
    simp only [huse, hlistening, hcontext, haccept, Bool.not_true, Bool.false_eq_true,
      if_false, ne_eq, not_true_eq_false, true_and]
    rintro ⟨⟨-, -, -, j, hj, hfree⟩, -⟩
    rw [hfull j hj] at hfree
    cases hfree
  | some pair =>
    right
    obtain ⟨j, g⟩ := pair
    obtain ⟨hfree, rfl⟩ := allocateSocket_some hready hslot
    obtain ⟨hopen, hopened, hpositive, hdepth⟩ := hready.listening hlistening
    simp only [huse, hlistening, hcontext, haccept, Bool.not_true, Bool.false_eq_true,
      if_false, ne_eq, not_true_eq_false, listenerAccept, hopen, hopened, Bool.or_self]
    obtain ⟨hvalid, haccepted⟩ := acceptEntries_valid hready.valid j rfl
    obtain ⟨hcells, hlisten, hopens, hbacklog, hcount⟩ :=
      acceptEntries_kept (l := l) h.system j h.system.listener.pendingCount
    generalize acceptEntries l h.system (.socket j) h.system.listener.pendingCount = result
      at hvalid haccepted hcells hlisten hopens hbacklog hcount ⊢
    obtain ⟨status, remote, t⟩ := result
    simp only at hvalid haccepted hcells hlisten hopens hbacklog hcount
    cases haccepted with
    | taken hdead halive hwaiting htaken howner =>
      refine ⟨_, _, j, hdead, halive, hwaiting, htaken, howner, rfl, hbacklog, ?_⟩
      constructor
      · exact hvalid
      · intro i hi
        have hne : i ≠ j := by
          rintro rfl
          simp at hi
        simp only [Function.update_of_ne hne] at hi
        exact (hcells i hne).trans (hready.free i hi)
      · intro _
        rw [hlisten, hopens, hbacklog]
        exact ⟨hopen, hopened, hpositive, hdepth⟩
      · rw [hbacklog]
        exact hcount.trans hready.count
    | @emptied dead hdead hwaiting hnone htaken hconnections =>
      exfalso
      obtain ⟨p, hp, halive⟩ := canAccept_alive hready.valid haccept
      rw [hwaiting] at hp
      have hmem : p ∈ dead := by simpa using hp
      rw [hdead p hmem] at halive
      cases halive

theorem accept_ready {h : Pool} (hready : Ready l h) (context : Status) :
    Ready l (step l maxSockets h (.accept context)) := by
  rcases acceptRound_cases maxSockets hready context with
    ⟨heq, -⟩ | ⟨dead, p, j, -, -, -, -, -, -, -, hnext⟩
  · simp only [step, heq]
    exact hready
  · exact hnext

theorem accept_served {h : Pool} (hready : Ready l h) {context : Status}
    (hattempt : Attempts maxSockets h context) (hclean : Clean l maxSockets h (.accept context)) :
    Served l maxSockets h (step l maxSockets h (.accept context)) := by
  have hlistening := hattempt.2.1
  obtain ⟨-, -, hpositive, -⟩ := hready.listening hlistening
  rcases acceptRound_cases maxSockets hready context with
    ⟨heq, hrefused⟩ | ⟨dead, p, j, hdead, halive, hwaiting, htaken, howner, hlisten, hbacklog, hnext⟩
  · have hempty : h.system.listener.pendingCount = 0 := by
      rcases hclean hattempt with hempty | haccept
      · exact hempty
      · exact absurd ⟨hattempt, haccept⟩ hrefused
    have hnil := waiting_nil (l := l) hempty
    simp only [step, heq]
    constructor
    · exact ⟨[], by simp, Or.inr ⟨hnil, hnil, rfl⟩⟩
    · apply room_of_count hready hlistening
      omega
  · constructor
    · exact ⟨dead, hdead, Or.inl ⟨p, j, halive, hwaiting, htaken, howner⟩⟩
    · apply room_of_count hnext (hlisten.trans hlistening)
      have hshorter := congrArg List.length hwaiting
      simp only [waiting_length, List.length_append, List.length_cons] at hshorter
      have hcount := hready.count
      change (acceptRound l maxSockets h context).2.system.listener.pendingCount <
        (acceptRound l maxSockets h context).2.system.listener.backlog
      omega

theorem closeSocket_ready {h : Pool} (hready : Ready l h) {j : ℕ} {context : Status}
    (hclean : context = .ok ∨ (h.system.memory.cells (.socket j)).pcb = none) :
    Ready l (closeSocket h j context) := by
  unfold closeSocket
  split
  swap
  · exact hready
  have hmemory : setCell (if context = .ok then socketClose h.system.memory (.socket j)
      else h.system.memory) (.socket j) socketInit = socketClose h.system.memory (.socket j) := by
    split
    · exact setCell_blank (socketClose_self _ _)
    next hcontext =>
      have hpcb := hclean.resolve_left hcontext
      simp [socketClose, hpcb]
  dsimp only
  rw [hmemory]
  constructor
  · exact close_valid hready.valid j
  · intro i hi
    by_cases heq : i = j
    · rw [heq]
      exact socketClose_self _ _
    · have hne : Owner.socket i ≠ Owner.socket j := by simpa using heq
      simp only [Function.update_of_ne heq] at hi
      simp only
      rw [socketClose_other _ hne]
      exact hready.free i hi
  · exact hready.listening
  · exact hready.count

theorem abortPending_socket (m : Memory) (n j : ℕ) :
    (abortPending m n).cells (.socket j) = m.cells (.socket j) := by
  induction n with
  | zero => rfl
  | succ n ih =>
    rw [abortPending, abortPendingConnection, socketClose_other _ (by simp)]
    exact ih

theorem abortPending_idle {m : Memory} (h : ∀ i, (m.cells (.pending i)).pcb = none) (n : ℕ) :
    (abortPending m n).connections = m.connections ∧ (abortPending m n).ended = m.ended := by
  induction n with
  | zero => exact ⟨rfl, rfl⟩
  | succ n ih =>
    have hpcb : ((abortPending m n).cells (.pending n)).pcb = none := by
      rw [abortPending_later m n le_rfl]
      exact h n
    simp only [abortPending, abortPendingConnection, socketClose, hpcb]
    exact ih

theorem listenerInit_closed {s : System} (hvalid : Valid l s) :
    listenerInit (listenerClose l s) = listenerClose l s := by
  have hblank : ∀ i, (abortPending s.memory l.queueDepth).cells (.pending i) = socketInit := by
    intro i
    have hclosed := listenerClose_valid hvalid
    apply hclosed.owned.blank
    apply hclosed.queued.window
    intro k hk
    exact absurd hk (Nat.not_lt_zero k)
  have hcells : (fun o => match o with
      | .pending _ => socketInit
      | .socket j => (abortPending s.memory l.queueDepth).cells (.socket j)) =
        (abortPending s.memory l.queueDepth).cells := by
    funext o
    cases o with
    | pending i => exact (hblank i).symm
    | socket j => rfl
  simp only [listenerInit, listenerClose, hcells]

theorem listenerInit_idle {s : System} (h : ∀ i, (s.memory.cells (.pending i)).pcb = none) :
    listenerInit s = listenerInit (listenerClose l s) := by
  obtain ⟨hconnections, hended⟩ := abortPending_idle h l.queueDepth
  simp only [listenerInit, listenerClose, abortPending_socket, hconnections, hended]

theorem closeListener_ready {h : Pool} (hready : Ready l h) {context : Status}
    (hclean : h.listenerInUse = true →
      context = .ok ∨ ∀ i, (h.system.memory.cells (.pending i)).pcb = none) :
    Ready l (closeListener l h context) := by
  unfold closeListener
  split
  swap
  · exact hready
  next huse =>
    have hsystem : listenerInit (if context = .ok then listenerClose l h.system else h.system) =
        listenerClose l h.system := by
      split
      · exact listenerInit_closed hready.valid
      next hcontext =>
        rw [listenerInit_idle (l := l) ((hclean huse).resolve_left hcontext)]
        exact listenerInit_closed hready.valid
    dsimp only
    rw [hsystem]
    constructor
    · exact listenerClose_valid hready.valid
    · intro j hj
      exact (abortPending_socket _ _ j).trans (hready.free j hj)
    · intro hlistening
      cases hlistening
    · exact le_rfl

theorem step_ready {h : Pool} (hready : Ready l h) {e : HalEvent} (hclean : Clean l maxSockets h e) :
    Ready l (step l maxSockets h e) := by
  cases e with
  | incoming status isIpv4 remote => exact incoming_ready hready status isIpv4 remote
  | segment p packet status => exact segment_ready hready p packet status
  | offerAgain p => exact offerAgain_ready hready p
  | remoteClose p => exact remoteClose_ready hready p
  | error p status => exact error_ready hready p status
  | openSocket => exact openSocket_ready hready
  | accept context => exact accept_ready hready context
  | receive j n context =>
    simp only [step]
    split
    next hopen => exact receive_ready hready hopen.1 n
    next => exact hready
  | closeSocket j context => exact closeSocket_ready hready hclean
  | closeListener context => exact closeListener_ready hready hclean

theorem run_ready {h : Pool} (hready : Ready l h) {events : List HalEvent}
    (hclean : AllClean l maxSockets h events) : Ready l (run l maxSockets h events) := by
  induction events generalizing h with
  | nil => exact hready
  | cons e events ih => exact ih (step_ready hready hclean.1) hclean.2

theorem listeningPool_ready {backlog : ℕ} (hbacklog : 0 < backlog) :
    Ready l (listeningPool l backlog) := by
  constructor
  · exact initial_valid _
  · intro j _
    rfl
  · intro _
    have := l.positive
    refine ⟨rfl, rfl, ?_, ?_⟩
    · simp only [listeningPool, initial]
      omega
    · exact min_le_right _ _
  · exact Nat.zero_le _

/-- In every clean run of a listener each living connection has one owner, the
connections are handed over in the order of their arrival, and an accept attempt
leaves room for the next connection. -/
theorem accept_queue_live (l : Limits) (maxSockets : ℕ) {backlog : ℕ} (hbacklog : 0 < backlog)
    {events : List HalEvent} (hclean : AllClean l maxSockets (listeningPool l backlog) events) :
    Kept (run l maxSockets (listeningPool l backlog) events) ∧
    ∀ context, Attempts maxSockets (run l maxSockets (listeningPool l backlog) events) context →
      Clean l maxSockets (run l maxSockets (listeningPool l backlog) events) (.accept context) →
      Served l maxSockets (run l maxSockets (listeningPool l backlog) events)
        (run l maxSockets (listeningPool l backlog) (events ++ [.accept context])) := by
  have hready := run_ready (listeningPool_ready hbacklog) hclean
  constructor
  · exact kept_of_valid hready.valid
  · intro context hattempt haccept
    simp only [run, List.foldl_append, List.foldl_cons, List.foldl_nil]
    exact accept_served hready hattempt haccept

def limits : Limits := ⟨16384, 5, by decide⟩

/-- The first of two connections is reset before it is accepted. -/
def oneReset : List HalEvent :=
  [.incoming .ok true noRemote, .incoming .ok true noRemote, .error 0 (.other 14)]

theorem accept_queue_live_served :
    Kept (run limits 4 (listeningPool limits 2) (oneReset ++ [HalEvent.accept .ok])) ∧
    Served limits 4 (run limits 4 (listeningPool limits 2) oneReset)
      (run limits 4 (listeningPool limits 2) (oneReset ++ [HalEvent.accept .ok])) ∧
    (run limits 4 (listeningPool limits 2) (oneReset ++ [HalEvent.accept .ok])).system.taken = [1] := by
  have hone : Clean limits 4 (run limits 4 (listeningPool limits 2) oneReset) (.accept .ok) :=
    fun _ => Or.inr rfl
  have hreset : AllClean limits 4 (listeningPool limits 2) oneReset :=
    ⟨trivial, trivial, trivial, trivial⟩
  have hclean : AllClean limits 4 (listeningPool limits 2) (oneReset ++ [HalEvent.accept .ok]) :=
    ⟨trivial, trivial, trivial, hone, trivial⟩
  have hserved := (accept_queue_live limits 4 (by decide) hreset).2 .ok
    ⟨rfl, rfl, rfl, 0, by decide, rfl⟩ hone
  exact ⟨(accept_queue_live limits 4 (by decide) hclean).1, hserved, by decide⟩

def resetBeforeAccept : List HalEvent := [.incoming .ok true noRemote, .error 0 (.other 14)]

/-- A full queue of dead entries is left as it is by an accept call, and the next
connection is aborted. -/
theorem dead_entry_blocks :
    Attempts 4 (run limits 4 (listeningPool limits 1) resetBeforeAccept) .ok ∧
    ¬Served limits 4 (run limits 4 (listeningPool limits 1) resetBeforeAccept)
      (run limits 4 (listeningPool limits 1) (resetBeforeAccept ++ [.accept .ok])) := by
  constructor
  · exact ⟨rfl, rfl, rfl, 0, by decide, rfl⟩
  · intro h
    have hroom := congrArg List.length (h.room noRemote)
    revert hroom
    decide

end JaszczurHal.TcpListener
