import JaszczurHal.LwipTcpQueue

/-!
# Runs of the TCP adapter

Every event keeps ownership, streams and the accept queue, so what has been read
of a connection is always the start of what it has accepted.
-/

set_option autoImplicit false

namespace JaszczurHal.LwipTcp
open HalStatus RingQueue

variable {l : Limits}

/-- A change of the memory that keeps the origin of every entry. -/
theorem valid_memory {s : System} (h : Valid l s) {m : Memory}
    (howned : Owned m s.next) (hstreams : Streams l m)
    (horigin : ∀ i, (m.cells (.pending i)).origin = (s.memory.cells (.pending i)).origin) :
    Valid l { s with memory := m } := by
  constructor
  · exact howned
  · exact hstreams
  · exact queued_frame h.queued rfl rfl le_rfl horigin

theorem setCell_origin {m : Memory} {o : Owner} {t : TcpSocket}
    (h : t.origin = (m.cells o).origin) (o' : Owner) :
    ((setCell m o t).cells o').origin = (m.cells o').origin := by
  by_cases heq : o' = o
  · rw [heq, setCell_self, h]
  · rw [setCell_other m t heq]

theorem offer_origin (m : Memory) (p : ℕ) (packet : Chain) (status : Err) (o : Owner) :
    ((offer l m p packet status).cells o).origin = (m.cells o).origin := by
  unfold offer receiveCallback
  simp only [setConnection_cells]
  split
  · rfl
  · split
    · apply setCell_origin
      rfl
    · split
      · rfl
      · apply setCell_origin
        rfl

theorem mark_valid {s : System} (h : Valid l s) {o : Owner} {t : TcpSocket}
    (hpcb : t.pcb = (s.memory.cells o).pcb) (horigin : t.origin = (s.memory.cells o).origin)
    (hpacket : t.receivePacket = (s.memory.cells o).receivePacket)
    (hlength : t.receiveLength = (s.memory.cells o).receiveLength)
    (hne : (s.memory.cells o).origin ≠ none) : Valid l { s with memory := setCell s.memory o t } := by
  apply valid_memory h
  · apply owned_setCell h.owned hpcb horigin
    intro hnone
    exact absurd (horigin.symm.trans hnone) hne
  · exact streams_setCell h.streams (cellOk_same (h.streams.cell o) hpacket hlength horigin
      (Or.inl hpcb))
  · intro i
    exact setCell_origin horigin _

theorem offer_valid {s : System} (h : Valid l s) {p : ℕ}
    (halive : (s.memory.connections p).alive = true) (packet : Chain) (status : Err) :
    Valid l { s with memory := offer l s.memory p packet status } := by
  obtain ⟨hstreams, howned⟩ := offer_streams h.owned h.streams halive packet status
  apply valid_memory h howned hstreams
  intro i
  exact offer_origin s.memory p packet status _

theorem record_of_alive {s : System} (h : Valid l s) {p : ℕ}
    (halive : (s.memory.connections p).alive = true) :
    ∃ o, (s.memory.connections p).argument = some o ∧ (s.memory.cells o).pcb = some p ∧
      (s.memory.cells o).origin = some p := by
  obtain ⟨o, hargument, hpcb⟩ := argument_of_alive h.owned halive
  exact ⟨o, hargument, hpcb, (h.owned.pointed o p hpcb).2.2⟩

theorem error_valid {s : System} (h : Valid l s) {p : ℕ}
    (halive : (s.memory.connections p).alive = true) (status : Err) :
    Valid l (step l s (.error p status)) := by
  obtain ⟨o, hargument, hpcb, horigin⟩ := record_of_alive h halive
  simp only [step, halive, if_true, hargument, errorCallback]
  apply valid_memory h
  · apply owned_lose h.owned hpcb
    · rfl
    · exact horigin
    · rfl
  · apply streams_setConnection
    · exact streams_setCell h.streams (cellOk_same (h.streams.cell o) rfl rfl rfl (Or.inr rfl))
    · exact ⟨rfl, rfl, rfl⟩
  · intro i
    rw [setConnection_cells]
    apply setCell_origin
    rfl

theorem close_valid {s : System} (h : Valid l s) (j : ℕ) :
    Valid l { s with memory := socketClose s.memory (.socket j) } := by
  apply valid_memory h (owned_socketClose h.owned _) (streams_socketClose h.streams _)
  intro i
  rw [socketClose_other _ (by simp)]

theorem adopt_other (m : Memory) {o o' : Owner} (p : ℕ) (state : TcpState) (h : o' ≠ o) :
    (adopt m o p state).cells o' = m.cells o' := by
  rw [adopt_eq, setConnection_cells, setCell_other _ _ h]

theorem connect_valid {s : System} (h : Valid l s) (j : ℕ) (status : Err) :
    Valid l (step l s (.connect j status)) := by
  have hclosed := close_valid h j
  have howned := owned_adopt hclosed.owned (socketClose_self s.memory (.socket j)) .connecting
  have hstreams := streams_adopt hclosed.owned hclosed.streams (.socket j) .connecting
  have hpending : ∀ i, Owner.pending i ≠ Owner.socket j := by simp
  simp only [step, socketConnect]
  split
  · constructor
    · exact howned
    · exact hstreams
    · apply queued_frame h.queued
      · rfl
      · rfl
      · exact Nat.le_succ _
      intro i
      simp only [pendingOrigin]
      rw [adopt_other _ _ _ (hpending i), setConnection_cells, socketClose_other _ (hpending i)]
  · constructor
    · exact owned_socketClose howned _
    · exact streams_socketClose hstreams _
    · apply queued_frame h.queued
      · rfl
      · rfl
      · exact Nat.le_succ _
      intro i
      simp only [pendingOrigin]
      rw [socketClose_other _ (hpending i), adopt_other _ _ _ (hpending i), setConnection_cells,
        socketClose_other _ (hpending i)]

theorem listenerAccept_valid {s : System} (h : Valid l s) (j : ℕ) :
    Valid l (listenerAccept l s (.socket j)).2.2 := by
  unfold listenerAccept
  split
  · exact h
  · exact (acceptEntries_valid h j rfl).1

theorem noteReturned_cells (m : Memory) (origin : Option ℕ) (bytes : List UInt8) :
    (noteReturned m origin bytes).cells = m.cells := by
  unfold noteReturned
  split <;> rfl

theorem receive_valid {s : System} (h : Valid l s) (j n : ℕ) :
    Valid l (step l s (.receive j n)) := by
  obtain ⟨hstreams, howned⟩ := receive_streams h.owned h.streams (.socket j) n
  apply valid_memory h howned hstreams
  intro i
  have hpending : Owner.pending i ≠ Owner.socket j := by simp
  rw [noteReturned_cells]
  unfold socketReceive
  dsimp only
  split
  · rfl
  · split
    · rfl
    · split
      · rw [setCell_other _ _ hpending]
      · rw [setConnection_cells, setCell_other _ _ hpending]

theorem step_valid {s : System} (h : Valid l s) (e : Event) : Valid l (step l s e) := by
  cases e with
  | incoming status isIpv4 remote => exact accept_valid h status isIpv4 remote
  | incomingFailed status => exact h
  | segment p packet status =>
    simp only [step]
    split
    next hopen => exact offer_valid h hopen.1 packet status
    next => exact h
  | offerAgain p =>
    simp only [step]
    split
    next packet halive hrefused => exact offer_valid h halive packet .ok
    next => exact h
  | remoteClose p =>
    simp only [step]
    split
    next halive =>
      obtain ⟨o, hargument, -, horigin⟩ := record_of_alive h halive
      simp only [hargument, receiveCallback]
      exact mark_valid h rfl rfl rfl rfl (by simp [horigin])
    next => exact h
  | error p status =>
    by_cases halive : (s.memory.connections p).alive = true
    · exact error_valid h halive status
    · simp only [step, if_neg halive]
      exact h
  | connect j status => exact connect_valid h j status
  | connectFailed j => exact close_valid h j
  | connected p status =>
    simp only [step]
    split
    next halive =>
      obtain ⟨o, hargument, -, horigin⟩ := record_of_alive h halive
      simp only [hargument, connectedCallback]
      exact mark_valid h rfl rfl rfl rfl (by simp [horigin])
    next => exact h
  | accept j => exact listenerAccept_valid h j
  | receive j n => exact receive_valid h j n
  | close j => exact close_valid h j
  | closeListener => exact listenerClose_valid h

theorem initial_valid (backlog : ℕ) : Valid l (initial backlog) := by
  constructor
  · constructor
    · intro o p hp
      cases hp
    · intro p hp
      cases hp
    · intro o o' p hp
      cases hp
    · intro o p hp
      cases hp
    · intro o _
      rfl
    · exact List.nodup_nil
    · intro p hp
      cases hp
  · constructor
    · intro o
      exact cellOk_init _
    · intro p
      exact List.prefix_rfl
  · constructor
    · exact Nat.zero_le _
    · exact l.positive
    · intro i _
      rfl
    · refine ⟨[], rfl, List.Pairwise.nil, ?_⟩
      intro p hp
      cases hp

theorem run_valid {s : System} (h : Valid l s) (events : List Event) : Valid l (run l s events) := by
  induction events generalizing s with
  | nil => exact h
  | cons e events ih => exact ih (step_valid h e)

structure Received (l : Limits) (s : System) : Prop where
  returned : ∀ p, (s.memory.connections p).returned <+: (s.memory.connections p).accepted
  /-- Nothing is lost between the callback and the reader, wherever the record stands. -/
  stream : ∀ o p, (s.memory.cells o).origin = some p → (s.memory.connections p).accepted =
    (s.memory.connections p).returned ++ (s.memory.cells o).receivePacket.bytes
  length : ∀ o, (s.memory.cells o).receiveLength = (s.memory.cells o).receivePacket.bytes.length ∧
    (s.memory.cells o).receiveLength ≤ l.rxLimit
  credit : ∀ o p, (s.memory.cells o).pcb = some p →
    (s.memory.connections p).recved = (s.memory.connections p).returned.length
  /-- The record of a living connection is the one its callbacks name. -/
  owner : ∀ p, (s.memory.connections p).alive = true → ∃ o,
    (s.memory.connections p).argument = some o ∧ (s.memory.cells o).origin = some p
  readable : ∀ o n, (socketReceive s.memory o n).1 = .ok ∧ (socketReceive s.memory o n).2.1 =
    (s.memory.cells o).receivePacket.bytes.take (min n 65535)
  /-- A remote close or an error leaves what is queued where it is. -/
  kept : ∀ e, (∃ p, e = .remoteClose p) ∨ (∃ p status, e = .error p status) → ∀ o,
    ((step l s e).memory.cells o).receivePacket = (s.memory.cells o).receivePacket ∧
    ((step l s e).memory.cells o).origin = (s.memory.cells o).origin

theorem ending_keeps {s : System} {e : Event}
    (he : (∃ p, e = .remoteClose p) ∨ (∃ p status, e = .error p status)) (o : Owner) :
    ((step l s e).memory.cells o).receivePacket = (s.memory.cells o).receivePacket ∧
    ((step l s e).memory.cells o).origin = (s.memory.cells o).origin := by
  have hcell : ∀ o' t, t.receivePacket = (s.memory.cells o').receivePacket →
      t.origin = (s.memory.cells o').origin →
      ((setCell s.memory o' t).cells o).receivePacket = (s.memory.cells o).receivePacket ∧
      ((setCell s.memory o' t).cells o).origin = (s.memory.cells o).origin := by
    intro o' t hpacket horigin
    by_cases heq : o = o'
    · rw [heq, setCell_self]
      exact ⟨hpacket, horigin⟩
    · rw [setCell_other _ _ heq]
      exact ⟨rfl, rfl⟩
  rcases he with ⟨p, rfl⟩ | ⟨p, status, rfl⟩
  · simp only [step, receiveCallback]
    split
    · split
      · exact ⟨rfl, rfl⟩
      · exact hcell _ _ rfl rfl
    · exact ⟨rfl, rfl⟩
  · simp only [step, errorCallback]
    split
    · rw [setConnection_cells]
      split
      · exact ⟨rfl, rfl⟩
      · exact hcell _ _ rfl rfl
    · exact ⟨rfl, rfl⟩

theorem received (l : Limits) (backlog : ℕ) (events : List Event) :
    Received l (run l (initial backlog) events) := by
  have hvalid := run_valid (initial_valid (l := l) backlog) events
  constructor
  · exact hvalid.streams.returned
  · intro o p hp
    exact (hvalid.streams.cell o).stream p hp
  · intro o
    exact ⟨(hvalid.streams.cell o).length, (hvalid.streams.cell o).limit⟩
  · intro o p hp
    exact (hvalid.streams.cell o).credit p hp
  · intro p halive
    obtain ⟨o, hargument, -, horigin⟩ := record_of_alive hvalid halive
    exact ⟨o, hargument, horigin⟩
  · intro o n
    exact socketReceive_bytes hvalid.streams o n
  · intro e he o
    exact ending_keeps he o

end JaszczurHal.LwipTcp
