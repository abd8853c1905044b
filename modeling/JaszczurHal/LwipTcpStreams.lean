import JaszczurHal.LwipTcpOwned

/-!
# Byte streams of TCP connections

What a connection has accepted is what its reads have returned and what the
record made for it still holds, wherever that record stands.
-/

set_option autoImplicit false

namespace JaszczurHal.LwipTcp
open HalStatus RingQueue

structure CellOk (l : Limits) (connections : ℕ → Connection) (t : TcpSocket) : Prop where
  length : t.receiveLength = t.receivePacket.bytes.length
  limit : t.receiveLength ≤ l.rxLimit
  stream : ∀ p, t.origin = some p →
    (connections p).accepted = (connections p).returned ++ t.receivePacket.bytes
  credit : ∀ p, t.pcb = some p → (connections p).recved = (connections p).returned.length

structure Streams (l : Limits) (m : Memory) : Prop where
  cell : ∀ o, CellOk l m.connections (m.cells o)
  returned : ∀ p, (m.connections p).returned <+: (m.connections p).accepted

variable {l : Limits}

theorem cellOk_init (connections : ℕ → Connection) : CellOk l connections socketInit := by
  constructor
  · rfl
  · exact Nat.zero_le _
  · intro p hp
    cases hp
  · intro p hp
    cases hp

theorem streams_setCell {m : Memory} {o : Owner} {t : TcpSocket} (h : Streams l m)
    (ht : CellOk l m.connections t) : Streams l (setCell m o t) := by
  constructor
  · intro o'
    by_cases heq : o' = o
    · rw [heq, setCell_self]
      exact ht
    · rw [setCell_other m t heq]
      exact h.cell o'
  · exact h.returned

def SameBytes (c d : Connection) : Prop :=
  c.accepted = d.accepted ∧ c.returned = d.returned ∧ c.recved = d.recved

theorem streams_setConnection {m : Memory} {p : ℕ} {c : Connection} (h : Streams l m)
    (hbytes : SameBytes c (m.connections p)) : Streams l (setConnection m p c) := by
  have hsame : ∀ p', ((setConnection m p c).connections p').accepted = (m.connections p').accepted ∧
      ((setConnection m p c).connections p').returned = (m.connections p').returned ∧
      ((setConnection m p c).connections p').recved = (m.connections p').recved := by
    intro p'
    by_cases heq : p' = p
    · rw [heq, setConnection_self]
      exact hbytes
    · rw [setConnection_other m c heq]
      exact ⟨rfl, rfl, rfl⟩
  constructor
  · intro o
    have hcell := h.cell o
    constructor
    · exact hcell.length
    · exact hcell.limit
    · intro p' hp
      rw [(hsame p').1, (hsame p').2.1]
      exact hcell.stream p' hp
    · intro p' hp
      rw [(hsame p').2.1, (hsame p').2.2]
      exact hcell.credit p' hp
  · intro p'
    rw [(hsame p').1, (hsame p').2.1]
    exact h.returned p'

/-- A record and its connection change together; the records of the other
connections do not see it. -/
theorem streams_both {m : Memory} {next p : ℕ} {o : Owner} {t : TcpSocket} {c : Connection}
    (howned : Owned m next) (h : Streams l m) (hheld : ∀ o', (m.cells o').origin = some p → o' = o)
    (ht : CellOk l (Function.update m.connections p c) t) (hc : c.returned <+: c.accepted) :
    Streams l (setConnection (setCell m o t) p c) := by
  constructor
  · intro o'
    rw [setConnection_cells]
    by_cases heq : o' = o
    · rw [heq, setCell_self]
      exact ht
    · rw [setCell_other m t heq]
      have hcell := h.cell o'
      have hne : ∀ p', (m.cells o').origin = some p' → p' ≠ p := by
        rintro p' hp' rfl
        exact heq (hheld o' hp')
      constructor
      · exact hcell.length
      · exact hcell.limit
      · intro p' hp
        rw [setConnection_other _ c (hne p' hp)]
        exact hcell.stream p' hp
      · intro p' hp
        rw [setConnection_other _ c (hne p' (howned.pointed o' p' hp).2.2)]
        exact hcell.credit p' hp
  · intro p'
    by_cases heq : p' = p
    · rw [heq, setConnection_self]
      exact hc
    · rw [setConnection_other _ c heq]
      exact h.returned p'

theorem streams_ended {m : Memory} (h : Streams l m) (ended : List ℕ) :
    Streams l { m with ended := ended } := ⟨h.cell, h.returned⟩

theorem streams_socketClose {m : Memory} (h : Streams l m) (o : Owner) :
    Streams l (socketClose m o) := by
  unfold socketClose
  split
  · exact streams_setCell h (cellOk_init _)
  next p hp =>
    apply streams_setCell ?_ (cellOk_init _)
    apply streams_ended (m := setConnection m p _)
    apply streams_setConnection h
    exact ⟨rfl, rfl, rfl⟩

theorem streams_fresh {m : Memory} {next : ℕ} (howned : Owned m next) (h : Streams l m) :
    Streams l (setConnection m next freshConnection) := by
  constructor
  · intro o
    have hcell := h.cell o
    have hne : ∀ p, (m.cells o).origin = some p → p ≠ next := by
      rintro p hp rfl
      exact unmade howned o hp
    constructor
    · exact hcell.length
    · exact hcell.limit
    · intro p hp
      rw [setConnection_other _ _ (hne p hp)]
      exact hcell.stream p hp
    · intro p hp
      rw [setConnection_other _ _ (hne p (howned.pointed o p hp).2.2)]
      exact hcell.credit p hp
  · intro p
    by_cases heq : p = next
    · rw [heq, setConnection_self]
      exact List.prefix_rfl
    · rw [setConnection_other _ _ heq]
      exact h.returned p

theorem streams_reject {m : Memory} {next : ℕ} (howned : Owned m next) (h : Streams l m) :
    Streams l (endConnection (setConnection m next freshConnection) next) := by
  apply streams_ended (m := setConnection (setConnection m next freshConnection) next _)
  apply streams_setConnection (streams_fresh howned h)
  exact ⟨rfl, rfl, rfl⟩

theorem streams_adopt {m : Memory} {next : ℕ} (howned : Owned m next) (h : Streams l m) (o : Owner)
    (state : TcpState) : Streams l (adopt (setConnection m next freshConnection) o next state) := by
  rw [adopt_eq]
  apply streams_setConnection
  · apply streams_setCell (streams_fresh howned h)
    constructor
    · rfl
    · exact Nat.zero_le _
    · intro p hp
      rw [← Option.some.inj hp, setConnection_self]
      rfl
    · intro p hp
      rw [← Option.some.inj hp, setConnection_self]
      rfl
  · exact ⟨rfl, rfl, rfl⟩

theorem streams_move {m : Memory} (h : Streams l m) (source target : Owner) :
    Streams l (configureCallbacks
      (setCell (setCell m target (m.cells source)) source socketInit) target) := by
  have hmoved := streams_setCell (o := source) (streams_setCell (o := target) h (h.cell source))
    (cellOk_init _)
  unfold configureCallbacks
  split
  · exact hmoved
  · apply streams_setConnection hmoved
    exact ⟨rfl, rfl, rfl⟩

/-- A record that keeps its bytes and does not come by a pcb. -/
theorem cellOk_same {connections : ℕ → Connection} {s t : TcpSocket} (h : CellOk l connections s)
    (hpacket : t.receivePacket = s.receivePacket) (hlength : t.receiveLength = s.receiveLength)
    (horigin : t.origin = s.origin) (hpcb : t.pcb = s.pcb ∨ t.pcb = none) :
    CellOk l connections t := by
  constructor
  · rw [hlength, hpacket]
    exact h.length
  · rw [hlength]
    exact h.limit
  · intro p hp
    rw [hpacket]
    exact h.stream p (horigin ▸ hp)
  · intro p hp
    rcases hpcb with heq | heq
    · exact h.credit p (heq ▸ hp)
    · rw [heq] at hp
      cases hp

/-- An accepted segment is queued behind what the record holds. -/
theorem offer_streams {m : Memory} {next p : ℕ} (howned : Owned m next) (h : Streams l m)
    (halive : (m.connections p).alive = true) (packet : Chain) (status : Err) :
    Streams l (offer l m p packet status) ∧ Owned (offer l m p packet status) next := by
  obtain ⟨o, hargument, hpcb⟩ := argument_of_alive howned halive
  have horigin := (howned.pointed o p hpcb).2.2
  have hcell := h.cell o
  have hne : (m.cells o).origin ≠ none := by simp [horigin]
  unfold offer receiveCallback
  simp only [hargument]
  by_cases hstatus : status = .ok
  swap
  · -- the packet is freed, and the record is marked with the error
    simp only [ne_eq, hstatus, not_false_eq_true, if_true, if_false]
    constructor
    · apply streams_setConnection
      · exact streams_setCell h (cellOk_same hcell rfl rfl rfl (Or.inl rfl))
      · exact ⟨rfl, rfl, rfl⟩
    · apply owned_setConnection
      · exact owned_setCell howned rfl rfl (fun hnone => absurd hnone hne)
      · exact ⟨rfl, rfl⟩
  simp only [hstatus, ne_eq, not_true_eq_false, if_false]
  by_cases hfull : l.rxLimit-(m.cells o).receiveLength < packet.bytes.length
  · simp only [if_pos hfull, if_true, reduceCtorEq, if_false]
    constructor
    · apply streams_setConnection h
      exact ⟨rfl, rfl, rfl⟩
    · apply owned_setConnection howned
      exact ⟨rfl, rfl⟩
  · simp only [if_neg hfull, if_true, reduceCtorEq, if_false]
    have hlimit := hcell.limit
    constructor
    · apply streams_both howned h (fun o' ho' => howned.single o' o p ho' horigin)
      · constructor
        · simp only [append_bytes, List.length_append, hcell.length]
        · simp only
          omega
        · intro q hq
          have hsame : p = q := Option.some.inj (horigin.symm.trans hq)
          subst hsame
          simp [append_bytes, hcell.stream p horigin]
        · intro q hq
          have hsame : p = q := Option.some.inj (hpcb.symm.trans hq)
          subst hsame
          simp [hcell.credit p hpcb]
      · exact (h.returned p).trans (List.prefix_append _ _)
    · apply owned_setConnection
      · exact owned_setCell howned rfl rfl (fun hnone => absurd hnone hne)
      · exact ⟨rfl, rfl⟩

/-- The bytes that a read returns, whatever the state of the connection. -/
theorem socketReceive_bytes {m : Memory} (h : Streams l m) (o : Owner) (n : ℕ) :
    (socketReceive m o n).1 = .ok ∧
      (socketReceive m o n).2.1 = (m.cells o).receivePacket.bytes.take (min n 65535) := by
  have hlength := (h.cell o).length
  unfold socketReceive
  by_cases hempty : n = 0 ∨ (m.cells o).receiveLength = 0
  · simp only [if_pos hempty, true_and]
    rcases hempty with hn | hzero
    · simp [hn]
    · rw [hlength, List.length_eq_zero_iff] at hzero
      simp [hzero]
  · simp only [if_neg hempty, pbufCopyPartial_eq, List.length_take, ← hlength]
    have hcopied : ¬min (min (min n (m.cells o).receiveLength) 65535) (m.cells o).receiveLength ≠
        min (min n (m.cells o).receiveLength) 65535 := by omega
    have htake : (m.cells o).receivePacket.bytes.take (min (min n (m.cells o).receiveLength) 65535) =
        (m.cells o).receivePacket.bytes.take (min n 65535) := by
      rw [hlength, min_right_comm, ← List.take_eq_take_min]
    rw [if_neg hcopied]
    split
    · exact ⟨rfl, htake⟩
    · exact ⟨rfl, htake⟩

theorem setConnection_twice (m : Memory) (p : ℕ) (c d : Connection) :
    setConnection (setConnection m p c) p d = setConnection m p d := by
  simp [setConnection]

def drained (t : TcpSocket) (n : ℕ) : TcpSocket :=
  { t with receivePacket := pbufFreeHeader t.receivePacket n, receiveLength := t.receiveLength-n }

/-- A read moves bytes from the record to what has been returned. -/
theorem streams_drained {m : Memory} {next p n : ℕ} {o : Owner} {c : Connection}
    (howned : Owned m next) (h : Streams l m) (horigin : (m.cells o).origin = some p)
    (haccepted : c.accepted = (m.connections p).accepted)
    (hreturned : c.returned = (m.connections p).returned ++ (m.cells o).receivePacket.bytes.take n)
    (hcredit : (m.cells o).pcb = some p → c.recved = c.returned.length) :
    Streams l (setConnection (setCell m o (drained (m.cells o) n)) p c) := by
  have hcell := h.cell o
  have hstream := hcell.stream p horigin
  have hsplit : c.accepted = c.returned ++ (m.cells o).receivePacket.bytes.drop n := by
    rw [haccepted, hstream, hreturned, List.append_assoc, List.take_append_drop]
  apply streams_both howned h (fun o' ho' => howned.single o' o p ho' horigin)
  · constructor
    · simp only [drained, pbufFreeHeader_bytes, List.length_drop, hcell.length]
    · have hlimit := hcell.limit
      simp only [drained]
      omega
    · intro q hq
      obtain rfl : p = q := Option.some.inj (horigin.symm.trans hq)
      simp [drained, pbufFreeHeader_bytes, hsplit]
    · intro q hq
      have hpcb : (m.cells o).pcb = some q := hq
      obtain rfl : p = q := Option.some.inj (horigin.symm.trans (howned.pointed o q hpcb).2.2)
      simp [hcredit hpcb]
  · rw [hsplit]
    exact List.prefix_append _ _

theorem owned_drained {m : Memory} {next p : ℕ} {c : Connection} (howned : Owned m next) (o : Owner)
    (n : ℕ) (horigin : (m.cells o).origin = some p)
    (hsame : c.alive = (m.connections p).alive ∧ c.argument = (m.connections p).argument) :
    Owned (setConnection (setCell m o (drained (m.cells o) n)) p c) next := by
  apply owned_setConnection
  · apply owned_setCell howned
    · rfl
    · rfl
    · intro hnone
      exact absurd (horigin.symm.trans hnone) (by simp)
  · exact hsame

theorem receive_streams {m : Memory} {next : ℕ} (howned : Owned m next) (h : Streams l m)
    (o : Owner) (n : ℕ) :
    Streams l (noteReturned (socketReceive m o n).2.2 (m.cells o).origin (socketReceive m o n).2.1) ∧
      Owned (noteReturned (socketReceive m o n).2.2 (m.cells o).origin (socketReceive m o n).2.1)
        next := by
  have hlength := (h.cell o).length
  by_cases hempty : n = 0 ∨ (m.cells o).receiveLength = 0
  · have hread : socketReceive m o n = (.ok, [], m) := by simp only [socketReceive, if_pos hempty]
    rw [hread]
    cases horigin : (m.cells o).origin with
    | none => exact ⟨h, howned⟩
    | some p =>
      constructor
      · apply streams_setConnection h
        exact ⟨rfl, List.append_nil _, rfl⟩
      · apply owned_setConnection howned
        exact ⟨rfl, rfl⟩
  have horigin : ∃ p, (m.cells o).origin = some p := by
    apply Option.ne_none_iff_exists'.mp
    intro hnone
    rw [howned.blank o hnone] at hempty
    exact hempty (Or.inr rfl)
  obtain ⟨p, horigin⟩ := horigin
  generalize hk : min (min n (m.cells o).receiveLength) 65535 = k
  have hcopied : ((m.cells o).receivePacket.bytes.take k).length = k := by
    rw [List.length_take, ← hlength]
    omega
  have hread : socketReceive m o n = (.ok, (m.cells o).receivePacket.bytes.take k,
      (m.cells o).pcb.elim (setCell m o (drained (m.cells o) k)) fun q =>
        setConnection (setCell m o (drained (m.cells o) k)) q
          { m.connections q with recved := (m.connections q).recved+k }) := by
    unfold socketReceive
    simp only [if_neg hempty, hk, pbufCopyPartial_eq, hcopied, ne_eq, not_true_eq_false, if_false]
    split
    next hpcb => simp [hpcb, drained]
    next q hpcb => simp [hpcb, drained]
  rw [hread, horigin]
  cases hpcb : (m.cells o).pcb with
  | none =>
    simp only [noteReturned, Option.elim_none]
    constructor
    · apply streams_drained howned h horigin
      · rfl
      · rfl
      · intro hq
        rw [hpcb] at hq
        cases hq
    · apply owned_drained howned o k horigin
      exact ⟨rfl, rfl⟩
  | some q =>
    obtain rfl : p = q := Option.some.inj (horigin.symm.trans (howned.pointed o q hpcb).2.2)
    simp only [noteReturned, Option.elim_some, setConnection_self, setConnection_twice]
    constructor
    · apply streams_drained howned h horigin
      · rfl
      · rfl
      · intro _
        simp [(h.cell o).credit p hpcb, hcopied]
    · apply owned_drained howned o k horigin
      exact ⟨rfl, rfl⟩

end JaszczurHal.LwipTcp
