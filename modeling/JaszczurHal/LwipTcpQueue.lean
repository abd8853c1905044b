import JaszczurHal.LwipTcpStreams

/-!
# The accept queue

The entries of the queue were made for connections in the order of their
arrival, behind all that have been handed over. The places outside the queue
are blank.
-/

set_option autoImplicit false

namespace JaszczurHal.LwipTcp
open HalStatus RingQueue
open LwipUdp (Remote noRemote)

def pendingOrigin (s : System) (i : ℕ) : Option ℕ := (s.memory.cells (.pending i)).origin

def waiting (l : Limits) (s : System) : List (Option ℕ) :=
  contents l.queueDepth (pendingOrigin s) s.listener.pendingHead s.listener.pendingCount

structure Queued (l : Limits) (s : System) : Prop where
  count : s.listener.pendingCount ≤ l.queueDepth
  head : s.listener.pendingHead < l.queueDepth
  window : ∀ i, (∀ k < s.listener.pendingCount, place l.queueDepth s.listener.pendingHead k ≠ i) →
    pendingOrigin s i = none
  order : ∃ ids, waiting l s = ids.map some ∧ (s.taken ++ ids).Pairwise (· < ·) ∧
    ∀ p ∈ s.taken ++ ids, p < s.next

structure Valid (l : Limits) (s : System) : Prop where
  owned : Owned s.memory s.next
  streams : Streams l s.memory
  queued : Queued l s

variable {l : Limits}

/-- What leaves the queue and the connections of its entries alone. -/
theorem queued_frame {s t : System} (h : Queued l s) (hlistener : t.listener = s.listener)
    (htaken : t.taken = s.taken) (hnext : s.next ≤ t.next)
    (horigin : ∀ i, pendingOrigin t i = pendingOrigin s i) : Queued l t := by
  have hsame : pendingOrigin t = pendingOrigin s := funext horigin
  constructor
  · rw [hlistener]
    exact h.count
  · rw [hlistener]
    exact h.head
  · rw [hlistener, hsame]
    exact h.window
  · obtain ⟨ids, hids, hsorted, hmade⟩ := h.order
    refine ⟨ids, ?_, ?_, ?_⟩
    · rw [waiting, hlistener, hsame]
      exact hids
    · rw [htaken]
      exact hsorted
    · intro p hp
      rw [htaken] at hp
      exact (hmade p hp).trans_le hnext

theorem tail_free {s : System} (h : Valid l s) (hroom : s.listener.pendingCount < l.queueDepth) :
    s.memory.cells (.pending (place l.queueDepth s.listener.pendingHead s.listener.pendingCount)) =
      socketInit := by
  apply h.owned.blank
  apply h.queued.window
  intro k hk heq
  have := place_inj (by omega) hroom heq
  omega

/-- The connection of a new entry is the youngest one. -/
theorem queued_push {s t : System} (h : Queued l s) (hroom : s.listener.pendingCount < l.queueDepth)
    (hhead : t.listener.pendingHead = s.listener.pendingHead)
    (hcount : t.listener.pendingCount = s.listener.pendingCount+1) (htaken : t.taken = s.taken)
    (hnext : t.next = s.next+1)
    (horigin : pendingOrigin t = Function.update (pendingOrigin s)
      (place l.queueDepth s.listener.pendingHead s.listener.pendingCount) (some s.next)) :
    Queued l t := by
  constructor
  · omega
  · rw [hhead]
    exact h.head
  · intro i hi
    rw [hcount, hhead] at hi
    have hne : i ≠ place l.queueDepth s.listener.pendingHead s.listener.pendingCount :=
      (hi _ (Nat.lt_succ_self _)).symm
    rw [horigin, Function.update_of_ne hne]
    exact h.window i (fun k hk => hi k (Nat.lt_succ_of_lt hk))
  · obtain ⟨ids, hids, hsorted, hmade⟩ := h.order
    refine ⟨ids ++ [s.next], ?_, ?_, ?_⟩
    · have hpush := contents_push (pendingOrigin s) s.listener.pendingHead hroom (some s.next)
      rw [waiting] at hids
      rw [waiting, hhead, hcount, horigin, hpush, hids]
      simp
    · rw [htaken, ← List.append_assoc]
      apply List.pairwise_append.mpr
      refine ⟨hsorted, List.pairwise_singleton _ _, ?_⟩
      intro p hp q hq
      rw [List.mem_singleton.mp hq]
      exact hmade p hp
    · intro p hp
      rw [htaken, ← List.append_assoc] at hp
      rw [hnext]
      rcases List.mem_append.mp hp with hp | hp
      · exact Nat.lt_succ_of_lt (hmade p hp)
      · rw [List.mem_singleton.mp hp]
        exact Nat.lt_succ_self _

/-- The first entry of the queue, and the queue without it. -/
theorem queued_pop {s t : System} (h : Queued l s) (hsome : 0 < s.listener.pendingCount)
    (hlistener : t.listener = (popPending l s).listener) (hnext : t.next = s.next)
    (horigin : pendingOrigin t =
      Function.update (pendingOrigin s) s.listener.pendingHead none) :
    ∃ p, pendingOrigin s s.listener.pendingHead = some p ∧
      waiting l s = some p :: waiting l t ∧
      (t.taken = s.taken ∨ t.taken = s.taken ++ [p] → Queued l t) := by
  obtain ⟨ids, hids, hsorted, hmade⟩ := h.order
  have hplace : place l.queueDepth s.listener.pendingHead 0 = s.listener.pendingHead :=
    Nat.mod_eq_of_lt h.head
  have hpop := contents_pop l.queueDepth (pendingOrigin s) s.listener.pendingHead hsome
  have hshort : s.listener.pendingCount-1 < l.queueDepth := by
    have := h.count
    omega
  have hreleased := contents_released (pendingOrigin s) s.listener.pendingHead hshort none
  rw [hplace] at hpop hreleased
  have hrest : waiting l s = pendingOrigin s s.listener.pendingHead :: waiting l t := by
    rw [waiting, hpop, waiting, horigin, hlistener]
    exact congrArg _ hreleased.symm
  cases ids with
  | nil =>
    rw [hrest] at hids
    cases hids
  | cons p ids =>
    rw [hrest, List.map_cons, List.cons.injEq] at hids
    obtain ⟨hp, hids⟩ := hids
    refine ⟨p, hp, by rw [hrest, hp], ?_⟩
    intro htaken
    constructor
    · have := h.count
      rw [hlistener]
      simp only [popPending]
      omega
    · rw [hlistener]
      exact Nat.mod_lt _ l.positive
    · intro i hi
      rw [hlistener] at hi
      rw [horigin]
      by_cases heq : i = s.listener.pendingHead
      · rw [heq, Function.update_self]
      · rw [Function.update_of_ne heq]
        apply h.window
        intro k hk
        cases k with
        | zero =>
          rw [hplace]
          exact Ne.symm heq
        | succ k =>
          rw [← place_succ]
          exact hi k (by simp only [popPending]; omega)
    · refine ⟨ids, hids, ?_, ?_⟩
      · rcases htaken with htaken | htaken
        · rw [htaken]
          exact hsorted.sublist ((List.sublist_cons_self p ids).append_left s.taken)
        · rw [htaken, List.append_assoc]
          exact hsorted
      · intro q hq
        rw [hnext]
        apply hmade q
        rcases htaken with htaken | htaken
        · rw [htaken] at hq
          exact ((List.sublist_cons_self p ids).append_left s.taken).mem hq
        · rw [htaken, List.append_assoc] at hq
          exact hq

theorem pendingOrigin_close (s : System) (i : ℕ) {t : System}
    (ht : t.memory = abortPendingConnection s.memory i) :
    pendingOrigin t = Function.update (pendingOrigin s) i none := by
  funext k
  by_cases heq : k = i
  · rw [heq, Function.update_self, pendingOrigin, ht, abortPendingConnection, socketClose_self]
    rfl
  · have hne : Owner.pending k ≠ Owner.pending i := by simpa using heq
    rw [Function.update_of_ne heq, pendingOrigin, ht, abortPendingConnection, socketClose_other _ hne]
    rfl

def Queues (l : Limits) (s : System) (status : Err) (isIpv4 : Bool) : Prop :=
  status = .ok ∧ s.listener.listening = true ∧ isIpv4 = true ∧
    s.listener.pendingCount < s.listener.backlog ∧ s.listener.pendingCount < l.queueDepth

theorem incoming_refused {s : System} {status : Err} {isIpv4 : Bool}
    (hrefused : ¬Queues l s status isIpv4) (remote : Remote) :
    step l s (.incoming status isIpv4 remote) =
      { s with
        memory := endConnection (setConnection s.memory s.next freshConnection) s.next
        next := s.next+1 } := by
  simp only [step, acceptCallback]
  rw [if_pos]
  by_contra hopen
  simp only [not_or, not_le, not_not, Bool.not_eq_true', Bool.not_eq_false] at hopen
  exact hrefused hopen

theorem incoming_queued {s : System} {status : Err} {isIpv4 : Bool} (hopen : Queues l s status isIpv4)
    (remote : Remote) : step l s (.incoming status isIpv4 remote) =
      { s with
        memory := adopt (setConnection s.memory s.next freshConnection)
          (.pending (place l.queueDepth s.listener.pendingHead s.listener.pendingCount)) s.next
          .connected
        listener := { s.listener with
          remotes := Function.update s.listener.remotes
            (place l.queueDepth s.listener.pendingHead s.listener.pendingCount) remote
          pendingCount := s.listener.pendingCount+1 }
        next := s.next+1 } := by
  obtain ⟨rfl, hlistening, rfl, hbacklog, hroom⟩ := hopen
  simp only [step, acceptCallback]
  rw [if_neg]
  simp [hlistening, hbacklog, hroom]

theorem pendingOrigin_incoming {s : System} {status : Err} {isIpv4 : Bool}
    (hopen : Queues l s status isIpv4) (remote : Remote) :
    pendingOrigin (step l s (.incoming status isIpv4 remote)) =
      Function.update (pendingOrigin s)
        (place l.queueDepth s.listener.pendingHead s.listener.pendingCount) (some s.next) := by
  rw [incoming_queued hopen]
  funext i
  generalize place l.queueDepth s.listener.pendingHead s.listener.pendingCount = tail
  simp only [pendingOrigin, adopt_eq, setConnection_cells]
  by_cases heq : i = tail
  · rw [heq, setCell_self, Function.update_self]
    rfl
  · have hne : Owner.pending i ≠ Owner.pending tail := by simpa using heq
    rw [setCell_other _ _ hne, Function.update_of_ne heq]
    rfl

theorem waiting_incoming {s : System} {status : Err} {isIpv4 : Bool}
    (hopen : Queues l s status isIpv4) (remote : Remote) :
    waiting l (step l s (.incoming status isIpv4 remote)) = waiting l s ++ [some s.next] := by
  rw [waiting, pendingOrigin_incoming hopen, incoming_queued hopen]
  exact contents_push (pendingOrigin s) s.listener.pendingHead hopen.2.2.2.2 (some s.next)

theorem accept_valid {s : System} (h : Valid l s) (status : Err) (isIpv4 : Bool) (remote : Remote) :
    Valid l (step l s (.incoming status isIpv4 remote)) := by
  by_cases hopen : Queues l s status isIpv4
  · have hroom := hopen.2.2.2.2
    have hfree := tail_free h hroom
    constructor
    · rw [incoming_queued hopen]
      exact owned_adopt h.owned hfree .connected
    · rw [incoming_queued hopen]
      exact streams_adopt h.owned h.streams _ .connected
    · apply queued_push h.queued hroom
      · rw [incoming_queued hopen]
      · rw [incoming_queued hopen]
      · rw [incoming_queued hopen]
      · rw [incoming_queued hopen]
      · exact pendingOrigin_incoming hopen remote
  · rw [incoming_refused hopen]
    constructor
    · exact owned_reject h.owned
    · exact streams_reject h.owned h.streams
    · apply queued_frame h.queued
      · rfl
      · rfl
      · exact Nat.le_succ _
      · intro i
        rfl

@[simp] theorem configureCallbacks_cells (m : Memory) (o : Owner) :
    (configureCallbacks m o).cells = m.cells := by
  unfold configureCallbacks
  split <;> rfl

theorem handOver_pending (m : Memory) (i j k : ℕ) :
    (handOver m i (.socket j)).cells (.pending k) =
      if k = i then socketInit else m.cells (.pending k) := by
  have hsocket : ∀ k, Owner.pending k ≠ Owner.socket j := by simp
  simp only [handOver, configureCallbacks_cells]
  by_cases heq : k = i
  · rw [heq, setCell_self, if_pos rfl]
  · have hne : Owner.pending k ≠ Owner.pending i := by simpa using heq
    rw [if_neg heq, setCell_other _ _ hne, setCell_other _ _ (hsocket k),
      socketClose_other _ (hsocket k)]

theorem takeHead_valid {s : System} (h : Valid l s) {p : ℕ} (j : ℕ)
    (hsome : 0 < s.listener.pendingCount)
    (hpcb : (s.memory.cells (.pending s.listener.pendingHead)).pcb = some p) :
    Valid l (takeHead l s (.socket j) p) ∧
      waiting l s = some p :: waiting l (takeHead l s (.socket j) p) ∧
      ((takeHead l s (.socket j) p).memory.cells (.socket j)).pcb = some p := by
  have hne : Owner.socket j ≠ Owner.pending s.listener.pendingHead := by simp
  have hclosed := owned_socketClose h.owned (.socket j)
  have hkept : (socketClose s.memory (.socket j)).cells (.pending s.listener.pendingHead) =
      s.memory.cells (.pending s.listener.pendingHead) := socketClose_other _ hne.symm
  have hstill : ((socketClose s.memory (.socket j)).cells (.pending s.listener.pendingHead)).pcb =
      some p := by rw [hkept, hpcb]
  have horigin : pendingOrigin (takeHead l s (.socket j) p) =
      Function.update (pendingOrigin s) s.listener.pendingHead none := by
    funext k
    simp only [pendingOrigin, takeHead, handOver_pending]
    by_cases heq : k = s.listener.pendingHead
    · rw [if_pos heq, heq, Function.update_self]
      rfl
    · rw [if_neg heq, Function.update_of_ne heq]
      rfl
  obtain ⟨q, hq, hwaiting, hqueued⟩ :=
    queued_pop (t := takeHead l s (.socket j) p) h.queued hsome rfl rfl horigin
  have hp := (h.owned.pointed _ p hpcb).2.2
  obtain rfl : q = p := Option.some.inj (hq.symm.trans hp)
  refine ⟨?_, hwaiting, ?_⟩
  · constructor
    · exact owned_move hclosed hne (socketClose_self _ _) hstill
    · exact streams_move (streams_socketClose h.streams _) _ _
    · exact hqueued (Or.inr rfl)
  · simp only [takeHead, handOver, configureCallbacks_cells]
    rw [setCell_other _ _ hne, setCell_self]
    exact hstill

theorem releaseHead_valid {s : System} (h : Valid l s) (hsome : 0 < s.listener.pendingCount) :
    Valid l (releaseHead l s) ∧ ∃ p, pendingOrigin s s.listener.pendingHead = some p ∧
      waiting l s = some p :: waiting l (releaseHead l s) := by
  have horigin : pendingOrigin (releaseHead l s) =
      Function.update (pendingOrigin s) s.listener.pendingHead none :=
    pendingOrigin_close s _ rfl
  obtain ⟨p, hp, hwaiting, hqueued⟩ :=
    queued_pop (t := releaseHead l s) h.queued hsome rfl rfl horigin
  constructor
  · constructor
    · exact owned_socketClose h.owned _
    · exact streams_socketClose h.streams _
    · exact hqueued (Or.inl rfl)
  · exact ⟨p, hp, hwaiting⟩

/-- An entry has a pcb exactly while its connection lives. -/
theorem pcb_iff {s : System} (h : Valid l s) {o : Owner} {p : ℕ}
    (horigin : (s.memory.cells o).origin = some p) :
    (s.memory.cells o).pcb = some p ↔ (s.memory.connections p).alive = true := by
  constructor
  · intro hpcb
    exact (h.owned.pointed o p hpcb).1
  · intro halive
    obtain ⟨o', ho'⟩ := h.owned.held p halive
    have hsame := h.owned.single o' o p (h.owned.pointed o' p ho').2.2 horigin
    rwa [← hsame]

/-- What an accept does with the queue: dead entries are released up to the
first living one, which is handed over; without one the queue is emptied. -/
inductive Accepted (l : Limits) (s t : System) (j : ℕ) : Status → Prop
  | taken {dead : List ℕ} {p : ℕ}
      (hdead : ∀ q ∈ dead, (s.memory.connections q).alive = false)
      (halive : (s.memory.connections p).alive = true)
      (hwaiting : waiting l s = dead.map some ++ some p :: waiting l t)
      (htaken : t.taken = s.taken ++ [p]) (howner : (t.memory.cells (.socket j)).pcb = some p) :
      Accepted l s t j .ok
  | emptied {dead : List ℕ}
      (hdead : ∀ q ∈ dead, (s.memory.connections q).alive = false)
      (hwaiting : waiting l s = dead.map some) (hnone : t.listener.pendingCount = 0)
      (htaken : t.taken = s.taken) (hconnections : t.memory.connections = s.memory.connections) :
      Accepted l s t j .eagain

theorem waiting_nil {s : System} (h : s.listener.pendingCount = 0) : waiting l s = [] := by
  simp [waiting, h]

theorem acceptEntries_valid {entries : ℕ} {s : System} (h : Valid l s) (j : ℕ)
    (hentries : entries = s.listener.pendingCount) :
    Valid l (acceptEntries l s (.socket j) entries).2.2 ∧
      Accepted l s (acceptEntries l s (.socket j) entries).2.2 j
        (acceptEntries l s (.socket j) entries).1 := by
  induction entries generalizing s with
  | zero =>
    constructor
    · exact h
    · apply @Accepted.emptied l s s j []
      · simp
      · exact waiting_nil hentries.symm
      · exact hentries.symm
      · rfl
      · rfl
  | succ entries ih =>
    have hsome : 0 < s.listener.pendingCount := by omega
    rw [acceptEntries]
    cases hpcb : (s.memory.cells (.pending s.listener.pendingHead)).pcb with
    | none =>
      have hconnections : (releaseHead l s).memory.connections = s.memory.connections := by
        simp [releaseHead, abortPendingConnection, socketClose, hpcb]
      have htaken : (releaseHead l s).taken = s.taken := rfl
      have hcount : (releaseHead l s).listener.pendingCount = s.listener.pendingCount-1 := rfl
      obtain ⟨hvalid, p, hp, hwaiting⟩ := releaseHead_valid h hsome
      have hdeadHead : (s.memory.connections p).alive = false := by
        cases halive : (s.memory.connections p).alive with
        | false => rfl
        | true =>
          have hheld := (pcb_iff h hp).mpr halive
          rw [hpcb] at hheld
          cases hheld
      dsimp only
      generalize releaseHead l s = t at hvalid hwaiting hconnections htaken hcount ⊢
      obtain ⟨hlater, haccepted⟩ := ih hvalid (by omega)
      refine ⟨hlater, ?_⟩
      have hbefore : ∀ dead : List ℕ, (∀ q ∈ dead, (t.memory.connections q).alive = false) →
          ∀ q ∈ p :: dead, (s.memory.connections q).alive = false := by
        intro dead hdead q hq
        rcases List.mem_cons.mp hq with rfl | hq
        · exact hdeadHead
        · rw [← hconnections]
          exact hdead q hq
      generalize acceptEntries l t (.socket j) entries = result at haccepted ⊢
      obtain ⟨status, remote, u⟩ := result
      cases haccepted with
      | taken hdead halive hrest hsame howner =>
        apply Accepted.taken (hbefore _ hdead)
        · rw [← hconnections]
          exact halive
        · rw [hwaiting, hrest]
          rfl
        · exact hsame.trans (by rw [htaken])
        · exact howner
      | emptied hdead hrest hnone hsame hconn =>
        apply Accepted.emptied (hbefore _ hdead)
        · rw [hwaiting, hrest]
          rfl
        · exact hnone
        · exact hsame.trans htaken
        · exact hconn.trans hconnections
    | some p =>
      obtain ⟨hvalid, hwaiting, howner⟩ := takeHead_valid h j hsome hpcb
      constructor
      · exact hvalid
      · apply @Accepted.taken l s (takeHead l s (.socket j) p) j [] p
        · simp
        · exact (h.owned.pointed _ p hpcb).1
        · exact hwaiting
        · rfl
        · exact howner

theorem abortPending_origin (m : Memory) (n : ℕ) {i : ℕ} (h : i < n) :
    (abortPending m n).cells (.pending i) = socketInit := by
  induction n with
  | zero => omega
  | succ n ih =>
    rw [abortPending, abortPendingConnection]
    by_cases heq : i = n
    · rw [heq, socketClose_self]
    · have hne : Owner.pending i ≠ Owner.pending n := by simpa using heq
      rw [socketClose_other _ hne]
      exact ih (by omega)

theorem abortPending_later (m : Memory) (n : ℕ) {i : ℕ} (h : n ≤ i) :
    (abortPending m n).cells (.pending i) = m.cells (.pending i) := by
  induction n with
  | zero => rfl
  | succ n ih =>
    have hne : Owner.pending i ≠ Owner.pending n := by
      simp only [ne_eq, Owner.pending.injEq]
      omega
    rw [abortPending, abortPendingConnection, socketClose_other _ hne]
    exact ih (by omega)

theorem abortPending_kept {m : Memory} {next : ℕ} (howned : Owned m next) (h : Streams l m) (n : ℕ) :
    Owned (abortPending m n) next ∧ Streams l (abortPending m n) := by
  induction n with
  | zero => exact ⟨howned, h⟩
  | succ n ih => exact ⟨owned_socketClose ih.1 _, streams_socketClose ih.2 _⟩

theorem listenerClose_valid {s : System} (h : Valid l s) : Valid l (listenerClose l s) := by
  obtain ⟨howned, hstreams⟩ := abortPending_kept h.owned h.streams l.queueDepth
  obtain ⟨ids, hids, hsorted, hmade⟩ := h.queued.order
  constructor
  · exact howned
  · exact hstreams
  · constructor
    · exact Nat.zero_le _
    · exact l.positive
    · intro i _
      simp only [pendingOrigin, listenerClose]
      by_cases hi : i < l.queueDepth
      · rw [abortPending_origin _ _ hi]
        rfl
      · rw [abortPending_later _ _ (not_lt.mp hi)]
        apply h.queued.window
        intro k _ heq
        exact hi (heq ▸ place_lt l.positive _ k)
    · refine ⟨[], rfl, ?_, ?_⟩
      · rw [List.append_nil]
        exact hsorted.sublist (List.sublist_append_left _ _)
      · intro p hp
        rw [List.append_nil] at hp
        exact hmade p (List.mem_append_left _ hp)

end JaszczurHal.LwipTcp
