import JaszczurHal.LoraLink

/-!
# The peer table of a link

Peers are kept from the front of the table on, one for each source and
session, until a peer has to give its place to a new one.
-/

set_option autoImplicit false

namespace JaszczurHal.LoraPeers
open LoraFrame LoraLink SerialWindow

variable {κ : Type} {c : Context κ}

def pairOf (p : Peer) : UInt16 × UInt32 := (p.source, p.sessionId)

def windowOf (p : Peer) : Window := ⟨p.newestSequence, p.receivedWindow⟩

theorem scan_found {r : Replies} {source : UInt16} {sessionId : UInt32} {allocate : Bool}
    {peers : List Peer} {start oldest index last : ℕ} {ms : UInt32}
    (h : scanPeers r source sessionId allocate peers start oldest ms = (some index, last)) :
    start ≤ index ∧ ∃ p, peers[index-start]? = some p ∧ p.valid = true ∧
      p.source = source ∧ p.sessionId = sessionId := by
  induction peers generalizing start oldest ms with
  | nil => simp [scanPeers] at h
  | cons p rest ih =>
    have hlater : ∀ {o m}, scanPeers r source sessionId allocate rest (start+1) o m =
        (some index, last) → start ≤ index ∧ ∃ q, (p :: rest)[index-start]? = some q ∧
          q.valid = true ∧ q.source = source ∧ q.sessionId = sessionId := by
      intro o m hrest
      obtain ⟨hle, q, hq, hmatch⟩ := ih hrest
      have hindex : index-start = index-(start+1)+1 := by omega
      exact ⟨by omega, q, by rw [hindex, List.getElem?_cons_succ]; exact hq, hmatch⟩
    unfold scanPeers at h
    by_cases hmatch : p.valid ∧ p.source = source ∧ p.sessionId = sessionId
    · rw [if_pos hmatch] at h
      simp only [Prod.mk.injEq, Option.some.injEq] at h
      exact ⟨h.1.le, p, by rw [h.1, Nat.sub_self, List.getElem?_cons_zero], hmatch⟩
    · rw [if_neg hmatch] at h
      split_ifs at h
      · exact hlater h
      · exact hlater h
      · cases h
      · exact hlater h

theorem findPeer_found {r : Replies} {source : UInt16} {sessionId : UInt32} {index : ℕ}
    (h : findPeer r source sessionId c = some index) :
    ∃ p, c.peers[index]? = some p ∧ p.valid = true ∧ p.source = source ∧
      p.sessionId = sessionId :=
  (scan_found (Prod.ext h rfl)).2

theorem sequenceSeen_some {r : Replies} {h : Header} {index : ℕ}
    (hseen : sequenceSeen r h c = some index) :
    ∃ p, c.peers[index]? = some p ∧ p.valid = true ∧ p.source = h.source ∧
      p.sessionId = h.sessionId ∧ peerSequenceSeen p h.sequence = true := by
  obtain ⟨hfind, hwindow⟩ := Option.filter_eq_some_iff.mp hseen
  obtain ⟨p, hp, hmatch⟩ := findPeer_found hfind
  rw [List.getD_eq_getElem?_getD, hp] at hwindow
  exact ⟨p, hp, hmatch.1, hmatch.2.1, hmatch.2.2, hwindow⟩

theorem map_set_same {α β : Type} (f : α → β) {l : List α} {index : ℕ} {x y : α}
    (hget : l[index]? = some x) (hsame : f y = f x) : (l.set index y).map f = l.map f := by
  obtain ⟨hlength, hitem⟩ := List.getElem?_eq_some_iff.mp hget
  rw [List.map_set, hsame, ← hitem, ← List.getElem_map f, List.set_getElem_self]
  rwa [List.length_map]

structure Table (peers known : List Peer) : Prop where
  front : ∃ free, peers = known ++ free ∧ ∀ p ∈ free, p.valid = false
  valid : ∀ p ∈ known, p.valid = true
  distinct : (known.map pairOf).Nodup

theorem peerSequenceSeen_window {p : Peer} (hp : p.valid = true) (sequence : UInt32) :
    peerSequenceSeen p sequence = (windowOf p).seen sequence := by
  unfold peerSequenceSeen Window.seen newer windowOf
  simp only [hp, not_true_eq_false, if_false, Bool.and_eq_true, decide_eq_true_iff,
    Bool.decide_or]

theorem markPeerSequence_rest (r : Replies) (p : Peer) (sequence : UInt32) :
    (markPeerSequence r p sequence).valid = p.valid ∧
      pairOf (markPeerSequence r p sequence) = pairOf p := by
  unfold markPeerSequence
  dsimp only
  split_ifs <;> exact ⟨rfl, rfl⟩

theorem markPeerSequence_window (r : Replies) {p : Peer} (hp : p.receivedWindow ≠ 0)
    (sequence : UInt32) :
    windowOf (markPeerSequence r p sequence) = (windowOf p).mark sequence := by
  unfold markPeerSequence Window.mark newer windowOf
  simp only [if_neg hp, Bool.and_eq_true, decide_eq_true_iff]
  split_ifs <;> rfl

theorem markPeerSequence_first (r : Replies) {p : Peer} (hp : p.receivedWindow = 0)
    (sequence : UInt32) : windowOf (markPeerSequence r p sequence) = ⟨sequence, 1⟩ := by
  unfold markPeerSequence windowOf
  simp only [if_pos hp]

theorem represents_bits {base : UInt32} {w : Window} {S : Set ℕ}
    (h : Represents base w S) : w.bits ≠ 0 := by
  intro hzero
  have hnewest : bit w.bits 0 = true := (h.bits 0 (by omega)).mpr ⟨Nat.zero_le _, h.newest⟩
  rw [hzero] at hnewest
  exact absurd hnewest (by decide)

/-- What a peer stands for after an accepted message. -/
theorem represents_markPeer (r : Replies) {base sequence : UInt32} {p : Peer} {S : Set ℕ}
    (h : p.receivedWindow = 0 ∧ S = ∅ ∨ Represents base (windowOf p) S)
    (hs : offset base sequence < 2^31) :
    Represents base (windowOf (markPeerSequence r p sequence))
      (insert (offset base sequence) S) := by
  rcases h with ⟨hwindow, rfl⟩ | h
  · rw [markPeerSequence_first r hwindow, insert_empty_eq]
    exact represents_single hs
  · rw [markPeerSequence_window r (represents_bits h)]
    exact represents_mark h hs

theorem scan_valid (r : Replies) {source : UInt16} {sessionId : UInt32} (allocate : Bool)
    {known : List Peer} (free : List Peer) (hvalid : ∀ p ∈ known, p.valid = true)
    (hmem : (source, sessionId) ∈ known.map pairOf) (start oldest : ℕ) (ms : UInt32) :
    ∃ index, (scanPeers r source sessionId allocate (known ++ free) start oldest ms).1 =
      some (start+index) ∧ ∃ p, known[index]? = some p ∧ pairOf p = (source, sessionId) := by
  induction known generalizing start oldest ms with
  | nil => simp at hmem
  | cons p rest ih =>
    rw [List.cons_append, scanPeers]
    by_cases hpair : pairOf p = (source, sessionId)
    · have hfields : p.valid = true ∧ p.source = source ∧ p.sessionId = sessionId :=
        ⟨hvalid p List.mem_cons_self, Prod.mk.inj hpair⟩
      rw [if_pos hfields]
      exact ⟨0, rfl, p, rfl, hpair⟩
    · have hfields : ¬ (p.valid = true ∧ p.source = source ∧ p.sessionId = sessionId) :=
        fun h => hpair (Prod.ext h.2.1 h.2.2)
      have hrest : (source, sessionId) ∈ rest.map pairOf :=
        (List.mem_cons.mp hmem).resolve_left fun h => hpair h.symm
      have hlater : ∀ o m, ∃ index, (scanPeers r source sessionId allocate (rest ++ free)
          (start+1) o m).1 = some (start+index) ∧
          ∃ q, (p :: rest)[index]? = some q ∧ pairOf q = (source, sessionId) := by
        intro o m
        obtain ⟨index, hscan, hget⟩ := ih (fun q hq => hvalid q (List.mem_cons_of_mem _ hq))
          hrest (start+1) o m
        refine ⟨index+1, ?_, hget⟩
        rw [hscan, Nat.add_right_comm, Nat.add_assoc]
      rw [if_neg hfields, if_neg (by simp [hvalid p List.mem_cons_self])]
      split_ifs
      · exact hlater _ _
      · exact hlater _ _

/-- Past the peers of other pairs the scan goes on in the rest. -/
theorem scan_other (r : Replies) {source : UInt16} {sessionId : UInt32} (allocate : Bool)
    {known : List Peer} (free : List Peer) (hvalid : ∀ p ∈ known, p.valid = true)
    (hmem : (source, sessionId) ∉ known.map pairOf) (start oldest : ℕ) (ms : UInt32) :
    ∃ o m, scanPeers r source sessionId allocate (known ++ free) start oldest ms =
      scanPeers r source sessionId allocate free (start+known.length) o m := by
  induction known generalizing start oldest ms with
  | nil => exact ⟨oldest, ms, rfl⟩
  | cons p rest ih =>
    have hpair : pairOf p ≠ (source, sessionId) := fun h =>
      hmem (h ▸ List.mem_cons_self)
    have hfields : ¬ (p.valid = true ∧ p.source = source ∧ p.sessionId = sessionId) :=
      fun h => hpair (Prod.ext h.2.1 h.2.2)
    have hlater := fun o m => ih (fun q hq => hvalid q (List.mem_cons_of_mem _ hq))
      (fun h => hmem (List.mem_cons_of_mem _ h)) (start+1) o m
    rw [List.cons_append, scanPeers, if_neg hfields,
      if_neg (by simp [hvalid p List.mem_cons_self]), List.length_cons,
      Nat.add_comm rest.length 1, ← Nat.add_assoc]
    split_ifs
    · exact hlater _ _
    · exact hlater _ _

theorem findPeer_known (r : Replies) {source : UInt16} {sessionId : UInt32} {known : List Peer}
    (ht : Table c.peers known) (hmem : (source, sessionId) ∈ known.map pairOf) :
    ∃ index p, findPeer r source sessionId c = some index ∧ c.peers[index]? = some p ∧
      p ∈ known ∧ pairOf p = (source, sessionId) := by
  obtain ⟨free, hpeers, _⟩ := ht.front
  obtain ⟨index, hscan, p, hp, hpair⟩ := scan_valid r false free ht.valid hmem 0 0
    (c.peers.getD 0 emptyPeer).lastSeenMs
  rw [← hpeers, Nat.zero_add] at hscan
  have hget : c.peers[index]? = some p := by
    obtain ⟨hlength, _⟩ := List.getElem?_eq_some_iff.mp hp
    rw [hpeers, List.getElem?_append_left hlength]
    exact hp
  exact ⟨index, p, hscan, hget, List.mem_of_getElem? hp, hpair⟩

/-- Admitting a pair that is in the table marks its peer. -/
theorem admitPeer_known (r : Replies) {source : UInt16} {sessionId : UInt32}
    (sequence : UInt32) {known : List Peer} (ht : Table c.peers known)
    (hmem : (source, sessionId) ∈ known.map pairOf) :
    ∃ index p, known[index]? = some p ∧ pairOf p = (source, sessionId) ∧
      Table (admitPeer r source sessionId sequence c)
        (known.set index (markPeerSequence r p sequence)) := by
  obtain ⟨free, hpeers, hfree⟩ := ht.front
  obtain ⟨index, hscan, p, hp, hpair⟩ := scan_valid r true free ht.valid hmem 0 0
    (c.peers.getD 0 emptyPeer).lastSeenMs
  obtain ⟨hlength, hget⟩ := List.getElem?_eq_some_iff.mp hp
  obtain ⟨hvalid, hsame⟩ := markPeerSequence_rest r p sequence
  rw [← hpeers, Nat.zero_add] at hscan
  have hplaced : admitPeer r source sessionId sequence c =
      known.set index (markPeerSequence r p sequence) ++ free := by
    have hallocate : allocatePeer r source sessionId c = (index, c.peers) := by
      rw [allocatePeer, show scanPeers r source sessionId true c.peers 0 0
        (c.peers.getD 0 emptyPeer).lastSeenMs = (some index, _) from Prod.ext hscan rfl]
    have hpeer : c.peers.getD index emptyPeer = p := by
      rw [List.getD_eq_getElem?_getD, hpeers, List.getElem?_append_left hlength, hp,
        Option.getD_some]
    rw [admitPeer, hallocate]
    dsimp only
    rw [hpeer, hpeers, List.set_append_left _ _ hlength]
  refine ⟨index, p, hp, hpair, ⟨free, hplaced, hfree⟩, ?_, ?_⟩
  · intro q hq
    rcases List.mem_or_eq_of_mem_set hq with hq | rfl
    · exact ht.valid q hq
    · rw [hvalid]
      exact ht.valid p (List.mem_of_getElem? hp)
  · rw [map_set_same pairOf hp hsame]
    exact ht.distinct

/-- Admitting a new pair takes the first free place. -/
theorem admitPeer_new (r : Replies) {source : UInt16} {sessionId : UInt32} (sequence : UInt32)
    {known : List Peer} (ht : Table c.peers known) (hroom : known.length < c.peers.length)
    (hmem : (source, sessionId) ∉ known.map pairOf) :
    Table (admitPeer r source sessionId sequence c)
      (known ++ [markPeerSequence r ⟨source, sessionId, 0, 0, 0, true⟩ sequence]) := by
  obtain ⟨free, hpeers, hfree⟩ := ht.front
  cases free with
  | nil =>
    rw [hpeers, List.append_nil] at hroom
    exact absurd hroom (Nat.lt_irrefl _)
  | cons q rest =>
    obtain ⟨hvalid, hsame⟩ := markPeerSequence_rest r ⟨source, sessionId, 0, 0, 0, true⟩ sequence
    obtain ⟨o, m, hscan⟩ := scan_other r true (q :: rest) ht.valid hmem 0 0
      (c.peers.getD 0 emptyPeer).lastSeenMs
    have hplace : scanPeers r source sessionId true c.peers 0 0
        (c.peers.getD 0 emptyPeer).lastSeenMs = (none, known.length) := by
      have hq := hfree q List.mem_cons_self
      nth_rewrite 1 [hpeers]
      rw [hscan, scanPeers, if_neg (by simp [hq]), if_pos (by simp [hq]), if_pos rfl,
        Nat.zero_add]
    have hplaced : admitPeer r source sessionId sequence c = known ++
        markPeerSequence r ⟨source, sessionId, 0, 0, 0, true⟩ sequence :: rest := by
      rw [admitPeer, allocatePeer, hplace]
      dsimp only
      rw [hpeers, List.set_append_right _ _ le_rfl, Nat.sub_self, List.set_cons_zero,
        List.getD_eq_getElem?_getD, List.getElem?_append_right le_rfl, Nat.sub_self,
        List.getElem?_cons_zero, Option.getD_some, List.set_append_right _ _ le_rfl,
        Nat.sub_self, List.set_cons_zero]
    refine ⟨⟨rest, by rw [hplaced]; simp, fun p hp => hfree p (List.mem_cons_of_mem _ hp)⟩, ?_, ?_⟩
    · intro p hp
      rcases List.mem_append.mp hp with hp | hp
      · exact ht.valid p hp
      · rw [List.mem_singleton.mp hp, hvalid]
    · rw [List.map_append, List.map_singleton, hsame]
      apply ht.distinct.append (List.nodup_singleton _)
      intro pair hpair hnew
      rw [List.mem_singleton.mp hnew] at hpair
      exact hmem hpair

theorem allocatePeer_length (r : Replies) (source : UInt16) (sessionId : UInt32)
    (c : Context κ) : (allocatePeer r source sessionId c).2.length = c.peers.length := by
  unfold allocatePeer
  split
  · rfl
  · exact List.length_set

theorem admitPeer_length (r : Replies) (source : UInt16) (sessionId sequence : UInt32)
    (c : Context κ) : (admitPeer r source sessionId sequence c).length = c.peers.length := by
  rw [admitPeer, List.length_set, allocatePeer_length]

/-- A peer of the new table is an old one, or the one that was marked. -/
theorem admitPeer_mem {r : Replies} {source : UInt16} {sessionId sequence : UInt32} {q : Peer}
    (hq : q ∈ admitPeer r source sessionId sequence c) :
    q ∈ c.peers ∨ ∃ p, q = markPeerSequence r p sequence ∧ pairOf p = (source, sessionId) ∧
      (p ∈ c.peers ∧ p.valid = true ∨ p.receivedWindow = 0) := by
  unfold admitPeer allocatePeer at hq
  cases hscan : scanPeers r source sessionId true c.peers 0 0
      (c.peers.getD 0 emptyPeer).lastSeenMs with
  | mk found oldest =>
    rw [hscan] at hq
    cases found with
    | some index =>
      obtain ⟨_, p, hp, hvalid, hsource, hsession⟩ := scan_found hscan
      rw [Nat.sub_zero] at hp
      dsimp only at hq
      rw [List.getD_eq_getElem?_getD, hp, Option.getD_some] at hq
      rcases List.mem_or_eq_of_mem_set hq with hq | rfl
      · exact Or.inl hq
      · exact Or.inr ⟨p, rfl, Prod.ext hsource hsession,
          Or.inl ⟨List.mem_of_getElem? hp, hvalid⟩⟩
    | none =>
      dsimp only at hq
      rw [List.set_set] at hq
      by_cases hlength : oldest < c.peers.length
      · rw [List.getD_eq_getElem?_getD, List.getElem?_set_self hlength, Option.getD_some] at hq
        rcases List.mem_or_eq_of_mem_set hq with hq | rfl
        · exact Or.inl hq
        · exact Or.inr ⟨_, rfl, rfl, Or.inr rfl⟩
      · rw [List.set_eq_of_length_le (Nat.le_of_not_lt hlength)] at hq
        exact Or.inl hq

/-- The table after a message is accepted: one peer is marked, the others
stay as they are. -/
theorem admitPeer_table (r : Replies) {source : UInt16} {sessionId : UInt32}
    (sequence : UInt32) {known : List Peer} (ht : Table c.peers known)
    (hroom : (source, sessionId) ∉ known.map pairOf → known.length < c.peers.length) :
    ∃ p known', Table (admitPeer r source sessionId sequence c) known' ∧
      pairOf p = (source, sessionId) ∧
      (p ∈ known ∨ p.receivedWindow = 0 ∧ (source, sessionId) ∉ known.map pairOf) ∧
      markPeerSequence r p sequence ∈ known' ∧
      (∀ q ∈ known', q = markPeerSequence r p sequence ∨ q ∈ known) ∧
      ∀ pair ∈ known.map pairOf, pair ∈ known'.map pairOf := by
  by_cases hmem : (source, sessionId) ∈ known.map pairOf
  · obtain ⟨index, p, hp, hpair, htable⟩ := admitPeer_known r sequence ht hmem
    obtain ⟨hlength, hget⟩ := List.getElem?_eq_some_iff.mp hp
    refine ⟨p, _, htable, hpair, Or.inl (List.mem_of_getElem? hp), List.mem_set hlength _, ?_,
      ?_⟩
    · intro q hq
      exact (List.mem_or_eq_of_mem_set hq).symm
    · rw [map_set_same pairOf hp (markPeerSequence_rest r p sequence).2]
      exact fun _ h => h
  · refine ⟨⟨source, sessionId, 0, 0, 0, true⟩, _, admitPeer_new r sequence ht (hroom hmem) hmem,
      rfl, Or.inr ⟨rfl, hmem⟩, by simp, ?_, ?_⟩
    · intro q hq
      rcases List.mem_append.mp hq with hq | hq
      · exact Or.inr hq
      · exact Or.inl (List.mem_singleton.mp hq)
    · intro pair hpair
      rw [List.map_append]
      exact List.mem_append_left _ hpair

/-- Touching a peer changes no more than when it was seen last. -/
theorem touchPeer_table {index : ℕ} (now : UInt32) {p : Peer} {known : List Peer}
    (ht : Table c.peers known) (hget : c.peers[index]? = some p) (hp : p.valid = true) :
    known[index]? = some p ∧
      Table (touchPeer index now c).peers (known.set index { p with lastSeenMs := now }) := by
  obtain ⟨free, hpeers, hfree⟩ := ht.front
  have hlength : index < known.length := by
    by_contra hge
    rw [hpeers, List.getElem?_append_right (Nat.le_of_not_lt hge)] at hget
    rw [hfree p (List.mem_of_getElem? hget)] at hp
    cases hp
  have hknown : known[index]? = some p := by
    rw [hpeers, List.getElem?_append_left hlength] at hget
    exact hget
  refine ⟨hknown, ⟨free, ?_, hfree⟩, ?_, ?_⟩
  · rw [touchPeer, List.getD_eq_getElem?_getD, hget, Option.getD_some, hpeers]
    exact List.set_append_left _ _ hlength
  · intro q hq
    rcases List.mem_or_eq_of_mem_set hq with hq | rfl
    · exact ht.valid q hq
    · exact hp
  · rw [map_set_same (y := { p with lastSeenMs := now }) pairOf hknown rfl]
    exact ht.distinct

end JaszczurHal.LoraPeers
