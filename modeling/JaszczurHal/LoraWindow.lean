import JaszczurHal.LoraPeers

/-!
# The replay window over any run of marks

A sequence number stands for the place nearest to the newest one in an
unbounded count. The window of a peer is the set of marked places among the
last 32, however long the run is and wherever the 32-bit numbers wrap.
-/

set_option autoImplicit false

namespace JaszczurHal.LoraWindow
open LoraLink LoraPeers SerialWindow

def numberOf (place : ℤ) : UInt32 := UInt32.ofNat (place%2^32).toNat

def placeOf (newest : ℤ) (sequence : UInt32) : ℤ :=
  newest+((sequence.toNat-newest+2^31)%2^32-2^31)

structure Marks where
  newest : ℤ
  places : List ℤ
  deriving DecidableEq, Repr

def Marks.add (m : Marks) (sequence : UInt32) : Marks :=
  ⟨max m.newest (placeOf m.newest sequence), placeOf m.newest sequence :: m.places⟩

def marksOf : List UInt32 → Marks
  | [] => ⟨0, []⟩
  | sequence :: rest => rest.foldl Marks.add ⟨sequence.toNat, [sequence.toNat]⟩

def markSequences (p : Peer) (marks : List (Replies × UInt32)) : Peer :=
  marks.foldl (fun p mark => markPeerSequence mark.1 p mark.2) p

def newPeer (source : UInt16) (sessionId : UInt32) : Peer := ⟨source, sessionId, 0, 0, 0, true⟩

variable {newest place : ℤ} {sequence : UInt32}

theorem numberOf_toNat (place : ℤ) : ((numberOf place).toNat : ℤ) = place%2^32 := by
  have hrange : (place%2^32).toNat < 2^32 := by omega
  rw [numberOf, UInt32.toNat_ofNat_of_lt' hrange]
  omega

theorem numberOf_eq_iff : numberOf place = sequence ↔ place%2^32 = sequence.toNat := by
  rw [← UInt32.toNat_inj, ← numberOf_toNat]
  omega

theorem placeOf_range (newest : ℤ) (sequence : UInt32) :
    newest-2^31 ≤ placeOf newest sequence ∧ placeOf newest sequence < newest+2^31 := by
  unfold placeOf
  omega

theorem numberOf_placeOf (newest : ℤ) (sequence : UInt32) :
    numberOf (placeOf newest sequence) = sequence := by
  have hsequence := sequence.toNat_lt
  rw [numberOf_eq_iff, placeOf]
  omega

/-- A place within reach of the newest is found from its number. -/
theorem placeOf_numberOf (hlow : newest-2^31 ≤ place) (hhigh : place < newest+2^31) :
    placeOf newest (numberOf place) = place := by
  have hnumber := numberOf_toNat place
  unfold placeOf
  omega

theorem numberOf_toNat_self (sequence : UInt32) : numberOf sequence.toNat = sequence := by
  have hsequence := sequence.toNat_lt
  rw [numberOf_eq_iff]
  omega

theorem ahead_toNat (h : newest < placeOf newest sequence) :
    ((sequence-numberOf newest).toNat : ℤ) = placeOf newest sequence-newest := by
  have hsequence := sequence.toNat_lt
  have hnumber := numberOf_toNat newest
  rw [UInt32.toNat_sub]
  unfold placeOf at h ⊢
  omega

theorem behind_toNat (h : placeOf newest sequence ≤ newest) :
    ((numberOf newest-sequence).toNat : ℤ) = newest-placeOf newest sequence := by
  have hsequence := sequence.toNat_lt
  have hnumber := numberOf_toNat newest
  rw [UInt32.toNat_sub]
  unfold placeOf at h ⊢
  omega

theorem newer_iff_place :
    newer sequence (numberOf newest) = true ↔ newest < placeOf newest sequence := by
  have hhalf : (0x80000000 : UInt32).toNat = 2^31 := rfl
  have hzero : (0 : UInt32).toNat = 0 := rfl
  rw [newer, Bool.and_eq_true, decide_eq_true_iff, decide_eq_true_iff, ← UInt32.toNat_inj.ne,
    UInt32.lt_iff_toNat_lt, hhalf, hzero]
  by_cases h : newest < placeOf newest sequence
  · have hahead := ahead_toNat h
    have hrange := placeOf_range newest sequence
    omega
  · have hsequence := sequence.toNat_lt
    have hnumber := numberOf_toNat newest
    rw [UInt32.toNat_sub]
    unfold placeOf at h ⊢
    omega

structure Covers (w : Window) (m : Marks) : Prop where
  newest : w.newest = numberOf m.newest
  upTo : ∀ n ∈ m.places, n ≤ m.newest
  bits : ∀ d : ℕ, d < 32 → (bit w.bits d = true ↔ m.newest-d ∈ m.places)

variable {w : Window} {m : Marks}

/-- A number is taken as seen when its place is marked or older than the
window. -/
theorem covers_seen (h : Covers w m) (sequence : UInt32) : w.seen sequence = true ↔
    placeOf m.newest sequence ∈ m.places ∨ placeOf m.newest sequence ≤ m.newest-32 := by
  have hnewer : newer sequence w.newest = true ↔ m.newest < placeOf m.newest sequence := by
    rw [h.newest]
    exact newer_iff_place
  rw [Window.seen]
  by_cases hlt : m.newest < placeOf m.newest sequence
  · rw [if_pos (hnewer.mpr hlt)]
    constructor
    · rintro ⟨⟩
    · rintro (hmem | hold)
      · have := h.upTo _ hmem
        omega
      · omega
  · have hdelta := behind_toNat (not_lt.mp hlt)
    rw [← h.newest] at hdelta
    rw [if_neg (by rw [hnewer]; exact hlt), Bool.or_eq_true, decide_eq_true_iff,
      decide_eq_true_iff, UInt32.le_iff_toNat_le, show (32 : UInt32).toNat = 32 from rfl]
    by_cases hfar : placeOf m.newest sequence ≤ m.newest-32
    · exact ⟨fun _ => Or.inr hfar, fun _ => Or.inl (by omega)⟩
    · have hback : m.newest-((w.newest-sequence).toNat : ℤ) = placeOf m.newest sequence := by omega
      rw [and_bit _ _ (by omega), h.bits _ (by omega), hback]
      constructor
      · rintro (hbad | hmem)
        · omega
        · exact Or.inl hmem
      · rintro (hmem | hbad)
        · exact Or.inr hmem
        · omega

/-- A mark past the newest shifts the window, or empties it when it jumps 32
places or more. -/
theorem covers_mark_ahead (h : Covers w m) (hlt : m.newest < placeOf m.newest sequence) :
    Covers (w.mark sequence) (m.add sequence) := by
  have hnewer : newer sequence w.newest = true := by
    rw [h.newest]
    exact newer_iff_place.mpr hlt
  have hdelta := ahead_toNat hlt
  rw [← h.newest] at hdelta
  have hadd : m.add sequence =
      ⟨placeOf m.newest sequence, placeOf m.newest sequence :: m.places⟩ := by
    rw [Marks.add, max_eq_right hlt.le]
  rw [Window.mark, if_pos hnewer, hadd]
  refine ⟨(numberOf_placeOf m.newest sequence).symm, ?_, fun d hd => ?_⟩
  · intro n hn
    rcases List.mem_cons.mp hn with rfl | hn
    · exact le_rfl
    · exact (h.upTo n hn).trans hlt.le
  · dsimp only
    rw [List.mem_cons]
    by_cases hfar : 32 ≤ sequence-w.newest
    · have hfar' := UInt32.le_iff_toNat_le.mp hfar
      have hone : bit 1 d = decide (0 = d) := Nat.testBit_two_pow (n := 0)
      rw [show (32 : UInt32).toNat = 32 from rfl] at hfar'
      rw [if_pos hfar, hone, decide_eq_true_iff]
      constructor
      · rintro rfl
        exact Or.inl (by omega)
      · rintro (heq | hmem)
        · omega
        · have := h.upTo _ hmem
          omega
    · have hnear := UInt32.lt_iff_toNat_lt.mp (UInt32.not_le.mp hfar)
      rw [show (32 : UInt32).toNat = 32 from rfl] at hnear
      rw [if_neg hfar, shift_bit _ _ hnear _ hd]
      simp only [Bool.or_eq_true, Bool.and_eq_true, decide_eq_true_iff]
      rw [h.bits _ (by omega)]
      constructor
      · rintro (rfl | ⟨hle, hmem⟩)
        · exact Or.inl (by omega)
        · have hsame : m.newest-((d-(sequence-w.newest).toNat : ℕ) : ℤ) =
              placeOf m.newest sequence-d := by omega
          exact Or.inr (hsame ▸ hmem)
      · rintro (heq | hmem)
        · exact Or.inl (by omega)
        · have hold := h.upTo _ hmem
          have hsame : m.newest-((d-(sequence-w.newest).toNat : ℕ) : ℤ) =
              placeOf m.newest sequence-d := by omega
          exact Or.inr ⟨by omega, hsame ▸ hmem⟩

/-- A mark up to the newest sets its bit, or none when it is 32 places or more
behind. -/
theorem covers_mark_behind (h : Covers w m) (hle : placeOf m.newest sequence ≤ m.newest) :
    Covers (w.mark sequence) (m.add sequence) := by
  have hnewer : ¬ newer sequence w.newest = true := by
    rw [h.newest, newer_iff_place]
    exact not_lt.mpr hle
  have hdelta := behind_toNat hle
  rw [← h.newest] at hdelta
  have hadd : m.add sequence = ⟨m.newest, placeOf m.newest sequence :: m.places⟩ := by
    rw [Marks.add, max_eq_left hle]
  have hupTo : ∀ n ∈ placeOf m.newest sequence :: m.places, n ≤ m.newest := by
    intro n hn
    rcases List.mem_cons.mp hn with rfl | hn
    · exact hle
    · exact h.upTo n hn
  rw [Window.mark, if_neg hnewer, hadd]
  by_cases hnear : w.newest-sequence < 32
  · have hnear' := UInt32.lt_iff_toNat_lt.mp hnear
    rw [show (32 : UInt32).toNat = 32 from rfl] at hnear'
    rw [if_pos hnear]
    refine ⟨h.newest, hupTo, fun d hd => ?_⟩
    dsimp only
    rw [or_bit _ _ hnear', Bool.or_eq_true, h.bits d hd, decide_eq_true_iff, List.mem_cons]
    constructor
    · rintro (hmem | heq)
      · exact Or.inr hmem
      · exact Or.inl (by omega)
    · rintro (heq | hmem)
      · exact Or.inr (by omega)
      · exact Or.inl hmem
  · have hfar := UInt32.le_iff_toNat_le.mp (UInt32.not_lt.mp hnear)
    rw [show (32 : UInt32).toNat = 32 from rfl] at hfar
    rw [if_neg hnear]
    refine ⟨h.newest, hupTo, fun d hd => ?_⟩
    dsimp only
    rw [h.bits d hd, List.mem_cons]
    constructor
    · exact Or.inr
    · rintro (heq | hmem)
      · omega
      · exact hmem

theorem covers_mark (h : Covers w m) (sequence : UInt32) :
    Covers (w.mark sequence) (m.add sequence) := by
  rcases lt_or_ge m.newest (placeOf m.newest sequence) with hlt | hle
  · exact covers_mark_ahead h hlt
  · exact covers_mark_behind h hle

theorem covers_single (sequence : UInt32) :
    Covers ⟨sequence, 1⟩ ⟨sequence.toNat, [(sequence.toNat : ℤ)]⟩ := by
  refine ⟨(numberOf_toNat_self sequence).symm, fun n hn => ?_, fun d _ => ?_⟩
  · rw [List.mem_singleton.mp hn]
  · have hone : bit 1 d = decide (0 = d) := Nat.testBit_two_pow (n := 0)
    dsimp only
    rw [hone, decide_eq_true_iff, List.mem_singleton]
    omega

/-- The newest place of a window in use is marked, so the window is not zero. -/
theorem covers_bits (h : Covers w m) (hnewest : m.newest ∈ m.places) : w.bits ≠ 0 := by
  intro hzero
  have hbit : bit w.bits 0 = true := (h.bits 0 (by omega)).mpr (by simpa using hnewest)
  rw [hzero] at hbit
  exact absurd hbit (by decide)

theorem add_newest_mem (h : m.newest ∈ m.places) (sequence : UInt32) :
    (m.add sequence).newest ∈ (m.add sequence).places := by
  rw [Marks.add]
  dsimp only
  rcases max_choice m.newest (placeOf m.newest sequence) with hmax | hmax
  · rw [hmax]
    exact List.mem_cons_of_mem _ h
  · rw [hmax]
    exact List.mem_cons_self

/-- Marks on a window in use keep it in step with the places. -/
theorem covers_run (marks : List (Replies × UInt32)) {p : Peer} (h : Covers (windowOf p) m)
    (hnewest : m.newest ∈ m.places) :
    Covers (windowOf (markSequences p marks)) ((marks.map Prod.snd).foldl Marks.add m) := by
  induction marks generalizing p m with
  | nil => exact h
  | cons mark rest ih =>
    apply ih
    · rw [markPeerSequence_window _ (covers_bits h hnewest)]
      exact covers_mark h mark.2
    · exact add_newest_mem hnewest mark.2

theorem covers_sequences (source : UInt16) (sessionId : UInt32)
    (marks : List (Replies × UInt32)) :
    Covers (windowOf (markSequences (newPeer source sessionId) marks))
      (marksOf (marks.map Prod.snd)) := by
  cases marks with
  | nil =>
    refine ⟨rfl, fun n hn => absurd hn List.not_mem_nil, fun d _ => ?_⟩
    have hzero : bit 0 d = false := Nat.zero_testBit d
    show bit 0 d = true ↔ _
    rw [hzero]
    exact ⟨nofun, fun hmem => absurd hmem List.not_mem_nil⟩
  | cons mark rest =>
    have hfirst : Covers (windowOf (markPeerSequence mark.1 (newPeer source sessionId) mark.2))
        ⟨mark.2.toNat, [(mark.2.toNat : ℤ)]⟩ := by
      rw [markPeerSequence_first _ rfl]
      exact covers_single mark.2
    exact covers_run rest hfirst (List.mem_singleton_self _)

theorem markSequences_valid (marks : List (Replies × UInt32)) {p : Peer} (h : p.valid = true) :
    (markSequences p marks).valid = true := by
  induction marks generalizing p with
  | nil => exact h
  | cons mark rest ih =>
    apply ih
    rw [(markPeerSequence_rest mark.1 p mark.2).1]
    exact h

theorem foldl_places (sequences : List UInt32) (m : Marks) :
    (sequences.foldl Marks.add m).places.map numberOf =
      sequences.reverse ++ m.places.map numberOf := by
  induction sequences generalizing m with
  | nil => rfl
  | cons sequence rest ih =>
    rw [List.foldl_cons, ih, Marks.add, List.map_cons, numberOf_placeOf, List.reverse_cons,
      List.append_assoc, List.singleton_append]

/-- The places that are kept have the numbers that were marked. -/
theorem marksOf_numbers (sequences : List UInt32) :
    (marksOf sequences).places.map numberOf = sequences.reverse := by
  cases sequences with
  | nil => rfl
  | cons sequence rest =>
    rw [marksOf, foldl_places, List.map_singleton, numberOf_toNat_self, List.reverse_cons]

/-- After any run of marks the window is the set of marked places among the
last 32 up to the newest. A marked place is seen for as long as its number is
not taken for a later one, and no number of the last 32 places or newer that
was not marked is seen. -/
theorem window_exact (source : UInt16) (sessionId : UInt32) (marks : List (Replies × UInt32)) :
    let p := markSequences (newPeer source sessionId) marks
    let m := marksOf (marks.map Prod.snd)
    p.newestSequence = numberOf m.newest ∧ (∀ n ∈ m.places, n ≤ m.newest) ∧
    m.places.map numberOf = (marks.map Prod.snd).reverse ∧
    (∀ d : ℕ, d < 32 → (p.receivedWindow.toNat.testBit d = true ↔ m.newest-d ∈ m.places)) ∧
    (∀ place ∈ m.places, m.newest ≤ place+2^31 →
      peerSequenceSeen p (numberOf place) = true) ∧
    (∀ sequence, sequence ∉ marks.map Prod.snd → m.newest-32 < placeOf m.newest sequence →
      peerSequenceSeen p sequence = false) ∧
    ∀ sequence, peerSequenceSeen p sequence = true ↔
      placeOf m.newest sequence ∈ m.places ∨ placeOf m.newest sequence ≤ m.newest-32 := by
  intro p m
  have hcovers : Covers (windowOf p) m := covers_sequences source sessionId marks
  have hnumbers : m.places.map numberOf = (marks.map Prod.snd).reverse :=
    marksOf_numbers _
  have hseen : ∀ sequence, peerSequenceSeen p sequence = true ↔
      placeOf m.newest sequence ∈ m.places ∨ placeOf m.newest sequence ≤ m.newest-32 := by
    intro sequence
    rw [peerSequenceSeen_window (markSequences_valid marks rfl)]
    exact covers_seen hcovers sequence
  refine ⟨hcovers.newest, hcovers.upTo, hnumbers, hcovers.bits, ?_, ?_, hseen⟩
  · intro place hplace hreach
    have hupTo := hcovers.upTo place hplace
    rw [hseen, placeOf_numberOf (by omega) (by omega)]
    exact Or.inl hplace
  · intro sequence hnew hrange
    rw [Bool.eq_false_iff]
    intro hbad
    rcases (hseen sequence).mp hbad with hmem | hold
    · apply hnew
      rw [← List.mem_reverse, ← hnumbers, ← numberOf_placeOf m.newest sequence]
      exact List.mem_map_of_mem hmem
    · omega

/-- Three marks, each less than `2^31` after the one before, pass the first by
more than `2^31`: its number is accepted again, and once it is the fourth back
in the window its bit is not set. -/
theorem number_accepted_again :
    peerSequenceSeen (markSequences (newPeer 7 1)
      [(silentRadio, 0), (silentRadio, 0x7FFFFFFF), (silentRadio, 0xFFFFFFFE)]) 0 = false ∧
    (markSequences (newPeer 7 1) [(silentRadio, 0), (silentRadio, 0x7FFFFFFF),
      (silentRadio, 0xFFFFFFFE), (silentRadio, 3)]).newestSequence = 3 ∧
    (markSequences (newPeer 7 1) [(silentRadio, 0), (silentRadio, 0x7FFFFFFF),
      (silentRadio, 0xFFFFFFFE), (silentRadio, 3)]).receivedWindow = 0x21 := by
  decide +kernel

end JaszczurHal.LoraWindow
