import JaszczurHal.BtClassic

/-!
# Bonded peers and their records

A peer is saved in the storage slot that belongs to its table entry. The table
and the storage stay in step as long as a free entry stands for a free slot.
-/

set_option autoImplicit false

namespace JaszczurHal.BtBonds
open HalStatus HalCrc ByteImage BondCodec BtClassic

/-- The manager, the slots of its provider, and the addresses that were
forgotten and not saved since. -/
structure World where
  classic : Classic
  storage : Storage
  forgotten : List Address

inductive BondCall where
  | openWith (a : OpenAnswers)
  | close (stop : Status)
  | event (e : BackendEvent)
  | authorize (reply : Status)
  | save (address : Address) (profileId : UInt16)
  | flush (store restore : Status)
  | forget (address : Address) (erase backend : Status)

def authorize (c : Classic) (reply : Status) : Classic × Status :=
  match c.pairing with
  | none => (c, if c.opened then .estate else .euninit)
  | some address =>
    if (beginOperation c).2 ≠ .ok then beginOperation c
    else if reply = .ok then (recordApproval c address, .ok)
    else (c, reply)

def flushStorage (s : Storage) (job : FlushJob) (store : Status) : Storage :=
  if job.providerEnabled then
    match job.record with
    | .ok blob => storeRecord s job.storageIndex blob store
    | .error _ => s
  else s

def flush (w : World) (store restore : Status) : World × Status :=
  match flushBegin w.classic with
  | (c, .error status) => ({ w with classic := c }, status)
  | (c, .ok none) => ({ w with classic := c }, .ok)
  | (c, .ok (some job)) =>
    let status := job.outcome store restore
    ({ classic := flushEnd c job status
       storage := flushStorage w.storage job store
       forgotten := if status = .ok then w.forgotten.filter fun a => a ≠ job.identity.address
        else w.forgotten }, status)

def step (maxPeers : ℕ) (w : World) : BondCall → World × Status
  | .openWith a =>
    let opened := openWith maxPeers w.classic w.storage a
    ({ w with classic := opened.1 }, opened.2)
  | .close stop =>
    let closed := close maxPeers w.classic stop
    ({ w with classic := closed.1 }, closed.2)
  | .event e => ({ w with classic := backendEvent w.classic e }, .ok)
  | .authorize reply =>
    let approved := authorize w.classic reply
    ({ w with classic := approved.1 }, approved.2)
  | .save address profileId =>
    let saved := peerSave w.classic address profileId
    ({ w with classic := saved.1 }, saved.2)
  | .flush store restore => flush w store restore
  | .forget address erase backend =>
    let done := peerForget w.classic w.storage address erase backend
    ({ classic := done.1.1
       storage := done.1.2
       forgotten := if done.2 = .ok then address :: w.forgotten else w.forgotten }, done.2)

def run (maxPeers : ℕ) (w : World) (calls : List BondCall) : World :=
  calls.foldl (fun w c => (step maxPeers w c).1) w

def decodesAt (s : Storage) (index : ℕ) : Option Identity :=
  match s[index]? with
  | some (some blob) => (bondDecode blob).toOption
  | _ => none

def Distinct {α : Type} (key : PeerSlot → α) (peers : List PeerSlot) : Prop :=
  ∀ (i j : ℕ) (a b : PeerSlot), peers[i]? = some a → peers[j]? = some b → a.used = true →
    b.used = true → key a = key b → i = j

structure Sound (w : World) : Prop where
  addresses : Distinct (fun p => p.identity.address) w.classic.peers
  indexes : Distinct (fun p => p.storageIndex) w.classic.peers
  bounded : ∀ p ∈ w.classic.peers, p.used = true → p.storageIndex < w.storage.length
  stored : ∀ p ∈ w.classic.peers, p.used = true →
    decodesAt w.storage p.storageIndex = some p.identity
  gone : ∀ p ∈ w.classic.peers, p.used = true → p.identity.address ∉ w.forgotten

/-- A flush that saved something leaves every other peer and its record alone,
the oldest one excepted when no entry was free. -/
def Spared (before after : World) : Prop :=
  ∀ c job, flushBegin before.classic = (c, .ok (some job)) →
    ∀ (i : ℕ) (p : PeerSlot), before.classic.peers[i]? = some p → p.used = true →
      p.identity.address ≠ job.identity.address →
      (after.classic.peers[i]? = some p ∧
        decodesAt after.storage p.storageIndex = decodesAt before.storage p.storageIndex) ∨
      ((∀ q ∈ before.classic.peers, q.used = true) ∧
        ∀ q ∈ before.classic.peers, p.identity.sequence ≤ q.identity.sequence)

def Unrepeated (s : Storage) : Prop :=
  ∀ i j a b, decodesAt s i = some a → decodesAt s j = some b → a.address = b.address → i = j

/-- A new peer in a free entry finds the slot of that number within the
capacity and used by no other peer; and a record that was stored is restored. -/
def Clean (w : World) : BondCall → Prop
  | .flush store restore =>
    ∀ c job, flushBegin w.classic = (c, .ok (some job)) →
      (∀ i, findPeer w.classic.peers job.identity.address = none →
        (w.classic.peers.findIdx? fun p => !p.used) = some i →
        i < w.storage.length ∧ ∀ p ∈ w.classic.peers, p.used = true → p.storageIndex ≠ i) ∧
      ∀ blob, job.record = .ok blob → store = .ok → restore = .ok
  | _ => True

def AllClean (maxPeers : ℕ) (w : World) : List BondCall → Prop
  | [] => True
  | c :: calls => Clean w c ∧ AllClean maxPeers (step maxPeers w c).1 calls

structure Passed (address : Address) (before : List PeerSlot) (empty : Option ℕ)
    (oldest : Option (ℕ × PeerSlot)) : Prop where
  strangers : ∀ p ∈ before, p.holds address = false
  free : ∀ e, empty = some e → (before.findIdx? fun p => !p.used) = some e
  full : empty = none → ∀ p ∈ before, p.used = true
  eldest : ∀ (o : ℕ) (p : PeerSlot), oldest = some (o, p) → before[o]? = some p ∧ p.used = true ∧
    ∀ q ∈ before, q.used = true → p.identity.sequence ≤ q.identity.sequence
  young : oldest = none → ∀ p ∈ before, p.used = false

inductive Chosen (address : Address) (peers : List PeerSlot) : ℕ → ℕ → Prop where
  | known (i : ℕ) (p : PeerSlot) (entry : peers[i]? = some p) (holds : p.holds address = true) :
      Chosen address peers i p.storageIndex
  | free (i : ℕ) (strangers : ∀ p ∈ peers, p.holds address = false)
      (entry : (peers.findIdx? fun p => !p.used) = some i) : Chosen address peers i i
  | evicted (i : ℕ) (p : PeerSlot) (entry : peers[i]? = some p)
      (strangers : ∀ p ∈ peers, p.holds address = false) (full : ∀ p ∈ peers, p.used = true)
      (eldest : ∀ q ∈ peers, p.identity.sequence ≤ q.identity.sequence) :
      Chosen address peers i p.storageIndex

section
variable {address : Address} {before : List PeerSlot} {slot : PeerSlot} {empty : Option ℕ}
  {oldest : Option (ℕ × PeerSlot)}

theorem Passed.strangers_snoc (h : Passed address before empty oldest)
    (hholds : slot.holds address = false) : ∀ p ∈ before ++ [slot], p.holds address = false := by
  intro p hp
  rcases List.mem_append.mp hp with hp | hp
  · exact h.strangers p hp
  · rw [List.mem_singleton.mp hp]
    exact hholds

theorem Passed.free_snoc (h : Passed address before empty oldest) {e : ℕ} (he : empty = some e) :
    ((before ++ [slot]).findIdx? fun p => !p.used) = some e := by
  rw [List.findIdx?_append, h.free e he]
  rfl

theorem Passed.entry_snoc (h : Passed address before empty oldest) {o : ℕ} {p : PeerSlot}
    (ho : oldest = some (o, p)) : (before ++ [slot])[o]? = some p := by
  obtain ⟨hentry, _, _⟩ := h.eldest o p ho
  rw [List.getElem?_append_left (List.getElem?_eq_some_iff.mp hentry).1]
  exact hentry

theorem Passed.snoc_free (h : Passed address before none oldest)
    (hholds : slot.holds address = false) (hunused : slot.used = false) :
    Passed address (before ++ [slot]) (some before.length) oldest := by
  refine ⟨h.strangers_snoc hholds, ?_, nofun, ?_, ?_⟩
  · intro e he
    obtain rfl := Option.some.inj he
    have hnone : (before.findIdx? fun p => !p.used) = none := by
      rw [List.findIdx?_eq_none_iff]
      intro p hp
      rw [h.full rfl p hp]
      rfl
    rw [List.findIdx?_append, hnone]
    simp [hunused]
  · intro o p holdest
    obtain ⟨_, hused, heldest⟩ := h.eldest o p holdest
    refine ⟨h.entry_snoc holdest, hused, fun q hq hqused => ?_⟩
    rcases List.mem_append.mp hq with hq | hq
    · exact heldest q hq hqused
    · rw [List.mem_singleton.mp hq, hunused] at hqused
      cases hqused
  · intro holdest p hp
    rcases List.mem_append.mp hp with hp | hp
    · exact h.young holdest p hp
    · rw [List.mem_singleton.mp hp]
      exact hunused

theorem Passed.snoc_oldest (h : Passed address before empty oldest)
    (hholds : slot.holds address = false) (hused : slot.used = true)
    (hall : (oldest.all fun o => slot.identity.sequence < o.2.identity.sequence) = true) :
    Passed address (before ++ [slot]) empty (some (before.length, slot)) := by
  refine ⟨h.strangers_snoc hholds, fun _ => h.free_snoc, ?_, ?_, nofun⟩
  · intro hnone p hp
    rcases List.mem_append.mp hp with hp | hp
    · exact h.full hnone p hp
    · rw [List.mem_singleton.mp hp]
      exact hused
  · intro o p holdest
    obtain ⟨rfl, rfl⟩ := Prod.mk.inj (Option.some.inj holdest)
    refine ⟨by simp, hused, fun q hq hqused => ?_⟩
    rcases List.mem_append.mp hq with hq | hq
    · cases hold : oldest with
      | none =>
        rw [h.young hold q hq] at hqused
        cases hqused
      | some o =>
        rw [hold] at hall
        have hless : slot.identity.sequence < o.2.identity.sequence := by simpa using hall
        obtain ⟨_, _, heldest⟩ := h.eldest o.1 o.2 hold
        exact UInt32.le_trans (UInt32.le_of_lt hless) (heldest q hq hqused)
    · rw [List.mem_singleton.mp hq]
      exact UInt32.le_refl _

/-- A later free entry, or a peer that is not older than the oldest one. -/
theorem Passed.snoc_other (h : Passed address before empty oldest)
    (hholds : slot.holds address = false) (hempty : ¬ (slot.used = false ∧ empty = none))
    (hyounger : ¬ (slot.used = true ∧
      (oldest.all fun o => slot.identity.sequence < o.2.identity.sequence) = true)) :
    Passed address (before ++ [slot]) empty oldest := by
  refine ⟨h.strangers_snoc hholds, fun _ => h.free_snoc, ?_, ?_, ?_⟩
  · intro hnone p hp
    rcases List.mem_append.mp hp with hp | hp
    · exact h.full hnone p hp
    · rw [List.mem_singleton.mp hp]
      simpa [hnone] using hempty
  · intro o p holdest
    obtain ⟨_, hused, heldest⟩ := h.eldest o p holdest
    refine ⟨h.entry_snoc holdest, hused, fun q hq hqused => ?_⟩
    rcases List.mem_append.mp hq with hq | hq
    · exact heldest q hq hqused
    · rw [List.mem_singleton.mp hq] at hqused ⊢
      rw [holdest] at hyounger
      simpa [hqused] using hyounger
  · intro hnone p hp
    rcases List.mem_append.mp hp with hp | hp
    · exact h.young hnone p hp
    · rw [List.mem_singleton.mp hp]
      simpa [hnone] using hyounger

theorem Passed.chosen (h : Passed address before empty oldest) {i index : ℕ}
    (hselect : selectFrom address [] before.length empty oldest = some (i, index)) :
    Chosen address before i index := by
  cases empty with
  | some e =>
    obtain ⟨rfl, rfl⟩ := Prod.mk.inj (Option.some.inj hselect)
    exact .free e h.strangers (h.free e rfl)
  | none =>
    cases oldest with
    | none => cases hselect
    | some o =>
      obtain ⟨rfl, rfl⟩ := Prod.mk.inj (Option.some.inj hselect)
      obtain ⟨hentry, _, heldest⟩ := h.eldest o.1 o.2 rfl
      have hfull := h.full rfl
      exact .evicted o.1 o.2 hentry h.strangers hfull fun q hq => heldest q hq (hfull q hq)

end

theorem selectFrom_chosen {address : Address} {before rest : List PeerSlot} {empty : Option ℕ}
    {oldest : Option (ℕ × PeerSlot)} (h : Passed address before empty oldest) {i index : ℕ}
    (hselect : selectFrom address rest before.length empty oldest = some (i, index)) :
    Chosen address (before ++ rest) i index := by
  induction rest generalizing before empty oldest with
  | nil =>
    rw [List.append_nil]
    exact h.chosen hselect
  | cons slot rest ih =>
    have hsplit : before ++ slot :: rest = (before ++ [slot]) ++ rest := by simp
    have hlength : (before ++ [slot]).length = before.length+1 := by simp
    rw [selectFrom] at hselect
    by_cases hholds : slot.holds address = true
    · rw [if_pos hholds] at hselect
      obtain ⟨rfl, rfl⟩ := Prod.mk.inj (Option.some.inj hselect)
      exact .known _ slot (by simp) hholds
    rw [if_neg hholds] at hselect
    rw [Bool.not_eq_true] at hholds
    rw [hsplit]
    by_cases hempty : slot.used = false ∧ empty = none
    · obtain ⟨hunused, rfl⟩ := hempty
      rw [if_pos ⟨hunused, rfl⟩, ← hlength] at hselect
      exact ih (h.snoc_free hholds hunused) hselect
    rw [if_neg hempty] at hselect
    by_cases hyounger : slot.used = true ∧
        (oldest.all fun o => slot.identity.sequence < o.2.identity.sequence) = true
    · rw [if_pos hyounger, ← hlength] at hselect
      exact ih (h.snoc_oldest hholds hyounger.1 hyounger.2) hselect
    · rw [if_neg hyounger, ← hlength] at hselect
      exact ih (h.snoc_other hholds hempty hyounger) hselect

theorem selectPeerSlot_chosen {address : Address} {peers : List PeerSlot} {i index : ℕ}
    (h : selectPeerSlot peers address = some (i, index)) : Chosen address peers i index := by
  have hstart : Passed address [] none none := by
    refine ⟨?_, ?_, ?_, ?_, ?_⟩
    · intro p hp
      cases hp
    · intro e he
      cases he
    · intro _ p hp
      cases hp
    · intro o p ho
      cases ho
    · intro _ p hp
      cases hp
  exact selectFrom_chosen hstart h

theorem decodesAt_stored {s : Storage} {index : ℕ} {blob : List UInt8} {identity : Identity}
    (h : index < s.length) (hblob : bondDecode blob = .ok identity) :
    decodesAt (s.set index (some blob)) index = some identity := by
  rw [decodesAt, List.getElem?_set_self h]
  show (bondDecode blob).toOption = some identity
  rw [hblob]
  rfl

theorem decodesAt_other {s : Storage} {i j : ℕ} (value : Option (List UInt8)) (h : i ≠ j) :
    decodesAt (s.set i value) j = decodesAt s j := by
  rw [decodesAt, List.getElem?_set_ne h]
  rfl

theorem decodesAt_erased (s : Storage) (index : ℕ) : decodesAt (s.set index none) index = none := by
  rw [decodesAt]
  by_cases h : index < s.length
  · rw [List.getElem?_set_self h]
  · rw [List.getElem?_eq_none (by rw [List.length_set]; omega)]

theorem decodesAt_lt {s : Storage} {index : ℕ} {identity : Identity}
    (h : decodesAt s index = some identity) : index < s.length := by
  by_contra hlarge
  rw [decodesAt, List.getElem?_eq_none (by omega)] at h
  cases h

theorem mem_updated {peers : List PeerSlot} {i : ℕ} {new p : PeerSlot} (h : p ∈ peers.set i new) :
    p = new ∨ ∃ j, j ≠ i ∧ peers[j]? = some p := by
  obtain ⟨j, hj⟩ := List.mem_iff_getElem?.mp h
  by_cases hsame : i = j
  · subst hsame
    left
    rw [List.getElem?_set] at hj
    simp only [if_true] at hj
    split at hj
    · exact (Option.some.inj hj).symm
    · cases hj
  · rw [List.getElem?_set_ne hsame] at hj
    exact Or.inr ⟨j, Ne.symm hsame, hj⟩

structure InStep (peers : List PeerSlot) (s : Storage) : Prop where
  indexes : Distinct (fun p => p.storageIndex) peers
  stored : ∀ p ∈ peers, p.used = true → decodesAt s p.storageIndex = some p.identity
  known : ∀ i x, decodesAt s i = some x → ∃ p ∈ peers, p.used = true ∧ p.storageIndex = i

structure Room (peers : List PeerSlot) (s : Storage) (address : Address) (i index : ℕ) : Prop where
  entry : i < peers.length
  slot : index < s.length
  others : ∀ (j : ℕ) (p : PeerSlot), j ≠ i → peers[j]? = some p → p.used = true →
    p.storageIndex ≠ index
  own : ∀ (p : PeerSlot), peers[i]? = some p → p.used = true → p.storageIndex = index
  fresh : ∀ k x, k ≠ index → decodesAt s k = some x → x.address ≠ address

theorem inStep_saved {peers : List PeerSlot} {s : Storage} {identity : Identity} {i index : ℕ}
    {blob : List UInt8} (h : InStep peers s) (hroom : Room peers s identity.address i index)
    (hblob : bondDecode blob = .ok identity) :
    InStep (peers.set i ⟨identity, index, true⟩) (s.set index (some blob)) where
  indexes := by
    intro j k a b hj hk ha hb hab
    by_cases hji : i = j
    · by_cases hki : i = k
      · rw [← hji, ← hki]
      · rw [← hji, List.getElem?_set_self hroom.entry] at hj
        rw [List.getElem?_set_ne hki] at hk
        obtain rfl := Option.some.inj hj
        exact absurd hab.symm (hroom.others k b (Ne.symm hki) hk hb)
    · rw [List.getElem?_set_ne hji] at hj
      by_cases hki : i = k
      · rw [← hki, List.getElem?_set_self hroom.entry] at hk
        obtain rfl := Option.some.inj hk
        exact absurd hab (hroom.others j a (Ne.symm hji) hj ha)
      · rw [List.getElem?_set_ne hki] at hk
        exact h.indexes j k a b hj hk ha hb hab
  stored := by
    intro p hp hused
    rcases mem_updated hp with rfl | ⟨j, hji, hj⟩
    · exact decodesAt_stored hroom.slot hblob
    · rw [decodesAt_other _ (Ne.symm (hroom.others j p hji hj hused))]
      exact h.stored p (List.mem_of_getElem? hj) hused
  known := by
    intro k x hk
    by_cases hsame : index = k
    · exact ⟨_, List.mem_set hroom.entry _, rfl, hsame⟩
    · rw [decodesAt_other _ hsame] at hk
      obtain ⟨p, hp, hused, hindex⟩ := h.known k x hk
      obtain ⟨j, hj⟩ := List.mem_iff_getElem?.mp hp
      have hji : i ≠ j := by
        rintro rfl
        exact hsame ((hroom.own p hj hused).symm.trans hindex)
      refine ⟨p, List.mem_iff_getElem?.mpr ⟨j, ?_⟩, hused, hindex⟩
      rw [List.getElem?_set_ne hji]
      exact hj

theorem unrepeated_saved {peers : List PeerSlot} {s : Storage} {identity : Identity} {i index : ℕ}
    {blob : List UInt8} (h : Unrepeated s) (hroom : Room peers s identity.address i index)
    (hblob : bondDecode blob = .ok identity) : Unrepeated (s.set index (some blob)) := by
  intro j k a b hj hk hab
  have hnew := decodesAt_stored hroom.slot hblob
  by_cases hji : index = j
  · by_cases hki : index = k
    · rw [← hji, ← hki]
    · rw [decodesAt_other _ hki] at hk
      rw [← hji, hnew] at hj
      obtain rfl := Option.some.inj hj
      exact absurd hab.symm (hroom.fresh k b (Ne.symm hki) hk)
  · rw [decodesAt_other _ hji] at hj
    by_cases hki : index = k
    · rw [← hki, hnew] at hk
      obtain rfl := Option.some.inj hk
      exact absurd hab (hroom.fresh j a (Ne.symm hji) hj)
    · rw [decodesAt_other _ hki] at hk
      exact h j k a b hj hk hab

theorem holds_iff {p : PeerSlot} {address : Address} :
    p.holds address = true ↔ p.used = true ∧ p.identity.address = address := by
  simp [PeerSlot.holds]

theorem fresh_of_strangers {peers : List PeerSlot} {s : Storage} {address : Address}
    (h : InStep peers s) (hstrangers : ∀ p ∈ peers, p.holds address = false) :
    ∀ k x, decodesAt s k = some x → x.address ≠ address := by
  rintro k x hk rfl
  obtain ⟨p, hp, hused, rfl⟩ := h.known k x hk
  have hstored := h.stored p hp hused
  rw [hk] at hstored
  obtain rfl := Option.some.inj hstored
  have hno := hstrangers p hp
  rw [holds_iff.mpr ⟨hused, rfl⟩] at hno
  cases hno

theorem distinct_others {peers : List PeerSlot} {s : Storage} (h : InStep peers s) {i : ℕ}
    {p : PeerSlot} (hi : peers[i]? = some p) (hused : p.used = true) :
    ∀ (j : ℕ) (q : PeerSlot), j ≠ i → peers[j]? = some q → q.used = true →
      q.storageIndex ≠ p.storageIndex := by
  intro j q hji hj hq hsame
  exact hji (h.indexes j i q p hj hi hq hused hsame)

/-- Every choice of an entry leaves room, a free entry under the condition on
its number. -/
theorem room_of_chosen {peers : List PeerSlot} {s : Storage} {address : Address} {i index : ℕ}
    (h : InStep peers s) (hrepeat : Unrepeated s) (hchosen : Chosen address peers i index)
    (hclean : ∀ i, findPeer peers address = none → (peers.findIdx? fun p => !p.used) = some i →
      i < s.length ∧ ∀ p ∈ peers, p.used = true → p.storageIndex ≠ i) :
    Room peers s address i index := by
  cases hchosen with
  | known p hentry hholds =>
    obtain ⟨hused, haddress⟩ := holds_iff.mp hholds
    have hmem := List.mem_of_getElem? hentry
    have hstored := h.stored p hmem hused
    refine ⟨(List.getElem?_eq_some_iff.mp hentry).1, decodesAt_lt hstored,
      distinct_others h hentry hused, ?_, ?_⟩
    · intro q hq _
      rw [hentry] at hq
      rw [Option.some.inj hq]
    · rintro k x hk hx hsame
      exact hk (hrepeat k _ x _ hx hstored (hsame.trans haddress.symm))
  | free hstrangers hentry =>
    have hnone : findPeer peers address = none := by
      rw [findPeer, List.findIdx?_eq_none_iff]
      exact hstrangers
    obtain ⟨hslot, hothers⟩ := hclean i hnone hentry
    obtain ⟨hlt, hunused, _⟩ := List.findIdx?_eq_some_iff_getElem.mp hentry
    refine ⟨hlt, hslot, ?_, ?_, ?_⟩
    · intro j q _ hj hq
      exact hothers q (List.mem_of_getElem? hj) hq
    · intro q hq hused
      rw [List.getElem?_eq_getElem hlt] at hq
      obtain rfl := Option.some.inj hq
      rw [hused] at hunused
      cases hunused
    · intro k x _ hk
      exact fresh_of_strangers h hstrangers k x hk
  | evicted p hentry hstrangers hfull _ =>
    have hmem := List.mem_of_getElem? hentry
    have hused := hfull p hmem
    refine ⟨(List.getElem?_eq_some_iff.mp hentry).1, decodesAt_lt (h.stored p hmem hused),
      distinct_others h hentry hused, ?_, ?_⟩
    · intro q hq _
      rw [hentry] at hq
      rw [Option.some.inj hq]
    · intro k x _ hk
      exact fresh_of_strangers h hstrangers k x hk

structure Restored (s : Storage) (c : Classic) (k : ℕ) : Prop where
  opened : c.opened = true
  idle : c.operationActive = false
  enabled : c.providerEnabled = true
  indexes : Distinct (fun p => p.storageIndex) c.peers
  below : ∀ p ∈ c.peers, p.used = true → p.storageIndex < k
  stored : ∀ p ∈ c.peers, p.used = true → decodesAt s p.storageIndex = some p.identity
  known : ∀ i x, i < k → decodesAt s i = some x → ∃ p ∈ c.peers, p.used = true ∧ p.storageIndex = i

theorem restored_skip {s : Storage} {c : Classic} {k : ℕ} (h : Restored s c k)
    (hnone : decodesAt s k = none) : Restored s c (k+1) where
  opened := h.opened
  idle := h.idle
  enabled := h.enabled
  indexes := h.indexes
  below := by
    intro p hp hused
    have := h.below p hp hused
    omega
  stored := h.stored
  known := by
    intro i x hi hx
    have hne : i ≠ k := by
      rintro rfl
      rw [hnone] at hx
      cases hx
    exact h.known i x (by omega) hx

theorem restored_stranger {s : Storage} {c : Classic} {k : ℕ} {x : Identity} (h : Restored s c k)
    (hrepeat : Unrepeated s) (hx : decodesAt s k = some x) : findPeer c.peers x.address = none := by
  rw [findPeer, List.findIdx?_eq_none_iff]
  intro p hp
  by_contra hholds
  obtain ⟨hused, haddress⟩ := holds_iff.mp (by simpa using hholds)
  have hindex := hrepeat _ _ _ _ (h.stored p hp hused) hx haddress
  have := h.below p hp hused
  omega

theorem restored_peer {s : Storage} {c : Classic} {k i : ℕ} {x : Identity} (h : Restored s c k)
    (hx : decodesAt s k = some x) (hi : (c.peers.findIdx? fun p => !p.used) = some i) :
    Restored s (restoredPeer c k x i) (k+1) := by
  obtain ⟨hlt, hunused, _⟩ := List.findIdx?_eq_some_iff_getElem.mp hi
  have hother : ∀ (j : ℕ) (p : PeerSlot), c.peers[j]? = some p → p.used = true → p.storageIndex ≠ k := by
    intro j p hj hused
    have := h.below p (List.mem_of_getElem? hj) hused
    omega
  refine ⟨h.opened, h.idle, h.enabled, ?_, ?_, ?_, ?_⟩
  · intro j l a b hj hl ha hb hab
    dsimp only [restoredPeer] at hj hl
    by_cases hji : i = j
    · by_cases hli : i = l
      · rw [← hji, ← hli]
      · rw [← hji, List.getElem?_set_self hlt] at hj
        rw [List.getElem?_set_ne hli] at hl
        obtain rfl := Option.some.inj hj
        exact absurd hab.symm (hother l b hl hb)
    · rw [List.getElem?_set_ne hji] at hj
      by_cases hli : i = l
      · rw [← hli, List.getElem?_set_self hlt] at hl
        obtain rfl := Option.some.inj hl
        exact absurd hab (hother j a hj ha)
      · rw [List.getElem?_set_ne hli] at hl
        exact h.indexes j l a b hj hl ha hb hab
  · intro p hp hused
    rcases mem_updated hp with rfl | ⟨j, _, hj⟩
    · exact Nat.lt_succ_self k
    · have := h.below p (List.mem_of_getElem? hj) hused
      omega
  · intro p hp hused
    rcases mem_updated hp with rfl | ⟨j, _, hj⟩
    · exact hx
    · exact h.stored p (List.mem_of_getElem? hj) hused
  · intro j y hj hy
    by_cases hjk : j = k
    · exact ⟨_, List.mem_set hlt _, rfl, hjk.symm⟩
    · obtain ⟨p, hp, hused, hindex⟩ := h.known j y (by omega) hy
      obtain ⟨l, hl⟩ := List.mem_iff_getElem?.mp hp
      have hli : i ≠ l := by
        rintro rfl
        rw [List.getElem?_eq_getElem hlt] at hl
        obtain rfl := Option.some.inj hl
        rw [hused] at hunused
        cases hunused
      refine ⟨p, List.mem_iff_getElem?.mpr ⟨l, ?_⟩, hused, hindex⟩
      dsimp only [restoredPeer]
      rw [List.getElem?_set_ne hli]
      exact hl

theorem decodesAt_middle (before rest : Storage) (slot : Option (List UInt8)) :
    decodesAt (before ++ slot :: rest) before.length =
      slot.bind fun blob => (bondDecode blob).toOption := by
  rw [decodesAt, List.getElem?_append_right (Nat.le_refl _), Nat.sub_self]
  cases slot <;> rfl

theorem restoreRecords_restored {a : OpenAnswers} {c : Classic} {before rest : Storage}
    (hrepeat : Unrepeated (before ++ rest)) (h : Restored (before ++ rest) c before.length)
    (hok : (restoreRecords a c rest before.length).2 = .ok) :
    Restored (before ++ rest) (restoreRecords a c rest before.length).1 (before ++ rest).length := by
  induction rest generalizing c before with
  | nil => simpa [restoreRecords] using h
  | cons slot rest ih =>
    have hsplit : before ++ slot :: rest = (before ++ [slot]) ++ rest := by simp
    have hlength : (before ++ [slot]).length = before.length+1 := by simp
    have hmiddle := decodesAt_middle before rest slot
    have hnext : ∀ c', Restored (before ++ slot :: rest) c' (before.length+1) →
        (restoreRecords a c' rest (before.length+1)).2 = .ok →
        Restored (before ++ slot :: rest) (restoreRecords a c' rest (before.length+1)).1
          (before ++ slot :: rest).length := by
      intro c' h' hok'
      rw [← hlength] at h' hok' ⊢
      rw [hsplit] at hrepeat h' ⊢
      exact ih hrepeat h' hok'
    rw [restoreRecords] at hok ⊢
    by_cases hload : a.load before.length = .ok ∨ a.load before.length = .enoent
    · rw [loadRecord, if_pos hload] at hok ⊢
      cases slot with
      | none => exact hnext c (restored_skip h hmiddle) hok
      | some blob =>
        dsimp only at hok ⊢
        cases hdecode : bondDecode blob with
        | error status =>
          rw [Option.bind_some, hdecode] at hmiddle
          rw [hdecode] at hok
          exact hnext c (restored_skip h hmiddle) hok
        | ok identity =>
          rw [Option.bind_some, hdecode] at hmiddle
          rw [hdecode] at hok
          dsimp only at hok ⊢
          rw [restored_stranger h hrepeat hmiddle] at hok ⊢
          cases hfree : c.peers.findIdx? fun p => !p.used with
          | none =>
            rw [hfree] at hok
            cases hok
          | some i =>
            rw [hfree] at hok
            dsimp only [Option.orElse] at hok ⊢
            by_cases hrestore : a.restore before.length = .ok
            · rw [if_pos hrestore] at hok ⊢
              exact hnext _ (restored_peer h hmiddle hfree) hok
            · rw [if_neg hrestore] at hok
              exact absurd hok hrestore
    · rw [loadRecord, if_neg hload] at hok
      dsimp only at hok
      exact absurd (Or.inl hok) hload

theorem restoreRecords_idle (a : OpenAnswers) (c : Classic) (rest : Storage) (k : ℕ) :
    (restoreRecords a c rest k).1.operationActive = c.operationActive := by
  induction rest generalizing c k with
  | nil => rfl
  | cons slot rest ih =>
    rw [restoreRecords]
    split
    · rfl
    · exact ih c (k+1)
    · split
      · exact ih c (k+1)
      · split
        · rfl
        · split
          · rw [ih]
            rfl
          · rfl

structure Consistent (w : World) : Prop where
  idle : w.classic.operationActive = false
  unrepeated : Unrepeated w.storage
  gone : ∀ i x, decodesAt w.storage i = some x → x.address ∉ w.forgotten
  enabled : w.classic.opened = true → w.classic.providerEnabled = true
  inStep : w.classic.opened = true → InStep w.classic.peers w.storage
  unused : w.classic.opened = false → ∀ p ∈ w.classic.peers, p.used = false

theorem sound_of_consistent {w : World} (h : Consistent w) : Sound w := by
  have hopened : ∀ p ∈ w.classic.peers, p.used = true → w.classic.opened = true := by
    intro p hp hused
    by_contra hclosed
    have := h.unused (by simpa using hclosed) p hp
    rw [hused] at this
    cases this
  have hstored : ∀ p ∈ w.classic.peers, p.used = true →
      decodesAt w.storage p.storageIndex = some p.identity := fun p hp hused =>
    (h.inStep (hopened p hp hused)).stored p hp hused
  have hindexes : Distinct (fun p => p.storageIndex) w.classic.peers := by
    intro i j a b hi hj ha hb
    exact (h.inStep (hopened a (List.mem_of_getElem? hi) ha)).indexes i j a b hi hj ha hb
  refine ⟨?_, hindexes, ?_, hstored, ?_⟩
  · intro i j a b hi hj ha hb hab
    refine hindexes i j a b hi hj ha hb ?_
    exact h.unrepeated _ _ _ _ (hstored a (List.mem_of_getElem? hi) ha)
      (hstored b (List.mem_of_getElem? hj) hb) hab
  · intro p hp hused
    exact decodesAt_lt (hstored p hp hused)
  · intro p hp hused
    exact h.gone _ _ (hstored p hp hused)

/-- A change of what is not in the table of peers keeps the agreement. -/
theorem consistent_frame {w : World} (h : Consistent w) {c : Classic}
    (hopened : c.opened = w.classic.opened) (hidle : c.operationActive = w.classic.operationActive)
    (henabled : c.providerEnabled = w.classic.providerEnabled) (hpeers : c.peers = w.classic.peers) :
    Consistent { w with classic := c } where
  idle := hidle.trans h.idle
  unrepeated := h.unrepeated
  gone := h.gone
  enabled := by
    dsimp only
    rw [hopened, henabled]
    exact h.enabled
  inStep := by
    dsimp only
    rw [hopened, hpeers]
    exact h.inStep
  unused := by
    dsimp only
    rw [hopened, hpeers]
    exact h.unused

theorem cleared_unused (maxPeers : ℕ) (c : Classic) :
    ∀ p ∈ (clearBondState maxPeers c).peers, p.used = false := by
  intro p hp
  rw [List.eq_of_mem_replicate hp]
  rfl

theorem consistent_closed {w : World} (h : Consistent w) {c : Classic} (hopened : c.opened = false)
    (hidle : c.operationActive = false) (hunused : ∀ p ∈ c.peers, p.used = false) :
    Consistent { w with classic := c } where
  idle := hidle
  unrepeated := h.unrepeated
  gone := h.gone
  enabled := by
    intro hopen
    rw [hopened] at hopen
    cases hopen
  inStep := by
    intro hopen
    rw [hopened] at hopen
    cases hopen
  unused := fun _ => hunused

theorem consistent_event {w : World} (h : Consistent w) (e : BackendEvent) :
    Consistent { w with classic := backendEvent w.classic e } := by
  unfold backendEvent
  by_cases hopened : w.classic.opened = false
  · rw [if_pos hopened]
    exact h
  · rw [if_neg hopened]
    cases e with
    | pairingRequest address => exact consistent_frame h rfl rfl rfl rfl
    | authentication status => exact consistent_frame h rfl rfl rfl rfl
    | linkKey key => exact consistent_frame h rfl rfl rfl rfl

theorem consistent_authorize {w : World} (h : Consistent w) (reply : Status) :
    Consistent { w with classic := (authorize w.classic reply).1 } := by
  rw [authorize]
  cases w.classic.pairing with
  | none => exact h
  | some address =>
    dsimp only
    by_cases hopened : w.classic.opened = false
    · rw [beginOperation, if_pos hopened]
      dsimp only
      rw [if_pos (show Status.euninit ≠ .ok by decide)]
      exact h
    · rw [beginOperation, if_neg hopened, h.idle, if_neg Bool.false_ne_true]
      dsimp only
      rw [if_neg (show ¬Status.ok ≠ .ok by decide)]
      by_cases hreply : reply = .ok
      · rw [if_pos hreply, recordApproval]
        split
        · exact consistent_frame h rfl rfl rfl rfl
        · exact h
      · rw [if_neg hreply]
        exact h

theorem consistent_save {w : World} (h : Consistent w) (address : Address) (profileId : UInt16) :
    Consistent { w with classic := (peerSave w.classic address profileId).1 } := by
  rw [peerSave]
  split
  · exact h
  split
  · exact h
  split
  · exact h
  split
  · split
    · split
      · exact h
      · exact h
    · exact h
  · exact consistent_frame h rfl rfl rfl rfl

theorem consistent_close {w : World} (maxPeers : ℕ) (h : Consistent w) (stop : Status) :
    Consistent { w with classic := (close maxPeers w.classic stop).1 } := by
  rw [close]
  split
  · exact h
  split
  · exact h
  · exact consistent_closed h rfl h.idle (cleared_unused maxPeers w.classic)

theorem consistent_open {w : World} (maxPeers : ℕ) (h : Consistent w) (a : OpenAnswers) :
    Consistent { w with classic := (openWith maxPeers w.classic w.storage a).1 } := by
  rw [openWith]
  split
  · exact h
  split
  · exact h
  · dsimp only
    generalize hcleared : ({ clearBondState maxPeers w.classic with
      opened := true, providerEnabled := true, pairing := none } : Classic) = cleared
    have hunused : ∀ p ∈ cleared.peers, p.used = false := by
      rw [← hcleared]
      exact cleared_unused maxPeers w.classic
    have hidle : cleared.operationActive = false := by
      rw [← hcleared]
      exact h.idle
    have hstart : Restored ([] ++ w.storage) cleared 0 := by
      refine ⟨?_, hidle, ?_, ?_, ?_, ?_, ?_⟩
      · rw [← hcleared]
      · rw [← hcleared]
      · intro i j p q hi _ hp
        rw [hunused p (List.mem_of_getElem? hi)] at hp
        cases hp
      · intro p hp hused
        rw [hunused p hp] at hused
        cases hused
      · intro p hp hused
        rw [hunused p hp] at hused
        cases hused
      · intro i x hi
        exact absurd hi (Nat.not_lt_zero i)
    by_cases hrun : a.start = .ok
    · rw [if_pos hrun]
      by_cases hok : (restoreRecords a cleared w.storage 0).2 = .ok
      · rw [if_pos hok]
        have hdone : Restored ([] ++ w.storage) (restoreRecords a cleared w.storage 0).1
            ([] ++ w.storage).length := restoreRecords_restored h.unrepeated hstart hok
        rw [List.nil_append] at hdone
        refine ⟨hdone.idle, h.unrepeated, h.gone, fun _ => hdone.enabled, fun _ => ?_, ?_⟩
        · refine ⟨hdone.indexes, hdone.stored, ?_⟩
          intro i x hx
          exact hdone.known i x (decodesAt_lt hx) hx
        · intro hclosed
          rw [hdone.opened] at hclosed
          cases hclosed
      · rw [if_neg hok]
        refine consistent_closed h rfl ?_
          (cleared_unused maxPeers (restoreRecords a cleared w.storage 0).1)
        exact (restoreRecords_idle a cleared w.storage 0).trans hidle
    · rw [if_neg hrun, if_neg hrun]
      exact consistent_closed h rfl hidle (cleared_unused maxPeers cleared)

theorem flush_quiet {w : World} {r : Except Status (Option FlushJob)} (store restore : Status)
    (h : flushBegin w.classic = (w.classic, r)) (hr : ∀ job, r ≠ .ok (some job)) :
    (flush w store restore).1 = w := by
  rw [flush, h]
  cases r with
  | error status => rfl
  | ok job =>
    cases job with
    | none => rfl
    | some job => exact absurd rfl (hr job)

theorem flush_job {w : World} {c : Classic} {job : FlushJob} (store restore : Status)
    (h : flushBegin w.classic = (c, .ok (some job))) :
    (flush w store restore).1 =
      { classic := flushEnd c job (job.outcome store restore)
        storage := flushStorage w.storage job store
        forgotten := if job.outcome store restore = .ok then
          w.forgotten.filter fun a => a ≠ job.identity.address else w.forgotten } := by
  rw [flush, h]

theorem flush_failed {w : World} {c : Classic} {job : FlushJob} {store restore : Status}
    (h : flushBegin w.classic = (c, .ok (some job))) (hc : c = { w.classic with operationActive := true })
    (hidle : w.classic.operationActive = false) (hstatus : job.outcome store restore ≠ .ok)
    (hstorage : flushStorage w.storage job store = w.storage) : (flush w store restore).1 = w := by
  rw [flush_job store restore h, flushEnd, if_neg hstatus, if_neg hstatus, hstorage, hc, ← hidle]

/-- A job that ended well has stored a record of its own. -/
theorem record_decodes {job : FlushJob} {blob : List UInt8} (h : job.record = .ok blob) :
    bondDecode blob = .ok job.identity := by
  rw [FlushJob.record] at h
  split at h
  · cases h
  · exact bondDecode_encode h

theorem gone_saved {w : World} {identity : Identity} {index : ℕ} {blob : List UInt8}
    (h : ∀ i x, decodesAt w.storage i = some x → x.address ∉ w.forgotten)
    (hslot : index < w.storage.length) (hblob : bondDecode blob = .ok identity) :
    ∀ i x, decodesAt (w.storage.set index (some blob)) i = some x →
      x.address ∉ w.forgotten.filter fun a => a ≠ identity.address := by
  intro i x hx hmem
  obtain ⟨hin, hne⟩ := List.mem_filter.mp hmem
  by_cases hi : index = i
  · rw [← hi, decodesAt_stored hslot hblob] at hx
    obtain rfl := Option.some.inj hx
    exact absurd rfl (of_decide_eq_true hne)
  · rw [decodesAt_other _ hi] at hx
    exact h i x hx hin

theorem record_refused {job : FlushJob} {status : Status} (h : job.record = .error status) :
    status ≠ .ok := by
  rintro rfl
  rw [FlushJob.record] at h
  split at h
  · cases h
  · exact bondEncode_refused h

theorem spared_same (w : World) : Spared w w := by
  intro c job _ i p hi _ _
  exact Or.inl ⟨hi, rfl⟩

theorem flush_saved {w : World} {c : Classic} {job : FlushJob} {blob : List UInt8}
    (h : Consistent w) (hopened : w.classic.opened = true)
    (hbegin : flushBegin w.classic = (c, .ok (some job)))
    (hc : c = { w.classic with operationActive := true })
    (hselect : selectPeerSlot w.classic.peers job.identity.address = some (job.slot, job.storageIndex))
    (hblob : bondDecode blob = .ok job.identity)
    (hroom : Room w.classic.peers w.storage job.identity.address job.slot job.storageIndex)
    {after : World} (hafter : after =
      { classic := flushEnd c job .ok
        storage := w.storage.set job.storageIndex (some blob)
        forgotten := w.forgotten.filter fun a => a ≠ job.identity.address }) :
    Consistent after ∧ Spared w after := by
  have hclassic : flushEnd c job .ok =
      { w.classic with
        nextSequence := job.identity.sequence
        peers := w.classic.peers.set job.slot ⟨job.identity, job.storageIndex, true⟩
        pendingKey := none, pendingSave := none, approved := none, operationActive := false } := by
    rw [flushEnd, if_pos rfl, hc]
  rw [hclassic] at hafter
  subst hafter
  constructor
  · refine ⟨rfl, unrepeated_saved h.unrepeated hroom hblob, gone_saved h.gone hroom.slot hblob,
      h.enabled, fun _ => inStep_saved (h.inStep hopened) hroom hblob, ?_⟩
    intro hclosed
    exact absurd (hopened.symm.trans hclosed) (by decide)
  · intro c' job' hbegin' i p hi hused hother
    rw [hbegin] at hbegin'
    cases hbegin'
    dsimp only
    by_cases hslot : i = job.slot
    · right
      subst hslot
      have hchosen := selectPeerSlot_chosen hselect
      generalize job.storageIndex = index at hchosen
      cases hchosen with
      | known q hentry hholds =>
        rw [hi] at hentry
        obtain rfl := Option.some.inj hentry
        exact absurd (holds_iff.mp hholds).2 hother
      | free _ hentry =>
        obtain ⟨hlt, hunused, _⟩ := List.findIdx?_eq_some_iff_getElem.mp hentry
        rw [List.getElem?_eq_getElem hlt] at hi
        obtain rfl := Option.some.inj hi
        rw [hused] at hunused
        cases hunused
      | evicted q hentry _ hfull heldest =>
        rw [hi] at hentry
        obtain rfl := Option.some.inj hentry
        exact ⟨hfull, heldest⟩
    · left
      rw [List.getElem?_set_ne (Ne.symm hslot),
        decodesAt_other _ (Ne.symm (hroom.others i p hslot hi hused))]
      exact ⟨hi, rfl⟩

theorem consistent_flush {w : World} (h : Consistent w) {store restore : Status}
    (hclean : Clean w (.flush store restore)) :
    Consistent (flush w store restore).1 ∧ Spared w (flush w store restore).1 := by
  rcases flushBegin_cases w.classic with
    ⟨r, hbegin, hr⟩ | ⟨job, hbegin, hopened, henabled, hselect, _⟩
  · rw [flush_quiet store restore hbegin hr]
    exact ⟨h, spared_same w⟩
  have hprovider : job.providerEnabled = true := henabled.trans (h.enabled hopened)
  have hunchanged : job.outcome store restore ≠ .ok →
      flushStorage w.storage job store = w.storage →
      Consistent (flush w store restore).1 ∧ Spared w (flush w store restore).1 := by
    intro hstatus hstorage
    rw [flush_failed hbegin rfl h.idle hstatus hstorage]
    exact ⟨h, spared_same w⟩
  rw [FlushJob.outcome, if_pos hprovider, flushStorage, if_pos hprovider] at hunchanged
  cases hrecord : job.record with
  | error status =>
    rw [hrecord] at hunchanged
    exact hunchanged (record_refused hrecord) rfl
  | ok blob =>
    rw [hrecord] at hunchanged
    dsimp only [storeRecord] at hunchanged
    by_cases hstore : store = .ok
    · obtain ⟨hfree, hrestore⟩ := hclean _ _ hbegin
      have hroom := room_of_chosen (h.inStep hopened) h.unrepeated (selectPeerSlot_chosen hselect) hfree
      have hstatus : job.outcome store restore = .ok := by
        rw [FlushJob.outcome, if_pos hprovider, hrecord]
        dsimp only
        rw [if_pos hstore]
        exact hrestore blob hrecord hstore
      have hstorage : flushStorage w.storage job store =
          w.storage.set job.storageIndex (some blob) := by
        rw [flushStorage, if_pos hprovider, hrecord]
        dsimp only [storeRecord]
        rw [if_pos hstore]
      have hafter := flush_job store restore hbegin
      rw [hstatus, if_pos rfl, hstorage] at hafter
      exact flush_saved h hopened hbegin rfl hselect (record_decodes hrecord) hroom hafter
    · rw [if_neg hstore, if_neg hstore] at hunchanged
      exact hunchanged hstore rfl

theorem decodesAt_remaining {s : Storage} {index i : ℕ} {x : Identity}
    (h : decodesAt (s.set index none) i = some x) : i ≠ index ∧ decodesAt s i = some x := by
  by_cases hi : index = i
  · rw [hi, decodesAt_erased] at h
    cases h
  · rw [decodesAt_other _ hi] at h
    exact ⟨Ne.symm hi, h⟩

theorem inStep_forgotten {peers : List PeerSlot} {s : Storage} {i : ℕ} {p new : PeerSlot}
    (h : InStep peers s) (hi : peers[i]? = some p) (hused : p.used = true) (hnew : new.used = false) :
    InStep (peers.set i new) (s.set p.storageIndex none) := by
  have hlt := (List.getElem?_eq_some_iff.mp hi).1
  have hentry : ∀ (j : ℕ) (q : PeerSlot), (peers.set i new)[j]? = some q → q.used = true →
      i ≠ j ∧ peers[j]? = some q := by
    intro j q hj hq
    by_cases hji : i = j
    · rw [← hji, List.getElem?_set_self hlt] at hj
      obtain rfl := Option.some.inj hj
      rw [hnew] at hq
      cases hq
    · rw [List.getElem?_set_ne hji] at hj
      exact ⟨hji, hj⟩
  refine ⟨?_, ?_, ?_⟩
  · intro j k a b hj hk ha hb hab
    exact h.indexes j k a b (hentry j a hj ha).2 (hentry k b hk hb).2 ha hb hab
  · intro q hq hqused
    obtain ⟨j, hj⟩ := List.mem_iff_getElem?.mp hq
    obtain ⟨hji, hj⟩ := hentry j q hj hqused
    rw [decodesAt_other _ (Ne.symm (distinct_others h hi hused j q (Ne.symm hji) hj hqused))]
    exact h.stored q (List.mem_of_getElem? hj) hqused
  · intro k x hk
    obtain ⟨hne, hk⟩ := decodesAt_remaining hk
    obtain ⟨q, hq, hqused, hindex⟩ := h.known k x hk
    obtain ⟨j, hj⟩ := List.mem_iff_getElem?.mp hq
    have hji : i ≠ j := by
      rintro rfl
      rw [hi] at hj
      obtain rfl := Option.some.inj hj
      exact hne hindex.symm
    refine ⟨q, List.mem_iff_getElem?.mpr ⟨j, ?_⟩, hqused, hindex⟩
    rw [List.getElem?_set_ne hji]
    exact hj

theorem consistent_forgotten {w : World} (h : Consistent w) (hopened : w.classic.opened = true) {i : ℕ}
    {p new : PeerSlot} (hi : w.classic.peers[i]? = some p) (hused : p.used = true)
    (hnew : new.used = false) {forgotten : List Address}
    (hforgotten : ∀ a ∈ forgotten, a ∈ w.forgotten ∨ a = p.identity.address) :
    Consistent { classic := { w.classic with peers := w.classic.peers.set i new }
                 storage := w.storage.set p.storageIndex none
                 forgotten := forgotten } where
  idle := h.idle
  unrepeated := by
    intro j k a b hj hk
    exact h.unrepeated j k a b (decodesAt_remaining hj).2 (decodesAt_remaining hk).2
  gone := by
    intro j x hj hmem
    obtain ⟨hne, hj⟩ := decodesAt_remaining hj
    rcases hforgotten _ hmem with hbefore | hsame
    · exact h.gone j x hj hbefore
    · exact hne (h.unrepeated j _ x _ hj
        ((h.inStep hopened).stored p (List.mem_of_getElem? hi) hused) hsame)
  enabled := h.enabled
  inStep := fun _ => inStep_forgotten (h.inStep hopened) hi hused hnew
  unused := fun hclosed => absurd (hopened.symm.trans hclosed) (by decide)

theorem consistent_forget {w : World} (maxPeers : ℕ) (h : Consistent w) (address : Address)
    (erase backend : Status) : Consistent (step maxPeers w (.forget address erase backend)).1 := by
  have hrefused : ∀ status, status ≠ .ok →
      peerForget w.classic w.storage address erase backend = ((w.classic, w.storage), status) →
      Consistent (step maxPeers w (.forget address erase backend)).1 := by
    intro status hstatus hforget
    rw [step, hforget]
    dsimp only
    rw [if_neg hstatus]
    exact h
  rw [peerForget] at hrefused
  by_cases hzero : address = Vector.replicate 6 0
  · rw [if_pos hzero] at hrefused
    exact hrefused .einval (by decide) rfl
  rw [if_neg hzero] at hrefused
  by_cases hclosed : w.classic.opened = false
  · rw [if_pos hclosed] at hrefused
    exact hrefused .euninit (by decide) rfl
  rw [if_neg hclosed, h.idle, if_neg Bool.false_ne_true] at hrefused
  have hopened : w.classic.opened = true := by simpa using hclosed
  cases hfind : findPeer w.classic.peers address with
  | none =>
    rw [hfind] at hrefused
    exact hrefused .enoent (by decide) rfl
  | some i =>
    rw [hfind] at hrefused
    dsimp only at hrefused
    rw [h.enabled hopened] at hrefused
    by_cases herase : erase = .ok
    · obtain ⟨hlt, hholds, _⟩ := List.findIdx?_eq_some_iff_getElem.mp hfind
      obtain ⟨hused, haddress⟩ := holds_iff.mp hholds
      have hi := List.getElem?_eq_getElem hlt
      have hslot : w.classic.peers.getD i emptyPeer = w.classic.peers[i] := by
        rw [List.getD_eq_getElem?_getD, hi]
        rfl
      have hforget : peerForget w.classic w.storage address erase backend =
          (({ w.classic with
                peers := w.classic.peers.set i ⟨zeroIdentity, w.classic.peers[i].storageIndex, false⟩ },
            w.storage.set w.classic.peers[i].storageIndex none), backend) := by
        have hidle : ¬w.classic.operationActive = true := by simp [h.idle]
        rw [peerForget, if_neg hzero, if_neg hclosed, if_neg hidle, hfind]
        dsimp only
        rw [if_neg (by simp [herase]), if_pos (h.enabled hopened), eraseRecord, if_pos herase, hslot]
      rw [step, hforget]
      refine consistent_forgotten h hopened hi hused rfl ?_
      intro a ha
      split at ha
      · rcases List.mem_cons.mp ha with rfl | ha
        · exact Or.inr haddress.symm
        · exact Or.inl ha
      · exact Or.inl ha
    · rw [if_pos ⟨rfl, herase⟩] at hrefused
      exact hrefused erase herase rfl

theorem step_consistent {maxPeers : ℕ} {w : World} {call : BondCall} (h : Consistent w)
    (hclean : Clean w call) : Consistent (step maxPeers w call).1 := by
  cases call with
  | openWith a => exact consistent_open maxPeers h a
  | close stop => exact consistent_close maxPeers h stop
  | event e => exact consistent_event h e
  | authorize reply => exact consistent_authorize h reply
  | save address profileId => exact consistent_save h address profileId
  | flush store restore => exact (consistent_flush h hclean).1
  | forget address erase backend => exact consistent_forget maxPeers h address erase backend

theorem run_consistent {maxPeers : ℕ} {w : World} {calls : List BondCall} (h : Consistent w)
    (hclean : AllClean maxPeers w calls) : Consistent (run maxPeers w calls) := by
  induction calls generalizing w with
  | nil => exact h
  | cons call calls ih =>
    obtain ⟨hcall, hcalls⟩ := hclean
    exact ih (step_consistent h hcall) hcalls

theorem start_consistent {maxPeers : ℕ} {storage : Storage} (h : Unrepeated storage) :
    Consistent ⟨closedClassic maxPeers, storage, []⟩ where
  idle := rfl
  unrepeated := h
  gone := by
    intro i x _ hmem
    cases hmem
  enabled := nofun
  inStep := nofun
  unused := fun _ => cleared_unused maxPeers (closedClassic maxPeers)

theorem allClean_append {maxPeers : ℕ} {w : World} {before after : List BondCall}
    (h : AllClean maxPeers w (before ++ after)) :
    AllClean maxPeers w before ∧ AllClean maxPeers (run maxPeers w before) after := by
  induction before generalizing w with
  | nil => exact ⟨trivial, h⟩
  | cons call before ih =>
    obtain ⟨hcall, hrest⟩ := h
    obtain ⟨hbefore, hafter⟩ := ih hrest
    exact ⟨⟨hcall, hbefore⟩, hafter⟩

/-- From a storage without repeated addresses, the table of peers and the
storage correspond after every call of a clean run, no flush touches another
peer than the oldest of a full table, and what was forgotten stays away. -/
theorem bonds_sound {maxPeers : ℕ} {storage : Storage} {calls : List BondCall}
    (hstorage : Unrepeated storage)
    (hclean : AllClean maxPeers ⟨closedClassic maxPeers, storage, []⟩ calls) :
    ∀ before call after, calls = before ++ call :: after →
      Sound (run maxPeers ⟨closedClassic maxPeers, storage, []⟩ (before ++ [call])) ∧
      ∀ store restore, call = .flush store restore →
        Spared (run maxPeers ⟨closedClassic maxPeers, storage, []⟩ before)
          (run maxPeers ⟨closedClassic maxPeers, storage, []⟩ (before ++ [call])) := by
  rintro before call after rfl
  obtain ⟨hbefore, hcall, _⟩ := allClean_append hclean
  have hat := run_consistent (start_consistent hstorage) hbefore
  rw [run, List.foldl_append, ← run]
  refine ⟨sound_of_consistent (step_consistent hat hcall), ?_⟩
  rintro store restore rfl
  exact (consistent_flush hat hcall).2

def address (n : UInt8) : Address := Vector.replicate 6 n

def key (n : UInt8) : PendingKey := ⟨address n, Vector.replicate 16 n, 4⟩

def allWell : OpenAnswers := ⟨.ok, fun _ => .ok, fun _ => .ok⟩

def bonding (n : UInt8) : List BondCall :=
  [.event (.pairingRequest (address n)), .authorize .ok, .event (.linkKey (key n)),
    .save (address n) 1, .flush .ok .ok]

def freshWorld (storage : Storage) : World := ⟨closedClassic 4, storage, []⟩

theorem bonds_sound_sample :
    Sound (run 4 (freshWorld [none, none]) (.openWith allWell :: bonding 7)) ∧
      Spared (run 4 (freshWorld [none, none]) (.openWith allWell :: (bonding 7).take 4))
        (run 4 (freshWorld [none, none]) (.openWith allWell :: bonding 7)) := by
  have hstorage : Unrepeated [none, none] := by
    intro i j a b hi
    rcases i with _ | _ | i <;> cases hi
  have hclean : AllClean 4 (freshWorld [none, none]) (.openWith allWell :: bonding 7) := by
    refine ⟨trivial, trivial, trivial, trivial, trivial, ?_, trivial⟩
    intro c job hbegin
    refine ⟨?_, fun _ _ _ => rfl⟩
    intro i _ hfree
    have hfirst : i = 0 := (Option.some.inj hfree).symm
    subst hfirst
    refine ⟨by decide, ?_⟩
    intro p hp hused
    rw [List.eq_of_mem_replicate (n := 4) (a := emptyPeer) hp] at hused
    cases hused
  have hflush := bonds_sound hstorage hclean (.openWith allWell :: (bonding 7).take 4)
    (.flush .ok .ok) [] rfl
  exact ⟨hflush.1, hflush.2 .ok .ok rfl⟩

def recordOne : List UInt8 :=
  recordBody ⟨address 1, Vector.replicate 16 1, 4, 1, 1⟩ ++
    storeLe16 (crc16Ccitt (recordBody ⟨address 1, Vector.replicate 16 1, 4, 1, 1⟩) crcInit)

def heldWorld : World :=
  run 4 (freshWorld [none, some recordOne]) (BondCall.openWith allWell :: (bonding 2).take 4)

/-- A record stands in the second slot, and the first entry of the table is its
peer. A second peer gets the second entry and with it the slot of the first. -/
theorem slot_shared :
    (step 4 heldWorld (.flush .ok .ok)).2 = .ok ∧ ¬Sound (step 4 heldWorld (.flush .ok .ok)).1 := by
  have hok : (step 4 heldWorld (.flush .ok .ok)).2 = .ok := by decide +kernel
  have hpeers : (step 4 heldWorld (.flush .ok .ok)).1.classic.peers.map
      (fun p => (p.storageIndex, p.used)) = [(1, true), (1, true), (0, false), (0, false)] := by
    decide +kernel
  have hentry : ∀ i, i < 2 → ∃ p, (step 4 heldWorld (.flush .ok .ok)).1.classic.peers[i]? = some p ∧
      p.used = true ∧ p.storageIndex = 1 := by
    intro i hi
    have hget := congrArg (fun l => l[i]?) hpeers
    simp only [List.getElem?_map] at hget
    cases hp : (step 4 heldWorld (.flush .ok .ok)).1.classic.peers[i]? with
    | none =>
      rw [hp] at hget
      interval_cases i <;> cases hget
    | some p =>
      rw [hp] at hget
      refine ⟨p, rfl, ?_⟩
      interval_cases i
      all_goals
        obtain ⟨hindex, hused⟩ := Prod.mk.inj (Option.some.inj hget)
        exact ⟨hused, hindex⟩
  refine ⟨hok, fun h => ?_⟩
  obtain ⟨p, hp, hpused, hpindex⟩ := hentry 0 (by decide)
  obtain ⟨q, hq, hqused, hqindex⟩ := hentry 1 (by decide)
  exact absurd (h.indexes 0 1 p q hp hq hpused hqused (hpindex.trans hqindex.symm)) (by decide)

end JaszczurHal.BtBonds
