import JaszczurHal.KvStore
import JaszczurHal.KvRecordSound

/-!
# The index of live records

The records of the index lie behind the publish area and in front of the used
offset, none overlaps another, and no key has two. A record that is appended
or deleted keeps this.
-/

set_option autoImplicit false

namespace JaszczurHal.KvIndex
open CheckedArith KvRecord KvRecordSound KvStore

def Live (index : List Entry) (i : ℕ) (e : Entry) : Prop := index[i]? = some e ∧ e.inUse = true

def entrySize (e : Entry) : ℕ := if e.inUse then recordSize e.len else 0

def liveSize (index : List Entry) : ℕ := (index.map entrySize).sum

structure IndexSound (cfg : Config) (index : List Entry) (used : ℕ) : Prop where
  length : index.length = cfg.maxKeys
  keys : ∀ i j e f, Live index i e → Live index j f → e.key = f.key → i = j
  placed : ∀ i e, Live index i e → cfg.publishSize+KV_REC_HDR_SIZE ≤ e.payloadOffset ∧
    e.payloadOffset+e.len+KV_REC_FTR_SIZE ≤ used
  apart : ∀ i j e f, Live index i e → Live index j f → i ≠ j →
    e.payloadOffset+e.len+KV_REC_OVERHEAD ≤ f.payloadOffset ∨
      f.payloadOffset+f.len+KV_REC_OVERHEAD ≤ e.payloadOffset
  total : cfg.publishSize+liveSize index ≤ used

variable {cfg : Config} {index : List Entry} {used : ℕ}

theorem Live.unique {i : ℕ} {e f : Entry} (h : Live index i e) (h' : Live index i f) : e = f :=
  Option.some.inj (h.1.symm.trans h'.1)

theorem Live.lt {i : ℕ} {e : Entry} (h : Live index i e) : i < index.length :=
  (List.getElem?_eq_some_iff.mp h.1).1

theorem IndexSound.mono (h : IndexSound cfg index used) {used' : ℕ} (hle : used ≤ used') :
    IndexSound cfg index used' where
  length := h.length
  keys := h.keys
  placed := fun i e he => ⟨(h.placed i e he).1, (h.placed i e he).2.trans hle⟩
  apart := h.apart
  total := h.total.trans hle

theorem IndexSound.publish_le (h : IndexSound cfg index used) : cfg.publishSize ≤ used :=
  (Nat.le_add_right _ _).trans h.total

theorem live_empty (n i : ℕ) (e : Entry) : ¬ Live (List.replicate n emptyEntry) i e := by
  rintro ⟨he, huse⟩
  have hmem := List.mem_of_getElem? he
  rw [List.eq_of_mem_replicate hmem] at huse
  cases huse

theorem liveSize_empty (n : ℕ) : liveSize (List.replicate n emptyEntry) = 0 := by
  rw [liveSize, List.map_replicate, List.sum_replicate]
  exact Nat.mul_zero n

theorem indexSound_empty (cfg : Config) :
    IndexSound cfg (List.replicate cfg.maxKeys emptyEntry) cfg.publishSize where
  length := List.length_replicate
  keys := fun i _ e _ he => absurd he (live_empty _ i e)
  placed := fun i e he => absurd he (live_empty _ i e)
  apart := fun i _ e _ he => absurd he (live_empty _ i e)
  total := by rw [liveSize_empty, Nat.add_zero]

theorem indexFind_some {key : UInt16} {i : ℕ} (h : indexFind index key = some i) :
    ∃ e, Live index i e ∧ e.key = key := by
  obtain ⟨hlt, hfound, _⟩ := List.findIdx?_eq_some_iff_getElem.mp h
  rw [Bool.and_eq_true, decide_eq_true_eq] at hfound
  exact ⟨index[i], ⟨List.getElem?_eq_getElem hlt, hfound.1⟩, hfound.2⟩

theorem indexFind_none {key : UInt16} (h : indexFind index key = none) {i : ℕ} {e : Entry}
    (he : Live index i e) : e.key ≠ key := by
  intro hkey
  have hno := List.findIdx?_eq_none_iff.mp h e (List.mem_of_getElem? he.1)
  simp [he.2, hkey] at hno

theorem indexAlloc_some {i : ℕ} (h : indexAlloc index = some i) :
    ∃ e, index[i]? = some e ∧ e.inUse = false := by
  obtain ⟨hlt, hfound, _⟩ := List.findIdx?_eq_some_iff_getElem.mp h
  exact ⟨index[i], List.getElem?_eq_getElem hlt, by simpa using hfound⟩

theorem indexAlloc_none (h : indexAlloc index = none) {i : ℕ} {e : Entry}
    (he : index[i]? = some e) : e.inUse = true := by
  have hno := List.findIdx?_eq_none_iff.mp h e (List.mem_of_getElem? he)
  simpa using hno

/-- The slot for a key is free of other live keys, and no other entry has the
key. -/
theorem indexSlot_some {key : UInt16} {i : ℕ} (hsound : IndexSound cfg index used)
    (h : indexSlot index key = some i) : i < index.length ∧
      (∀ e, Live index i e → e.key = key) ∧ ∀ j e, Live index j e → e.key = key → j = i := by
  rw [indexSlot] at h
  cases hfind : indexFind index key with
  | some k =>
    rw [hfind] at h
    obtain rfl := Option.some.inj h
    obtain ⟨e, he, hkey⟩ := indexFind_some hfind
    refine ⟨he.lt, fun f hf => ?_, fun j f hf hfkey => ?_⟩
    · rw [hf.unique he]
      exact hkey
    · exact hsound.keys j k f e hf he (hfkey.trans hkey.symm)
  | none =>
    rw [hfind] at h
    obtain ⟨e, he, hfree⟩ := indexAlloc_some h
    refine ⟨(List.getElem?_eq_some_iff.mp he).1, fun f hf => ?_, fun j f hf hfkey => ?_⟩
    · have hsame : f = e := Option.some.inj (hf.1.symm.trans he)
      rw [hsame, Live, hfree] at hf
      cases hf.2
    · exact absurd hfkey (indexFind_none hfind hf)

theorem live_set {i j : ℕ} {e f : Entry} (hi : i < index.length) :
    Live (index.set i e) j f ↔ j = i ∧ f = e ∧ e.inUse = true ∨ j ≠ i ∧ Live index j f := by
  rw [Live, Live, List.getElem?_set]
  by_cases hj : i = j
  · subst hj
    simp only [if_pos, hi, Option.some.injEq, ne_eq, not_true_eq_false, false_and, or_false,
      true_and]
    constructor
    · rintro ⟨rfl, huse⟩
      exact ⟨rfl, huse⟩
    · rintro ⟨rfl, huse⟩
      exact ⟨rfl, huse⟩
  · simp [hj, Ne.symm hj]

theorem release_getElem? (i j : ℕ) : (release index i)[j]? =
    if i = j then index[j]?.map (fun e => { e with inUse := false }) else index[j]? := by
  rw [release, List.getElem?_modify]
  by_cases h : i = j
  · simp [h]
  · simp [h]

theorem live_release {i j : ℕ} {e : Entry} :
    Live (release index i) j e ↔ j ≠ i ∧ Live index j e := by
  rw [Live, Live, release_getElem?]
  by_cases h : i = j
  · subst h
    simp only [if_pos, ne_eq, not_true_eq_false, false_and, iff_false]
    rintro ⟨he, huse⟩
    obtain ⟨f, _, rfl⟩ := Option.map_eq_some_iff.mp he
    cases huse
  · simp [h, Ne.symm h]

theorem release_length (i : ℕ) : (release index i).length = index.length :=
  List.length_modify _ _ _

theorem sum_set {i : ℕ} {e : Entry} (hi : i < index.length) :
    liveSize (index.set i e)+entrySize index[i] = liveSize index+entrySize e := by
  rw [liveSize, liveSize, List.map_set]
  have hi' : i < (index.map entrySize).length := by
    rw [List.length_map]
    exact hi
  have hsum := List.sum_set (index.map entrySize) i (entrySize e)
  have hold := List.sum_take_add_sum_drop (index.map entrySize) (i+1)
  rw [List.sum_take_succ _ _ hi', List.getElem_map] at hold
  rw [if_pos hi'] at hsum
  omega

theorem sum_release_of {i : ℕ} (hi : i < index.length) :
    liveSize (release index i)+entrySize index[i] = liveSize index := by
  have hzero : entrySize { index[i] with inUse := false } = 0 := rfl
  rw [release, List.modify_eq_set_get _ hi, List.get_eq_getElem, sum_set hi, hzero, Nat.add_zero]

theorem sum_release_live {i : ℕ} {e : Entry} (he : Live index i e) :
    liveSize (release index i)+recordSize e.len = liveSize index := by
  obtain ⟨hi, hentry⟩ := List.getElem?_eq_some_iff.mp he.1
  rw [← sum_release_of hi, hentry, entrySize, if_pos he.2]

theorem sum_release (i : ℕ) : liveSize (release index i) ≤ liveSize index := by
  by_cases hi : i < index.length
  · exact (Nat.le_add_right _ _).trans (sum_release_of hi).le
  · rw [release, List.modify_eq_self (by omega)]

theorem indexSound_release (h : IndexSound cfg index used) (i : ℕ) :
    IndexSound cfg (release index i) used where
  length := (release_length i).trans h.length
  keys := fun j k e f he hf =>
    h.keys j k e f (live_release.mp he).2 (live_release.mp hf).2
  placed := fun j e he => h.placed j e (live_release.mp he).2
  apart := fun j k e f he hf =>
    h.apart j k e f (live_release.mp he).2 (live_release.mp hf).2
  total := (Nat.add_le_add_left (sum_release i) _).trans h.total

/-- A new record behind all others takes the slot of its key. -/
theorem indexSound_set (h : IndexSound cfg index used) {key : UInt16} {i : ℕ}
    (hslot : indexSlot index key = some i) (type : UInt8) (len offset : ℕ) (seq : UInt32)
    (hoffset : used ≤ offset) : IndexSound cfg
      (index.set i ⟨true, key, type, len, offset+KV_REC_HDR_SIZE, seq⟩)
      (offset+recordSize len) := by
  obtain ⟨hi, _, hother⟩ := indexSlot_some h hslot
  have hpublish := h.publish_le
  have hheader : KV_REC_HDR_SIZE = 16 := rfl
  have hfooter : KV_REC_FTR_SIZE = 2 := rfl
  have hoverhead : KV_REC_OVERHEAD = 18 := rfl
  have hsize : recordSize len = 18+len := rfl
  constructor
  · rw [List.length_set]
    exact h.length
  · intro j k e f he hf hkey
    rcases (live_set hi).mp he with ⟨rfl, rfl, _⟩ | ⟨hj, hlive⟩
    · rcases (live_set hi).mp hf with ⟨rfl, rfl, _⟩ | ⟨hk, hlive'⟩
      · rfl
      · exact absurd (hother k f hlive' hkey.symm) hk
    · rcases (live_set hi).mp hf with ⟨rfl, rfl, _⟩ | ⟨hk, hlive'⟩
      · exact absurd (hother j e hlive hkey) hj
      · exact h.keys j k e f hlive hlive' hkey
  · intro j e he
    rcases (live_set hi).mp he with ⟨rfl, rfl, _⟩ | ⟨_, hlive⟩
    · dsimp only
      omega
    · have hplaced := h.placed j e hlive
      omega
  · intro j k e f he hf hne
    rcases (live_set hi).mp he with ⟨rfl, rfl, _⟩ | ⟨_, hlive⟩
    · rcases (live_set hi).mp hf with ⟨rfl, rfl, _⟩ | ⟨_, hlive'⟩
      · exact absurd rfl hne
      · have hplaced := h.placed k f hlive'
        right
        dsimp only
        omega
    · rcases (live_set hi).mp hf with ⟨rfl, rfl, _⟩ | ⟨_, hlive'⟩
      · have hplaced := h.placed j e hlive
        left
        dsimp only
        omega
      · exact h.apart j k e f hlive hlive' hne
  · have hsum := sum_set (e := ⟨true, key, type, len, offset+KV_REC_HDR_SIZE, seq⟩) hi
    have hnew : entrySize ⟨true, key, type, len, offset+KV_REC_HDR_SIZE, seq⟩ =
        recordSize len := rfl
    have htotal := h.total
    omega

structure RecordAt (m : ByteImage.Image) (e : Entry) : Prop where
  header : ∃ record, Whole m (e.payloadOffset-KV_REC_HDR_SIZE) record ∧ record.key = e.key ∧
    record.type = e.type ∧ record.len.toNat = e.len ∧ record.seq = e.seq
  behind : KV_REC_HDR_SIZE ≤ e.payloadOffset

def AllRecords (m : ByteImage.Image) (index : List Entry) : Prop :=
  ∀ i e, Live index i e → RecordAt m e

theorem allRecords_empty (m : ByteImage.Image) (n : ℕ) :
    AllRecords m (List.replicate n emptyEntry) :=
  fun i e he => absurd he (live_empty n i e)

/-- A record of the medium that is applied keeps the index sound and its
entries true. -/
theorem applyRecord_sound {m : ByteImage.Image} {record : RecordHeader} {offset : ℕ}
    {index' : List Entry} (h : IndexSound cfg index used) (hall : AllRecords m index)
    (hwhole : Whole m offset record) (hoffset : used ≤ offset)
    (happly : applyRecord index record (offset+KV_REC_HDR_SIZE) = some index') :
    IndexSound cfg index' (offset+recordSize record.len.toNat) ∧ AllRecords m index' := by
  have hle : used ≤ offset+recordSize record.len.toNat := by omega
  rw [applyRecord] at happly
  split at happly
  · cases hfind : indexFind index record.key with
    | some i =>
      rw [hfind] at happly
      obtain rfl := Option.some.inj happly
      exact ⟨(indexSound_release h i).mono hle, fun j e he => hall j e (live_release.mp he).2⟩
    | none =>
      rw [hfind] at happly
      obtain rfl := Option.some.inj happly
      exact ⟨h.mono hle, hall⟩
  · obtain ⟨i, hslot, rfl⟩ := Option.map_eq_some_iff.mp happly
    constructor
    · exact indexSound_set h hslot record.type record.len.toNat offset record.seq hoffset
    · intro j e he
      rcases (live_set (indexSlot_some h hslot).1).mp he with ⟨_, rfl, _⟩ | ⟨_, hlive⟩
      · exact ⟨⟨record, by simpa using hwhole, rfl, rfl, rfl, rfl⟩, Nat.le_add_left _ _⟩
      · exact hall j e hlive

end JaszczurHal.KvIndex
