import JaszczurHal.KvSafety
import JaszczurHal.KvOpening

/-!
# Space for a record

Whether a record has space depends on the live records of the other keys only:
when the bank is full they are moved together, and the entry that the record
replaces is left out.
-/

set_option autoImplicit false

namespace JaszczurHal.KvCapacity
open ByteImage CheckedArith HalStatus KvRecord KvRecordSound KvStore KvIndex KvCompaction KvSafety

variable {cfg : Config} {answers : Answers} {s t : Store} {index : List Entry} {used : ℕ}

def othersSize (index : List Entry) (key : UInt16) : ℕ :=
  (index.map fun e => if e.inUse = true ∧ e.key ≠ key then recordSize e.len else 0).sum

def KeyLive (index : List Entry) (key : UInt16) : Prop := ∃ i e, Live index i e ∧ e.key = key

def IndexFull (index : List Entry) : Prop := ∀ e ∈ index, e.inUse = true

theorem compactedSize_eq (cfg : Config) (s : Store) (skip : Option ℕ) :
    compactedSize cfg s.index skip = cfg.publishSize+liveSize (without s skip).index := by
  rw [compactedSize, liveSize]
  congr 2
  apply List.ext_getElem?
  intro j
  rw [List.getElem?_map, List.getElem?_map, List.getElem?_zipIdx, Nat.zero_add]
  cases skip with
  | none =>
    rw [without]
    cases s.index[j]? with
    | none => rfl
    | some e => simp [entrySize]
  | some i =>
    rw [without, release_getElem?]
    by_cases hij : i = j
    · subst hij
      cases s.index[i]? with
      | none => simp
      | some e => simp [entrySize]
    · cases s.index[j]? with
      | none => simp [hij]
      | some e => simp [hij, entrySize]

theorem othersSize_new {key : UInt16} (h : ¬ KeyLive index key) :
    othersSize index key = liveSize index := by
  rw [othersSize, liveSize]
  congr 1
  apply List.map_congr_left
  intro e he
  obtain ⟨i, hi⟩ := List.mem_iff_getElem?.mp he
  rw [entrySize]
  by_cases huse : e.inUse = true
  · have hkey : e.key ≠ key := fun hkey => h ⟨i, e, ⟨hi, huse⟩, hkey⟩
    rw [if_pos ⟨huse, hkey⟩, if_pos huse]
  · rw [if_neg (fun hboth => huse hboth.1), if_neg huse]

theorem othersSize_live (h : IndexSound cfg index used) {i : ℕ} {e : Entry} (he : Live index i e) :
    othersSize index e.key = liveSize (release index i) := by
  rw [othersSize, liveSize]
  congr 1
  apply List.ext_getElem?
  intro j
  rw [List.getElem?_map, List.getElem?_map, release_getElem?]
  by_cases hij : i = j
  · subst hij
    rw [if_pos rfl, he.1]
    simp [entrySize]
  · rw [if_neg hij]
    cases hf : index[j]? with
    | none => rfl
    | some f =>
      rw [Option.map_some, Option.map_some, entrySize]
      by_cases huse : f.inUse = true
      · have hkey : f.key ≠ e.key := fun hkey => hij (h.keys i j e f he ⟨hf, huse⟩ hkey.symm)
        rw [if_pos ⟨huse, hkey⟩, if_pos huse]
      · rw [if_neg (fun hboth => huse hboth.1), if_neg huse]

/-- No space for a record of this length: the key is new and the index full,
or the record and those of the other keys are more than a bank. -/
def Refused (cfg : Config) (s : Store) (key : UInt16) (len : ℕ) : Prop :=
  ¬ KeyLive s.index key ∧ IndexFull s.index ∨
    s.bankSize < cfg.publishSize+othersSize s.index key+recordSize len

/-- What is not longer than the present value has space. -/
theorem shorter_not_refused (h : Sound cfg s) {i : ℕ} {e : Entry} (he : Live s.index i e) {len : ℕ}
    (hlen : len ≤ e.len) : ¬ Refused cfg s e.key len := by
  rintro (⟨hnew, _⟩ | hfull)
  · exact hnew ⟨i, e, he, rfl⟩
  · have hsum := sum_release_live he
    have htotal := h.index.total
    have hused := h.used
    have hsize : recordSize len = 18+len := rfl
    have hsize' : recordSize e.len = 18+e.len := rfl
    rw [othersSize_live h.index he] at hfull
    omega

theorem sound_without (h : Sound cfg s) (skip : Option ℕ) : Sound cfg (without s skip) := by
  cases skip with
  | none => exact h
  | some i =>
    constructor
    · exact h.room
    · exact h.region
    · exact h.append_positive
    · exact h.append_divides
    · exact h.active
    · exact h.used
    · exact h.flash
    · exact indexSound_release h.index i
    · exact fun j e he => h.records j e (live_release.mp he).2

def Fits (cfg : Config) (s : Store) (len : ℕ) (replaced : Option ℕ) : Prop :=
  cfg.publishSize+liveSize (without s replaced).index+recordSize len ≤ s.bankSize

structure Roomy (cfg : Config) (s : Store) (len : ℕ) (replaced : Option ℕ) (t : Store) : Prop where
  sound : Sound cfg t
  room : t.usedOffset+recordSize len ≤ t.bankSize
  origin : t = s ∨ Compacted cfg (without s replaced) t

theorem without_liveSize (index : List Entry) (skip : Option ℕ) :
    liveSize (without { s with index := index } skip).index ≤ liveSize index := by
  cases skip with
  | none => exact le_rfl
  | some i => exact sum_release i

theorem safe_ensureSpace (h : Sound cfg s) (len : ℕ) (replaced : Option ℕ) :
    Safe (ensureSpace cfg len replaced s) fun r =>
      (r.1 = .ok ∧ Fits cfg s len replaced ∧ Roomy cfg s len replaced r.2) ∨
        (r = (.enomem, s) ∧ ¬ Fits cfg s len replaced) := by
  have htotal := h.index.total
  have hless : liveSize (without s replaced).index ≤ liveSize s.index :=
    without_liveSize (s := s) s.index replaced
  rw [ensureSpace]
  apply safe_ite
  · intro hroom
    apply safe_pure
    left
    refine ⟨rfl, ?_, h, ?_, Or.inl rfl⟩
    · rw [Fits]
      omega
    · show s.usedOffset+_ ≤ s.bankSize
      omega
  · intro _
    rw [compactedSize_eq]
    apply safe_ite
    · intro hfull
      exact safe_pure (Or.inr ⟨rfl, not_le.mpr hfull⟩)
    · intro hfits
      have hwithout := sound_without h replaced
      apply safe_bind hwithout.safe_compact
      intro t ht
      have hbank : t.bankSize = s.bankSize := by
        rw [ht.others]
        cases replaced with
        | none => rfl
        | some i => rfl
      apply safe_pure
      left
      refine ⟨rfl, not_lt.mp hfits, hwithout.compacted ht, ?_, Or.inr ht⟩
      show t.usedOffset+_ ≤ t.bankSize
      rw [ht.used, hbank]
      exact not_lt.mp hfits

theorem Roomy.slot {key : UInt16} {len : ℕ} (h : Roomy cfg s len (indexFind s.index key) t)
    (hslot : ¬ (indexFind s.index key = none ∧ indexAlloc s.index = none)) :
    ∃ i, indexSlot t.index key = some i := by
  have hfree : ∀ {index : List Entry} {j : ℕ} {e : Entry}, index[j]? = some e → e.inUse = false →
      ∃ i, indexSlot index key = some i := by
    intro index j e he huse
    rw [indexSlot]
    cases indexFind index key with
    | some i => exact ⟨i, rfl⟩
    | none =>
      cases halloc : indexAlloc index with
      | some i => exact ⟨i, rfl⟩
      | none =>
        rw [indexAlloc_none halloc he] at huse
        cases huse
  rcases h.origin with rfl | hcompacted
  · rw [indexSlot]
    cases hfind : indexFind t.index key with
    | some i => exact ⟨i, rfl⟩
    | none =>
      cases halloc : indexAlloc t.index with
      | some i => exact ⟨i, rfl⟩
      | none => exact absurd ⟨hfind, halloc⟩ hslot
  · have hkept : ∀ {j : ℕ} {e : Entry},
        (without s (indexFind s.index key)).index[j]? = some e → e.inUse = false →
        t.index[j]? = some e := by
      intro j e he huse
      rw [hcompacted.free j, he]
      rintro ⟨f, hf, hfuse⟩
      rw [he] at hf
      rw [← Option.some.inj hf, huse] at hfuse
      cases hfuse
    cases hfind : indexFind s.index key with
    | some i =>
      rw [hfind] at hkept
      obtain ⟨e, he, _⟩ := indexFind_some hfind
      apply hfree (hkept (j := i) (e := { e with inUse := false }) _ rfl) rfl
      show (release s.index i)[i]? = _
      rw [release_getElem?, if_pos rfl, he.1]
      rfl
    | none =>
      rw [hfind] at hkept
      cases halloc : indexAlloc s.index with
      | some j =>
        obtain ⟨e, he, huse⟩ := indexAlloc_some halloc
        exact hfree (hkept he huse) huse
      | none => exact absurd ⟨hfind, halloc⟩ hslot

structure Appended (s : Store) (key : UInt16) (type : UInt8) (data : List UInt8) (t : Store) :
    Prop where
  written : Written s.bank s.usedOffset key type data s.nextSeq t.bank
  others : t = { s with
    bank := t.bank
    nextSeq := s.nextSeq+1
    usedOffset := s.usedOffset+recordSize data.length
    recordCount := s.recordCount+1 }

theorem safe_appendRecord (h : Sound cfg s) {key : UInt16} {type : UInt8} {data : List UInt8}
    (hroom : s.usedOffset+recordSize data.length ≤ s.bankSize) :
    Safe (appendRecord s key type data) fun r => r.1 = .ok ∧ Appended s key type data r.2 := by
  have hsmall := h.small
  rw [appendRecord]
  apply safe_ite
  · intro hfull
    omega
  · intro _
    apply safe_bind (safe_writeRecord hroom (by omega))
    intro bank hwritten
    apply safe_bind (safe_narrow (by omega))
    intro usedOffset hused
    subst hused
    apply safe_pure
    constructor
    · rfl
    · exact ⟨hwritten, rfl⟩

/-- The index that belongs to the new record makes the store sound again. -/
theorem Appended.sound {key : UInt16} {type : UInt8} {data : List UInt8}
    (ha : Appended s key type data t) (h : Sound cfg s)
    (hroom : s.usedOffset+recordSize data.length ≤ s.bankSize) {index : List Entry}
    (hindex : IndexSound cfg index (s.usedOffset+recordSize data.length))
    (hrecords : AllRecords t.bank index) : Sound cfg { t with index := index } := by
  rw [ha.others]
  constructor
  · exact h.room
  · exact h.region
  · exact h.append_positive
  · exact h.append_divides
  · exact h.active
  · exact hroom
  · exact fun hlog => (h.flash hlog).trans (Nat.le_add_right _ _)
  · exact hindex
  · exact hrecords

theorem Appended.records {key : UInt16} {type : UInt8} {data : List UInt8}
    (ha : Appended s key type data t) (h : Sound cfg s) : AllRecords t.bank s.index :=
  records_congr h.index h.records fun i _ hi => ha.written.others i (Or.inl hi)

theorem safe_storeRecord (h : Sound cfg s) {key : UInt16} {type : UInt8} {data : List UInt8}
    (hroom : s.usedOffset+recordSize data.length ≤ s.bankSize) {i : ℕ}
    (hslot : indexSlot s.index key = some i) :
    Safe (storeRecord cfg answers key type data s) (Kept cfg answers) := by
  have hsmall := h.small
  have hheader : KV_REC_HDR_SIZE = 16 := rfl
  have hsize : recordSize data.length = 18+data.length := rfl
  rw [storeRecord]
  apply safe_bind (safe_narrow (by omega))
  intro payloadOffset hpayload
  apply safe_bind (safe_appendRecord h hroom)
  rintro ⟨status, t⟩ ⟨rfl, happended⟩
  replace happended : Appended s key type data t := happended
  have hindex : t.index = s.index := by rw [happended.others]
  have hseq : t.nextSeq-1 = s.nextSeq := by
    rw [happended.others]
    exact UInt32.add_sub_cancel s.nextSeq 1
  apply safe_ite
  · intro hfailed
    cases hfailed
  · intro _
    rw [hindex, hslot]
    apply safe_finishMutation
    rw [hseq, hpayload]
    apply happended.sound h hroom
    · exact indexSound_set h.index hslot type data.length s.usedOffset s.nextSeq le_rfl
    · intro j e he
      rcases (live_set (indexSlot_some h.index hslot).1).mp he with ⟨_, rfl, _⟩ | ⟨_, hlive⟩
      · constructor
        · refine ⟨_, by simpa using happended.written.whole, rfl, rfl, ?_, rfl⟩
          show (UInt16.ofNat data.length).toNat = data.length
          rw [UInt16.toNat_ofNat']
          omega
        · exact Nat.le_add_left _ _
      · exact happended.records h j e hlive

theorem keyLive_of_find {key : UInt16} {i : ℕ} (h : indexFind index key = some i) :
    KeyLive index key := by
  obtain ⟨e, he, hkey⟩ := indexFind_some h
  exact ⟨i, e, he, hkey⟩

theorem not_keyLive_of_find {key : UInt16} (h : indexFind index key = none) :
    ¬ KeyLive index key := by
  rintro ⟨i, e, he, hkey⟩
  exact indexFind_none h he hkey

theorem indexFull_iff : IndexFull index ↔ indexAlloc index = none := by
  rw [indexAlloc, List.findIdx?_eq_none_iff]
  simp [IndexFull]

/-- Space for the key is space for the record that replaces its own one. -/
theorem refused_iff (h : Sound cfg s) (key : UInt16) (len : ℕ) :
    Refused cfg s key len ↔ (indexFind s.index key = none ∧ indexAlloc s.index = none) ∨
      ¬ Fits cfg s len (indexFind s.index key) := by
  rw [Refused, Fits, indexFull_iff, not_le]
  cases hfind : indexFind s.index key with
  | none =>
    have hnew := not_keyLive_of_find hfind
    rw [othersSize_new hnew]
    simp [hnew, without]
  | some i =>
    obtain ⟨e, he, rfl⟩ := indexFind_some hfind
    rw [othersSize_live h.index he]
    simp [keyLive_of_find hfind, without]

structure SetOutcome (cfg : Config) (answers : Answers) (s : Store) (key : UInt16) (len : ℕ)
    (r : Status × Store) : Prop where
  sound : Sound cfg r.2
  tooLarge : s.bankSize < cfg.publishSize+recordSize len → r = (.eoverflow, s)
  refused : cfg.publishSize+recordSize len ≤ s.bankSize → Refused cfg s key len → r = (.enomem, s)
  accepted : ¬ Refused cfg s key len → r.1 = .enomem → answers.replace = .enomem

variable {key : UInt16} {type : UInt8} {data : List UInt8}

theorem Kept.outcome {len : ℕ} {r : Status × Store} (h : Kept cfg answers r)
    (hfits : cfg.publishSize+recordSize len ≤ s.bankSize) (hnot : ¬ Refused cfg s key len) :
    SetOutcome cfg answers s key len r where
  sound := h.1
  tooLarge := fun hlarge => absurd hfits (not_le.mpr hlarge)
  refused := fun _ hrefused => absurd hrefused hnot
  accepted := fun _ => h.2

theorem refused_outcome {len : ℕ} (h : Sound cfg s)
    (hfits : cfg.publishSize+recordSize len ≤ s.bankSize) (hrefused : Refused cfg s key len) :
    SetOutcome cfg answers s key len (.enomem, s) where
  sound := h
  tooLarge := fun hlarge => absurd hfits (not_le.mpr hlarge)
  refused := fun _ _ => rfl
  accepted := fun hnot => absurd hrefused hnot

theorem safe_setChanged (h : Sound cfg s)
    (hfits : cfg.publishSize+recordSize data.length ≤ s.bankSize) :
    Safe (setChanged cfg answers key type data (indexFind s.index key) s)
      (SetOutcome cfg answers s key data.length) := by
  rw [setChanged]
  apply safe_ite
  · intro hfull
    exact safe_pure (refused_outcome h hfits ((refused_iff h key _).mpr (Or.inl hfull)))
  · intro hslot
    apply safe_bind (safe_ensureSpace h data.length (indexFind s.index key))
    rintro ⟨status, t⟩ (⟨rfl, hroom, hroomy⟩ | ⟨hsame, hfull⟩)
    · obtain ⟨i, hi⟩ := Roomy.slot hroomy hslot
      have hnot : ¬ Refused cfg s key data.length := by
        rw [refused_iff h]
        exact not_or.mpr ⟨hslot, not_not.mpr hroom⟩
      apply safe_ite
      · intro hfailed
        cases hfailed
      · intro _
        apply safe_mono (safe_storeRecord hroomy.sound hroomy.room hi)
        intro r hr
        exact Kept.outcome hr hfits hnot
    · obtain ⟨rfl, rfl⟩ := Prod.mk.inj hsame
      apply safe_ite
      · intro _
        exact safe_pure (refused_outcome h hfits ((refused_iff h key _).mpr (Or.inr hfull)))
      · intro hno
        exact absurd rfl hno

theorem safe_unchanged (h : Sound cfg s) {i : ℕ} {e : Entry} (he : Live s.index i e) :
    Safe (unchanged s e type data) fun same => same = true → data.length = e.len := by
  have hplaced := h.index.placed i e he
  have hused := h.used
  rw [unchanged]
  apply safe_ite
  · intro _
    exact safe_pure nofun
  · intro hsame
    rw [not_or, not_not, not_not] at hsame
    apply safe_bind (safe_fetch (by omega))
    intro _ _
    exact safe_pure fun _ => hsame.2.symm

theorem safe_setBlob (h : Sound cfg s) : Safe (setBlob cfg answers key type data s)
    (SetOutcome cfg answers s key data.length) := by
  rw [setBlob]
  apply safe_ite
  · intro hlarge
    apply safe_pure
    constructor
    · exact h
    · exact fun _ => rfl
    · intro hfits
      omega
    · exact fun _ => nofun
  · intro hsmall
    have hfits : cfg.publishSize+recordSize data.length ≤ s.bankSize := by omega
    have hchanged : Safe (setChanged cfg answers key type data (indexFind s.index key) s)
        (SetOutcome cfg answers s key data.length) := safe_setChanged h hfits
    cases hfind : indexFind s.index key with
    | none =>
      rw [hfind] at hchanged
      exact hchanged
    | some i =>
      rw [hfind] at hchanged
      obtain ⟨e, he, rfl⟩ := indexFind_some hfind
      have hread : readAt s.index i = .ok e := by rw [readAt, he.1]
      dsimp only
      rw [hread, ok_bind]
      apply safe_bind (safe_unchanged h he)
      intro same hsame
      apply safe_ite
      · intro hequal
        apply safe_mono (safe_finishNoChange h)
        intro r hr
        exact Kept.outcome hr hfits (shorter_not_refused h he (hsame hequal).le)
      · intro _
        exact hchanged

theorem safe_deleteKey (h : Sound cfg s) :
    Safe (deleteKey cfg answers key s) (Kept cfg answers) := by
  rw [deleteKey]
  cases hfind : indexFind s.index key with
  | none => exact safe_finishNoChange h
  | some i =>
    obtain ⟨e, he, rfl⟩ := indexFind_some hfind
    apply safe_bind (safe_ensureSpace h 0 (some i))
    rintro ⟨status, t⟩ (⟨rfl, _, hroomy⟩ | ⟨_, hfull⟩)
    · replace hroomy : Roomy cfg s 0 (some i) t := hroomy
      apply safe_ite
      · intro hfailed
        cases hfailed
      · intro _
        have hrecord : Safe (appendRecord t e.key KV_REC_TYPE_DELETE []) fun r =>
            r.1 = .ok ∧ Appended t e.key KV_REC_TYPE_DELETE [] r.2 :=
          safe_appendRecord hroomy.sound hroomy.room
        apply safe_bind hrecord
        rintro ⟨status, u⟩ ⟨rfl, happended⟩
        replace happended : Appended t e.key KV_REC_TYPE_DELETE [] u := happended
        have hindex : u.index = t.index := by rw [happended.others]
        apply safe_ite
        · intro hfailed
          cases hfailed
        · intro _
          rw [hindex]
          apply safe_finishMutation
          apply happended.sound hroomy.sound hroomy.room
          · exact (indexSound_release hroomy.sound.index i).mono (Nat.le_add_right _ _)
          · exact fun j f hf => happended.records hroomy.sound j f (live_release.mp hf).2
    · have hspace := shorter_not_refused h he (Nat.zero_le e.len)
      rw [refused_iff h, hfind] at hspace
      exact absurd (Or.inr hfull) hspace

end JaszczurHal.KvCapacity

namespace JaszczurHal.KvRuns
open ByteImage CheckedArith HalStatus KvRecord KvRecordSound KvStore KvIndex KvCompaction KvSafety
open KvCapacity KvOpening

variable {cfg : Config} {answers : Answers} {s : Store} {calls : List (Answers × Op)}

def Steady (cfg : Config) (s : Store) : Prop := s.ready = true → Sound cfg s

theorem safe_whenReady {call : Checked (Status × Store)}
    (hcall : s.ready = true → Safe call fun r => Sound cfg r.2) :
    Safe (whenReady s call) fun r => Steady cfg r.2 := by
  apply safe_ite
  · intro hready
    apply safe_mono (hcall hready)
    intro r hr _
    exact hr
  · intro hclosed
    exact safe_pure fun hready => absurd hready hclosed

theorem kept_sound {call : Checked (Status × Store)} (h : Safe call (Kept cfg answers)) :
    Safe call fun r => Sound cfg r.2 :=
  safe_mono h fun _ hr => hr.1

theorem set_sound {call : Checked (Status × Store)} {key : UInt16} {len : ℕ}
    (h : Safe call (SetOutcome cfg answers s key len)) : Safe call fun r => Sound cfg r.2 :=
  safe_mono h fun _ hr => hr.sound

theorem safe_perform (h : Steady cfg s) (answers : Answers) (op : Op) :
    Safe (perform cfg s answers op) fun r => Steady cfg r.2 := by
  cases op with
  | init medium baseAddr sizeBytes =>
    exact safe_mono (safe_initEx cfg medium answers _ _ s) fun _ hr => hr.ready
  | setU32 key value =>
    apply safe_whenReady
    intro hready
    exact set_sound (safe_setBlob (h hready))
  | setBlob key data =>
    apply safe_whenReady
    intro hready
    exact set_sound (safe_setBlob (h hready))
  | delete key =>
    apply safe_whenReady
    intro hready
    exact kept_sound (safe_deleteKey (h hready))
  | gc =>
    apply safe_whenReady
    intro hready
    apply safe_bind (h hready).safe_compact
    intro t ht
    have hsound := (h hready).compacted ht
    apply safe_ite
    · intro _
      exact kept_sound (safe_commitStore hsound)
    · intro _
      exact safe_pure hsound
  | commit =>
    apply safe_whenReady
    intro hready
    exact kept_sound (safe_commitStore (h hready))
  | setAutoCommit enabled =>
    apply safe_pure
    intro hready
    have hsound := h hready
    exact ⟨hsound.room, hsound.region, hsound.append_positive, hsound.append_divides,
      hsound.active, hsound.used, hsound.flash, hsound.index, hsound.records⟩

theorem safe_step (h : Steady cfg s) (call : Answers × Op) :
    Safe (step cfg s call) (Steady cfg) := by
  apply safe_bind (safe_perform h call.1 call.2)
  intro r hr
  exact safe_pure hr

theorem safe_calls (h : Steady cfg s) (calls : List (Answers × Op)) :
    Safe (calls.foldlM (step cfg) s) (Steady cfg) := by
  induction calls generalizing s with
  | nil => exact safe_pure h
  | cons call calls ih =>
    rw [List.foldlM_cons]
    apply safe_bind (safe_step h call)
    intro t ht
    exact ih ht

theorem safe_run (cfg : Config) (calls : List (Answers × Op)) :
    Safe (run cfg calls) (Steady cfg) :=
  safe_calls (fun hready => absurd hready Bool.false_ne_true) calls

theorem run_sound (hrun : run cfg calls = .ok s) (hready : s.ready = true) : Sound cfg s :=
  safe_value (safe_run cfg calls) hrun hready

theorem without_bankSize (s : Store) (skip : Option ℕ) :
    (without s skip).bankSize = s.bankSize := by
  cases skip with
  | none => rfl
  | some i => rfl

def Untouched (s : Store) (state : Moving) (j : ℕ) (e : Entry) : Prop :=
  state.2.1[j]? = some e ∧ ∀ i, e.payloadOffset-KV_REC_HDR_SIZE ≤ i →
    i < e.payloadOffset+e.len+KV_REC_FTR_SIZE → state.1 i = s.bank i

/-- In every state the records are compacted without a loss, also when the
one at `skip` is left out: at no point of the loop a record that is still to
be moved was written over, and in the end every entry has its whole record. -/
theorem compaction_keeps_records (hrun : run cfg calls = .ok s) (hready : s.ready = true)
    (skip : Option ℕ) :
    (∃ t, compact cfg (without s skip) = .ok t ∧ Compacted cfg (without s skip) t ∧
      IndexSound cfg t.index t.usedOffset) ∧
    ∀ done todo, liveOrder (without s skip).index = done ++ todo →
      ∃ state, done.foldlM (moveRecord s.bankSize)
          (s.bank, (without s skip).index, cfg.publishSize) = .ok state ∧
        ∀ j ∈ todo, ∀ e, Live (without s skip).index j e → Untouched s state j e := by
  have hsound := sound_without (run_sound hrun hready) skip
  have hsmall := hsound.small
  have hheader : KV_REC_HDR_SIZE = 16 := rfl
  constructor
  · obtain ⟨t, ht, hcompacted⟩ := hsound.safe_compact
    exact ⟨t, ht, hcompacted, hcompacted.index_sound hsound.index⟩
  · intro done todo horder
    obtain ⟨state, hstate, hmoved⟩ := safe_moves (m := s.bank) hsound.index hsound.used
      (by omega) horder
    rw [without_bankSize] at hstate
    refine ⟨state, hstate, ?_⟩
    intro j hj e he
    have hahead := hmoved.ahead j hj e he
    have hnodup := liveOrder_nodup (without s skip).index
    rw [horder] at hnodup
    constructor
    · rw [hmoved.kept j fun hdone => (List.nodup_append.mp hnodup).2.2 j hdone j hj rfl]
      exact he.1
    · intro i hlow _
      exact hmoved.bytes i (by omega)

def smallConfig : Config :=
  ⟨64, 2, 24, by decide, by decide, by decide, by decide⟩

def blankMedium : Medium :=
  ⟨some at24c256, fun _ _ => 0xFF, .ok, .ok, .ok, fun _ => 0⟩

def healthy : Answers := ⟨.ok, (.ok, true), .ok⟩

def smallCalls : List (Answers × Op) :=
  [(healthy, .init blankMedium 0 128), (healthy, .setU32 1 7)]

theorem smallCalls_state : (run smallConfig smallCalls).map
    (fun s => (s.ready, s.bankSize, s.index)) =
      .ok (true, 64, [⟨true, 1, 1, 4, 40, 1⟩, emptyEntry]) := by
  decide +kernel

/-- Key 1 is stored again before a commit, so that its first record is dead. -/
def movingConfig : Config :=
  ⟨128, 2, 24, by decide, by decide, by decide, by decide⟩

def movingCalls : List (Answers × Op) :=
  [(healthy, .init blankMedium 0 256), (healthy, .setAutoCommit false), (healthy, .setU32 1 7),
    (healthy, .setU32 2 9), (healthy, .setU32 1 8)]

theorem movingCalls_state : (run movingConfig movingCalls).map (fun s => (s.ready, s.index)) =
      .ok (true, [⟨true, 1, 1, 4, 84, 3⟩, ⟨true, 2, 1, 4, 62, 2⟩]) ∧
    ((run movingConfig movingCalls).bind (compact movingConfig)).map Store.index =
      .ok [⟨true, 1, 1, 4, 62, 3⟩, ⟨true, 2, 1, 4, 40, 2⟩] := by
  decide +kernel

theorem compaction_keeps_records_moved : ∃ s t, run movingConfig movingCalls = .ok s ∧
    s.index = [⟨true, 1, 1, 4, 84, 3⟩, ⟨true, 2, 1, 4, 62, 2⟩] ∧
    compact movingConfig s = .ok t ∧ Compacted movingConfig s t ∧
    t.index = [⟨true, 1, 1, 4, 62, 3⟩, ⟨true, 2, 1, 4, 40, 2⟩] := by
  obtain ⟨s, hs, _⟩ := safe_run movingConfig movingCalls
  obtain ⟨hstate, hmoved⟩ := movingCalls_state
  rw [hs] at hstate hmoved
  obtain ⟨hready, hindex⟩ := Prod.mk.inj (Except.ok.inj hstate)
  obtain ⟨⟨t, ht, hcompacted, _⟩, _⟩ := compaction_keeps_records hs hready none
  have ht : compact movingConfig s = .ok t := ht
  have hmoved : (compact movingConfig s).map Store.index = _ := hmoved
  rw [ht] at hmoved
  exact ⟨s, t, hs, hindex, ht, hcompacted, Except.ok.inj hmoved⟩

def Op.stored : Op → Option (UInt16 × List UInt8)
  | .setU32 key value => some (key, ByteImage.storeLe32 value)
  | .setBlob key data => some (key, data.val)
  | _ => none

theorem safe_stored (h : Sound cfg s) (hready : s.ready = true) (answers : Answers) {op : Op}
    {key : UInt16} {data : List UInt8} (hop : Op.stored op = some (key, data)) :
    Safe (perform cfg s answers op) (SetOutcome cfg answers s key data.length) := by
  cases op with
  | setU32 key value =>
    obtain ⟨rfl, rfl⟩ := Prod.mk.inj (Option.some.inj hop)
    rw [perform, whenReady, if_pos hready]
    exact safe_setBlob h
  | setBlob key data =>
    obtain ⟨rfl, rfl⟩ := Prod.mk.inj (Option.some.inj hop)
    rw [perform, whenReady, if_pos hready]
    exact safe_setBlob h
  | init medium baseAddr sizeBytes => cases hop
  | delete key => cases hop
  | gc => cases hop
  | commit => cases hop
  | setAutoCommit enabled => cases hop

/-- Whether a value is taken does not depend on the history: only on the live
records of the other keys, and HAL_ENOMEM leaves the store as it was unless
the medium itself answers so. -/
theorem space_of_index (hrun : run cfg calls = .ok s) (hready : s.ready = true)
    (answers : Answers) :
    (∀ op key data, Op.stored op = some (key, data) →
      ∃ status t, perform cfg s answers op = .ok (status, t) ∧
        (s.bankSize < cfg.publishSize+recordSize data.length → status = .eoverflow ∧ t = s) ∧
        (cfg.publishSize+recordSize data.length ≤ s.bankSize → Refused cfg s key data.length →
          status = .enomem ∧ t = s) ∧
        (¬ Refused cfg s key data.length → status = .enomem → answers.replace = .enomem)) ∧
    (∀ i e len, Live s.index i e → len ≤ e.len → ¬ Refused cfg s e.key len) ∧
    ∀ key, ∃ status t, perform cfg s answers (.delete key) = .ok (status, t) ∧
      (status = .enomem → answers.replace = .enomem) := by
  have hsound := run_sound hrun hready
  refine ⟨?_, ?_, ?_⟩
  · intro op key data hop
    obtain ⟨⟨status, t⟩, hperform, houtcome⟩ := safe_stored hsound hready answers hop
    refine ⟨status, t, hperform, ?_, ?_, houtcome.accepted⟩
    · intro hlarge
      exact Prod.mk.inj (houtcome.tooLarge hlarge)
    · intro hfits hrefused
      exact Prod.mk.inj (houtcome.refused hfits hrefused)
  · intro i e len he hlen
    exact shorter_not_refused hsound he hlen
  · intro key
    have hdelete : Safe (perform cfg s answers (.delete key)) (Kept cfg answers) := by
      rw [perform, whenReady, if_pos hready]
      exact safe_deleteKey hsound
    obtain ⟨⟨status, t⟩, hperform, hkept⟩ := hdelete
    exact ⟨status, t, hperform, hkept.2⟩

/-- A second value does not fit beside the first one. -/
theorem space_of_index_small : ∃ s, run smallConfig smallCalls = .ok s ∧
    perform smallConfig s healthy (.setU32 2 9) = .ok (.enomem, s) := by
  obtain ⟨s, hs, _⟩ := safe_run smallConfig smallCalls
  have hstate := smallCalls_state
  rw [hs] at hstate
  obtain ⟨hready, hpair⟩ := Prod.mk.inj (Except.ok.inj hstate)
  obtain ⟨hbank, hindex⟩ := Prod.mk.inj hpair
  obtain ⟨status, t, hperform, _, hrefused, _⟩ :=
    (space_of_index hs hready healthy).1 (.setU32 2 9) 2 _ rfl
  have hfull : Refused smallConfig s 2 (storeLe32 9).length := by
    right
    rw [hbank, hindex]
    decide
  obtain ⟨rfl, rfl⟩ := hrefused (by rw [hbank]; decide) hfull
  exact ⟨_, hs, hperform⟩

/-- A value that no empty bank holds is refused with another status. -/
theorem large_value_overflows : ∃ s t, run smallConfig smallCalls = .ok s ∧ s.ready = true ∧
    Refused smallConfig s 2 (List.replicate 30 0).length ∧
      perform smallConfig s healthy (.setBlob 2 ⟨List.replicate 30 0, by decide⟩) =
        .ok (.eoverflow, t) := by
  obtain ⟨s, hs, _⟩ := safe_run smallConfig smallCalls
  have hstate := smallCalls_state
  rw [hs] at hstate
  obtain ⟨hready, hpair⟩ := Prod.mk.inj (Except.ok.inj hstate)
  obtain ⟨hbank, hindex⟩ := Prod.mk.inj hpair
  refine ⟨s, s, hs, hready, ?_, ?_⟩
  · right
    rw [hbank, hindex]
    decide
  · rw [perform, whenReady, if_pos hready, setBlob, if_pos]
    · rfl
    · rw [hbank]
      decide

end JaszczurHal.KvRuns
