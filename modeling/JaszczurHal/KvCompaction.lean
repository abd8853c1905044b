import JaszczurHal.KvIndex

/-!
# Moving the live records to the front

The records are moved one after the other in the order of their payloads. The
write cursor never passes the start of a record that is still to be moved, so
that record is as it was when its turn comes.
-/

set_option autoImplicit false

namespace JaszczurHal.KvCompaction
open ByteImage CheckedArith KvRecord KvRecordSound KvStore KvIndex

variable {cfg : Config} {index : List Entry} {used size : ℕ} {m : Image}

def offsetOf (index : List Entry) (i : ℕ) : ℕ := (index.getD i emptyEntry).payloadOffset

theorem insertEntry_perm (index : List Entry) (item : ℕ) (sorted : List ℕ) :
    (insertEntry index item sorted).Perm (item :: sorted) := by
  induction sorted with
  | nil => exact .refl _
  | cons last rest ih =>
    rw [insertEntry]
    split
    · exact (ih.cons last).trans (.swap item last rest)
    · exact .refl _

def Descending (index : List Entry) (sorted : List ℕ) : Prop :=
  sorted.Pairwise fun a b => offsetOf index b ≤ offsetOf index a

theorem insertEntry_descending {item : ℕ} {sorted : List ℕ} (h : Descending index sorted) :
    Descending index (insertEntry index item sorted) := by
  induction sorted with
  | nil => exact List.pairwise_singleton _ _
  | cons last rest ih =>
    obtain ⟨hlast, hrest⟩ := List.pairwise_cons.mp h
    rw [insertEntry]
    split
    · rename_i hsink
      apply List.pairwise_cons.mpr
      constructor
      · intro b hb
        rcases List.mem_cons.mp ((insertEntry_perm index item rest).mem_iff.mp hb) with rfl | hmem
        · exact hsink.le
        · exact hlast b hmem
      · exact ih hrest
    · rename_i hstay
      have hle : offsetOf index last ≤ offsetOf index item := not_lt.mp hstay
      apply List.pairwise_cons.mpr
      constructor
      · intro b hb
        rcases List.mem_cons.mp hb with rfl | hmem
        · exact hle
        · exact (hlast b hmem).trans hle
      · exact h

theorem sort_perm (index : List Entry) (items sorted : List ℕ) :
    (items.foldl (fun sorted item => insertEntry index item sorted) sorted).Perm
      (items ++ sorted) := by
  induction items generalizing sorted with
  | nil => exact .refl _
  | cons item items ih =>
    have hstep := (insertEntry_perm index item sorted).append_left items
    exact (ih _).trans (hstep.trans List.perm_middle)

theorem sort_descending (items : List ℕ) {sorted : List ℕ} (h : Descending index sorted) :
    Descending index (items.foldl (fun sorted item => insertEntry index item sorted) sorted) := by
  induction items generalizing sorted with
  | nil => exact h
  | cons item items ih => exact ih (insertEntry_descending h)

def liveEntries (index : List Entry) : List ℕ :=
  (List.range index.length).filter fun i => (index.getD i emptyEntry).inUse

theorem liveOrder_perm (index : List Entry) : (liveOrder index).Perm (liveEntries index) := by
  have hsort := sort_perm index (liveEntries index) []
  rw [List.append_nil] at hsort
  exact (List.reverse_perm _).trans hsort

theorem getD_of {i : ℕ} {e : Entry} (h : index[i]? = some e) : index.getD i emptyEntry = e := by
  rw [List.getD_eq_getElem?_getD, h]
  rfl

theorem mem_liveOrder {i : ℕ} : i ∈ liveOrder index ↔ ∃ e, Live index i e := by
  rw [(liveOrder_perm index).mem_iff, liveEntries, List.mem_filter, List.mem_range]
  constructor
  · rintro ⟨hi, huse⟩
    have he := List.getElem?_eq_getElem hi
    rw [getD_of he] at huse
    exact ⟨_, he, huse⟩
  · rintro ⟨e, he⟩
    refine ⟨he.lt, ?_⟩
    rw [getD_of he.1]
    exact he.2

theorem liveOrder_nodup (index : List Entry) : (liveOrder index).Nodup :=
  (liveOrder_perm index).nodup_iff.mpr (List.nodup_range.filter _)

def Before (index : List Entry) (i j : ℕ) : Prop :=
  ∀ e f, Live index i e → Live index j f → e.payloadOffset+e.len+KV_REC_OVERHEAD ≤ f.payloadOffset

theorem liveOrder_sorted (h : IndexSound cfg index used) :
    (liveOrder index).Pairwise (Before index) := by
  have hdescending : Descending index (liveOrder index).reverse := by
    rw [liveOrder, List.reverse_reverse]
    exact sort_descending _ List.Pairwise.nil
  have hsorted := List.pairwise_reverse.mp hdescending
  apply (hsorted.and (liveOrder_nodup index)).imp
  rintro i j ⟨hle, hne⟩ e f he hf
  rw [offsetOf, offsetOf, getD_of he.1, getD_of hf.1] at hle
  have hoverhead : KV_REC_OVERHEAD = 18 := rfl
  rcases h.apart i j e f he hf hne with hfirst | hsecond
  · exact hfirst
  · omega

def sizeOf (index : List Entry) (i : ℕ) : ℕ := entrySize (index.getD i emptyEntry)

theorem sum_range (index : List Entry) :
    ((List.range index.length).map (sizeOf index)).sum = liveSize index := by
  have hlist : (List.range index.length).map (sizeOf index) = index.map entrySize := by
    apply List.ext_getElem
    · simp
    · intro i hi hi'
      have hlt : i < index.length := by simpa using hi'
      simp only [List.getElem_map, List.getElem_range, sizeOf]
      rw [getD_of (List.getElem?_eq_getElem hlt)]
  rw [hlist, liveSize]

theorem sum_filter_live (index : List Entry) (items : List ℕ) :
    ((items.filter fun i => (index.getD i emptyEntry).inUse).map (sizeOf index)).sum =
      (items.map (sizeOf index)).sum := by
  induction items with
  | nil => rfl
  | cons i items ih =>
    rw [List.filter_cons, List.map_cons, List.sum_cons]
    cases huse : (index.getD i emptyEntry).inUse with
    | true => rw [if_pos rfl, List.map_cons, List.sum_cons, ih]
    | false =>
      have hzero : sizeOf index i = 0 := by
        rw [sizeOf, entrySize, huse]
        rfl
      rw [if_neg Bool.false_ne_true, ih, hzero, Nat.zero_add]

/-- The live records together are as long as the index says. -/
theorem sum_liveOrder (index : List Entry) :
    ((liveOrder index).map (sizeOf index)).sum = liveSize index := by
  rw [((liveOrder_perm index).map _).sum_eq, liveEntries, sum_filter_live, sum_range]

theorem decode_congr {m' : Image} {offset : ℕ}
    (h : ∀ i, offset ≤ i → i < offset+KV_REC_HDR_SIZE → m' i = m i) :
    decodeRecordHeader m' offset = decodeRecordHeader m offset := by
  have hheader : KV_REC_HDR_SIZE = 16 := rfl
  have hbyte : ∀ i, i < 16 → m' (offset+i) = m (offset+i) :=
    fun i hi => h (offset+i) (by omega) (by omega)
  have hhalf : ∀ i, i+1 < 16 → loadLe16 m' (offset+i) = loadLe16 m (offset+i) := by
    intro i hi
    apply loadLe16_congr
    intro k hk
    rw [Nat.add_assoc]
    exact hbyte _ (by omega)
  have hword : ∀ i, i+3 < 16 → loadLe32 m' (offset+i) = loadLe32 m (offset+i) := by
    intro i hi
    apply loadLe32_congr
    intro k hk
    rw [Nat.add_assoc]
    exact hbyte _ (by omega)
  rw [decodeRecordHeader, decodeRecordHeader]
  congr 1
  · exact hhalf 0 (by decide)
  · exact hhalf 2 (by decide)
  · exact hbyte 4 (by decide)
  · exact hbyte 5 (by decide)
  · exact hhalf 6 (by decide)
  · exact hword 8 (by decide)
  · exact hhalf 12 (by decide)
  · exact hhalf 14 (by decide)

theorem whole_congr {m' : Image} {offset : ℕ} {record : RecordHeader} (h : Whole m offset record)
    (hsame : ∀ i, offset ≤ i → i < offset+recordSize record.len.toNat → m' i = m i) :
    Whole m' offset record := by
  have hheader : KV_REC_HDR_SIZE = 16 := rfl
  have hsize : recordSize record.len.toNat = 18+record.len.toNat := rfl
  constructor
  · rw [decode_congr fun i hlow hhigh => hsame i hlow (by omega)]
    exact h.decoded
  · exact h.magic
  · exact h.flags
  · exact h.headerCrc
  · rw [slice_congr fun i hlow hhigh => hsame i (by omega) (by omega)]
    exact h.payloadCrc
  · have hend : loadLe16 m' (offset+KV_REC_HDR_SIZE+record.len.toNat) =
        loadLe16 m (offset+KV_REC_HDR_SIZE+record.len.toNat) :=
      loadLe16_congr fun k hk => hsame _ (by omega) (by omega)
    rw [hend]
    exact h.footer

theorem recordAt_congr {m' : Image} {e : Entry} (h : RecordAt m e)
    (hsame : ∀ i, e.payloadOffset-KV_REC_HDR_SIZE ≤ i →
      i < e.payloadOffset+e.len+KV_REC_FTR_SIZE → m' i = m i) : RecordAt m' e := by
  obtain ⟨⟨record, hwhole, hkey, htype, hlen, hseq⟩, hbehind⟩ := h
  have hheader : KV_REC_HDR_SIZE = 16 := rfl
  have hfooter : KV_REC_FTR_SIZE = 2 := rfl
  have hsize : recordSize record.len.toNat = 18+record.len.toNat := rfl
  refine ⟨⟨record, whole_congr hwhole fun i hlow hhigh => hsame i hlow ?_, hkey, htype, hlen, hseq⟩,
    hbehind⟩
  omega

abbrev Moving : Type := Image × List Entry × ℕ

structure MovedEntry (m : Image) (e : Entry) (m' : Image) (e' : Entry) : Prop where
  same : e' = { e with payloadOffset := e'.payloadOffset }
  record : RecordAt m' e'
  payload : slice m' e'.payloadOffset e.len = slice m e.payloadOffset e.len

structure Moved (cfg : Config) (m : Image) (index : List Entry) (done todo : List ℕ)
    (state : Moving) : Prop where
  destination : state.2.2 = cfg.publishSize+(done.map (sizeOf index)).sum
  ahead : ∀ j ∈ todo, ∀ e, Live index j e → state.2.2+KV_REC_HDR_SIZE ≤ e.payloadOffset
  bytes : ∀ i, state.2.2 ≤ i → state.1 i = m i
  length : state.2.1.length = index.length
  kept : ∀ j, j ∉ done → state.2.1[j]? = index[j]?
  moved : ∀ j ∈ done, ∀ e, Live index j e → ∃ e', state.2.1[j]? = some e' ∧
    MovedEntry m e state.1 e' ∧ cfg.publishSize+KV_REC_HDR_SIZE ≤ e'.payloadOffset ∧
      e'.payloadOffset+e.len+KV_REC_FTR_SIZE ≤ state.2.2
  sorted : ∀ j ∈ done, ∀ k ∈ done, ∀ e f e' f', Live index j e → Live index k f →
    state.2.1[j]? = some e' → state.2.1[k]? = some f' → e.payloadOffset < f.payloadOffset →
      e'.payloadOffset+e.len+KV_REC_OVERHEAD ≤ f'.payloadOffset

/-- One step of the loop: the record stands whole at the destination, the slot
says so, and what is behind the record is as it was. -/
structure Stepped (m : Image) (state : Moving) (j : ℕ) (e e' : Entry) (state' : Moving) : Prop where
  place : e'.payloadOffset = state.2.2+KV_REC_HDR_SIZE
  entry : MovedEntry m e state'.1 e'
  slot : state'.2.1 = state.2.1.set j e'
  destination : state'.2.2 = state.2.2+(KV_REC_OVERHEAD+e.len)
  below : ∀ i, i < state.2.2 → state'.1 i = state.1 i
  above : ∀ i, state'.2.2 ≤ i → state'.1 i = m i

/-- The payload of the record is still in place, so that it is what is written. -/
theorem safe_step (h : IndexSound cfg index used) (hused : used ≤ size) (hsize : size < 2^16)
    {done todo : List ℕ} {j : ℕ} {state : Moving} {e : Entry} (he : Live index j e)
    (hnot : j ∉ done) (hmoved : Moved cfg m index done (j :: todo) state) :
    Safe (moveRecord size state j) fun state' => ∃ e', Stepped m state j e e' state' := by
  obtain ⟨bank, entries, destination⟩ := state
  have hheader : KV_REC_HDR_SIZE = 16 := rfl
  have hfooter : KV_REC_FTR_SIZE = 2 := rfl
  have hoverhead : KV_REC_OVERHEAD = 18 := rfl
  have hentry : entries[j]? = some e := (hmoved.kept j hnot).trans he.1
  have hplaced := h.placed j e he
  have hstart : destination+KV_REC_HDR_SIZE ≤ _ := hmoved.ahead j List.mem_cons_self e he
  have hbytes : ∀ i, destination ≤ i → bank i = m i := hmoved.bytes
  have hread : readAt entries j = .ok e := by rw [readAt, hentry]
  rw [moveRecord]
  rw [hread, ok_bind]
  apply safe_bind (safe_fetch (by omega))
  intro data hdata
  have hpayload : data = slice m e.payloadOffset e.len := by
    rw [hdata]
    exact slice_congr fun i hlow _ => hbytes i (by omega)
  have hdatalen : data.length = e.len := by rw [hdata, slice_length]
  have hrecord : recordSize data.length = 18+e.len := by
    rw [hdatalen]
    rfl
  apply safe_bind (safe_writeRecord (by omega) hsize)
  intro bank' hwritten
  apply safe_bind (safe_narrow (by omega))
  intro payloadOffset hplace
  apply safe_bind (safe_narrow (by show destination+(18+e.len) < _; omega))
  intro next hnext
  have hnext : next = destination+(18+e.len) := hnext
  have hlen : (headerOf e.key e.type data e.seq).len.toNat = e.len := by
    show (UInt16.ofNat data.length).toNat = _
    rw [UInt16.toNat_ofNat', hdatalen]
    omega
  have hback : payloadOffset-KV_REC_HDR_SIZE = destination := by omega
  have hcopied : slice bank' payloadOffset e.len = slice m e.payloadOffset e.len := by
    rw [hplace, ← hdatalen, hwritten.payload, hpayload, slice_length]
  have hwhole : Whole bank' (payloadOffset-KV_REC_HDR_SIZE) (headerOf e.key e.type data e.seq) := by
    rw [hback]
    exact hwritten.whole
  have hbehind : KV_REC_HDR_SIZE ≤ payloadOffset := by omega
  apply safe_pure
  refine ⟨{ e with payloadOffset := payloadOffset }, hplace,
    ⟨rfl, ⟨⟨_, hwhole, rfl, rfl, hlen, rfl⟩, hbehind⟩, hcopied⟩, rfl, hnext,
    fun i hi => hwritten.others i (Or.inl hi), ?_⟩
  intro i hi
  have hi : next ≤ i := hi
  exact (hwritten.others i (Or.inr (by omega))).trans (hbytes i (by omega))

section
variable {done todo : List ℕ} {j : ℕ} {state state' : Moving} {e e' : Entry}

theorem Stepped.self (hstep : Stepped m state j e e' state') (hj : j < state.2.1.length) :
    state'.2.1[j]? = some e' := by
  rw [hstep.slot]
  exact List.getElem?_set_self hj

theorem Stepped.other (hstep : Stepped m state j e e' state') {k : ℕ} (hk : k ≠ j) :
    state'.2.1[k]? = state.2.1[k]? := by
  rw [hstep.slot]
  exact List.getElem?_set_ne (Ne.symm hk)

/-- The records that were moved before, and the one that has just been. -/
theorem Stepped.moved (hstep : Stepped m state j e e' state') (he : Live index j e)
    (hj : j < state.2.1.length) (hnot : j ∉ done)
    (hmoved : Moved cfg m index done (j :: todo) state) :
    ∀ k ∈ done ++ [j], ∀ f, Live index k f → ∃ f', state'.2.1[k]? = some f' ∧
      MovedEntry m f state'.1 f' ∧ cfg.publishSize+KV_REC_HDR_SIZE ≤ f'.payloadOffset ∧
        f'.payloadOffset+f.len+KV_REC_FTR_SIZE ≤ state'.2.2 := by
  intro k hk f hf
  have hnext := hstep.destination
  have hplace := hstep.place
  have hheader : KV_REC_HDR_SIZE = 16 := rfl
  have hfooter : KV_REC_FTR_SIZE = 2 := rfl
  have hoverhead : KV_REC_OVERHEAD = 18 := rfl
  rcases List.mem_append.mp hk with hold | hnew
  · have hkj : k ≠ j := fun heq => hnot (heq ▸ hold)
    obtain ⟨f', hf', hentry, hlow, hhigh⟩ := hmoved.moved k hold f hf
    have hflen : f'.len = f.len := by rw [hentry.same]
    refine ⟨f', (hstep.other hkj).trans hf', ⟨hentry.same, ?_, ?_⟩, hlow, by omega⟩
    · exact recordAt_congr hentry.record fun i _ hi => hstep.below i (by omega)
    · rw [slice_congr fun i _ hi => hstep.below i (by omega)]
      exact hentry.payload
  · obtain rfl := List.mem_singleton.mp hnew
    obtain rfl := hf.unique he
    have hdestination := hmoved.destination
    exact ⟨e', hstep.self hj, hstep.entry, by omega, by omega⟩

/-- The record that has just been moved lies behind the earlier ones. -/
theorem Stepped.sorted (hstep : Stepped m state j e e' state') (he : Live index j e)
    (hj : j < state.2.1.length) (hnot : j ∉ done) (hbefore : ∀ k ∈ done, Before index k j)
    (hmoved : Moved cfg m index done (j :: todo) state) :
    ∀ k ∈ done ++ [j], ∀ l ∈ done ++ [j], ∀ f g f' g', Live index k f → Live index l g →
      state'.2.1[k]? = some f' → state'.2.1[l]? = some g' → f.payloadOffset < g.payloadOffset →
        f'.payloadOffset+f.len+KV_REC_OVERHEAD ≤ g'.payloadOffset := by
  intro k hk l hl f g f' g' hf hg hf' hg' hlt
  have hplace := hstep.place
  have hheader : KV_REC_HDR_SIZE = 16 := rfl
  have hfooter : KV_REC_FTR_SIZE = 2 := rfl
  have hoverhead : KV_REC_OVERHEAD = 18 := rfl
  rcases List.mem_append.mp hk with hkold | hknew
  · have hkj : k ≠ j := fun heq => hnot (heq ▸ hkold)
    replace hf' : state.2.1[k]? = some f' := (hstep.other hkj).symm.trans hf'
    rcases List.mem_append.mp hl with hlold | hlnew
    · have hlj : l ≠ j := fun heq => hnot (heq ▸ hlold)
      exact hmoved.sorted k hkold l hlold f g f' g' hf hg hf' ((hstep.other hlj).symm.trans hg') hlt
    · obtain rfl := List.mem_singleton.mp hlnew
      obtain ⟨f'', hf'', _, _, hhigh⟩ := hmoved.moved k hkold f hf
      obtain rfl : f' = f'' := Option.some.inj (hf'.symm.trans hf'')
      obtain rfl : e' = g' := Option.some.inj ((hstep.self hj).symm.trans hg')
      omega
  · obtain rfl := List.mem_singleton.mp hknew
    rcases List.mem_append.mp hl with hlold | hlnew
    · have hcontra := hbefore l hlold g f hg hf
      omega
    · obtain rfl := List.mem_singleton.mp hlnew
      rw [hf.unique hg] at hlt
      omega

end

/-- One move. The new place of the record ends where the next one begins at the
earliest. -/
theorem safe_move (h : IndexSound cfg index used) (hused : used ≤ size) (hsize : size < 2^16)
    {done todo : List ℕ} {j : ℕ} {state : Moving}
    (horder : liveOrder index = done ++ j :: todo)
    (hmoved : Moved cfg m index done (j :: todo) state) :
    Safe (moveRecord size state j) (Moved cfg m index (done ++ [j]) todo) := by
  have hpairwise := liveOrder_sorted h
  have hnodup := liveOrder_nodup index
  rw [horder] at hpairwise hnodup
  have hnot : j ∉ done := by
    intro hmem
    exact (List.nodup_append.mp hnodup).2.2 j hmem j List.mem_cons_self rfl
  obtain ⟨e, he⟩ := mem_liveOrder.mp (horder ▸ List.mem_append_right done List.mem_cons_self)
  have hj : j < state.2.1.length :=
    (List.getElem?_eq_some_iff.mp ((hmoved.kept j hnot).trans he.1)).1
  have hsizeOf : sizeOf index j = KV_REC_OVERHEAD+e.len := by
    rw [sizeOf, getD_of he.1, entrySize, if_pos he.2]
    rfl
  have hbefore : ∀ k ∈ done, Before index k j :=
    fun k hk => (List.pairwise_append.mp hpairwise).2.2 k hk j List.mem_cons_self
  apply safe_mono (safe_step h hused hsize he hnot hmoved)
  rintro state' ⟨e', hstep⟩
  have hnext := hstep.destination
  constructor
  · rw [hnext, hmoved.destination, List.map_append, List.sum_append, List.map_singleton,
      List.sum_singleton, hsizeOf, Nat.add_assoc]
  · intro k hk f hf
    have hafter := (List.pairwise_cons.mp (List.pairwise_append.mp hpairwise).2.1).1 k hk e f he hf
    have hstart := hmoved.ahead j List.mem_cons_self e he
    omega
  · exact hstep.above
  · rw [hstep.slot, List.length_set]
    exact hmoved.length
  · intro k hk
    rw [List.mem_append, List.mem_singleton, not_or] at hk
    exact (hstep.other hk.2).trans (hmoved.kept k hk.1)
  · exact hstep.moved he hj hnot hmoved
  · exact hstep.sorted he hj hnot hbefore hmoved

/-- The records that are moved so far, at every point of the loop. -/
theorem safe_moves (h : IndexSound cfg index used) (hused : used ≤ size) (hsize : size < 2^16)
    {done todo : List ℕ} (horder : liveOrder index = done ++ todo) :
    Safe (done.foldlM (moveRecord size) (m, index, cfg.publishSize))
      (Moved cfg m index done todo) := by
  induction done using List.reverseRecOn generalizing todo with
  | nil =>
    apply safe_pure
    constructor
    · rfl
    · intro j _ e he
      exact (h.placed j e he).1
    · exact fun _ _ => rfl
    · rfl
    · exact fun _ _ => rfl
    · exact nofun
    · exact nofun
  | append_singleton done j ih =>
    rw [List.append_assoc, List.singleton_append] at horder
    rw [List.foldlM_append]
    apply safe_bind (ih horder)
    intro state hstate
    rw [List.foldlM_cons]
    apply safe_bind (safe_move h hused hsize horder hstate)
    intro state' hstate'
    exact safe_pure hstate'

/-- What `compact` leaves: the live records one after the other behind the
publish area, in the order that they had, and nothing else changed. -/
structure Compacted (cfg : Config) (s t : Store) : Prop where
  used : t.usedOffset = cfg.publishSize+liveSize s.index
  length : t.index.length = s.index.length
  free : ∀ j, (¬ ∃ e, Live s.index j e) → t.index[j]? = s.index[j]?
  moved : ∀ j e, Live s.index j e → ∃ e', t.index[j]? = some e' ∧ MovedEntry s.bank e t.bank e' ∧
    cfg.publishSize+KV_REC_HDR_SIZE ≤ e'.payloadOffset ∧
      e'.payloadOffset+e.len+KV_REC_FTR_SIZE ≤ t.usedOffset
  ordered : ∀ j k e f e' f', Live s.index j e → Live s.index k f → t.index[j]? = some e' →
    t.index[k]? = some f' → e.payloadOffset < f.payloadOffset →
      e'.payloadOffset+e.len+KV_REC_OVERHEAD ≤ f'.payloadOffset
  others : t = { s with
    bank := t.bank
    index := t.index
    usedOffset := t.usedOffset
    recordCount := t.recordCount
    needsPublish := true
    dirty := true }

variable {s t : Store}

theorem safe_compact (h : IndexSound cfg s.index s.usedOffset) (hused : s.usedOffset ≤ s.bankSize)
    (hsize : s.bankSize < 2^16) : Safe (compact cfg s) (Compacted cfg s) := by
  rw [compact]
  apply safe_bind (safe_moves h hused hsize (List.append_nil _).symm)
  rintro ⟨bank, index, destination⟩ hmoved
  apply safe_pure
  constructor
  · show destination = _
    rw [← sum_liveOrder]
    exact hmoved.destination
  · exact hmoved.length
  · intro j hj
    exact hmoved.kept j fun hmem => hj (mem_liveOrder.mp hmem)
  · intro j e he
    exact hmoved.moved j (mem_liveOrder.mpr ⟨e, he⟩) e he
  · intro j k e f e' f' he hf
    exact hmoved.sorted j (mem_liveOrder.mpr ⟨e, he⟩) k (mem_liveOrder.mpr ⟨f, hf⟩) e f e' f' he hf
  · rfl

/-- A live entry afterwards is one of before that was moved. -/
theorem Compacted.back (h : Compacted cfg s t) {j : ℕ} {e' : Entry} (he' : Live t.index j e') :
    ∃ e, Live s.index j e ∧ MovedEntry s.bank e t.bank e' := by
  by_cases hlive : ∃ e, Live s.index j e
  · obtain ⟨e, he⟩ := hlive
    obtain ⟨e'', hentry, hmoved, _⟩ := h.moved j e he
    have hsame : e' = e'' := Option.some.inj (he'.1.symm.trans hentry)
    rw [hsame]
    exact ⟨e, he, hmoved⟩
  · exact absurd ⟨e', (h.free j hlive).symm.trans he'.1, he'.2⟩ hlive

theorem MovedEntry.len {m m' : Image} {e e' : Entry} (h : MovedEntry m e m' e') :
    e'.len = e.len := by
  rw [h.same]

theorem MovedEntry.key {m m' : Image} {e e' : Entry} (h : MovedEntry m e m' e') :
    e'.key = e.key := by
  rw [h.same]

theorem MovedEntry.inUse {m m' : Image} {e e' : Entry} (h : MovedEntry m e m' e') :
    e'.inUse = e.inUse := by
  rw [h.same]

theorem Compacted.allRecords (h : Compacted cfg s t) : AllRecords t.bank t.index := by
  intro j e' he'
  obtain ⟨e, _, hmoved⟩ := h.back he'
  exact hmoved.record

/-- The live records are as long together as before. -/
theorem Compacted.liveSize_eq (h : Compacted cfg s t) : liveSize t.index = liveSize s.index := by
  rw [liveSize, liveSize]
  congr 1
  apply List.ext_getElem?
  intro j
  rw [List.getElem?_map, List.getElem?_map]
  by_cases hlive : ∃ e, Live s.index j e
  · obtain ⟨e, he⟩ := hlive
    obtain ⟨e', hentry, hmoved, _⟩ := h.moved j e he
    rw [hentry, he.1, Option.map_some, Option.map_some, entrySize, entrySize, hmoved.inUse,
      hmoved.len]
  · rw [h.free j hlive]

theorem Compacted.index_sound (h : Compacted cfg s t)
    (hsound : IndexSound cfg s.index s.usedOffset) : IndexSound cfg t.index t.usedOffset := by
  constructor
  · rw [h.length]
    exact hsound.length
  · intro j k e' f' he' hf' hkey
    obtain ⟨e, he, hmoved⟩ := h.back he'
    obtain ⟨f, hf, hmoved'⟩ := h.back hf'
    rw [hmoved.key, hmoved'.key] at hkey
    exact hsound.keys j k e f he hf hkey
  · intro j e' he'
    obtain ⟨e, he, _⟩ := h.back he'
    obtain ⟨e'', hentry, hmoved, hlow, hhigh⟩ := h.moved j e he
    obtain rfl : e' = e'' := Option.some.inj (he'.1.symm.trans hentry)
    rw [hmoved.len]
    exact ⟨hlow, hhigh⟩
  · intro j k e' f' he' hf' hne
    obtain ⟨e, he, hmoved⟩ := h.back he'
    obtain ⟨f, hf, hmoved'⟩ := h.back hf'
    have hoverhead : KV_REC_OVERHEAD = 18 := rfl
    rw [hmoved.len, hmoved'.len]
    rcases hsound.apart j k e f he hf hne with hfirst | hsecond
    · exact Or.inl (h.ordered j k e f e' f' he hf he'.1 hf'.1 (by omega))
    · exact Or.inr (h.ordered k j f e f' e' hf he hf'.1 he'.1 (by omega))
  · rw [h.liveSize_eq, h.used]

end JaszczurHal.KvCompaction
