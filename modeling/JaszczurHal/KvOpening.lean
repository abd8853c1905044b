import JaszczurHal.KvSafety

/-!
# Opening a store

Whatever the medium holds, the scans of the body and of the log stay inside
the bank: each record that they pass was checked before, and their cursors do
not leave the offsets of whole records.
-/

set_option autoImplicit false

namespace JaszczurHal.KvOpening
open ByteImage CheckedArith HalStatus KvRecord KvRecordSound KvStore KvIndex KvSafety

variable {cfg : Config} {answers : Answers} {size offset last used fuel : ℕ} {m : Image}
  {index : List Entry} {nextSeq : UInt32} {s t : Store}

theorem safe_scanBody (hsize : size < 2^16) {usedOffset : ℕ} (hused : usedOffset ≤ size)
    (hle : offset ≤ usedOffset) (hfuel : usedOffset < offset+fuel) (records : UInt16) :
    Safe (scanBody size m usedOffset fuel offset records) fun r =>
      ∀ x, r = some x → Chain m offset usedOffset := by
  induction fuel generalizing offset records with
  | zero => omega
  | succ fuel ih =>
    rw [scanBody]
    apply safe_ite
    · intro hlt
      apply safe_bind (safe_recordValid hused hsize)
      intro r hr
      cases r with
      | none => exact safe_pure nofun
      | some record =>
        have haccepted := hr record rfl
        have hend := haccepted.inside
        have hrecord : recordSize record.len.toNat = 18+record.len.toNat := rfl
        have hknown : Known record := by
          rcases haccepted.known with hknown | ⟨hcommit, _⟩
          · exact hknown
          · cases hcommit
        apply safe_bind (safe_narrow (by omega))
        intro next hnext
        apply safe_mono (ih (by omega) (by omega) _)
        intro r hrest x hx
        have hchain := hrest x hx
        rw [hnext] at hchain
        exact .cons haccepted.whole hknown hchain
    · intro hstop
      apply safe_pure
      intro _ _
      rw [show offset = usedOffset by omega]
      exact .nil _

structure ValidBank (cfg : Config) (size : ℕ) (m : Image) (bank : Meta) : Prop where
  publish : cfg.publishSize ≤ bank.usedOffset
  inside : bank.usedOffset ≤ size
  chain : Chain m cfg.publishSize bank.usedOffset

theorem validateBankHeader_bounds {header : BankHeader}
    (h : validateBankHeader cfg m size = some header) :
    cfg.publishSize ≤ header.usedOffset.toNat ∧ header.usedOffset.toNat ≤ size := by
  rw [validateBankHeader] at h
  split at h
  · cases h
  · rename_i hgood
    split at h
    · cases h
    · obtain rfl := Option.some.inj h
      simp only [not_or, not_lt] at hgood
      exact ⟨hgood.2.2.2.2.1, hgood.2.2.2.2.2⟩

theorem safe_validateBankBuffer (hsize : size < 2^16) (hroom : cfg.publishSize ≤ size) :
    Safe (validateBankBuffer cfg size m) fun r =>
      ∀ bank, r = some bank → ValidBank cfg size m bank := by
  have hheader := cfg.publish_header
  rw [validateBankBuffer]
  apply safe_bind (safe_inside (by omega))
  intro _ _
  cases hvalid : validateBankHeader cfg m size with
  | none => exact safe_pure nofun
  | some header =>
    obtain ⟨hpublish, hinside⟩ := validateBankHeader_bounds hvalid
    apply safe_bind (safe_difference hpublish (by omega))
    intro bodySize hbody
    apply safe_bind (safe_fetch (by omega))
    intro body _
    apply safe_ite
    · intro _
      exact safe_pure nofun
    · intro _
      apply safe_bind (safe_scanBody hsize hinside hpublish (by omega) 0)
      intro r hr
      cases r with
      | none => exact safe_pure nofun
      | some x =>
        apply safe_ite
        · intro _
          exact safe_pure nofun
        · intro _
          apply safe_pure
          intro bank hbank
          obtain rfl := Option.some.inj hbank
          exact ⟨hpublish, hinside, hr x rfl⟩

def Applied (cfg : Config) (s : Store) (last : ℕ) (t : Store) : Prop :=
  ∃ index nextSeq, t = { s with index := index, nextSeq := nextSeq } ∧
    IndexSound cfg index last ∧ AllRecords s.bank index

theorem safe_indexApplyRange (hsize : s.bankSize < 2^16) (hlast : last ≤ s.bankSize)
    (hchain : Chain s.bank offset last) (hfuel : last < offset+fuel)
    (hindex : IndexSound cfg s.index used) (hused : used ≤ offset)
    (hall : AllRecords s.bank s.index) :
    Safe (indexApplyRange last fuel offset s) fun r =>
      r.1 = .ok ∧ Applied cfg s last r.2 ∨ r.1 = .enomem := by
  induction fuel generalizing offset used s with
  | zero =>
    have hle := hchain.le
    omega
  | succ fuel ih =>
    rw [indexApplyRange]
    apply safe_ite
    · intro hlt
      cases hchain with
      | nil => omega
      | @cons _ _ record hwhole hknown hrest =>
        have hend := hrest.le
        have hheader : KV_REC_HDR_SIZE = 16 := rfl
        have hrecord : recordSize record.len.toNat = 18+record.len.toNat := rfl
        apply safe_bind (safe_fetchRecordHeader (by omega))
        intro found hfound
        rw [hwhole.decoded] at hfound
        subst hfound
        apply safe_bind (safe_narrow (by omega))
        intro payloadOffset hpayload
        subst hpayload
        cases happly : applyRecord s.index found (offset+KV_REC_HDR_SIZE) with
        | none => exact safe_pure (Or.inr rfl)
        | some index =>
          obtain ⟨hindex', hall'⟩ := applyRecord_sound hindex hall hwhole hused happly
          apply safe_bind (safe_narrow (by omega))
          intro next hnext
          subst hnext
          apply safe_mono (ih (s := { s with index := index, nextSeq := found.seq+1 }) hsize hlast
            hrest (by omega) hindex' le_rfl hall')
          rintro r (⟨hok, index', seq, hr, hsound, hrecords⟩ | hfull)
          · exact Or.inl ⟨hok, index', seq, hr, hsound, hrecords⟩
          · exact Or.inr hfull
    · intro hstop
      have hle := hchain.le
      exact safe_pure (Or.inl ⟨rfl, s.index, s.nextSeq, rfl, hindex.mono (by omega), hall⟩)

/-- The scan between two records: the batch so far is whole records, and the
index is the one of the committed batches. -/
structure Scanning (cfg : Config) (s : Store) (index : List Entry) (committed batch offset : ℕ) :
    Prop where
  sound : IndexSound cfg index committed
  records : AllRecords s.bank index
  ordered : committed ≤ batch
  chain : Chain s.bank batch offset
  inside : offset ≤ s.bankSize

def Scanned (cfg : Config) (s : Store) (l : LogScan) : Prop :=
  Applied cfg s l.committed l.store ∧ l.committed ≤ s.bankSize

variable {committed batch : ℕ}

theorem Scanning.scanned (h : Scanning cfg s index committed batch offset) (batch' offset' : ℕ)
    (damaged : Bool) : Scanned cfg s
      ⟨{ s with index := index, nextSeq := nextSeq }, committed, batch', offset', damaged⟩ := by
  constructor
  · exact ⟨index, nextSeq, rfl, h.sound, h.records⟩
  · exact h.ordered.trans (h.chain.le.trans h.inside)

theorem safe_commitRefused (hsize : s.bankSize < 2^16) (hbatch : batch ≤ offset)
    (hinside : offset+recordSize KV_COMMIT_LEN ≤ s.bankSize) :
    Safe (commitRefused s batch offset) fun _ => True := by
  have hheader : KV_REC_HDR_SIZE = 16 := rfl
  have hcommit : recordSize KV_COMMIT_LEN = 22 := rfl
  rw [commitRefused]
  apply safe_bind (safe_fetchLe16 (by omega))
  intro start _
  apply safe_ite
  · intro _
    exact safe_pure trivial
  · intro _
    apply safe_bind (safe_fetchLe16 (by omega))
    intro sum _
    apply safe_bind (safe_difference hbatch (by omega))
    intro length hlength
    apply safe_bind (safe_fetch (by omega))
    intro records _
    exact safe_pure trivial

theorem safe_bytesErased (h : offset+last ≤ size) :
    Safe (bytesErased size m offset last) fun _ => True := by
  apply safe_bind (safe_fetch h)
  intro bytes _
  exact safe_pure trivial

theorem safe_scanBatches (hsize : s.bankSize < 2^15) (hpositive : 0 < s.appendSize)
    (hdivides : s.appendSize ∣ s.bankSize) (damaged : Bool)
    (h : Scanning cfg s index committed batch offset) (hfuel : s.bankSize < offset+fuel) :
    Safe (scanBatches fuel
      ⟨{ s with index := index, nextSeq := nextSeq }, committed, batch, offset, damaged⟩) fun r =>
        r.1 = .ok ∧ Scanned cfg s r.2 ∨ r.1 = .enomem := by
  induction fuel generalizing index nextSeq committed batch offset with
  | zero =>
    have hinside := h.inside
    omega
  | succ fuel ih =>
    have hinside := h.inside
    have hbatch := h.chain.le
    rw [scanBatches]
    apply safe_ite
    · intro _
      apply safe_bind (safe_difference hinside (show s.bankSize < 2^16 by omega))
      intro left hleft
      apply safe_bind (safe_bytesErased (show offset+left ≤ s.bankSize by omega))
      intro erased _
      apply safe_ite
      · intro _
        exact safe_pure (Or.inl ⟨rfl, h.scanned _ _ _⟩)
      · intro _
        apply safe_bind (safe_recordValid le_rfl (show s.bankSize < 2^16 by omega))
        intro r hr
        cases r with
        | none => exact safe_pure (Or.inl ⟨rfl, h.scanned _ _ _⟩)
        | some record =>
          have haccepted := hr record rfl
          have hend : offset+recordSize record.len.toNat ≤ s.bankSize := haccepted.inside
          have hrecord : recordSize record.len.toNat = 18+record.len.toNat := rfl
          apply safe_bind (safe_narrow (show offset+recordSize record.len.toNat < 2^16 by omega))
          intro next hnext
          subst hnext
          apply safe_ite
          · intro htype
            have hknown : Known record := by
              rcases haccepted.known with hknown | ⟨_, hcommit, _⟩
              · exact hknown
              · exact absurd hcommit htype
            apply ih
            · constructor
              · exact h.sound
              · exact h.records
              · exact h.ordered
              · exact h.chain.append (.single haccepted.whole hknown)
              · exact hend
            · omega
          · intro htype
            have hlen : record.len.toNat = KV_COMMIT_LEN := by
              rcases haccepted.known with hknown | ⟨_, _, hlen⟩
              · exact absurd (not_not.mp htype) (known_not_commit hknown)
              · exact hlen
            rw [hlen] at hend hrecord ⊢
            apply safe_bind (safe_commitRefused (show s.bankSize < 2^16 by omega) hbatch hend)
            intro refused _
            apply safe_ite
            · intro _
              exact safe_pure (Or.inl ⟨rfl, h.scanned _ _ _⟩)
            · intro _
              have hrange : Safe (indexApplyRange offset (s.bankSize+1) batch
                  { s with index := index, nextSeq := nextSeq }) fun r =>
                  r.1 = .ok ∧ Applied cfg { s with index := index, nextSeq := nextSeq } offset r.2 ∨
                    r.1 = .enomem :=
                safe_indexApplyRange (by show s.bankSize < _; omega) hinside h.chain (by omega)
                  h.sound h.ordered h.records
              apply safe_bind hrange
              rintro ⟨status, t⟩ (⟨hok, index', seq, ht, hsound, hrecords⟩ | hfull)
              · obtain rfl : status = .ok := hok
                obtain rfl : t = { s with index := index', nextSeq := seq } := ht
                have hnext := le_alignUp hpositive (offset+recordSize KV_COMMIT_LEN)
                have halign := alignUp_le hpositive hdivides hend
                apply safe_ite
                · intro hfailed
                  exact absurd rfl hfailed
                · intro _
                  apply safe_bind (safe_narrow
                    (show alignUp s.appendSize (offset+recordSize KV_COMMIT_LEN) < 2^16 by omega))
                  intro batch' hbatch'
                  subst hbatch'
                  apply ih
                  · constructor
                    · exact hsound.mono (by omega)
                    · exact hrecords
                    · exact hnext
                    · exact .nil _
                    · exact halign
                  · omega
              · obtain rfl : status = .enomem := hfull
                apply safe_ite
                · intro _
                  exact safe_pure (Or.inr rfl)
                · intro hok
                  exact absurd nofun hok
    · intro _
      exact safe_pure (Or.inl ⟨rfl, h.scanned _ _ _⟩)

structure Region (cfg : Config) (s : Store) : Prop where
  room : cfg.publishSize+KV_REC_OVERHEAD ≤ s.bankSize
  region : s.base+2*s.bankSize < 2^16
  append_positive : 0 < s.appendSize
  append_divides : s.appendSize ∣ s.bankSize

theorem Region.small (h : Region cfg s) : s.bankSize < 2^15 := by
  have hregion := h.region
  omega

theorem safe_scanLog {bodyEnd : ℕ} (h : Region cfg s) (hactive : s.activeBank ≤ 1)
    (hend : bodyEnd ≤ s.bankSize) (hindex : IndexSound cfg s.index bodyEnd)
    (hall : AllRecords s.bank s.index) :
    Safe (scanLog s bodyEnd) fun r =>
      r.1 = .ok ∧ Sound cfg r.2 ∧ r.2.bank = s.bank ∧ r.2.activeBank = s.activeBank ∨
        r.1 = .enomem := by
  have hsmall := h.small
  have hstart := alignUp_le h.append_positive h.append_divides hend
  have hscanning : Scanning cfg s s.index bodyEnd (alignUp s.appendSize bodyEnd)
      (alignUp s.appendSize bodyEnd) := by
    constructor
    · exact hindex
    · exact hall
    · exact le_alignUp h.append_positive _
    · exact .nil _
    · exact hstart
  rw [scanLog]
  apply safe_bind (safe_narrow (by omega))
  intro batch hbatch
  subst hbatch
  apply safe_bind (safe_scanBatches hsmall h.append_positive h.append_divides false hscanning
    (by omega))
  rintro ⟨status, l⟩ (⟨hok, ⟨index, seq, hl, hsound, hrecords⟩, hcommitted⟩ | hfull)
  · obtain rfl : status = .ok := hok
    replace hl : l.store = { s with index := index, nextSeq := seq } := hl
    replace hcommitted : l.committed ≤ s.bankSize := hcommitted
    have hflash := alignUp_le h.append_positive h.append_divides hcommitted
    have hle := le_alignUp h.append_positive l.committed
    apply safe_ite
    · intro hfailed
      exact absurd rfl hfailed
    · intro _
      apply safe_bind (safe_narrow (by omega))
      intro flashEnd hflashEnd
      subst hflashEnd
      apply safe_pure
      left
      refine ⟨rfl, ?_, ?_, ?_⟩
      · show Sound cfg { l.store with
          flashEnd := alignUp s.appendSize l.committed
          usedOffset := if l.damaged then l.committed else alignUp s.appendSize l.committed
          needsPublish := l.damaged }
        rw [hl]
        have hused : l.committed ≤
            if l.damaged then l.committed else alignUp s.appendSize l.committed := by
          split <;> omega
        constructor
        · exact h.room
        · exact h.region
        · exact h.append_positive
        · exact h.append_divides
        · exact hactive
        · show (if l.damaged then _ else _) ≤ s.bankSize
          split <;> omega
        · intro hlog
          show _ ≤ if l.damaged then _ else _
          rw [show l.damaged = false from hlog]
          exact le_rfl
        · exact hsound.mono hused
        · exact hrecords
      · show l.store.bank = s.bank
        rw [hl]
      · show l.store.activeBank = s.activeBank
        rw [hl]
  · obtain rfl : status = .enomem := hfull
    apply safe_ite
    · intro _
      exact safe_pure (Or.inr rfl)
    · intro hok
      exact absurd nofun hok

theorem geometry_region {provider : Option Provider} {baseAddr sizeBytes bankSize appendSize : ℕ}
    (h : geometry cfg provider baseAddr sizeBytes = (.ok, bankSize, appendSize))
    (hs : s.base = baseAddr ∧ s.bankSize = bankSize ∧ s.appendSize = appendSize) :
    Region cfg s ∧ bankSize = sizeBytes/2 := by
  obtain ⟨hbase, hbank, happend⟩ := hs
  have hoverhead : KV_REC_OVERHEAD = 18 := rfl
  rw [geometry] at h
  split at h
  · cases h
  · rename_i heven
    dsimp only at h
    split at h
    · cases h
    · rename_i hsize
      cases provider with
      | none => cases h
      | some provider =>
        dsimp only at h
        split at h
        · cases h
        · rename_i hfits
          have hlimit := provider.size_fits
          obtain ⟨hstatus, hpair⟩ := Prod.mk.inj h
          obtain ⟨rfl, rfl⟩ := Prod.mk.inj hpair
          rw [regionStatus] at hstatus
          split at hstatus
          · cases hstatus
          · split at hstatus
            · cases hstatus
            · rename_i haligned
              simp only [not_or, not_lt, not_not, not_le] at heven hsize haligned
              obtain ⟨_, _, hpublish, _, herase, _⟩ := haligned
              refine ⟨⟨?_, ?_, ?_, ?_⟩, rfl⟩
              · omega
              · omega
              · rw [happend]
                exact provider.append_positive
              · rw [happend, hbank]
                exact provider.append_divides.trans (Nat.dvd_of_mod_eq_zero herase)

/-- What opening leaves: if the store is ready, it is sound, and its bank is
one of the medium unless none was valid there. -/
structure Opened (cfg : Config) (medium : Medium) (bankSize : ℕ) (r : Status × Store) : Prop where
  ready : r.2.ready = true → Sound cfg r.2
  empty : r.2.ready = false → ∀ i e, ¬ Live r.2.index i e
  bank : r.2.ready = true → r.2.bank = medium.banks r.2.activeBank ∨
    validateBankBuffer cfg bankSize (medium.banks 0) = .ok none ∧
      validateBankBuffer cfg bankSize (medium.banks 1) = .ok none

variable {medium : Medium} {bankSize : ℕ}

theorem opened_closed {status : Status} (hready : t.ready = false)
    (hindex : t.index = List.replicate cfg.maxKeys emptyEntry) :
    Opened cfg medium bankSize (status, t) := by
  constructor
  · exact fun h => absurd (hready.symm.trans h) Bool.false_ne_true
  · intro _ i e
    show ¬ Live t.index i e
    rw [hindex]
    exact live_empty _ i e
  · exact fun h => absurd (hready.symm.trans h) Bool.false_ne_true

theorem Sound.opened (h : Sound cfg t) : Sound cfg { t with ready := true, dirty := false } :=
  ⟨h.room, h.region, h.append_positive, h.append_divides, h.active, h.used, h.flash, h.index,
    h.records⟩

theorem safe_format (h : Region cfg s)
    (hnone : validateBankBuffer cfg bankSize (medium.banks 0) = .ok none ∧
      validateBankBuffer cfg bankSize (medium.banks 1) = .ok none) :
    Safe (format cfg answers s) (Opened cfg medium bankSize) := by
  have hroom := h.room
  rw [format]
  apply safe_bind (safe_fill (by omega))
  intro bank _
  have hempty : Sound cfg { s with
      bank := bank
      index := List.replicate cfg.maxKeys emptyEntry
      activeBank := 1
      usedOffset := cfg.publishSize
      recordCount := 0
      generation := 0
      nextSeq := 1
      dirty := true
      needsPublish := true } := by
    constructor
    · exact h.room
    · exact h.region
    · exact h.append_positive
    · exact h.append_divides
    · exact le_rfl
    · exact (Nat.le_add_right _ _).trans hroom
    · exact fun hno => absurd hno.symm Bool.false_ne_true
    · exact indexSound_empty cfg
    · exact allRecords_empty _ _
  apply safe_bind (safe_commitStore hempty)
  rintro ⟨status, t⟩ ⟨ht, _⟩
  apply safe_ite
  · intro _
    exact safe_pure (opened_closed rfl rfl)
  · intro _
    apply safe_pure
    constructor
    · exact fun _ => Sound.opened ht
    · exact fun hno => absurd hno.symm Bool.false_ne_true
    · exact fun _ => Or.inr hnone

theorem safe_load {bank : ℕ} {active : Meta} (h : Region cfg s)
    (hbank : bank ≤ 1) (hvalid : ValidBank cfg s.bankSize (medium.banks bank) active) :
    Safe (load cfg medium bank active s) (Opened cfg medium bankSize) := by
  have hroom := h.room
  have hsmall := h.small
  have hregion := h.region
  have hend := hvalid.inside
  have hproduct : bank*s.bankSize ≤ 1*s.bankSize := Nat.mul_le_mul_right _ hbank
  rw [load]
  apply safe_bind (safe_narrow (by omega))
  intro _ _
  apply safe_ite
  · intro _
    exact safe_pure (opened_closed rfl rfl)
  · intro _
    apply safe_bind (safe_validateBankBuffer (by omega) (by omega))
    intro verified _
    cases verified with
    | none => exact safe_pure (opened_closed rfl rfl)
    | some verified =>
      dsimp only
      generalize hreplayed : ({ s with
        bank := medium.banks bank
        activeBank := bank
        generation := active.generation
        usedOffset := active.usedOffset
        recordCount := active.recordCount
        nextSeq := 1
        index := List.replicate cfg.maxKeys emptyEntry } : Store) = u
      have husize : u.bankSize = s.bankSize := by rw [← hreplayed]
      have hubank : u.bank = medium.banks bank := by rw [← hreplayed]
      have huindex : u.index = List.replicate cfg.maxKeys emptyEntry := by rw [← hreplayed]
      have hrange : Safe (indexApplyRange active.usedOffset (s.bankSize+1) cfg.publishSize u)
          fun r => r.1 = .ok ∧ Applied cfg u active.usedOffset r.2 ∨ r.1 = .enomem := by
        apply safe_indexApplyRange
        · omega
        · omega
        · exact hubank ▸ hvalid.chain
        · omega
        · exact huindex ▸ indexSound_empty cfg
        · exact le_rfl
        · exact huindex ▸ allRecords_empty _ _
      apply safe_bind hrange
      rintro ⟨status, t⟩ (⟨hok, index, seq, ht, hsound, hrecords⟩ | hfull)
      · obtain rfl : status = .ok := hok
        obtain rfl : t = { u with index := index, nextSeq := seq } := ht
        apply safe_ite
        · intro hfailed
          exact absurd rfl hfailed
        · intro _
          have hlog : Safe (scanLog { u with index := index, nextSeq := seq } active.usedOffset)
              fun r => r.1 = .ok ∧ Sound cfg r.2 ∧ r.2.bank = u.bank ∧
                r.2.activeBank = u.activeBank ∨ r.1 = .enomem := by
            apply safe_scanLog
            · rw [← hreplayed]
              exact ⟨h.room, h.region, h.append_positive, h.append_divides⟩
            · rw [← hreplayed]
              exact hbank
            · show active.usedOffset ≤ u.bankSize
              omega
            · exact hsound
            · exact hrecords
          apply safe_bind hlog
          rintro ⟨status, v⟩ (⟨hok, hv, hvbank, hvactive⟩ | hfull)
          · obtain rfl : status = .ok := hok
            apply safe_ite
            · intro hfailed
              cases hfailed
            · intro _
              apply safe_pure
              constructor
              · exact fun _ => Sound.opened hv
              · exact fun hno => absurd hno.symm Bool.false_ne_true
              · intro _
                left
                show v.bank = medium.banks v.activeBank
                rw [hvbank, hvactive, ← hreplayed]
          · obtain rfl : status = .enomem := hfull
            apply safe_ite
            · intro _
              exact safe_pure (opened_closed rfl rfl)
            · intro hok
              exact absurd rfl hok
      · obtain rfl : status = .enomem := hfull
        apply safe_ite
        · intro _
          exact safe_pure (opened_closed rfl rfl)
        · intro hok
          exact absurd nofun hok

theorem activeOf_some {first second : Option Meta} {bank : ℕ} {active : Meta}
    (h : activeOf first second = some (bank, active)) :
    bank = 0 ∧ first = some active ∨ bank = 1 ∧ second = some active := by
  cases first with
  | none =>
    cases second with
    | none => cases h
    | some b =>
      obtain ⟨rfl, rfl⟩ := Prod.mk.inj (Option.some.inj h)
      exact Or.inr ⟨rfl, rfl⟩
  | some a =>
    cases second with
    | none =>
      obtain ⟨rfl, rfl⟩ := Prod.mk.inj (Option.some.inj h)
      exact Or.inl ⟨rfl, rfl⟩
    | some b =>
      rw [activeOf] at h
      split at h
      · obtain ⟨rfl, rfl⟩ := Prod.mk.inj (Option.some.inj h)
        exact Or.inr ⟨rfl, rfl⟩
      · obtain ⟨rfl, rfl⟩ := Prod.mk.inj (Option.some.inj h)
        exact Or.inl ⟨rfl, rfl⟩

theorem activeOf_none {first second : Option Meta} (h : activeOf first second = none) :
    first = none ∧ second = none := by
  cases first with
  | none =>
    cases second with
    | none => exact ⟨rfl, rfl⟩
    | some b => cases h
  | some a =>
    cases second with
    | none => cases h
    | some b =>
      rw [activeOf] at h
      split at h
      · cases h
      · cases h

theorem safe_openBanks (h : Region cfg s) (hready : s.ready = false)
    (hindex : s.index = List.replicate cfg.maxKeys emptyEntry) :
    Safe (openBanks cfg medium answers s) (Opened cfg medium s.bankSize) := by
  have hroom := h.room
  have hsmall := h.small
  have hregion := h.region
  rw [openBanks]
  apply safe_bind (safe_narrow (show s.base+0*s.bankSize < 2^16 by omega))
  intro _ _
  apply safe_ite
  · intro _
    exact safe_pure (opened_closed hready hindex)
  · intro _
    have hfirst : Safe (validateBankBuffer cfg s.bankSize (medium.banks 0)) fun r =>
        ∀ bank, r = some bank → ValidBank cfg s.bankSize (medium.banks 0) bank :=
      safe_validateBankBuffer (by omega) (by omega)
    obtain ⟨first, hfirst, hvalid⟩ := hfirst
    rw [hfirst, ok_bind]
    apply safe_bind (safe_narrow (show s.base+1*s.bankSize < 2^16 by omega))
    intro _ _
    apply safe_ite
    · intro _
      exact safe_pure (opened_closed hready hindex)
    · intro _
      have hsecond : Safe (validateBankBuffer cfg s.bankSize (medium.banks 1)) fun r =>
          ∀ bank, r = some bank → ValidBank cfg s.bankSize (medium.banks 1) bank :=
        safe_validateBankBuffer (by omega) (by omega)
      obtain ⟨second, hsecond, hvalid'⟩ := hsecond
      rw [hsecond, ok_bind]
      cases hactive : activeOf first second with
      | none =>
        obtain ⟨rfl, rfl⟩ := activeOf_none hactive
        apply safe_format
        · exact ⟨h.room, h.region, h.append_positive, h.append_divides⟩
        · exact ⟨hfirst, hsecond⟩
      | some chosen =>
        obtain ⟨bank, active⟩ := chosen
        rcases activeOf_some hactive with ⟨rfl, rfl⟩ | ⟨rfl, rfl⟩
        · exact safe_load h (Nat.zero_le 1) (hvalid active rfl)
        · exact safe_load h le_rfl (hvalid' active rfl)

theorem safe_initEx (cfg : Config) (medium : Medium) (answers : Answers) (baseAddr sizeBytes : ℕ)
    (s : Store) : Safe (initEx cfg medium answers baseAddr sizeBytes s)
      (Opened cfg medium (sizeBytes/2)) := by
  rw [initEx]
  rcases hgeometry : geometry cfg medium.provider baseAddr sizeBytes with
    ⟨status, bankSize, appendSize⟩
  apply safe_ite
  · intro _
    exact safe_pure (opened_closed rfl rfl)
  · intro hok
    rw [show status = .ok from not_not.mp hok] at hgeometry
    obtain ⟨hregion, hhalf⟩ := geometry_region hgeometry (s := { reset cfg s with
      base := baseAddr, bankSize := bankSize, appendSize := appendSize }) ⟨rfl, rfl, rfl⟩
    rw [← hhalf]
    exact safe_openBanks hregion rfl rfl

/-- For every content of the banks, opening ends without a fault: no access
leaves the bank and no offset is cut. Each entry of the index is a whole
record inside the bank, whose check sums match. -/
theorem open_safe (cfg : Config) (medium : Medium) (answers : Answers)
    (baseAddr sizeBytes : UInt16) (s : Store) :
    ∃ status t, initEx cfg medium answers baseAddr.toNat sizeBytes.toNat s = .ok (status, t) ∧
      (∀ i e, Live t.index i e →
        RecordAt t.bank e ∧ e.payloadOffset+e.len+KV_REC_FTR_SIZE ≤ t.bankSize) ∧
      (t.ready = true → t.bank = medium.banks t.activeBank ∨
        validateBankBuffer cfg (sizeBytes.toNat/2) (medium.banks 0) = .ok none ∧
          validateBankBuffer cfg (sizeBytes.toNat/2) (medium.banks 1) = .ok none) := by
  obtain ⟨⟨status, t⟩, hrun, hopened⟩ :=
    safe_initEx cfg medium answers baseAddr.toNat sizeBytes.toNat s
  refine ⟨status, t, hrun, ?_, hopened.bank⟩
  intro i e he
  cases hready : t.ready with
  | false => exact absurd he (hopened.empty hready i e)
  | true =>
    have hsound : Sound cfg t := hopened.ready hready
    have hplaced := hsound.index.placed i e he
    exact ⟨hsound.records i e he, hplaced.2.trans hsound.used⟩

end JaszczurHal.KvOpening
