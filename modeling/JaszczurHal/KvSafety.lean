import JaszczurHal.KvCompaction

/-!
# What the store keeps

The used part of the bank ends inside of it, the log does not reach past it
and every live entry describes a whole record. Each operation keeps this and
runs without a fault, whatever the medium answers.
-/

set_option autoImplicit false

namespace JaszczurHal.KvSafety
open ByteImage CheckedArith HalStatus KvRecord KvRecordSound KvStore KvIndex KvCompaction

theorem le_alignUp {a : ℕ} (ha : 0 < a) (v : ℕ) : v ≤ alignUp a v := by
  have hdivided := Nat.div_add_mod (v+a-1) a
  have hrest := Nat.mod_lt (v+a-1) ha
  rw [Nat.mul_comm] at hdivided
  rw [alignUp]
  omega

/-- The end of a bank is aligned, so nothing in it is aligned past it. -/
theorem alignUp_le {a n v : ℕ} (ha : 0 < a) (hn : a ∣ n) (h : v ≤ n) : alignUp a v ≤ n := by
  obtain ⟨k, rfl⟩ := hn
  have hquotient : (v+a-1)/a ≤ k := by
    apply Nat.le_of_lt_succ
    rw [Nat.div_lt_iff_lt_mul ha, Nat.succ_mul, Nat.mul_comm k a]
    omega
  rw [alignUp, Nat.mul_comm a k]
  exact Nat.mul_le_mul_right a hquotient

structure Sound (cfg : Config) (s : Store) : Prop where
  room : cfg.publishSize+KV_REC_OVERHEAD ≤ s.bankSize
  region : s.base+2*s.bankSize < 2^16
  append_positive : 0 < s.appendSize
  append_divides : s.appendSize ∣ s.bankSize
  active : s.activeBank ≤ 1
  used : s.usedOffset ≤ s.bankSize
  flash : s.needsPublish = false → s.flashEnd ≤ s.usedOffset
  index : IndexSound cfg s.index s.usedOffset
  records : AllRecords s.bank s.index

variable {cfg : Config} {answers : Answers} {s t : Store}

theorem Sound.small (h : Sound cfg s) : s.bankSize < 2^15 := by
  have hregion := h.region
  omega

theorem Sound.align_le (h : Sound cfg s) {v : ℕ} (hv : v ≤ s.bankSize) :
    alignUp s.appendSize v ≤ s.bankSize :=
  alignUp_le h.append_positive h.append_divides hv

theorem Sound.safe_bankBase (h : Sound cfg s) {bank : ℕ} (hbank : bank ≤ 1) :
    Safe (bankBase s bank) fun base => base ≤ s.base+s.bankSize := by
  have hregion := h.region
  have hproduct : bank*s.bankSize ≤ 1*s.bankSize := Nat.mul_le_mul_right _ hbank
  apply safe_mono (safe_narrow (by omega))
  intro base hbase
  omega

/-- The bytes outside of the used records may change. -/
theorem records_congr {index : List Entry} {used : ℕ} {m m' : Image}
    (h : IndexSound cfg index used) (hall : AllRecords m index)
    (hsame : ∀ i, cfg.publishSize ≤ i → i < used → m' i = m i) : AllRecords m' index := by
  intro j e he
  have hplaced := h.placed j e he
  have hheader : KV_REC_HDR_SIZE = 16 := rfl
  exact recordAt_congr (hall j e he) fun i hlow hhigh => hsame i (by omega) (by omega)

theorem Sound.compacted (h : Sound cfg s) (ht : Compacted cfg s t) : Sound cfg t := by
  have hothers := ht.others
  have htotal := h.index.total
  have hbank : t.bankSize = s.bankSize := by rw [hothers]
  have hbase : t.base = s.base := by rw [hothers]
  have happend : t.appendSize = s.appendSize := by rw [hothers]
  have hactive : t.activeBank = s.activeBank := by rw [hothers]
  have hpublish : t.needsPublish = true := by rw [hothers]
  constructor
  · rw [hbank]
    exact h.room
  · rw [hbank, hbase]
    exact h.region
  · rw [happend]
    exact h.append_positive
  · rw [hbank, happend]
    exact h.append_divides
  · rw [hactive]
    exact h.active
  · rw [hbank, ht.used]
    exact htotal.trans h.used
  · rw [hpublish]
    exact fun hno => absurd hno.symm Bool.false_ne_true
  · exact ht.index_sound h.index
  · exact ht.allRecords

theorem Sound.safe_compact (h : Sound cfg s) : Safe (compact cfg s) (Compacted cfg s) := by
  have hsmall := h.small
  exact KvCompaction.safe_compact h.index h.used (by omega)

theorem safe_fill {size offset length : ℕ} {m : Image} (h : offset+length ≤ size) :
    Safe (fill size m offset length) fun m' =>
      ∀ i, i < offset ∨ offset+length ≤ i → m' i = m i := by
  have hlength : (List.replicate length (0xFF : UInt8)).length = length := List.length_replicate
  apply safe_mono (safe_put (by omega))
  intro m' hm' i hi
  rw [hm']
  rcases hi with hlow | hhigh
  · exact write_of_lt hlow
  · exact write_of_ge (by omega)

theorem safe_fillTail {size offset : ℕ} {m : Image} : Safe (fillTail size m offset) fun m' =>
    ∀ i, i < offset → m' i = m i := by
  apply safe_ite
  · intro hlt
    apply safe_mono (safe_fill (by omega))
    intro m' hm' i hi
    exact hm' i (Or.inl hi)
  · intro _
    exact safe_pure fun _ _ => rfl

theorem safe_prepareBankHeader (h : Sound cfg s) (generation : UInt32) :
    Safe (prepareBankHeader cfg s generation) fun t => t = { s with bank := t.bank } ∧
      ∀ i, cfg.publishSize ≤ i → i < s.usedOffset → t.bank i = s.bank i := by
  have hroom := h.room
  have hused := h.used
  have hsmall := h.small
  have hpublish := h.index.publish_le
  have hheader := cfg.publish_header
  have hlength : KV_BANK_HDR_SIZE = 24 := rfl
  rw [prepareBankHeader]
  apply safe_bind (safe_fill (by omega))
  intro erased herased
  apply safe_bind safe_fillTail
  intro bank hbank
  apply safe_bind (safe_difference hpublish (by omega))
  intro bodySize hbody
  apply safe_bind (safe_fetch (by omega))
  intro body _
  apply safe_bind (safe_put (by rw [bankEncode_length]; omega))
  intro bank' hbank'
  apply safe_pure
  constructor
  · rfl
  · intro i hlow hhigh
    show bank' i = _
    rw [hbank', write_of_ge (by rw [bankEncode_length]; omega), hbank i hhigh,
      herased i (Or.inr (by omega))]

def Kept (cfg : Config) (answers : Answers) (r : Status × Store) : Prop :=
  Sound cfg r.2 ∧ (r.1 = .enomem → answers.replace = .enomem)

theorem safe_publishFull (h : Sound cfg s) :
    Safe (publishFull cfg answers s) (Kept cfg answers) := by
  have hsmall := h.small
  have halign := h.align_le h.used
  have hle := le_alignUp h.append_positive s.usedOffset
  rw [publishFull]
  apply safe_bind (safe_prepareBankHeader h _)
  rintro t ⟨ht, hsame⟩
  rw [ht]
  have hrecords := records_congr h.index h.records hsame
  have hdestination : (if s.activeBank = 0 then 1 else 0) ≤ 1 := by split <;> omega
  apply safe_bind (h.safe_bankBase hdestination)
  intro _ _
  apply safe_ite
  · intro _
    apply safe_pure
    constructor
    · exact ⟨h.room, h.region, h.append_positive, h.append_divides, h.active, h.used, h.flash,
        h.index, hrecords⟩
    · exact id
  · intro _
    apply safe_bind (safe_narrow (by show alignUp s.appendSize s.usedOffset < _; omega))
    intro flashEnd hflash
    have hflash : flashEnd = alignUp s.appendSize s.usedOffset := hflash
    apply safe_pure
    constructor
    · constructor
      · exact h.room
      · exact h.region
      · exact h.append_positive
      · exact h.append_divides
      · exact hdestination
      · exact hflash ▸ halign
      · exact fun _ => le_rfl
      · exact h.index.mono (hflash ▸ hle)
      · exact hrecords
    · exact nofun

theorem safe_compactAndPublish (h : Sound cfg s) :
    Safe (compactAndPublish cfg answers s) (Kept cfg answers) := by
  apply safe_bind h.safe_compact
  intro t ht
  exact safe_publishFull (h.compacted ht)

theorem safe_appendBatch (h : Sound cfg s) (hlog : s.needsPublish = false) :
    Safe (appendBatch answers s) fun r => Sound cfg r.2 := by
  have hsmall := h.small
  have hregion := h.region
  have hflash := h.flash hlog
  have hpublish := h.index.publish_le
  have hend := le_alignUp h.append_positive (s.usedOffset+recordSize KV_COMMIT_LEN)
  have hcommit : recordSize KV_COMMIT_LEN = 22 := rfl
  have hpair (a b : UInt16) : (storeLe16 a ++ storeLe16 b).length = KV_COMMIT_LEN := rfl
  rw [appendBatch]
  apply safe_ite
  · intro _
    exact safe_pure h
  · intro hfits
    apply safe_bind (safe_difference hflash (by omega))
    intro length hlength
    apply safe_bind (safe_fetch (by omega))
    intro records _
    apply safe_bind (safe_writeRecord (by rw [hpair]; omega) (by omega))
    intro bank hwritten
    apply safe_bind (h.safe_bankBase h.active)
    intro base hbase
    apply safe_bind (safe_narrow (by omega))
    intro _ _
    apply safe_bind (safe_difference (by omega) (by omega))
    intro appended happended
    apply safe_bind (safe_fetch (by omega))
    intro _ _
    have hbelow : ∀ i, i < s.usedOffset → bank i = s.bank i :=
      fun i hi => hwritten.others i (Or.inl hi)
    apply safe_ite
    · intro _
      apply safe_bind (safe_difference (by omega) (by omega))
      intro tail htail
      apply safe_bind (safe_fill (by omega))
      intro bank' hbank'
      apply safe_pure
      constructor
      · exact h.room
      · exact h.region
      · exact h.append_positive
      · exact h.append_divides
      · exact h.active
      · exact h.used
      · exact fun _ => hflash
      · exact h.index
      · apply records_congr h.index h.records
        intro i _ hi
        exact (hbank' i (Or.inl hi)).trans (hbelow i hi)
    · intro _
      apply safe_bind (safe_narrow (by omega))
      intro flashEnd hflashEnd
      apply safe_pure
      constructor
      · exact h.room
      · exact h.region
      · exact h.append_positive
      · exact h.append_divides
      · exact h.active
      · show flashEnd ≤ s.bankSize
        omega
      · exact fun _ => le_rfl
      · exact h.index.mono (by show s.usedOffset ≤ flashEnd; omega)
      · exact records_congr h.index h.records fun i _ hi => hbelow i hi

theorem safe_commitStore (h : Sound cfg s) :
    Safe (commitStore cfg answers s) (Kept cfg answers) := by
  rw [commitStore]
  apply safe_ite
  · intro _
    exact safe_pure ⟨h, nofun⟩
  · intro _
    apply safe_ite
    · intro _
      exact safe_compactAndPublish h
    · intro hlog
      apply safe_ite
      · intro _
        apply safe_pure
        constructor
        · exact ⟨h.room, h.region, h.append_positive, h.append_divides, h.active, h.used, h.flash,
            h.index, h.records⟩
        · exact nofun
      · intro _
        apply safe_bind (safe_appendBatch h (Bool.not_eq_true _ ▸ hlog))
        rintro ⟨status, t⟩ ht
        apply safe_ite
        · intro hdone
          exact safe_pure ⟨ht, fun hstatus => absurd hstatus hdone.1⟩
        · intro _
          exact safe_compactAndPublish ht

theorem safe_finishMutation (h : Sound cfg s) :
    Safe (finishMutation cfg answers s) (Kept cfg answers) := by
  have hdirty : Sound cfg { s with dirty := true } := ⟨h.room, h.region, h.append_positive,
    h.append_divides, h.active, h.used, h.flash, h.index, h.records⟩
  apply safe_ite
  · intro _
    exact safe_commitStore hdirty
  · intro _
    exact safe_pure ⟨hdirty, nofun⟩

theorem safe_finishNoChange (h : Sound cfg s) :
    Safe (finishNoChange cfg answers s) (Kept cfg answers) := by
  apply safe_ite
  · intro _
    exact safe_commitStore h
  · intro _
    exact safe_pure ⟨h, nofun⟩

end JaszczurHal.KvSafety
