import JaszczurHal.GpsOutline

/-!
# What a sentence commits

Parsers that read one sentence stage the same values for what it carries,
whatever they read before. A value that is committed is one that the
committing sentence carries, or one that was staged before it. Whether a
sentence passes is told from its bytes, with the two digits of its checksum.
-/

set_option autoImplicit false

namespace JaszczurHal.GpsIsolation
open ByteImage GpsNmea GpsSentence GpsOutline

theorem read_carried {a : Abi} {o : Outline} {t : Term} {f : Field}
    (h : f ∈ (o.read a t).carried) :
    f ∈ o.carried ∨ (t.checksum ≠ true ∧ o.number%256 ≠ 0 ∧ Term.string t ≠ [] ∧
      fieldOf o.kind (o.number%256) = some f) := by
  unfold Outline.read at h
  by_cases hc : t.checksum = true
  · rw [if_pos hc] at h
    exact Or.inl h
  rw [if_neg hc] at h
  by_cases hfirst : o.number%256 = 0
  · rw [if_pos hfirst] at h
    exact Or.inl h
  rw [if_neg hfirst] at h
  by_cases hempty : Term.string t = []
  · rw [if_pos hempty] at h
    exact Or.inl h
  rw [if_neg hempty] at h
  rcases List.mem_append.mp h with hnew | hold
  · exact Or.inr ⟨hc, hfirst, hempty, Option.mem_toList.mp hnew⟩
  · exact Or.inl hold

/-- The parser and the outline of its sentence agree. Before the first term
has ended the talker of an earlier sentence is still there. -/
structure Said (p : Parser) (o : Outline) : Prop where
  kind : p.sentenceType = o.kind
  fix : p.sentenceHasFix = o.fix
  talker : o.number ≠ 0 → p.talker = o.talker
  timeOk : p.staged.newTimeOk = true → Field.time ∈ o.carried
  dateOk : p.staged.newDateOk = true → Field.date ∈ o.carried

variable {a : Abi} {p q : Parser} {s : Cut} {c : UInt8}

theorem takeWhile_stop {α : Type} {f : α → Bool} (l : List α) {x : α} (r : List α)
    (hx : f x = false) : (l ++ x :: r).takeWhile f = l.takeWhile f := by
  induction l with
  | nil => rw [List.nil_append, List.takeWhile_cons_of_neg (by simp [hx]), List.takeWhile_nil]
  | cons y l ih => rw [List.cons_append, List.takeWhile_cons, List.takeWhile_cons, ih]

theorem terminated_text (h : Stands p s) : (terminated p).text = Term.string s.current := by
  have hlt := h.offset_lt
  have hreceived : slice p.term 0 p.termOffset = s.current.text.take 15 := h.received
  have hlast : slice (write p.term p.termOffset [0]) p.termOffset 1 = [0] :=
    slice_write_self p.term p.termOffset [0]
  show (slice (write p.term p.termOffset [0]) 0 termSize).takeWhile (· ≠ 0) = _
  rw [show termSize = p.termOffset+(1+(termSize-p.termOffset-1)) by omega, slice_append,
    slice_append, Nat.zero_add, hlast, slice_write_disjoint (by omega), hreceived]
  exact takeWhile_stop _ _ rfl

theorem terminated_received (h : Stands p s) :
    (terminated p).received = s.current.text.take 15 := by
  rw [← h.received]
  exact slice_write_disjoint (Or.inl (Nat.zero_add p.termOffset).le)

theorem text_eq (p : Parser) :
    p.text = (p.term 0 :: p.term 1 :: slice p.term 2 14).takeWhile (· ≠ 0) := rfl

theorem text_nil_iff (p : Parser) : p.text = [] ↔ p.term 0 = 0 := by
  rw [text_eq, List.takeWhile_eq_nil_iff]
  simp

theorem text_take_two (h : 2 ≤ p.text.length) : [p.term 0, p.term 1] = p.text.take 2 := by
  have hleads := (List.takeWhile_prefix (l := p.term 0 :: p.term 1 :: slice p.term 2 14)
    (fun x => decide (x ≠ 0))).take 2
  rw [← text_eq] at hleads
  symm
  apply hleads.eq_of_length
  simp [h]

theorem number_eq_zero (h : Stands p s) : p.termNumber = 0 ↔ s.ended.length%256 = 0 := by
  rw [h.number, ← UInt8.toNat_inj]
  simp

theorem number_toNat (h : Stands p s) : p.termNumber.toNat = s.ended.length%256 := by
  rw [h.number]
  simp

theorem decodeTerm_fix (p : Parser) : (decodeTerm a p).sentenceHasFix =
    fixAfter a p.sentenceType p.termNumber.toNat p.text p.sentenceHasFix := by
  unfold decodeTerm fixAfter
  cases p.sentenceType with
  | other => simp
  | rmc =>
    dsimp only
    unfold decodeRmc
    split <;> simp_all
  | gga =>
    dsimp only
    unfold decodeGga
    split <;> simp_all
  | gsa =>
    dsimp only
    unfold decodeGsa
    split <;> simp_all
  | gsv =>
    dsimp only
    unfold decodeGsv
    split <;> simp_all
  | gst =>
    dsimp only
    unfold decodeGst
    split <;> simp_all

/-- Only a term with the field itself sets its flag. -/
theorem decodeTerm_flags (p : Parser) :
    ((decodeTerm a p).staged.newTimeOk = true → p.staged.newTimeOk = true ∨
      fieldOf p.sentenceType p.termNumber.toNat = some .time) ∧
    ((decodeTerm a p).staged.newDateOk = true → p.staged.newDateOk = true ∨
      fieldOf p.sentenceType p.termNumber.toNat = some .date) := by
  unfold decodeTerm
  cases p.sentenceType with
  | other => exact ⟨Or.inl, Or.inl⟩
  | rmc =>
    dsimp only
    unfold decodeRmc
    split <;> rename_i hn <;> first
      | exact ⟨Or.inl, Or.inl⟩
      | exact ⟨fun _ => Or.inr (by rw [hn]; rfl), Or.inl⟩
      | exact ⟨Or.inl, fun _ => Or.inr (by rw [hn]; rfl)⟩
  | gga =>
    dsimp only
    unfold decodeGga
    split <;> exact ⟨Or.inl, Or.inl⟩
  | gsa =>
    dsimp only
    unfold decodeGsa
    split <;> exact ⟨Or.inl, Or.inl⟩
  | gsv =>
    dsimp only
    unfold decodeGsv
    split <;> exact ⟨Or.inl, Or.inl⟩
  | gst =>
    dsimp only
    unfold decodeGst
    split <;> exact ⟨Or.inl, Or.inl⟩

theorem negative_congr {x y : RawDegrees} (h : Reading.degrees x = .degrees y) (b : Bool) :
    Reading.degrees { x with negative := b } = .degrees { y with negative := b } := by
  rw [Reading.degrees.inj h]

theorem decodeRmc_staged {n : ℕ} {t r : List UInt8} {f : Field}
    (h : fieldOf .rmc n = some f ∨ stagedReading p.staged f = stagedReading q.staged f) :
    stagedReading (decodeRmc a n t r p).staged f =
      stagedReading (decodeRmc a n t r q).staged f := by
  unfold decodeRmc
  split <;> rcases h with h | h <;> first
    | (cases h; rfl)
    | cases h
    | (cases f <;> first | exact h | rfl | exact negative_congr h _)
    | (unfold fieldOf at h; split at h <;> simp_all)

theorem decodeGga_staged {n : ℕ} {t : List UInt8} {f : Field}
    (h : fieldOf .gga n = some f ∨ stagedReading p.staged f = stagedReading q.staged f) :
    stagedReading (decodeGga a n t p).staged f =
      stagedReading (decodeGga a n t q).staged f := by
  unfold decodeGga
  split <;> rcases h with h | h <;> first
    | (cases h; rfl)
    | cases h
    | (cases f <;> first | exact h | rfl | exact negative_congr h _)
    | (unfold fieldOf at h; split at h <;> simp_all)

theorem decodeGsa_staged {n : ℕ} {t : List UInt8} {f : Field}
    (h : fieldOf .gsa n = some f ∨ stagedReading p.staged f = stagedReading q.staged f) :
    stagedReading (decodeGsa a n t p).staged f =
      stagedReading (decodeGsa a n t q).staged f := by
  unfold decodeGsa
  split <;> rcases h with h | h <;> first
    | (cases h; rfl)
    | cases h
    | (cases f <;> first | exact h | rfl | exact negative_congr h _)
    | (unfold fieldOf at h; split at h <;> simp_all)

theorem decodeGsv_staged {n : ℕ} {t : List UInt8} {f : Field}
    (h : fieldOf .gsv n = some f ∨ stagedReading p.staged f = stagedReading q.staged f) :
    stagedReading (decodeGsv a n t p).staged f =
      stagedReading (decodeGsv a n t q).staged f := by
  unfold decodeGsv
  split <;> rcases h with h | h <;> first
    | (cases h; rfl)
    | cases h
    | (cases f <;> first | exact h | rfl | exact negative_congr h _)
    | (unfold fieldOf at h; split at h <;> simp_all)

theorem decodeGst_staged {n : ℕ} {t : List UInt8} {f : Field}
    (h : fieldOf .gst n = some f ∨ stagedReading p.staged f = stagedReading q.staged f) :
    stagedReading (decodeGst a n t p).staged f =
      stagedReading (decodeGst a n t q).staged f := by
  unfold decodeGst
  split <;> rcases h with h | h <;> first
    | (cases h; rfl)
    | cases h
    | (cases f <;> first | exact h | rfl | exact negative_congr h _)
    | (unfold fieldOf at h; split at h <;> simp_all)

/-- What a term carries is the same for any two parsers, and so is what both
had in common. -/
theorem decodeTerm_staged (hkind : p.sentenceType = q.sentenceType)
    (hnumber : p.termNumber = q.termNumber) (htext : p.text = q.text)
    (hreceived : p.received = q.received) {f : Field}
    (h : fieldOf p.sentenceType p.termNumber.toNat = some f ∨
      stagedReading p.staged f = stagedReading q.staged f) :
    stagedReading (decodeTerm a p).staged f = stagedReading (decodeTerm a q).staged f := by
  unfold decodeTerm
  rw [← hkind, ← hnumber, ← htext, ← hreceived]
  cases hp : p.sentenceType with
  | rmc => exact decodeRmc_staged (hp ▸ h)
  | gga => exact decodeGga_staged (hp ▸ h)
  | gsa => exact decodeGsa_staged (hp ▸ h)
  | gsv => exact decodeGsv_staged (hp ▸ h)
  | gst => exact decodeGst_staged (hp ▸ h)
  | other =>
    rw [hp] at h
    rcases h with h | h
    · simp [fieldOf] at h
    · exact h

structure RmcTerm (a : Abi) (n : ℕ) (t received : List UInt8) (p q : Parser) : Prop where
  status : q.staged.newStatusOk =
    if n = 2 then decide (received.length = 1) && letterIs t 0x41 else p.staged.newStatusOk
  timeOk : q.staged.newTimeOk =
    if n = 1 then rmcTimeIsWellFormed received else p.staged.newTimeOk
  dateOk : q.staged.newDateOk =
    if n = 9 then rmcDateIsWellFormed received else p.staged.newDateOk
  fix : q.sentenceHasFix = if n = 2 then letterIs t 0x41 else p.sentenceHasFix
  time : q.staged.newTime = if n = 1 then unsignedX100 a t else p.staged.newTime
  date : q.staged.newDate = if n = 9 then UInt32.ofInt (atol a t) else p.staged.newDate

theorem decodeRmc_term (n : ℕ) (t received : List UInt8) (p : Parser) :
    RmcTerm a n t received p (decodeRmc a n t received p) := by
  unfold decodeRmc
  split <;> constructor <;> simp_all

structure SameFlags (s t : Staging) : Prop where
  status : s.newStatusOk = t.newStatusOk
  timeOk : s.newTimeOk = t.newTimeOk
  dateOk : s.newDateOk = t.newDateOk

theorem decodeTerm_other (p : Parser) (h : p.sentenceType ≠ .rmc) :
    SameFlags (decodeTerm a p).staged p.staged := by
  unfold decodeTerm
  cases hkind : p.sentenceType with
  | rmc => exact absurd hkind h
  | gga =>
    dsimp only
    unfold decodeGga
    split <;> exact ⟨rfl, rfl, rfl⟩
  | gsa =>
    dsimp only
    unfold decodeGsa
    split <;> exact ⟨rfl, rfl, rfl⟩
  | gsv =>
    dsimp only
    unfold decodeGsv
    split <;> exact ⟨rfl, rfl, rfl⟩
  | gst =>
    dsimp only
    unfold decodeGst
    split <;> exact ⟨rfl, rfl, rfl⟩
  | other => exact ⟨rfl, rfl, rfl⟩

theorem SameFlags.trans {s t u : Staging} (h : SameFlags s t) (h' : SameFlags t u) :
    SameFlags s u :=
  ⟨h.status.trans h'.status, h.timeOk.trans h'.timeOk, h.dateOk.trans h'.dateOk⟩

theorem SameFlags.symm {s t : Staging} (h : SameFlags s t) : SameFlags t s :=
  ⟨h.status.symm, h.timeOk.symm, h.dateOk.symm⟩

theorem decodeTerm_sameFlags (hkind : p.sentenceType = q.sentenceType)
    (hnumber : p.termNumber = q.termNumber) (htext : p.text = q.text)
    (hreceived : p.received = q.received) (h : SameFlags p.staged q.staged) :
    SameFlags (decodeTerm a p).staged (decodeTerm a q).staged := by
  by_cases hrmc : p.sentenceType = .rmc
  · have hread {x : Parser} (hx : x.sentenceType = .rmc) :
        RmcTerm a x.termNumber.toNat x.text x.received x (decodeTerm a x) := by
      unfold decodeTerm
      rw [hx]
      exact decodeRmc_term _ _ _ x
    have hp := hread hrmc
    have hq := hread (hkind.symm.trans hrmc)
    rw [← hnumber, ← htext, ← hreceived] at hq
    constructor
    · rw [hp.status, hq.status, h.status]
    · rw [hp.timeOk, hq.timeOk, h.timeOk]
    · rw [hp.dateOk, hq.dateOk, h.dateOk]
  · have hother : q.sentenceType ≠ .rmc := by rwa [← hkind]
    exact ((decodeTerm_other p hrmc).trans h).trans (decodeTerm_other q hother).symm

theorem terminated_term_zero (h : Stands p s) :
    (terminated p).term 0 = 0 ↔ Term.string s.current = [] := by
  rw [← text_nil_iff, terminated_text h]

theorem endOfTerm_staged (p : Parser) : (endOfTerm a p).1.staged =
    if p.isChecksumTerm = true ∨ p.termNumber = 0 ∨ p.sentenceType = .other ∨ p.term 0 = 0
      then p.staged else (decodeTerm a p).staged := by
  unfold endOfTerm
  by_cases hchecksum : p.isChecksumTerm = true
  · rw [if_pos hchecksum, if_pos (Or.inl hchecksum)]
    split <;> rfl
  rw [if_neg hchecksum]
  by_cases hnumber : p.termNumber = 0
  · rw [if_pos hnumber, if_pos (Or.inr (Or.inl hnumber))]
    rfl
  rw [if_neg hnumber]
  by_cases hdecode : p.sentenceType ≠ .other ∧ p.term 0 ≠ 0
  · rw [if_pos hdecode, if_neg (by simp [hchecksum, hnumber, hdecode])]
  · rw [if_neg hdecode, if_pos]
    by_cases hother : p.sentenceType = .other
    · exact Or.inr (Or.inr (Or.inl hother))
    · exact Or.inr (Or.inr (Or.inr (not_not.mp fun h => hdecode ⟨hother, h⟩)))

theorem said_endOfTerm (h : Stands p s) (hs : Said p (outline a s.ended))
    (hopened : s.current.checksum = true → s.ended ≠ []) :
    Said (endOfTerm a (terminated p)).1 ((outline a s.ended).read a s.current) := by
  have hchecksum : (terminated p).isChecksumTerm = s.current.checksum := h.checksum
  have htext := terminated_text h
  have htoNat : (terminated p).termNumber.toNat = s.ended.length%256 := number_toNat (p := p) h
  have hzero : (terminated p).termNumber = 0 ↔ s.ended.length%256 = 0 := number_eq_zero (p := p) h
  have hkind : (terminated p).sentenceType = (outline a s.ended).kind := hs.kind
  have hfix : (terminated p).sentenceHasFix = (outline a s.ended).fix := hs.fix
  have hcount := outline_number a s.ended
  have htalker : s.ended ≠ [] → (terminated p).talker = (outline a s.ended).talker := by
    intro hne
    apply hs.talker
    rw [hcount]
    exact List.length_pos_iff.mpr hne |>.ne'
  unfold endOfTerm Outline.read
  by_cases hc : s.current.checksum = true
  · rw [if_pos (hchecksum.trans hc), if_pos hc]
    split <;> exact ⟨hkind, hfix, fun _ => htalker (hopened hc), hs.timeOk, hs.dateOk⟩
  rw [if_neg (by rwa [hchecksum]), if_neg hc, hcount]
  by_cases hfirst : s.ended.length%256 = 0
  · rw [if_pos (hzero.mpr hfirst), if_pos hfirst]
    refine ⟨congrArg sentenceTypeFrom htext, hfix, fun _ => ?_, hs.timeOk, hs.dateOk⟩
    show (if 5 ≤ (terminated p).text.length then [(terminated p).term 0, (terminated p).term 1]
      else []) = if 5 ≤ (Term.string s.current).length then (Term.string s.current).take 2 else []
    rw [← htext]
    by_cases hlong : 5 ≤ (terminated p).text.length
    · rw [if_pos hlong, if_pos hlong, text_take_two (by omega)]
    · rw [if_neg hlong, if_neg hlong]
  have hne : s.ended ≠ [] := fun h => hfirst (by rw [h]; rfl)
  rw [if_neg (hzero.not.mpr hfirst), if_neg hfirst]
  by_cases hempty : Term.string s.current = []
  · rw [if_pos hempty, if_neg fun hd => hd.2 ((terminated_term_zero h).mpr hempty)]
    exact ⟨hkind, hfix, fun _ => htalker hne, hs.timeOk, hs.dateOk⟩
  rw [if_neg hempty]
  have hterm := (terminated_term_zero h).not.mpr hempty
  by_cases hother : (terminated p).sentenceType = .other
  · rw [if_neg fun hd => hd.1 hother]
    have hnone : (outline a s.ended).kind = .other := hkind.symm.trans hother
    refine ⟨hkind, ?_, fun _ => htalker hne, ?_, ?_⟩
    · rw [hfix, fixAfter, hnone]
      rfl
    · exact fun hok => List.mem_append_right _ (hs.timeOk hok)
    · exact fun hok => List.mem_append_right _ (hs.dateOk hok)
  rw [if_pos ⟨hother, hterm⟩]
  have hflags := decodeTerm_flags (a := a) (terminated p)
  rw [hkind, htoNat] at hflags
  have hsaid := decodeTerm_fix (a := a) (terminated p)
  rw [hkind, htoNat, htext, hfix] at hsaid
  obtain ⟨staged, fix, hframe⟩ := decodeTerm_frame a (terminated p)
  refine ⟨?_, hsaid, fun _ => ?_, fun hok => ?_, fun hok => ?_⟩
  · rw [hframe]
    exact hkind
  · rw [hframe]
    exact htalker hne
  · rcases hflags.1 hok with hold | hnew
    · exact List.mem_append_right _ (hs.timeOk hold)
    · exact List.mem_append_left _ (by rw [hnew]; exact List.mem_cons_self)
  · rcases hflags.2 hok with hold | hnew
    · exact List.mem_append_right _ (hs.dateOk hold)
    · exact List.mem_append_left _ (by rw [hnew]; exact List.mem_cons_self)

structure Alike (o : Outline) (p q : Parser) : Prop where
  fields : ∀ f ∈ o.carried, stagedReading p.staged f = stagedReading q.staged f
  flags : SameFlags p.staged q.staged

theorem alike_endOfTerm (hp : Stands p s) (hq : Stands q s) (hps : Said p (outline a s.ended))
    (hqs : Said q (outline a s.ended)) (h : Alike (outline a s.ended) p q) :
    Alike ((outline a s.ended).read a s.current) (endOfTerm a (terminated p)).1
      (endOfTerm a (terminated q)).1 := by
  have hkind : (terminated p).sentenceType = (terminated q).sentenceType :=
    hps.kind.trans hqs.kind.symm
  have hnumber : (terminated p).termNumber = (terminated q).termNumber :=
    hp.number.trans hq.number.symm
  have htext : (terminated p).text = (terminated q).text :=
    (terminated_text hp).trans (terminated_text hq).symm
  have hchecksum : (terminated p).isChecksumTerm = (terminated q).isChecksumTerm :=
    hp.checksum.trans hq.checksum.symm
  have hterm : (terminated p).term 0 = 0 ↔ (terminated q).term 0 = 0 :=
    (terminated_term_zero hp).trans (terminated_term_zero hq).symm
  have hreceived : (terminated p).received = (terminated q).received :=
    (terminated_received hp).trans (terminated_received hq).symm
  have hpstaged := endOfTerm_staged (a := a) (terminated p)
  have hqstaged := endOfTerm_staged (a := a) (terminated q)
  rw [← hchecksum, ← hnumber, ← hkind] at hqstaged
  simp only [← hterm] at hqstaged
  by_cases hskip : (terminated p).isChecksumTerm = true ∨ (terminated p).termNumber = 0 ∨
      (terminated p).sentenceType = .other ∨ (terminated p).term 0 = 0
  · rw [if_pos hskip] at hpstaged hqstaged
    refine ⟨fun f hf => ?_, by rw [hpstaged, hqstaged]; exact h.flags⟩
    rw [hpstaged, hqstaged]
    rcases read_carried hf with hold | ⟨hc, hfirst, hempty, hfield⟩
    · exact h.fields f hold
    rw [outline_number] at hfirst
    rcases hskip with hskip | hskip | hskip | hskip
    · exact absurd (hp.checksum.symm.trans hskip) hc
    · exact absurd ((number_eq_zero (p := p) hp).mp hskip) hfirst
    · rw [show (outline a s.ended).kind = .other from hps.kind.symm.trans hskip] at hfield
      simp [fieldOf] at hfield
    · exact absurd ((terminated_term_zero hp).mp hskip) hempty
  · rw [if_neg hskip] at hpstaged hqstaged
    refine ⟨fun f hf => ?_, ?_⟩
    swap
    · rw [hpstaged, hqstaged]
      exact decodeTerm_sameFlags hkind hnumber htext hreceived h.flags
    rw [hpstaged, hqstaged]
    apply decodeTerm_staged hkind hnumber htext hreceived
    have hnumber' : (terminated p).termNumber.toNat = s.ended.length%256 :=
      number_toNat (p := p) hp
    rw [hnumber', show (terminated p).sentenceType = (outline a s.ended).kind from hps.kind]
    rcases read_carried hf with hold | ⟨_, _, _, hfield⟩
    · exact Or.inr (h.fields f hold)
    · rw [outline_number] at hfield
      exact Or.inl hfield

structure Within (a : Abi) (p : Parser) (s : Cut) : Prop where
  stands : Stands p s
  said : Said p (outline a s.ended)
  opened : s.current.checksum = true → s.ended ≠ []

theorem within_endWith (h : Within a p s) (hc : ends c = true) :
    Within a (endWith a c p).1 (s.add c) := by
  have hended : (s.add c).ended = s.ended ++ [s.current] := if_pos hc
  refine ⟨stands_endWith h.stands hc, ?_, fun _ => by rw [hended]; simp⟩
  rw [endWith_eq h.stands.offset_lt, hended, outline_snoc]
  have hs := said_endOfTerm h.stands h.said h.opened
  exact ⟨hs.kind, hs.fix, hs.talker, hs.timeOk, hs.dateOk⟩

theorem alike_endWith (hp : Within a p s) (hq : Within a q s)
    (h : Alike (outline a s.ended) p q) (hc : ends c = true) :
    Alike (outline a (s.add c).ended) (endWith a c p).1 (endWith a c q).1 := by
  have hended : (s.add c).ended = s.ended ++ [s.current] := if_pos hc
  rw [endWith_eq hp.stands.offset_lt, endWith_eq hq.stands.offset_lt, hended, outline_snoc]
  have halike := alike_endOfTerm hp.stands hq.stands hp.said hq.said h
  exact ⟨halike.fields, halike.flags⟩

/-- The bookkeeping that `encode` does before it looks at the term. -/
theorem within_counted (h : Within a p s) (count : UInt32) (parity : UInt8) :
    Within a { p with charsProcessed := count, parity := parity } s :=
  ⟨⟨h.stands.number, h.stands.checksum, h.stands.offset, h.stands.received⟩,
    ⟨h.said.kind, h.said.fix, h.said.talker, h.said.timeOk, h.said.dateOk⟩, h.opened⟩

theorem within_append (h : Within a p s) (hc : ends c = false) :
    Within a (append c p) (s.add c) := by
  have hended : (s.add c).ended = s.ended := if_neg (by simp [hc])
  have hcurrent : (s.add c).current = ⟨s.current.text ++ [c], s.current.checksum⟩ :=
    if_neg (by simp [hc])
  refine ⟨stands_append h.stands hc, ?_, fun hchecksum => ?_⟩
  · rw [hended]
    exact ⟨h.said.kind, h.said.fix, h.said.talker, h.said.timeOk, h.said.dateOk⟩
  · rw [hended]
    rw [hcurrent] at hchecksum
    exact h.opened hchecksum

/-- A byte ends the term, begins a sentence or is added to the term. -/
theorem encode_cases (a : Abi) (p : Parser) {c : UInt8} (hc : c ≠ dollar) :
    (ends c = true ∧ encode a p c = endWith a c { p with
      charsProcessed := p.charsProcessed+1
      parity := if c = comma then p.parity ^^^ c else p.parity }) ∨
    (ends c = false ∧
      encode a p c = (append c { p with charsProcessed := p.charsProcessed+1 }, false)) := by
  unfold encode
  dsimp only
  by_cases hcomma : c = comma
  · rw [if_pos hcomma, if_pos hcomma]
    exact Or.inl ⟨by rw [hcomma, ends_comma], rfl⟩
  rw [if_neg hcomma, if_neg hcomma]
  by_cases hend : c = carriageReturn ∨ c = lineFeed ∨ c = asterisk
  · rw [if_pos hend]
    exact Or.inl ⟨ends_iff.mpr (Or.inr hend), rfl⟩
  · rw [if_neg hend, if_neg hc]
    refine Or.inr ⟨Bool.eq_false_iff.mpr fun hends => ?_, rfl⟩
    rcases ends_iff.mp hends with h | h
    · exact hcomma h
    · exact hend h

theorem within_encode (h : Within a p s) (hc : c ≠ dollar) :
    Within a (encode a p c).1 (s.add c) := by
  rcases encode_cases a p hc with ⟨hends, heq⟩ | ⟨hends, heq⟩
  · rw [heq]
    exact within_endWith (within_counted h _ _) hends
  · rw [heq]
    exact within_append (within_counted h _ p.parity) hends

theorem alike_encode (hp : Within a p s) (hq : Within a q s)
    (h : Alike (outline a s.ended) p q) (hc : c ≠ dollar) :
    Alike (outline a (s.add c).ended) (encode a p c).1 (encode a q c).1 := by
  rcases encode_cases a p hc with ⟨hends, hpeq⟩ | ⟨hends, hpeq⟩
  · rcases encode_cases a q hc with ⟨_, hqeq⟩ | ⟨hno, _⟩
    · rw [hpeq, hqeq]
      exact alike_endWith (within_counted hp _ _) (within_counted hq _ _)
        ⟨h.fields, h.flags⟩ hends
    · rw [hends] at hno
      cases hno
  · rcases encode_cases a q hc with ⟨hno, _⟩ | ⟨_, hqeq⟩
    · rw [hends] at hno
      cases hno
    · have hended : (s.add c).ended = s.ended := if_neg (by simp [hends])
      rw [hpeq, hqeq, hended]
      exact ⟨h.fields, h.flags⟩

theorem within_begin (p : Parser) : Within a (begin p) (cut []) :=
  ⟨(reads_begin p).toStands, ⟨rfl, rfl, fun h => absurd rfl h, nofun, nofun⟩, nofun⟩

theorem within_run (bytes : List UInt8) : Within a (run a bytes) (cut (sentence bytes)) := by
  induction bytes using List.reverseRecOn with
  | nil => exact ⟨reads_init.toStands, ⟨rfl, rfl, fun h => absurd rfl h, nofun, nofun⟩, nofun⟩
  | append_singleton bytes c ih =>
    rw [run_snoc]
    by_cases hc : c = dollar
    · subst hc
      rw [sentence_dollar, encode_dollar]
      exact within_begin _
    · rw [sentence_snoc bytes hc, cut_snoc]
      exact within_encode ih hc

theorem sentence_sentence (bytes : List UInt8) : sentence (sentence bytes) = sentence bytes :=
  List.rtakeWhile_idempotent _ _

/-- After any stream a parser holds for the values its sentence carries what
the sentence alone stages, and the same flags. -/
theorem alike_run (bytes : List UInt8) :
    Alike (outline a (cut (sentence bytes)).ended) (run a bytes) (run a (sentence bytes)) := by
  induction bytes using List.reverseRecOn with
  | nil => exact ⟨fun _ _ => rfl, ⟨rfl, rfl, rfl⟩⟩
  | append_singleton bytes c ih =>
    by_cases hc : c = dollar
    · subst hc
      rw [sentence_dollar, run_snoc, encode_dollar]
      refine ⟨fun f hf => ?_, ⟨rfl, rfl, rfl⟩⟩
      cases hf
    · have halone := within_run (a := a) (sentence bytes)
      rw [sentence_sentence] at halone
      rw [sentence_snoc bytes hc, cut_snoc, run_snoc, run_snoc]
      exact alike_encode (within_run bytes) halone ih hc

def saying (a : Abi) (bytes : List UInt8) : Outline := outline a (cut (sentence bytes)).ended

def outlinePublishes (o : Outline) (d : Datum) : Bool := publishes o.kind o.fix o.talker d

def isHexDigit (c : UInt8) : Bool :=
  (0x30 ≤ c && c ≤ 0x39) || (0x41 ≤ c && c ≤ 0x46) || (0x61 ≤ c && c ≤ 0x66)

/-- The value of a checksum term that begins with two hexadecimal digits. -/
def checksumOf : List UInt8 → Option UInt8
  | d0 :: d1 :: _ =>
    if isHexDigit d0 && isHexDigit d1 then some (16*hexValue d0+hexValue d1) else none
  | _ => none

def Closes (s : Cut) (c : UInt8) : Prop := s.current.checksum = true ∧ ends c = true

/-- The byte ends a checksum term whose digits agree with the sentence. -/
def Passes (s : Cut) (c : UInt8) : Prop :=
  Closes s c ∧ c ≠ comma ∧ checksumOf s.current.text = some (xorAll s.covered)

/-- A checksum term that the byte ends has its digits, and the byte is no comma. -/
def Legible (s : Cut) (c : UInt8) : Prop :=
  Closes s c → c ≠ comma ∧ (checksumOf s.current.text).isSome = true

instance (s : Cut) (c : UInt8) : Decidable (Closes s c) :=
  inferInstanceAs (Decidable (_ ∧ _))

instance (s : Cut) (c : UInt8) : Decidable (Passes s c) :=
  inferInstanceAs (Decidable (_ ∧ _))

instance (s : Cut) (c : UInt8) : Decidable (Legible s c) :=
  inferInstanceAs (Decidable (_ → _))

theorem checksumOf_some {text : List UInt8} {v : UInt8} (h : checksumOf text = some v) :
    ∃ d0 d1 rest, text = d0 :: d1 :: rest ∧ v = 16*hexValue d0+hexValue d1 := by
  unfold checksumOf at h
  split at h
  · rename_i d0 d1 rest
    split_ifs at h
    exact ⟨d0, d1, rest, rfl, (Option.some.inj h).symm⟩
  · cases h

theorem endWith_passes (hoffset : p.termOffset < termSize) (hopened : p.isChecksumTerm = true)
    (hagree : (terminated p).checksum = p.parity) : (endWith a c p).2 = true := by
  rw [endWith_eq hoffset]
  have hterm : (terminated p).isChecksumTerm = true := hopened
  have hparity : (terminated p).checksum = (terminated p).parity := hagree
  simp [endOfTerm, hterm, hparity]

theorem dollar_of_ends (h : ends c = true) : c ≠ dollar := by
  rintro rfl
  revert h
  decide

/-- Where the digits are there, the parser passes a sentence exactly when they
agree. -/
theorem commits_iff {bytes : List UInt8} (h : Legible (cut (sentence bytes)) c) :
    Commits a bytes c ↔ Passes (cut (sentence bytes)) c := by
  have hreads := reads_run (a := a) bytes
  constructor
  · intro hcommits
    obtain ⟨hends, hchecksum, hagree⟩ := encode_commits hcommits
    have hcloses : Closes (cut (sentence bytes)) c := ⟨hreads.checksum.symm.trans hchecksum, hends⟩
    obtain ⟨hcomma, hsome⟩ := h hcloses
    obtain ⟨v, hv⟩ := Option.isSome_iff_exists.mp hsome
    obtain ⟨d0, d1, rest, htext, rfl⟩ := checksumOf_some hv
    refine ⟨hcloses, hcomma, ?_⟩
    rw [hv, ← terminated_checksum hreads htext, hagree hcomma, hreads.parity]
  · rintro ⟨⟨hchecksum, hends⟩, hcomma, hv⟩
    obtain ⟨d0, d1, rest, htext, hvalue⟩ := checksumOf_some hv
    have hopened : (run a bytes).isChecksumTerm = true := hreads.checksum.trans hchecksum
    have hagree : (terminated (run a bytes)).checksum = (run a bytes).parity := by
      rw [terminated_checksum hreads htext, hreads.parity, hvalue]
    have hoffset := hreads.offset_lt
    rcases encode_cases a (run a bytes) (dollar_of_ends hends) with ⟨_, heq⟩ | ⟨hno, _⟩
    · unfold Commits
      rw [heq, if_neg hcomma]
      exact endWith_passes hoffset hopened hagree
    · rw [hends] at hno
      cases hno

section Last

variable {β : Type} {P : List UInt8 → UInt8 → Prop} {value : List UInt8 → β} {first : β}

/-- A value is the first one until the stream has a byte of this kind, and from
then on it is what the bytes before the last one make it. -/
def FromLast (P : List UInt8 → UInt8 → Prop) (value : List UInt8 → β) (first : β)
    (bytes : List UInt8) (now : β) : Prop :=
  (now = first ∧ ∀ k : Fin bytes.length, ¬ P (bytes.take k) bytes[k]) ∨
  ∃ k : Fin bytes.length, P (bytes.take k) bytes[k] ∧
    (∀ j : Fin bytes.length, k < j → ¬ P (bytes.take j) bytes[j]) ∧
    now = value (bytes.take k)

instance [DecidableEq β] [∀ bytes c, Decidable (P bytes c)] (bytes : List UInt8) (now : β) :
    Decidable (FromLast P value first bytes now) :=
  inferInstanceAs (Decidable (_ ∨ _))

theorem take_snoc (bytes : List UInt8) (c : UInt8) {k : ℕ} (hk : k < bytes.length)
    (hk' : k < (bytes ++ [c]).length) :
    (bytes ++ [c]).take k = bytes.take k ∧ (bytes ++ [c])[k] = bytes[k] :=
  ⟨List.take_append_of_le_length hk.le, List.getElem_append_left hk⟩

theorem last_index (bytes : List UInt8) (c : UInt8) :
    bytes.length < (bytes ++ [c]).length := by
  simp

theorem index_cases {bytes : List UInt8} (k : Fin (bytes ++ [c]).length) :
    (k : ℕ) < bytes.length ∨ (k : ℕ) = bytes.length := by
  have hk : (k : ℕ) < bytes.length+1 := by simpa using k.isLt
  omega

theorem kind_at_last {bytes : List UInt8} (k : Fin (bytes ++ [c]).length)
    (hk : (k : ℕ) = bytes.length) : P ((bytes ++ [c]).take k) (bytes ++ [c])[k] ↔ P bytes c := by
  simp [hk]

theorem kind_before {bytes : List UInt8} (k : Fin (bytes ++ [c]).length)
    (hk : (k : ℕ) < bytes.length) :
    P ((bytes ++ [c]).take k) (bytes ++ [c])[k] ↔ P (bytes.take k) bytes[(k : ℕ)] := by
  obtain ⟨htake, hget⟩ := take_snoc bytes c hk k.isLt
  simp only [Fin.getElem_fin, htake, hget]

theorem fromLast_now {bytes : List UInt8} (h : P bytes c) :
    FromLast P value first (bytes ++ [c]) (value bytes) := by
  refine Or.inr ⟨⟨bytes.length, last_index bytes c⟩, ?_, fun j hj => ?_, by simp⟩
  · exact (kind_at_last ⟨bytes.length, last_index bytes c⟩ rfl).mpr h
  · have hlarge : bytes.length < (j : ℕ) := hj
    rcases index_cases j with hbefore | hlast
    · omega
    · omega

theorem fromLast_later {bytes : List UInt8} {now : β} (hno : ¬ P bytes c)
    (h : FromLast P value first bytes now) : FromLast P value first (bytes ++ [c]) now := by
  rcases h with ⟨hfirst, hnone⟩ | ⟨k, hk, hlater, hvalue⟩
  · refine Or.inl ⟨hfirst, fun k => ?_⟩
    rcases index_cases k with hbefore | hlast
    · rw [kind_before (P := P) k hbefore]
      exact hnone ⟨k, hbefore⟩
    · rwa [kind_at_last (P := P) k hlast]
  · have hlt := k.isLt.trans (last_index bytes c)
    refine Or.inr ⟨⟨k, hlt⟩, (kind_before ⟨k, hlt⟩ k.isLt).mpr hk, fun j hj => ?_, ?_⟩
    · rcases index_cases j with hbefore | hlast
      · rw [kind_before (P := P) j hbefore]
        exact hlater ⟨j, hbefore⟩ hj
      · rwa [kind_at_last (P := P) j hlast]
    · rw [hvalue, (take_snoc bytes c k.isLt hlt).1]

/-- If every step of this kind sets the value and no other does. -/
theorem fromLast_run (now : List UInt8 → β) (hfirst : now [] = first) (bytes : List UInt8)
    (hset : ∀ k : Fin bytes.length, P (bytes.take k) bytes[k] →
      now (bytes.take k ++ [bytes[k]]) = value (bytes.take k))
    (hkeep : ∀ k : Fin bytes.length, ¬ P (bytes.take k) bytes[k] →
      now (bytes.take k ++ [bytes[k]]) = now (bytes.take k)) :
    FromLast P value first bytes (now bytes) := by
  induction bytes using List.reverseRecOn with
  | nil => exact Or.inl ⟨hfirst, fun k => absurd k.isLt (Nat.not_lt_zero k)⟩
  | append_singleton bytes c ih =>
    have hlast := last_index bytes c
    by_cases hkind : P bytes c
    · have hnow := hset ⟨bytes.length, hlast⟩ ((kind_at_last ⟨bytes.length, hlast⟩ rfl).mpr hkind)
      simp only [Fin.getElem_fin, List.take_left, List.getElem_concat_length] at hnow
      rw [hnow]
      exact fromLast_now hkind
    · have hnow := hkeep ⟨bytes.length, hlast⟩
        ((kind_at_last ⟨bytes.length, hlast⟩ rfl).not.mpr hkind)
      simp only [Fin.getElem_fin, List.take_left, List.getElem_concat_length] at hnow
      rw [hnow]
      apply fromLast_later hkind
      apply ih
      · intro k hk
        obtain ⟨htake, hget⟩ := take_snoc bytes c k.isLt (k.isLt.trans hlast)
        have hstep := hset ⟨k, k.isLt.trans hlast⟩ ((kind_before _ k.isLt).mpr hk)
        simpa only [Fin.getElem_fin, htake, hget] using hstep
      · intro k hk
        obtain ⟨htake, hget⟩ := take_snoc bytes c k.isLt (k.isLt.trans hlast)
        have hstep := hkeep ⟨k, k.isLt.trans hlast⟩ ((kind_before _ k.isLt).not.mpr hk)
        simpa only [Fin.getElem_fin, htake, hget] using hstep

end Last

def Publishes (a : Abi) (d : Datum) (before : List UInt8) (c : UInt8) : Prop :=
  Passes (cut (sentence before)) c ∧ outlinePublishes (saying a before) d = true

/-- Each sentence that makes the value public has the digits of its checksum
and a term that carries the value. -/
def Complete (a : Abi) (bytes : List UInt8) (d : Datum) : Prop :=
  ∀ k : Fin bytes.length, outlinePublishes (saying a (bytes.take k)) d = true →
    Legible (cut (sentence (bytes.take k))) bytes[k] ∧
    (Passes (cut (sentence (bytes.take k))) bytes[k] →
      d.field ∈ (saying a (bytes.take k)).carried)

/-- The public value is what the last sentence that passes and makes it public
stages when it is read alone. -/
def FromOneSentence (a : Abi) (bytes : List UInt8) (d : Datum) : Prop :=
  FromLast (Publishes a d) (fun before => stagedReading (run a (sentence before)).staged d.field)
    (reading init.committed d) bytes (reading (run a bytes).committed d)

instance (a : Abi) (d : Datum) (before : List UInt8) (c : UInt8) :
    Decidable (Publishes a d before c) :=
  inferInstanceAs (Decidable (_ ∧ _))

instance (a : Abi) (bytes : List UInt8) (d : Datum) : Decidable (Complete a bytes d) :=
  inferInstanceAs (Decidable (∀ _ : Fin bytes.length, _))

instance (a : Abi) (bytes : List UInt8) (d : Datum) : Decidable (FromOneSentence a bytes d) :=
  inferInstanceAs (Decidable (FromLast _ _ _ _ _))

def utcPublic (v : Committed) : Bool × UInt32 × Datetime := (v.utcValid, v.utcCommitSeq, v.utc)

theorem commitUtc_public (s : Staging) (v : Committed) : utcPublic (commitUtc s v) =
    if s.newStatusOk = true ∧ s.newTimeOk = true ∧ s.newDateOk = true ∧
      validateDatetime (utcOf s.newDate s.newTime) utcMinYear utcMaxYear = true
    then (true, v.utcCommitSeq+1, utcOf s.newDate s.newTime) else utcPublic v := by
  unfold commitUtc
  cases s.newStatusOk <;> cases s.newTimeOk <;> cases s.newDateOk <;> simp
  split_ifs <;> rfl

/-- The calendar value that a sentence has staged, if it is complete. -/
def stagedUtc (p : Parser) : Option Datetime :=
  if p.sentenceType = .rmc ∧ p.sentenceHasFix = true ∧ p.staged.newStatusOk = true ∧
      p.staged.newTimeOk = true ∧ p.staged.newDateOk = true ∧
      validateDatetime (utcOf p.staged.newDate p.staged.newTime) utcMinYear utcMaxYear = true
  then some (utcOf p.staged.newDate p.staged.newTime) else none

theorem commitSentence_public (p : Parser) : utcPublic (commitSentence p).committed =
    match stagedUtc p with
    | some utc => (true, p.committed.utcCommitSeq+1, utc)
    | none => utcPublic p.committed := by
  unfold commitSentence stagedUtc
  dsimp only
  cases hkind : p.sentenceType with
  | rmc =>
    dsimp only
    unfold commitRmc
    cases p.sentenceHasFix with
    | false => simp [utcPublic]
    | true =>
      simp only [if_true, commitUtc_public, true_and]
      split_ifs
      · rfl
      · rfl
  | gga =>
    dsimp only
    unfold commitGga
    split_ifs <;> simp_all [utcPublic, commitPosition]
  | gsa => simp [commitGsa, utcPublic]
  | gsv =>
    dsimp only
    unfold commitGsv
    split_ifs <;> simp_all [utcPublic]
  | gst => simp [commitGst, utcPublic]
  | other => simp

def PublishesUtc (a : Abi) (before : List UInt8) (c : UInt8) : Prop :=
  Passes (cut (sentence before)) c ∧ (stagedUtc (run a (sentence before))).isSome = true

def UtcComplete (a : Abi) (bytes : List UInt8) : Prop :=
  ∀ k : Fin bytes.length, (stagedUtc (run a (sentence (bytes.take k)))).isSome = true →
    Legible (cut (sentence (bytes.take k))) bytes[k]

/-- The same for the calendar value, which no sentence makes public without
carrying it. -/
def UtcFromOneSentence (a : Abi) (bytes : List UInt8) : Prop :=
  FromLast (PublishesUtc a) (fun before => stagedUtc (run a (sentence before)))
    (some init.committed.utc) bytes (some (run a bytes).committed.utc)

theorem publishes_run (bytes : List UInt8) (d : Datum) (hcommits : Commits a bytes c) :
    publishes (run a bytes).sentenceType (run a bytes).sentenceHasFix (run a bytes).talker d =
      outlinePublishes (saying a bytes) d := by
  have hwithin := within_run (a := a) bytes
  have hchecksum := hwithin.stands.checksum.symm.trans (encode_commits hcommits).2.1
  have htalker : (run a bytes).talker = (saying a bytes).talker := by
    apply hwithin.said.talker
    rw [outline_number]
    exact (List.length_pos_iff.mpr (hwithin.opened hchecksum)).ne'
  rw [hwithin.said.kind, hwithin.said.fix, htalker]
  rfl

theorem run_committed (bytes : List UInt8) (c : UInt8) : (run a (bytes ++ [c])).committed =
    if Commits a bytes c then (commitSentence (run a bytes)).committed
    else (run a bytes).committed := by
  rw [run_snoc]
  exact encode_committed a (run a bytes) c

/-- A step makes a value public from the sentence it ends, or leaves it. -/
theorem reading_step (bytes : List UInt8) (c : UInt8) (d : Datum)
    (hlegible : outlinePublishes (saying a bytes) d = true → Legible (cut (sentence bytes)) c) :
    reading (run a (bytes ++ [c])).committed d = if Publishes a d bytes c
      then stagedReading (run a bytes).staged d.field else reading (run a bytes).committed d := by
  have hrun := run_committed (a := a) bytes c
  by_cases hpublishes : outlinePublishes (saying a bytes) d = true
  · have hverdict := commits_iff (a := a) (hlegible hpublishes)
    by_cases hcommits : Commits a bytes c
    · rw [if_pos ⟨hverdict.mp hcommits, hpublishes⟩, hrun, if_pos hcommits,
        commitSentence_reading, publishes_run bytes d hcommits, if_pos hpublishes]
    · rw [if_neg fun h => hcommits (hverdict.mpr h.1), hrun, if_neg hcommits]
  · rw [if_neg fun h => hpublishes h.2, hrun]
    by_cases hcommits : Commits a bytes c
    · rw [if_pos hcommits, commitSentence_reading, publishes_run bytes d hcommits,
        if_neg hpublishes]
    · rw [if_neg hcommits]

theorem committed_from_one (bytes : List UInt8) (d : Datum) (h : Complete a bytes d) :
    FromOneSentence a bytes d := by
  apply fromLast_run (fun bytes => reading (run a bytes).committed d) rfl
  · intro k hk
    obtain ⟨hlegible, hcarried⟩ := h k hk.2
    rw [reading_step _ _ d fun _ => hlegible, if_pos hk]
    exact (alike_run (bytes.take k)).fields d.field (hcarried hk.1)
  · intro k hk
    rw [reading_step _ _ d fun hpublishes => (h k hpublishes).1, if_neg hk]

/-- A sentence stages the same calendar value whatever was read before it. -/
theorem stagedUtc_run (bytes : List UInt8) :
    stagedUtc (run a bytes) = stagedUtc (run a (sentence bytes)) := by
  have hwithin := within_run (a := a) bytes
  have halone := within_run (a := a) (sentence bytes)
  rw [sentence_sentence] at halone
  have halike := alike_run (a := a) bytes
  unfold stagedUtc
  rw [hwithin.said.kind, hwithin.said.fix, ← halone.said.kind, ← halone.said.fix,
    halike.flags.status, halike.flags.timeOk, halike.flags.dateOk]
  by_cases htime : (run a (sentence bytes)).staged.newTimeOk = true
  swap
  · simp [htime]
  by_cases hdate : (run a (sentence bytes)).staged.newDateOk = true
  swap
  · simp [hdate]
  have hdates := halike.fields _ (halone.said.dateOk hdate)
  have htimes := halike.fields _ (halone.said.timeOk htime)
  rw [Reading.unsigned.inj hdates, Reading.unsigned.inj htimes]

theorem utc_step (bytes : List UInt8) (c : UInt8)
    (hlegible : (stagedUtc (run a (sentence bytes))).isSome = true →
      Legible (cut (sentence bytes)) c) :
    utcPublic (run a (bytes ++ [c])).committed =
      if Passes (cut (sentence bytes)) c then
        match stagedUtc (run a (sentence bytes)) with
        | some utc => (true, (run a bytes).committed.utcCommitSeq+1, utc)
        | none => utcPublic (run a bytes).committed
      else utcPublic (run a bytes).committed := by
  have hrun := run_committed (a := a) bytes c
  have hpublic := commitSentence_public (run a bytes)
  rw [stagedUtc_run] at hpublic
  cases hutc : stagedUtc (run a (sentence bytes)) with
  | none =>
    rw [hutc] at hpublic
    by_cases hcommits : Commits a bytes c
    · rw [hrun, if_pos hcommits, hpublic, ite_self]
    · rw [hrun, if_neg hcommits, ite_self]
  | some utc =>
    have hverdict := commits_iff (a := a) (hlegible (by rw [hutc]; rfl))
    rw [hutc] at hpublic
    by_cases hcommits : Commits a bytes c
    · rw [hrun, if_pos hcommits, hpublic, if_pos (hverdict.mp hcommits)]
    · rw [hrun, if_neg hcommits, if_neg fun h => hcommits (hverdict.mpr h)]

theorem utc_from_one (bytes : List UInt8) (h : UtcComplete a bytes) :
    UtcFromOneSentence a bytes := by
  apply fromLast_run (fun bytes => some (run a bytes).committed.utc) rfl
  · intro k hk
    have hstep := utc_step _ _ (h k)
    rw [if_pos hk.1] at hstep
    obtain ⟨utc, hutc⟩ := Option.isSome_iff_exists.mp hk.2
    rw [hutc] at hstep ⊢
    exact congrArg (fun v => some v.2.2) hstep
  · intro k hk
    have hstep := utc_step _ _ (h k)
    have hsame : utcPublic (run a (bytes.take k ++ [bytes[k]])).committed =
        utcPublic (run a (bytes.take k)).committed := by
      rw [hstep]
      by_cases hpasses : Passes (cut (sentence (bytes.take k))) bytes[k]
      · cases hutc : stagedUtc (run a (sentence (bytes.take k))) with
        | none => rw [if_pos hpasses]
        | some utc => exact absurd ⟨hpasses, by rw [hutc]; rfl⟩ hk
      · rw [if_neg hpasses]
    exact congrArg (fun v => some v.2.2) hsame

end JaszczurHal.GpsIsolation
