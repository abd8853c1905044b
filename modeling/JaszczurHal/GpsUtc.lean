import JaszczurHal.GpsIsolation
import JaszczurHal.GpsUtcFields

/-!
# When the calendar value is published

The flags the parser keeps for an RMC sentence are settled by three of its
terms. They are counted modulo 256, and the name of a sentence is kept up to
its fifteenth character: a sentence with no more terms, named as a whole,
publishes the instant of its own time and date or nothing.
-/

set_option autoImplicit false

namespace JaszczurHal.GpsUtc
open ByteImage GpsNmea GpsSentence GpsOutline GpsIsolation GpsUtcFields

def kindOf : List Term → SentenceType
  | [] => .other
  | t :: _ => sentenceTypeFrom (Term.string t)

def flagged (terms : List Term) (n : ℕ) (good : List UInt8 → Bool) : Bool :=
  match terms[n]? with
  | some t => !t.checksum && good t.text
  | none => false

def isStatus (text : List UInt8) : Bool := text = [0x41]

theorem kindOf_snoc (terms : List Term) (t : Term) : kindOf (terms ++ [t]) =
    if terms = [] then sentenceTypeFrom (Term.string t) else kindOf terms := by
  cases terms with
  | nil =>
    rw [if_pos rfl]
    rfl
  | cons first rest =>
    rw [if_neg (List.cons_ne_nil first rest)]
    rfl

theorem flagged_snoc (terms : List Term) (t : Term) (n : ℕ) (good : List UInt8 → Bool) :
    flagged (terms ++ [t]) n good =
      if n = terms.length then !t.checksum && good t.text else flagged terms n good := by
  unfold flagged
  rcases lt_trichotomy n terms.length with h | h | h
  · rw [if_neg h.ne, List.getElem?_append_left h]
  · rw [if_pos h, h, List.getElem?_concat_length]
  · rw [if_neg h.ne', List.getElem?_eq_none (by simp; omega), List.getElem?_eq_none h.le]

theorem flagged_length (terms : List Term) (good : List UInt8 → Bool) :
    flagged terms terms.length good = false := by
  rw [flagged, List.getElem?_eq_none (le_refl _)]

theorem flagged_iff {terms : List Term} {n : ℕ} {good : List UInt8 → Bool} :
    flagged terms n good = true ↔ ∃ text, terms[n]? = some ⟨text, false⟩ ∧ good text = true := by
  unfold flagged
  cases terms[n]? with
  | none => simp
  | some t =>
    cases t with
    | mk text checksum => cases checksum <;> simp

structure Spelled (a : Abi) (p : Parser) (terms : List Term) : Prop where
  kind : p.sentenceType = kindOf terms
  status : p.staged.newStatusOk = (decide (kindOf terms = .rmc) && flagged terms 2 isStatus)
  timeOk : p.staged.newTimeOk =
    (decide (kindOf terms = .rmc) && flagged terms 1 rmcTimeIsWellFormed)
  dateOk : p.staged.newDateOk =
    (decide (kindOf terms = .rmc) && flagged terms 9 rmcDateIsWellFormed)
  fix : p.staged.newStatusOk = true → p.sentenceHasFix = true
  time : p.staged.newTimeOk = true →
    ∀ t ∈ terms[1]?, p.staged.newTime = unsignedX100 a (Term.string t)
  date : p.staged.newDateOk = true →
    ∀ t ∈ terms[9]?, p.staged.newDate = UInt32.ofInt (atol a (Term.string t))

variable {a : Abi} {p : Parser} {s : Cut} {bytes : List UInt8} {c : UInt8}

theorem isStatus_eq (text : List UInt8) : (decide ((text.take 15).length = 1) &&
    letterIs ((text.take 15).takeWhile (· ≠ 0)) 0x41) = isStatus text := by
  match text with
  | [] => rfl
  | [x] =>
    by_cases hx : x = 0
    · rw [hx]
      rfl
    · rw [List.take_of_length_le (by simp), List.takeWhile_cons_of_pos (by simpa using hx)]
      simp [isStatus, letterIs]
  | x :: y :: rest => simp [isStatus]

theorem time_cut (text : List UInt8) :
    rmcTimeIsWellFormed (text.take 15) = rmcTimeIsWellFormed text := by
  by_cases hlength : text.length ≤ 15
  · rw [List.take_of_length_le hlength]
  · have hlong (t : List UInt8) (h : 15 ≤ t.length) : rmcTimeIsWellFormed t = false := by
      apply Bool.eq_false_iff.mpr
      intro hform
      have hshort := (time_iff.mp hform).short
      omega
    rw [hlong _ (by simp; omega), hlong text (by omega)]

theorem date_cut (text : List UInt8) :
    rmcDateIsWellFormed (text.take 15) = rmcDateIsWellFormed text := by
  by_cases hlength : text.length ≤ 15
  · rw [List.take_of_length_le hlength]
  · have hlong (t : List UInt8) (h : 15 ≤ t.length) : rmcDateIsWellFormed t = false := by
      apply Bool.eq_false_iff.mpr
      intro hform
      have hsix := (date_iff.mp hform).length
      omega
    rw [hlong _ (by simp; omega), hlong text (by omega)]

/-- A field that the parser takes for empty is not good. -/
theorem empty_not_good {text : List UInt8} (h : (text.take 15).takeWhile (· ≠ 0) = []) :
    isStatus text = false ∧ rmcTimeIsWellFormed text = false ∧
      rmcDateIsWellFormed text = false := by
  match text with
  | [] => exact ⟨rfl, rfl, rfl⟩
  | x :: rest =>
    have hx : x = 0 := by
      by_contra hne
      rw [List.take_succ_cons, List.takeWhile_cons_of_pos (by simpa using hne)] at h
      cases h
    subst hx
    have hnever : ¬ AllDigits (0 :: rest) := fun hall => by
      have hzero := hall 0 List.mem_cons_self
      cases hzero
    refine ⟨by simp [isStatus], ?_, ?_⟩
    · apply Bool.eq_false_iff.mpr
      intro hform
      obtain ⟨digits, fraction, heq, hlength, hdigits, _⟩ := (time_iff.mp hform).form
      match digits, hlength with
      | d :: ds, _ =>
        have hd := hdigits d List.mem_cons_self
        rw [← (List.cons.inj heq).1] at hd
        cases hd
    · apply Bool.eq_false_iff.mpr
      exact fun hform => hnever (date_iff.mp hform).digits

theorem get_snoc {terms : List Term} {t t' : Term} {n : ℕ} (h : t' ∈ (terms ++ [t])[n]?)
    (hn : n ≠ terms.length) : t' ∈ terms[n]? := by
  rcases lt_or_gt_of_ne hn with hlt | hgt
  · rwa [List.getElem?_append_left hlt] at h
  · rw [List.getElem?_eq_none (by simp; omega)] at h
    cases h

theorem get_snoc_self {terms : List Term} {t t' : Term} (h : t' ∈ (terms ++ [t])[terms.length]?) :
    t' = t := by
  rw [List.getElem?_concat_length] at h
  cases h
  rfl

/-- A term that is a checksum or empty changes no flag. -/
theorem flagged_keep {terms : List Term} {t : Term} {good : List UInt8 → Bool} (n : ℕ)
    (h : (!t.checksum && good t.text) = false) :
    flagged (terms ++ [t]) n good = flagged terms n good := by
  rw [flagged_snoc]
  by_cases hn : n = terms.length
  · rw [if_pos hn, h, hn, flagged_length]
  · rw [if_neg hn]

theorem spelled_keep {q : Parser} {terms : List Term} {t : Term} (h : Spelled a p terms)
    (hne : terms ≠ []) (hkind : q.sentenceType = p.sentenceType)
    (hstaged : q.staged = p.staged) (hfix : q.sentenceHasFix = p.sentenceHasFix)
    (hterm : t.checksum = true ∨ Term.string t = []) : Spelled a q (terms ++ [t]) := by
  have hname : kindOf (terms ++ [t]) = kindOf terms := by rw [kindOf_snoc, if_neg hne]
  have hbad : (!t.checksum && isStatus t.text) = false ∧
      (!t.checksum && rmcTimeIsWellFormed t.text) = false ∧
      (!t.checksum && rmcDateIsWellFormed t.text) = false := by
    rcases hterm with hchecksum | hempty
    · rw [hchecksum]
      exact ⟨rfl, rfl, rfl⟩
    · obtain ⟨h1, h2, h3⟩ := empty_not_good hempty
      rw [h1, h2, h3, Bool.and_false]
      exact ⟨rfl, rfl, rfl⟩
  have hold {n : ℕ} {good : List UInt8 → Bool} (hgood : flagged terms n good = true) :
      n ≠ terms.length := by
    intro hn
    rw [hn, flagged_length] at hgood
    cases hgood
  constructor
  · rw [hkind, hname, h.kind]
  · rw [hstaged, hname, flagged_keep 2 hbad.1, h.status]
  · rw [hstaged, hname, flagged_keep 1 hbad.2.1, h.timeOk]
  · rw [hstaged, hname, flagged_keep 9 hbad.2.2, h.dateOk]
  · rw [hstaged, hfix]
    exact h.fix
  · rw [hstaged]
    intro hok t' ht'
    have hflag := (Bool.and_eq_true _ _).mp (h.timeOk.symm.trans hok)
    exact h.time hok t' (get_snoc ht' (hold hflag.2))
  · rw [hstaged]
    intro hok t' ht'
    have hflag := (Bool.and_eq_true _ _).mp (h.dateOk.symm.trans hok)
    exact h.date hok t' (get_snoc ht' (hold hflag.2))

/-- The first term names the sentence; nothing is staged yet. -/
theorem spelled_name {q : Parser} {t : Term} (h : Spelled a p [])
    (hkind : q.sentenceType = sentenceTypeFrom (Term.string t)) (hstaged : q.staged = p.staged) :
    Spelled a q [t] := by
  have hstatus : p.staged.newStatusOk = false := h.status
  have htime : p.staged.newTimeOk = false := h.timeOk
  have hdate : p.staged.newDateOk = false := h.dateOk
  have hnone (n : ℕ) (good : List UInt8 → Bool) : flagged [t] (n+1) good = false := rfl
  constructor
  · exact hkind
  · rw [hstaged, hstatus, hnone, Bool.and_false]
  · rw [hstaged, htime, hnone, Bool.and_false]
  · rw [hstaged, hdate, hnone, Bool.and_false]
  · rw [hstaged, hstatus]
    exact nofun
  · rw [hstaged, htime]
    exact nofun
  · rw [hstaged, hdate]
    exact nofun

theorem spelled_other {q : Parser} {terms : List Term} {t : Term} (h : Spelled a p terms)
    (hne : terms ≠ []) (hkind : q.sentenceType = p.sentenceType) (hrmc : p.sentenceType ≠ .rmc)
    (hflags : SameFlags q.staged p.staged) :
    Spelled a q (terms ++ [t]) := by
  have hname : kindOf (terms ++ [t]) = kindOf terms := by rw [kindOf_snoc, if_neg hne]
  have hno : decide (kindOf terms = .rmc) = false := decide_eq_false (h.kind ▸ hrmc)
  have hstatus := hflags.status.trans h.status
  have htime := hflags.timeOk.trans h.timeOk
  have hdate := hflags.dateOk.trans h.dateOk
  rw [hno, Bool.false_and] at hstatus htime hdate
  constructor
  · rw [hkind, hname, h.kind]
  · rw [hstatus, hname, hno, Bool.false_and]
  · rw [htime, hname, hno, Bool.false_and]
  · rw [hdate, hname, hno, Bool.false_and]
  · rw [hstatus]
    exact nofun
  · rw [htime]
    exact nofun
  · rw [hdate]
    exact nofun

/-- A term of an RMC sentence is staged as the field it is. -/
theorem spelled_rmc {q : Parser} {terms : List Term} {t : Term} (h : Spelled a p terms)
    (hne : terms ≠ []) (hkind : q.sentenceType = p.sentenceType) (hrmc : p.sentenceType = .rmc)
    (hchecksum : t.checksum = false)
    (hread : RmcTerm a terms.length (Term.string t) (t.text.take 15) p q) :
    Spelled a q (terms ++ [t]) := by
  have hname : kindOf (terms ++ [t]) = kindOf terms := by rw [kindOf_snoc, if_neg hne]
  have hyes : decide (kindOf terms = .rmc) = true := decide_eq_true (h.kind ▸ hrmc)
  have hstatus := h.status
  have htime := h.timeOk
  have hdate := h.dateOk
  rw [hyes, Bool.true_and] at hstatus htime hdate
  have hlast (good : List UInt8 → Bool) : (!t.checksum && good t.text) = good t.text := by
    rw [hchecksum]
    rfl
  constructor
  · rw [hkind, hname, h.kind]
  · rw [hread.status, hname, hyes, Bool.true_and, flagged_snoc, hlast, Term.string, isStatus_eq,
      hstatus]
    simp only [eq_comm]
  · rw [hread.timeOk, hname, hyes, Bool.true_and, flagged_snoc, hlast, time_cut, htime]
    simp only [eq_comm]
  · rw [hread.dateOk, hname, hyes, Bool.true_and, flagged_snoc, hlast, date_cut, hdate]
    simp only [eq_comm]
  · intro hok
    rw [hread.status] at hok
    rw [hread.fix]
    by_cases hn : terms.length = 2
    · rw [if_pos hn] at hok ⊢
      exact ((Bool.and_eq_true _ _).mp hok).2
    · rw [if_neg hn] at hok ⊢
      exact h.fix hok
  · intro hok t' ht'
    rw [hread.timeOk] at hok
    rw [hread.time]
    by_cases hn : terms.length = 1
    · rw [← hn] at ht'
      rw [if_pos hn, get_snoc_self ht']
    · rw [if_neg hn] at hok ⊢
      exact h.time hok t' (get_snoc ht' (Ne.symm hn))
  · intro hok t' ht'
    rw [hread.dateOk] at hok
    rw [hread.date]
    by_cases hn : terms.length = 9
    · rw [← hn] at ht'
      rw [if_pos hn, get_snoc_self ht']
    · rw [if_neg hn] at hok ⊢
      exact h.date hok t' (get_snoc ht' (Ne.symm hn))

theorem spelled_endOfTerm (h : Stands p s) (hs : Spelled a p s.ended)
    (hopened : s.current.checksum = true → s.ended ≠ []) (hcount : s.ended.length < 256) :
    Spelled a (endOfTerm a (terminated p)).1 (s.ended ++ [s.current]) := by
  have hchecksum : (terminated p).isChecksumTerm = s.current.checksum := h.checksum
  have htext := terminated_text h
  have hsame : s.ended.length%256 = s.ended.length := Nat.mod_eq_of_lt hcount
  have hnumber : (terminated p).termNumber.toNat = s.ended.length :=
    (number_toNat (p := p) h).trans hsame
  have hzero : (terminated p).termNumber = 0 ↔ s.ended = [] := by
    rw [show (terminated p).termNumber = 0 ↔ s.ended.length%256 = 0 from
      number_eq_zero (p := p) h, hsame, List.length_eq_zero_iff]
  unfold endOfTerm
  by_cases hc : s.current.checksum = true
  · rw [if_pos (hchecksum.trans hc)]
    split <;> exact spelled_keep hs (hopened hc) rfl rfl rfl (Or.inl hc)
  rw [if_neg (by rwa [hchecksum])]
  by_cases hfirst : s.ended = []
  · rw [if_pos (hzero.mpr hfirst), hfirst]
    rw [hfirst] at hs
    exact spelled_name hs (congrArg sentenceTypeFrom htext) rfl
  rw [if_neg (hzero.not.mpr hfirst)]
  by_cases hempty : Term.string s.current = []
  · rw [if_neg fun hd => hd.2 ((terminated_term_zero h).mpr hempty)]
    exact spelled_keep hs hfirst rfl rfl rfl (Or.inr hempty)
  by_cases hother : (terminated p).sentenceType = .other
  · rw [if_neg fun hd => hd.1 hother]
    have hrmc : p.sentenceType ≠ .rmc := by
      rw [show p.sentenceType = .other from hother]
      exact nofun
    exact spelled_other (q := terminated p) hs hfirst rfl hrmc ⟨rfl, rfl, rfl⟩
  rw [if_pos ⟨hother, (terminated_term_zero h).not.mpr hempty⟩]
  have hkind : (decodeTerm a (terminated p)).sentenceType = p.sentenceType := by
    obtain ⟨staged, fix, hframe⟩ := decodeTerm_frame a (terminated p)
    rw [hframe]
    rfl
  by_cases hrmc : p.sentenceType = .rmc
  · apply spelled_rmc hs hfirst hkind hrmc (Bool.eq_false_iff.mpr hc)
    have hread := decodeRmc_term (a := a) (terminated p).termNumber.toNat (terminated p).text
      (terminated p).received (terminated p)
    have hreceived := terminated_received h
    rw [hnumber, htext, hreceived] at hread
    have hdecode : decodeTerm a (terminated p) = decodeRmc a s.ended.length
        (Term.string s.current) (s.current.text.take 15) (terminated p) := by
      unfold decodeTerm
      rw [show (terminated p).sentenceType = .rmc from hrmc, hnumber, htext, hreceived]
    rw [hdecode]
    exact ⟨hread.status, hread.timeOk, hread.dateOk, hread.fix, hread.time, hread.date⟩
  · exact spelled_other hs hfirst hkind hrmc (decodeTerm_other _ hrmc)

structure Follows (a : Abi) (p : Parser) (s : Cut) : Prop where
  within : Within a p s
  spelled : s.ended.length ≤ 256 → Spelled a p s.ended

theorem follows_begin (p : Parser) : Follows a (begin p) (cut []) :=
  ⟨within_begin p, fun _ => ⟨rfl, rfl, rfl, rfl, nofun, nofun, nofun⟩⟩

theorem follows_encode (h : Follows a p s) (hc : c ≠ dollar) :
    Follows a (encode a p c).1 (s.add c) := by
  refine ⟨within_encode h.within hc, fun hcount => ?_⟩
  rcases encode_cases a p hc with ⟨hends, heq⟩ | ⟨hends, heq⟩
  · have hended : (s.add c).ended = s.ended ++ [s.current] := if_pos hends
    rw [hended, List.length_append, List.length_singleton] at hcount
    have hold := h.spelled (by omega)
    have hwithin := within_counted h.within (p.charsProcessed+1)
      (if c = comma then p.parity ^^^ c else p.parity)
    rw [heq, hended, endWith_eq hwithin.stands.offset_lt]
    have hterm := spelled_endOfTerm (a := a) hwithin.stands
      ⟨hold.kind, hold.status, hold.timeOk, hold.dateOk, hold.fix, hold.time, hold.date⟩
      hwithin.opened (by omega)
    exact ⟨hterm.kind, hterm.status, hterm.timeOk, hterm.dateOk, hterm.fix, hterm.time,
      hterm.date⟩
  · have hended : (s.add c).ended = s.ended := if_neg (by simp [hends])
    rw [hended] at hcount
    have hold := h.spelled hcount
    rw [heq, hended]
    exact ⟨hold.kind, hold.status, hold.timeOk, hold.dateOk, hold.fix, hold.time, hold.date⟩

theorem follows_run (bytes : List UInt8) : Follows a (run a bytes) (cut (sentence bytes)) := by
  induction bytes using List.reverseRecOn with
  | nil => exact ⟨within_run [], fun _ => ⟨rfl, rfl, rfl, rfl, nofun, nofun, nofun⟩⟩
  | append_singleton bytes c ih =>
    rw [run_snoc]
    by_cases hc : c = dollar
    · subst hc
      rw [sentence_dollar, encode_dollar]
      exact follows_begin _
    · rw [sentence_snoc bytes hc, cut_snoc]
      exact follows_encode ih hc

/-- The sentence of RMC whose status is `A`, with a well-formed time and a
well-formed date that stand for a valid instant. -/
structure Carries (terms : List Term) (date time : List UInt8) : Prop where
  named : ∃ t ∈ terms.head?, sentenceTypeFrom t.text = .rmc
  status : terms[2]? = some ⟨[0x41], false⟩
  timeField : terms[1]? = some ⟨time, false⟩
  timeForm : WellFormedTime time
  dateField : terms[9]? = some ⟨date, false⟩
  dateForm : WellFormedDate date
  valid : validateDatetime (instant date time) utcMinYear utcMaxYear = true

/-- The byte leaves the calendar value as it is, or it ends a sentence that
passes and the value becomes the instant of that sentence. -/
def UtcFromItsSentence (a : Abi) (bytes : List UInt8) (c : UInt8) : Prop :=
  utcPublic (run a (bytes ++ [c])).committed = utcPublic (run a bytes).committed ∨
  Passes (cut (sentence bytes)) c ∧ ∃ date time, Carries (cut (sentence bytes)).ended date time ∧
    utcPublic (run a (bytes ++ [c])).committed =
      (true, (run a bytes).committed.utcCommitSeq+1, instant date time)

/-- The terms can be told apart by their numbers, what is kept of the name does
not make an RMC sentence of another one, and an RMC sentence has the digits of
its checksum. -/
structure Told (s : Cut) (c : UInt8) : Prop where
  count : s.ended.length ≤ 256
  named : ∀ t ∈ s.ended.head?, sentenceTypeFrom (Term.string t) = .rmc →
    sentenceTypeFrom t.text = .rmc
  legible : kindOf s.ended = .rmc → Legible s c

/-- A field that is well formed is a string and fits the buffer. -/
theorem string_eq {text : List UInt8} (hshort : text.length ≤ 15) (hzero : 0 ∉ text) :
    Term.string ⟨text, false⟩ = text := by
  rw [Term.string, List.take_of_length_le hshort, List.takeWhile_eq_self_iff]
  intro x hx
  simp only [ne_eq, decide_not, Bool.not_eq_true', decide_eq_false_iff_not]
  exact fun heq => hzero (heq ▸ hx)

theorem digits_no_zero {text : List UInt8} (h : AllDigits text) : 0 ∉ text := by
  intro hmem
  have hzero := h 0 hmem
  cases hzero

theorem time_string {time : List UInt8} (h : WellFormedTime time) :
    Term.string ⟨time, false⟩ = time := by
  have hshort := h.short
  apply string_eq (by omega)
  obtain ⟨digits, fraction, rfl, _, hdigits, rfl | ⟨ds, rfl, _, _, hds⟩⟩ := h.form
  · rw [List.append_nil]
    exact digits_no_zero hdigits
  · intro hmem
    rcases List.mem_append.mp hmem with hmem | hmem
    · exact digits_no_zero hdigits hmem
    · rcases List.mem_cons.mp hmem with hpoint | hmem
      · cases hpoint
      · exact digits_no_zero hds hmem

theorem date_string {date : List UInt8} (h : WellFormedDate date) :
    Term.string ⟨date, false⟩ = date :=
  string_eq (by rw [h.length]; decide) (digits_no_zero h.digits)

/-- The staged numbers of two well-formed fields are their instant. -/
theorem spelled_instant (ha : 2^31-1 ≤ a.longMax) {terms : List Term} {date time : List UInt8}
    (h : Spelled a p terms) (htimeOk : p.staged.newTimeOk = true)
    (hdateOk : p.staged.newDateOk = true) (htime : terms[1]? = some ⟨time, false⟩)
    (hdate : terms[9]? = some ⟨date, false⟩) (htimeForm : WellFormedTime time)
    (hdateForm : WellFormedDate date) :
    utcOf p.staged.newDate p.staged.newTime = instant date time := by
  have ht := h.time htimeOk ⟨time, false⟩ htime
  have hd := h.date hdateOk ⟨date, false⟩ hdate
  rw [time_string htimeForm] at ht
  rw [date_string hdateForm] at hd
  obtain ⟨k, hk, hvalue⟩ := time_staged ha htimeForm
  exact utcOf_eq hdateForm htimeForm (by rw [hd, date_staged ha hdateForm]) hk (by rw [ht, hvalue])

/-- The calendar value changes only when a sentence of RMC passes its checksum
with status `A`, a well-formed time and a well-formed date of a valid instant,
and then it is that instant. -/
theorem utc_from_its_sentence (a : Abi) (ha : 2^31-1 ≤ a.longMax) (bytes : List UInt8) (c : UInt8)
    (h : Told (cut (sentence bytes)) c) : UtcFromItsSentence a bytes c := by
  have hspelled := (follows_run (a := a) bytes).spelled h.count
  have hrun := run_committed (a := a) bytes c
  by_cases hcommits : Commits a bytes c
  · rw [if_pos hcommits] at hrun
    have hpublic := commitSentence_public (run a bytes)
    rw [← hrun] at hpublic
    unfold stagedUtc at hpublic
    by_cases hdone : (run a bytes).sentenceType = .rmc ∧ (run a bytes).sentenceHasFix = true ∧
        (run a bytes).staged.newStatusOk = true ∧ (run a bytes).staged.newTimeOk = true ∧
        (run a bytes).staged.newDateOk = true ∧ validateDatetime
          (utcOf (run a bytes).staged.newDate (run a bytes).staged.newTime)
          utcMinYear utcMaxYear = true
    · rw [if_pos hdone] at hpublic
      obtain ⟨hkind, _, hstatusOk, htimeOk, hdateOk, hvalid⟩ := hdone
      have hrmc := hspelled.kind.symm.trans hkind
      have hpasses := (commits_iff (h.legible hrmc)).mp hcommits
      have hstatus := (Bool.and_eq_true _ _).mp (hspelled.status.symm.trans hstatusOk)
      have htime := (Bool.and_eq_true _ _).mp (hspelled.timeOk.symm.trans htimeOk)
      have hdate := (Bool.and_eq_true _ _).mp (hspelled.dateOk.symm.trans hdateOk)
      obtain ⟨status, hstatusField, hA⟩ := flagged_iff.mp hstatus.2
      obtain ⟨time, htimeField, htimeForm⟩ := flagged_iff.mp htime.2
      obtain ⟨date, hdateField, hdateForm⟩ := flagged_iff.mp hdate.2
      rw [time_iff] at htimeForm
      rw [date_iff] at hdateForm
      have hinstant := spelled_instant ha hspelled htimeOk hdateOk htimeField hdateField htimeForm
        hdateForm
      rw [hinstant] at hpublic hvalid
      have hnamed : ∃ t ∈ (cut (sentence bytes)).ended.head?, sentenceTypeFrom t.text = .rmc := by
        have hname := hrmc
        have hwhole := h.named
        cases hterms : (cut (sentence bytes)).ended with
        | nil =>
          rw [hterms] at hname
          cases hname
        | cons t rest =>
          rw [hterms] at hname hwhole
          exact ⟨t, rfl, hwhole t rfl hname⟩
      have hA' : status = [0x41] := of_decide_eq_true hA
      rw [hA'] at hstatusField
      exact Or.inr ⟨hpasses, date, time, ⟨hnamed, hstatusField, htimeField, htimeForm,
        hdateField, hdateForm, hvalid⟩, hpublic⟩
    · rw [if_neg hdone] at hpublic
      exact Or.inl hpublic
  · rw [if_neg hcommits] at hrun
    exact Or.inl (by rw [hrun])

def sample : List UInt8 := letters "$GPRMC,123519.25,A,,,,,,,230394*0D"

theorem sample_utc_from_its_sentence : UtcFromItsSentence arm sample carriageReturn :=
  utc_from_its_sentence arm (by decide) sample carriageReturn
    ⟨by decide +kernel, by decide +kernel, fun _ => by decide +kernel⟩

theorem sentence_body {body : List UInt8} (h : dollar ∉ body) :
    sentence (dollar :: body) = body := by
  induction body using List.reverseRecOn with
  | nil => rfl
  | append_singleton body c ih =>
    simp only [List.mem_append, List.mem_singleton, not_or] at h
    rw [← List.cons_append, sentence_snoc _ (Ne.symm h.2), ih h.1]

theorem cut_head {front : List UInt8} (h : (cut front).ended ≠ []) (rest : List UInt8) :
    (cut (front ++ rest)).ended.head? = (cut front).ended.head? := by
  have hprefix : (cut front).ended <+: (cut (front ++ rest)).ended := by
    induction rest using List.reverseRecOn with
    | nil => rw [List.append_nil]
    | append_singleton rest c ih =>
      rw [← List.append_assoc, cut_snoc]
      apply ih.trans
      unfold Cut.add
      dsimp only
      split
      · exact List.prefix_append _ _
      · exact List.prefix_refl _
  obtain ⟨more, heq⟩ := hprefix
  rw [← heq, List.head?_append_of_ne_nil _ h]

def longSentence : List UInt8 :=
  dollar :: (letters "GPGGA," ++
    (List.replicate 255 comma ++ letters "GPRMC,120000,A,,,,,,,010120*71"))

def longName : List UInt8 :=
  dollar :: (letters "AAAAAAAAAAAARMCX," ++ letters "120000,A,,,,,,,010120*68")

def noDigits : List UInt8 :=
  letters "$GPRMC,134019.00,A,4807.844,N,01131.050,E,022.4,84.4,231226*"

theorem utc_from_another_sentence : ¬ UtcFromItsSentence arm longSentence carriageReturn ∧
    ¬ UtcFromItsSentence arm longName carriageReturn ∧
    ¬ UtcFromItsSentence arm noDigits carriageReturn := by
  refine ⟨?_, ?_, ?_⟩
  · rintro (hsame | ⟨_, _, _, hcarries, _⟩)
    · exact absurd hsame (by decide +kernel)
    · have hnamed := hcarries.named
      rw [longSentence, sentence_body (by decide +kernel), cut_head (by decide +kernel)] at hnamed
      exact absurd hnamed (by decide +kernel)
  · rintro (hsame | ⟨_, _, _, hcarries, _⟩)
    · exact absurd hsame (by decide +kernel)
    · have hnamed := hcarries.named
      rw [longName, sentence_body (by decide +kernel), cut_head (by decide +kernel)] at hnamed
      exact absurd hnamed (by decide +kernel)
  · rintro (hsame | ⟨hpasses, _⟩)
    · exact absurd hsame (by decide +kernel)
    · exact absurd hpasses (by decide +kernel)

end JaszczurHal.GpsUtc
