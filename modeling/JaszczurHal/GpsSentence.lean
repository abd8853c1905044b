import Mathlib.Data.List.DropRight
import JaszczurHal.GpsNmea

/-!
# Sentences and their checksums

A sentence as its bytes are cut into terms, apart from any parser. A parser
follows the cut of the sentence it is in, so that what it commits is settled
by the terms: once for each checksum term, and only where the digits agree.
-/

set_option autoImplicit false

namespace JaszczurHal.GpsSentence
open ByteImage GpsNmea

def sentence (bytes : List UInt8) : List UInt8 := bytes.rtakeWhile (· ≠ dollar)

structure Term where
  text : List UInt8
  checksum : Bool
  deriving DecidableEq

structure Cut where
  ended : List Term
  current : Term
  covered : List UInt8
  deriving DecidableEq

def ends (c : UInt8) : Bool := c = comma || c = carriageReturn || c = lineFeed || c = asterisk

def Cut.add (s : Cut) (c : UInt8) : Cut where
  ended := if ends c then s.ended ++ [s.current] else s.ended
  current := if ends c then ⟨[], c = asterisk⟩ else { s.current with text := s.current.text ++ [c] }
  covered :=
    if c = comma ∨ (¬ ends c ∧ ¬ s.current.checksum) then s.covered ++ [c] else s.covered

def cut (bytes : List UInt8) : Cut := bytes.foldl Cut.add ⟨[], ⟨[], false⟩, []⟩

def xorAll (bytes : List UInt8) : UInt8 := bytes.foldl (· ^^^ ·) 0

theorem xorAll_snoc (bytes : List UInt8) (c : UInt8) :
    xorAll (bytes ++ [c]) = xorAll bytes ^^^ c := by
  rw [xorAll, List.foldl_append]
  rfl

theorem cut_snoc (bytes : List UInt8) (c : UInt8) : cut (bytes ++ [c]) = (cut bytes).add c := by
  rw [cut, List.foldl_append]
  rfl

theorem sentence_dollar (bytes : List UInt8) : sentence (bytes ++ [dollar]) = [] :=
  List.rtakeWhile_concat_neg _ _ _ (by decide)

theorem sentence_snoc {c : UInt8} (bytes : List UInt8) (h : c ≠ dollar) :
    sentence (bytes ++ [c]) = sentence bytes ++ [c] :=
  List.rtakeWhile_concat_pos _ _ _ (by simpa using h)

theorem ends_comma : ends comma = true := by decide

theorem ends_iff {c : UInt8} : ends c = true ↔
    c = comma ∨ c = carriageReturn ∨ c = lineFeed ∨ c = asterisk := by
  simp [ends, or_assoc]

structure Stands (p : Parser) (s : Cut) : Prop where
  number : p.termNumber = UInt8.ofNat s.ended.length
  checksum : p.isChecksumTerm = s.current.checksum
  offset : p.termOffset = min s.current.text.length 15
  received : p.received = s.current.text.take 15

structure Reads (p : Parser) (s : Cut) : Prop extends Stands p s where
  parity : p.parity = xorAll s.covered

variable {a : Abi} {p : Parser} {s : Cut} {c : UInt8}

theorem reads_init : Reads init (cut []) where
  number := rfl
  checksum := rfl
  parity := rfl
  offset := rfl
  received := rfl

theorem reads_begin (p : Parser) : Reads (begin p) (cut []) where
  number := rfl
  checksum := rfl
  parity := rfl
  offset := rfl
  received := rfl

theorem Stands.offset_lt (h : Stands p s) : p.termOffset < termSize := by
  rw [h.offset]
  exact lt_of_le_of_lt (Nat.min_le_right _ _) (by decide)

structure SameTokens (p q : Parser) : Prop where
  number : p.termNumber = q.termNumber
  checksum : p.isChecksumTerm = q.isChecksumTerm
  parity : p.parity = q.parity

theorem decodeTerm_tokens (p : Parser) : SameTokens (decodeTerm a p) p := by
  obtain ⟨staged, fix, h⟩ := decodeTerm_frame a p
  rw [h]
  exact ⟨rfl, rfl, rfl⟩

theorem endOfTerm_tokens (p : Parser) : SameTokens (endOfTerm a p).1 p := by
  unfold endOfTerm
  by_cases hchecksum : p.isChecksumTerm = true
  · rw [if_pos hchecksum]
    split <;> exact ⟨rfl, rfl, rfl⟩
  rw [if_neg hchecksum]
  by_cases hfirst : p.termNumber = 0
  · rw [if_pos hfirst]
    exact ⟨rfl, rfl, rfl⟩
  rw [if_neg hfirst]
  split
  · exact decodeTerm_tokens p
  · exact ⟨rfl, rfl, rfl⟩

theorem endOfTerm_commits (h : (endOfTerm a p).2 = true) :
    p.isChecksumTerm = true ∧ p.checksum = p.parity := by
  unfold endOfTerm at h
  by_cases hchecksum : p.isChecksumTerm = true
  · rw [if_pos hchecksum] at h
    by_cases hagree : p.checksum = p.parity
    · exact ⟨hchecksum, hagree⟩
    · rw [if_neg hagree] at h
      cases h
  · rw [if_neg hchecksum] at h
    split_ifs at h

def terminated (p : Parser) : Parser := { p with term := write p.term p.termOffset [0] }

theorem endWith_eq (h : p.termOffset < termSize) :
    endWith a c p = ({ (endOfTerm a (terminated p)).1 with
      termNumber := (endOfTerm a (terminated p)).1.termNumber+1
      termOffset := 0
      isChecksumTerm := c = asterisk }, (endOfTerm a (terminated p)).2) := by
  rw [endWith, if_pos h]
  rfl

theorem stands_endWith (h : Stands p s) (hc : ends c = true) :
    Stands (endWith a c p).1 (s.add c) := by
  rw [endWith_eq h.offset_lt]
  have ht := endOfTerm_tokens (a := a) (terminated p)
  have hended : (s.add c).ended = s.ended ++ [s.current] := if_pos hc
  have hcurrent : (s.add c).current = ⟨[], c = asterisk⟩ := if_pos hc
  constructor
  · show (endOfTerm a (terminated p)).1.termNumber+1 = _
    rw [ht.number, hended, List.length_append]
    show p.termNumber+1 = _
    rw [h.number]
    simp
  · rw [hcurrent]
  · rw [hcurrent]
    rfl
  · rw [hcurrent]
    rfl

theorem endWith_parity (h : p.termOffset < termSize) : (endWith a c p).1.parity = p.parity := by
  rw [endWith_eq h]
  exact (endOfTerm_tokens (terminated p)).parity

theorem stands_append (h : Stands p s) (hc : ends c = false) : Stands (append c p) (s.add c) := by
  have hended : (s.add c).ended = s.ended := if_neg (by simp [hc])
  have hcurrent : (s.add c).current = ⟨s.current.text ++ [c], s.current.checksum⟩ :=
    if_neg (by simp [hc])
  constructor
  · rw [hended]
    exact h.number
  · rw [hcurrent]
    exact h.checksum
  · rw [hcurrent]
    show (if p.termOffset < termSize-1 then p.termOffset+1 else p.termOffset) = _
    have hoffset := h.offset
    rw [List.length_append, List.length_singleton, termSize]
    by_cases hroom : p.termOffset < 16-1
    · rw [if_pos hroom]
      omega
    · rw [if_neg hroom]
      omega
  · rw [hcurrent]
    have hoffset := h.offset
    have hreceived : slice p.term 0 p.termOffset = s.current.text.take 15 := h.received
    show slice (if p.termOffset < termSize-1 then write p.term p.termOffset [c] else p.term) 0
      (if p.termOffset < termSize-1 then p.termOffset+1 else p.termOffset) = _
    by_cases hroom : p.termOffset < termSize-1
    · have hlength : s.current.text.length < 15 := by
        simp only [termSize] at hroom
        omega
      have hlast : slice (write p.term p.termOffset [c]) p.termOffset 1 = [c] :=
        slice_write_self p.term p.termOffset [c]
      rw [if_pos hroom, if_pos hroom, slice_append, slice_write_disjoint (by omega), hreceived,
        Nat.zero_add, hlast, List.take_of_length_le (Nat.le_of_lt hlength)]
      exact (List.take_of_length_le (by simp; omega)).symm
    · have hlength : 15 ≤ s.current.text.length := by
        simp only [termSize] at hroom
        omega
      rw [if_neg hroom, if_neg hroom, hreceived, List.take_append_of_le_length hlength]

theorem append_parity (h : Reads p s) (hc : ends c = false) :
    (append c p).parity = xorAll (s.add c).covered := by
  have hcomma : c ≠ comma := fun h => by
    rw [h, ends_comma] at hc
    cases hc
  show (if p.isChecksumTerm then p.parity else p.parity ^^^ c) =
    xorAll (if c = comma ∨ (¬ ends c ∧ ¬ s.current.checksum) then s.covered ++ [c]
      else s.covered)
  rw [h.checksum, h.parity]
  cases hchecksum : s.current.checksum with
  | true => simp [hcomma]
  | false => simp [hcomma, hc, xorAll_snoc]

theorem reads_encode (h : Reads p s) (hc : c ≠ dollar) : Reads (encode a p c).1 (s.add c) := by
  have hcounted : Reads { p with charsProcessed := p.charsProcessed+1 } s :=
    ⟨⟨h.number, h.checksum, h.offset, h.received⟩, h.parity⟩
  have hparity (parity : UInt8) : Stands { p with
      charsProcessed := p.charsProcessed+1, parity := parity } s :=
    ⟨h.number, h.checksum, h.offset, h.received⟩
  unfold encode
  dsimp only
  by_cases hcomma : c = comma
  · rw [if_pos hcomma]
    refine ⟨stands_endWith (hparity _) (by rw [hcomma, ends_comma]), ?_⟩
    rw [endWith_parity (hparity _).offset_lt]
    show p.parity ^^^ c = xorAll (if _ then _ else _)
    rw [if_pos (Or.inl hcomma), xorAll_snoc, h.parity]
  rw [if_neg hcomma]
  by_cases hend : c = carriageReturn ∨ c = lineFeed ∨ c = asterisk
  · have hends : ends c = true := ends_iff.mpr (Or.inr hend)
    rw [if_pos hend]
    refine ⟨stands_endWith hcounted.toStands hends, ?_⟩
    rw [endWith_parity hcounted.offset_lt]
    show p.parity = xorAll (if _ then _ else _)
    rw [if_neg (by simp [hcomma, hends]), h.parity]
  · have hends : ends c = false := by
      rw [Bool.eq_false_iff]
      intro hends
      rcases ends_iff.mp hends with h | h
      · exact hcomma h
      · exact hend h
    rw [if_neg hend, if_neg hc]
    exact ⟨stands_append hcounted.toStands hends, append_parity hcounted hends⟩

theorem encode_dollar (p : Parser) : encode a p dollar =
    (begin { p with charsProcessed := p.charsProcessed+1 }, false) := rfl

/-- At any time the parser stands where its sentence stands. -/
theorem reads_run (bytes : List UInt8) : Reads (run a bytes) (cut (sentence bytes)) := by
  induction bytes using List.reverseRecOn with
  | nil => exact reads_init
  | append_singleton bytes c ih =>
    rw [run_snoc]
    by_cases hc : c = dollar
    · subst hc
      rw [sentence_dollar, encode_dollar]
      exact reads_begin _
    · rw [sentence_snoc bytes hc, cut_snoc]
      exact reads_encode ih hc

theorem endWith_commits (h : (endWith a c p).2 = true) :
    p.isChecksumTerm = true ∧ (terminated p).checksum = p.parity := by
  by_cases hoffset : p.termOffset < termSize
  · rw [endWith_eq hoffset] at h
    exact endOfTerm_commits (p := terminated p) h
  · rw [endWith, if_neg hoffset] at h
    cases h

/-- A byte that commits ends a checksum term that agrees with the parity. -/
theorem encode_commits (h : (encode a p c).2 = true) :
    ends c = true ∧ p.isChecksumTerm = true ∧
      (c ≠ comma → (terminated p).checksum = p.parity) := by
  unfold encode at h
  dsimp only at h
  by_cases hcomma : c = comma
  · rw [if_pos hcomma] at h
    exact ⟨by rw [hcomma, ends_comma], (endWith_commits h).1, fun hne => absurd hcomma hne⟩
  rw [if_neg hcomma] at h
  by_cases hend : c = carriageReturn ∨ c = lineFeed ∨ c = asterisk
  · rw [if_pos hend] at h
    have hcommits := endWith_commits h
    exact ⟨ends_iff.mpr (Or.inr hend), hcommits.1, fun _ => hcommits.2⟩
  · rw [if_neg hend] at h
    split_ifs at h

/-- The checksum term as the parser compares it, if two characters came. -/
theorem terminated_checksum (h : Reads p s) {d0 d1 : UInt8} {rest : List UInt8}
    (htext : s.current.text = d0 :: d1 :: rest) :
    (terminated p).checksum = 16*hexValue d0+hexValue d1 := by
  have hreceived : slice p.term 0 p.termOffset = s.current.text.take 15 := h.received
  have hoffset : 2 ≤ p.termOffset := by
    rw [h.offset, htext]
    simp
  have hfirst : slice p.term 0 2 = [d0, d1] := by
    have hsplit := slice_append p.term 0 2 (p.termOffset-2)
    rw [Nat.add_sub_cancel' hoffset, hreceived, htext] at hsplit
    exact (List.append_inj hsplit.symm (by simp)).1
  have h0 : p.term 0 = d0 := (List.cons.inj hfirst).1
  have h1 : p.term 1 = d1 := (List.cons.inj (List.cons.inj hfirst).2).1
  show 16*hexValue (write p.term p.termOffset [0] 0)+hexValue (write p.term p.termOffset [0] 1) = _
  rw [write_of_lt (by omega), write_of_lt (by omega), h0, h1]

def commitCount (a : Abi) : Parser → List UInt8 → ℕ
  | _, [] => 0
  | p, c :: cs => (if (encode a p c).2 then 1 else 0)+commitCount a (encode a p c).1 cs

theorem encode_checksumTerm (hc : ends c = true) :
    (encode a p c).1.isChecksumTerm = decide (c = asterisk) := by
  unfold encode endWith
  dsimp only
  rcases ends_iff.mp hc with h | h
  · rw [if_pos h]
  · rw [if_neg, if_pos h]
    rcases h with rfl | rfl | rfl <;> decide

theorem encode_keeps_checksumTerm (hc : ends c = false) (hdollar : c ≠ dollar) :
    (encode a p c).1.isChecksumTerm = p.isChecksumTerm := by
  have hcomma : c ≠ comma := fun h => by
    rw [h, ends_comma] at hc
    cases hc
  have hend : ¬ (c = carriageReturn ∨ c = lineFeed ∨ c = asterisk) := fun h => by
    rw [ends_iff.mpr (Or.inr h)] at hc
    cases hc
  unfold encode
  dsimp only
  rw [if_neg hcomma, if_neg hend, if_neg hdollar]
  rfl

/-- Each star opens one checksum term, and each such term commits at most
once. -/
theorem commitCount_le (bytes : List UInt8) (h : dollar ∉ bytes) :
    commitCount a p bytes ≤ bytes.count asterisk+if p.isChecksumTerm then 1 else 0 := by
  induction bytes generalizing p with
  | nil => exact Nat.zero_le _
  | cons c cs ih =>
    obtain ⟨hdollar, hcs⟩ := not_or.mp (List.mem_cons.not.mp h)
    have hrest := ih (p := (encode a p c).1) hcs
    rw [commitCount, List.count_cons]
    cases hc : ends c with
    | true =>
      rw [encode_checksumTerm hc] at hrest
      have hfirst : (if (encode a p c).2 then 1 else 0) ≤ if p.isChecksumTerm then 1 else 0 := by
        by_cases hcommits : (encode a p c).2 = true
        · rw [if_pos hcommits, if_pos (encode_commits hcommits).2.1]
        · rw [if_neg hcommits]
          exact Nat.zero_le _
      simp only [beq_iff_eq, decide_eq_true_eq] at hrest ⊢
      omega
    | false =>
      rw [encode_keeps_checksumTerm hc (Ne.symm hdollar)] at hrest
      have hsilent : ¬ (encode a p c).2 = true := fun h => by
        rw [(encode_commits h).1] at hc
        cases hc
      rw [if_neg hsilent]
      omega

/-- No character that the parser takes for the end of a line or of the body. -/
def Plain (body : List UInt8) : Prop :=
  ∀ x ∈ body, x ≠ carriageReturn ∧ x ≠ lineFeed ∧ x ≠ asterisk

theorem cut_plain (body : List UInt8) (h : Plain body) :
    (cut body).covered = body ∧ (cut body).current.checksum = false := by
  induction body using List.reverseRecOn with
  | nil => exact ⟨rfl, rfl⟩
  | append_singleton body c ih =>
    obtain ⟨hcovered, hchecksum⟩ := ih fun x hx => h x (List.mem_append_left _ hx)
    obtain ⟨hreturn, hfeed, hstar⟩ := h c (List.mem_append_right _ List.mem_cons_self)
    rw [cut_snoc, Cut.add, hcovered, hchecksum]
    cases hc : ends c with
    | true =>
      have hcomma : c = comma := by
        rcases ends_iff.mp hc with h | h | h | h
        · exact h
        · exact absurd h hreturn
        · exact absurd h hfeed
        · exact absurd h hstar
      simp [hcomma, comma, asterisk]
    | false => exact ⟨by simp, hchecksum⟩

/-- After the star of a plain body only the checksum term grows. -/
theorem cut_checksum {body : List UInt8} (h : Plain body) (text : List UInt8)
    (htext : ∀ x ∈ text, ends x = false) :
    (cut (body ++ asterisk :: text)).covered = body ∧
      (cut (body ++ asterisk :: text)).current = ⟨text, true⟩ := by
  induction text using List.reverseRecOn with
  | nil =>
    obtain ⟨hcovered, _⟩ := cut_plain body h
    rw [cut_snoc, Cut.add, hcovered]
    simp [ends, asterisk, comma]
  | append_singleton text c ih =>
    obtain ⟨hcovered, hcurrent⟩ := ih fun x hx => htext x (List.mem_append_left _ hx)
    have hc : ends c = false := htext c (List.mem_append_right _ List.mem_cons_self)
    have hcomma : c ≠ comma := fun h => by
      rw [h, ends_comma] at hc
      cases hc
    rw [← List.cons_append, ← List.append_assoc, cut_snoc, Cut.add, hcovered, hcurrent]
    simp [hc, hcomma]

/-- Between two dollar signs each star stands for at most one commit, and a
commit ends a checksum term. Unless a comma ends it, its two first characters
stand for the bytes that the checksum covers: of a plain body all of them. -/
theorem commits_checked (a : Abi) :
    (∀ before bytes, dollar ∉ bytes →
      commitCount a (run a (before ++ [dollar])) bytes ≤ bytes.count asterisk) ∧
    ∀ bytes c, Commits a bytes c →
      ends c = true ∧ (cut (sentence bytes)).current.checksum = true ∧
      (c ≠ comma → ∀ d0 d1 rest, (cut (sentence bytes)).current.text = d0 :: d1 :: rest →
        16*hexValue d0+hexValue d1 = xorAll (cut (sentence bytes)).covered) ∧
      (c ≠ comma → ∀ body d0 d1 rest, sentence bytes = body ++ asterisk :: d0 :: d1 :: rest →
        Plain body → (∀ x ∈ d0 :: d1 :: rest, ends x = false) →
        16*hexValue d0+hexValue d1 = xorAll body) := by
  constructor
  · intro before bytes hbytes
    have hcount := commitCount_le (a := a) (p := run a (before ++ [dollar])) bytes hbytes
    rw [run_snoc, encode_dollar] at hcount ⊢
    exact hcount
  · intro bytes c hcommits
    obtain ⟨hends, hchecksum, hagree⟩ := encode_commits hcommits
    have hreads := reads_run (a := a) bytes
    have hdigits : c ≠ comma → ∀ d0 d1 rest,
        (cut (sentence bytes)).current.text = d0 :: d1 :: rest →
        16*hexValue d0+hexValue d1 = xorAll (cut (sentence bytes)).covered := by
      intro hc d0 d1 rest htext
      rw [← terminated_checksum hreads htext, hagree hc, hreads.parity]
    refine ⟨hends, hreads.checksum.symm.trans hchecksum, hdigits, ?_⟩
    intro hc body d0 d1 rest hsentence hplain htext
    obtain ⟨hcovered, hcurrent⟩ := cut_checksum hplain (d0 :: d1 :: rest) htext
    rw [← hsentence] at hcovered hcurrent
    have heq := hdigits hc d0 d1 rest (by rw [hcurrent])
    rwa [hcovered] at heq

theorem sample_commits_checked :
    16*hexValue 0x34+hexValue 0x31 = xorAll (letters "A") :=
  ((commits_checked arm).2 (letters "$A*41") carriageReturn (by decide +kernel)).2.2.2
    (by decide) (letters "A") 0x34 0x31 [] (by decide +kernel) (by unfold Plain; decide +kernel)
    (by decide +kernel)

/-- A second star commits the sentence again, a `T` passes for a digit, and a
carriage return in the body is left out of the parity. -/
theorem commits_beyond_one_checksum :
    commitCount arm (run arm [dollar]) (letters "A*41\r*41\r") = 2 ∧
    Commits arm (letters "$A*T1") carriageReturn ∧
    Commits arm (letters "$A\rB*03") carriageReturn ∧ xorAll (letters "A\rB") ≠ 3 := by
  decide +kernel

end JaszczurHal.GpsSentence
