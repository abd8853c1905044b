import Mathlib.Data.List.DropRight
import JaszczurHal.SerialSession

/-!
# Lines of the serial session

Where a line starts and ends, and what the bounded line buffer keeps of it.
A line that fits is dispatched as the frame it is as a whole; of any other
line the kept part decides.
-/

set_option autoImplicit false

namespace JaszczurHal.SerialLines
open SerialFrame SerialSession

variable {hmac : Hmac} {s : Session}

def terminator (c : UInt8) : Bool := c = carriageReturn || c = lineFeed

def dispatched (s : Session) (character : UInt8) : Option (UInt16 × List UInt8) :=
  if !terminator character || s.line.length < framePrefix.length ||
      (cString s.line).take framePrefix.length ≠ framePrefix then none
  else decode (cString s.line) (maxLine+1)

theorem dispatchInner_line (inner : List UInt8) (moment : Moment) :
    (dispatchInner hmac s inner moment).1.line = s.line := by
  unfold dispatchInner
  dsimp only
  split_ifs
  · rfl
  · rfl
  · unfold handleAuthBegin generateChallenge
    split_ifs
    · rfl
    · dsimp only
      split <;> rfl
  · split
    · unfold handleAuthProve
      split_ifs <;> rfl
    · unfold handleRebootBootloader
      split_ifs <;> rfl
  · split
    · unfold handleAuthProve
      split_ifs <;> rfl
    · split <;> rfl

def keepLine (s : Session) (character : UInt8) : List UInt8 :=
  if terminator character then []
  else if s.line.length < maxLine then s.line ++ [character]
  else s.line

/-- What `dispatched` tells is what the poll does: the handlers run on that
request and on no other. -/
theorem pollByte_dispatched (hmac : Hmac) (s : Session) (character : UInt8) (moment : Moment) :
    pollByte hmac s character moment =
      match dispatched s character with
      | some (sequence, inner) =>
        ({ (dispatchInner hmac { s with line := [], inRequest := true, requestSeq := sequence }
            inner moment).1 with inRequest := false },
          (dispatchInner hmac { s with line := [], inRequest := true, requestSeq := sequence }
            inner moment).2)
      | none => ({ s with line := keepLine s character }, []) := by
  unfold pollByte dispatched keepLine
  cases hterminator : terminator character with
  | false =>
    have hplain : (character ≠ carriageReturn && character ≠ lineFeed) = true := by
      simpa [terminator] using hterminator
    rw [if_pos hplain]
    simp only [Bool.not_false, Bool.true_or, if_true, Bool.false_eq_true, if_false]
    split_ifs <;> rfl
  | true =>
    have hends : ¬ (character ≠ carriageReturn && character ≠ lineFeed) = true := by
      simpa [terminator, or_iff_not_imp_left] using hterminator
    rw [if_neg hends]
    simp only [Bool.not_true, Bool.false_or, if_true]
    by_cases hempty : s.line.length = 0
    · rw [if_pos hempty, if_pos (by rw [hempty]; rfl)]
      rw [List.length_eq_zero_iff] at hempty
      rw [← hempty]
    rw [if_neg hempty]
    by_cases hshape : (decide (s.line.length < framePrefix.length) ||
        decide ((cString s.line).take framePrefix.length ≠ framePrefix)) = true
    · rw [if_pos hshape, if_pos hshape]
    · rw [if_neg hshape, if_neg hshape]
      cases decode (cString s.line) (maxLine+1) with
      | none => rfl
      | some request => rfl

theorem pollByte_line (character : UInt8) (moment : Moment) :
    (pollByte hmac s character moment).1.line = keepLine s character := by
  rw [pollByte_dispatched]
  cases hdispatched : dispatched s character with
  | none => rfl
  | some request =>
    have hterminator : terminator character = true := by
      by_contra hno
      rw [dispatched, if_pos (by simp [hno])] at hdispatched
      cases hdispatched
    rw [keepLine, if_pos hterminator]
    exact dispatchInner_line _ _

theorem run_append (s : Session) (first second : List Input) :
    run hmac s (first ++ second) =
      ((run hmac (run hmac s first).1 second).1,
        (run hmac s first).2 ++ (run hmac (run hmac s first).1 second).2) := by
  induction first generalizing s with
  | nil => rfl
  | cons input first ih =>
    rw [List.cons_append, run, run]
    dsimp only
    rw [ih, List.append_assoc]

def polls (hmac : Hmac) (s : Session) (calls : List (List Input)) : Session × List Event :=
  calls.foldl (fun r call => ((run hmac r.1 call).1, r.2 ++ (run hmac r.1 call).2)) (s, [])

theorem polls_flatten (s : Session) (calls : List (List Input)) :
    polls hmac s calls = run hmac s calls.flatten := by
  induction calls using List.reverseRecOn with
  | nil => rfl
  | append_singleton calls call ih =>
    rw [polls, List.foldl_append, ← polls, ih, List.flatten_append, run_append]
    simp

def byteOf : Input → Option UInt8
  | .byte character _ => some character
  | .setUnknownHandler _ => none

def pending (inputs : List Input) : List UInt8 :=
  (inputs.filterMap byteOf).rtakeWhile fun c => !terminator c

theorem pending_byte (inputs : List Input) (character : UInt8) (moment : Moment) :
    pending (inputs ++ [.byte character moment]) =
      if terminator character then [] else pending inputs ++ [character] := by
  have hbytes : (inputs ++ [Input.byte character moment]).filterMap byteOf =
      inputs.filterMap byteOf ++ [character] := by
    rw [List.filterMap_append]
    rfl
  rw [pending, hbytes]
  cases hterminator : terminator character with
  | true => rw [if_pos rfl, List.rtakeWhile_concat_neg _ _ _ (by simp [hterminator])]
  | false =>
    rw [if_neg Bool.false_ne_true, List.rtakeWhile_concat_pos _ _ _ (by simp [hterminator])]
    rfl

theorem line_run (hs : s.line = []) (inputs : List Input) :
    (run hmac s inputs).1.line = (pending inputs).take maxLine := by
  induction inputs using List.reverseRecOn with
  | nil => exact hs
  | append_singleton inputs input ih =>
    rw [run_append]
    show (step hmac (run hmac s inputs).1 input).1.line = _
    cases input with
    | byte character moment =>
      rw [pending_byte]
      show (pollByte hmac (run hmac s inputs).1 character moment).1.line = _
      rw [pollByte_line, keepLine, ih]
      cases hterminator : terminator character with
      | true => rfl
      | false =>
        rw [if_neg Bool.false_ne_true, if_neg Bool.false_ne_true, List.length_take]
        by_cases hroom : min maxLine (pending inputs).length < maxLine
        · have hlength : (pending inputs).length < maxLine := by omega
          rw [if_pos hroom, List.take_of_length_le hlength.le,
            List.take_of_length_le (by rw [List.length_append, List.length_singleton]; omega)]
        · rw [if_neg hroom, List.take_append_of_le_length (by omega)]
    | setUnknownHandler handler =>
      have hsame : pending (inputs ++ [.setUnknownHandler handler]) = pending inputs := by
        rw [pending, List.filterMap_append,
          show [Input.setUnknownHandler handler].filterMap byteOf = [] from rfl, List.append_nil]
        rfl
      rw [hsame]
      exact ih

def kept (line : List UInt8) : List UInt8 := cString (line.take maxLine)

def frameOf (line : List UInt8) : Option (UInt16 × List UInt8) :=
  if 0 ∈ line then none else decode line (line.length+1)

theorem splitStar_some {l payload tail : List UInt8} (h : splitStar l = some (payload, tail)) :
    l = payload ++ SerialFrame.star :: tail ∧ SerialFrame.star ∉ payload := by
  unfold splitStar at h
  have hsplit := List.takeWhile_append_dropWhile (l := l) (p := fun c => c ≠ SerialFrame.star)
  cases hrest : l.dropWhile (fun c => c ≠ SerialFrame.star) with
  | nil =>
    rw [hrest] at h
    cases h
  | cons c rest =>
    rw [hrest] at h hsplit
    obtain ⟨rfl, rfl⟩ := Prod.mk.inj (Option.some.inj h)
    have hc : c = SerialFrame.star := by
      have hhead := List.head?_dropWhile_not (fun c => decide (c ≠ SerialFrame.star)) l
      rw [hrest] at hhead
      simpa using hhead
    rw [hc] at hsplit
    refine ⟨hsplit.symm, fun hmem => ?_⟩
    simpa using List.mem_takeWhile_imp hmem

theorem parseCrc_some {tail : List UInt8} {crc : UInt8} (h : parseCrc tail = some crc) :
    ∃ c c', tail = [c, c'] := by
  unfold parseCrc at h
  split at h
  · exact ⟨_, _, rfl⟩
  · cases h

theorem star_not_digit {line : List UInt8} : SerialFrame.star ∉ line.takeWhile isDigit := by
  intro hmem
  have hdigit := List.mem_takeWhile_imp hmem
  revert hdigit
  decide

/-- A line that decodes ends with its first star and two digits. -/
theorem decode_some {line payload : List UInt8} {n : ℕ} {sequence : UInt16}
    (h : decode line n = some (sequence, payload)) :
    ∃ before c c', line = before ++ [SerialFrame.star, c, c'] ∧ SerialFrame.star ∉ before ∧
      payload.length < line.length := by
  unfold decode at h
  by_cases hmark : (n = 0 || line.take framePrefix.length ≠ framePrefix) = true
  · rw [if_pos hmark] at h
    cases h
  rw [if_neg hmark] at h
  simp only [Bool.or_eq_true, decide_eq_true_eq, not_or, not_not] at hmark
  dsimp only at h
  have hdigits := List.prefix_iff_eq_append.mp
    (List.takeWhile_prefix isDigit (l := line.drop framePrefix.length))
  have hline := List.take_append_drop framePrefix.length line
  rw [hmark.2, ← hdigits] at hline
  generalize hd : (line.drop framePrefix.length).takeWhile isDigit = digits at h hline
  have hstar : SerialFrame.star ∉ digits := hd ▸ star_not_digit
  cases hrest : (line.drop framePrefix.length).drop digits.length with
  | nil =>
    rw [hrest] at h
    cases h
  | cons separator payloadBegin =>
    rw [hrest] at h hline
    dsimp only at h
    by_cases hseparator : (decide (digits.length = 0) || decide (separator ≠ comma)) = true
    · rw [if_pos hseparator] at h
      cases h
    rw [if_neg hseparator] at h
    simp only [Bool.or_eq_true, decide_eq_true_eq, not_or, not_not] at hseparator
    cases hsequence : parseSequence digits with
    | none =>
      rw [hsequence] at h
      cases h
    | some parsed =>
      cases hsplit : splitStar payloadBegin with
      | none =>
        rw [hsequence, hsplit] at h
        cases h
      | some parts =>
        obtain ⟨found, tail⟩ := parts
        rw [hsequence, hsplit] at h
        dsimp only at h
        cases hcrc : parseCrc tail with
        | none =>
          rw [hcrc] at h
          cases h
        | some expected =>
          rw [hcrc] at h
          dsimp only at h
          split_ifs at h
          obtain ⟨_, rfl⟩ := Prod.mk.inj (Option.some.inj h)
          obtain ⟨rfl, hpayload⟩ := splitStar_some hsplit
          obtain ⟨c, c', rfl⟩ := parseCrc_some hcrc
          refine ⟨framePrefix ++ (digits ++ separator :: found), c, c', ?_, ?_, ?_⟩
          · rw [← hline]
            simp
          · simp only [List.mem_append, List.mem_cons, not_or]
            refine ⟨by decide, hstar, ?_, hpayload⟩
            rw [hseparator.2]
            decide
          · rw [← hline]
            simp
            omega

theorem decode_buffer {line payload : List UInt8} {n m : ℕ} {sequence : UInt16}
    (h : decode line n = some (sequence, payload)) (hm : payload.length < m) :
    decode line m = some (sequence, payload) := by
  unfold decode at h ⊢
  by_cases hmark : (n = 0 || line.take framePrefix.length ≠ framePrefix) = true
  · rw [if_pos hmark] at h
    cases h
  rw [if_neg hmark] at h
  simp only [Bool.or_eq_true, decide_eq_true_eq, not_or, not_not] at hmark
  have hsize : ¬ (m = 0 || line.take framePrefix.length ≠ framePrefix) = true := by
    simp [hmark.2]
    omega
  rw [if_neg hsize]
  dsimp only at h ⊢
  generalize (line.drop framePrefix.length).takeWhile isDigit = digits at h ⊢
  cases hrest : (line.drop framePrefix.length).drop digits.length with
  | nil =>
    rw [hrest] at h
    cases h
  | cons separator payloadBegin =>
    rw [hrest] at h
    dsimp only at h ⊢
    by_cases hseparator : (decide (digits.length = 0) || decide (separator ≠ comma)) = true
    · rw [if_pos hseparator] at h
      cases h
    rw [if_neg hseparator] at h ⊢
    cases hsequence : parseSequence digits with
    | none =>
      rw [hsequence] at h
      cases h
    | some parsed =>
      cases hsplit : splitStar payloadBegin with
      | none =>
        rw [hsequence, hsplit] at h
        cases h
      | some parts =>
        obtain ⟨found, tail⟩ := parts
        rw [hsequence, hsplit] at h
        dsimp only at h ⊢
        cases hcrc : parseCrc tail with
        | none =>
          rw [hcrc] at h
          cases h
        | some expected =>
          rw [hcrc] at h
          dsimp only at h ⊢
          split_ifs at h ⊢ with hagree hlong hlong'
          · obtain ⟨_, rfl⟩ := Prod.mk.inj (Option.some.inj h)
            omega
          · exact h

theorem decode_size {line : List UInt8} {n : ℕ} (h : line.length < n) :
    decode line n = decode line (line.length+1) := by
  apply Option.ext
  rintro ⟨sequence, payload⟩
  constructor
  · intro hdecode
    obtain ⟨_, _, _, _, _, hlength⟩ := decode_some hdecode
    exact decode_buffer hdecode (by omega)
  · intro hdecode
    obtain ⟨_, _, _, _, _, hlength⟩ := decode_some hdecode
    exact decode_buffer hdecode (by omega)

def lineRequest (line : List UInt8) : Option (UInt16 × List UInt8) := decode (kept line) (maxLine+1)

theorem decode_prefix {line payload : List UInt8} {n : ℕ} {sequence : UInt16}
    (h : decode line n = some (sequence, payload)) :
    line.take framePrefix.length = framePrefix ∧ framePrefix.length ≤ line.length := by
  have hmark : line.take framePrefix.length = framePrefix := by
    by_contra hno
    rw [decode, if_pos (by simp [hno])] at h
    cases h
  refine ⟨hmark, ?_⟩
  have hlength := congrArg List.length hmark
  rw [List.length_take] at hlength
  omega

theorem cString_length (buffer : List UInt8) : (cString buffer).length ≤ buffer.length :=
  (List.takeWhile_prefix _).length_le

theorem kept_length (line : List UInt8) : (kept line).length ≤ maxLine :=
  (cString_length _).trans (List.length_take_le _ _)

/-- At the end of a line its kept part is tried, and at no other byte. -/
theorem dispatched_line (hs : s.line = []) (inputs : List Input) (character : UInt8) :
    dispatched (run hmac s inputs).1 character =
      if terminator character then lineRequest (pending inputs) else none := by
  unfold dispatched lineRequest kept
  rw [line_run hs]
  generalize (pending inputs).take maxLine = buffer
  cases terminator character with
  | false => simp
  | true =>
    rw [if_pos rfl]
    by_cases hshape : (!true || decide (buffer.length < framePrefix.length) ||
        decide ((cString buffer).take framePrefix.length ≠ framePrefix)) = true
    · rw [if_pos hshape]
      cases hdecode : decode (cString buffer) (maxLine+1) with
      | none => rfl
      | some request =>
        obtain ⟨sequence, payload⟩ := request
        obtain ⟨hmark, hlength⟩ := decode_prefix hdecode
        have hbuffer := cString_length buffer
        simp only [Bool.not_true, Bool.false_or, Bool.or_eq_true, decide_eq_true_eq] at hshape
        rcases hshape with hshort | hother
        · omega
        · exact absurd hmark hother
    · rw [if_neg hshape]

def Fits (line : List UInt8) : Prop := line.length ≤ maxLine ∧ 0 ∉ line

theorem kept_fits {line : List UInt8} (h : Fits line) : kept line = line := by
  rw [kept, List.take_of_length_le h.1, cString]
  apply List.takeWhile_eq_self_iff.mpr
  intro c hc
  exact decide_eq_true fun hzero => h.2 (hzero ▸ hc)

theorem lineRequest_fits {line : List UInt8} (h : Fits line) : lineRequest line = frameOf line := by
  rw [lineRequest, kept_fits h, frameOf, if_neg h.2]
  exact decode_size (by have := h.1; omega)

theorem kept_prefix (line : List UInt8) : kept line <+: line :=
  (List.takeWhile_prefix _).trans (List.take_prefix _ _)

/-- A frame with more bytes behind it is none: its first star is too far from
the end. -/
theorem decode_extended {line rest payload : List UInt8} {n : ℕ} {sequence : UInt16}
    (h : decode line n = some (sequence, payload)) (hrest : rest ≠ []) (m : ℕ) :
    decode (line ++ rest) m = none := by
  cases hextended : decode (line ++ rest) m with
  | none => rfl
  | some request =>
    obtain ⟨before, c, c', hline, hbefore, _⟩ := decode_some h
    obtain ⟨before', d, d', hwhole, hbefore', _⟩ := decode_some hextended
    have htake (l tail : List UInt8) (hl : SerialFrame.star ∉ l) :
        (l ++ SerialFrame.star :: tail).takeWhile (fun x => x ≠ SerialFrame.star) = l := by
      have hpos : ∀ x ∈ l, (decide (x ≠ SerialFrame.star)) = true := by
        intro x hx
        apply decide_eq_true
        rintro rfl
        exact hl hx
      rw [List.takeWhile_append_of_pos hpos]
      simp
    rw [hline] at hwhole
    have hsame : before = before' := by
      rw [← htake before ([c, c'] ++ rest) hbefore, ← htake before' [d, d'] hbefore', ← hwhole]
      simp
    have hlength := congrArg List.length hwhole
    have hpos := List.length_pos_iff.mpr hrest
    simp only [List.length_append, List.length_cons, List.length_nil, hsame] at hlength
    omega

theorem frame_not_cut {line : List UInt8} (h : (frameOf line).isSome = true)
    (hkept : (lineRequest line).isSome = true) : Fits line := by
  obtain ⟨⟨sequence, payload⟩, hrequest⟩ := Option.isSome_iff_exists.mp hkept
  unfold frameOf at h
  by_cases hzero : 0 ∈ line
  · rw [if_pos hzero] at h
    cases h
  rw [if_neg hzero] at h
  obtain ⟨rest, hrest⟩ := kept_prefix line
  have hwhole : rest = [] := by
    by_contra hne
    rw [← hrest, decode_extended hrequest hne] at h
    cases h
  rw [hwhole, List.append_nil] at hrest
  refine ⟨?_, hzero⟩
  rw [← hrest]
  exact kept_length line

/-- Each complete line dispatches the frame that it is as a whole, or
nothing; no other byte dispatches anything. -/
def Framed (hmac : Hmac) (s : Session) (inputs : List Input) : Prop :=
  ∀ before character moment, before ++ [.byte character moment] <+: inputs →
    dispatched (run hmac s before).1 character =
      if terminator character then frameOf (pending before) else none

/-- Each complete line fits the buffer, or it is no frame, neither whole nor
cut. -/
def LinesFit (inputs : List Input) : Prop :=
  ∀ before character moment, before ++ [.byte character moment] <+: inputs →
    terminator character = true →
      Fits (pending before) ∨ (frameOf (pending before) = none ∧
        decode (kept (pending before)) (maxLine+1) = none)

/-- However the stream is split over the polls, its complete lines are
dispatched as whole frames exactly if each of them fits or is no frame. -/
theorem lines_framed (hmac : Hmac) (s : Session) (hs : s.line = []) (calls : List (List Input)) :
    polls hmac s calls = run hmac s calls.flatten ∧
    (Framed hmac s calls.flatten ↔ LinesFit calls.flatten) := by
  refine ⟨polls_flatten s calls, fun h before character moment hmark hterminator => ?_,
    fun h before character moment hmark => ?_⟩
  · have hframed := h before character moment hmark
    rw [dispatched_line hs, if_pos hterminator, if_pos hterminator] at hframed
    cases hframe : frameOf (pending before) with
    | none => exact Or.inr ⟨rfl, hframed.trans hframe⟩
    | some request =>
      left
      apply frame_not_cut
      · rw [hframe]
        rfl
      · rw [hframed, hframe]
        rfl
  · rw [dispatched_line hs]
    cases hterminator : terminator character with
    | false => rfl
    | true =>
      rw [if_pos rfl, if_pos rfl]
      rcases h before character moment hmark hterminator with hfits | ⟨hwhole, hcut⟩
      · exact lineRequest_fits hfits
      · exact hcut.trans hwhole.symm

def quietMoment : Moment := ⟨0, none⟩

def typed (text : List UInt8) : List Input := text.map fun c => .byte c quietMoment

def plainSession : Session :=
  init (some (bytes "dev")) none none (Vector.replicate deviceUidBytes 0) none none

theorem plainSession_line : plainSession.line = [] := rfl

theorem pending_typed (text : List UInt8) :
    pending (typed text) = text.rtakeWhile fun c => !terminator c := by
  rw [pending, typed, List.filterMap_map]
  congr 1
  exact List.filterMap_some

/-- One line in two polls. -/
theorem sample_lines_framed :
    polls (fun _ _ => none) plainSession [typed (bytes "$SC,1,HE"), typed (bytes "LLO*0F\n")] =
      run (fun _ _ => none) plainSession
        [typed (bytes "$SC,1,HE"), typed (bytes "LLO*0F\n")].flatten ∧
    (Framed (fun _ _ => none) plainSession
        [typed (bytes "$SC,1,HE"), typed (bytes "LLO*0F\n")].flatten ↔
      LinesFit [typed (bytes "$SC,1,HE"), typed (bytes "LLO*0F\n")].flatten) :=
  lines_framed (fun _ _ => none) plainSession plainSession_line
    [typed (bytes "$SC,1,HE"), typed (bytes "LLO*0F\n")]

/-- A frame that something follows in its line is dispatched if the buffer
drops what follows. -/
theorem extended_not_framed {line rest payload : List UInt8} {sequence : UInt16}
    (hdecode : decode line (maxLine+1) = some (sequence, payload)) (hrest : rest ≠ [])
    (hpending : ∀ c ∈ line ++ rest, terminator c = false) (hkept : kept (line ++ rest) = line) :
    ¬ Framed hmac plainSession (typed (line ++ rest ++ [lineFeed])) := by
  intro h
  have hline := h (typed (line ++ rest)) lineFeed quietMoment (by simp [typed])
  have hself : (line ++ rest).rtakeWhile (fun c => !terminator c) = line ++ rest := by
    apply List.rtakeWhile_eq_self_iff.mpr
    intro c hc
    rw [hpending c hc]
    rfl
  have hframe : frameOf (line ++ rest) = none := by
    rw [frameOf, decode_extended hdecode hrest]
    split <;> rfl
  rw [dispatched_line plainSession_line, pending_typed, hself, if_pos (by decide),
    if_pos (by decide), lineRequest, hkept, hdecode, hframe] at hline
  cases hline

theorem decode_built {digits payload : List UInt8} {n m : ℕ} {c c' crc : UInt8}
    (hdigits : ∀ d ∈ digits, isDigit d = true) (hsequence : parseSequence digits = some n)
    (hne : digits ≠ []) (hpayload : SerialFrame.star ∉ payload) (hsize : payload.length < m)
    (hcrc : parseCrc [c, c'] = some crc)
    (hcheck : crc8 (framePrefix.drop 1 ++ (digits ++ comma :: payload)) = crc) :
    decode (framePrefix ++ (digits ++ comma :: (payload ++ [SerialFrame.star, c, c']))) m =
      some (UInt16.ofNat n, payload) := by
  have hplen : framePrefix.length = 4 := rfl
  have hspan : (digits ++ comma :: (payload ++ [SerialFrame.star, c, c'])).takeWhile isDigit =
      digits := by
    rw [List.takeWhile_append_of_pos hdigits, List.takeWhile_cons_of_neg (by decide),
      List.append_nil]
  have hstar : (payload ++ [SerialFrame.star, c, c']).takeWhile (fun x => x ≠ SerialFrame.star) =
        payload ∧
      (payload ++ [SerialFrame.star, c, c']).dropWhile (fun x => x ≠ SerialFrame.star) =
        [SerialFrame.star, c, c'] := by
    have hpos : ∀ x ∈ payload, (decide (x ≠ SerialFrame.star)) = true := by
      intro x hx
      apply decide_eq_true
      rintro rfl
      exact hpayload hx
    rw [List.takeWhile_append_of_pos hpos, List.dropWhile_append_of_pos hpos]
    simp
  have hfirst : ¬ (m = 0 || (framePrefix ++ (digits ++ comma ::
      (payload ++ [SerialFrame.star, c, c']))).take framePrefix.length ≠ framePrefix) = true := by
    rw [List.take_left]
    simp
    omega
  have hcovered : (((framePrefix ++ (digits ++ comma ::
      (payload ++ [SerialFrame.star, c, c']))).drop 1).take
        (framePrefix.length-1+digits.length+1+payload.length)) =
      framePrefix.drop 1 ++ (digits ++ comma :: payload) := by
    rw [List.drop_append_of_le_length (by decide),
      show digits ++ comma :: (payload ++ [SerialFrame.star, c, c']) =
        (digits ++ comma :: payload) ++ [SerialFrame.star, c, c'] by simp, ← List.append_assoc]
    apply List.take_left'
    simp [hplen]
    omega
  rw [decode, if_neg hfirst]
  dsimp only
  rw [List.drop_left, hspan, List.drop_left]
  dsimp only
  rw [if_neg (by simp [hne]), hsequence, splitStar, hstar.1, hstar.2]
  dsimp only
  rw [hcrc]
  dsimp only
  rw [hcovered, if_neg (by rw [hcheck]; simp), if_neg (by omega)]

def crcFrom (crc : UInt8) (data : List UInt8) : UInt8 :=
  data.foldl (fun crc byte => (List.range 8).foldl (fun c _ => crc8Bit c) (crc ^^^ byte)) crc

theorem crcFrom_append (crc : UInt8) (first second : List UInt8) :
    crcFrom crc (first ++ second) = crcFrom (crcFrom crc first) second :=
  List.foldl_append

def fullFrame : List UInt8 :=
  framePrefix ++ (bytes "1" ++ comma :: (List.replicate 119 0x41 ++ [SerialFrame.star, 0x32, 0x34]))

theorem crc_fullFrame :
    crc8 (framePrefix.drop 1 ++ (bytes "1" ++ comma :: List.replicate 119 0x41)) = 0x24 := by
  have h0 : crcFrom 0 (bytes "SC,1,") = 0x6C := by decide +kernel
  have h1 : crcFrom 0x6C (List.replicate 17 0x41) = 0xE1 := by decide +kernel
  have h2 : crcFrom 0xE1 (List.replicate 17 0x41) = 0xB2 := by decide +kernel
  have h3 : crcFrom 0xB2 (List.replicate 17 0x41) = 0xC9 := by decide +kernel
  have h4 : crcFrom 0xC9 (List.replicate 17 0x41) = 0x05 := by decide +kernel
  have h5 : crcFrom 0x05 (List.replicate 17 0x41) = 0xD1 := by decide +kernel
  have h6 : crcFrom 0xD1 (List.replicate 17 0x41) = 0x95 := by decide +kernel
  have h7 : crcFrom 0x95 (List.replicate 17 0x41) = 0x24 := by decide +kernel
  have hsplit : List.replicate 119 (0x41 : UInt8) =
      List.replicate 17 0x41 ++ (List.replicate 17 0x41 ++ (List.replicate 17 0x41 ++
        (List.replicate 17 0x41 ++ (List.replicate 17 0x41 ++ (List.replicate 17 0x41 ++
          List.replicate 17 0x41))))) := by
    simp only [List.replicate_append_replicate]
  have hhead : framePrefix.drop 1 ++ (bytes "1" ++ comma :: List.replicate 119 0x41) =
      bytes "SC,1," ++ List.replicate 119 0x41 := by
    rw [show framePrefix.drop 1 = bytes "SC," by decide +kernel,
      show bytes "SC,1," = bytes "SC," ++ (bytes "1" ++ [comma]) by decide +kernel]
    simp only [List.append_assoc, List.cons_append, List.nil_append]
  rw [hhead, hsplit]
  show crcFrom 0 _ = _
  simp only [crcFrom_append, h0, h1, h2, h3, h4, h5, h6, h7]

theorem decode_fullFrame : decode fullFrame (maxLine+1) = some (1, List.replicate 119 0x41) :=
  decode_built (by decide +kernel) (by decide +kernel) (by decide +kernel)
    (fun h => by cases List.eq_of_mem_replicate h) (by rw [List.length_replicate]; decide)
    (by decide +kernel) crc_fullFrame

theorem fullFrame_length : fullFrame.length = maxLine := by
  simp [fullFrame, framePrefix, bytes, maxLine]

theorem fullFrame_plain : ∀ c ∈ fullFrame, terminator c = false ∧ c ≠ 0 := by
  have hhead : ∀ c ∈ framePrefix ++ (bytes "1" ++ [comma]), terminator c = false ∧ c ≠ 0 := by
    decide +kernel
  intro c hc
  simp only [fullFrame, List.mem_append, List.mem_cons] at hc
  rcases hc with h | h | h | h | h | h | h | h
  · exact hhead c (by simp [h])
  · exact hhead c (by simp [h])
  · exact hhead c (by simp [h])
  · rw [List.eq_of_mem_replicate h]
    decide
  · subst h
    decide
  · subst h
    decide
  · subst h
    decide
  · cases h

theorem kept_fullFrame : kept (fullFrame ++ [0x78]) = fullFrame := by
  rw [kept, List.take_left' fullFrame_length, cString]
  apply List.takeWhile_eq_self_iff.mpr
  intro c hc
  exact decide_eq_true (fullFrame_plain c hc).2

/-- A frame behind which the line goes on, after a zero or after the buffer is
full. -/
theorem cut_lines_dispatched :
    ¬ Framed (fun _ _ => none) plainSession
      (typed (bytes "$SC,1,HELLO*0F" ++ [0, 0x78] ++ [lineFeed])) ∧
    ¬ Framed (fun _ _ => none) plainSession (typed (fullFrame ++ [0x78] ++ [lineFeed])) := by
  have hhello : decode (bytes "$SC,1,HELLO*0F") (maxLine+1) = some (1, bytes "HELLO") := by
    decide +kernel
  constructor
  · exact extended_not_framed hhello (List.cons_ne_nil _ _) (by decide +kernel) (by decide +kernel)
  · refine extended_not_framed decode_fullFrame (List.cons_ne_nil _ _) ?_ kept_fullFrame
    intro c hc
    rcases List.mem_append.mp hc with h | h
    · exact (fullFrame_plain c h).1
    · rw [List.mem_singleton.mp h]
      decide

end JaszczurHal.SerialLines
