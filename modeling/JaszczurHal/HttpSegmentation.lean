import JaszczurHal.HttpServer

/-!
# A request and its receives

The decision on a prefix of the stream is the decision on the stream. Only the
test for a full buffer does not ask for it: it comes before the request is looked
at, and it refuses a request that ends exactly where the buffer does.
-/

set_option autoImplicit false

namespace JaszczurHal.HttpServer
open WebSocketHandshake (ascii crlf carriageReturn lineFeed splitAt isBlank trim strIeq cString expired)
open HttpPath (slash space)
open HttpFiles (splitAt_eq cString_clean)

theorem isPrefixOf_append {mark text : List UInt8} (more : List UInt8)
    (h : mark.length ≤ text.length) : mark.isPrefixOf (text ++ more) = mark.isPrefixOf text := by
  rw [Bool.eq_iff_iff, List.isPrefixOf_iff_prefix, List.isPrefixOf_iff_prefix]
  constructor
  · intro hleads
    exact List.prefix_of_prefix_length_le hleads (List.prefix_append _ _) h
  · intro hleads
    exact hleads.trans (List.prefix_append _ _)

theorem splitAt_length {mark text first second : List UInt8}
    (h : splitAt mark text = some (first, second)) :
    first.length+mark.length+second.length = text.length := by
  simp [splitAt_eq h, Nat.add_assoc]

theorem splitAt_append {mark text first second : List UInt8} (more : List UInt8)
    (h : splitAt mark text = some (first, second)) :
    splitAt mark (text ++ more) = some (first, second ++ more) := by
  induction text generalizing first with
  | nil => cases h
  | cons c text ih =>
    have hfits : mark.length ≤ (c :: text).length := by
      have := splitAt_length h
      omega
    have hsame := isPrefixOf_append more hfits
    rw [List.cons_append] at hsame ⊢
    rw [splitAt] at h ⊢
    rw [hsame]
    by_cases hmark : mark.isPrefixOf (c :: text) = true
    · rw [if_pos hmark] at h ⊢
      simp only [Option.some.injEq, Prod.mk.injEq] at h ⊢
      constructor
      · exact h.1
      · rw [← h.2, ← List.cons_append, List.drop_append_of_le_length hfits]
    · rw [if_neg hmark] at h ⊢
      simp only [Option.map_eq_some_iff] at h ⊢
      obtain ⟨parts, hparts, heq⟩ := h
      simp only [Prod.mk.injEq] at heq
      obtain ⟨rfl, rfl⟩ := heq
      exact ⟨(parts.1, parts.2 ++ more), ih hparts, rfl⟩

/-- A mark found within the first part of a text is found in that part alone. -/
theorem splitAt_within {mark text more first second : List UInt8} (hmark : 0 < mark.length)
    (h : splitAt mark (text ++ more) = some (first, second))
    (hfits : first.length+mark.length ≤ text.length) :
    ∃ rest, splitAt mark text = some (first, rest) := by
  induction text generalizing first with
  | nil =>
    simp only [List.length_nil] at hfits
    omega
  | cons c text ih =>
    have hsame : mark.isPrefixOf (c :: text ++ more) = mark.isPrefixOf (c :: text) :=
      isPrefixOf_append more (by omega)
    rw [List.cons_append] at hsame h
    rw [splitAt, hsame] at h
    rw [splitAt]
    by_cases hleads : mark.isPrefixOf (c :: text) = true
    · rw [if_pos hleads] at h ⊢
      simp only [Option.some.injEq, Prod.mk.injEq] at h ⊢
      exact ⟨_, h.1, rfl⟩
    · rw [if_neg hleads] at h ⊢
      simp only [Option.map_eq_some_iff] at h ⊢
      obtain ⟨parts, hparts, heq⟩ := h
      simp only [Prod.mk.injEq] at heq
      obtain ⟨rfl, rfl⟩ := heq
      simp only [List.length_cons] at hfits
      obtain ⟨rest, hrest⟩ := ih hparts (by omega)
      exact ⟨rest, _, hrest, rfl⟩

theorem cString_terminated {buffer : List UInt8} (more : List UInt8) (h : 0 ∈ buffer) :
    cString (buffer ++ more) = cString buffer := by
  induction buffer with
  | nil => simp at h
  | cons c buffer ih =>
    by_cases hc : c = 0
    · simp [cString, hc]
    · have hrest : 0 ∈ buffer := by
        simp only [List.mem_cons] at h
        exact h.resolve_left fun heq => hc heq.symm
      have hih := ih hrest
      simp only [cString, ne_eq, decide_not, List.cons_append] at hih ⊢
      simp [hc, hih]

theorem cString_append (buffer more : List UInt8) :
    ∃ tail, cString (buffer ++ more) = cString buffer ++ tail := by
  by_cases h : 0 ∈ buffer
  · exact ⟨[], by simp [cString_terminated more h]⟩
  · exact ⟨cString more, by rw [cString_clean more h, HttpFiles.cString_plain h]⟩

theorem splitAt_next {mark text first second : List UInt8} {c : UInt8}
    (hleads : ¬mark.isPrefixOf (c :: text) = true)
    (h : splitAt mark (c :: text) = some (first, second)) :
    ∃ later, first = c :: later ∧ splitAt mark text = some (later, second) := by
  rw [splitAt, if_neg hleads] at h
  obtain ⟨parts, hparts, heq⟩ := Option.map_eq_some_iff.mp h
  simp only [Prod.mk.injEq] at heq
  obtain ⟨rfl, rfl⟩ := heq
  exact ⟨parts.1, rfl, hparts⟩

theorem not_prefix_shorter {mark shorter longer : List UInt8} {c : UInt8}
    (hlonger : ¬mark.isPrefixOf (c :: longer) = true) (h : shorter <+: longer) :
    ¬mark.isPrefixOf (c :: shorter) = true := by
  intro hleads
  apply hlonger
  rw [List.isPrefixOf_iff_prefix] at hleads ⊢
  exact hleads.trans (List.cons_prefix_cons.mpr ⟨rfl, h⟩)

theorem crlf_prefix {c : UInt8} {text : List UInt8} (h : crlf.isPrefixOf (c :: text) = true) :
    c = carriageReturn ∧ ∃ rest, text = lineFeed :: rest := by
  obtain ⟨rest, hrest⟩ := List.isPrefixOf_iff_prefix.mp h
  simp only [crlf, List.cons_append, List.nil_append, List.cons.injEq] at hrest
  exact ⟨hrest.1.symm, rest, hrest.2.symm⟩

theorem blank_starts_line {c : UInt8} {text : List UInt8} (h : c ≠ carriageReturn) :
    ¬(crlf ++ crlf).isPrefixOf (c :: text) = true := by
  intro hleads
  obtain ⟨rest, hrest⟩ := List.isPrefixOf_iff_prefix.mp hleads
  simp only [crlf, List.cons_append, List.cons.injEq] at hrest
  exact h hrest.1.symm

/-- The blank line behind a request line: it ends the line, or it is found behind
the line end. -/
theorem splitAt_blank {text head behind line rest : List UInt8}
    (hblank : splitAt (crlf ++ crlf) text = some (head, behind))
    (hline : splitAt crlf text = some (line, rest)) :
    (splitAt crlf head = none ∧ ∃ tail, rest = crlf ++ tail) ∨
      ∃ headers, splitAt crlf head = some (line, headers) ∧
        splitAt (crlf ++ crlf) rest = some (headers, behind) := by
  induction text generalizing head line with
  | nil => cases hblank
  | cons c text ih =>
    by_cases hb : (crlf ++ crlf).isPrefixOf (c :: text) = true
    · rw [splitAt, if_pos hb] at hblank
      simp only [Option.some.injEq, Prod.mk.injEq] at hblank
      obtain ⟨tail, htail⟩ := List.isPrefixOf_iff_prefix.mp hb
      rw [← htail, List.append_assoc] at hline
      simp only [splitAt, crlf, List.cons_append, List.nil_append, List.isPrefixOf_cons_cons_self,
        List.isPrefixOf_nil_left, if_true, List.length_cons, List.length_nil, List.drop_succ_cons,
        List.drop_zero, Option.some.injEq, Prod.mk.injEq] at hline
      left
      constructor
      · simp [← hblank.1, splitAt]
      · exact ⟨tail, hline.2.symm⟩
    obtain ⟨laterHead, rfl, hlater⟩ := splitAt_next hb hblank
    by_cases hc : crlf.isPrefixOf (c :: text) = true
    · rw [splitAt, if_pos hc] at hline
      obtain ⟨rfl, rest, rfl⟩ := crlf_prefix hc
      simp only [Option.some.injEq, Prod.mk.injEq] at hline
      obtain ⟨rfl, rfl⟩ := hline
      obtain ⟨headers, rfl, hheaders⟩ := splitAt_next (blank_starts_line (by decide)) hlater
      right
      exact ⟨headers, by simp [splitAt, crlf], hheaders⟩
    · obtain ⟨laterLine, rfl, hlaterLine⟩ := splitAt_next hc hline
      have hleads : laterHead <+: text := by
        rw [splitAt_eq hlater, List.append_assoc]
        exact List.prefix_append _ _
      have hhead := not_prefix_shorter hc hleads
      rw [splitAt, if_neg hhead]
      cases ih hlater hlaterLine with
      | inl hnone =>
        left
        simp [hnone]
      | inr hsome =>
        obtain ⟨headers, hfound, hrest⟩ := hsome
        right
        exact ⟨headers, by simp [hfound], hrest⟩

/-- Where a blank line is found, so is the line end before it. -/
theorem splitAt_crlf_exists {text head behind : List UInt8}
    (h : splitAt (crlf ++ crlf) text = some (head, behind)) :
    ∃ line rest, splitAt crlf text = some (line, rest) := by
  induction text generalizing head with
  | nil => cases h
  | cons c text ih =>
    by_cases hc : crlf.isPrefixOf (c :: text) = true
    · exact ⟨_, _, by rw [splitAt, if_pos hc]⟩
    · have hb : ¬(crlf ++ crlf).isPrefixOf (c :: text) = true := by
        intro hleads
        apply hc
        rw [List.isPrefixOf_iff_prefix] at hleads ⊢
        exact (List.prefix_append _ _).trans hleads
      obtain ⟨later, _, hlater⟩ := splitAt_next hb h
      obtain ⟨line, rest, hline⟩ := ih hlater
      exact ⟨c :: line, rest, by simp [splitAt, hc, hline]⟩

section Stream
variable {H : Type}

/-- A decision on some bytes stands whatever follows them. -/
theorem requestState_append (c : Config H) (buffer more : List UInt8)
    (h : requestState c buffer ≠ .pending) :
    requestState c (buffer ++ more) = requestState c buffer := by
  unfold requestState at h ⊢
  cases hblank : splitAt (crlf ++ crlf) (cString buffer) with
  | none => simp [hblank] at h
  | some parts =>
    obtain ⟨text, behind⟩ := parts
    obtain ⟨tail, htail⟩ := cString_append buffer more
    rw [htail, splitAt_append tail hblank]
    simp only [hblank] at h
    simp only
    by_cases hfits : c.requestBuffer ≤ text.length+4
    · simp only [if_pos hfits]
    simp only [if_neg hfits] at h ⊢
    cases hlength : parseMessageLength c.sizeMax text (c.requestBuffer-(text.length+4)-1) with
    | pending => rfl
    | bad => rfl
    | tooLarge => rfl
    | complete contentLen =>
      simp only [hlength] at h
      by_cases hall : text.length+4+contentLen ≤ buffer.length
      · have hlonger : text.length+4+contentLen ≤ (buffer ++ more).length := by
          rw [List.length_append]
          omega
        simp only [if_pos hall, if_pos hlonger]
      · simp [if_neg hall] at h

theorem parseDigits_ne_pending (sizeMax : ℕ) (value : List UInt8) (parsed : ℕ) :
    parseDigits sizeMax value parsed ≠ .pending := by
  induction value generalizing parsed with
  | nil => simp [parseDigits]
  | cons c value ih =>
    rw [parseDigits]
    split_ifs
    · simp
    · simp
    · exact ih _

theorem parseHeaderLines_ne_pending (sizeMax : ℕ) (headers : List (List UInt8)) (seen : Bool)
    (contentLen : ℕ) : parseHeaderLines sizeMax headers seen contentLen ≠ .pending := by
  induction headers generalizing seen contentLen with
  | nil => simp [parseHeaderLines]
  | cons line headers ih =>
    rw [parseHeaderLines]
    cases splitAt [colon] line with
    | none => simp
    | some field =>
      simp only
      split_ifs
      · simp
      · simp
      · cases hdigits : parseDigits sizeMax (trim field.2) 0 with
        | complete parsed => exact ih _ _
        | pending => exact absurd hdigits (parseDigits_ne_pending _ _ _)
        | bad => simp
        | tooLarge => simp
      · exact ih _ _

theorem parseMessageLength_ne_pending (sizeMax : ℕ) (text : List UInt8) (capacity : ℕ) :
    parseMessageLength sizeMax text capacity ≠ .pending := by
  unfold parseMessageLength
  cases splitAt crlf text with
  | none => simp
  | some parts =>
    simp only
    cases hlines : parseHeaderLines sizeMax (lines parts.2) false 0 with
    | complete contentLen =>
      simp only
      split_ifs <;> simp
    | pending => exact absurd hlines (parseHeaderLines_ne_pending _ _ _ _)
    | bad => simp
    | tooLarge => simp

theorem parseMessageLength_capacity {sizeMax capacity contentLen : ℕ} {text : List UInt8}
    (h : parseMessageLength sizeMax text capacity = .complete contentLen) :
    contentLen ≤ capacity := by
  unfold parseMessageLength at h
  cases hline : splitAt crlf text with
  | none =>
    simp only [hline, RequestState.complete.injEq] at h
    omega
  | some parts =>
    simp only [hline] at h
    cases hlines : parseHeaderLines sizeMax (lines parts.2) false 0 with
    | complete declared =>
      simp only [hlines] at h
      by_cases hfits : capacity < declared
      · simp [hfits] at h
      · simp only [if_neg hfits, RequestState.complete.injEq] at h
        omega
    | pending => simp [hlines] at h
    | bad => simp [hlines] at h
    | tooLarge => simp [hlines] at h

/-- A buffer that is full and has not decided never will. -/
theorem requestState_full (c : Config H) (buffer more : List UInt8)
    (h : requestState c buffer = .pending) (hfull : c.requestBuffer ≤ buffer.length+1) :
    requestState c (buffer ++ more) = .pending ∨ requestState c (buffer ++ more) = .tooLarge := by
  cases hblank : splitAt (crlf ++ crlf) (cString buffer) with
  | some parts =>
    obtain ⟨text, behind⟩ := parts
    simp only [requestState, hblank] at h
    by_cases hfits : c.requestBuffer ≤ text.length+4
    · simp [hfits] at h
    simp only [if_neg hfits] at h
    cases hlength : parseMessageLength c.sizeMax text (c.requestBuffer-(text.length+4)-1) with
    | pending => exact absurd hlength (parseMessageLength_ne_pending _ _ _)
    | bad => simp [hlength] at h
    | tooLarge => simp [hlength] at h
    | complete contentLen =>
      have hcapacity := parseMessageLength_capacity hlength
      have hall : text.length+4+contentLen ≤ buffer.length := by omega
      simp [hlength, hall] at h
  | none =>
    by_cases hnul : 0 ∈ buffer
    · left
      simp [requestState, cString_terminated more hnul, hblank]
    · rw [HttpFiles.cString_plain hnul] at hblank
      unfold requestState
      rw [cString_clean more hnul]
      cases hlater : splitAt (crlf ++ crlf) (buffer ++ cString more) with
      | none => simp
      | some parts =>
        right
        have hfits : c.requestBuffer ≤ parts.1.length+4 := by
          by_contra hshort
          have hlen : (crlf ++ crlf).length = 4 := by decide
          obtain ⟨rest, hrest⟩ := splitAt_within (by omega) hlater (by omega)
          rw [hblank] at hrest
          cases hrest
        simp [hfits]

theorem lines_crlf (text : List UInt8) : lines (crlf ++ text) = [] :: lines text := by
  simp [crlf, lines]

/-- A request without header lines has no headers, whatever stands behind it. -/
theorem headersAndBody_empty (c : Config H) (buffer tail : List UInt8) (lineLen : ℕ) :
    headersAndBody c buffer (crlf ++ tail) lineLen 0 = ([], []) := by
  unfold headersAndBody
  cases hblank : splitAt (crlf ++ crlf) (crlf ++ tail) with
  | none => simp
  | some parts =>
    obtain ⟨text, behind⟩ := parts
    have hempty : parseRequestHeaders c (lines text) 0 = [] := by
      by_cases hb : (crlf ++ crlf).isPrefixOf (crlf ++ tail) = true
      · simp only [crlf, List.cons_append, List.nil_append] at hb hblank
        rw [splitAt, if_pos hb] at hblank
        simp only [Option.some.injEq, Prod.mk.injEq] at hblank
        simp [← hblank.1, lines, parseRequestHeaders]
      · obtain ⟨later, rfl, hlater⟩ := splitAt_next hb hblank
        obtain ⟨headers, rfl, _⟩ := splitAt_next (blank_starts_line (by decide)) hlater
        have hlines := lines_crlf headers
        simp only [crlf, List.cons_append, List.nil_append] at hlines
        simp [hlines, parseRequestHeaders]
    simp [hempty]

/-- What a complete request is made of: nothing but a request line, or a body
that lies within the buffer. -/
theorem complete_parts {c : Config H} {buffer line rest : List UInt8} {contentLen : ℕ}
    (h : requestState c buffer = .complete contentLen)
    (hline : splitAt crlf (cString buffer) = some (line, rest)) :
    (contentLen = 0 ∧ ∃ tail, rest = crlf ++ tail) ∨
      ∃ headers behind, splitAt (crlf ++ crlf) rest = some (headers, behind) ∧
        line.length+2+(headers.length+4)+contentLen ≤ buffer.length := by
  cases hblank : splitAt (crlf ++ crlf) (cString buffer) with
  | none => simp [requestState, hblank] at h
  | some parts =>
    obtain ⟨text, behind⟩ := parts
    simp only [requestState, hblank] at h
    by_cases hfits : c.requestBuffer ≤ text.length+4
    · simp [hfits] at h
    simp only [if_neg hfits] at h
    cases hlength : parseMessageLength c.sizeMax text (c.requestBuffer-(text.length+4)-1) with
    | pending => simp [hlength] at h
    | bad => simp [hlength] at h
    | tooLarge => simp [hlength] at h
    | complete declared =>
      simp only [hlength] at h
      by_cases hall : text.length+4+declared ≤ buffer.length
      · simp only [if_pos hall, RequestState.complete.injEq] at h
        subst h
        cases splitAt_blank hblank hline with
        | inl hnone =>
          left
          simp only [parseMessageLength, hnone.1, RequestState.complete.injEq] at hlength
          exact ⟨hlength.symm, hnone.2⟩
        | inr hsome =>
          obtain ⟨headers, htext, hrest⟩ := hsome
          right
          have hlen := splitAt_length htext
          simp only [crlf, List.length_cons, List.length_nil] at hlen
          exact ⟨headers, behind, hrest, by omega⟩
      · simp [hall] at h

theorem complete_line {c : Config H} {buffer : List UInt8} {contentLen : ℕ}
    (h : requestState c buffer = .complete contentLen) :
    ∃ line rest, splitAt crlf (cString buffer) = some (line, rest) := by
  cases hblank : splitAt (crlf ++ crlf) (cString buffer) with
  | none => simp [requestState, hblank] at h
  | some parts => exact splitAt_crlf_exists hblank

/-- The bytes behind a complete request do not reach its handler. -/
theorem processRequest_append {c : Config H} {buffer : List UInt8} {contentLen : ℕ}
    (more : List UInt8) (h : requestState c buffer = .complete contentLen) :
    processRequest c (buffer ++ more) contentLen = processRequest c buffer contentLen := by
  obtain ⟨line, rest, hline⟩ := complete_line h
  obtain ⟨tail, htail⟩ := cString_append buffer more
  have hcontents : headersAndBody c (buffer ++ more) (rest ++ tail) line.length contentLen =
      headersAndBody c buffer rest line.length contentLen := by
    cases complete_parts h hline with
    | inl hempty =>
      obtain ⟨rfl, start, rfl⟩ := hempty
      rw [List.append_assoc, headersAndBody_empty, headersAndBody_empty]
    | inr hparts =>
      obtain ⟨headers, behind, hrest, hlen⟩ := hparts
      simp only [headersAndBody, hrest, splitAt_append tail hrest]
      rw [List.drop_append_of_le_length (by omega), List.take_append_of_le_length]
      rw [List.length_drop]
      omega
  simp only [processRequest, htail, hline, splitAt_append tail hline, hcontents]

end Stream

end JaszczurHal.HttpServer
