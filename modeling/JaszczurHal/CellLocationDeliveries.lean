import JaszczurHal.CellLocationBreaks

/-!
# Deliveries of a cell location line

Whether a location is the one of the line that arrives is decided by what each
buffer shows of it: a shorter line, an earlier one, or the line itself.
-/

set_option autoImplicit false

namespace JaszczurHal.CellLocation
open WebSocketHandshake (ascii cString)
open ModemAt (lineEnd)
open GpsNmea (isSpace isDigit)
open SimcomMqtt (scanInt plus minus comma)
open Sscanf

theorem findLastFrom_none {s : List UInt8} (h : ¬ marker <:+: s) (skip : ℕ) :
    findLastFrom marker skip s = none := by
  induction s generalizing skip with
  | nil => cases skip <;> rfl
  | cons c s ih =>
    have hrest : ¬ marker <:+: s := fun hin => h (hin.trans (List.infix_cons List.infix_rfl))
    cases skip with
    | zero =>
      have hnot : ¬ marker.isPrefixOf (c :: s) = true :=
        fun hpre => h (List.isPrefixOf_iff_prefix.mp hpre).isInfix
      rw [findLastFrom, if_neg hnot]
      exact ih hrest 0
    | succ skip => exact ih hrest skip

/-- The marker starts with a byte that it does not have again. -/
theorem findLastFrom_lead {lead y : List UInt8} (hlead : ∀ c ∈ lead, lineEnd c = true)
    (hy : ¬ marker <:+: y) :
    findLastFrom marker 0 (lead ++ (marker ++ y)) = some (marker ++ y) := by
  induction lead with
  | nil =>
    have hpre : marker.isPrefixOf (plus :: (marker.tail ++ y)) = true :=
      List.isPrefixOf_iff_prefix.mpr ⟨y, rfl⟩
    show findLastFrom marker 0 (plus :: (marker.tail ++ y)) = _
    rw [findLastFrom, if_pos hpre]
    have hnone : findLastFrom marker (marker.length-1) (marker.tail ++ y) = none :=
      findLastFrom_none hy 0
    rw [hnone]
    rfl
  | cons c lead ih =>
    have hc := hlead c List.mem_cons_self
    have hnot : ¬ marker.isPrefixOf (c :: (lead ++ (marker ++ y))) = true := by
      intro hpre
      have hplus : plus = c := (List.cons_prefix_cons.mp (List.isPrefixOf_iff_prefix.mp hpre)).1
      rw [← hplus] at hc
      exact absurd hc (by decide)
    rw [List.cons_append, findLastFrom, if_neg hnot]
    exact ih fun d hd => hlead d (List.mem_cons_of_mem c hd)

theorem marker_inside : ∀ i, 1 ≤ i → i < marker.length → ∀ c ∈ marker[i]?,
    c ≠ plus ∧ lineEnd c = false := by
  intro i hone hlt
  have hsix : i < 6 := hlt
  have hplain : ∀ c ∈ marker.tail, c ≠ plus ∧ lineEnd c = false := by
    simpa only [decide_eq_true_eq] using
      List.all_eq_true (p := fun c => decide (c ≠ plus ∧ lineEnd c = false)).mp rfl
  intro c hc
  obtain ⟨k, rfl⟩ : ∃ k, i = k+1 := ⟨i-1, by omega⟩
  refine hplain c (List.mem_of_getElem? (i := k) ?_)
  rw [List.getElem?_tail]
  exact hc

/-- No place of the marker reaches from before the line into it. -/
theorem marker_fits {before lead y : List UInt8} {c : UInt8}
    (hlead : ∀ c ∈ lead, lineEnd c = true)
    (hpre : marker <+: c :: (before ++ (lead ++ (marker ++ y)))) :
    marker.length-1 ≤ before.length := by
  by_contra hshort
  obtain ⟨w, hw⟩ := hpre
  have hsix : marker.length = 6 := rfl
  have hget := congrArg (fun l => l[before.length+1]?) hw
  simp only [List.getElem?_cons_succ, List.getElem?_append_right (Nat.le_refl _), Nat.sub_self,
    List.getElem?_append_left (show before.length+1 < marker.length by omega)] at hget
  have hbyte : ∃ d, (lead ++ (marker ++ y))[0]? = some d ∧ (d = plus ∨ lineEnd d = true) := by
    cases lead with
    | nil => exact ⟨plus, rfl, .inl rfl⟩
    | cons d lead => exact ⟨d, rfl, .inr (hlead d List.mem_cons_self)⟩
  obtain ⟨d, hd, hkind⟩ := hbyte
  rw [hd] at hget
  obtain ⟨hne, hplain⟩ := marker_inside _ (by omega) (by omega) d hget
  rcases hkind with rfl | hend
  · exact hne rfl
  · rw [hplain] at hend
    cases hend

theorem findLastFrom_before {before lead y : List UInt8} (hlead : ∀ c ∈ lead, lineEnd c = true)
    (hy : ¬ marker <:+: y) (skip : ℕ) (hskip : skip ≤ before.length) :
    findLastFrom marker skip (before ++ (lead ++ (marker ++ y))) = some (marker ++ y) := by
  induction before generalizing skip with
  | nil =>
    obtain rfl := Nat.le_zero.mp hskip
    exact findLastFrom_lead hlead hy
  | cons c before ih =>
    cases skip with
    | succ skip => exact ih skip (Nat.le_of_succ_le_succ hskip)
    | zero =>
      rw [List.cons_append, findLastFrom]
      split_ifs with hpre
      · -- a place of the marker that starts before the line ends before it
        have hfits := marker_fits hlead (List.isPrefixOf_iff_prefix.mp hpre)
        rw [ih _ hfits]
        rfl
      · exact ih 0 (Nat.zero_le _)

/-- A text with the marker in it has a last place of it. -/
theorem last_marker {s : List UInt8} (h : marker <:+: s) :
    ∃ front y, s = front ++ (marker ++ y) ∧ ¬ marker <:+: y := by
  obtain ⟨front, y, rfl⟩ := h
  induction hn : y.length using Nat.strong_induction_on generalizing front y with
  | _ n ih =>
    by_cases hin : marker <:+: y
    · obtain ⟨u, w, rfl⟩ := hin
      have hsix : marker.length = 6 := rfl
      obtain ⟨front', y', heq, hlast⟩ := ih w.length
        (by rw [← hn, List.length_append, List.length_append]; omega) (front ++ marker ++ u) w rfl
      refine ⟨front', y', ?_, hlast⟩
      rw [← heq]
      simp only [List.append_assoc]
    · exact ⟨front, y, List.append_assoc .., hin⟩

theorem findLast_iff {s t : List UInt8} : findLast s marker = some t ↔
    ∃ front y, s = front ++ (marker ++ y) ∧ t = marker ++ y ∧ ¬ marker <:+: y := by
  have hnil : ∀ c ∈ ([] : List UInt8), lineEnd c = true := by simp
  constructor
  · intro h
    by_cases hin : marker <:+: s
    · obtain ⟨front, y, rfl, hlast⟩ := last_marker hin
      have hfound := findLastFrom_before hnil hlast 0 (Nat.zero_le front.length)
      exact ⟨front, y, rfl, Option.some.inj (h.symm.trans hfound), hlast⟩
    · rw [findLast, findLastFrom_none hin] at h
      cases h
  · rintro ⟨front, y, rfl, rfl, hlast⟩
    exact findLastFrom_before hnil hlast 0 (Nat.zero_le front.length)

variable {F : Type}

/-- The line behind the last marker of a text, from its bytes: each of its breaks
but the last is followed by what may go on. -/
inductive LastLine (strtof : Strtof F) (zero : F) : List UInt8 → Reading F → Prop where
  | behind (front : List UInt8) {y after : List UInt8} {v : Reading F}
      (last : ¬ marker <:+: y ++ after) (stitched : stitched y = true) (closed : closed y = true)
      (short : (marker ++ keep y).length < bufSize-1)
      (start : ∀ c ∈ after.head?, lineEnd c = false) (other : continues after = false)
      (text : Fields strtof zero (keep y) v []) :
      LastLine strtof zero (front ++ (marker ++ (y ++ after))) v

theorem collapse_marker (y : List UInt8) : clbsCollapseLine (bufSize-1) (marker ++ y) =
    (marker ++ (clbsCollapseLine 89 y).1, (clbsCollapseLine 89 y).2) := by
  have hplain : ∀ c ∈ marker, lineEnd c = false := by
    simpa using List.all_eq_true (p := fun c => !lineEnd c).mp (rfl : marker.all _ = true)
  exact collapse_plain hplain 89 y

theorem parse_lastLine {strtof : Strtof F} {zero : F} {text : List UInt8} {v : Reading F} :
    parseClbsFromResponse strtof zero text = some v ↔ LastLine strtof zero text v := by
  have hsix : marker.length = 6 := rfl
  have hsize : bufSize = 96 := rfl
  constructor
  · intro h
    rw [parseClbsFromResponse] at h
    cases hfound : findLast text marker with
    | none =>
      rw [hfound] at h
      cases h
    | some p =>
      obtain ⟨front, rest, rfl, rfl, hlast⟩ := findLast_iff.mp hfound
      rw [hfound] at h
      dsimp only at h
      rw [collapse_marker] at h
      dsimp only at h
      split_ifs at h with hend
      obtain ⟨y, after, rfl, hst, hclosed, hroom, hstart, hafter⟩ := collapse_split 89 hend
      rw [collapse_append 89 hclosed hstart hafter, collapse_closed 89 hst hclosed hroom] at h
      exact .behind front hlast hst hclosed (by rw [List.length_append]; omega) hstart hafter
        (readLine_iff.mp h)
  · rintro ⟨front, hlast, hst, hclosed, hshort, hstart, hafter, htext⟩
    rw [List.length_append] at hshort
    rw [parseClbsFromResponse, findLast_iff.mpr ⟨front, _, rfl, rfl, hlast⟩]
    dsimp only
    rw [collapse_marker, collapse_append 89 hclosed hstart hafter,
      collapse_closed 89 hst hclosed (by omega)]
    exact readLine_iff.mpr htext

variable (value : List UInt8 → F) (zero : F)

/-- A line as it arrives: what the buffer has before it, its text in pieces, its
end, and another text. -/
structure Delivery where
  before : List UInt8
  body : List UInt8
  reading : Reading F
  broken : List UInt8
  ends : List UInt8
  after : List UInt8
  chars : LineChars body
  complete : Complete value body reading
  pieces : keep broken = marker ++ body
  someEnd : ends ≠ []
  onlyEnds : ∀ c ∈ ends, lineEnd c = true
  newStart : ∀ c ∈ after.head?, lineEnd c = false
  newText : continues after = false
  noMarker : ¬ marker <:+: after

structure ShownLine (y : List UInt8) (v : Reading F) : Prop where
  stitched : stitched y = true
  closed : closed y = true
  short : (marker ++ keep y).length < bufSize-1
  text : LineText zero value (keep y) v

variable {value}

def Delivery.line (d : Delivery value) : List UInt8 := d.broken ++ d.ends

def Delivery.buffer (d : Delivery value) (count : ℕ) : List UInt8 :=
  d.before ++ (d.line ++ d.after).take count

def Delivery.Marked (d : Delivery value) (count : ℕ) (y : List UInt8) : Prop :=
  0 ∉ d.before ∧ ∃ lead, d.line.take count = lead ++ (marker ++ y) ∧
    ∀ c ∈ lead, lineEnd c = true

/-- The line that the buffer shows is the marked one, or an earlier one. -/
def Delivery.Shows (strtof : Strtof F) (d : Delivery value) (count : ℕ) (v : Reading F) : Prop :=
  (∃ y, d.Marked count y ∧ ShownLine value zero y v) ∨
    (¬ ∃ y, d.Marked count y) ∧
      LastLine strtof zero (cString (d.buffer count)) v

variable {zero} {strtof : Strtof F} {d : Delivery value} {count : ℕ} {y : List UInt8}
  {v : Reading F}

theorem Delivery.keep_line (d : Delivery value) : keep d.line = marker ++ d.body := by
  rw [Delivery.line, keep_append, d.pieces, keep_ends d.onlyEnds, List.append_nil]

/-- What the buffer has of the line behind its marker is a part of it. -/
theorem Delivery.marked_keep (h : d.Marked count y) : keep y <+: d.body := by
  obtain ⟨_, lead, hpart, hlead⟩ := h
  have hprefix : d.line.take count <+: d.line := List.take_prefix _ _
  have hkept : keep (d.line.take count) <+: keep d.line := hprefix.filter _
  have hmarker : keep marker = marker := by decide
  rw [hpart, keep_append, keep_append, keep_ends hlead, List.nil_append, hmarker,
    d.keep_line] at hkept
  exact (List.prefix_append_right_inj marker).mp hkept

theorem Delivery.marked_chars (h : d.Marked count y) :
    ∀ c ∈ y, lineEnd c = true ∨ lineChar c = true := by
  intro c hc
  by_cases hend : lineEnd c = true
  · exact .inl hend
  · have hkept : c ∈ keep y := List.mem_filter.mpr ⟨hc, by simp [hend]⟩
    exact .inr (d.chars c ((Delivery.marked_keep h).subset hkept))

theorem no_marker {y after : List UInt8} (hchars : ∀ c ∈ y, lineEnd c = true ∨ lineChar c = true)
    (hafter : ¬ marker <:+: after) (hclosed : after ≠ [] → closed y = true) :
    ¬ marker <:+: y ++ after := by
  rintro ⟨u, w, h⟩
  have hletter : ∀ c ∈ y, c ≠ 0x43 := by
    intro c hc hletter
    have hkind := hchars c hc
    rw [hletter] at hkind
    exact absurd hkind (by decide)
  rw [List.append_assoc, List.append_eq_append_iff] at h
  rcases h with ⟨inside, hy, hrest⟩ | ⟨inside, hu, hrest⟩
  · -- the marker starts in the line, so its second byte is there too or follows it
    have hmarker : marker ++ w = plus :: 0x43 :: (marker.drop 2 ++ w) := rfl
    rw [hmarker] at hrest
    match inside, hrest with
    | [], hrest => exact hafter ⟨[], w, by rw [List.nil_append]; exact hrest⟩
    | [c], hrest =>
      obtain ⟨rfl, hnext⟩ := List.cons.inj hrest
      have hsome : after ≠ [] := by
        rintro rfl
        cases hnext
      have hlast := hclosed hsome
      rw [hy, closed] at hlast
      simp at hlast
      exact absurd hlast (by decide)
    | c :: e :: more, hrest =>
      obtain ⟨_, hnext⟩ := List.cons.inj hrest
      obtain ⟨rfl, _⟩ := List.cons.inj hnext
      exact hletter _ (by rw [hy]; simp) rfl
  · exact hafter ⟨inside, w, by rw [List.append_assoc]; exact hrest.symm⟩

/-- The bytes of a buffer, as a C string, once the marker of the line is in it. -/
theorem Delivery.marked_response (h : d.Marked count y) :
    ∃ lead more, cString (d.buffer count) = d.before ++ (lead ++ (marker ++ (y ++ more))) ∧
      (∀ c ∈ lead, lineEnd c = true) ∧ more <+: d.after ∧ (more ≠ [] → closed y = true) := by
  have hchars := Delivery.marked_chars h
  obtain ⟨hbefore, lead, hpart, hlead⟩ := h
  refine ⟨lead, cString (d.after.take (count-d.line.length)), ?_, hlead, ?_, ?_⟩
  · have hclean : 0 ∉ d.line.take count := by
      rw [hpart]
      simp only [List.mem_append, not_or]
      refine ⟨fun hin => absurd (hlead 0 hin) (by decide), by decide, fun hin => ?_⟩
      exact absurd (hchars 0 hin) (by decide)
    rw [Delivery.buffer, HttpFiles.cString_clean _ hbefore, List.take_append,
      HttpFiles.cString_clean _ hclean, hpart]
    simp only [List.append_assoc]
  · exact (List.takeWhile_prefix _).trans (List.take_prefix _ _)
  · intro hmore
    -- something behind the line is there, so all of the line is
    have hall : d.line.length ≤ count := by
      by_contra hshort
      rw [Nat.sub_eq_zero_of_le (by omega), List.take_zero] at hmore
      exact hmore rfl
    rw [List.take_of_length_le hall] at hpart
    have hlast : closed d.line = true := by
      rw [closed, Delivery.line, List.getLast?_append_of_ne_nil _ d.someEnd,
        List.getLast?_eq_some_getLast d.someEnd]
      exact d.onlyEnds _ (List.getLast_mem d.someEnd)
    rw [hpart, ← List.append_assoc, closed, List.getLast?_append] at hlast
    cases hy : y.getLast? with
    | some c =>
      rw [hy] at hlast
      rw [closed, hy]
      exact hlast
    | none =>
      rw [hy] at hlast
      simp [marker, ascii, List.getLast?_append] at hlast
      exact absurd hlast (by decide)

theorem continues_front {more after : List UInt8} (h : more <+: after)
    (hafter : continues after = false) : continues more = false := by
  obtain ⟨rest, rfl⟩ := h
  match more, hafter with
  | [], _ => rfl
  | [c], hafter =>
    by_cases hplus : c = plus
    · rw [continues, if_pos hplus]
      rfl
    · rw [continues, if_neg hplus]
      rw [List.singleton_append, continues, if_neg hplus] at hafter
      exact hafter
  | c :: e :: more, hafter => exact hafter

theorem head_front {more after : List UInt8} (h : more <+: after)
    (hafter : ∀ c ∈ after.head?, lineEnd c = false) : ∀ c ∈ more.head?, lineEnd c = false := by
  obtain ⟨rest, rfl⟩ := h
  cases more with
  | nil => exact nofun
  | cons c more => exact hafter

theorem Delivery.parse_marked (hreads : ReadsDecimals strtof value) (h : d.Marked count y) :
    parseClbsFromResponse strtof zero (cString (d.buffer count)) = some v ↔
      ShownLine value zero y v := by
  have hchars := Delivery.marked_chars h
  have hkept := Delivery.marked_keep h
  obtain ⟨lead, more, hresponse, hlead, hmore, hclosed⟩ := Delivery.marked_response h
  have hunmarked : ¬ marker <:+: y ++ more :=
    no_marker hchars (fun hin => d.noMarker (hin.trans hmore.isInfix)) hclosed
  have hfound : findLast (cString (d.buffer count)) marker = some (marker ++ (y ++ more)) := by
    rw [hresponse]
    exact findLastFrom_before hlead hunmarked 0 (Nat.zero_le _)
  have hsame : clbsCollapseLine 89 (y ++ more) = clbsCollapseLine 89 y := by
    by_cases hnone : more = []
    · rw [hnone, List.append_nil]
    · exact collapse_append 89 (hclosed hnone) (head_front hmore d.newStart)
        (continues_front hmore d.newText)
  have hlines : LineChars (clbsCollapseLine 89 y).1 := fun c hc =>
    d.chars c (hkept.subset ((collapse_front 89 y).subset hc))
  rw [parseClbsFromResponse, hfound]
  dsimp only
  rw [collapse_marker, hsame]
  dsimp only
  constructor
  · intro hread
    split_ifs at hread with hend
    have htext := (readLine_lineText hreads hlines).mp hread
    have hstitched : stitched y = true := by
      by_contra htorn
      obtain ⟨w, hw⟩ := collapse_torn 89 hchars (Bool.eq_false_iff.mpr htorn) hend
      obtain ⟨rest, hbody⟩ := hkept
      have hwhole : LineText zero value d.body d.reading := .complete d.complete
      rw [← hbody, hw, List.append_assoc, List.cons_append] at hwhole
      exact lineText_sign htext hwhole
    have hclosed : closed y = true := by
      by_contra hopen
      rw [collapse_open 89 hstitched (.inl (Bool.eq_false_iff.mpr hopen))] at hend
      cases hend
    have hshort : (keep y).length < 89 := by
      by_contra hlong
      rw [collapse_open 89 hstitched (.inr (Nat.le_of_not_lt hlong))] at hend
      cases hend
    rw [collapse_closed 89 hstitched hclosed hshort] at htext
    refine ⟨hstitched, hclosed, ?_, htext⟩
    rw [List.length_append]
    show 6+(keep y).length < 95
    omega
  · rintro ⟨hstitched, hclosed, hshort, htext⟩
    rw [List.length_append] at hshort
    have hroom : (keep y).length < 89 := by
      have hsix : marker.length = 6 := rfl
      have hsize : bufSize = 96 := rfl
      omega
    rw [collapse_closed 89 hstitched hclosed hroom] at hlines ⊢
    rw [if_pos rfl]
    exact (readLine_lineText hreads hlines).mpr htext

theorem marked_unique {y' : List UInt8} (h : d.Marked count y) (h' : d.Marked count y') :
    y = y' := by
  obtain ⟨_, lead, hpart, hlead⟩ := h
  obtain ⟨_, lead', hpart', hlead'⟩ := h'
  have hdrop : ∀ {lead y : List UInt8}, (∀ c ∈ lead, lineEnd c = true) →
      (lead ++ (marker ++ y)).dropWhile lineEnd = marker ++ y := by
    intro lead y hlead
    rw [List.dropWhile_append_of_pos hlead]
    exact List.dropWhile_cons_of_neg (by decide)
  have hsame := congrArg (List.dropWhile lineEnd) (hpart.symm.trans hpart')
  rw [hdrop hlead, hdrop hlead'] at hsame
  exact List.append_cancel_left hsame

theorem Delivery.parse_iff (hreads : ReadsDecimals strtof value) :
    parseClbsFromResponse strtof zero (cString (d.buffer count)) = some v ↔
      d.Shows zero strtof count v := by
  rw [Delivery.Shows]
  by_cases hmarked : ∃ y, d.Marked count y
  · obtain ⟨y, hy⟩ := hmarked
    rw [Delivery.parse_marked hreads hy]
    constructor
    · intro h
      exact .inl ⟨y, hy, h⟩
    · rintro (⟨y', hy', h⟩ | ⟨hno, _⟩)
      · exact marked_unique hy hy' ▸ h
      · exact absurd ⟨y, hy⟩ hno
  · constructor
    · intro h
      exact .inr ⟨hmarked, parse_lastLine.mp h⟩
    · rintro (⟨y, hy, _⟩ | ⟨_, h⟩)
      · exact absurd ⟨y, hy⟩ hmarked
      · exact parse_lastLine.mpr h

def Delivery.Faithful (d : Delivery value) (reported : Except Error (Location F)) : Prop :=
  ∀ location, reported = .ok location → d.reading.status = 0 ∧
    location = ⟨d.reading.latitude, d.reading.longitude, d.reading.accuracy⟩

/-- The buffer shows no line of status zero but the one that arrives. -/
def Delivery.Safe (zero : F) (strtof : Strtof F) (d : Delivery value) (count : ℕ) : Prop :=
  ∀ v, d.Shows zero strtof count v → v.status = 0 → v = d.reading

/-- A buffer that has all of the line, its marker in one piece, shows that line
only. -/
theorem Delivery.whole_safe (hall : d.line.length ≤ count) (h : d.Marked count y) :
    d.Safe zero strtof count := by
  have hwhole : keep y = d.body := by
    obtain ⟨_, lead, hpart, hlead⟩ := h
    have hkept := congrArg keep hpart
    have hmarker : keep marker = marker := by decide
    rw [List.take_of_length_le hall, d.keep_line, keep_append, keep_ends hlead, List.nil_append,
      keep_append, hmarker] at hkept
    exact (List.append_cancel_left hkept).symm
  rintro v (⟨y', hy', hshown⟩ | ⟨hno, _⟩) _
  · have htext := hshown.text
    rw [← marked_unique h hy', hwhole] at htext
    exact lineText_unique htext (.complete d.complete)
  · exact absurd ⟨y, h⟩ hno

/-- A reading is reported faithfully when its status is not zero or it is that
of the line. -/
theorem Delivery.faithful_reading (d : Delivery value) (r : Reading F) :
    d.Faithful (if r.status ≠ 0 then .error .parse
      else .ok ⟨r.latitude, r.longitude, r.accuracy⟩) ↔ (r.status = 0 → r = d.reading) := by
  by_cases hstatus : r.status = 0
  · rw [if_neg (not_not.mpr hstatus)]
    constructor
    · intro h _
      obtain ⟨hzero, hsame⟩ := h _ rfl
      obtain ⟨hla, hlo, hac⟩ := Location.mk.inj hsame
      cases r
      cases hd : d.reading
      rw [hd] at hzero hla hlo hac
      simp_all
    · rintro h location hreported
      obtain rfl := Except.ok.inj hreported
      rw [← h hstatus]
      exact ⟨hstatus, rfl⟩
  · rw [if_pos hstatus]
    exact iff_of_true nofun fun hzero => absurd hzero hstatus

/-- The location that is reported is that of the line exactly when neither buffer
that is read shows another line of status zero: the first one, and the second
one when the first shows none. -/
theorem location_faithful (hreads : ReadsDecimals strtof value) (d : Delivery value)
    (sent : ModemAt.Result) (first second : ℕ) :
    d.Faithful (getCellLocation strtof zero sent (d.buffer first) (d.buffer second)) ↔
      (sent = .ok → d.Safe zero strtof first ∧
        ((∀ v, ¬ d.Shows zero strtof first v) → d.Safe zero strtof second)) := by
  have hfirst : ∀ v, parseClbsFromResponse strtof zero (cString (d.buffer first)) = some v ↔
      d.Shows zero strtof first v := fun v => Delivery.parse_iff hreads
  have hsecond : ∀ v, parseClbsFromResponse strtof zero (cString (d.buffer second)) = some v ↔
      d.Shows zero strtof second v := fun v => Delivery.parse_iff hreads
  by_cases hsent : sent = .ok
  · rw [getCellLocation, if_neg (not_not.mpr hsent)]
    simp only [hsent, true_imp_iff, Delivery.Safe, ← hfirst, ← hsecond]
    cases hread : parseClbsFromResponse strtof zero (cString (d.buffer first)) with
    | some r =>
      rw [Option.some_or]
      refine (d.faithful_reading r).trans ⟨fun h => ⟨?_, ?_⟩, fun h => h.1 r rfl⟩
      · rintro v hv
        exact Option.some.inj hv ▸ h
      · exact fun hnone => absurd rfl (hnone r)
    | none =>
      rw [Option.none_or]
      have hempty : ∀ v, (none : Option (Reading F)) ≠ some v := nofun
      cases hmore : parseClbsFromResponse strtof zero (cString (d.buffer second)) with
      | none => exact iff_of_true nofun ⟨fun v hv => absurd hv (hempty v),
          fun _ v hv => absurd hv (hempty v)⟩
      | some r =>
        refine (d.faithful_reading r).trans
          ⟨fun h => ⟨fun v hv => absurd hv (hempty v), ?_⟩, fun h => h.2 hempty r rfl⟩
        rintro _ v hv
        exact Option.some.inj hv ▸ h
  · rw [getCellLocation, if_pos hsent]
    exact iff_of_true nofun fun heq => absurd heq hsent

def decimalValue (text : List UInt8) : ℚ :=
  let digits := GpsNmea.digitsValue (text.filter isDigit)
  let places := (text.dropWhile fun c => c ≠ point).length-1
  (if text.head? = some minus then -1 else 1)*digits/10^places

def brokenLine : Delivery decimalValue where
  before := ascii "OK" ++ [13, 10]
  body := ascii " 0" ++ comma :: (ascii "50.274372" ++ comma :: (ascii "19.124077" ++
    comma :: ascii "550"))
  reading := ⟨0, decimalValue (ascii "50.274372"), decimalValue (ascii "19.124077"), 550⟩
  broken := ascii "+CLBS: 0,50.274372,19.12" ++ [13, 10] ++ ascii "4077,550"
  ends := [13, 10]
  after := []
  chars := List.all_eq_true.mp rfl
  complete := .full (by decide) rfl rfl (by decide)
  pieces := by decide
  someEnd := by decide
  onlyEnds := List.all_eq_true.mp rfl
  newStart := nofun
  newText := by decide
  noMarker := by decide

/-- The line is read once all of it is there. -/
theorem broken_line_read : brokenLine.Faithful (getCellLocation (decimals decimalValue) 0 .ok
    (brokenLine.buffer 20) (brokenLine.buffer 60)) := by
  have hfirst : parseClbsFromResponse (decimals decimalValue) 0
      (cString (brokenLine.buffer 20)) = none := by decide +kernel
  have hmarked : brokenLine.Marked 60 (brokenLine.line.drop 6) :=
    ⟨by decide, [], by decide, nofun⟩
  refine (location_faithful (fun _ _ => rfl) brokenLine .ok 20 60).mpr fun _ => ⟨?_, fun _ => ?_⟩
  · intro v hv
    rw [← Delivery.parse_iff (fun _ _ => rfl), hfirst] at hv
    cases hv
  · exact Delivery.whole_safe (by decide) hmarked

/-- Behind its break the longitude is taken as whole. -/
theorem broken_line_cut : getCellLocation (decimals decimalValue) 0 .ok (brokenLine.buffer 26)
      (brokenLine.buffer 60) = .ok ⟨50274372/1000000, 1912/100, -1⟩ ∧
    ¬ brokenLine.Faithful (getCellLocation (decimals decimalValue) 0 .ok (brokenLine.buffer 26)
      (brokenLine.buffer 60)) := by
  have hcut : getCellLocation (decimals decimalValue) 0 .ok (brokenLine.buffer 26)
      (brokenLine.buffer 60) = .ok ⟨50274372/1000000, 1912/100, -1⟩ := by decide +kernel
  refine ⟨hcut, fun h => ?_⟩
  have hsame := (h _ hcut).2
  have haccuracy : (-1 : ℤ) = 550 := congrArg Location.accuracy hsame
  exact absurd haccuracy (by decide)

end JaszczurHal.CellLocation
