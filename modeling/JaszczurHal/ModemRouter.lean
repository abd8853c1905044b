import JaszczurHal.HttpFiles
import JaszczurHal.ModemAt

/-!
# The line router of the AT engine

The lines of the stream do not depend on the calls that receive it, as long as no
call throws away a line that is half received and no line holds a NUL.
-/

set_option autoImplicit false

namespace JaszczurHal.ModemAt
open StepRuns
open WebSocketHandshake (ascii cString)

def runs (text : List UInt8) : List (List UInt8) := text.splitOnP lineEnd

/-- The complete lines of a stream: its non-empty runs, cut to the line buffer. -/
def linesOf (c : Config) (text : List UInt8) : List (List UInt8) :=
  ((runs text).dropLast.map fun line => line.take (c.lineMax-1)).filter fun line => line ≠ []

def openRun (text : List UInt8) : List UInt8 := (runs text).getLast?.getD []

def handedLines (log : List Event) : List (List UInt8) :=
  log.filterMap fun event => match event with
    | .observed line => some line
    | _ => none

def handledLines (u : Urc) (log : List Event) : List (List UInt8) :=
  log.filterMap fun event => match event with
    | .handled other line => if other = u then some line else none
    | _ => none

theorem runs_ne_nil (text : List UInt8) : runs text ≠ [] := List.splitOnP_ne_nil _ _

theorem runs_end {b : UInt8} (text : List UInt8) (h : lineEnd b = true) :
    runs (text ++ [b]) = runs text ++ [[]] := by
  unfold runs
  rw [List.splitOnP_append_cons _ _ h, List.splitOnP_nil]

theorem runs_open {b : UInt8} (text : List UInt8) (h : lineEnd b = false) :
    runs (text ++ [b]) = (runs text).dropLast ++ [openRun text ++ [b]] := by
  induction text with
  | nil => simp [openRun, runs, List.splitOnP_cons_eq_if_modifyHead, h]
  | cons a text ih =>
    unfold openRun at ih ⊢
    unfold runs at ih ⊢
    rw [List.cons_append, List.splitOnP_cons_eq_if_modifyHead, ih,
      List.splitOnP_cons_eq_if_modifyHead]
    cases hruns : text.splitOnP lineEnd with
    | nil => exact absurd hruns (runs_ne_nil text)
    | cons first more =>
      by_cases ha : lineEnd a = true
      · simp [ha]
      · cases more with
        | nil => simp [ha]
        | cons second more => simp [ha]

theorem runs_split (text : List UInt8) : runs text = (runs text).dropLast ++ [openRun text] := by
  have hlast := List.dropLast_append_getLast (runs_ne_nil text)
  rw [openRun, List.getLast?_eq_some_getLast (runs_ne_nil text)]
  exact hlast.symm

theorem openRun_end {b : UInt8} (text : List UInt8) (h : lineEnd b = true) :
    openRun (text ++ [b]) = [] := by
  simp [openRun, runs_end text h]

theorem openRun_open {b : UInt8} (text : List UInt8) (h : lineEnd b = false) :
    openRun (text ++ [b]) = openRun text ++ [b] := by
  simp [openRun, runs_open text h]

def newLine (c : Config) (text : List UInt8) : List (List UInt8) :=
  if (openRun text).take (c.lineMax-1) = [] then [] else [(openRun text).take (c.lineMax-1)]

theorem linesOf_end {b : UInt8} (c : Config) (text : List UInt8) (h : lineEnd b = true) :
    linesOf c (text ++ [b]) = linesOf c text ++ newLine c text := by
  unfold linesOf newLine
  rw [runs_end text h, List.dropLast_concat]
  conv_lhs => rw [runs_split text]
  by_cases hcut : (openRun text).take (c.lineMax-1) = []
  · simp [hcut]
  · simp [hcut]

theorem linesOf_open {b : UInt8} (c : Config) (text : List UInt8) (h : lineEnd b = false) :
    linesOf c (text ++ [b]) = linesOf c text := by
  simp [linesOf, runs_open text h]

theorem linesOf_append (c : Config) (text more : List UInt8) :
    linesOf c text <+: linesOf c (text ++ more) := by
  induction more using List.reverseRecOn with
  | nil => simp
  | append_singleton more b ih =>
    rw [← List.append_assoc]
    cases hb : lineEnd b with
    | true =>
      rw [linesOf_end c _ hb]
      exact ih.trans (List.prefix_append _ _)
    | false =>
      rw [linesOf_open c _ hb]
      exact ih

def Plain (c : Config) (text : List UInt8) : Prop := ∀ line ∈ linesOf c text, 0 ∉ line

theorem linesOf_nonempty {c : Config} {text line : List UInt8} (h : line ∈ linesOf c text) :
    line ≠ [] := by
  simpa using List.of_mem_filter h

theorem handed_append (log more : List Event) :
    handedLines (log ++ more) = handedLines log ++ handedLines more :=
  List.filterMap_append

theorem handled_append (u : Urc) (log more : List Event) :
    handledLines u (log ++ more) = handledLines u log ++ handledLines u more :=
  List.filterMap_append

theorem handed_handlers (urcs : List Urc) (line : List UInt8) :
    handedLines (urcs.map fun u => Event.handled u line) = [] := by
  simp [handedLines]

theorem handled_handlers {u : Urc} {urcs : List Urc} (hdistinct : urcs.Nodup)
    (line : List UInt8) : handledLines u (urcs.map fun u => Event.handled u line) =
      if u ∈ urcs then [line] else [] := by
  induction urcs with
  | nil => simp [handledLines]
  | cons other urcs ih =>
    obtain ⟨hnew, hrest⟩ := List.nodup_cons.mp hdistinct
    have hih := ih hrest
    unfold handledLines at hih ⊢
    rw [List.map_cons, List.filterMap_cons]
    by_cases hsame : other = u
    · subst hsame
      simp only [if_neg hnew] at hih
      simp [hih]
    · simp [hsame, Ne.symm hsame, hih]

theorem handed_dispatch (r : Router) {line : List UInt8} (hne : line ≠ []) (hplain : 0 ∉ line) :
    handedLines (dispatchLine r line) = if r.hasObserver then [line] else [] := by
  unfold dispatchLine
  rw [HttpFiles.cString_plain hplain, if_neg hne, handed_append, handed_handlers]
  split_ifs
  · simp [handedLines]
  · simp [handedLines]

theorem handled_dispatch {r : Router} {u : Urc} (hu : u ∈ r.urcs) {line : List UInt8}
    (hne : line ≠ []) (hplain : 0 ∉ line) :
    handledLines u (dispatchLine r line) =
      [line].filter fun line => u.urcPrefix.isPrefixOf line := by
  have hdistinct : (r.urcs.filter fun u => u.urcPrefix.isPrefixOf line).Nodup :=
    (List.Nodup.of_map Urc.urcPrefix r.distinct).filter _
  have hobserver : handledLines u (if r.hasObserver then [.observed line] else []) = [] := by
    split_ifs
    · simp [handledLines]
    · simp [handledLines]
  unfold dispatchLine
  rw [HttpFiles.cString_plain hplain, if_neg hne, handled_append, handled_handlers hdistinct,
    hobserver]
  by_cases hleads : u.urcPrefix.isPrefixOf line = true
  · simp [hleads, hu]
  · simp [hleads]

def PlainLines (lines : List (List UInt8)) : Prop := ∀ line ∈ lines, line ≠ [] ∧ 0 ∉ line

theorem handed_lines (r : Router) {lines : List (List UInt8)} (h : PlainLines lines) :
    handedLines (lines.flatMap (dispatchLine r)) = if r.hasObserver then lines else [] := by
  induction lines with
  | nil => simp [handedLines]
  | cons line lines ih =>
    have hline := h line (List.mem_cons_self ..)
    have hrest := ih fun other hother => h other (List.mem_cons_of_mem _ hother)
    rw [List.flatMap_cons, handed_append, handed_dispatch r hline.1 hline.2, hrest]
    split_ifs
    · rfl
    · rfl

theorem handled_lines {r : Router} {u : Urc} (hu : u ∈ r.urcs) {lines : List (List UInt8)}
    (h : PlainLines lines) :
    handledLines u (lines.flatMap (dispatchLine r)) =
      lines.filter fun line => u.urcPrefix.isPrefixOf line := by
  induction lines with
  | nil => simp [handledLines]
  | cons line lines ih =>
    have hline := h line (List.mem_cons_self ..)
    have hrest := ih fun other hother => h other (List.mem_cons_of_mem _ hother)
    rw [List.flatMap_cons, handled_append, handled_dispatch hu hline.1 hline.2, hrest,
      ← List.filter_append]
    rfl

def deliveries (log : List Event) : List Event :=
  log.filter fun event => match event with
    | .written _ => false
    | _ => true

theorem deliveries_append (log more : List Event) :
    deliveries (log ++ more) = deliveries log ++ deliveries more :=
  List.filter_append _ _

theorem deliveries_written (writes : List (List UInt8)) :
    deliveries (writes.map Event.written) = [] := by
  simp [deliveries]

theorem deliveries_dispatch (r : Router) (line : List UInt8) :
    deliveries (dispatchLine r line) = dispatchLine r line := by
  unfold deliveries dispatchLine
  apply List.filter_eq_self.mpr
  intro event hevent
  split_ifs at hevent
  · simp at hevent
  all_goals
    simp only [List.append_nil, List.mem_append, List.mem_map, List.mem_singleton] at hevent
    grind

theorem handed_deliveries (log : List Event) : handedLines (deliveries log) = handedLines log := by
  induction log with
  | nil => rfl
  | cons event log ih =>
    cases event with
    | written data => exact ih
    | handled u line => exact ih
    | observed line => exact congrArg (line :: ·) ih

theorem handled_deliveries (u : Urc) (log : List Event) :
    handledLines u (deliveries log) = handledLines u log := by
  induction log with
  | nil => rfl
  | cons event log ih =>
    cases event with
    | written data => exact ih
    | observed line => exact ih
    | handled other line =>
      unfold handledLines deliveries at ih ⊢
      by_cases hsame : other = u
      · simpa [hsame] using ih
      · simpa [hsame] using ih

structure Routed (c : Config) (r : Router) (e : Engine) : Prop where
  openLine : e.lineBuf = (openRun e.stream).take (c.lineMax-1)
  dispatched : deliveries e.log = (linesOf c e.stream).flatMap (dispatchLine r)

theorem Routed.newLine {c : Config} {r : Router} {e : Engine} (h : Routed c r e) :
    newLine c e.stream = if e.lineBuf = [] then [] else [e.lineBuf] := by
  rw [h.openLine]
  rfl

/-- A line end hands the line buffer out, if it holds anything. -/
theorem absorbByte_end {c : Config} {r : Router} {e : Engine} {b : UInt8}
    (h : Routed c r e) (hb : lineEnd b = true) : Routed c r (absorbByte c r e b) := by
  have hlines := linesOf_end c e.stream hb
  rw [h.newLine] at hlines
  constructor
  · simp [absorbByte, hb, openRun_end _ hb]
  · by_cases hopen : e.lineBuf = []
    · rw [if_pos hopen, List.append_nil] at hlines
      simpa [absorbByte, hopen, hlines] using h.dispatched
    · rw [if_neg hopen] at hlines
      simp only [absorbByte, hb, ne_eq, hopen, not_false_eq_true, and_self, if_true, hlines,
        deliveries_append, deliveries_dispatch, h.dispatched, List.flatMap_append,
        List.flatMap_singleton]

theorem absorbByte_open {c : Config} {r : Router} {e : Engine} {b : UInt8}
    (h : Routed c r e) (hb : lineEnd b = false) : Routed c r (absorbByte c r e b) := by
  constructor
  · simp only [absorbByte, hb, Bool.false_eq_true, if_false, openRun_open _ hb,
      List.take_append, h.openLine, List.length_take]
    split_ifs with hroom
    · have hone : 0 < c.lineMax-1-(openRun e.stream).length := by omega
      rw [List.take_of_length_le (l := [b]) hone]
    · have hnone : c.lineMax-1-(openRun e.stream).length = 0 := by omega
      rw [hnone, List.take_zero, List.append_nil]
  · simpa [absorbByte, hb, linesOf_open c _ hb] using h.dispatched

theorem absorb_stream (c : Config) (r : Router) (e : Engine) (bytes : List UInt8) :
    (absorb c r e bytes).stream = e.stream ++ bytes := by
  induction bytes generalizing e with
  | nil => simp [absorb]
  | cons b bytes ih =>
    have hrest := ih (absorbByte c r e b)
    simpa [absorb, absorbByte] using hrest

theorem absorb_routed {c : Config} {r : Router} {e : Engine} (bytes : List UInt8)
    (h : Routed c r e) : Routed c r (absorb c r e bytes) := by
  induction bytes generalizing e with
  | nil => exact h
  | cons b bytes ih =>
    have hbyte : Routed c r (absorbByte c r e b) := by
      cases hb : lineEnd b with
      | true => exact absorbByte_end h hb
      | false => exact absorbByte_open h hb
    exact ih hbyte

theorem moves_stream {c : Config} {r : Router} {e after : Engine} {arriving : List UInt8}
    (h : Moves c r e after arriving) :
    e.stream <+: after.stream ∧
      after.stream ++ after.uart = e.stream ++ e.uart ++ arriving := by
  obtain ⟨consumed, rest, writes, huart, rfl⟩ := h
  constructor
  · simp [absorb_stream]
  · simp [absorb_stream, huart]

theorem moves_routed {c : Config} {r : Router} {e after : Engine} {arriving : List UInt8}
    (h : Moves c r e after arriving) (he : Routed c r e) : Routed c r after := by
  obtain ⟨consumed, rest, writes, huart, rfl⟩ := h
  have habsorbed := absorb_routed consumed he
  constructor
  · exact habsorbed.openLine
  · simpa [deliveries_append, deliveries_written] using habsorbed.dispatched

theorem reset_routed {c : Config} {r : Router} {e : Engine} (h : Routed c r e)
    (hempty : e.lineBuf = []) : Routed c r (resetRx e) := by
  constructor
  · simpa [resetRx, hempty] using h.openLine
  · exact h.dispatched

/-- A call that resets the receive side finds no line half received. -/
def BetweenLines (s : State) (i : Input) : Prop := resets s i = true → s.engine.lineBuf = []

instance (s : State) (i : Input) : Decidable (BetweenLines s i) :=
  inferInstanceAs (Decidable (resets s i = true → s.engine.lineBuf = []))

theorem step_stream (c : Config) (r : Router) (s : State) (i : Input) :
    s.engine.stream <+: (step c r s i).engine.stream ∧
      (step c r s i).engine.stream ++ (step c r s i).engine.uart =
        s.engine.stream ++ s.engine.uart ++ arrived i := by
  cases step_moves c r s i with
  | inl hmoves => exact moves_stream hmoves
  | inr hreset => simpa [resetRx] using moves_stream hreset.2

theorem step_routed {c : Config} {r : Router} (s : State) (i : Input) (h : Routed c r s.engine)
    (hbetween : BetweenLines s i) : Routed c r (step c r s i).engine := by
  cases step_moves c r s i with
  | inl hmoves => exact moves_routed hmoves h
  | inr hreset =>
    have hempty := hbetween hreset.1
    exact moves_routed hreset.2 (reset_routed h hempty)

theorem start_routed (c : Config) (r : Router) : Routed c r start.engine := by
  constructor
  · simp [start, openRun, runs]
  · simp [start, deliveries, linesOf, runs]

theorem run_stream (c : Config) (r : Router) (s : State) (inputs : List Input) :
    (runFrom (step c r) s inputs).engine.stream ++ (runFrom (step c r) s inputs).engine.uart =
      s.engine.stream ++ s.engine.uart ++ (inputs.map arrived).flatten := by
  induction inputs generalizing s with
  | nil => simp [runFrom]
  | cons i inputs ih =>
    have hrest := ih (step c r s i)
    rw [(step_stream c r s i).2] at hrest
    simpa [runFrom] using hrest

theorem absorb_log (c : Config) (r : Router) (e : Engine) (bytes : List UInt8) :
    e.log <+: (absorb c r e bytes).log := by
  induction bytes generalizing e with
  | nil => exact List.prefix_rfl
  | cons b bytes ih => exact (List.prefix_append e.log _).trans (ih (absorbByte c r e b))

theorem moves_log {c : Config} {r : Router} {e after : Engine} {arriving : List UInt8}
    (h : Moves c r e after arriving) : e.log <+: after.log := by
  obtain ⟨consumed, rest, writes, _, rfl⟩ := h
  exact (absorb_log c r e consumed).trans (List.prefix_append _ _)

theorem step_log (c : Config) (r : Router) (s : State) (i : Input) :
    s.engine.log <+: (step c r s i).engine.log := by
  cases step_moves c r s i with
  | inl hmoves => exact moves_log hmoves
  | inr hreset => simpa [resetRx] using moves_log hreset.2

theorem step_dispatches {c : Config} {r : Router} {s : State} {i : Input}
    (h : Routed c r s.engine) (hafter : Routed c r (step c r s i).engine) :
    ∃ lines, linesOf c (step c r s i).engine.stream = linesOf c s.engine.stream ++ lines ∧
      deliveries ((step c r s i).engine.log.drop s.engine.log.length) =
        lines.flatMap (dispatchLine r) := by
  obtain ⟨more, hmore⟩ := (step_stream c r s i).1
  obtain ⟨lines, hlines⟩ := linesOf_append c s.engine.stream more
  obtain ⟨events, hevents⟩ := step_log c r s i
  refine ⟨lines, by rw [← hmore, hlines], ?_⟩
  have hall := hafter.dispatched
  rw [← hmore, ← hlines, ← hevents, deliveries_append, h.dispatched, List.flatMap_append] at hall
  rw [← hevents, List.drop_left]
  exact List.append_cancel_left hall

/-- In a run whose calls reset the receive side between lines only, the observer
and the handlers get the lines that the stream has, whatever the calls make of
the stream. -/
theorem lines_routed (c : Config) (r : Router) (inputs : List Input)
    (hbetween : Along (step c r) BetweenLines start inputs)
    (hplain : Plain c (runFrom (step c r) start inputs).engine.stream) :
    handedLines (runFrom (step c r) start inputs).engine.log =
        (if r.hasObserver then linesOf c (runFrom (step c r) start inputs).engine.stream else []) ∧
      (∀ u ∈ r.urcs, handledLines u (runFrom (step c r) start inputs).engine.log =
        (linesOf c (runFrom (step c r) start inputs).engine.stream).filter
          fun line => u.urcPrefix.isPrefixOf line) ∧
      (runFrom (step c r) start inputs).engine.stream ++ (runFrom (step c r) start inputs).engine.uart =
        (inputs.map arrived).flatten := by
  have hrouted : Routed c r (runFrom (step c r) start inputs).engine :=
    along_run (J := fun s : State => Routed c r s.engine) step_routed (start_routed c r) hbetween
  have hlines : PlainLines (linesOf c (runFrom (step c r) start inputs).engine.stream) := by
    intro line hline
    exact ⟨linesOf_nonempty hline, hplain line hline⟩
  constructor
  · rw [← handed_deliveries, hrouted.dispatched]
    exact handed_lines r hlines
  constructor
  · intro u hu
    rw [← handled_deliveries, hrouted.dispatched]
    exact handled_lines hu hlines
  · simpa [start] using run_stream c r start inputs

def defaultConfig : Config := ⟨512, 256, 1000, 250, by decide⟩

def registration : Urc := ⟨ascii "+CREG:", 0⟩

def oneHandler : Router := ⟨[some registration], true, by decide, by decide⟩

def wholeLine : List Input :=
  [.arrive (ascii "+CRE"), .urcPoll, .arrive (ascii "G: 1" ++ [13, 10]), .urcPoll,
    .issue (.send (ascii "AT") none 0)]

theorem lines_routed_whole :
    handledLines registration (runFrom (step defaultConfig oneHandler) start wholeLine).engine.log =
      [ascii "+CREG: 1"] := by
  have hbetween : Along (step defaultConfig oneHandler) BetweenLines start wholeLine := by
    decide +kernel
  have hplain : Plain defaultConfig (runFrom (step defaultConfig oneHandler) start wholeLine).engine.stream := by
    unfold Plain
    decide +kernel
  rw [(lines_routed defaultConfig oneHandler wholeLine hbetween hplain).2.1 registration (by decide)]
  decide +kernel

/-- The command is issued between the two parts: the first one is thrown away, and
the second one is handed out as a line. -/
theorem half_line_lost :
    let s := runFrom (step defaultConfig oneHandler) start
      [.arrive (ascii "+CRE"), .urcPoll, .arrive (ascii "G: 1" ++ [13, 10]),
        .issue (.send (ascii "AT") none 0)]
    linesOf defaultConfig s.engine.stream = [ascii "+CREG: 1"] ∧
      handedLines s.engine.log = [ascii "G: 1"] ∧
      handledLines registration s.engine.log = [] := by
  decide +kernel

end JaszczurHal.ModemAt
