import JaszczurHal.BondCodec
import JaszczurHal.GamepadReport

/-!
# The gamepad over a HID connection

The HID layer queues reports and keeps the descriptor. A poll of the gamepad
reads the state of the connection, opens or closes the parser, drains the queue
through it and submits the peer for saving. Events of the backend arrive
between any two locked sections of a poll. The connections are counted, and
reports, descriptor and parser bear the number of theirs.
-/

set_option autoImplicit false

namespace JaszczurHal.GamepadHost
open HalStatus CheckedArith BondCodec GamepadParser GamepadReport

def reportQueueDepth : ℕ := 16

inductive HidState where
  | ready
  | connecting
  | connected
  deriving DecidableEq, Repr

inductive ReportType where
  | input
  | output
  | feature
  deriving DecidableEq, Repr

structure Report where
  type : ReportType
  data : List UInt8
  deriving DecidableEq, Repr

inductive HidEvent where
  | connecting (address : Address)
  | connected (address : Address)
  | descriptor (bytes : List UInt8)
  | report (r : Report)
  | disconnected
  deriving DecidableEq, Repr

inductive Phase where
  | idle
  | sampled (state : HidState) (peer : Address)
  | draining (peer : Address) (status : Status) (validatedNow : Bool)
  | saving (peer : Address) (status : Status)
  | flushing (status : Status)
  | disconnecting (status : Status)
  | halted
  deriving DecidableEq, Repr

/-- A report that the parser accepted: the connection that delivered it, the one
whose descriptor the parser was built from, and the last one that came up. -/
structure Applied where
  report : ℕ
  parser : ℕ
  current : ℕ
  deriving DecidableEq, Repr

structure Host where
  state : HidState
  peer : Address
  link : ℕ
  reports : List (ℕ × Report)
  overflowPending : Bool
  descriptor : Option (ℕ × List UInt8)
  parser : Parser
  parserLink : ℕ
  parserConnected : Bool
  inputValidated : Bool
  peerSaveRequested : Bool
  phase : Phase
  applied : List Applied

def opened : Host where
  state := .ready
  peer := Vector.replicate 6 0
  link := 0
  reports := []
  overflowPending := false
  descriptor := none
  parser := init
  parserLink := 0
  parserConnected := false
  inputValidated := false
  peerSaveRequested := false
  phase := .idle
  applied := []

def hidEvent (h : Host) : HidEvent → Host
  | .connecting address =>
    if h.state = .connected then h else { h with state := .connecting, peer := address }
  | .connected address => { h with state := .connected, peer := address, link := h.link+1 }
  | .descriptor bytes =>
    if bytes.length ≤ descriptorMax then { h with descriptor := some (h.link, bytes) } else h
  | .report r =>
    if h.reports.length = reportQueueDepth then { h with overflowPending := true }
    else { h with reports := h.reports ++ [(h.link, r)] }
  | .disconnected =>
    { h with state := .ready, peer := Vector.replicate 6 0, descriptor := none }

def halt (h : Host) : Host := { h with phase := .halted }

def closeParser (h : Host) : Host :=
  if h.parserConnected then
    match connectionClosed h.parser with
    | .error _ => halt h
    | .ok closed =>
      { h with parser := closed.2, parserConnected := false, inputValidated := false
               peerSaveRequested := false }
  else { h with inputValidated := false, peerSaveRequested := false }

def benign (status : Status) : Bool :=
  status = .ok ∨ status = .eoverflow ∨ status = .ebusy ∨ status = .eagain

def finish (h : Host) (status : Status) : Host :=
  if benign status then { h with phase := .idle } else closeParser { h with phase := .idle }

def parserOpened (h : Host) (peer : Address) (link : ℕ) (status : Status) (p : Parser) : Host :=
  { h with parser := p, parserLink := link, parserConnected := status = .ok, inputValidated := false
           peerSaveRequested := false
           phase := if status = .ok then .draining peer .ok false else .disconnecting status }

/-- `open_parser_from_descriptor`; the parser keeps its generation. -/
def openParser (h : Host) (peer : Address) (link : ℕ) (descriptor : List UInt8) : Host :=
  match configure descriptor with
  | .error _ => halt h
  | .ok (status, p) =>
    if status = .ok then
      match connectionOpened { p with current := { p.current with
          generation := h.parser.current.generation } } with
      | .error _ => halt h
      | .ok (status, p) => parserOpened h peer link status p
    else parserOpened h peer link status p

/-- `process_hid` after it has read the state of the connection. A connection
that is not up leaves only the search for others to do. -/
def processSampled (h : Host) (state : HidState) (peer : Address) : Host :=
  if state = .connected then
    if h.parserConnected then { h with phase := .draining peer .ok false }
    else
      match h.descriptor with
      | none => { h with phase := .idle }
      | some (link, bytes) => openParser h peer link bytes
  else if h.parserConnected then closeParser { h with phase := .idle }
  else { h with phase := .idle }

def parseReport (h : Host) (peer : Address) (status : Status) (validatedNow : Bool) (link : ℕ)
    (data : List UInt8) : Host :=
  match parseInput h.parser data with
  | .error _ => halt h
  | .ok (parsed, p) =>
    if parsed = .ok then
      { h with parser := p, inputValidated := true
               phase := .draining peer status (validatedNow || !h.inputValidated)
               applied := h.applied ++ [⟨link, h.parserLink, h.link⟩] }
    else { h with parser := p, phase := .disconnecting parsed }

def drain (h : Host) (peer : Address) (status : Status) (validatedNow : Bool) : Host :=
  if h.overflowPending then
    { h with overflowPending := false, phase := .draining peer .eoverflow validatedNow }
  else
    match h.reports with
    | [] =>
      if validatedNow = true ∧ h.peerSaveRequested = false then
        { h with phase := .saving peer status }
      else finish h status
    | (link, r) :: rest =>
      if r.type ≠ .input ∨ r.data.length = 0 then { h with reports := rest }
      else parseReport { h with reports := rest } peer status validatedNow link r.data

inductive Move where
  | event (e : HidEvent)
  | poll (earlier : Status)
  | advance (status : Status)

def poll (h : Host) (earlier : Status) : Host :=
  if benign earlier then { h with phase := .sampled h.state h.peer } else closeParser h

def advance (h : Host) (status : Status) : Host :=
  match h.phase with
  | .idle => h
  | .sampled state peer => processSampled h state peer
  | .draining peer earlier validatedNow => drain h peer earlier validatedNow
  | .saving _ earlier =>
    if status = .ok then { h with peerSaveRequested := true, phase := .flushing earlier }
    else finish h status
  | .flushing earlier => if status = .ok then finish h earlier else finish h status
  | .disconnecting earlier => finish h earlier
  | .halted => h

def step (h : Host) : Move → Host
  | .event e => hidEvent h e
  | .poll earlier => if h.phase = .idle then poll h earlier else h
  | .advance status => advance h status

def run (h : Host) (moves : List Move) : Host := moves.foldl step h

end JaszczurHal.GamepadHost

namespace JaszczurHal.GamepadBinding
open HalStatus CheckedArith BondCodec GamepadParser GamepadReport GamepadHost

structure Proper (h : Host) : Prop where
  own : ∀ a ∈ h.applied, a.report = a.parser ∧ a.parser = a.current
  submitted : ∀ peer status, h.phase = .saving peer status →
    h.state = .connected ∧ h.peer = peer ∧ ∃ a ∈ h.applied, a.report = h.link

def SaveAhead (h : Host) : Prop :=
  match h.phase with
  | .sampled state _ => state = .connected ∧ h.inputValidated = false
  | .draining _ _ validatedNow => validatedNow = true ∨ h.inputValidated = false
  | .saving _ _ => True
  | _ => False

/-- A connection comes up when no report is queued, no descriptor is stored and
no parser is open; and it neither comes up nor ends while a poll may yet submit
a peer. -/
def Clean (h : Host) : Move → Prop
  | .event (.connected _) =>
    h.reports = [] ∧ h.descriptor = none ∧ h.parserConnected = false ∧ ¬SaveAhead h
  | .event .disconnected => ¬SaveAhead h
  | _ => True

def AllClean (h : Host) : List Move → Prop
  | [] => True
  | m :: moves => Clean h m ∧ AllClean (step h m) moves

def Phase.peer : Phase → Option Address
  | .sampled _ peer => some peer
  | .draining peer _ _ => some peer
  | .saving peer _ => some peer
  | _ => none

structure Bound (h : Host) : Prop where
  own : ∀ a ∈ h.applied, a.report = a.parser ∧ a.parser = a.current
  reports : ∀ r ∈ h.reports, r.1 = h.link
  descriptor : ∀ d, h.descriptor = some d → d.1 = h.link
  parser : h.parserConnected = true → h.parserLink = h.link
  validated : h.parserConnected = false → h.inputValidated = false
  draining : ∀ peer status validatedNow, h.phase = .draining peer status validatedNow →
    h.parserConnected = true ∧ (validatedNow = true → ∃ a ∈ h.applied, a.report = h.link)
  saving : ∀ peer status, h.phase = .saving peer status →
    h.parserConnected = true ∧ ∃ a ∈ h.applied, a.report = h.link
  ahead : SaveAhead h → h.state = .connected ∧ Phase.peer h.phase = some h.peer

theorem bound_proper {h : Host} (hb : Bound h) : Proper h where
  own := hb.own
  submitted := by
    intro peer status hphase
    have hahead : SaveAhead h := by
      rw [SaveAhead, hphase]
      exact trivial
    obtain ⟨hstate, hpeer⟩ := hb.ahead hahead
    rw [hphase] at hpeer
    exact ⟨hstate, (Option.some.inj hpeer).symm, (hb.saving peer status hphase).2⟩

def Phase.resting : Phase → Bool
  | .idle => true
  | .flushing _ => true
  | .disconnecting _ => true
  | .halted => true
  | _ => false

theorem not_saveAhead {h : Host} (hrest : Phase.resting h.phase = true) : ¬SaveAhead h := by
  intro hahead
  rw [SaveAhead] at hahead
  cases hphase : h.phase with
  | idle => rw [hphase] at hahead; exact hahead
  | sampled state peer => rw [hphase] at hrest; cases hrest
  | draining peer status validatedNow => rw [hphase] at hrest; cases hrest
  | saving peer status => rw [hphase] at hrest; cases hrest
  | flushing status => rw [hphase] at hahead; exact hahead
  | disconnecting status => rw [hphase] at hahead; exact hahead
  | halted => rw [hphase] at hahead; exact hahead

/-- Whatever happens to parser and phase, what is kept of the connection stays
bound when the poll comes to rest. -/
theorem bound_resting {h h' : Host} (hb : Bound h) (happlied : h'.applied = h.applied)
    (hlink : h'.link = h.link) (hreports : ∀ r ∈ h'.reports, r ∈ h.reports)
    (hdescriptor : h'.descriptor = h.descriptor)
    (hparser : h'.parserConnected = true → h'.parserLink = h'.link)
    (hvalidated : h'.parserConnected = false → h'.inputValidated = false)
    (hrest : Phase.resting h'.phase = true) : Bound h' where
  own := happlied ▸ hb.own
  reports := by
    intro r hr
    rw [hlink]
    exact hb.reports r (hreports r hr)
  descriptor := by
    intro d hd
    rw [hlink]
    exact hb.descriptor d (hdescriptor.symm.trans hd)
  parser := hparser
  validated := hvalidated
  draining := by
    intro peer status validatedNow hphase
    rw [hphase] at hrest
    cases hrest
  saving := by
    intro peer status hphase
    rw [hphase] at hrest
    cases hrest
  ahead := fun hahead => absurd hahead (not_saveAhead hrest)

theorem bound_rest {h : Host} (hb : Bound h) {phase : Phase} (hrest : Phase.resting phase = true) :
    Bound { h with phase := phase } :=
  bound_resting hb rfl rfl (fun _ hr => hr) rfl hb.parser hb.validated hrest

theorem bound_closeParser {h : Host} (hb : Bound h) (hrest : Phase.resting h.phase = true) :
    Bound (closeParser h) := by
  rw [closeParser]
  split
  · split
    · exact bound_rest hb rfl
    · exact bound_resting hb rfl rfl (fun _ hr => hr) rfl nofun (fun _ => rfl) hrest
  · exact bound_resting hb rfl rfl (fun _ hr => hr) rfl hb.parser (fun _ => rfl) hrest

theorem bound_finish {h : Host} (hb : Bound h) (status : Status) : Bound (finish h status) := by
  rw [finish]
  split
  · exact bound_rest hb rfl
  · exact bound_closeParser (bound_rest hb rfl) rfl

theorem bound_event {h : Host} (hb : Bound h) {e : HidEvent} (hclean : Clean h (.event e)) :
    Bound (hidEvent h e) := by
  cases e with
  | connecting address =>
    rw [hidEvent]
    split
    · exact hb
    · rename_i hstate
      exact ⟨hb.own, hb.reports, hb.descriptor, hb.parser, hb.validated, hb.draining, hb.saving,
        fun hahead => absurd (hb.ahead hahead).1 hstate⟩
  | connected address =>
    obtain ⟨hreports, hdescriptor, hparser, hahead⟩ := hclean
    refine ⟨hb.own, ?_, ?_, ?_, hb.validated, ?_, ?_, fun h' => absurd h' hahead⟩
    · intro r hr
      dsimp only [hidEvent] at hr
      rw [hreports] at hr
      cases hr
    · intro d hd
      dsimp only [hidEvent] at hd
      rw [hdescriptor] at hd
      cases hd
    · intro hopen
      dsimp only [hidEvent] at hopen
      rw [hparser] at hopen
      cases hopen
    · intro peer status validatedNow hphase
      have hopen := (hb.draining peer status validatedNow hphase).1
      rw [hparser] at hopen
      cases hopen
    · intro peer status hphase
      have hopen := (hb.saving peer status hphase).1
      rw [hparser] at hopen
      cases hopen
  | descriptor bytes =>
    rw [hidEvent]
    split
    · refine ⟨hb.own, hb.reports, ?_, hb.parser, hb.validated, hb.draining, hb.saving, hb.ahead⟩
      intro d hd
      rw [← Option.some.inj hd]
    · exact hb
  | report r =>
    rw [hidEvent]
    split
    · exact ⟨hb.own, hb.reports, hb.descriptor, hb.parser, hb.validated, hb.draining, hb.saving,
        hb.ahead⟩
    · refine ⟨hb.own, ?_, hb.descriptor, hb.parser, hb.validated, hb.draining, hb.saving, hb.ahead⟩
      intro q hq
      rcases List.mem_append.mp hq with hq | hq
      · exact hb.reports q hq
      · rw [List.mem_singleton.mp hq]
  | disconnected =>
    exact ⟨hb.own, hb.reports, nofun, hb.parser, hb.validated, hb.draining, hb.saving,
      fun hahead => absurd hahead hclean⟩

theorem bound_poll {h : Host} (hb : Bound h) (hidle : h.phase = .idle) (earlier : Status) :
    Bound (poll h earlier) := by
  rw [poll]
  split
  · refine ⟨hb.own, hb.reports, hb.descriptor, hb.parser, hb.validated, nofun, nofun, ?_⟩
    rintro ⟨hstate, _⟩
    exact ⟨hstate, rfl⟩
  · exact bound_closeParser hb (by rw [hidle]; rfl)

theorem bound_parserOpened {h : Host} (hb : Bound h) {peer : Address} {link : ℕ} (status : Status)
    (p : Parser) (hlink : link = h.link) (hup : h.state = .connected ∧ h.peer = peer) :
    Bound (parserOpened h peer link status p) := by
  rw [parserOpened]
  by_cases hstatus : status = .ok
  · rw [if_pos hstatus]
    refine ⟨hb.own, hb.reports, hb.descriptor, fun _ => hlink, fun _ => rfl, ?_, nofun, ?_⟩
    · intro q s v hphase
      cases hphase
      exact ⟨by simp [hstatus], nofun⟩
    · intro _
      exact ⟨hup.1, congrArg some hup.2.symm⟩
  · rw [if_neg hstatus]
    exact bound_resting hb rfl rfl (fun _ hr => hr) rfl (fun _ => hlink) (fun _ => rfl) rfl

theorem bound_openParser {h : Host} (hb : Bound h) {peer : Address} {link : ℕ} (bytes : List UInt8)
    (hlink : link = h.link) (hup : h.state = .connected ∧ h.peer = peer) :
    Bound (openParser h peer link bytes) := by
  rw [openParser]
  split
  · exact bound_rest hb rfl
  · split
    · split
      · exact bound_rest hb rfl
      · exact bound_parserOpened hb _ _ hlink hup
    · exact bound_parserOpened hb _ _ hlink hup

theorem bound_processSampled {h : Host} (hb : Bound h) {state : HidState} {peer : Address}
    (hphase : h.phase = .sampled state peer) : Bound (processSampled h state peer) := by
  have hup : state = .connected → h.inputValidated = false → h.state = .connected ∧ h.peer = peer := by
    intro hstate hvalidated
    have hahead : SaveAhead h := by
      rw [SaveAhead, hphase]
      exact ⟨hstate, hvalidated⟩
    obtain ⟨hconnected, hpeer⟩ := hb.ahead hahead
    rw [hphase] at hpeer
    exact ⟨hconnected, (Option.some.inj hpeer).symm⟩
  rw [processSampled]
  by_cases hstate : state = .connected
  · rw [if_pos hstate]
    by_cases hopen : h.parserConnected = true
    · rw [if_pos hopen]
      refine ⟨hb.own, hb.reports, hb.descriptor, hb.parser, hb.validated, ?_, nofun, ?_⟩
      · intro q s v hdraining
        cases hdraining
        exact ⟨hopen, nofun⟩
      · rintro (hnow | hvalidated)
        · cases hnow
        · obtain ⟨hconnected, hpeer⟩ := hup hstate hvalidated
          exact ⟨hconnected, congrArg some hpeer.symm⟩
    · rw [if_neg hopen]
      split
      · exact bound_rest hb rfl
      · rename_i link bytes hdescriptor
        exact bound_openParser hb bytes (hb.descriptor _ hdescriptor)
          (hup hstate (hb.validated (by simpa using hopen)))
  · rw [if_neg hstate]
    split
    · exact bound_closeParser (bound_rest hb rfl) rfl
    · exact bound_rest hb rfl

theorem bound_parseReport {h : Host} (hb : Bound h) {peer : Address} {status : Status}
    {validatedNow : Bool} (hphase : h.phase = .draining peer status validatedNow) {link : ℕ}
    (hlink : link = h.link) (data : List UInt8) :
    Bound (parseReport h peer status validatedNow link data) := by
  obtain ⟨hopen, hbefore⟩ := hb.draining peer status validatedNow hphase
  rw [parseReport]
  split
  · exact bound_rest hb rfl
  · rename_i parsed p hparsed
    split
    · have hadded : ∃ a ∈ h.applied ++ [⟨link, h.parserLink, h.link⟩], a.report = h.link :=
        ⟨_, List.mem_append_right _ (List.mem_singleton.mpr rfl), hlink⟩
      refine ⟨?_, hb.reports, hb.descriptor, hb.parser, ?_, ?_, nofun, ?_⟩
      · intro a ha
        rcases List.mem_append.mp ha with ha | ha
        · exact hb.own a ha
        · rw [List.mem_singleton.mp ha]
          exact ⟨hlink.trans (hb.parser hopen).symm, hb.parser hopen⟩
      · intro hclosed
        exact absurd (hopen.symm.trans hclosed) (by decide)
      · intro q s v hdraining
        exact ⟨hopen, fun _ => hadded⟩
      · intro hahead
        have hearlier : SaveAhead h := by
          rw [SaveAhead, hphase]
          rcases hahead with hnow | hvalidated
          · simpa using hnow
          · cases hvalidated
        obtain ⟨hstate, hpeer⟩ := hb.ahead hearlier
        rw [hphase] at hpeer
        exact ⟨hstate, hpeer⟩
    · exact bound_resting hb rfl rfl (fun _ hr => hr) rfl hb.parser hb.validated rfl

theorem bound_drain {h : Host} (hb : Bound h) {peer : Address} {status : Status}
    {validatedNow : Bool} (hphase : h.phase = .draining peer status validatedNow) :
    Bound (drain h peer status validatedNow) := by
  have hahead : SaveAhead h → h.state = .connected ∧ some peer = some h.peer := by
    intro hsave
    obtain ⟨hstate, hpeer⟩ := hb.ahead hsave
    rw [hphase] at hpeer
    exact ⟨hstate, hpeer⟩
  rw [SaveAhead, hphase] at hahead
  obtain ⟨hopen, hbefore⟩ := hb.draining peer status validatedNow hphase
  rw [drain]
  split
  · refine ⟨hb.own, hb.reports, hb.descriptor, hb.parser, hb.validated, ?_, nofun, hahead⟩
    intro q s v hdraining
    cases hdraining
    exact ⟨hopen, hbefore⟩
  · split
    · split
      · rename_i hsave
        refine ⟨hb.own, hb.reports, hb.descriptor, hb.parser, hb.validated, nofun, ?_, ?_⟩
        · intro q s _
          exact ⟨hopen, hbefore hsave.1⟩
        · intro _
          exact hahead (Or.inl hsave.1)
      · exact bound_finish hb status
    · rename_i link r rest hreports
      have hrest : Bound { h with reports := rest } := by
        refine ⟨hb.own, ?_, hb.descriptor, hb.parser, hb.validated, hb.draining, hb.saving, hb.ahead⟩
        intro q hq
        exact hb.reports q (by rw [hreports]; exact List.mem_cons_of_mem _ hq)
      split
      · exact hrest
      · have hlink : link = h.link := hb.reports (link, r) (by rw [hreports]; exact List.mem_cons_self)
        exact bound_parseReport hrest hphase hlink r.data

theorem bound_advance {h : Host} (hb : Bound h) (status : Status) : Bound (advance h status) := by
  rw [advance]
  cases hphase : h.phase with
  | idle => exact hb
  | sampled state peer => exact bound_processSampled hb hphase
  | draining peer earlier validatedNow => exact bound_drain hb hphase
  | saving peer earlier =>
    dsimp only
    split
    · exact bound_resting hb rfl rfl (fun _ hr => hr) rfl hb.parser hb.validated rfl
    · exact bound_finish hb status
  | flushing earlier =>
    dsimp only
    split
    · exact bound_finish hb earlier
    · exact bound_finish hb status
  | disconnecting earlier => exact bound_finish hb earlier
  | halted => exact hb

theorem step_bound {h : Host} {m : Move} (hb : Bound h) (hclean : Clean h m) : Bound (step h m) := by
  cases m with
  | event e => exact bound_event hb hclean
  | poll earlier =>
    rw [step]
    split
    · rename_i hidle
      exact bound_poll hb hidle earlier
    · exact hb
  | advance status => exact bound_advance hb status

theorem run_bound {h : Host} {moves : List Move} (hb : Bound h) (hclean : AllClean h moves) :
    Bound (run h moves) := by
  induction moves generalizing h with
  | nil => exact hb
  | cons m moves ih =>
    obtain ⟨hmove, hmoves⟩ := hclean
    exact ih (step_bound hb hmove) hmoves

theorem opened_bound : Bound opened where
  own := nofun
  reports := nofun
  descriptor := nofun
  parser := nofun
  validated := fun _ => rfl
  draining := nofun
  saving := nofun
  ahead := fun hahead => absurd hahead (not_saveAhead rfl)

theorem allClean_append {h : Host} {before after : List Move}
    (hclean : AllClean h (before ++ after)) : AllClean h before := by
  induction before generalizing h with
  | nil => exact trivial
  | cons m before ih =>
    obtain ⟨hmove, hrest⟩ := hclean
    exact ⟨hmove, ih hrest⟩

/-- In a clean run every accepted report was read with the descriptor of its own
connection, and a peer is submitted while it is connected, after a report of
this connection. -/
theorem reports_bound {moves : List Move} (hclean : AllClean opened moves) :
    ∀ before after, moves = before ++ after → Proper (run opened before) := by
  rintro before after rfl
  exact bound_proper (run_bound opened_bound (allClean_append hclean))

def buttonsDescriptor : List UInt8 :=
  [0x05, 0x01, 0x09, 0x05, 0xA1, 0x01, 0x05, 0x09, 0x19, 0x01, 0x29, 0x08, 0x15, 0x00, 0x25, 0x01,
    0x75, 0x01, 0x95, 0x08, 0x81, 0x02, 0xC0]

def address (n : UInt8) : Address := Vector.replicate 6 n

def arriving (n : UInt8) : List Move :=
  [.event (.connected (address n)), .event (.descriptor buttonsDescriptor)]

def pressed : Move := .event (.report ⟨.input, [0x01]⟩)

def polled : List Move := [.poll .ok, .advance .ok, .advance .ok]

/-- The button is read, and the peer is about to be submitted. -/
theorem reports_bound_sample :
    (run opened (arriving 1 ++ [pressed] ++ polled ++ [.advance .ok])).phase =
        .saving (address 1) .ok ∧
      Proper (run opened (arriving 1 ++ [pressed] ++ polled ++ [.advance .ok])) := by
  have hsaving : (run opened (arriving 1 ++ [pressed] ++ polled ++ [.advance .ok])).phase =
      .saving (address 1) .ok := by
    decide +kernel
  have hclean : AllClean opened (arriving 1 ++ [pressed] ++ polled ++ [.advance .ok]) :=
    ⟨⟨rfl, rfl, rfl, not_saveAhead rfl⟩, trivial, trivial, trivial, trivial, trivial, trivial,
      trivial⟩
  exact ⟨hsaving, reports_bound hclean _ [] (List.append_nil _).symm⟩

def reconnecting : List Move :=
  arriving 1 ++ [pressed, .event .disconnected] ++ arriving 2 ++ polled

/-- The report presses a button of the second connection. -/
theorem stale_report_applied :
    (run opened reconnecting).parser.current.buttons = 1 ∧ ¬Proper (run opened reconnecting) := by
  have hbuttons : (run opened reconnecting).parser.current.buttons = 1 := by decide +kernel
  have happlied : (run opened reconnecting).applied = [⟨1, 2, 2⟩] := by decide +kernel
  refine ⟨hbuttons, fun h => ?_⟩
  have hown := h.own ⟨1, 2, 2⟩ (by rw [happlied]; exact List.mem_singleton.mpr rfl)
  exact absurd hown.1 (by decide)

end JaszczurHal.GamepadBinding
