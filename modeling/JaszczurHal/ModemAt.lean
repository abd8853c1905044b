import JaszczurHal.StepRuns
import JaszczurHal.WebSocketHandshake
import Mathlib.Data.List.ReduceOption

/-!
# The AT engine of a modem

One task at a time holds the engine. A command first drains what the UART has
received into the buffer that is searched for its answer, then it is written, and
from there on the engine polls. Every byte also goes through the line assembler,
which hands complete lines to the handlers of unsolicited results.
-/

set_option autoImplicit false

namespace JaszczurHal.ModemAt
open WebSocketHandshake (ascii carriageReturn lineFeed cString)

structure Config where
  rxBufSize : ℕ
  lineMax : ℕ
  defaultTimeoutMs : ℕ
  quietWindowMs : ℕ
  sizeOk : 64 ≤ rxBufSize

def orDefault (timeoutMs other : ℕ) : ℕ := if timeoutMs = 0 then other else timeoutMs

def create (rxBufSize lineMax defaultTimeoutMs quietWindowMs : ℕ) : Option Config :=
  if h : 64 ≤ rxBufSize then
    some ⟨rxBufSize, lineMax, orDefault defaultTimeoutMs 1000, orDefault quietWindowMs 250, h⟩
  else none

def elapsed (now started : UInt32) (interval : ℕ) : Bool :=
  decide (interval ≤ (now-started).toNat)

def tailGraceMs : ℕ := 200
def defaultPromptMs : ℕ := 1000
def maxUrcs : ℕ := 8
def urcPrefixMax : ℕ := 32

structure Urc where
  urcPrefix : List UInt8
  cb : ℕ
  deriving DecidableEq

/-- The slots of the handler table: a prefix is not empty and stands in one slot. -/
structure Router where
  slots : List (Option Urc)
  hasObserver : Bool
  plain : ∀ u ∈ slots.reduceOption, u.urcPrefix ≠ []
  distinct : (slots.reduceOption.map Urc.urcPrefix).Nodup

def Router.urcs (r : Router) : List Urc := r.slots.reduceOption

def replaceUrc (u old : Urc) : Urc := if old.urcPrefix = u.urcPrefix then u else old

theorem replaceUrc_prefix (u old : Urc) : (replaceUrc u old).urcPrefix = old.urcPrefix := by
  unfold replaceUrc
  split_ifs with h
  · exact h.symm
  · rfl

theorem replaced_prefixes (u : Urc) (slots : List (Option Urc)) :
    (slots.map (Option.map (replaceUrc u))).reduceOption.map Urc.urcPrefix =
      slots.reduceOption.map Urc.urcPrefix := by
  rw [List.reduceOption_map, List.map_map]
  congr 1
  funext old
  exact replaceUrc_prefix u old

def fillSlot (u : Urc) : List (Option Urc) → Option (List (Option Urc))
  | [] => none
  | none :: slots => some (some u :: slots)
  | some old :: slots => (fillSlot u slots).map fun filled => some old :: filled

theorem fillSlot_prefixes {u : Urc} {slots filled : List (Option Urc)}
    (h : fillSlot u slots = some filled) :
    filled.reduceOption.Perm (u :: slots.reduceOption) := by
  induction slots generalizing filled with
  | nil => cases h
  | cons slot slots ih =>
    cases slot with
    | none =>
      simp only [fillSlot, Option.some.injEq] at h
      simp [← h, List.reduceOption_cons_of_some, List.reduceOption_cons_of_none]
    | some old =>
      obtain ⟨rest, hrest, rfl⟩ := Option.map_eq_some_iff.mp h
      simp only [List.reduceOption_cons_of_some]
      exact ((ih hrest).cons old).trans (List.Perm.swap u old _)

theorem plain_of_prefixes {urcs : List Urc} (h : [] ∉ urcs.map Urc.urcPrefix) :
    ∀ u ∈ urcs, u.urcPrefix ≠ [] := by
  intro u hu hempty
  exact h (List.mem_map.mpr ⟨u, hu, hempty⟩)

theorem Router.no_empty_prefix (r : Router) : [] ∉ r.urcs.map Urc.urcPrefix := by
  intro h
  obtain ⟨u, hu, hempty⟩ := List.mem_map.mp h
  exact r.plain u hu hempty

def Router.register (r : Router) (u : Urc) : Option Router :=
  if hname : u.urcPrefix = [] ∨ urcPrefixMax ≤ u.urcPrefix.length then none
  else if hknown : u.urcPrefix ∈ r.urcs.map Urc.urcPrefix then
    some
      { r with
        slots := r.slots.map (Option.map (replaceUrc u))
        plain := plain_of_prefixes (by rw [replaced_prefixes]; exact r.no_empty_prefix)
        distinct := by rw [replaced_prefixes]; exact r.distinct }
  else
    match hfill : fillSlot u r.slots with
    | none => none
    | some filled =>
      some
        { r with
          slots := filled
          plain := by
            intro other hother
            cases List.mem_cons.mp ((fillSlot_prefixes hfill).mem_iff.mp hother) with
            | inl heq => exact heq ▸ fun hempty => hname (Or.inl hempty)
            | inr hold => exact r.plain other hold
          distinct := by
            rw [((fillSlot_prefixes hfill).map Urc.urcPrefix).nodup_iff]
            exact List.nodup_cons.mpr ⟨hknown, r.distinct⟩ }

def emptyRouter (hasObserver : Bool) : Router :=
  ⟨List.replicate maxUrcs none, hasObserver, by simp [List.reduceOption], by simp [List.reduceOption]⟩

/-- What the engine does outside: handler calls, the line observer, writes. -/
inductive Event where
  | handled (urc : Urc) (line : List UInt8)
  | observed (line : List UInt8)
  | written (data : List UInt8)
  deriving DecidableEq

inductive Result where
  | ok
  | error
  | timeout
  | noPrompt
  deriving DecidableEq

inductive Command where
  | send (cmd : List UInt8) (expected : Option (List UInt8)) (timeoutMs : ℕ)
  | sendWithData (cmd data : List UInt8) (promptMs respMs : ℕ)

/-- A command that has returned. `answer` is what was received after the command
was written, `beforePayload` the part of it before the payload was written. -/
structure Completed where
  expected : Option (List UInt8)
  result : Result
  answer : List UInt8
  beforePayload : Option (List UInt8)
  deriving DecidableEq

/-- The receive side. `stream` holds every byte taken from the UART and `fresh`
those since the last reset; nothing reads these two. -/
structure Engine where
  uart : List UInt8
  rxBuf : List UInt8
  lineBuf : List UInt8
  stream : List UInt8
  fresh : List UInt8
  log : List Event

/-- The running call. `stale` counts the bytes of `fresh` that had been received
when the command was written. -/
inductive Phase where
  | idle
  | issuing (command : Command)
  | prompting (data : List UInt8) (stale : ℕ) (start : UInt32) (promptMs respMs : ℕ)
  | waiting (expected : Option (List UInt8)) (stale : ℕ) (start : UInt32) (timeoutMs : ℕ)
      (beforePayload : Option (List UInt8))
  | tail (start : UInt32) (completed : Completed)
  | listening (ready : Option (List UInt8 → Bool)) (start lastByte : UInt32) (totalMs : ℕ)
      (readySeen preserve : Bool)

structure State where
  engine : Engine
  phase : Phase
  results : List Completed
  listened : List Result

/-- What happens next: bytes arrive, a call begins, a command is written, the loop
of the running call makes a pass. -/
inductive Input where
  | arrive (bytes : List UInt8)
  | issue (command : Command)
  | write (now after : UInt32)
  | turn (now after : UInt32)
  | listen (ready : Option (List UInt8 → Bool)) (totalMs : ℕ) (preserve : Bool) (now : UInt32)
  | urcPoll

def lineEnd (c : UInt8) : Bool := decide (c = carriageReturn) || decide (c = lineFeed)
def promptMark : UInt8 := 62

def resetRx (e : Engine) : Engine := { e with rxBuf := [], lineBuf := [], fresh := [] }

def dispatchLine (r : Router) (line : List UInt8) : List Event :=
  if cString line = [] then []
  else
    ((r.urcs.filter fun u => u.urcPrefix.isPrefixOf (cString line)).map
      fun u => Event.handled u (cString line)) ++
      (if r.hasObserver then [.observed (cString line)] else [])

def storeByte (c : Config) (rxBuf : List UInt8) (b : UInt8) : List UInt8 :=
  if rxBuf.length+1 < c.rxBufSize then rxBuf ++ [b] else rxBuf

def absorbByte (c : Config) (r : Router) (e : Engine) (b : UInt8) : Engine :=
  { e with
    rxBuf := storeByte c e.rxBuf b
    lineBuf := if lineEnd b then []
      else if e.lineBuf.length+1 < c.lineMax then e.lineBuf ++ [b] else e.lineBuf
    stream := e.stream ++ [b]
    fresh := e.fresh ++ [b]
    log := e.log ++ (if lineEnd b ∧ e.lineBuf ≠ [] then dispatchLine r e.lineBuf else []) }

def absorb (c : Config) (r : Router) (e : Engine) (bytes : List UInt8) : Engine :=
  bytes.foldl (absorbByte c r) e

def drainUart (c : Config) (r : Router) (e : Engine) : Engine :=
  { absorb c r e e.uart with uart := [] }

def drainPrompt (c : Config) (r : Router) (e : Engine) : Engine :=
  let before := e.uart.takeWhile fun b => b ≠ promptMark
  { absorb c r e (e.uart.take (before.length+1)) with uart := e.uart.drop (before.length+1) }

def okText : List UInt8 := [13, 10] ++ ascii "OK" ++ [13, 10]

def errorTexts : List (List UInt8) :=
  [[13, 10] ++ ascii "ERROR" ++ [13, 10], ascii "+CME ERROR", ascii "+CMS ERROR"]

def bufContains (rxBuf needle : List UInt8) : Bool :=
  decide (needle ≠ [] ∧ needle <:+: cString rxBuf)

def successText (expected : Option (List UInt8)) : List UInt8 := expected.getD okText

def responseTerminated (rxBuf : List UInt8) (expected : Option (List UInt8)) : Option Result :=
  if bufContains rxBuf (successText expected) then some .ok
  else if errorTexts.any (bufContains rxBuf) then some .error
  else none

def answer (e : Engine) (stale : ℕ) : List UInt8 := e.fresh.drop stale

def writeCommand (c : Config) (s : State) (command : Command) (now after : UInt32) : State :=
  let stale := s.engine.fresh.length + s.engine.uart.length
  match command with
  | .send cmd expected timeoutMs =>
    { s with
      engine := { s.engine with log := s.engine.log ++ [.written cmd] }
      phase := .waiting expected stale now (orDefault timeoutMs c.defaultTimeoutMs) none }
  | .sendWithData cmd data promptMs respMs =>
    let respMs := orDefault respMs c.defaultTimeoutMs
    if promptMark ∈ cString s.engine.rxBuf then
      { s with
        engine := { s.engine with log := s.engine.log ++ [.written cmd, .written data] }
        phase := .waiting none stale after respMs (some (answer s.engine stale)) }
    else
      { s with
        engine := { s.engine with log := s.engine.log ++ [.written cmd] }
        phase := .prompting data stale now (orDefault promptMs defaultPromptMs) respMs }

def promptTurn (c : Config) (r : Router) (s : State) (data : List UInt8) (stale : ℕ)
    (start : UInt32) (promptMs respMs : ℕ) (now after : UInt32) : State :=
  if elapsed now start promptMs then
    { s with
      phase := .idle
      results := s.results ++ [⟨none, .noPrompt, answer s.engine stale, none⟩] }
  else
    let e := drainPrompt c r s.engine
    if promptMark ∈ s.engine.uart then
      { s with
        engine := { e with log := e.log ++ [.written data] }
        phase := .waiting none stale after respMs (some (answer e stale)) }
    else { s with engine := e }

def waitTurn (c : Config) (r : Router) (s : State) (expected : Option (List UInt8)) (stale : ℕ)
    (start : UInt32) (timeoutMs : ℕ) (beforePayload : Option (List UInt8)) (now after : UInt32) :
    State :=
  let e := drainUart c r s.engine
  let completed := fun result => Completed.mk expected result (answer e stale) beforePayload
  match responseTerminated e.rxBuf expected with
  | some result =>
    if result = .ok ∧ expected.isSome then
      { s with engine := e, phase := .tail after (completed result) }
    else { s with engine := e, phase := .idle, results := s.results ++ [completed result] }
  | none =>
    if elapsed now start timeoutMs then
      { s with engine := e, phase := .idle, results := s.results ++ [completed .timeout] }
    else { s with engine := e }

def tailTurn (c : Config) (r : Router) (s : State) (start : UInt32) (completed : Completed)
    (now : UInt32) : State :=
  let finished := fun e : Engine =>
    { s with engine := e, phase := .idle, results := s.results ++ [completed] }
  if elapsed now start tailGraceMs then finished s.engine
  else
    let e := drainUart c r s.engine
    if (okText :: errorTexts).any (bufContains e.rxBuf) then finished e else { s with engine := e }

def listenTurn (c : Config) (r : Router) (s : State) (ready : Option (List UInt8 → Bool))
    (start lastByte : UInt32) (totalMs : ℕ) (readySeen preserve : Bool) (now : UInt32) : State :=
  let e := drainUart c r s.engine
  let consumed := decide (s.engine.uart ≠ [])
  let lastByte := if consumed then now else lastByte
  let readySeen := readySeen || (consumed && (ready.map fun p => p e.rxBuf).getD false)
  let quiet := elapsed now (if preserve then lastByte else start) c.quietWindowMs
  let returned := fun result =>
    { s with engine := e, phase := .idle, listened := s.listened ++ [result] }
  if readySeen ∧ elapsed now lastByte c.quietWindowMs then
    returned .ok
  else if ready.isNone ∧ !consumed ∧ quiet then returned .ok
  else if elapsed now start totalMs then returned .timeout
  else { s with engine := e, phase := .listening ready start lastByte totalMs readySeen preserve }

def urcPoll (c : Config) (r : Router) (e : Engine) : Engine × ℕ :=
  let drained := drainUart c r e
  (drained, (drained.rxBuf.drop (drained.rxBuf.length-e.uart.length)).count lineFeed)

def turn (c : Config) (r : Router) (s : State) (now after : UInt32) : State :=
  match s.phase with
  | .idle => s
  | .issuing _ => s
  | .prompting data stale start promptMs respMs =>
    promptTurn c r s data stale start promptMs respMs now after
  | .waiting expected stale start timeoutMs beforePayload =>
    waitTurn c r s expected stale start timeoutMs beforePayload now after
  | .tail start completed => tailTurn c r s start completed now
  | .listening ready start lastByte totalMs readySeen preserve =>
    listenTurn c r s ready start lastByte totalMs readySeen preserve now

def listen (c : Config) (s : State) (ready : Option (List UInt8 → Bool)) (totalMs : ℕ)
    (preserve : Bool) (now : UInt32) : State :=
  let e := if preserve then s.engine else resetRx s.engine
  let readySeen := preserve && decide (e.rxBuf ≠ []) && (ready.map fun p => p e.rxBuf).getD false
  { s with
    engine := e
    phase := .listening ready now now (orDefault totalMs c.defaultTimeoutMs) readySeen preserve }

def step (c : Config) (r : Router) (s : State) (i : Input) : State :=
  match i with
  | .arrive bytes => { s with engine := { s.engine with uart := s.engine.uart ++ bytes } }
  | .turn now after => turn c r s now after
  | .write now after =>
    match s.phase with
    | .issuing command => writeCommand c s command now after
    | _ => s
  | .issue command =>
    match s.phase with
    | .idle => { s with engine := drainUart c r (resetRx s.engine), phase := .issuing command }
    | _ => s
  | .listen ready totalMs preserve now =>
    match s.phase with
    | .idle => listen c s ready totalMs preserve now
    | _ => s
  | .urcPoll =>
    match s.phase with
    | .idle => { s with engine := (urcPoll c r s.engine).1 }
    | _ => s

def start : State := ⟨⟨[], [], [], [], [], []⟩, .idle, [], []⟩

def arrived : Input → List UInt8
  | .arrive bytes => bytes
  | _ => []

def resets (s : State) (i : Input) : Bool :=
  match s.phase, i with
  | .idle, .issue _ => true
  | .idle, .listen _ _ preserve _ => !preserve
  | _, _ => false

def Moves (c : Config) (r : Router) (e after : Engine) (arriving : List UInt8) : Prop :=
  ∃ (consumed rest : List UInt8) (writes : List (List UInt8)),
    e.uart ++ arriving = consumed ++ rest ∧
    after = { absorb c r e consumed with
      uart := rest
      log := (absorb c r e consumed).log ++ writes.map Event.written }

theorem moves_still (c : Config) (r : Router) (e : Engine) : Moves c r e e [] :=
  ⟨[], e.uart, [], by simp [absorb]⟩

theorem moves_drain (c : Config) (r : Router) (e : Engine) : Moves c r e (drainUart c r e) [] :=
  ⟨e.uart, [], [], by simp [drainUart]⟩

theorem moves_written (c : Config) (r : Router) (e : Engine) (writes : List (List UInt8)) :
    Moves c r e { e with log := e.log ++ writes.map Event.written } [] :=
  ⟨[], e.uart, writes, by simp [absorb]⟩

theorem moves_prompt (c : Config) (r : Router) (e : Engine) (writes : List (List UInt8)) :
    Moves c r e { drainPrompt c r e with
      log := (drainPrompt c r e).log ++ writes.map Event.written } [] :=
  ⟨e.uart.take ((e.uart.takeWhile fun b => b ≠ promptMark).length+1),
    e.uart.drop ((e.uart.takeWhile fun b => b ≠ promptMark).length+1), writes,
    by simp [drainPrompt]⟩

theorem write_moves (c : Config) (r : Router) (s : State) (command : Command)
    (now after : UInt32) :
    Moves c r s.engine (writeCommand c s command now after).engine [] := by
  cases command with
  | send cmd expected timeoutMs => exact moves_written c r s.engine [cmd]
  | sendWithData cmd data promptMs respMs =>
    simp only [writeCommand]
    split_ifs
    · exact moves_written c r s.engine [cmd, data]
    · exact moves_written c r s.engine [cmd]

theorem turn_moves (c : Config) (r : Router) (s : State) (now after : UInt32) :
    Moves c r s.engine (turn c r s now after).engine [] := by
  unfold turn
  cases s.phase with
  | idle => exact moves_still c r s.engine
  | issuing command => exact moves_still c r s.engine
  | prompting data stale start promptMs respMs =>
    simp only [promptTurn]
    split_ifs
    · exact moves_still c r s.engine
    · exact moves_prompt c r s.engine [data]
    · simpa using moves_prompt c r s.engine []
  | waiting expected stale start timeoutMs beforePayload =>
    simp only [waitTurn]
    cases responseTerminated (drainUart c r s.engine).rxBuf expected with
    | none =>
      simp only
      split_ifs
      · exact moves_drain c r s.engine
      · exact moves_drain c r s.engine
    | some result =>
      simp only
      split_ifs
      · exact moves_drain c r s.engine
      · exact moves_drain c r s.engine
  | tail start completed =>
    simp only [tailTurn]
    split_ifs
    · exact moves_still c r s.engine
    · exact moves_drain c r s.engine
    · exact moves_drain c r s.engine
  | listening ready start lastByte totalMs readySeen preserve =>
    simp only [listenTurn]
    split_ifs <;> exact moves_drain c r s.engine

theorem step_moves (c : Config) (r : Router) (s : State) (i : Input) :
    Moves c r s.engine (step c r s i).engine (arrived i) ∨
      (resets s i = true ∧ Moves c r (resetRx s.engine) (step c r s i).engine (arrived i)) := by
  cases i with
  | arrive bytes => exact Or.inl ⟨[], s.engine.uart ++ bytes, [], by simp [arrived, step, absorb]⟩
  | turn now after => exact Or.inl (turn_moves c r s now after)
  | write now after =>
    left
    cases hphase : s.phase with
    | issuing command => simpa [arrived, step, hphase] using write_moves c r s command now after
    | _ => simpa [arrived, step, hphase] using moves_still c r s.engine
  | issue command =>
    cases hphase : s.phase with
    | idle =>
      right
      simpa [arrived, step, hphase, resets] using moves_drain c r (resetRx s.engine)
    | _ => exact Or.inl (by simpa [arrived, step, hphase] using moves_still c r s.engine)
  | listen ready totalMs preserve now =>
    cases hphase : s.phase with
    | idle =>
      by_cases hpreserve : preserve = true
      · left
        simpa [arrived, step, hphase, listen, hpreserve] using moves_still c r s.engine
      · right
        simp only [Bool.not_eq_true] at hpreserve
        simpa [arrived, step, hphase, resets, listen, hpreserve] using moves_still c r (resetRx s.engine)
    | _ => exact Or.inl (by simpa [arrived, step, hphase] using moves_still c r s.engine)
  | urcPoll =>
    left
    cases hphase : s.phase with
    | idle => simpa [arrived, step, hphase, urcPoll] using moves_drain c r s.engine
    | _ => simpa [arrived, step, hphase] using moves_still c r s.engine

end JaszczurHal.ModemAt
