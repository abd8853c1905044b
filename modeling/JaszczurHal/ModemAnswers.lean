import JaszczurHal.ModemRouter

/-!
# The answer to a command

The engine searches everything it has stored since the reset that began the call,
and it stores only what fits. A result is the answer to the command if no result
text begins in the bytes that were received before the command was written, and
if the answer is stored as far as its first result, with no NUL before it.
-/

set_option autoImplicit false

namespace JaszczurHal.ModemAt
open StepRuns
open WebSocketHandshake (ascii cString)

def finals (expected : Option (List UInt8)) : List (List UInt8) := successText expected :: errorTexts

def Contains (text needle : List UInt8) : Prop := needle ≠ [] ∧ needle <:+: text

/-- The outcome of a call rests on what was received after the command was written. -/
structure Justified (e : Completed) : Prop where
  ok : e.result = .ok → Contains e.answer (successText e.expected)
  error : e.result = .error → ∃ text ∈ errorTexts, Contains e.answer text
  timeout : e.result = .timeout → ∀ text ∈ finals e.expected, ¬Contains e.answer text
  noPrompt : e.result = .noPrompt → promptMark ∉ e.answer
  payload : ∀ before ∈ e.beforePayload, promptMark ∈ before

def NoneStale (c : Config) (expected : Option (List UInt8)) (stale : ℕ) (fresh : List UInt8) :
    Prop :=
  ∀ text ∈ finals expected, text ≠ [] → ∀ before behind,
    cString (fresh.take (c.rxBufSize-1)) = before ++ text ++ behind → stale ≤ before.length

/-- If there is a result behind the stale bytes, one lies in the part of `fresh`
that fits in the buffer, and no NUL comes first. -/
def ResultStored (c : Config) (expected : Option (List UInt8)) (stale : ℕ) (fresh : List UInt8) :
    Prop :=
  (∃ text ∈ finals expected, Contains (fresh.drop stale) text) →
    ∃ n, n < c.rxBufSize ∧ 0 ∉ fresh.take n ∧
      ∃ text ∈ finals expected, Contains ((fresh.take n).drop stale) text

/-- What has been received when a step begins does not mislead the call. -/
def Unmisled (c : Config) (s : State) (i : Input) : Prop :=
  match s.phase, i with
  | .issuing (.sendWithData _ _ _ _), .write _ _ =>
    promptMark ∉ cString s.engine.rxBuf ∧ promptMark ∉ s.engine.uart
  | .waiting expected stale _ _ _, .turn _ _ =>
    NoneStale c expected stale (s.engine.fresh ++ s.engine.uart) ∧
      ResultStored c expected stale (s.engine.fresh ++ s.engine.uart)
  | _, _ => True

theorem absorb_fresh (c : Config) (r : Router) (e : Engine) (bytes : List UInt8) :
    (absorb c r e bytes).fresh = e.fresh ++ bytes := by
  induction bytes generalizing e with
  | nil => simp [absorb]
  | cons b bytes ih =>
    have hrest := ih (absorbByte c r e b)
    simpa [absorb, absorbByte] using hrest

def Stored (c : Config) (e : Engine) : Prop := e.rxBuf = e.fresh.take (c.rxBufSize-1)

theorem absorbByte_stored {c : Config} {e : Engine} (r : Router) (b : UInt8) (h : Stored c e) :
    Stored c (absorbByte c r e b) := by
  simp only [Stored, absorbByte, storeByte, List.take_append]
  rw [h, List.length_take]
  split_ifs with hroom
  · have hone : 0 < c.rxBufSize-1-e.fresh.length := by omega
    rw [List.take_of_length_le (l := [b]) hone]
  · have hnone : c.rxBufSize-1-e.fresh.length = 0 := by omega
    rw [hnone, List.take_zero, List.append_nil]

theorem absorb_stored {c : Config} {e : Engine} (r : Router) (bytes : List UInt8)
    (h : Stored c e) : Stored c (absorb c r e bytes) := by
  induction bytes generalizing e with
  | nil => exact h
  | cons b bytes ih => exact ih (absorbByte_stored r b h)

theorem moves_stored {c : Config} {r : Router} {e after : Engine} {arriving : List UInt8}
    (h : Moves c r e after arriving) (he : Stored c e) : Stored c after := by
  obtain ⟨consumed, rest, writes, _, rfl⟩ := h
  exact absorb_stored r consumed he

theorem step_stored {c : Config} (r : Router) {s : State} (i : Input) (h : Stored c s.engine) :
    Stored c (step c r s i).engine := by
  cases step_moves c r s i with
  | inl hmoves => exact moves_stored hmoves h
  | inr hreset =>
    apply moves_stored hreset.2
    simp [Stored, resetRx]

/-- A text found behind the stale bytes is found in the answer. -/
theorem contains_answer {c : Config} {expected : Option (List UInt8)} {stale : ℕ}
    {fresh text : List UInt8} (hstale : NoneStale c expected stale fresh)
    (htext : text ∈ finals expected)
    (h : bufContains (fresh.take (c.rxBufSize-1)) text = true) :
    Contains (fresh.drop stale) text := by
  simp only [bufContains, decide_eq_true_eq] at h
  obtain ⟨hne, before, behind, hvisible⟩ := h
  have hlate := hstale text htext hne before behind hvisible.symm
  have hleads : cString (fresh.take (c.rxBufSize-1)) <+: fresh :=
    (List.takeWhile_prefix _).trans (List.take_prefix _ _)
  obtain ⟨rest, hrest⟩ := hleads
  constructor
  · exact hne
  · rw [← hrest, ← hvisible, List.append_assoc, List.append_assoc,
      List.drop_append_of_le_length hlate]
    exact ⟨before.drop stale, behind ++ rest, by simp⟩

theorem stored_found {c : Config} {expected : Option (List UInt8)} {stale : ℕ}
    {fresh : List UInt8} (hstored : ResultStored c expected stale fresh)
    (h : ∃ text ∈ finals expected, Contains (fresh.drop stale) text) :
    ∃ text ∈ finals expected, bufContains (fresh.take (c.rxBufSize-1)) text = true := by
  obtain ⟨n, hn, hnul, text, htext, hne, hwithin⟩ := hstored h
  have hsplit : fresh.take (c.rxBufSize-1) =
      fresh.take n ++ (fresh.take (c.rxBufSize-1)).drop n := by
    have htake := List.take_append_drop n (fresh.take (c.rxBufSize-1))
    rw [List.take_take, Nat.min_eq_left (by omega)] at htake
    exact htake.symm
  refine ⟨text, htext, ?_⟩
  simp only [bufContains, decide_eq_true_eq]
  constructor
  · exact hne
  · rw [hsplit, HttpFiles.cString_clean _ hnul]
    exact (hwithin.trans (List.drop_suffix _ _).isInfix).trans (List.prefix_append _ _).isInfix

theorem responseTerminated_ok {rxBuf : List UInt8} {expected : Option (List UInt8)}
    (h : responseTerminated rxBuf expected = some .ok) :
    bufContains rxBuf (successText expected) = true := by
  unfold responseTerminated at h
  split_ifs at h with hok
  · exact hok
  · cases h

theorem responseTerminated_result {rxBuf : List UInt8} {expected : Option (List UInt8)}
    {result : Result} (h : responseTerminated rxBuf expected = some result)
    (hok : result ≠ .ok) :
    result = .error ∧ ∃ text ∈ errorTexts, bufContains rxBuf text = true := by
  unfold responseTerminated at h
  split_ifs at h with hsuccess herror
  · exact absurd (Option.some.inj h).symm hok
  · exact ⟨(Option.some.inj h).symm, List.any_eq_true.mp herror⟩

theorem responseTerminated_none {rxBuf : List UInt8} {expected : Option (List UInt8)}
    (h : responseTerminated rxBuf expected = none) :
    ∀ text ∈ finals expected, bufContains rxBuf text = false := by
  unfold responseTerminated at h
  split_ifs at h with hsuccess herror
  intro text htext
  cases List.mem_cons.mp htext with
  | inl heq => simpa [heq] using hsuccess
  | inr hmem =>
    simp only [List.any_eq_true, not_exists, not_and, Bool.not_eq_true] at herror
    exact herror text hmem

/-- While the prompt is awaited, no mark is among the bytes received since the
drain: `drained` counts what came before. -/
def Unprompted (e : Engine) (stale : ℕ) : Prop :=
  stale ≤ e.fresh.length+e.uart.length ∧
    ∃ drained, drained ≤ e.fresh.length ∧ drained ≤ stale ∧
      promptMark ∉ e.fresh.drop drained ∧
      promptMark ∉ ((e.fresh ++ e.uart).take stale).drop drained

theorem unprompted_arrive {e : Engine} {stale : ℕ} (bytes : List UInt8)
    (h : Unprompted e stale) : Unprompted { e with uart := e.uart ++ bytes } stale := by
  obtain ⟨hstale, drained, hdrained, hle, hfresh, hall⟩ := h
  constructor
  · simp only [List.length_append]
    omega
  · refine ⟨drained, hdrained, hle, hfresh, ?_⟩
    simp only
    rw [← List.append_assoc, List.take_append_of_le_length]
    · exact hall
    · rw [List.length_append]
      exact hstale

theorem takeWhile_mark {uart : List UInt8} (h : promptMark ∈ uart) :
    ∃ rest, uart = (uart.takeWhile fun b => b ≠ promptMark) ++ promptMark :: rest := by
  induction uart with
  | nil => simp at h
  | cons b uart ih =>
    by_cases hb : b = promptMark
    · exact ⟨uart, by simp [hb]⟩
    · have hrest : promptMark ∈ uart := by
        simp only [List.mem_cons] at h
        exact h.resolve_left fun heq => hb heq.symm
      obtain ⟨rest, heq⟩ := ih hrest
      refine ⟨rest, ?_⟩
      rw [List.takeWhile_cons_of_pos (by simpa using hb), List.cons_append, ← heq]

theorem takeWhile_all {uart : List UInt8} (h : promptMark ∉ uart) :
    (uart.takeWhile fun b => b ≠ promptMark) = uart := by
  apply List.takeWhile_eq_self_iff.mpr
  intro b hb
  simp only [ne_eq, decide_eq_true_eq]
  intro heq
  exact h (heq ▸ hb)

/-- The mark that ends the wait was received after the command was written. -/
theorem prompt_in_answer {c : Config} {r : Router} {e : Engine} {stale : ℕ}
    (h : Unprompted e stale) (hmark : promptMark ∈ e.uart) :
    promptMark ∈ answer (drainPrompt c r e) stale := by
  obtain ⟨hstale, drained, hdrained, hle, hfresh, hall⟩ := h
  obtain ⟨rest, hrest⟩ := takeWhile_mark hmark
  generalize hbefore : (e.uart.takeWhile fun b => b ≠ promptMark) = before at hrest
  have htaken : e.uart.take (before.length+1) = before ++ [promptMark] := by
    rw [hrest, List.append_cons, List.take_left' (by simp)]
  have hanswer : answer (drainPrompt c r e) stale =
      ((e.fresh ++ before) ++ [promptMark]).drop stale := by
    simp only [answer, drainPrompt, hbefore, htaken, absorb_fresh, List.append_assoc]
  have hlate : stale ≤ (e.fresh ++ before).length := by
    by_contra hearly
    apply hall
    have hbytes : e.fresh ++ e.uart = ((e.fresh ++ before) ++ [promptMark]) ++ rest := by
      simp [hrest]
    have hshort : ((e.fresh ++ before) ++ [promptMark]).length ≤ stale := by
      rw [List.length_append, List.length_singleton]
      omega
    rw [hbytes, List.take_append, List.take_of_length_le hshort, List.append_assoc,
      List.drop_append_of_le_length (by rw [List.length_append]; omega)]
    simp
  rw [hanswer, List.drop_append_of_le_length hlate]
  simp

theorem unprompted_drain {c : Config} {r : Router} {e : Engine} {stale : ℕ}
    (h : Unprompted e stale) (hmark : promptMark ∉ e.uart) :
    Unprompted (drainPrompt c r e) stale := by
  obtain ⟨hstale, drained, hdrained, hle, hfresh, hall⟩ := h
  have hfreshed : (drainPrompt c r e).fresh = e.fresh ++ e.uart := by
    simp only [drainPrompt, takeWhile_all hmark, absorb_fresh]
    rw [List.take_of_length_le (by omega)]
  have huart : (drainPrompt c r e).uart = [] := by
    simp only [drainPrompt, takeWhile_all hmark]
    exact List.drop_of_length_le (by omega)
  constructor
  · rw [hfreshed, huart, List.length_append]
    simpa using hstale
  · refine ⟨drained, ?_, hle, ?_, ?_⟩
    · rw [hfreshed, List.length_append]
      omega
    · rw [hfreshed, List.drop_append_of_le_length hdrained]
      simp only [List.mem_append, not_or]
      exact ⟨hfresh, hmark⟩
    · rw [hfreshed, huart, List.append_nil]
      exact hall

def PhaseOk (s : State) : Prop :=
  match s.phase with
  | .prompting _ stale _ _ _ => Unprompted s.engine stale
  | .waiting _ _ _ _ beforePayload => ∀ before ∈ beforePayload, promptMark ∈ before
  | .tail _ completed => Justified completed
  | _ => True

structure Sound (c : Config) (s : State) : Prop where
  stored : Stored c s.engine
  phaseOk : PhaseOk s
  justified : ∀ e ∈ s.results, Justified e

theorem justified_snoc {results : List Completed} {e : Completed}
    (h : ∀ e ∈ results, Justified e) (he : Justified e) :
    ∀ other ∈ results ++ [e], Justified other := by
  intro other hother
  simp only [List.mem_append, List.mem_singleton] at hother
  cases hother with
  | inl hold => exact h other hold
  | inr heq => exact heq ▸ he

/-- A result that is read from the stored bytes is in the answer. -/
theorem result_justified {c : Config} {expected beforePayload : Option (List UInt8)} {stale : ℕ}
    {fresh : List UInt8} {result : Result} (hstale : NoneStale c expected stale fresh)
    (hterm : responseTerminated (fresh.take (c.rxBufSize-1)) expected = some result)
    (hpayload : ∀ before ∈ beforePayload, promptMark ∈ before) :
    Justified ⟨expected, result, fresh.drop stale, beforePayload⟩ := by
  by_cases hok : result = .ok
  · subst hok
    constructor
    · intro _
      exact contains_answer hstale (List.mem_cons_self ..) (responseTerminated_ok hterm)
    · simp
    · simp
    · simp
    · exact hpayload
  · obtain ⟨rfl, text, htext, hfound⟩ := responseTerminated_result hterm hok
    constructor
    · simp
    · intro _
      exact ⟨text, htext, contains_answer hstale (List.mem_cons_of_mem _ htext) hfound⟩
    · simp
    · simp
    · exact hpayload

/-- A call that times out has not received a result. -/
theorem timeout_justified {c : Config} {expected beforePayload : Option (List UInt8)} {stale : ℕ}
    {fresh : List UInt8} (hstored : ResultStored c expected stale fresh)
    (hterm : responseTerminated (fresh.take (c.rxBufSize-1)) expected = none)
    (hpayload : ∀ before ∈ beforePayload, promptMark ∈ before) :
    Justified ⟨expected, .timeout, fresh.drop stale, beforePayload⟩ := by
  constructor
  · simp
  · simp
  · intro _ text htext hcontains
    obtain ⟨found, hfound, hbuf⟩ := stored_found hstored ⟨text, htext, hcontains⟩
    simp [responseTerminated_none hterm found hfound] at hbuf
  · simp
  · exact hpayload

theorem waitTurn_sound {c : Config} {r : Router} {s : State} {expected : Option (List UInt8)}
    {stale : ℕ} {start : UInt32} {timeoutMs : ℕ} {beforePayload : Option (List UInt8)}
    (now after : UInt32) (h : Sound c s)
    (hphase : s.phase = .waiting expected stale start timeoutMs beforePayload)
    (hclear : NoneStale c expected stale (s.engine.fresh ++ s.engine.uart) ∧
      ResultStored c expected stale (s.engine.fresh ++ s.engine.uart)) :
    let next := waitTurn c r s expected stale start timeoutMs beforePayload now after
    PhaseOk next ∧ ∀ e ∈ next.results, Justified e := by
  have hfresh : (drainUart c r s.engine).fresh = s.engine.fresh ++ s.engine.uart := by
    simp [drainUart, absorb_fresh]
  have hstored : (drainUart c r s.engine).rxBuf =
      (s.engine.fresh ++ s.engine.uart).take (c.rxBufSize-1) := by
    rw [← hfresh]
    exact moves_stored (moves_drain c r s.engine) h.stored
  have hpayload : ∀ before ∈ beforePayload, promptMark ∈ before := by
    have hok := h.phaseOk
    simpa [PhaseOk, hphase] using hok
  simp only [waitTurn, hstored, answer, hfresh]
  cases hterm : responseTerminated ((s.engine.fresh ++ s.engine.uart).take (c.rxBufSize-1))
      expected with
  | some result =>
    have hjustified := result_justified hclear.1 hterm hpayload
    simp only
    split_ifs
    · exact ⟨hjustified, h.justified⟩
    · exact ⟨trivial, justified_snoc h.justified hjustified⟩
  | none =>
    simp only
    split_ifs
    · exact ⟨trivial, justified_snoc h.justified (timeout_justified hclear.2 hterm hpayload)⟩
    · constructor
      · simpa [PhaseOk, hphase] using hpayload
      · exact h.justified

theorem promptTurn_sound {c : Config} {r : Router} {s : State} {data : List UInt8} {stale : ℕ}
    {start : UInt32} {promptMs respMs : ℕ} (now after : UInt32) (h : Sound c s)
    (hphase : s.phase = .prompting data stale start promptMs respMs) :
    let next := promptTurn c r s data stale start promptMs respMs now after
    PhaseOk next ∧ ∀ e ∈ next.results, Justified e := by
  have hunprompted : Unprompted s.engine stale := by
    have hok := h.phaseOk
    simpa [PhaseOk, hphase] using hok
  simp only [promptTurn]
  split_ifs with helapsed hmark
  · constructor
    · trivial
    · apply justified_snoc h.justified
      obtain ⟨_, drained, _, hle, hfresh, _⟩ := hunprompted
      have hnone : promptMark ∉ answer s.engine stale := by
        intro hanswer
        apply hfresh
        have hsuffix := List.drop_suffix_drop_left s.engine.fresh hle
        exact hsuffix.subset hanswer
      constructor
      · simp
      · simp
      · simp
      · intro _
        exact hnone
      · simp
  · constructor
    · simpa [PhaseOk, answer] using prompt_in_answer hunprompted hmark
    · exact h.justified
  · constructor
    · simpa [PhaseOk, hphase] using unprompted_drain hunprompted hmark
    · exact h.justified

theorem turn_sound {c : Config} {r : Router} {s : State} (now after : UInt32) (h : Sound c s)
    (hclear : Unmisled c s (.turn now after)) :
    PhaseOk (turn c r s now after) ∧ ∀ e ∈ (turn c r s now after).results, Justified e := by
  cases hphase : s.phase with
  | idle => exact ⟨by simpa [turn, hphase] using h.phaseOk, by simpa [turn, hphase] using h.justified⟩
  | issuing command =>
    exact ⟨by simpa [turn, hphase] using h.phaseOk, by simpa [turn, hphase] using h.justified⟩
  | prompting data stale start promptMs respMs =>
    simpa [turn, hphase] using promptTurn_sound now after h hphase
  | waiting expected stale start timeoutMs beforePayload =>
    simp only [Unmisled, hphase] at hclear
    simpa [turn, hphase] using waitTurn_sound now after h hphase hclear
  | tail start completed =>
    have hcompleted : Justified completed := by
      have hok := h.phaseOk
      simpa [PhaseOk, hphase] using hok
    simp only [turn, hphase, tailTurn]
    split_ifs
    · exact ⟨trivial, justified_snoc h.justified hcompleted⟩
    · exact ⟨trivial, justified_snoc h.justified hcompleted⟩
    · exact ⟨by simpa [PhaseOk, hphase] using hcompleted, h.justified⟩
  | listening ready start lastByte totalMs readySeen preserve =>
    simp only [turn, hphase, listenTurn]
    split_ifs <;> exact ⟨trivial, h.justified⟩

theorem write_sound {c : Config} {r : Router} {s : State} (now after : UInt32) (h : Sound c s)
    (hclear : Unmisled c s (.write now after)) :
    PhaseOk (step c r s (.write now after)) ∧
      ∀ e ∈ (step c r s (.write now after)).results, Justified e := by
  cases hphase : s.phase with
  | issuing command =>
    simp only [step, hphase]
    cases command with
    | send cmd expected timeoutMs => exact ⟨by simp [PhaseOk, writeCommand], h.justified⟩
    | sendWithData cmd data promptMs respMs =>
      simp only [Unmisled, hphase] at hclear
      simp only [writeCommand, if_neg hclear.1]
      constructor
      · refine ⟨le_refl _, s.engine.fresh.length, le_refl _, by omega, ?_, ?_⟩
        · simp
        · rw [List.take_of_length_le (by simp), List.drop_left]
          exact hclear.2
      · exact h.justified
  | _ => exact ⟨by simpa [step, hphase] using h.phaseOk, by simpa [step, hphase] using h.justified⟩

theorem step_sound {c : Config} {r : Router} (s : State) (i : Input) (h : Sound c s)
    (hclear : Unmisled c s i) : Sound c (step c r s i) := by
  have hstored := step_stored r i h.stored
  have hrest : PhaseOk (step c r s i) ∧ ∀ e ∈ (step c r s i).results, Justified e := by
    cases i with
    | arrive bytes =>
      constructor
      · have hok := h.phaseOk
        unfold PhaseOk at hok ⊢
        simp only [step]
        cases hphase : s.phase with
        | prompting data stale start promptMs respMs =>
          simp only [hphase] at hok
          exact unprompted_arrive bytes hok
        | waiting expected stale start timeoutMs beforePayload => simpa only [hphase] using hok
        | tail start completed => simpa only [hphase] using hok
        | idle => trivial
        | issuing command => trivial
        | listening ready start lastByte totalMs readySeen preserve => trivial
      · exact h.justified
    | turn now after => exact turn_sound now after h hclear
    | write now after => exact write_sound now after h hclear
    | issue command =>
      cases hphase : s.phase with
      | idle => exact ⟨by simp [step, hphase, PhaseOk], by simpa [step, hphase] using h.justified⟩
      | _ =>
        exact ⟨by simpa [step, hphase] using h.phaseOk, by simpa [step, hphase] using h.justified⟩
    | listen ready totalMs preserve now =>
      cases hphase : s.phase with
      | idle =>
        exact ⟨by simp [step, hphase, listen, PhaseOk],
          by simpa [step, hphase, listen] using h.justified⟩
      | _ =>
        exact ⟨by simpa [step, hphase] using h.phaseOk, by simpa [step, hphase] using h.justified⟩
    | urcPoll =>
      cases hphase : s.phase with
      | idle => exact ⟨by simp [step, hphase, PhaseOk], by simpa [step, hphase] using h.justified⟩
      | _ =>
        exact ⟨by simpa [step, hphase] using h.phaseOk, by simpa [step, hphase] using h.justified⟩
  exact ⟨hstored, hrest.1, hrest.2⟩

theorem start_sound (c : Config) : Sound c start := by
  constructor
  · simp [Stored, start]
  · trivial
  · simp [start]

/-- In a run whose calls are not misled, every result rests on the answer to its
command, and no call times out on an answer that holds a result. -/
theorem results_justified (c : Config) (r : Router) (inputs : List Input)
    (hclear : Along (step c r) (Unmisled c) start inputs) :
    ∀ e ∈ (runFrom (step c r) start inputs).results, Justified e := by
  have hsound := along_run step_sound (start_sound c) hclear
  exact hsound.justified

def ring : List UInt8 := ascii "RING" ++ [13, 10]

/-- A line that came before the command is drained before it is written. -/
def staleAnswer : List Input :=
  [.arrive ring, .issue (.send (ascii "AT") none 100), .write 0 0, .arrive okText, .turn 1 1]

theorem results_justified_stale :
    (runFrom (step defaultConfig oneHandler) start staleAnswer).results =
        [⟨none, .ok, okText, none⟩] ∧ Justified ⟨none, .ok, okText, none⟩ := by
  have hresults : (runFrom (step defaultConfig oneHandler) start staleAnswer).results =
      [⟨none, .ok, okText, none⟩] := by
    decide +kernel
  refine ⟨hresults, results_justified _ _ _ ?_ _ (hresults ▸ List.mem_singleton_self _)⟩
  have hnone : NoneStale defaultConfig none 6 (ring ++ okText) := by
    intro text hin _ before behind hsplit
    have hplaces : ∀ k < 6, ∀ text ∈ finals none, ¬text <+: (ring ++ okText).drop k := by
      decide +kernel
    have hall : cString ((ring ++ okText).take (defaultConfig.rxBufSize-1)) = ring ++ okText := by
      decide +kernel
    by_contra hearly
    apply hplaces before.length (Nat.lt_of_not_le hearly) text hin
    rw [← hall, hsplit, List.append_assoc, List.drop_left]
    exact List.prefix_append text behind
  have hstored : ResultStored defaultConfig none 6 (ring ++ okText) := by
    intro _
    refine ⟨12, by decide, by decide, okText, by simp [finals, successText], by decide, ?_⟩
    exact ⟨[], [], by decide⟩
  exact ⟨trivial, trivial, trivial, trivial, ⟨hnone, hstored⟩, trivial⟩

def lateAnswer : List Input :=
  [.issue (.send (ascii "AT+CSQ") none 100), .write 0 0, .turn 100 100, .arrive okText,
    .issue (.send (ascii "AT+CPIN?") none 100), .write 200 200, .turn 201 201]

def longAnswer : List Input :=
  [.issue (.send (ascii "AT+CMGL") none 100), .write 0 0,
    .arrive (List.replicate 511 65 ++ okText), .turn 100 100]

theorem late_answer_decides :
    ((runFrom (step defaultConfig oneHandler) start lateAnswer).results =
        [⟨none, .timeout, [], none⟩, ⟨none, .ok, [], none⟩] ∧
      ¬Justified ⟨none, .ok, [], none⟩) ∧
    (runFrom (step defaultConfig oneHandler) start longAnswer).results =
        [⟨none, .timeout, List.replicate 511 65 ++ okText, none⟩] ∧
      ¬Justified ⟨none, .timeout, List.replicate 511 65 ++ okText, none⟩ := by
  constructor
  · constructor
    · decide +kernel
    · intro hjustified
      have hok := (hjustified.ok rfl).2
      simp [successText, okText] at hok
  constructor
  · decide +kernel
  · intro hjustified
    apply hjustified.timeout rfl okText (List.mem_cons_self ..)
    refine ⟨by decide, List.replicate 511 65, [], ?_⟩
    exact List.append_nil _

end JaszczurHal.ModemAt
