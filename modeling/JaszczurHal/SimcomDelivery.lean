import JaszczurHal.SimcomMessages

/-!
# Messages whole and once

In every run that hands each message over before the next one starts, the
callback has been given the messages whose last line has been received, in order.
-/

set_option autoImplicit false

namespace JaszczurHal.SimcomMqtt
open WebSocketHandshake (ascii)
open ModemAt StepRuns

def endPrefix : List UInt8 := ascii "+CMQTTRXEND:"

def endCount (lines : List (List UInt8)) : ℕ := lines.countP fun line => endPrefix.isPrefixOf line

def pending (d : Driver) : List Message :=
  if d.rx.complete then [⟨d.rx.clientIndex, d.rx.topic, d.rx.payload⟩] else []

theorem endLine_leads (m : Sent) : endPrefix.isPrefixOf (endLine m) = true := rfl

theorem not_end_text {text : List UInt8} (h : PlainText text) : endPrefix.isPrefixOf text = false := by
  rw [Bool.eq_false_iff]
  intro hleads
  obtain ⟨rest, rfl⟩ := List.isPrefixOf_iff_prefix.mp hleads
  exact h.noResult rfl

theorem endCount_message {c : Config} {m : Sent} (hm : PlainMessage c m) :
    endCount (messageLines m) = 1 := by
  have hstart : endPrefix.isPrefixOf (startLine m) = false := rfl
  have htopic : endPrefix.isPrefixOf (topicLine m) = false := rfl
  have hpayload : endPrefix.isPrefixOf (payloadLine m) = false := rfl
  rw [messageLines_eq hm]
  by_cases hempty : m.payload = []
  · simp [endCount, hempty, hstart, htopic, hpayload, not_end_text hm.topic, endLine_leads]
  · simp [endCount, hempty, hstart, htopic, hpayload, not_end_text hm.topic,
      not_end_text hm.payload, endLine_leads]

theorem endCount_reading {c : Config} {m : Sent} (hm : PlainMessage c m)
    {part : List (List UInt8)} {rx : Rx} (h : Reading m part rx) : endCount part = 0 := by
  have hstart : endPrefix.isPrefixOf (startLine m) = false := rfl
  have htopic : endPrefix.isPrefixOf (topicLine m) = false := rfl
  have hpayload : endPrefix.isPrefixOf (payloadLine m) = false := rfl
  cases h <;> simp [endCount, hstart, htopic, hpayload, not_end_text hm.topic,
    not_end_text hm.payload]

theorem endCount_messages {c : Config} {ms : List Sent} (hms : ∀ m ∈ ms, PlainMessage c m) :
    endCount (ms.flatMap messageLines) = ms.length := by
  induction ms with
  | nil => rfl
  | cons m ms ih =>
    have hrest := ih fun other hother => hms other (List.mem_cons_of_mem _ hother)
    have hm := endCount_message (hms m (List.mem_cons_self ..))
    unfold endCount at hm hrest ⊢
    rw [List.flatMap_cons, List.countP_append, hm, hrest, List.length_cons]
    omega

theorem endCount_append (lines more : List (List UInt8)) :
    endCount (lines ++ more) = endCount lines + endCount more :=
  List.countP_append

theorem tracks_delivered {c : Config} {ms : List Sent} (hms : ∀ m ∈ ms, PlainMessage c m)
    {d : Driver} {lines : List (List UInt8)} (h : Tracks ms d lines) :
    d.delivered ++ pending d = (ms.take (endCount lines)).map Sent.message := by
  cases h with
  | @between done todo hsplit hrx hdelivered =>
    have hdone : ∀ m ∈ done, PlainMessage c m := by
      intro m hm
      exact hms m (by simp [hsplit, hm])
    have hpending : pending d = [] := by simp [pending, hrx, rxReset]
    rw [endCount_messages hdone, hsplit, List.take_left, hdelivered, hpending, List.append_nil]
  | @within done todo m part hsplit hreading hdelivered =>
    have hdone : ∀ m ∈ done, PlainMessage c m := by
      intro m hm
      exact hms m (by simp [hsplit, hm])
    have hpending : pending d = [] := by simp [pending, reading_unfinished hreading]
    have hpart := endCount_reading (hms m (by simp [hsplit])) hreading
    rw [endCount_append, hpart, Nat.add_zero, endCount_messages hdone, hsplit, List.take_left,
      hdelivered, hpending, List.append_nil]
  | @ended done todo m hsplit hwhole hdelivered =>
    have hdone : ∀ other ∈ done ++ [m], PlainMessage c other := by
      intro other hother
      apply hms other
      rw [hsplit, List.append_cons]
      exact List.mem_append_left _ hother
    have hpending : pending d = [m.message] := by
      simp [pending, hwhole.complete, hwhole.clientIndex, hwhole.topic, hwhole.payload,
        Sent.message]
    rw [endCount_messages hdone, hsplit, List.append_cons done m todo, List.take_left, hdelivered,
      hpending]
    simp

/-- Lines that end no message but with their last one. -/
theorem lines_step {c : Config} {ms : List Sent} (hms : ∀ m ∈ ms, PlainMessage c m) {d : Driver}
    {lines more : List (List UInt8)} (h : Tracks ms d lines)
    (hopen : more ≠ [] → d.rx.complete = false)
    (hends : ∀ line ∈ more.dropLast, endPrefix.isPrefixOf line = false)
    (hnext : lines ++ more <+: ms.flatMap messageLines) :
    SameFlags d (more.foldl onLine d) ∧ Tracks ms (more.foldl onLine d) (lines ++ more) := by
  induction more generalizing d lines with
  | nil => exact ⟨⟨rfl, rfl⟩, by simpa using h⟩
  | cons line more ih =>
    rw [List.append_cons] at hnext ⊢
    obtain ⟨hflags, htracks, hend⟩ := line_step hms h (hopen (by simp))
      ((List.prefix_append _ _).trans hnext)
    have hstill : more ≠ [] → (onLine d line).rx.complete = false := by
      intro hsome
      rw [Bool.eq_false_iff]
      intro hcomplete
      obtain ⟨m, _, rfl⟩ := hend hcomplete
      have hnot := hends (endLine m) (by rw [List.dropLast_cons_of_ne_nil hsome]; simp)
      rw [endLine_leads] at hnot
      cases hnot
    have hlater : ∀ other ∈ more.dropLast, endPrefix.isPrefixOf other = false := by
      intro other hother
      have hsome : more ≠ [] := by
        intro hempty
        simp [hempty] at hother
      exact hends other (by rw [List.dropLast_cons_of_ne_nil hsome]; simp [hother])
    obtain ⟨hrest, hall⟩ := ih htracks hstill hlater hnext
    exact ⟨⟨hrest.1.trans hflags.1, hrest.2.trans hflags.2⟩, hall⟩

theorem feed_deliveries (d : Driver) (events : List Event) :
    feed d (deliveries events) = feed d events := by
  induction events generalizing d with
  | nil => rfl
  | cons event events ih =>
    cases event with
    | written data => exact ih d
    | observed line => exact ih _
    | handled u line => exact ih _

theorem feed_lines (d : Driver) (lines : List (List UInt8)) :
    feed d (lines.flatMap (dispatchLine mqttRouter)) = lines.foldl onLine d := by
  induction lines generalizing d with
  | nil => rfl
  | cons line lines ih =>
    rw [List.flatMap_cons, feed, List.foldl_append]
    exact ih _

/-- A run of the modem: the engine moves, or the application polls. -/
inductive ModemInput where
  | engine (i : Input)
  | mqttPoll

def engineInput : ModemInput → Input
  | .engine i => i
  | .mqttPoll => .urcPoll

def stepModem (c : Config) (m : Modem) : ModemInput → Modem
  | .engine i => advance c m i
  | .mqttPoll => mqttPoll c m

def startModem (connected : Fin 2 → Bool) (results : Fin 2 → Option ℤ) : Modem :=
  ⟨start, ⟨rxReset, connected, results, []⟩⟩

def completed (c : Config) (m : Modem) (i : Input) : List (List UInt8) :=
  (linesOf c (step c mqttRouter m.state i).engine.stream).drop
    (linesOf c m.state.engine.stream).length

/-- No line is lost half received, and nothing is received behind the end of a
message before a poll has handed it over. -/
def Undisturbed (c : Config) (m : Modem) (i : ModemInput) : Prop :=
  BetweenLines m.state (engineInput i) ∧
    (completed c m (engineInput i) ≠ [] → m.driver.rx.complete = false) ∧
    ∀ line ∈ (completed c m (engineInput i)).dropLast, endPrefix.isPrefixOf line = false

instance (c : Config) (m : Modem) (i : ModemInput) : Decidable (Undisturbed c m i) :=
  inferInstanceAs (Decidable (BetweenLines m.state (engineInput i) ∧ _ ∧ _))

structure InStep (c : Config) (ms : List Sent) (first : Driver) (m : Modem) : Prop where
  routed : Routed c mqttRouter m.state.engine
  tracks : Tracks ms m.driver (linesOf c m.state.engine.stream)
  flags : SameFlags first m.driver

theorem handOver_tracks {ms : List Sent} {c : Config} (hms : ∀ m ∈ ms, PlainMessage c m)
    {d : Driver} {lines : List (List UInt8)} (h : Tracks ms d lines) :
    Tracks ms (handOver d) lines := by
  cases h with
  | between hsplit hrx hdelivered =>
    have hsame : handOver d = d := by simp [handOver, hrx, rxReset]
    rw [hsame]
    exact .between hsplit hrx hdelivered
  | within hsplit hreading hdelivered =>
    have hsame : handOver d = d := by simp [handOver, reading_unfinished hreading]
    rw [hsame]
    exact .within hsplit hreading hdelivered
  | @ended done todo m hsplit hwhole hdelivered =>
    have htopic : d.rx.topic ≠ [] := by
      rw [hwhole.topic]
      exact (hms m (by simp [hsplit])).topicSome
    have hsplit' : ms = (done ++ [m]) ++ todo := by simp [hsplit]
    have hmessage : (⟨d.rx.clientIndex, d.rx.topic, d.rx.payload⟩ : Message) = m.message := by
      rw [hwhole.clientIndex, hwhole.topic, hwhole.payload]
      rfl
    apply Tracks.between hsplit'
    · simp [handOver, hwhole.complete]
    · simp [handOver, hwhole.complete, htopic, hdelivered, hmessage]

theorem handOver_flags (d : Driver) : SameFlags d (handOver d) := by
  unfold handOver
  split_ifs <;> exact ⟨rfl, rfl⟩

theorem handOver_pending (d : Driver) : pending (handOver d) = [] := by
  by_cases hcomplete : d.rx.complete = true
  · simp [pending, handOver, hcomplete, rxReset]
  · simp [pending, handOver, hcomplete]

/-- The driver hears of the lines that the step completes. -/
theorem advance_lines {c : Config} {m : Modem} {i : Input}
    (hrouted : Routed c mqttRouter m.state.engine) (hbetween : BetweenLines m.state i) :
    Routed c mqttRouter (advance c m i).state.engine ∧
      linesOf c (advance c m i).state.engine.stream =
        linesOf c m.state.engine.stream ++ completed c m i ∧
      (advance c m i).driver = (completed c m i).foldl onLine m.driver := by
  have hafter := step_routed m.state i hrouted hbetween
  obtain ⟨lines, hlines, hevents⟩ := step_dispatches hrouted hafter
  have hcompleted : completed c m i = lines := by
    rw [completed, hlines, List.drop_left]
  rw [hcompleted]
  constructor
  · exact hafter
  constructor
  · exact hlines
  · rw [← feed_lines, ← hevents, feed_deliveries]
    rfl

theorem advance_inStep {c : Config} {ms : List Sent} (hms : ∀ m ∈ ms, PlainMessage c m)
    {first : Driver} {m : Modem} {i : ModemInput} (h : InStep c ms first m)
    (hclear : Undisturbed c m i)
    (hstream : (step c mqttRouter m.state (engineInput i)).engine.stream <+: ms.flatMap encode) :
    InStep c ms first (advance c m (engineInput i)) := by
  obtain ⟨hrouted, hlines, hdriver⟩ := advance_lines h.routed hclear.1
  have hnext : linesOf c m.state.engine.stream ++ completed c m (engineInput i) <+:
      ms.flatMap messageLines := by
    obtain ⟨rest, hrest⟩ := hstream
    rw [← hlines, ← linesOf_messages hms, ← hrest]
    exact linesOf_append c _ rest
  obtain ⟨hflags, htracks⟩ := lines_step hms h.tracks hclear.2.1 hclear.2.2 hnext
  constructor
  · exact hrouted
  · rw [hdriver, hlines]
    exact htracks
  · rw [hdriver]
    exact ⟨hflags.1.trans h.flags.1, hflags.2.trans h.flags.2⟩

theorem stepModem_inStep {c : Config} {ms : List Sent} (hms : ∀ m ∈ ms, PlainMessage c m)
    {first : Driver} {m : Modem} {i : ModemInput} (h : InStep c ms first m)
    (hclear : Undisturbed c m i)
    (hstream : (step c mqttRouter m.state (engineInput i)).engine.stream <+: ms.flatMap encode) :
    InStep c ms first (stepModem c m i) := by
  have hadvance := advance_inStep hms h hclear hstream
  cases i with
  | engine i => exact hadvance
  | mqttPoll =>
    unfold stepModem mqttPoll
    cases m.state.phase with
    | idle =>
      have hflags := handOver_flags (advance c m .urcPoll).driver
      exact ⟨hadvance.routed, handOver_tracks hms hadvance.tracks,
        ⟨hflags.1.trans hadvance.flags.1, hflags.2.trans hadvance.flags.2⟩⟩
    | _ => exact h

/-- The engine of the modem takes the step of its input. -/
theorem stepModem_state (c : Config) (m : Modem) (i : ModemInput) :
    (stepModem c m i).state = step c mqttRouter m.state (engineInput i) := by
  cases i with
  | engine i => rfl
  | mqttPoll =>
    unfold stepModem mqttPoll
    cases hphase : m.state.phase with
    | idle => rfl
    | _ => simp [step, engineInput, hphase]

theorem run_inStep {c : Config} {ms : List Sent} (hms : ∀ m ∈ ms, PlainMessage c m)
    {first : Driver} {m : Modem} {inputs : List ModemInput} (h : InStep c ms first m)
    (hclear : Along (stepModem c) (Undisturbed c) m inputs)
    (hstream : m.state.engine.stream ++ m.state.engine.uart ++
      (inputs.flatMap fun i => arrived (engineInput i)) <+: ms.flatMap encode) :
    InStep c ms first (runFrom (stepModem c) m inputs) := by
  induction inputs generalizing m with
  | nil => exact h
  | cons i inputs ih =>
    have hkept := (step_stream c mqttRouter m.state (engineInput i)).2
    rw [List.flatMap_cons, ← List.append_assoc, ← hkept] at hstream
    have hnow : (step c mqttRouter m.state (engineInput i)).engine.stream <+: ms.flatMap encode :=
      ((List.prefix_append _ _).trans (List.prefix_append _ _)).trans hstream
    apply ih (stepModem_inStep hms h hclear.1 hnow) hclear.2
    rw [stepModem_state]
    exact hstream

/-- Plain messages that are handed over one by one reach the callback whole, once
and in order, and leave the connection flags alone. -/
theorem messages_whole (c : Config) (ms : List Sent) (connected : Fin 2 → Bool)
    (results : Fin 2 → Option ℤ) (inputs : List ModemInput)
    (hms : ∀ m ∈ ms, PlainMessage c m)
    (hstream : (inputs.flatMap fun i => arrived (engineInput i)) <+: ms.flatMap encode)
    (hclear : Along (stepModem c) (Undisturbed c) (startModem connected results) inputs) :
    let m := runFrom (stepModem c) (startModem connected results) inputs
    m.driver.delivered ++ pending m.driver =
        (ms.take (endCount (linesOf c m.state.engine.stream))).map Sent.message ∧
      m.driver.connected = connected ∧ m.driver.lastConnectResult = results ∧
      (m.state.phase = .idle → pending (mqttPoll c m).driver = []) := by
  have hstart : InStep c ms ⟨rxReset, connected, results, []⟩ (startModem connected results) := by
    constructor
    · exact start_routed c mqttRouter
    · have hlines : linesOf c (startModem connected results).state.engine.stream =
          ([] : List Sent).flatMap messageLines := linesOf_nil c
      rw [hlines]
      exact .between (List.nil_append ms).symm rfl rfl
    · exact ⟨rfl, rfl⟩
  have hrun := run_inStep hms hstart hclear (by simpa [startModem, start] using hstream)
  intro m
  constructor
  · exact tracks_delivered hms hrun.tracks
  constructor
  · exact hrun.flags.1
  constructor
  · exact hrun.flags.2
  · intro hidle
    simp only [mqttPoll, hidle]
    exact handOver_pending _

-- the literals below share one proof that there is a client
attribute [local instance] client_exists

def hello : Sent := ⟨0, ascii "test/topic", ascii "hello"⟩

def world : Sent := ⟨0, ascii "test/topic", ascii "world"⟩

def bothConnected : Modem := startModem (fun _ => true) (fun _ => none)

/-- The second message arrives in two pieces, with a poll between them. -/
def helloWorld : List ModemInput :=
  [.engine (.arrive (encode hello)), .mqttPoll, .engine (.arrive ((encode world).take 40)),
    .mqttPoll, .engine (.arrive ((encode world).drop 40)), .mqttPoll]

theorem messages_whole_hello :
    let m := runFrom (stepModem defaultConfig) bothConnected helloWorld
    m.driver.delivered ++ pending m.driver = [hello.message, world.message] := by
  have hplain : ∀ m ∈ [hello, world], PlainMessage defaultConfig m := by
    have hquiet : ∀ m ∈ [hello, world], ∀ text ∈ [m.topic, m.payload], Quiet text := by
      unfold Quiet
      decide +kernel
    have hfit : ∀ m ∈ [hello, world], m.topic.head? ≠ some plus ∧ m.payload.head? ≠ some plus ∧
        m.topic ≠ [] ∧ m.topic.length < topicMax ∧ m.payload.length ≤ payloadMax ∧
        ∀ part ∈ parts m, part.length < defaultConfig.lineMax := by
      decide +kernel
    intro m hm
    obtain ⟨htopic, hpayload, hsome, htopicFits, hpayloadFits, hparts⟩ := hfit m hm
    exact ⟨⟨hquiet m hm m.topic (by simp), htopic⟩, ⟨hquiet m hm m.payload (by simp), hpayload⟩,
      hsome, htopicFits, hpayloadFits, hparts⟩
  have hclear : Along (stepModem defaultConfig) (Undisturbed defaultConfig) bothConnected
      helloWorld := by
    decide +kernel
  have hwhole := messages_whole defaultConfig [hello, world] (fun _ => true) (fun _ => none)
    helloWorld hplain (by decide +kernel) hclear
  exact hwhole.1.trans (by decide +kernel)

/-- Two messages in one poll: the first is lost. A payload with a line end loses
what follows it. A payload that reads like a result changes a connection flag. -/
theorem messages_not_whole :
    (runFrom (stepModem defaultConfig) bothConnected
        [.engine (.arrive (encode hello ++ encode world)), .mqttPoll]).driver.delivered =
      [world.message] ∧
    (runFrom (stepModem defaultConfig) bothConnected
        [.engine (.arrive (encode ⟨0, ascii "t", [97, 13, 10, 98]⟩)), .mqttPoll]).driver.delivered =
      [⟨0, ascii "t", [97]⟩] ∧
    (runFrom (stepModem defaultConfig) bothConnected
        [.engine (.arrive (encode ⟨0, ascii "t", ascii "+CMQTTCONNLOST: 1,1"⟩)),
          .mqttPoll]).driver.connected 1 = false := by
  constructor
  · decide +kernel
  constructor
  · decide +kernel
  · decide +kernel

end JaszczurHal.SimcomMqtt
