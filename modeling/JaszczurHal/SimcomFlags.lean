import JaszczurHal.ModemAnswers
import JaszczurHal.SimcomDelivery

/-!
# MQTT sessions of the SimCom modem

A connect tears the old session down, command by command, before it starts the
new one. The connection flags are set where it ends; in between, the handlers
clear them when the modem reports a failure or a loss.
-/

set_option autoImplicit false

namespace JaszczurHal.SimcomMqtt
open WebSocketHandshake (ascii cString)
open ModemAt StepRuns
open SerialFrame (decimal)

structure SslConfig where
  contextId : ℕ
  caCertName : Option (List UInt8)
  ignoreLocalTime : Bool
  enableSni : Bool
  sslVersion : ℕ
  authMode : ℕ

structure MqttConfig where
  brokerHost : List UInt8
  brokerPort : UInt16
  clientId : List UInt8
  credentials : Option (List UInt8 × List UInt8)
  keepaliveS : UInt16
  cleanSession : Bool
  clientIndex : Fin 2
  ssl : Option SslConfig

/-- A command of a connect or a disconnect: its text, the buffer it is printed to,
the clients whose session it ends, and whether its failure ends the call. -/
structure Step where
  text : List UInt8
  size : ℕ
  expected : List UInt8
  timeoutMs : ℕ
  closes : Fin 2 → Bool
  required : Bool

inductive CallResult where
  | ok
  | error
  | timeout
  | invalidArg
  deriving DecidableEq

def mapAt : Result → CallResult
  | .ok => .ok
  | .error => .error
  | .timeout => .timeout
  | .noPrompt => .error

def quoted (text : List UInt8) : List UInt8 := 34 :: text ++ [34]

def flag (value : Bool) : List UInt8 := if value then ascii "1" else ascii "0"

def clientText (i : Fin 2) : List UInt8 := decimal i.val

def onlyClient (i : Fin 2) : Fin 2 → Bool := fun j => decide (j = i)

def plainStep (text : List UInt8) (size : ℕ) (expected : String) (timeoutMs : ℕ)
    (required : Bool) : Step :=
  ⟨text, size, ascii expected, timeoutMs, fun _ => false, required⟩

def discStep (i : Fin 2) (size timeoutMs : ℕ) : Step :=
  ⟨ascii "AT+CMQTTDISC=" ++ clientText i ++ ascii ",10", size, ascii "OK", timeoutMs,
    onlyClient i, false⟩

def teardown (i : Fin 2) : List Step :=
  [discStep i 320 3000,
    ⟨ascii "AT+CMQTTREL=" ++ clientText i, 320, ascii "OK", 2000, onlyClient i, false⟩,
    ⟨ascii "AT+CMQTTSTOP", 320, ascii "OK", 3000, fun _ => true, false⟩]

def sslStep (name : String) (s : SslConfig) (value : List UInt8) : Step :=
  plainStep (ascii "AT+CSSLCFG=" ++ quoted (ascii name) ++ ascii "," ++ decimal s.contextId ++
    ascii "," ++ value) 128 "OK" 5000 false

def applySsl (s : SslConfig) : List Step :=
  [sslStep "sslversion" s (decimal (if s.sslVersion = 0 then 4 else s.sslVersion)),
    sslStep "authmode" s (decimal (if s.authMode = 0 then 1 else s.authMode))] ++
  (match s.caCertName with
    | none => []
    | some name => if name = [] then [] else [sslStep "cacert" s (quoted name)]) ++
  [sslStep "ignorelocaltime" s (flag s.ignoreLocalTime), sslStep "enableSNI" s (flag s.enableSni)]

def connectText (cfg : MqttConfig) : List UInt8 :=
  ascii "AT+CMQTTCONNECT=" ++ clientText cfg.clientIndex ++ ascii "," ++
    quoted (ascii "tcp://" ++ cfg.brokerHost ++ ascii ":" ++ decimal cfg.brokerPort.toNat) ++
    ascii "," ++ decimal cfg.keepaliveS.toNat ++ ascii "," ++ flag cfg.cleanSession ++
    (match cfg.credentials with
      | none => []
      | some (username, password) =>
        ascii "," ++ quoted username ++ ascii "," ++ quoted password)

/-- The commands of `hal_simcom_a76xx_mqtt_connect`; it sleeps for a second behind
the teardown and receives nothing meanwhile. -/
def connectSteps (cfg : MqttConfig) : List Step :=
  teardown cfg.clientIndex ++
  (match cfg.ssl with
    | none => []
    | some s => applySsl s) ++
  [plainStep (ascii "AT+CMQTTSTART") 320 "+CMQTTSTART: 0" 5000 true,
    plainStep (ascii "AT+CMQTTACCQ=" ++ clientText cfg.clientIndex ++ ascii "," ++
      quoted cfg.clientId ++ ascii "," ++ flag cfg.ssl.isSome) 320 "OK" 5000 true] ++
  (match cfg.ssl with
    | none => []
    | some s =>
      [plainStep (ascii "AT+CMQTTSSLCFG=" ++ clientText cfg.clientIndex ++ ascii "," ++
        decimal s.contextId) 320 "OK" 5000 false]) ++
  [⟨connectText cfg, 320, ascii "+CMQTTCONNECT: " ++ clientText cfg.clientIndex ++ ascii ",0", 15000,
    fun _ => false, true⟩]

inductive SessionEvent where
  | connected
  | failed
  | lost
  | closed
  | powerCycled
  deriving DecidableEq

/-- A connect or a disconnect that runs: the commands from the current one on, and
whether that one has been issued. -/
inductive Call where
  | none
  | running (client : Fin 2) (steps : List Step) (issued connects : Bool)

/-- `lastEvent` is the latest event of a client, from the lines of the stream and
the commands that are written; nothing reads it. -/
structure Session where
  modem : Modem
  call : Call
  returned : List CallResult
  lastEvent : Fin 2 → Option SessionEvent

inductive SessionInput where
  | connect (cfg : MqttConfig)
  | disconnect (client : Fin 2)
  | powerToggle
  | hardReset
  | next
  | modem (i : ModemInput)

def lineEvent (text : List UInt8) (i : Fin 2) : Option SessionEvent :=
  if (ascii "+CMQTTCONNLOST:").isPrefixOf text then
    match (argumentsOf "+CMQTTCONNLOST:" 2 text).head?.bind clientOf with
    | some j => if i = j then some .lost else none
    | none => some .lost
  else
    match parseCmqttResult text "+CMQTTCONNECT:" with
    | some (j, result) =>
      if i = j then some (if result = 0 then .connected else .failed) else none
    | none => none

def noteLine (last : Fin 2 → Option SessionEvent) (line : List UInt8) :
    Fin 2 → Option SessionEvent :=
  fun i => (lineEvent (cString line) i).or (last i)

/-- The engine or a poll moves on; the lines it completes are noted. -/
def receive (c : Config) (s : Session) (i : ModemInput) : Session :=
  { s with
    modem := stepModem c s.modem i
    lastEvent := (completed c s.modem (engineInput i)).foldl noteLine s.lastEvent }

def finish (s : Session) (client : Fin 2) (connected : Bool) (result : CallResult) : Session :=
  { s with
    modem := { s.modem with driver :=
      { s.modem.driver with connected := Function.update s.modem.driver.connected client connected } }
    call := .none
    returned := s.returned ++ [result] }

def giveUp (s : Session) (result : CallResult) : Session :=
  { s with call := .none, returned := s.returned ++ [result] }

def setResult (s : Session) (client : Fin 2) (result : Option ℤ) : Session :=
  { s with modem := { s.modem with driver :=
    { s.modem.driver with
      lastConnectResult := Function.update s.modem.driver.lastConnectResult client result } } }

def lastResult (s : Session) : Result := (s.modem.state.results.getLast?.map Completed.result).getD .timeout

/-- The next command goes to the engine, if its text fits; only the printed texts of
required commands and of the TLS set-up are checked. -/
def issueStep (c : Config) (s : Session) (client : Fin 2) (step : Step) (steps : List Step)
    (connects : Bool) : Session :=
  if step.size ≤ step.text.length then giveUp s .invalidArg
  else
    { receive c s (.engine (.issue (.send step.text (some step.expected) step.timeoutMs))) with
      call := .running client (step :: steps) true connects }

def afterStep (s : Session) (client : Fin 2) (step : Step) (steps : List Step) (connects : Bool) :
    Session :=
  if connects then
    if step.required ∧ lastResult s ≠ .ok then
      if steps = [] then finish s client false (mapAt (lastResult s))
      else giveUp s (mapAt (lastResult s))
    else if steps = [] then finish (setResult s client (some 0)) client true .ok
    else { s with call := .running client steps false true }
  else finish s client false (mapAt (lastResult s))

def nextStep (c : Config) (s : Session) : Session :=
  match s.call, s.modem.state.phase with
  | .running client (step :: steps) false connects, .idle => issueStep c s client step steps connects
  | .running client (step :: steps) true connects, .idle => afterStep s client step steps connects
  | _, _ => s

def writeStep (c : Config) (s : Session) (step : Step) (now after : UInt32) : Session :=
  let written := receive c s (.engine (.write now after))
  match s.modem.state.phase with
  | .issuing _ =>
    { written with lastEvent := fun i => if step.closes i then some .closed else written.lastEvent i }
  | _ => written

def modemStep (c : Config) (s : Session) (i : ModemInput) : Session :=
  match s.call, i with
  | .none, i => receive c s i
  | .running _ (step :: _) _ _, .engine (.write now after) => writeStep c s step now after
  | _, .engine (.arrive bytes) => receive c s (.engine (.arrive bytes))
  | _, .engine (.turn now after) => receive c s (.engine (.turn now after))
  | _, _ => s

def power (pwrPin : Bool) (s : Session) : Session :=
  if pwrPin then { s with lastEvent := fun _ => some .powerCycled } else s

def begin (s : Session) (client : Fin 2) (steps : List Step) (connects : Bool) : Session :=
  { s with call := .running client steps false connects }

def sessionStep (c : Config) (pwrPin : Bool) (s : Session) (i : SessionInput) : Session :=
  match i, s.call, s.modem.state.phase with
  | .modem i, _, _ => modemStep c s i
  | .next, _, _ => nextStep c s
  | .powerToggle, .none, .idle => power pwrPin s
  | .hardReset, .none, .idle => power pwrPin (power pwrPin s)
  | .connect cfg, .none, .idle =>
    begin (setResult s cfg.clientIndex none) cfg.clientIndex (connectSteps cfg) true
  | .disconnect client, .none, .idle => begin s client [discStep client 32 5000] false
  | _, _, _ => s

def startSession : Session :=
  ⟨startModem (fun _ => false) (fun _ => none), .none, [], fun _ => none⟩

def isConnected (s : Session) (i : Fin 2) : Bool := s.modem.driver.connected i

def Truthful (s : Session) (i : Fin 2) : Prop :=
  isConnected s i = true → s.lastEvent i = some .connected

theorem feed_append (d : Driver) (events more : List Event) :
    feed d (events ++ more) = feed (feed d events) more :=
  List.foldl_append

def Neutral : Event → Prop
  | .handled u _ => u.cb < 4
  | _ => True

theorem react_neutral (d : Driver) {event : Event} (h : Neutral event) :
    (react d event).connected = d.connected := by
  cases event with
  | written data => rfl
  | observed line =>
    simp only [react, onUrcAny]
    split_ifs <;> rfl
  | handled u line =>
    obtain ⟨urcPrefix, cb⟩ := u
    simp only [Neutral] at h
    interval_cases cb
    · simp only [react, onUrcRxStart]
      split <;> rfl
    · simp only [react, onUrcRxTopic]
      split_ifs
      · split <;> rfl
      · rfl
    · simp only [react, onUrcRxPayload]
      split_ifs
      · split <;> rfl
      · rfl
    · simp only [react, onUrcRxEnd]
      split_ifs <;> rfl

theorem feed_neutral (d : Driver) {events : List Event} (h : ∀ event ∈ events, Neutral event) :
    (feed d events).connected = d.connected := by
  induction events generalizing d with
  | nil => rfl
  | cons event events ih =>
    have hevent := react_neutral d (h event (List.mem_cons_self ..))
    have hrest := ih (react d event) fun other hother => h other (List.mem_cons_of_mem _ hother)
    exact hrest.trans hevent

def lineDrops (text : List UInt8) (i : Fin 2) : Bool :=
  lineEvent text i == some .lost || lineEvent text i == some .failed

theorem disconn_connected (d : Driver) {text : List UInt8}
    (h : (ascii "+CMQTTCONNLOST:").isPrefixOf text = true) (i : Fin 2) :
    (onUrcDisconn d text).connected i = (!lineDrops text i && d.connected i) := by
  unfold onUrcDisconn lineDrops lineEvent
  rw [if_pos h]
  cases (argumentsOf "+CMQTTCONNLOST:" 2 text).head?.bind clientOf with
  | none => simp
  | some j =>
    by_cases hij : i = j
    · subst hij
      simp [disconnected]
    · simp [disconnected, hij]

theorem connect_connected (d : Driver) {text : List UInt8}
    (hlost : (ascii "+CMQTTCONNLOST:").isPrefixOf text = false) (i : Fin 2) :
    (onUrcMqttConnect d text).connected i = (!lineDrops text i && d.connected i) := by
  unfold onUrcMqttConnect lineDrops lineEvent
  simp only [hlost, Bool.false_eq_true, if_false]
  cases parseCmqttResult text "+CMQTTCONNECT:" with
  | none => simp
  | some parsed =>
    obtain ⟨j, result⟩ := parsed
    by_cases hij : i = j
    · subst hij
      by_cases hzero : result = 0
      · simp [hzero]
      · simp [hzero, disconnected]
    · by_cases hzero : result = 0
      · simp [hij, hzero]
      · simp [hij, hzero, disconnected]

theorem lost_not_connect {text : List UInt8}
    (h : (ascii "+CMQTTCONNLOST:").isPrefixOf text = true) :
    (ascii "+CMQTTCONNECT:").isPrefixOf text = false := by
  rw [Bool.eq_false_iff]
  intro hconnect
  rw [List.isPrefixOf_iff_prefix] at h hconnect
  have hboth := List.prefix_of_prefix_length_le hconnect h (by decide)
  revert hboth
  decide

theorem lineDrops_other {text : List UInt8}
    (hlost : (ascii "+CMQTTCONNLOST:").isPrefixOf text = false)
    (hconnect : (ascii "+CMQTTCONNECT:").isPrefixOf text = false) (i : Fin 2) :
    lineDrops text i = false := by
  simp [lineDrops, lineEvent, hlost, parseCmqttResult, hconnect]

theorem onLine_connected (d : Driver) (line : List UInt8) (i : Fin 2) :
    (onLine d line).connected i = (!lineDrops (cString line) i && d.connected i) := by
  unfold onLine dispatchLine
  by_cases hempty : cString line = []
  · rw [if_pos hempty, hempty, lineDrops_other (by decide) (by decide)]
    simp [feed]
  rw [if_neg hempty]
  generalize cString line = text
  have hurcs : mqttRouter.urcs = mqttUrcs.take 4 ++ mqttUrcs.drop 4 := by
    rw [mqttRouter_urcs, List.take_append_drop]
  have hobserver : ∀ d : Driver,
      (feed d (if mqttRouter.hasObserver then [.observed text] else [])).connected = d.connected := by
    intro d
    exact feed_neutral d (by simp [mqttRouter, Neutral])
  have hfirst : ∀ d : Driver, (feed d (((mqttUrcs.take 4).filter
      fun u => u.urcPrefix.isPrefixOf text).map fun u => Event.handled u text)).connected =
        d.connected := by
    intro d
    apply feed_neutral
    intro event hevent
    obtain ⟨u, hu, rfl⟩ := List.mem_map.mp hevent
    have hall : ∀ u ∈ mqttUrcs.take 4, u.cb < 4 := by decide +kernel
    exact hall u (List.mem_filter.mp hu).1
  rw [feed_append, hobserver, hurcs, List.filter_append, List.map_append, feed_append]
  generalize hd : feed d _ = d'
  have hsame : d'.connected = d.connected := by
    rw [← hd]
    exact hfirst d
  have hlast : mqttUrcs.drop 4 = [⟨ascii "+CMQTTCONNLOST:", 4⟩, ⟨ascii "+CMQTTCONNECT:", 5⟩] := rfl
  rw [hlast, ← hsame]
  cases hlost : (ascii "+CMQTTCONNLOST:").isPrefixOf text with
  | true =>
    have hconnect := lost_not_connect hlost
    simpa [hlost, hconnect, feed, react] using disconn_connected d' hlost i
  | false =>
    cases hconnect : (ascii "+CMQTTCONNECT:").isPrefixOf text with
    | true => simpa [hlost, hconnect, feed, react] using connect_connected d' hlost i
    | false => simp [hlost, hconnect, feed, lineDrops_other hlost hconnect]

theorem lineEvent_kinds {text : List UInt8} {i : Fin 2} {event : SessionEvent}
    (h : lineEvent text i = some event) :
    event = .connected ∨ event = .lost ∨ event = .failed := by
  unfold lineEvent at h
  by_cases hlost : (ascii "+CMQTTCONNLOST:").isPrefixOf text = true
  · rw [if_pos hlost] at h
    cases hclient : (argumentsOf "+CMQTTCONNLOST:" 2 text).head?.bind clientOf with
    | none =>
      simp only [hclient, Option.some.injEq] at h
      simp [← h]
    | some j =>
      simp only [hclient, Option.ite_none_right_eq_some, Option.some.injEq] at h
      simp [← h.2]
  · rw [if_neg hlost] at h
    cases hparsed : parseCmqttResult text "+CMQTTCONNECT:" with
    | none => simp [hparsed] at h
    | some parsed =>
      simp only [hparsed, Option.ite_none_right_eq_some, Option.some.injEq] at h
      rw [← h.2]
      split_ifs
      · simp
      · simp

theorem lines_truthful {d : Driver} {last : Fin 2 → Option SessionEvent} {i : Fin 2}
    (h : d.connected i = true → last i = some .connected) (lines : List (List UInt8)) :
    (lines.foldl onLine d).connected i = true → lines.foldl noteLine last i = some .connected := by
  induction lines generalizing d last with
  | nil => exact h
  | cons line lines ih =>
    apply ih
    intro hup
    rw [onLine_connected] at hup
    simp only [lineDrops, Bool.and_eq_true, Bool.not_eq_true', Bool.or_eq_false_iff,
      beq_eq_false_iff_ne, ne_eq] at hup
    have hlast := h hup.2
    unfold noteLine
    cases hevent : lineEvent (cString line) i with
    | none => simpa using hlast
    | some event =>
      rw [hevent] at hup
      cases lineEvent_kinds hevent with
      | inl hconnected => simp [hconnected]
      | inr hdown =>
        cases hdown with
        | inl hlost => exact absurd (congrArg some hlost) hup.1.1
        | inr hfailed => exact absurd (congrArg some hfailed) hup.1.2

theorem stepModem_connected {c : Config} {m : Modem} {i : ModemInput}
    (hrouted : Routed c mqttRouter m.state.engine) (hbetween : BetweenLines m.state (engineInput i)) :
    (stepModem c m i).driver.connected =
      ((completed c m (engineInput i)).foldl onLine m.driver).connected := by
  have hdriver := (advance_lines hrouted hbetween).2.2
  cases i with
  | engine i => exact congrArg Driver.connected hdriver
  | mqttPoll =>
    unfold stepModem mqttPoll
    cases hphase : m.state.phase with
    | idle =>
      have hflags := (handOver_flags (advance c m .urcPoll).driver).1
      exact hflags.trans (congrArg Driver.connected hdriver)
    | _ => simp [completed, step, engineInput, hphase]

theorem lines_lower {d : Driver} {i : Fin 2} (lines : List (List UInt8))
    (h : (lines.foldl onLine d).connected i = true) : d.connected i = true := by
  induction lines generalizing d with
  | nil => exact h
  | cons line lines ih =>
    have hline := ih h
    rw [onLine_connected, Bool.and_eq_true] at hline
    exact hline.2

theorem receive_truthful {c : Config} {s : Session} {i : ModemInput}
    (hrouted : Routed c mqttRouter s.modem.state.engine)
    (hbetween : BetweenLines s.modem.state (engineInput i)) :
    Routed c mqttRouter (receive c s i).modem.state.engine ∧
      ∀ j, Truthful s j → Truthful (receive c s i) j := by
  constructor
  · simp only [receive, stepModem_state]
    exact step_routed s.modem.state (engineInput i) hrouted hbetween
  · intro j htruthful
    have hlines := lines_truthful htruthful (completed c s.modem (engineInput i))
    unfold Truthful isConnected receive
    simp only
    rw [stepModem_connected hrouted hbetween]
    exact hlines

def nextInput (s : Session) : Option Input :=
  match s.call with
  | .running _ (step :: _) false _ =>
    if step.size ≤ step.text.length then none
    else some (.issue (.send step.text (some step.expected) step.timeoutMs))
  | _ => none

def givesUp (s : Session) (client : Fin 2) : Bool :=
  match s.call with
  | .running i (step :: _) false _ => decide (i = client) && decide (step.size ≤ step.text.length)
  | .running i (step :: steps) true true =>
    decide (i = client) && step.required && decide (lastResult s ≠ .ok) && !steps.isEmpty
  | _ => false

def atRest (s : Session) : Bool :=
  match s.modem.state.phase with
  | .idle => true
  | _ => false

/-- The last command of a connect of this client has been issued. -/
def concludes (s : Session) (client : Fin 2) : Bool :=
  match s.call with
  | .running i [_] true true => decide (i = client)
  | _ => false

def resultText (client : Fin 2) : List UInt8 :=
  ascii "+CMQTTCONNECT: " ++ clientText client ++ ascii ",0"

/-- What the last line of the bytes that reports on a client says. -/
def lastReport (c : Config) (bytes : List UInt8) : Fin 2 → Option SessionEvent :=
  (linesOf c bytes).foldl noteLine fun _ => none

/-- If the bytes hold the text of a successful result of the client, their last
line about the client is such a result. -/
def Confirmed (c : Config) (client : Fin 2) (bytes : List UInt8) : Prop :=
  resultText client <:+: bytes → lastReport c bytes client = some .connected

instance (c : Config) (client : Fin 2) (bytes : List UInt8) :
    Decidable (Confirmed c client bytes) :=
  inferInstanceAs (Decidable (_ → _))

def closesOther (s : Session) (i : ModemInput) (j : Fin 2) : Bool :=
  match s.call, s.modem.state.phase, i with
  | .running client (step :: _) _ _, .issuing _, .engine (.write _ _) =>
    decide (j ≠ client) && step.closes j
  | _, _, _ => false

def Careful (c : Config) (pwrPin : Bool) (s : Session) : SessionInput → Prop
  | .powerToggle => pwrPin = true → ∀ i, isConnected s i = false
  | .hardReset => pwrPin = true → ∀ i, isConnected s i = false
  | .connect _ => True
  | .disconnect _ => True
  | .next => atRest s = true →
    (∀ i ∈ nextInput s, BetweenLines s.modem.state i) ∧
      ∀ client, (givesUp s client = true → isConnected s client = false) ∧
        (concludes s client = true → Confirmed c client s.modem.state.engine.fresh)
  | .modem i =>
    BetweenLines s.modem.state (engineInput i) ∧
      ∀ j, closesOther s i j = true → isConnected s j = false

instance (c : Config) (pwrPin : Bool) (s : Session) :
    (i : SessionInput) → Decidable (Careful c pwrPin s i)
  | .powerToggle => inferInstanceAs (Decidable (pwrPin = true → ∀ i, isConnected s i = false))
  | .hardReset => inferInstanceAs (Decidable (pwrPin = true → ∀ i, isConnected s i = false))
  | .connect _ => isTrue trivial
  | .disconnect _ => isTrue trivial
  | .next => inferInstanceAs (Decidable (atRest s = true →
      (∀ i ∈ nextInput s, BetweenLines s.modem.state i) ∧
        ∀ client, (givesUp s client = true → isConnected s client = false) ∧
          (concludes s client = true → Confirmed c client s.modem.state.engine.fresh)))
  | .modem i => inferInstanceAs (Decidable (BetweenLines s.modem.state (engineInput i) ∧
      ∀ j, closesOther s i j = true → isConnected s j = false))

/-- A text behind a complete line adds its own lines. -/
theorem linesOf_behind {c : Config} {text : List UInt8}
    (hopen : (openRun text).take (c.lineMax-1) = []) (more : List UInt8) :
    linesOf c (text ++ more) = linesOf c text ++ linesOf c more := by
  by_cases hnone : c.lineMax-1 = 0
  · simp [linesOf, hnone]
  have hrun : openRun text = [] := (List.take_eq_nil_iff.mp hopen).resolve_left hnone
  have hboth : openRun (text ++ more) = openRun more ∧
      linesOf c (text ++ more) = linesOf c text ++ linesOf c more := by
    induction more using List.reverseRecOn with
    | nil =>
      rw [List.append_nil, hrun]
      simp [linesOf, openRun, runs]
    | append_singleton more b ih =>
      rw [← List.append_assoc]
      cases hb : lineEnd b with
      | true =>
        rw [openRun_end _ hb, openRun_end _ hb, linesOf_end c _ hb, linesOf_end c _ hb, ih.2,
          newLine, newLine, ih.1, List.append_assoc]
        exact ⟨rfl, rfl⟩
      | false =>
        rw [openRun_open _ hb, openRun_open _ hb, linesOf_open c _ hb, linesOf_open c _ hb, ih.1]
        exact ⟨rfl, ih.2⟩
  exact hboth.2

theorem noteLine_at {last other : Fin 2 → Option SessionEvent} {i : Fin 2}
    (h : last i = other i) (lines : List (List UInt8)) :
    lines.foldl noteLine last i = lines.foldl noteLine other i := by
  induction lines generalizing last other with
  | nil => exact h
  | cons line lines ih =>
    apply ih
    simp [noteLine, h]

/-- Lines with a report on a client make what was noted before unimportant. -/
theorem noteLine_reported {i : Fin 2} {event : SessionEvent} {lines : List (List UInt8)}
    (h : lines.foldl noteLine (fun _ => none) i = some event)
    (last : Fin 2 → Option SessionEvent) : lines.foldl noteLine last i = some event := by
  induction lines using List.reverseRecOn with
  | nil => cases h
  | append_singleton lines line ih =>
    rw [List.foldl_concat] at h ⊢
    unfold noteLine at h ⊢
    cases hevent : lineEvent (cString line) i with
    | none =>
      rw [hevent] at h
      exact ih h
    | some other =>
      rw [hevent] at h
      exact h

/-- While a command that expects this text runs, its success comes from the text
in the bytes received since the reset. -/
def Answers (expected : List UInt8) (s : State) : Prop :=
  match s.phase with
  | .issuing (.send _ wanted _) => wanted = some expected
  | .waiting wanted _ _ _ _ => wanted = some expected
  | .tail _ _ => expected <:+: s.engine.fresh
  | .idle => ∀ last, s.results.getLast? = some last → last.result = .ok →
      expected <:+: s.engine.fresh
  | _ => False

def Flows : Input → Prop
  | .arrive _ => True
  | .write _ _ => True
  | .turn _ _ => True
  | _ => False

theorem flows_not_resets {s : State} {i : Input} (h : Flows i) : resets s i = false := by
  cases i with
  | arrive bytes => cases hphase : s.phase <;> simp [resets, hphase]
  | write now after => cases hphase : s.phase <;> simp [resets, hphase]
  | turn now after => cases hphase : s.phase <;> simp [resets, hphase]
  | issue command => cases h
  | listen ready totalMs preserve now => cases h
  | urcPoll => cases h

theorem flows_moves {c : Config} {s : State} {i : Input} (h : Flows i) :
    Moves c mqttRouter s.engine (step c mqttRouter s i).engine (arrived i) := by
  cases step_moves c mqttRouter s i with
  | inl hmoves => exact hmoves
  | inr hreset =>
    rw [flows_not_resets h] at hreset
    cases hreset.1

theorem moves_fresh {c : Config} {r : Router} {e after : Engine} {arriving : List UInt8}
    (h : Moves c r e after arriving) :
    ∃ consumed, after.stream = e.stream ++ consumed ∧ after.fresh = e.fresh ++ consumed := by
  obtain ⟨consumed, rest, writes, _, rfl⟩ := h
  exact ⟨consumed, absorb_stream c r e consumed, absorb_fresh c r e consumed⟩

/-- The wait for an answer ends well only if the expected text has been received. -/
theorem answers_wait {c : Config} {s : State} {expected : List UInt8} {stale : ℕ}
    {start : UInt32} {timeoutMs : ℕ} {beforePayload : Option (List UInt8)} (now after : UInt32)
    (hstored : Stored c s.engine)
    (hphase : s.phase = .waiting (some expected) stale start timeoutMs beforePayload) :
    Answers expected (waitTurn c mqttRouter s (some expected) stale start timeoutMs beforePayload
      now after) := by
  have hheld := moves_stored (moves_drain c mqttRouter s.engine) hstored
  cases hterm : responseTerminated (drainUart c mqttRouter s.engine).rxBuf (some expected) with
  | none =>
    simp only [waitTurn, hterm]
    split_ifs
    · simp [Answers]
    · simp [Answers, hphase]
  | some result =>
    simp only [waitTurn, hterm]
    split_ifs with hgood
    · have hfound := responseTerminated_ok (hgood.1 ▸ hterm)
      simp only [bufContains, decide_eq_true_eq] at hfound
      have hread : cString (drainUart c mqttRouter s.engine).rxBuf <+:
          (drainUart c mqttRouter s.engine).fresh := by
        rw [hheld]
        exact (List.takeWhile_prefix _).trans (List.take_prefix _ _)
      exact hfound.2.trans hread.isInfix
    · have hbad : result ≠ .ok := fun hok => hgood ⟨hok, rfl⟩
      simp [Answers, hbad]

theorem answers_tail {c : Config} {s : State} {expected : List UInt8} {start : UInt32}
    {last : Completed} (now : UInt32) (hphase : s.phase = .tail start last)
    (hheld : expected <:+: s.engine.fresh) :
    Answers expected (tailTurn c mqttRouter s start last now) := by
  have hdrained : expected <:+: (drainUart c mqttRouter s.engine).fresh := by
    obtain ⟨consumed, _, hfresh⟩ := moves_fresh (moves_drain c mqttRouter s.engine)
    rw [hfresh]
    exact hheld.trans (List.prefix_append _ _).isInfix
  unfold tailTurn
  dsimp only
  split_ifs
  · exact fun _ _ _ => hheld
  · exact fun _ _ _ => hdrained
  · simpa [Answers, hphase] using hdrained

theorem answers_step {c : Config} {s : State} {i : Input} {expected : List UInt8}
    (hstored : Stored c s.engine) (h : Answers expected s) (hi : Flows i) :
    Answers expected (step c mqttRouter s i) := by
  cases i with
  | arrive bytes => exact h
  | issue command => cases hi
  | listen ready totalMs preserve now => cases hi
  | urcPoll => cases hi
  | write now after =>
    cases hphase : s.phase with
    | issuing command =>
      cases command with
      | send cmd wanted timeoutMs =>
        simp only [Answers, hphase] at h
        simpa [Answers, step, hphase, writeCommand] using h
      | sendWithData cmd data promptMs respMs => simp [Answers, hphase] at h
    | _ => simpa [step, hphase] using h
  | turn now after =>
    cases hphase : s.phase with
    | idle => simpa [step, turn, hphase] using h
    | issuing command => simpa [step, turn, hphase] using h
    | prompting data stale start promptMs respMs => simp [Answers, hphase] at h
    | listening ready start lastByte totalMs readySeen preserve => simp [Answers, hphase] at h
    | waiting wanted stale start timeoutMs beforePayload =>
      simp only [Answers, hphase] at h
      subst h
      simpa [step, turn, hphase] using answers_wait now after hstored hphase
    | tail start last =>
      simp only [Answers, hphase] at h
      simpa [step, turn, hphase] using answers_tail (c := c) now hphase h

/-- What an issued command knows of the bytes received since its reset: they
begin behind a complete line, their lines have been noted, and a success means
that they hold the expected text. -/
structure Heard (c : Config) (s : Session) (step : Step) : Prop where
  begins : ∃ before, s.modem.state.engine.stream = before ++ s.modem.state.engine.fresh ∧
    (openRun before).take (c.lineMax-1) = []
  noted : ∃ last, ∀ i, step.closes i = false →
    s.lastEvent i = (linesOf c s.modem.state.engine.fresh).foldl noteLine last i
  answers : Answers step.expected s.modem.state

/-- The lines that a step completes are those that it adds to the bytes received
since the reset. -/
theorem completed_fresh {c : Config} {m : Modem} {i : Input} {before consumed : List UInt8}
    (hbefore : m.state.engine.stream = before ++ m.state.engine.fresh)
    (hopen : (openRun before).take (c.lineMax-1) = [])
    (hstream : (step c mqttRouter m.state i).engine.stream =
      m.state.engine.stream ++ consumed) :
    linesOf c (m.state.engine.fresh ++ consumed) =
      linesOf c m.state.engine.fresh ++ completed c m i := by
  obtain ⟨more, hmore⟩ := linesOf_append c m.state.engine.fresh consumed
  rw [completed, hstream, hbefore, List.append_assoc, linesOf_behind hopen,
    linesOf_behind hopen, ← hmore, ← List.append_assoc, List.drop_left]

theorem heard_receive {c : Config} {s : Session} {i : ModemInput} {step : Step}
    (hstored : Stored c s.modem.state.engine) (h : Heard c s step) (hi : Flows (engineInput i)) :
    Heard c (receive c s i) step := by
  obtain ⟨before, hbefore, hopen⟩ := h.begins
  obtain ⟨last, hlast⟩ := h.noted
  obtain ⟨consumed, hstream, hfresh⟩ := moves_fresh (flows_moves (c := c) (s := s.modem.state) hi)
  have hstate : (receive c s i).modem.state = ModemAt.step c mqttRouter s.modem.state (engineInput i) :=
    stepModem_state c s.modem i
  constructor
  · refine ⟨before, ?_, hopen⟩
    rw [hstate, hstream, hfresh, hbefore, List.append_assoc]
  · refine ⟨last, fun j hj => ?_⟩
    rw [hstate, hfresh, completed_fresh hbefore hopen hstream, List.foldl_append]
    exact noteLine_at (hlast j hj) _
  · rw [hstate]
    exact answers_step hstored h.answers hi

theorem heard_issue {c : Config} {s : Session} {step : Step}
    (hrouted : Routed c mqttRouter s.modem.state.engine) (hidle : s.modem.state.phase = .idle)
    (hempty : s.modem.state.engine.lineBuf = []) :
    Heard c (receive c s (.engine (.issue (.send step.text (some step.expected) step.timeoutMs))))
      step := by
  have hopen : (openRun s.modem.state.engine.stream).take (c.lineMax-1) = [] := by
    rw [← hrouted.openLine, hempty]
  generalize hcommand : Command.send step.text (some step.expected) step.timeoutMs = command
  have hstate : (receive c s (.engine (.issue command))).modem.state =
      { s.modem.state with
        engine := drainUart c mqttRouter (resetRx s.modem.state.engine)
        phase := .issuing command } := by
    simp [receive, stepModem, advance, ModemAt.step, hidle]
  have hfresh : (drainUart c mqttRouter (resetRx s.modem.state.engine)).fresh =
      s.modem.state.engine.uart := by
    simp [drainUart, absorb_fresh, resetRx]
  have hstream : (drainUart c mqttRouter (resetRx s.modem.state.engine)).stream =
      s.modem.state.engine.stream ++ s.modem.state.engine.uart := by
    simp [drainUart, absorb_stream, resetRx]
  have hlines : completed c s.modem (.issue command) = linesOf c s.modem.state.engine.uart := by
    simp only [completed, ModemAt.step, hidle, hstream]
    rw [linesOf_behind hopen, List.drop_left]
  constructor
  · refine ⟨s.modem.state.engine.stream, ?_, hopen⟩
    rw [hstate, hstream, hfresh]
  · refine ⟨s.lastEvent, fun j _ => ?_⟩
    rw [hstate, hfresh, ← hlines]
    rfl
  · rw [hstate, ← hcommand]
    rfl

theorem connectSteps_last {cfg : MqttConfig} {step : Step} (h : [step] <:+ connectSteps cfg) :
    step.expected = resultText cfg.clientIndex ∧ (∀ i, step.closes i = false) ∧
      step.required = true := by
  obtain ⟨before, hbefore⟩ := h
  have hlast : (connectSteps cfg).getLast? = some step := by
    rw [← hbefore, List.getLast?_concat]
  have hconnect : (connectSteps cfg).getLast? = some ⟨connectText cfg, 320,
      resultText cfg.clientIndex, 15000, fun _ => false, true⟩ := by
    rw [connectSteps, List.getLast?_concat]
    rfl
  rw [hconnect] at hlast
  rw [← Option.some.inj hlast]
  exact ⟨rfl, fun _ => rfl, rfl⟩

/-- The last command of a connect ends well only behind a successful result, if
the bytes received since its reset confirm it. -/
theorem confirmed_connected {c : Config} {s : Session} {cfg : MqttConfig} {step : Step}
    (h : Heard c s step) (hstep : [step] <:+ connectSteps cfg)
    (hidle : s.modem.state.phase = .idle) (hok : lastResult s = .ok)
    (hconfirmed : Confirmed c cfg.clientIndex s.modem.state.engine.fresh) :
    s.lastEvent cfg.clientIndex = some .connected := by
  obtain ⟨hexpected, hcloses, _⟩ := connectSteps_last hstep
  obtain ⟨last, hnoted⟩ := h.noted
  have hanswers := h.answers
  simp only [Answers, hidle] at hanswers
  have hheld : resultText cfg.clientIndex <:+: s.modem.state.engine.fresh := by
    rw [← hexpected]
    unfold lastResult at hok
    cases hlast : s.modem.state.results.getLast? with
    | none =>
      rw [hlast] at hok
      cases hok
    | some done =>
      rw [hlast] at hok
      exact hanswers done hlast hok
  rw [hnoted cfg.clientIndex (hcloses _)]
  exact noteLine_reported (hconfirmed hheld) last

structure Honest (c : Config) (s : Session) : Prop where
  routed : Routed c mqttRouter s.modem.state.engine
  stored : Stored c s.modem.state.engine
  idle : s.call = .none → ∀ i, Truthful s i
  busy : ∀ client steps issued connects, s.call = .running client steps issued connects →
    ∀ i, i ≠ client → Truthful s i
  command : ∀ client steps issued, s.call = .running client steps issued true →
    ∃ cfg : MqttConfig, cfg.clientIndex = client ∧ steps <:+ connectSteps cfg
  heard : ∀ client step steps connects, s.call = .running client (step :: steps) true connects →
    Heard c s step

def Issued (s : Session) : Prop :=
  ∃ client step steps connects, s.call = .running client (step :: steps) true connects

theorem honest_receive {c : Config} {s : Session} {i : ModemInput} (h : Honest c s)
    (hbetween : BetweenLines s.modem.state (engineInput i))
    (hflows : Issued s → Flows (engineInput i)) : Honest c (receive c s i) := by
  obtain ⟨hrouted, hkept⟩ := receive_truthful h.routed hbetween
  constructor
  · exact hrouted
  · simp only [receive, stepModem_state]
    exact step_stored mqttRouter (engineInput i) h.stored
  · intro hcall j
    exact hkept j (h.idle hcall j)
  · intro client steps issued connects hcall j hj
    exact hkept j (h.busy client steps issued connects hcall j hj)
  · exact h.command
  · intro client step steps connects hcall
    exact heard_receive h.stored (h.heard client step steps connects hcall)
      (hflows ⟨client, step, steps, connects, hcall⟩)

theorem truthful_down {s : Session} {i : Fin 2} (h : isConnected s i = false) : Truthful s i := by
  intro hup
  rw [h] at hup
  cases hup

/-- A call ends with the flag of its client truthful. -/
theorem honest_ended {c : Config} {s : Session} {client : Fin 2} {steps : List Step}
    {issued connects : Bool} (h : Honest c s)
    (hcall : s.call = .running client steps issued connects) {after : Session}
    (hengine : after.modem.state.engine = s.modem.state.engine) (hended : after.call = .none)
    (hothers : ∀ i, i ≠ client → isConnected after i = isConnected s i)
    (hevents : after.lastEvent = s.lastEvent) (hclient : Truthful after client) :
    Honest c after := by
  constructor
  · rw [hengine]
    exact h.routed
  · rw [hengine]
    exact h.stored
  · intro _ i
    by_cases hi : i = client
    · rw [hi]
      exact hclient
    · have hother := h.busy client steps issued connects hcall i hi
      intro hup
      rw [hothers i hi] at hup
      rw [hevents]
      exact hother hup
  · intro other otherSteps otherIssued otherConnects hrunning
    rw [hended] at hrunning
    cases hrunning
  · intro other otherSteps otherIssued hrunning
    rw [hended] at hrunning
    cases hrunning
  · intro other step otherSteps otherConnects hrunning
    rw [hended] at hrunning
    cases hrunning

theorem honest_finish {c : Config} {s : Session} {client : Fin 2} {steps : List Step}
    {issued connects : Bool} (h : Honest c s)
    (hcall : s.call = .running client steps issued connects) (up : Bool) (result : CallResult)
    (hup : up = true → s.lastEvent client = some .connected) :
    Honest c (finish s client up result) := by
  apply honest_ended h hcall
  · rfl
  · rfl
  · intro i hi
    simp [isConnected, finish, hi]
  · rfl
  · intro hconnected
    apply hup
    simpa [isConnected, finish] using hconnected

theorem honest_giveUp {c : Config} {s : Session} {client : Fin 2} {steps : List Step}
    {issued connects : Bool} (h : Honest c s)
    (hcall : s.call = .running client steps issued connects) (result : CallResult)
    (hdown : isConnected s client = false) : Honest c (giveUp s result) := by
  apply honest_ended h hcall
  · rfl
  · rfl
  · intro i _
    rfl
  · rfl
  · exact truthful_down hdown

theorem honest_setResult {c : Config} {s : Session} (h : Honest c s) (client : Fin 2)
    (result : Option ℤ) : Honest c (setResult s client result) :=
  ⟨h.routed, h.stored, h.idle, h.busy, h.command, fun other step steps connects hcall =>
    ⟨(h.heard other step steps connects hcall).begins,
      (h.heard other step steps connects hcall).noted,
      (h.heard other step steps connects hcall).answers⟩⟩

theorem honest_running {c : Config} {s : Session} {client : Fin 2} {steps next : List Step}
    {issued connects : Bool} (h : Honest c s)
    (hcall : s.call = .running client steps issued connects) (nextIssued : Bool)
    (hnext : next <:+ steps)
    (hheard : ∀ step more, next = step :: more → nextIssued = true → Heard c s step) :
    Honest c { s with call := .running client next nextIssued connects } := by
  constructor
  · exact h.routed
  · exact h.stored
  · intro hnone
    cases hnone
  · intro other otherSteps otherIssued otherConnects hrunning i hi
    simp only [Call.running.injEq] at hrunning
    rw [← hrunning.1] at hi
    exact h.busy client steps issued connects hcall i hi
  · intro other otherSteps otherIssued hrunning
    simp only [Call.running.injEq] at hrunning
    obtain ⟨rfl, rfl, -, rfl⟩ := hrunning
    obtain ⟨cfg, hclient, hsteps⟩ := h.command client steps issued hcall
    exact ⟨cfg, hclient, hnext.trans hsteps⟩
  · intro other step more otherConnects hrunning
    simp only [Call.running.injEq] at hrunning
    have hkept := hheard step more hrunning.2.1 hrunning.2.2.1
    exact ⟨hkept.begins, hkept.noted, hkept.answers⟩

theorem honest_issue {c : Config} {s : Session} {client : Fin 2} {step : Step}
    {steps : List Step} {connects : Bool} (h : Honest c s)
    (hcall : s.call = .running client (step :: steps) false connects)
    (hidle : s.modem.state.phase = .idle)
    (hissue : ∀ i ∈ nextInput s, BetweenLines s.modem.state i)
    (hearly : givesUp s client = true → isConnected s client = false) :
    Honest c (issueStep c s client step steps connects) := by
  unfold issueStep
  by_cases hlong : step.size ≤ step.text.length
  · rw [if_pos hlong]
    apply honest_giveUp h hcall
    apply hearly
    simp [givesUp, hcall, hlong]
  · rw [if_neg hlong]
    have hbetween := hissue (.issue (.send step.text (some step.expected) step.timeoutMs))
      (by simp [nextInput, hcall, hlong])
    have hempty := hbetween (by simp [resets, hidle])
    have hreceived := honest_receive (i := .engine (.issue _)) h hbetween (by simp [Issued, hcall])
    apply honest_running hreceived hcall true List.suffix_rfl
    intro first more hfirst _
    rw [← (List.cons.inj hfirst).1]
    exact heard_issue h.routed hidle hempty

theorem honest_after {c : Config} {s : Session} {client : Fin 2} {step : Step}
    {steps : List Step} {connects : Bool} (h : Honest c s)
    (hcall : s.call = .running client (step :: steps) true connects)
    (hidle : s.modem.state.phase = .idle)
    (hearly : givesUp s client = true → isConnected s client = false)
    (hconcludes : concludes s client = true →
      Confirmed c client s.modem.state.engine.fresh) :
    Honest c (afterStep s client step steps connects) := by
  unfold afterStep
  cases connects with
  | false =>
    rw [if_neg (by simp)]
    exact honest_finish h hcall false _ (by simp)
  | true =>
    rw [if_pos rfl]
    by_cases hfailed : step.required = true ∧ lastResult s ≠ .ok
    · rw [if_pos hfailed]
      by_cases hlast : steps = []
      · rw [if_pos hlast]
        exact honest_finish h hcall false _ (by simp)
      · rw [if_neg hlast]
        apply honest_giveUp h hcall
        apply hearly
        simp [givesUp, hcall, hfailed.1, hfailed.2, hlast]
    · rw [if_neg hfailed]
      by_cases hlast : steps = []
      · rw [if_pos hlast]
        subst hlast
        have hset := honest_setResult h client (some 0)
        apply honest_finish hset hcall true .ok
        intro _
        change s.lastEvent client = some .connected
        obtain ⟨cfg, rfl, hstep⟩ := h.command client [step] true hcall
        have hok : lastResult s = .ok := by
          by_contra hbad
          exact hfailed ⟨(connectSteps_last hstep).2.2, hbad⟩
        have hconfirmed := hconcludes (by simp [concludes, hcall])
        have hheard := h.heard _ step [] true hcall
        exact confirmed_connected hheard hstep hidle hok hconfirmed
      · rw [if_neg hlast]
        apply honest_running h hcall false (List.suffix_cons step steps)
        intro first more _ hissued
        cases hissued

theorem honest_next {c : Config} {s : Session} {pwrPin : Bool} (h : Honest c s)
    (hcareful : Careful c pwrPin s .next) : Honest c (nextStep c s) := by
  unfold nextStep
  split
  · rename_i client step steps connects hcall hidle
    obtain ⟨hissue, hclients⟩ := hcareful (by simp [atRest, hidle])
    exact honest_issue h hcall hidle hissue (hclients client).1
  · rename_i client step steps connects hcall hidle
    obtain ⟨_, hclients⟩ := hcareful (by simp [atRest, hidle])
    exact honest_after h hcall hidle (hclients client).1 (hclients client).2
  · exact h

theorem honest_write {c : Config} {s : Session} {client : Fin 2} {step : Step}
    {steps : List Step} {issued connects : Bool} {now after : UInt32} (h : Honest c s)
    (hcall : s.call = .running client (step :: steps) issued connects)
    (hbetween : BetweenLines s.modem.state (.write now after))
    (hcloses : ∀ j, closesOther s (.engine (.write now after)) j = true → isConnected s j = false) :
    Honest c (writeStep c s step now after) := by
  have hreceived := honest_receive (i := .engine (.write now after)) h hbetween fun _ => trivial
  have hkept := (receive_truthful (i := .engine (.write now after)) h.routed hbetween).2
  unfold writeStep
  cases hphase : s.modem.state.phase with
  | issuing command =>
    constructor
    · exact hreceived.routed
    · exact hreceived.stored
    · intro hnone
      rw [show (receive c s (.engine (.write now after))).call = s.call from rfl, hcall] at hnone
      cases hnone
    · intro other otherSteps otherIssued otherConnects hrunning i hi hup
      have hsame := hcall.symm.trans hrunning
      simp only [Call.running.injEq] at hsame
      rw [← hsame.1] at hi
      have hbefore : isConnected s i = true := by
        have hstep := congrFun (stepModem_connected (i := .engine (.write now after)) h.routed
          hbetween) i
        exact lines_lower _ (hstep.symm.trans hup)
      by_cases hclosed : step.closes i = true
      · have hdown := hcloses i (by simp [closesOther, hcall, hphase, hi, hclosed])
        rw [hdown] at hbefore
        cases hbefore
      · simp only [hclosed, Bool.false_eq_true, if_false]
        exact hkept i (h.busy client _ issued connects hcall i hi) hup
    · exact hreceived.command
    · intro other first more otherConnects hrunning
      have hsame := hcall.symm.trans hrunning
      simp only [Call.running.injEq, List.cons.injEq] at hsame
      obtain ⟨-, ⟨rfl, -⟩, -⟩ := hsame
      have hheard := hreceived.heard other step more otherConnects hrunning
      obtain ⟨last, hlast⟩ := hheard.noted
      refine ⟨hheard.begins, ⟨last, fun j hj => ?_⟩, hheard.answers⟩
      simpa [hj] using hlast j hj
  | _ => exact hreceived

theorem honest_modem {c : Config} {s : Session} {pwrPin : Bool} {i : ModemInput}
    (h : Honest c s) (hcareful : Careful c pwrPin s (.modem i)) : Honest c (modemStep c s i) := by
  unfold modemStep
  split
  · rename_i hcall
    exact honest_receive h hcareful.1 (by simp [Issued, hcall])
  · rename_i client step steps issued connects now after hcall
    exact honest_write h hcall hcareful.1 hcareful.2
  · exact honest_receive h hcareful.1 fun _ => trivial
  · exact honest_receive h hcareful.1 fun _ => trivial
  · exact h

theorem honest_power {c : Config} {s : Session} {pwrPin : Bool} (h : Honest c s)
    (hcall : s.call = .none) (hdown : pwrPin = true → ∀ i, isConnected s i = false) : Honest c (power pwrPin s) := by
  unfold power
  split_ifs with hpin
  · constructor
    · exact h.routed
    · exact h.stored
    · intro _ i
      exact truthful_down (hdown hpin i)
    · intro client steps issued connects _ i _
      exact truthful_down (hdown hpin i)
    · exact h.command
    · intro client step steps connects hrunning
      simp [hcall] at hrunning
  · exact h

theorem power_connected (pwrPin : Bool) (s : Session) (i : Fin 2) :
    isConnected (power pwrPin s) i = isConnected s i := by
  unfold power
  split_ifs <;> rfl

theorem honest_begin {c : Config} {s : Session} (h : Honest c s) (hcall : s.call = .none)
    (client : Fin 2) (steps : List Step) (connects : Bool)
    (hsteps : connects = true → ∃ cfg : MqttConfig, cfg.clientIndex = client ∧
      steps <:+ connectSteps cfg) : Honest c (begin s client steps connects) := by
  constructor
  · exact h.routed
  · exact h.stored
  · intro hnone
    cases hnone
  · intro other otherSteps otherIssued otherConnects _ i _
    exact h.idle hcall i
  · intro other otherSteps otherIssued hrunning
    simp only [begin, Call.running.injEq] at hrunning
    obtain ⟨rfl, rfl, -, rfl⟩ := hrunning
    exact hsteps rfl
  · intro other step otherSteps otherConnects hrunning
    simp [begin] at hrunning

theorem step_honest {c : Config} {pwrPin : Bool} (s : Session) (i : SessionInput)
    (h : Honest c s) (hcareful : Careful c pwrPin s i) : Honest c (sessionStep c pwrPin s i) := by
  unfold sessionStep
  split
  · exact honest_modem h hcareful
  · exact honest_next h hcareful
  · rename_i hcall _
    exact honest_power h hcall hcareful
  · rename_i hcall _
    have hcalled : (power pwrPin s).call = .none := by
      unfold power
      split_ifs
      · exact hcall
      · exact hcall
    apply honest_power (honest_power h hcall hcareful) hcalled
    intro hpin client
    rw [power_connected]
    exact hcareful hpin client
  · rename_i cfg hcall _
    exact honest_begin (honest_setResult h cfg.clientIndex none) hcall _ _ _
      fun _ => ⟨cfg, rfl, List.suffix_rfl⟩
  · rename_i client hcall _
    apply honest_begin h hcall
    intro hconnects
    cases hconnects
  · exact h

theorem start_honest (c : Config) : Honest c startSession := by
  constructor
  · exact start_routed c mqttRouter
  · simp [Stored, startSession, startModem, start]
  · intro _ i
    exact truthful_down rfl
  · intro client steps issued connects hcall
    cases hcall
  · intro client steps issued hcall
    cases hcall
  · intro client step steps connects hcall
    cases hcall

/-- In a run whose steps are careful, the flags are truthful whenever no connect
and no disconnect runs. -/
theorem flags_truthful (c : Config) (pwrPin : Bool) (inputs : List SessionInput)
    (hcareful : Along (sessionStep c pwrPin) (Careful c pwrPin) startSession inputs)
    (hidle : (runFrom (sessionStep c pwrPin) startSession inputs).call = .none) (i : Fin 2)
    (hup : isConnected (runFrom (sessionStep c pwrPin) startSession inputs) i = true) :
    (runFrom (sessionStep c pwrPin) startSession inputs).lastEvent i = some .connected := by
  have hhonest := along_run step_honest (start_honest c) hcareful
  exact hhonest.idle hidle i hup

def answered (answer : String) : List SessionInput :=
  [.next, .modem (.engine (.write 0 0)), .modem (.engine (.arrive (ascii answer))),
    .modem (.engine (.turn 0 0)), .modem (.engine (.turn 1000 1000)), .next]

def plainSession (i : Fin 2) : MqttConfig := ⟨ascii "broker", 1883, ascii "node", none, 60, true, i, none⟩

def connecting (i : Fin 2) (start result : String) : List SessionInput :=
  .connect (plainSession i) ::
    ["OK\r\n", "OK\r\n", "OK\r\n", start, "OK\r\n", result].flatMap answered

-- the literals below share one proof that there is a client
attribute [local instance] client_exists

def firstConnect : List SessionInput :=
  connecting 0 "+CMQTTSTART: 0\r\n" "OK\r\n+CMQTTCONNECT: 0,0\r\n"

def Call.isNone : Call → Bool
  | .none => true
  | .running .. => false

theorem Call.eq_none {call : Call} (h : call.isNone = true) : call = .none := by
  cases call with
  | none => rfl
  | running => cases h

theorem flags_truthful_first :
    (runFrom (sessionStep defaultConfig true) startSession firstConnect).lastEvent 0 =
      some .connected := by
  have hcareful : Along (sessionStep defaultConfig true) (Careful defaultConfig true) startSession firstConnect := by
    decide +kernel
  have hidle : (runFrom (sessionStep defaultConfig true) startSession firstConnect).call = .none := by
    apply Call.eq_none
    decide +kernel
  exact flags_truthful defaultConfig true firstConnect hcareful hidle 0 (by decide +kernel)

/-- After a connect: the service of a second one does not start, the modem is power
cycled, or the other client connects. -/
def flagAndEvent (more : List SessionInput) : Bool × Option SessionEvent :=
  let s := runFrom (sessionStep defaultConfig true) startSession (firstConnect ++ more)
  (isConnected s 0, s.lastEvent 0)

theorem flags_not_truthful :
    flagAndEvent (.connect (plainSession 0) ::
      ["OK\r\n", "OK\r\n", "OK\r\n", "ERROR\r\n"].flatMap answered) = (true, some .closed) ∧
    flagAndEvent [.powerToggle] = (true, some .powerCycled) ∧
    flagAndEvent (connecting 1 "+CMQTTSTART: 0\r\n" "OK\r\n+CMQTTCONNECT: 1,0\r\n") =
      (true, some .closed) := by
  constructor
  · decide +kernel
  constructor
  · decide +kernel
  · decide +kernel

end JaszczurHal.SimcomMqtt
