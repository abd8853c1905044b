import JaszczurHal.SimcomMqtt

/-!
# The messages of a stream

A message reaches the application as the modem sent it if its topic and payload
are plain lines and if a poll comes between its last line and the next message.
-/

set_option autoImplicit false

namespace JaszczurHal.SimcomMqtt
open WebSocketHandshake (ascii ascii_ofList crlf cString)
open ModemAt
open SerialFrame (decimal)

structure Sent where
  client : Fin 2
  topic : List UInt8
  payload : List UInt8
  deriving DecidableEq

def Sent.message (m : Sent) : Message := ⟨m.client.val, m.topic, m.payload⟩

def index (client : Fin 2) : List UInt8 := [32, UInt8.ofNat (48+client.val)]

def startLine (m : Sent) : List UInt8 :=
  ascii "+CMQTTRXSTART:" ++ index m.client ++ comma :: decimal m.topic.length ++
    comma :: decimal m.payload.length

def topicLine (m : Sent) : List UInt8 :=
  ascii "+CMQTTRXTOPIC:" ++ index m.client ++ comma :: decimal m.topic.length

def payloadLine (m : Sent) : List UInt8 :=
  ascii "+CMQTTRXPAYLOAD:" ++ index m.client ++ comma :: decimal m.payload.length

def endLine (m : Sent) : List UInt8 := ascii "+CMQTTRXEND:" ++ index m.client

def parts (m : Sent) : List (List UInt8) :=
  [startLine m, topicLine m, m.topic, payloadLine m, m.payload, endLine m]

def encode (m : Sent) : List UInt8 := (parts m).flatMap fun part => part ++ crlf

def Quiet (text : List UInt8) : Prop := ∀ b ∈ text, lineEnd b = false ∧ b ≠ 0

structure PlainText (text : List UInt8) : Prop where
  quiet : Quiet text
  noResult : text.head? ≠ some plus

structure PlainMessage (c : Config) (m : Sent) : Prop where
  topic : PlainText m.topic
  payload : PlainText m.payload
  topicSome : m.topic ≠ []
  topicFits : m.topic.length < topicMax
  payloadFits : m.payload.length ≤ payloadMax
  partsFit : ∀ part ∈ parts m, part.length < c.lineMax

def messageLines (m : Sent) : List (List UInt8) := (parts m).filter fun part => part ≠ []

theorem openRun_line {text line : List UInt8} (hopen : openRun text = [])
    (hline : ∀ b ∈ line, lineEnd b = false) : openRun (text ++ line) = line := by
  induction line using List.reverseRecOn with
  | nil => simpa using hopen
  | append_singleton line b ih =>
    rw [← List.append_assoc, openRun_open _ (hline b (by simp)),
      ih fun a ha => hline a (by simp [ha])]

theorem linesOf_open_line (c : Config) (text : List UInt8) {line : List UInt8}
    (hline : ∀ b ∈ line, lineEnd b = false) : linesOf c (text ++ line) = linesOf c text := by
  induction line using List.reverseRecOn with
  | nil => simp
  | append_singleton line b ih =>
    rw [← List.append_assoc, linesOf_open c _ (hline b (by simp)),
      ih fun a ha => hline a (by simp [ha])]

theorem linesOf_part {c : Config} {text line : List UInt8} (hopen : openRun text = [])
    (hline : ∀ b ∈ line, lineEnd b = false) (hfits : line.length < c.lineMax) :
    openRun (text ++ (line ++ crlf)) = [] ∧
      linesOf c (text ++ (line ++ crlf)) = linesOf c text ++ (if line = [] then [] else [line]) := by
  have hsplit : text ++ (line ++ crlf) = ((text ++ line) ++ [13]) ++ [10] := by
    simp [crlf, WebSocketHandshake.carriageReturn, WebSocketHandshake.lineFeed]
  have hcut : line.take (c.lineMax-1) = line := List.take_of_length_le (by omega)
  rw [hsplit]
  constructor
  · exact openRun_end _ (by decide)
  · rw [linesOf_end c _ (by decide), linesOf_end c _ (by decide), newLine, newLine,
      openRun_end _ (by decide), openRun_line hopen hline, hcut, linesOf_open_line c text hline]
    simp

theorem linesOf_parts {c : Config} {text : List UInt8} {texts : List (List UInt8)}
    (hopen : openRun text = []) (hquiet : ∀ part ∈ texts, ∀ b ∈ part, lineEnd b = false)
    (hfits : ∀ part ∈ texts, part.length < c.lineMax) :
    openRun (text ++ texts.flatMap fun part => part ++ crlf) = [] ∧
      linesOf c (text ++ texts.flatMap fun part => part ++ crlf) =
        linesOf c text ++ texts.filter fun part => part ≠ [] := by
  induction texts generalizing text with
  | nil => simpa using hopen
  | cons part texts ih =>
    have hpart := linesOf_part (c := c) hopen (hquiet part (List.mem_cons_self ..))
      (hfits part (List.mem_cons_self ..))
    have hrest := ih hpart.1 (fun other hother => hquiet other (List.mem_cons_of_mem _ hother))
      (fun other hother => hfits other (List.mem_cons_of_mem _ hother))
    rw [List.flatMap_cons, ← List.append_assoc]
    constructor
    · exact hrest.1
    · rw [hrest.2, hpart.2]
      by_cases hempty : part = []
      · simp [hempty]
      · simp [hempty]

theorem quiet_append {first second : List UInt8} (hfirst : Quiet first) (hsecond : Quiet second) :
    Quiet (first ++ second) := by
  intro b hb
  cases List.mem_append.mp hb with
  | inl h => exact hfirst b h
  | inr h => exact hsecond b h

theorem decimal_quiet (n : ℕ) : Quiet (decimal n) := by
  intro b hb
  obtain ⟨character, hmem, rfl⟩ := List.mem_map.mp hb
  have hdigit := Nat.isDigit_of_mem_toDigits (by decide) (by decide) hmem
  simp only [Char.isDigit, Bool.and_eq_true, decide_eq_true_eq, ge_iff_le, UInt32.le_iff_toNat_le]
    at hdigit
  have hlow : 48 ≤ character.toNat := hdigit.1
  have hhigh : character.toNat ≤ 57 := hdigit.2
  interval_cases character.toNat <;> decide

theorem quiet_of_all {text : List UInt8}
    (h : (text.all fun b => !lineEnd b && decide (b ≠ 0)) = true) : Quiet text := by
  intro b hb
  simpa using List.all_eq_true.mp h b hb

theorem index_quiet (client : Fin 2) : Quiet (index client) := by
  fin_cases client
  · exact quiet_of_all rfl
  · exact quiet_of_all rfl

theorem comma_quiet (n : ℕ) : Quiet (comma :: decimal n) := by
  have hcomma : Quiet [comma] := quiet_of_all rfl
  exact quiet_append hcomma (decimal_quiet n)

theorem prefix_quiet : ∀ u ∈ mqttUrcs, Quiet u.urcPrefix := by
  simp only [mqttUrcs, List.forall_mem_cons]
  rw [ascii_ofList, ascii_ofList, ascii_ofList, ascii_ofList, ascii_ofList, ascii_ofList]
  exact ⟨quiet_of_all rfl, quiet_of_all rfl, quiet_of_all rfl, quiet_of_all rfl, quiet_of_all rfl,
    quiet_of_all rfl, nofun⟩

theorem prefix_plus : ∀ u ∈ mqttUrcs, u.urcPrefix.head? = some plus := by
  simp only [mqttUrcs, List.forall_mem_cons]
  rw [ascii_ofList, ascii_ofList, ascii_ofList, ascii_ofList, ascii_ofList, ascii_ofList]
  exact ⟨rfl, rfl, rfl, rfl, rfl, rfl, nofun⟩

theorem parts_quiet {c : Config} {m : Sent} (h : PlainMessage c m) :
    ∀ part ∈ parts m, Quiet part := by
  have hindex := index_quiet m.client
  have hstart : Quiet (startLine m) := by
    have hname := prefix_quiet ⟨ascii "+CMQTTRXSTART:", 0⟩ (by decide)
    exact quiet_append (quiet_append (quiet_append hname hindex) (comma_quiet _)) (comma_quiet _)
  have htopic : Quiet (topicLine m) := by
    have hname := prefix_quiet ⟨ascii "+CMQTTRXTOPIC:", 1⟩ (by decide)
    exact quiet_append (quiet_append hname hindex) (comma_quiet _)
  have hpayload : Quiet (payloadLine m) := by
    have hname := prefix_quiet ⟨ascii "+CMQTTRXPAYLOAD:", 2⟩ (by decide)
    exact quiet_append (quiet_append hname hindex) (comma_quiet _)
  have hend : Quiet (endLine m) := by
    have hname := prefix_quiet ⟨ascii "+CMQTTRXEND:", 3⟩ (by decide)
    exact quiet_append hname hindex
  simp only [parts, List.forall_mem_cons]
  exact ⟨hstart, htopic, h.topic.quiet, hpayload, h.payload.quiet, hend, by simp⟩

theorem openRun_nil : openRun [] = [] := by simp [openRun, runs]

theorem linesOf_nil (c : Config) : linesOf c [] = [] := by simp [linesOf, runs]

/-- The lines of the stream are the lines of its messages. -/
theorem linesOf_messages {c : Config} {ms : List Sent} (h : ∀ m ∈ ms, PlainMessage c m) :
    linesOf c (ms.flatMap encode) = ms.flatMap messageLines := by
  have hparts : ms.flatMap encode = (ms.flatMap parts).flatMap fun part => part ++ crlf := by
    rw [List.flatMap_assoc]
    rfl
  have hquiet : ∀ part ∈ ms.flatMap parts, ∀ b ∈ part, lineEnd b = false := by
    intro part hpart b hb
    obtain ⟨m, hm, hmem⟩ := List.mem_flatMap.mp hpart
    exact (parts_quiet (h m hm) part hmem b hb).1
  have hfits : ∀ part ∈ ms.flatMap parts, part.length < c.lineMax := by
    intro part hpart
    obtain ⟨m, hm, hmem⟩ := List.mem_flatMap.mp hpart
    exact (h m hm).partsFit part hmem
  have hlines := (linesOf_parts openRun_nil hquiet hfits).2
  rw [List.nil_append, linesOf_nil, List.nil_append] at hlines
  rw [hparts, hlines, List.filter_flatMap]
  rfl

def onLine (d : Driver) (line : List UInt8) : Driver := feed d (dispatchLine mqttRouter line)

theorem urcs_of_result {u : Urc} (hu : u ∈ mqttUrcs) (tail : List UInt8) :
    (mqttUrcs.filter fun other => other.urcPrefix.isPrefixOf (u.urcPrefix ++ tail)) = [u] ∧
      (u.urcPrefix ++ tail).head? = some plus := by
  simp only [mqttUrcs, List.mem_cons, List.not_mem_nil, or_false] at hu
  rcases hu with rfl | rfl | rfl | rfl | rfl | rfl <;> exact ⟨rfl, rfl⟩

/-- A result goes to its own handler; the observer leaves it alone. -/
theorem onLine_result {u : Urc} (hu : u ∈ mqttUrcs) (d : Driver) {tail : List UInt8}
    (hquiet : Quiet (u.urcPrefix ++ tail)) :
    onLine d (u.urcPrefix ++ tail) = react d (.handled u (u.urcPrefix ++ tail)) := by
  have hnul : 0 ∉ u.urcPrefix ++ tail := fun h => (hquiet 0 h).2 rfl
  obtain ⟨hown, hhead⟩ := urcs_of_result hu tail
  have hne : u.urcPrefix ++ tail ≠ [] := by
    intro hempty
    simp [hempty] at hhead
  have hany : ∀ d : Driver, onUrcAny d (u.urcPrefix ++ tail) = d := by
    intro d
    simp [onUrcAny, hhead]
  simp only [onLine, dispatchLine, HttpFiles.cString_plain hnul, if_neg hne, mqttRouter_urcs, hown,
    feed]
  simp [mqttRouter, react, hany]

/-- A line that begins with no plus sign goes to the observer alone. -/
theorem onLine_bare (d : Driver) {line : List UInt8} (hquiet : Quiet line) (hne : line ≠ [])
    (hplus : line.head? ≠ some plus) : onLine d line = onUrcAny d line := by
  have hnul : 0 ∉ line := fun h => (hquiet 0 h).2 rfl
  have hnone : (mqttRouter.urcs.filter fun u => u.urcPrefix.isPrefixOf line) = [] := by
    rw [mqttRouter_urcs]
    apply List.filter_eq_nil_iff.mpr
    intro u hu hleads
    obtain ⟨rest, rfl⟩ := List.isPrefixOf_iff_prefix.mp hleads
    apply hplus
    rw [List.head?_append, prefix_plus u hu]
    rfl
  simp only [onLine, dispatchLine, HttpFiles.cString_plain hnul, if_neg hne, hnone, feed]
  simp [mqttRouter, react]

theorem scanInts_index (client : Fin 2) (count : ℕ) (rest : List UInt8) :
    scanInts (count+1) (index client ++ comma :: rest) = (client.val : ℤ) :: scanInts count rest := by
  fin_cases client
  · rfl
  · rfl

structure Shape (m : Sent) (rx : Rx) (topic payload : List UInt8) (topicNext payloadNext : Bool) :
    Prop where
  inProgress : rx.inProgress = true
  clientIndex : rx.clientIndex = m.client.val
  topic : rx.topic = topic
  payload : rx.payload = payload
  topicNext : rx.expectTopicLine = topicNext
  payloadNext : rx.expectPayloadLine = payloadNext
  unfinished : rx.complete = false

theorem arguments_index (urcPrefix : String) (count : ℕ) (client : Fin 2) (rest : List UInt8) :
    argumentsOf urcPrefix (count+1) (ascii urcPrefix ++ (index client ++ comma :: rest)) =
      (client.val : ℤ) :: scanInts count rest := by
  rw [argumentsOf, List.drop_left, scanInts_index]

theorem line_start {c : Config} {m : Sent} (hm : PlainMessage c m) (d : Driver) :
    ∃ rx, onLine d (startLine m) = { d with rx := rx } ∧ Shape m rx [] [] false false := by
  have hquiet := parts_quiet hm (startLine m) (by simp [parts])
  have htail : startLine m = ascii "+CMQTTRXSTART:" ++ (index m.client ++
      comma :: (decimal m.topic.length ++ comma :: decimal m.payload.length)) := by
    simp [startLine]
  rw [htail] at hquiet ⊢
  rw [onLine_result (u := ⟨ascii "+CMQTTRXSTART:", 0⟩) (by decide) d hquiet]
  simp only [react, onUrcRxStart, arguments_index]
  exact ⟨_, rfl, ⟨rfl, rfl, rfl, rfl, rfl, rfl, rfl⟩⟩

theorem line_topic {c : Config} {m : Sent} (hm : PlainMessage c m) {d : Driver}
    (h : Shape m d.rx [] [] false false) :
    ∃ rx, onLine d (topicLine m) = { d with rx := rx } ∧ Shape m rx [] [] true false := by
  have hquiet := parts_quiet hm (topicLine m) (by simp [parts])
  have htail : topicLine m = ascii "+CMQTTRXTOPIC:" ++ (index m.client ++
      comma :: decimal m.topic.length) := by
    simp [topicLine]
  rw [htail] at hquiet ⊢
  rw [onLine_result (u := ⟨ascii "+CMQTTRXTOPIC:", 1⟩) (by decide) d hquiet]
  simp only [react, onUrcRxTopic, h.inProgress, if_true, arguments_index]
  exact ⟨_, rfl, ⟨rfl, h.clientIndex, h.topic, h.payload, rfl, h.payloadNext, h.unfinished⟩⟩

theorem line_topicText {c : Config} {m : Sent} (hm : PlainMessage c m) {d : Driver}
    (h : Shape m d.rx [] [] true false) :
    ∃ rx, onLine d m.topic = { d with rx := rx } ∧ Shape m rx m.topic [] false false := by
  have hfits := hm.topicFits
  rw [onLine_bare d hm.topic.quiet hm.topicSome hm.topic.noResult]
  simp only [onUrcAny, h.inProgress, if_true, hm.topic.noResult, if_false, h.topicNext]
  refine ⟨_, rfl, ⟨rfl, h.clientIndex, ?_, h.payload, rfl, h.payloadNext, h.unfinished⟩⟩
  exact List.take_of_length_le (by omega)

theorem line_payload {c : Config} {m : Sent} (hm : PlainMessage c m) {d : Driver}
    (h : Shape m d.rx m.topic [] false false) :
    ∃ rx, onLine d (payloadLine m) = { d with rx := rx } ∧ Shape m rx m.topic [] false true := by
  have hquiet := parts_quiet hm (payloadLine m) (by simp [parts])
  have htail : payloadLine m = ascii "+CMQTTRXPAYLOAD:" ++ (index m.client ++
      comma :: decimal m.payload.length) := by
    simp [payloadLine]
  rw [htail] at hquiet ⊢
  rw [onLine_result (u := ⟨ascii "+CMQTTRXPAYLOAD:", 2⟩) (by decide) d hquiet]
  simp only [react, onUrcRxPayload, h.inProgress, if_true, arguments_index]
  exact ⟨_, rfl, ⟨rfl, h.clientIndex, h.topic, h.payload, h.topicNext, rfl, h.unfinished⟩⟩

theorem line_payloadText {c : Config} {m : Sent} (hm : PlainMessage c m) (hsome : m.payload ≠ [])
    {d : Driver} (h : Shape m d.rx m.topic [] false true) :
    ∃ rx, onLine d m.payload = { d with rx := rx } ∧ Shape m rx m.topic m.payload false false := by
  rw [onLine_bare d hm.payload.quiet hsome hm.payload.noResult]
  simp only [onUrcAny, h.inProgress, if_true, hm.payload.noResult, if_false, h.topicNext,
    Bool.false_eq_true, h.payloadNext]
  refine ⟨_, rfl, ⟨rfl, h.clientIndex, h.topic, ?_, rfl, rfl, h.unfinished⟩⟩
  exact List.take_of_length_le hm.payloadFits

theorem line_end {c : Config} {m : Sent} (hm : PlainMessage c m) {d : Driver}
    {topic payload : List UInt8} {topicNext payloadNext : Bool}
    (h : Shape m d.rx topic payload topicNext payloadNext) :
    onLine d (endLine m) = { d with rx := { d.rx with complete := true } } := by
  have hquiet := parts_quiet hm (endLine m) (by simp [parts])
  unfold endLine at hquiet ⊢
  rw [onLine_result (u := ⟨ascii "+CMQTTRXEND:", 3⟩) (by decide) d hquiet]
  simp [react, onUrcRxEnd, h.inProgress]

inductive Reading (m : Sent) : List (List UInt8) → Rx → Prop where
  | nothing : Reading m [] rxReset
  | start {rx : Rx} (h : Shape m rx [] [] false false) : Reading m [startLine m] rx
  | topicComes {rx : Rx} (h : Shape m rx [] [] true false) :
      Reading m [startLine m, topicLine m] rx
  | topicRead {rx : Rx} (h : Shape m rx m.topic [] false false) :
      Reading m [startLine m, topicLine m, m.topic] rx
  | payloadComes {rx : Rx} (h : Shape m rx m.topic [] false true) :
      Reading m [startLine m, topicLine m, m.topic, payloadLine m] rx
  | payloadRead {rx : Rx} (hsome : m.payload ≠ []) (h : Shape m rx m.topic m.payload false false) :
      Reading m [startLine m, topicLine m, m.topic, payloadLine m, m.payload] rx

theorem messageLines_eq {c : Config} {m : Sent} (hm : PlainMessage c m) :
    messageLines m = [startLine m, topicLine m, m.topic, payloadLine m] ++
      (if m.payload = [] then [] else [m.payload]) ++ [endLine m] := by
  have hstart : startLine m ≠ [] := by simp [startLine, index]
  have htopic : topicLine m ≠ [] := by simp [topicLine, index]
  have hpayload : payloadLine m ≠ [] := by simp [payloadLine, index]
  have hend : endLine m ≠ [] := by simp [endLine, index]
  by_cases hempty : m.payload = []
  · simp [messageLines, parts, hstart, htopic, hpayload, hend, hm.topicSome, hempty]
  · simp [messageLines, parts, hstart, htopic, hpayload, hend, hm.topicSome, hempty]

structure Whole (m : Sent) (rx : Rx) : Prop where
  complete : rx.complete = true
  clientIndex : rx.clientIndex = m.client.val
  topic : rx.topic = m.topic
  payload : rx.payload = m.payload

theorem whole_end {c : Config} {m : Sent} (hm : PlainMessage c m) {d : Driver} {payloadNext : Bool}
    (h : Shape m d.rx m.topic m.payload false payloadNext) :
    ∃ rx, onLine d (endLine m) = { d with rx := rx } ∧ Whole m rx :=
  ⟨_, line_end hm h, ⟨rfl, h.clientIndex, h.topic, h.payload⟩⟩

/-- The next line of a message is read, or it ends the message. -/
theorem reading_step {c : Config} {m : Sent} (hm : PlainMessage c m) {d : Driver}
    {part : List (List UInt8)} {line : List UInt8} (h : Reading m part d.rx)
    (hnext : part ++ [line] <+: messageLines m) :
    (∃ rx, onLine d line = { d with rx := rx } ∧ Reading m (part ++ [line]) rx) ∨
      (line = endLine m ∧ part ++ [line] = messageLines m ∧
        ∃ rx, onLine d line = { d with rx := rx } ∧ Whole m rx) := by
  rw [messageLines_eq hm] at hnext ⊢
  generalize hrx : d.rx = rx at h
  cases h with
  | nothing =>
    left
    simp only [List.nil_append, List.cons_append, List.cons_prefix_cons] at hnext
    obtain ⟨next, heq, hshape⟩ := line_start hm d
    rw [hnext.1]
    exact ⟨next, heq, .start hshape⟩
  | start hshape =>
    left
    simp only [List.nil_append, List.cons_append, List.cons_prefix_cons] at hnext
    obtain ⟨next, heq, hshape⟩ := line_topic hm (hrx ▸ hshape)
    rw [hnext.2.1]
    exact ⟨next, heq, .topicComes hshape⟩
  | topicComes hshape =>
    left
    simp only [List.nil_append, List.cons_append, List.cons_prefix_cons] at hnext
    obtain ⟨next, heq, hshape⟩ := line_topicText hm (hrx ▸ hshape)
    rw [hnext.2.2.1]
    exact ⟨next, heq, .topicRead hshape⟩
  | topicRead hshape =>
    left
    simp only [List.nil_append, List.cons_append, List.cons_prefix_cons] at hnext
    obtain ⟨next, heq, hshape⟩ := line_payload hm (hrx ▸ hshape)
    rw [hnext.2.2.2.1]
    exact ⟨next, heq, .payloadComes hshape⟩
  | payloadComes hshape =>
    by_cases hempty : m.payload = []
    · right
      simp only [hempty, if_true, List.nil_append, List.cons_append, List.cons_prefix_cons] at hnext
      have hline := hnext.2.2.2.2.1
      subst hline
      have hwhole : Shape m d.rx m.topic m.payload false true := by
        rw [hempty]
        exact hrx ▸ hshape
      exact ⟨rfl, by simp [hempty], whole_end hm hwhole⟩
    · left
      simp only [hempty, if_false, List.nil_append, List.cons_append, List.cons_prefix_cons] at hnext
      obtain ⟨next, heq, hshape⟩ := line_payloadText hm hempty (hrx ▸ hshape)
      rw [hnext.2.2.2.2.1]
      exact ⟨next, heq, .payloadRead hempty hshape⟩
  | payloadRead hsome hshape =>
    right
    simp only [hsome, if_false, List.nil_append, List.cons_append, List.cons_prefix_cons] at hnext
    have hline := hnext.2.2.2.2.2.1
    subst hline
    exact ⟨rfl, by simp [hsome], whole_end hm (hrx ▸ hshape)⟩

theorem reading_unfinished {m : Sent} {part : List (List UInt8)} {rx : Rx}
    (h : Reading m part rx) : rx.complete = false := by
  cases h with
  | nothing => rfl
  | start hshape => exact hshape.unfinished
  | topicComes hshape => exact hshape.unfinished
  | topicRead hshape => exact hshape.unfinished
  | payloadComes hshape => exact hshape.unfinished
  | payloadRead hsome hshape => exact hshape.unfinished

theorem reading_short {c : Config} {m : Sent} (hm : PlainMessage c m) {part : List (List UInt8)}
    {rx : Rx} (h : Reading m part rx) : part.length < (messageLines m).length := by
  rw [messageLines_eq hm]
  cases h with
  | payloadRead hsome hshape => simp [hsome]
  | _ => simp

inductive Tracks (ms : List Sent) (d : Driver) : List (List UInt8) → Prop where
  | between {done todo : List Sent} (hms : ms = done ++ todo) (hrx : d.rx = rxReset)
      (hdelivered : d.delivered = done.map Sent.message) :
      Tracks ms d (done.flatMap messageLines)
  | within {done todo : List Sent} {m : Sent} {part : List (List UInt8)}
      (hms : ms = done ++ m :: todo) (hreading : Reading m part d.rx)
      (hdelivered : d.delivered = done.map Sent.message) :
      Tracks ms d (done.flatMap messageLines ++ part)
  | ended {done todo : List Sent} {m : Sent} (hms : ms = done ++ m :: todo)
      (hwhole : Whole m d.rx) (hdelivered : d.delivered = done.map Sent.message) :
      Tracks ms d ((done ++ [m]).flatMap messageLines)

def SameFlags (d after : Driver) : Prop :=
  after.connected = d.connected ∧ after.lastConnectResult = d.lastConnectResult

theorem within_step {c : Config} {ms done todo : List Sent} {m : Sent} {d : Driver}
    {part : List (List UInt8)} {line : List UInt8} (hm : PlainMessage c m)
    (hms : ms = done ++ m :: todo) (hreading : Reading m part d.rx)
    (hdelivered : d.delivered = done.map Sent.message)
    (hnext : done.flatMap messageLines ++ part ++ [line] <+: ms.flatMap messageLines) :
    SameFlags d (onLine d line) ∧
      Tracks ms (onLine d line) (done.flatMap messageLines ++ part ++ [line]) ∧
      ((onLine d line).rx.complete = true → line = endLine m) := by
  have hshort := reading_short hm hreading
  have hline : part ++ [line] <+: messageLines m := by
    rw [hms, List.flatMap_append, List.flatMap_cons, List.append_assoc,
      List.prefix_append_right_inj] at hnext
    apply List.prefix_of_prefix_length_le hnext (List.prefix_append _ _)
    rw [List.length_append, List.length_singleton]
    omega
  cases reading_step hm hreading hline with
  | inl hstep =>
    obtain ⟨rx, heq, hread⟩ := hstep
    rw [heq]
    refine ⟨⟨rfl, rfl⟩, ?_, ?_⟩
    · rw [List.append_assoc]
      exact .within hms hread hdelivered
    · intro hcomplete
      simp [reading_unfinished hread] at hcomplete
  | inr hstep =>
    obtain ⟨hend, hall, rx, heq, hwhole⟩ := hstep
    rw [heq]
    refine ⟨⟨rfl, rfl⟩, ?_, fun _ => hend⟩
    have hlines : done.flatMap messageLines ++ part ++ [line] = (done ++ [m]).flatMap messageLines := by
      simp [List.append_assoc, hall]
    rw [hlines]
    exact .ended hms hwhole hdelivered

/-- One more line of the stream, while no message waits to be handed over. -/
theorem line_step {c : Config} {ms : List Sent} (hms : ∀ m ∈ ms, PlainMessage c m) {d : Driver}
    {lines : List (List UInt8)} {line : List UInt8} (h : Tracks ms d lines)
    (hopen : d.rx.complete = false) (hnext : lines ++ [line] <+: ms.flatMap messageLines) :
    SameFlags d (onLine d line) ∧ Tracks ms (onLine d line) (lines ++ [line]) ∧
      ((onLine d line).rx.complete = true → ∃ m ∈ ms, line = endLine m) := by
  cases h with
  | @between done todo hsplit hrx hdelivered =>
    cases todo with
    | nil =>
      have hlen := hnext.length_le
      rw [hsplit, List.append_nil, List.length_append, List.length_singleton] at hlen
      omega
    | cons m todo =>
      have hreading : Reading m [] d.rx := hrx ▸ Reading.nothing
      have hmem : m ∈ ms := by simp [hsplit]
      have hstep := within_step (hms m hmem) hsplit hreading hdelivered (by simpa using hnext)
      rw [List.append_nil] at hstep
      exact ⟨hstep.1, hstep.2.1, fun hcomplete => ⟨m, hmem, hstep.2.2 hcomplete⟩⟩
  | @within done todo m part hsplit hreading hdelivered =>
    have hmem : m ∈ ms := by simp [hsplit]
    have hstep := within_step (hms m hmem) hsplit hreading hdelivered hnext
    exact ⟨hstep.1, hstep.2.1, fun hcomplete => ⟨m, hmem, hstep.2.2 hcomplete⟩⟩
  | ended hsplit hwhole hdelivered =>
    rw [hwhole.complete] at hopen
    cases hopen

end JaszczurHal.SimcomMqtt
