import JaszczurHal.LoraCommands

/-!
# Every request is answered once

The transmit buffer has one owner: a pending response keeps it until the link
takes the response or it is given up, and requests and events use it only in
between. With this the accepted responses belong to different requests, each
with the bytes encoded for its own handler's response.
-/

set_option autoImplicit false

namespace JaszczurHal.LoraCommands
open JaszczurHal.ByteImage JaszczurHal.CommandTypes JaszczurHal.HalStatus JaszczurHal.CommandWire
  JaszczurHal.CommandAdapter

variable {c : Config}

def carried (wanted : ℤ → Bool) (delivery : Delivery c) : Option (Message c.toLimits × Info) :=
  if delivery.info.port ≠ c.port then none
  else
    match decode c.toLimits (ofList delivery.bytes) delivery.bytes.length with
    | .error _ => none
    | .ok message => if wanted message.type then some (message, delivery.info) else none

def forRouter (type : ℤ) : Bool := type = messageRequest

def forApplication (type : ℤ) : Bool := type = messageResponse || type = messageEvent

def requests (deliveries : List (Delivery c)) : List (Message c.toLimits × Info) :=
  deliveries.filterMap (carried forRouter)

def applicationMessages (deliveries : List (Delivery c)) : List (Message c.toLimits × Info) :=
  deliveries.filterMap (carried forApplication)

def waiting (s : State c) : List (Message c.toLimits × Info) :=
  if s.context.receivedReady then [(s.context.receivedMessage, s.context.receivedInfo)] else []

def pendingBytes (s : State c) : List UInt8 :=
  slice s.context.transmitWire 0 s.context.pendingResponseLength

def isResponse (l : Limits) (send : Send) : Bool :=
  send.status = .ok &&
    match decode l (ofList send.bytes) send.bytes.length with
    | .error _ => false
    | .ok message => message.type = messageResponse

def responsesSent (log : Log c) : List Send := log.sends.filter (isResponse c.toLimits)

/-- These bytes to this destination answer request `k`: they go to its source
and carry its id and what its handler produced. -/
def Answers (log : Log c) (k : ℕ) (destination : UInt16) (bytes : List UInt8) : Prop :=
  ∃ request info response, ∃ read : Message c.toLimits,
    log.calls[k]? = some (request, info) ∧ log.replies[k]? = some response ∧
    destination = info.source ∧ decode c.toLimits (ofList bytes) bytes.length = .ok read ∧
    Answer c.responseBufferSize c.maxMessageSize response request.requestId read

/-- What becomes of a pending response in one step: it waits unchanged, the
link takes exactly its bytes, or it is dropped and the call reports an error. -/
def Keeps (s s' : State c) (result : Option Status) : Prop :=
  (s'.context.pendingResponse = true ∧ pendingBytes s' = pendingBytes s ∧
    s'.context.pendingResponseDestination = s.context.pendingResponseDestination ∧
    responsesSent s'.log = responsesSent s.log) ∨
  (∃ send : Send, s'.log.sends = s.log.sends ++ [send] ∧ send.status = .ok ∧
    send.bytes = pendingBytes s ∧
    send.destination = s.context.pendingResponseDestination) ∨
  (s'.context.pendingResponse = false ∧ responsesSent s'.log = responsesSent s.log ∧
    ∃ status, result = some status ∧ status ≠ .ok ∧ status ≠ .eagain ∧ status ≠ .ebusy)

structure Core (s : State c) : Prop where
  calls : s.log.calls = requests s.log.deliveries
  handed : s.log.handed ++ waiting s = applicationMessages s.log.deliveries
  replies : s.log.replies.length + (if s.frame.isSome then 1 else 0) = s.log.calls.length
  quiet : s.frame.isSome → s.context.pendingResponse = false ∧ s.context.receivedReady = false
  frame : ∀ f, s.frame = some f → ∃ request info,
    s.log.calls[s.log.replies.length]? = some (request, info) ∧ f.requestId = request.requestId ∧
      f.source = info.source
  answered : ∃ ks : List ℕ, ks.Pairwise (· < ·) ∧
    (∀ k ∈ ks, k + (if s.context.pendingResponse then 1 else 0) < s.log.replies.length) ∧
    List.Forall₂ (fun k send => Answers s.log k send.destination send.bytes) ks
      (responsesSent s.log)
  pending : s.context.pendingResponse = true → ∃ k, k + 1 = s.log.replies.length ∧
    Answers s.log k s.context.pendingResponseDestination (pendingBytes s)

structure Holds (s : State c) : Prop extends Core s where
  active : s.context.processActive = s.frame.isSome

theorem start_holds (c : Config) : Holds (start c) := by
  constructor
  · constructor
    · rfl
    · rfl
    · rfl
    · intro h
      cases h
    · intro f h
      cases h
    · exact ⟨[], List.Pairwise.nil, by simp, List.Forall₂.nil⟩
    · intro h
      cases h
  · rfl

/-- The invariant reads these fields of the context only. -/
theorem Core.update {s : State c} (h : Core s) (context : Context c)
    (hwire : context.transmitWire = s.context.transmitWire)
    (hlength : context.pendingResponseLength = s.context.pendingResponseLength)
    (hdestination : context.pendingResponseDestination = s.context.pendingResponseDestination)
    (hpending : context.pendingResponse = s.context.pendingResponse)
    (hready : context.receivedReady = s.context.receivedReady)
    (hmessage : context.receivedMessage = s.context.receivedMessage)
    (hinfo : context.receivedInfo = s.context.receivedInfo) : Core (s.update context) := by
  have hwaiting : waiting (s.update context) = waiting s := by
    simp only [waiting, hready, hmessage, hinfo]
  have hbytes : pendingBytes (s.update context) = pendingBytes s := by
    simp only [pendingBytes, hwire, hlength]
  constructor
  · exact h.calls
  · rw [hwaiting]
    exact h.handed
  · exact h.replies
  · intro hframe
    have hquiet := h.quiet hframe
    exact ⟨hpending.trans hquiet.1, hready.trans hquiet.2⟩
  · exact h.frame
  · have hanswered := h.answered
    rw [← hpending] at hanswered
    exact hanswered
  · intro hp
    rw [hbytes, show (s.update context).context.pendingResponseDestination =
      s.context.pendingResponseDestination from hdestination]
    exact h.pending (hpending.symm.trans hp)

theorem recordError_core {s : State c} (h : Core s) (status : Status) :
    Core (recordError s status) := by
  rw [recordError]
  by_cases hhard : statusIsHard status = true
  · rw [if_pos hhard]
    exact h.update _ rfl rfl rfl rfl rfl rfl rfl
  · rw [if_neg hhard]
    exact h

/-- Without a pending response the transmit buffer is free. -/
theorem Core.release {s : State c} (h : Core s) (context : Context c)
    (hpending : context.pendingResponse = false)
    (hready : context.receivedReady = s.context.receivedReady)
    (hmessage : context.receivedMessage = s.context.receivedMessage)
    (hinfo : context.receivedInfo = s.context.receivedInfo) : Core (s.update context) := by
  have hwaiting : waiting (s.update context) = waiting s := by
    simp only [waiting, hready, hmessage, hinfo]
  constructor
  · exact h.calls
  · rw [hwaiting]
    exact h.handed
  · exact h.replies
  · intro hframe
    exact ⟨hpending, hready.trans (h.quiet hframe).2⟩
  · exact h.frame
  · obtain ⟨ks, hsorted, hbound, hmatch⟩ := h.answered
    refine ⟨ks, hsorted, fun k hk => ?_, hmatch⟩
    have hlt := hbound k hk
    have hclear : (s.update context).context.pendingResponse = false := hpending
    rw [hclear]
    simp only [Bool.false_eq_true, if_false]
    exact Nat.lt_of_le_of_lt (Nat.le_add_right _ _) hlt
  · intro hp
    have hclear : (s.update context).context.pendingResponse = false := hpending
    rw [hclear] at hp
    cases hp

theorem responsesSent_append (log : Log c) (send : Send) :
    responsesSent { log with sends := log.sends ++ [send] } =
      responsesSent log ++ if isResponse c.toLimits send then [send] else [] := by
  simp only [responsesSent, List.filter_append, List.filter_singleton]
  cases isResponse c.toLimits send <;> rfl

/-- A send that is not an accepted response changes no count. -/
theorem Core.sendOther {s : State c} (h : Core s) {send : Send}
    (hother : isResponse c.toLimits send = false) :
    Core { s with log := { s.log with sends := s.log.sends ++ [send] } } := by
  have hsame := responsesSent_append s.log send
  rw [hother, if_neg (by simp), List.append_nil] at hsame
  constructor
  · exact h.calls
  · exact h.handed
  · exact h.replies
  · exact h.quiet
  · exact h.frame
  · obtain ⟨ks, hsorted, hbound, hmatch⟩ := h.answered
    refine ⟨ks, hsorted, hbound, ?_⟩
    rw [hsame]
    exact hmatch
  · exact h.pending

theorem answers_isResponse {log : Log c} {k : ℕ} {send : Send}
    (h : Answers log k send.destination send.bytes) (hok : send.status = .ok) :
    isResponse c.toLimits send = true := by
  obtain ⟨_, _, _, read, _, _, _, hread, hanswer⟩ := h
  simp [isResponse, hok, hread, hanswer.type]

theorem Core.sendPending {s : State c} (h : Core s) (hp : s.context.pendingResponse = true)
    {send : Send} (hok : send.status = .ok) (hbytes : send.bytes = pendingBytes s)
    (hdestination : send.destination = s.context.pendingResponseDestination)
    (context : Context c) (hpending : context.pendingResponse = false)
    (hready : context.receivedReady = s.context.receivedReady)
    (hmessage : context.receivedMessage = s.context.receivedMessage)
    (hinfo : context.receivedInfo = s.context.receivedInfo) :
    Core { s with
      context := context
      log := { s.log with sends := s.log.sends ++ [send] } } := by
  obtain ⟨k, hlast, hanswers⟩ := h.pending hp
  rw [← hbytes, ← hdestination] at hanswers
  have hnew := responsesSent_append s.log send
  rw [answers_isResponse hanswers hok, if_pos rfl] at hnew
  obtain ⟨ks, hsorted, hbound, hmatch⟩ := h.answered
  rw [hp, if_pos rfl] at hbound
  have hcore := h.release context hpending hready hmessage hinfo
  constructor
  · exact hcore.calls
  · exact hcore.handed
  · exact hcore.replies
  · exact hcore.quiet
  · exact hcore.frame
  · refine ⟨ks ++ [k], ?_, ?_, ?_⟩
    · rw [List.pairwise_append]
      refine ⟨hsorted, List.pairwise_singleton _ _, fun a ha b hb => ?_⟩
      rw [List.mem_singleton.mp hb]
      have := hbound a ha
      omega
    · intro a ha
      dsimp only
      rw [hpending]
      simp only [Bool.false_eq_true, if_false, Nat.add_zero]
      rcases List.mem_append.mp ha with ha | ha
      · have := hbound a ha
        omega
      · rw [List.mem_singleton.mp ha]
        omega
    · rw [hnew]
      exact List.rel_append hmatch (List.Forall₂.cons hanswers List.Forall₂.nil)
  · exact hcore.pending

theorem isResponse_refused (l : Limits) {send : Send} (h : send.status ≠ .ok) :
    isResponse l send = false := by
  simp [isResponse, h]

theorem tryPendingResponse_core {s : State c} (h : Core s)
    (hp : s.context.pendingResponse = true) (status : Status) :
    Core (tryPendingResponse s status).2 := by
  simp only [tryPendingResponse]
  by_cases hok : status = .ok
  · rw [if_pos hok]
    exact h.sendPending hp hok rfl rfl _ rfl rfl rfl rfl
  · rw [if_neg hok]
    have hsent : Core (linkSendStart s s.context.pendingResponseDestination
        s.context.pendingResponseLength c.acknowledged status) :=
      h.sendOther (isResponse_refused _ hok)
    by_cases hbusy : status = .ebusy ∨ status = .eagain
    · rw [if_pos hbusy]
      exact hsent
    · rw [if_neg hbusy]
      apply recordError_core
      apply hsent.release
      · rfl
      · rfl
      · rfl
      · rfl

theorem finishProcess_holds {s : State c} (h : Core s) (hframe : s.frame = none)
    (status : Status) : Holds (finishProcess s status).2 := by
  constructor
  · exact h.update _ rfl rfl rfl rfl rfl rfl rfl
  · simp [finishProcess, State.update, hframe]

theorem pushed_waiting {s : State c} (h : Core s) (hready : s.context.receivedReady = false) :
    s.log.handed = applicationMessages s.log.deliveries := by
  have hhanded := h.handed
  rw [waiting, hready, if_neg (by simp), List.append_nil] at hhanded
  exact hhanded

/-- The link hands over a message that is not for this adapter. -/
theorem Core.deliverOther {s : State c} (h : Core s) {delivery : Delivery c}
    (hrouter : carried forRouter delivery = none)
    (happlication : carried forApplication delivery = none) :
    Core { s with log := { s.log with deliveries := s.log.deliveries ++ [delivery] } } := by
  constructor
  · have hcalls := h.calls
    simp only [requests] at hcalls ⊢
    rw [List.filterMap_append, ← hcalls]
    simp [hrouter]
  · have hhanded := h.handed
    simp only [applicationMessages, waiting] at hhanded ⊢
    rw [List.filterMap_append, hhanded]
    simp [happlication]
  · exact h.replies
  · exact h.quiet
  · exact h.frame
  · exact h.answered
  · exact h.pending

theorem Core.deliverApplication {s : State c} (h : Core s)
    (hready : s.context.receivedReady = false) (hframe : s.frame = none)
    {delivery : Delivery c} {message : Message c.toLimits}
    (hrouter : carried forRouter delivery = none)
    (happlication : carried forApplication delivery = some (message, delivery.info)) :
    Core { s with
      context := { s.context with
        receivedMessage := message
        receivedInfo := delivery.info
        receivedReady := true }
      log := { s.log with deliveries := s.log.deliveries ++ [delivery] } } := by
  constructor
  · have hcalls := h.calls
    simp only [requests] at hcalls ⊢
    rw [List.filterMap_append, ← hcalls]
    simp [hrouter]
  · have hhanded := pushed_waiting h hready
    simp only [applicationMessages] at hhanded ⊢
    rw [List.filterMap_append, ← hhanded]
    simp [waiting, happlication]
  · exact h.replies
  · intro hsome
    simp [hframe] at hsome
  · exact h.frame
  · exact h.answered
  · exact h.pending

theorem Core.deliverRequest {s : State c} (h : Core s) (hframe : s.frame = none)
    (hready : s.context.receivedReady = false) (hp : s.context.pendingResponse = false)
    {delivery : Delivery c} {message : Message c.toLimits} (linkStatus : Status)
    (hrouter : carried forRouter delivery = some (message, delivery.info))
    (happlication : carried forApplication delivery = none) :
    Core {
      context := s.context
      frame := some ⟨linkStatus, message.requestId, delivery.info.source⟩
      log := { s.log with
        deliveries := s.log.deliveries ++ [delivery]
        calls := s.log.calls ++ [(message, delivery.info)] } } := by
  have hreplies : s.log.replies.length = s.log.calls.length := by
    have hreplies := h.replies
    simpa [hframe] using hreplies
  constructor
  · have hcalls := h.calls
    simp only [requests] at hcalls ⊢
    rw [List.filterMap_append, ← hcalls]
    simp [hrouter]
  · have hhanded := h.handed
    simp only [applicationMessages, waiting] at hhanded ⊢
    rw [List.filterMap_append, hhanded]
    simp [happlication]
  · simp [hreplies]
  · intro _
    exact ⟨hp, hready⟩
  · intro f hf
    obtain rfl := Option.some.inj hf
    exact ⟨message, delivery.info, by simp [hreplies], rfl, rfl⟩
  · obtain ⟨ks, hsorted, hbound, hmatch⟩ := h.answered
    refine ⟨ks, hsorted, hbound, hmatch.imp fun k send hsend => ?_⟩
    obtain ⟨request, info, response, read, hcall, hrest⟩ := hsend
    have hk := (List.getElem?_eq_some_iff.mp hcall).1
    exact ⟨request, info, response, read, by rw [List.getElem?_append_left hk]; exact hcall, hrest⟩
  · intro hpending
    exact absurd (hp.symm.trans hpending) (by simp)

/-- The receive buffer holds what the link copied there. -/
theorem decode_receiveWire (wire : Image) (delivery : Delivery c) :
    decode c.toLimits (write wire 0 delivery.bytes) delivery.bytes.length =
      decode c.toLimits (ofList delivery.bytes) delivery.bytes.length := by
  apply decode_congr
  intro i hi
  have hat : write wire 0 delivery.bytes (0+i) = delivery.bytes.getD i 0 := write_at hi
  rw [Nat.zero_add] at hat
  rw [hat, ofList]

@[simp] theorem recordError_frame (s : State c) (status : Status) :
    (recordError s status).frame = s.frame := by
  rw [recordError]
  split
  · rfl
  · rfl

@[simp] theorem recordError_log (s : State c) (status : Status) :
    (recordError s status).log = s.log := by
  rw [recordError]
  split
  · rfl
  · rfl

theorem carried_wrong_port (wanted : ℤ → Bool) {delivery : Delivery c}
    (h : delivery.info.port ≠ c.port) : carried wanted delivery = none := by
  rw [carried, if_pos h]

theorem carried_error (wanted : ℤ → Bool) {delivery : Delivery c} {status : Status}
    (h : decode c.toLimits (ofList delivery.bytes) delivery.bytes.length = .error status) :
    carried wanted delivery = none := by
  rw [carried, h]
  exact ite_self _

theorem carried_ok (wanted : ℤ → Bool) {delivery : Delivery c} {message : Message c.toLimits}
    (hport : delivery.info.port = c.port)
    (h : decode c.toLimits (ofList delivery.bytes) delivery.bytes.length = .ok message) :
    carried wanted delivery =
      if wanted message.type then some (message, delivery.info) else none := by
  rw [carried, if_neg (by simp [hport]), h]

theorem receiveLink_holds {s : State c} (h : Core s) (hframe : s.frame = none)
    (hactive : s.context.processActive = true) (hp : s.context.pendingResponse = false)
    (hready : s.context.receivedReady = false) (linkStatus : Status) (progressed : Bool)
    (received : Received c) : Holds (receiveLink s linkStatus progressed received).2 := by
  cases received with
  | refused status hbad =>
    simp only [receiveLink]
    by_cases hagain : status = .eagain
    · rw [if_pos hagain]
      exact finishProcess_holds h hframe _
    · rw [if_neg hagain]
      exact finishProcess_holds (recordError_core h _) (by simp [hframe]) _
  | message delivery =>
    simp only [receiveLink]
    have hcopied := h.update { s.context with
      receiveWire := write s.context.receiveWire 0 delivery.bytes
      lastReceived := delivery.info } rfl rfl rfl rfl rfl rfl rfl
    by_cases hport : delivery.info.port ≠ c.port
    · rw [if_pos hport]
      apply finishProcess_holds
      · exact hcopied.deliverOther (carried_wrong_port _ hport) (carried_wrong_port _ hport)
      · exact hframe
    · rw [if_neg hport]
      have hport : delivery.info.port = c.port := by simpa using hport
      simp only [handleReceivedMessage, decode_receiveWire]
      cases hdecode : decode c.toLimits (ofList delivery.bytes) delivery.bytes.length with
      | error status =>
        dsimp only
        apply finishProcess_holds
        · apply recordError_core
          have hother := hcopied.deliverOther (carried_error _ hdecode) (carried_error _ hdecode)
          exact hother.update _ rfl rfl rfl rfl rfl rfl rfl
        · simp [State.update, hframe]
      | ok message =>
        have hrouter := carried_ok forRouter hport hdecode
        have happlication := carried_ok forApplication hport hdecode
        simp only [State.update]
        split
        · rename_i hrequest
          rw [if_pos (by simp [forRouter, hrequest])] at hrouter
          rw [if_neg (by simp [forApplication, hrequest, messageRequest, messageResponse,
            messageEvent])] at happlication
          constructor
          · have hcalled := hcopied.deliverRequest hframe hready hp linkStatus hrouter happlication
            exact hcalled.update _ rfl rfl rfl rfl rfl rfl rfl
          · exact hactive
        · rename_i hrequest
          rw [if_neg (by simp [forRouter, hrequest])] at hrouter
          split
          · rename_i happ
            rw [if_pos (by simpa [forApplication] using happ)] at happlication
            apply finishProcess_holds
            · have hkept := hcopied.deliverApplication hready hframe hrouter happlication
              exact hkept.update _ rfl rfl rfl rfl rfl rfl rfl
            · exact hframe
          · rename_i happ
            rw [if_neg (by simpa [forApplication] using happ)] at happlication
            apply finishProcess_holds
            · have hother := hcopied.deliverOther hrouter happlication
              exact hother.update _ rfl rfl rfl rfl rfl rfl rfl
            · exact hframe

theorem recordError_eq (s : State c) (status : Status) :
    ∃ error, recordError s status = s.update { s.context with lastError := error } := by
  by_cases hhard : statusIsHard status = true
  · exact ⟨status, by rw [recordError, if_pos hhard]⟩
  · exact ⟨s.context.lastError, by rw [recordError, if_neg hhard]⟩

theorem begin_eq (s : State c) (linkStatus : Status) :
    ∃ error, recordError (s.update { s.context with processActive := true }) linkStatus =
      s.update { s.context with processActive := true, lastError := error } :=
  recordError_eq _ linkStatus

theorem tryPendingResponse_frame (s : State c) (status : Status) :
    (tryPendingResponse s status).2.frame = s.frame ∧
    (tryPendingResponse s status).2.context.processActive = s.context.processActive ∧
    (tryPendingResponse s status).2.context.receivedReady = s.context.receivedReady := by
  simp only [tryPendingResponse]
  split
  · exact ⟨rfl, rfl, rfl⟩
  · split
    · exact ⟨rfl, rfl, rfl⟩
    · obtain ⟨error, herror⟩ := recordError_eq ((linkSendStart s
        s.context.pendingResponseDestination s.context.pendingResponseLength c.acknowledged
        status).update { s.context with
          pendingResponseLength := 0
          pendingResponseDestination := addressNone
          pendingResponse := false }) status
      have hsame : (linkSendStart s s.context.pendingResponseDestination
        s.context.pendingResponseLength c.acknowledged status).context = s.context := rfl
      rw [hsame, herror]
      exact ⟨rfl, rfl, rfl⟩

theorem process_holds {s : State c} (h : Holds s) (linkStatus send : Status)
    (received : Received c) : Holds (process s linkStatus send received).2 := by
  simp only [process]
  by_cases hactive : s.context.processActive = true
  · rw [if_pos hactive]
    exact h
  · rw [if_neg hactive]
    have hframe : s.frame = none := by
      have hnone := h.active
      simpa [hactive] using hnone
    obtain ⟨error, hbegin⟩ := begin_eq s linkStatus
    rw [hbegin]
    have hcore := h.toCore.update
      { s.context with processActive := true, lastError := error } rfl rfl rfl rfl rfl rfl rfl
    split
    · rename_i hp
      have htried := tryPendingResponse_core hcore hp send
      obtain ⟨htframe, htactive, _⟩ := tryPendingResponse_frame
        (s.update { s.context with processActive := true, lastError := error }) send
      have htframe := htframe.trans hframe
      split
      · exact finishProcess_holds htried htframe _
      · split
        · exact finishProcess_holds htried htframe _
        · rename_i hfree
          split
          · exact finishProcess_holds htried htframe _
          · rename_i hready
            exact receiveLink_holds htried htframe htactive (by simpa using hfree)
              (by simpa using hready) _ _ _
    · rename_i hfree
      split
      · exact finishProcess_holds hcore hframe _
      · rename_i hready
        exact receiveLink_holds hcore hframe rfl (by simpa using hfree)
          (by simpa using hready) _ _ _

/-- A buffer holds what was just written at its start. -/
theorem slice_written (wire : Image) {bytes : List UInt8} {length : ℕ}
    (h : bytes.length = length) : slice (write wire 0 bytes) 0 length = bytes := by
  rw [← h]
  exact slice_write_self wire 0 bytes

theorem isResponse_other {l : Limits} {send : Send} {read : Message l}
    (hread : decode l (ofList send.bytes) send.bytes.length = .ok read)
    (htype : read.type ≠ messageResponse) : isResponse l send = false := by
  simp [isResponse, hread, htype]

/-- A request or an event leaves no trace in the transmit buffer's owner. -/
theorem sendMessage_core {s : State c} (h : Core s) (hp : s.context.pendingResponse = false)
    (destination : UInt16) {type : ℤ} (htype : type ≠ messageResponse) (requestId : UInt32)
    (name : Option (List UInt8)) (encoding : ℤ) (payload : Option (List UInt8))
    (payloadLength : ℕ) (acknowledged : Bool) (send : Status) :
    Core (sendMessage s destination type requestId name encoding payload payloadLength
      acknowledged send).2 := by
  simp only [sendMessage]
  rcases hprepared : prepareMessage s.context.scratchMessage type requestId name encoding payload
    payloadLength c.maxMessageSize with ⟨status, scratch, length, bytes⟩
  dsimp only
  have hbuilt := h.release { s.context with
    scratchMessage := scratch
    transmitWire := write s.context.transmitWire 0 bytes } hp rfl rfl rfl
  by_cases hok : status = .ok
  · subst hok
    obtain ⟨hlength, read, hread, hreadType⟩ := prepareMessage_type hprepared
    rw [if_neg (by simp)]
    have hsent : Core (linkSendStart (s.update { s.context with
        scratchMessage := scratch
        transmitWire := write s.context.transmitWire 0 bytes })
        destination length acknowledged send) := by
      apply hbuilt.sendOther
      apply @isResponse_other _ _ read
      · dsimp only
        rw [slice_written _ hlength, hlength]
        exact hread
      · rw [hreadType]
        exact htype
    split
    · apply hsent.release
      · exact hp
      · rfl
      · rfl
      · rfl
    · exact recordError_core hsent _
  · rw [if_pos hok]
    exact recordError_core hbuilt _

theorem sendMessage_frame (s : State c) (destination : UInt16) (type : ℤ) (requestId : UInt32)
    (name : Option (List UInt8)) (encoding : ℤ) (payload : Option (List UInt8))
    (payloadLength : ℕ) (acknowledged : Bool) (send : Status) :
    let t := (sendMessage s destination type requestId name encoding payload payloadLength
      acknowledged send).2
    t.frame = s.frame ∧ t.context.processActive = s.context.processActive := by
  simp only [sendMessage]
  split
  · rw [recordError]
    split
    · exact ⟨rfl, rfl⟩
    · exact ⟨rfl, rfl⟩
  · split
    · exact ⟨rfl, rfl⟩
    · rw [recordError]
      split
      · exact ⟨rfl, rfl⟩
      · exact ⟨rfl, rfl⟩

theorem requestStart_holds {s : State c} (h : Holds s) (destination : UInt16)
    (command : Option (List UInt8)) (encoding : ℤ) (arguments : Option (List UInt8))
    (argumentsLength : ℕ) (send : Status) :
    Holds (requestStart s destination command encoding arguments argumentsLength send).2.2 := by
  simp only [requestStart]
  split
  · exact h
  · split
    · exact h
    · rename_i hfree
      have hsent := sendMessage_core h.toCore (by simpa using hfree) destination
        (show messageRequest ≠ messageResponse by decide) s.context.nextRequestId command encoding
        arguments argumentsLength c.acknowledged send
      have hframe := sendMessage_frame s destination messageRequest s.context.nextRequestId command
        encoding arguments argumentsLength c.acknowledged send
      have hactive := hframe.2.trans (h.active.trans (congrArg Option.isSome hframe.1.symm))
      split
      · constructor
        · exact hsent.update _ rfl rfl rfl rfl rfl rfl rfl
        · exact hactive
      · exact { toCore := hsent, active := hactive }

theorem eventStart_holds {s : State c} (h : Holds s) (destination : UInt16)
    (event : Option (List UInt8)) (encoding : ℤ) (payload : Option (List UInt8))
    (payloadLength : ℕ) (send : Status) :
    Holds (eventStart s destination event encoding payload payloadLength send).2 := by
  simp only [eventStart]
  split
  · exact h
  · rename_i hfree
    have hframe := sendMessage_frame s destination messageEvent 0 event encoding payload
      payloadLength (if destination = addressBroadcast then false else c.acknowledged) send
    constructor
    · exact sendMessage_core h.toCore (by simpa using hfree) destination (by decide) _ _ _ _ _ _ _
    · exact hframe.2.trans (h.active.trans (congrArg Option.isSome hframe.1.symm))

theorem receive_holds {s : State c} (h : Holds s) : Holds (receive s).2 := by
  rw [receive]
  by_cases hready : s.context.receivedReady = true
  · rw [if_neg (by simp [hready])]
    constructor
    · constructor
      · exact h.calls
      · have hhanded := h.handed
        simpa [waiting, hready] using hhanded
      · exact h.replies
      · intro hsome
        exact ⟨(h.quiet hsome).1, rfl⟩
      · exact h.frame
      · exact h.answered
      · exact h.pending
    · exact h.active
  · rw [if_pos (by simp [hready])]
    exact h

theorem request_id {deliveries : List (Delivery c)} {request : Message c.toLimits} {info : Info}
    (h : (request, info) ∈ requests deliveries) : request.requestId ≠ 0 := by
  obtain ⟨delivery, _, hcarried⟩ := List.mem_filterMap.mp h
  rw [carried] at hcarried
  split at hcarried
  · cases hcarried
  · split at hcarried
    · cases hcarried
    · rename_i message hdecode
      split at hcarried
      · rename_i htype
        obtain ⟨n, hvalid, _⟩ := frame_decode hdecode
        have hheader := (validateMessage_iff.mp hvalid).1
        have hmessage : message = request := congrArg Prod.fst (Option.some.inj hcarried)
        rw [← hmessage]
        exact (hheader.request (by simpa [forRouter] using htype)).1
      · cases hcarried

/-- The router has returned: the response of the last request is encoded and
becomes the pending one. -/
theorem Core.reply {s : State c} (h : Core s) {f : Frame} (hf : s.frame = some f)
    (response : Response) (context : Context c) {length : ℕ} {bytes : List UInt8}
    {read : Message c.toLimits} (hlength : bytes.length = length)
    (hread : decode c.toLimits (ofList bytes) length = .ok read)
    (hanswer : Answer c.responseBufferSize c.maxMessageSize response f.requestId read)
    (hwire : context.transmitWire = write s.context.transmitWire 0 bytes)
    (hpendingLength : context.pendingResponseLength = length)
    (hdestination : context.pendingResponseDestination = f.source)
    (hready : context.receivedReady = s.context.receivedReady)
    (hmessage : context.receivedMessage = s.context.receivedMessage)
    (hinfo : context.receivedInfo = s.context.receivedInfo) :
    Core { context := context, frame := none
           log := { s.log with replies := s.log.replies ++ [response] } } := by
  obtain ⟨request, info, hcall, hid, hsource⟩ := h.frame f hf
  have hquiet := h.quiet (by simp [hf])
  constructor
  · exact h.calls
  · have hhanded := h.handed
    simpa [waiting, hready, hmessage, hinfo] using hhanded
  · have hreplies := h.replies
    simpa [hf] using hreplies
  · intro hsome
    cases hsome
  · intro g hg
    cases hg
  · obtain ⟨ks, hsorted, hbound, hmatch⟩ := h.answered
    refine ⟨ks, hsorted, fun k hk => ?_, hmatch.imp fun k send hsend => ?_⟩
    · have hlt := hbound k hk
      rw [hquiet.1] at hlt
      simp only [Bool.false_eq_true, if_false, Nat.add_zero] at hlt
      rw [List.length_append, List.length_singleton]
      split <;> omega
    · obtain ⟨request, info, answer, read, hcall, hreply, hrest⟩ := hsend
      have hk := (List.getElem?_eq_some_iff.mp hreply).1
      exact ⟨request, info, answer, read, hcall,
        by rw [List.getElem?_append_left hk]; exact hreply, hrest⟩
  · intro _
    refine ⟨s.log.replies.length, by simp, request, info, response, read, hcall, by simp, ?_, ?_, ?_⟩
    · exact hdestination.trans hsource
    · have hbytes : slice context.transmitWire 0 context.pendingResponseLength = bytes := by
        rw [hwire, hpendingLength]
        exact slice_written _ hlength
      simp only [pendingBytes, hbytes, hlength]
      exact hread
    · rw [← hid]
      exact hanswer

theorem frame_request_id {s : State c} (h : Core s) {f : Frame} (hf : s.frame = some f) :
    f.requestId ≠ 0 := by
  obtain ⟨request, info, hcall, hid, _⟩ := h.frame f hf
  rw [hid]
  apply @request_id _ s.log.deliveries _ info
  rw [← h.calls]
  exact List.mem_of_getElem? hcall

theorem afterDispatch_holds {s : State c} (h : Holds s) {f : Frame} (hf : s.frame = some f)
    (response : Response) (send : Status) : Holds (afterDispatch s f response send).2 := by
  obtain ⟨scratch, length, bytes, hencoded, hlength, _, read, hread, hanswer⟩ :=
    @encodeResponse_answer _ s.context.scratchMessage c.responseBufferSize _ response _
      (frame_request_id h.toCore hf) c.maxMessageSize_ge
  simp only [afterDispatch, encodeDispatchResponse, hencoded]
  rw [if_neg (by simp)]
  have hreply := h.toCore.reply hf response { s.context with
      handlerResponse := .zero
      dispatchActive := false
      scratchMessage := scratch
      transmitWire := write s.context.transmitWire 0 bytes
      pendingResponseLength := length
      pendingResponseDestination := f.source
      pendingResponse := true
      dispatchMessage := zeroMessage _
      dispatchInfo := .zero } hlength hread hanswer rfl rfl rfl rfl rfl rfl
  rw [if_neg (by simp)]
  apply finishProcess_holds
  · exact tryPendingResponse_core hreply rfl send
  · exact (tryPendingResponse_frame _ send).1

theorem step_holds {s : State c} (h : Holds s) (action : Action c) : Holds (step s action).2 := by
  cases action with
  | process linkStatus send received => exact process_holds h linkStatus send received
  | handlerReturns response send =>
    simp only [step]
    cases hf : s.frame with
    | none => exact h
    | some f => exact afterDispatch_holds h hf response send
  | requestStart destination command encoding arguments argumentsLength send =>
    exact requestStart_holds h destination command encoding arguments argumentsLength send
  | eventStart destination event encoding payload payloadLength send =>
    exact eventStart_holds h destination event encoding payload payloadLength send
  | receive => exact receive_holds h

theorem run_holds {s : State c} (h : Holds s) (actions : List (Action c)) :
    Holds (run s actions) := by
  induction actions generalizing s with
  | nil => exact h
  | cons action rest ih => exact ih (step_holds h action)

theorem selectProcessStatus_reports (linkStatus : Status) {status : Status} (progressed : Bool)
    (hok : status ≠ .ok) (hbusy : ¬(status = .ebusy ∨ status = .eagain)) :
    selectProcessStatus linkStatus status progressed ≠ .ok ∧
      selectProcessStatus linkStatus status progressed ≠ .eagain ∧
      selectProcessStatus linkStatus status progressed ≠ .ebusy := by
  cases linkStatus <;> cases status <;> simp_all [selectProcessStatus, statusIsHard]

theorem receiveLink_sends (s : State c) (linkStatus : Status) (progressed : Bool)
    (received : Received c) :
    (receiveLink s linkStatus progressed received).2.log.sends = s.log.sends := by
  cases received with
  | refused status hbad =>
    simp only [receiveLink]
    split
    · rfl
    · simp [finishProcess]
  | message delivery =>
    simp only [receiveLink, handleReceivedMessage]
    split
    · rfl
    · split
      · simp [finishProcess]
      · split
        · rfl
        · split
          · rfl
          · rfl

theorem tryPendingResponse_cases (s : State c) (status : Status) :
    (status = .ok ∧ (tryPendingResponse s status).1 = .ok ∧
      (tryPendingResponse s status).2.context.pendingResponse = false ∧
      (tryPendingResponse s status).2.log.sends = s.log.sends ++
        [⟨s.context.pendingResponseDestination, c.port, pendingBytes s, c.acknowledged, .ok⟩]) ∨
    ((status = .ebusy ∨ status = .eagain) ∧ (tryPendingResponse s status).1 = status ∧
      (tryPendingResponse s status).2.context = s.context ∧
      responsesSent (tryPendingResponse s status).2.log = responsesSent s.log) ∨
    (status ≠ .ok ∧ ¬(status = .ebusy ∨ status = .eagain) ∧
      (tryPendingResponse s status).1 = status ∧
      (tryPendingResponse s status).2.context.pendingResponse = false ∧
      responsesSent (tryPendingResponse s status).2.log = responsesSent s.log) := by
  have hrefused : status ≠ .ok → responsesSent (linkSendStart s
      s.context.pendingResponseDestination s.context.pendingResponseLength c.acknowledged
      status).log = responsesSent s.log := by
    intro hok
    have happend := responsesSent_append s.log ⟨s.context.pendingResponseDestination, c.port,
      pendingBytes s, c.acknowledged, status⟩
    rw [isResponse_refused _ hok, if_neg (by simp), List.append_nil] at happend
    exact happend
  simp only [tryPendingResponse]
  by_cases hok : status = .ok
  · rw [if_pos hok]
    subst hok
    exact Or.inl ⟨rfl, rfl, rfl, rfl⟩
  · rw [if_neg hok]
    by_cases hbusy : status = .ebusy ∨ status = .eagain
    · rw [if_pos hbusy]
      exact Or.inr (Or.inl ⟨hbusy, rfl, rfl, hrefused hok⟩)
    · rw [if_neg hbusy]
      obtain ⟨error, herror⟩ := recordError_eq ((linkSendStart s
        s.context.pendingResponseDestination s.context.pendingResponseLength c.acknowledged
        status).update { s.context with
          pendingResponseLength := 0
          pendingResponseDestination := addressNone
          pendingResponse := false }) status
      have hsame : (linkSendStart s s.context.pendingResponseDestination
        s.context.pendingResponseLength c.acknowledged status).context = s.context := rfl
      rw [hsame, herror]
      exact Or.inr (Or.inr ⟨hok, hbusy, rfl, rfl, hrefused hok⟩)

theorem process_keeps {s : State c} (hp : s.context.pendingResponse = true)
    (linkStatus send : Status) (received : Received c) :
    Keeps s (process s linkStatus send received).2 (process s linkStatus send received).1 := by
  simp only [process]
  by_cases hactive : s.context.processActive = true
  · rw [if_pos hactive]
    exact Or.inl ⟨hp, rfl, rfl, rfl⟩
  · rw [if_neg hactive]
    obtain ⟨error, hbegin⟩ := begin_eq s linkStatus
    rw [hbegin, if_pos hp]
    rcases tryPendingResponse_cases
        (s.update { s.context with processActive := true, lastError := error }) send with
      ⟨rfl, hstatus, hclear, hsends⟩ | ⟨hbusy, hstatus, hcontext, hsent⟩ |
      ⟨hok, hbusy, hstatus, hclear, hsent⟩
    · -- the link takes it; whatever the call does next, it sends nothing more
      apply Or.inr
      apply Or.inl
      refine ⟨⟨s.context.pendingResponseDestination, c.port, pendingBytes s, c.acknowledged, .ok⟩,
        ?_, rfl, rfl, rfl⟩
      rw [hstatus, hclear]
      simp only [ne_eq, not_true_eq_false, false_and, if_false, Bool.false_eq_true]
      split
      · exact hsends
      · rw [receiveLink_sends]
        exact hsends
    · -- it waits on
      apply Or.inl
      rw [hstatus, hcontext]
      have hkept : ¬(send ≠ .ok ∧ send ≠ .ebusy ∧ send ≠ .eagain) := by
        rcases hbusy with rfl | rfl
        · simp
        · simp
      rw [if_neg hkept, if_pos hp]
      have hpending := congrArg Context.pendingResponse hcontext
      have hdestination := congrArg Context.pendingResponseDestination hcontext
      refine ⟨hpending.trans hp, ?_, hdestination, hsent⟩
      simp only [finishProcess, pendingBytes, hcontext]
    · -- it is given up
      apply Or.inr
      apply Or.inr
      have hdropped : send ≠ .ok ∧ send ≠ .ebusy ∧ send ≠ .eagain :=
        ⟨hok, fun h => hbusy (Or.inl h), fun h => hbusy (Or.inr h)⟩
      rw [hstatus, if_pos hdropped]
      exact ⟨hclear, hsent, _, rfl, selectProcessStatus_reports _ _ hok hbusy⟩

theorem step_keeps {s : State c} (h : Holds s) (hp : s.context.pendingResponse = true)
    (action : Action c) : Keeps s (step s action).2 (step s action).1 := by
  have hsame : ∀ result, Keeps s s result := fun result => Or.inl ⟨hp, rfl, rfl, rfl⟩
  cases action with
  | process linkStatus send received => exact process_keeps hp linkStatus send received
  | handlerReturns response send =>
    simp only [step]
    cases hf : s.frame with
    | none => exact hsame _
    | some f =>
      have hquiet := (h.quiet (by simp [hf])).1
      rw [hp] at hquiet
      cases hquiet
  | requestStart destination command encoding arguments argumentsLength send =>
    have hrefused : (requestStart s destination command encoding arguments argumentsLength
        send).2.2 = s := by
      simp only [requestStart, hp, if_true]
      split
      · rfl
      · rfl
    simp only [step, hrefused]
    exact hsame _
  | eventStart destination event encoding payload payloadLength send =>
    simp only [step, eventStart, hp, if_true]
    exact hsame _
  | receive =>
    apply Or.inl
    simp only [step, receive]
    split
    · exact ⟨hp, rfl, rfl, rfl⟩
    · exact ⟨hp, rfl, rfl, rfl⟩

/-- Over every run: the handlers are given exactly the requests the link
delivered; the responses the link took answer different requests, in order;
a response that waits is the last request's and stays as it is until the link
takes it or the call that drops it reports an error; and the application is
given the responses and events the link delivered, each once. -/
theorem answered_once (c : Config) (actions : List (Action c)) :
    let s := run (start c) actions
    s.log.calls = requests s.log.deliveries ∧
    (∃ ks : List ℕ, ks.Pairwise (· < ·) ∧
      List.Forall₂ (fun k send => Answers s.log k send.destination send.bytes) ks
        (responsesSent s.log)) ∧
    (s.context.pendingResponse = true →
      (∃ k, k + 1 = s.log.replies.length ∧
        Answers s.log k s.context.pendingResponseDestination (pendingBytes s)) ∧
      ∀ action : Action c, Keeps s (step s action).2 (step s action).1) ∧
    s.log.handed ++ waiting s = applicationMessages s.log.deliveries := by
  dsimp only
  have h := run_holds (start_holds c) actions
  refine ⟨h.calls, ?_, fun hp => ⟨h.pending hp, step_keeps h hp⟩, h.handed⟩
  obtain ⟨ks, hsorted, _, hmatch⟩ := h.answered
  exact ⟨ks, hsorted, hmatch⟩

theorem narrow_name_ge : 2 ≤ 4 := by decide

def narrowConfig : Config where
  nameMax := 4
  maxPayload := 8
  nameMax_ge := narrow_name_ge
  nameMax_le := by decide
  maxPayload_ge := by decide
  maxPayload_le := by decide
  responseBufferSize := 32
  maxMessageSize := 64
  maxMessageSize_ge := by decide
  port := 1
  acknowledged := true
  initialRequestId := 1
  initialRequestId_ne := by decide

def pingDelivery : Delivery narrowConfig where
  bytes := [0x4A, 0x43, 1, 1, 0, 1, 0, 0, 0, 0, 0, 7, 0, 0, 0, 0, 0x70]
  info := ⟨5, 2, 1, 1, 1, 1, true⟩
  bytes_le := by decide

/-- A handler that has written two bytes when its next write overflows: the
response goes out with its id and an error, and without the two bytes. -/
theorem overflow_body_lost : ∃ (response : Response) (send : Send),
    let s := run (start narrowConfig)
      [.process .ok .ok (.message pingDelivery), .handlerReturns response .ok]
    s.log.replies = [response] ∧ responsesSent s.log = [send] ∧
    response.body.take response.bodyLen = [65, 66] ∧
    (decode narrowConfig.toLimits (ofList send.bytes) send.bytes.length).toOption.map
      (fun m => (m.requestId, m.status, m.payload.take m.payloadLength)) =
      some (7, Status.value .eoverflow, []) := by
  refine ⟨⟨Status.value .ok, encodingBinary, [65, 66], 2, true⟩,
    ⟨5, 1, [0x4A, 0x43, 1, 2, 0, 0, 0, 0, 0, 0, 0, 7, 0xFF, 0xF8, 0, 0], true, .ok⟩, ?_⟩
  decide +kernel

end JaszczurHal.LoraCommands
