import Mathlib.Logic.Relation
import JaszczurHal.LoraPeers

/-!
# What one call can do to a link

Every call of the application is a chain of moves, each of which changes one
thing and says when the code does so. An invariant of the moves is an
invariant of every run.
-/

set_option autoImplicit false

namespace JaszczurHal.LoraMoves
open HalStatus HalCrc ByteImage LoraFrame LoraLink LoraPeers

variable {κ : Type}

def frameOf : Call → Option (List UInt8)
  | .process r => if r.received.1 = .ok then some r.received.2 else none
  | _ => none

def Live (s : LinkState) : Prop :=
  s = .transmitting ∨ s = .waitingAcknowledgement ∨ s = .retryWait

def InFlight (c : Context κ) : Prop := c.txActive = true ∨ Live c.state

structure Heard (a : Aead κ) (frame : Option (List UInt8)) (c : Context κ) (h : Header)
    (payload : List UInt8) : Prop where
  decoded : ∃ bytes, frame = some bytes ∧ decodeReceivedFrame a bytes c = .ok (h, payload)
  addressed : h.destination = c.config.localAddress ∨ h.destination = kAddressBroadcast
  foreign : h.source ≠ c.config.localAddress
  data : isAck h = false

def Acknowledged (a : Aead κ) (frame : Option (List UInt8)) (c : Context κ) : Prop :=
  ∃ bytes h body, frame = some bytes ∧ decodeReceivedFrame a bytes c = .ok (h, body) ∧
    acknowledgementMatches c h body = true

def Answerable (c : Context κ) (h : Header) : Prop :=
  (∃ p ∈ c.peers, p.valid = true ∧ p.source = h.source ∧ p.sessionId = h.sessionId ∧
    peerSequenceSeen p h.sequence = true) ∨
  ∃ bytes, (messageInfo h (isEncrypted h), bytes) ∈ c.history.accepted

structure Pace where
  state : LinkState
  attempts : UInt16
  acknowledgementStartedMs : UInt32
  retryStartedMs : UInt32
  txFragmentIndex : UInt8
  retriesCompleted : UInt8

def setPace (p : Pace) (c : Context κ) : Context κ :=
  { c with
    state := p.state
    sendStatus := { c.sendStatus with attempts := p.attempts }
    acknowledgementStartedMs := p.acknowledgementStartedMs
    retryStartedMs := p.retryStartedMs
    txFragmentIndex := p.txFragmentIndex
    retriesCompleted := p.retriesCompleted }

def endSend (result : Status) (state : LinkState) (c : Context κ) : Context κ :=
  { c with
    txActive := false
    sendStatus := { c.sendStatus with result := result, state := finishState result }
    state := state }

structure Sendable (b : Build) (c : Context κ) (destination : UInt16) (data : List UInt8)
    (acknowledged : Bool) : Prop where
  addressed : destination ≠ kAddressNone
  single : ¬ (destination = kAddressBroadcast ∧ acknowledged = true)
  length_pos : data.length ≠ 0
  length_le : data.length ≤ b.maxMessage
  unused : c.sequenceExhausted = false

structure Storable (a : Aead κ) (b : Build) (frame : Option (List UInt8)) (c : Context κ)
    (h : Header) (payload : List UInt8) : Prop where
  heard : Heard a frame c h payload
  same : sameReassembly c.reassembly h (isEncrypted h) = true
  length_le : h.messageLength.toNat ≤ b.maxMessage

structure Complete (a : Aead κ) (r : Replies) (frame : Option (List UInt8)) (c : Context κ)
    (h : Header) (payload : List UInt8) : Prop where
  heard : Heard a frame c h payload
  same : sameReassembly c.reassembly h (isEncrypted h) = true
  unseen : sequenceSeen r h c = none
  free : c.rxReady = false
  mask : c.reassembly.receivedFragments = fragmentMask h.fragmentCount

inductive Move (b : Build) (a : Aead κ) (frame : Option (List UInt8)) :
    Context κ → Context κ → Prop
  | pace {c : Context κ} (p : Pace) (flight : Live p.state → InFlight c) :
      Move b a frame c (setPace p c)
  | finish {c : Context κ} (result : Status) (s : LinkState) (resting : ¬ Live s)
      (success : result = .ok → c.txAcknowledged = true → Acknowledged a frame c) :
      Move b a frame c (endSend result s c)
  | begin {c : Context κ} {destination : UInt16} (port : UInt8) {data : List UInt8}
      {acknowledged : Bool} (sendable : Sendable b c destination data acknowledged) :
      Move b a frame c
        (beginSend destination port data acknowledged (fragmentCountFor c data.length) c)
  | air {c : Context κ} {bytes : List UInt8} (flight : InFlight c)
      (encoded : frameEncode a (dataHeader c c.txFragmentIndex)
        (fragmentPayload c.usesCrypto c.txMessage c.txFragmentIndex) c.config.key kMaxPayload =
          .ok bytes) :
      Move b a frame c (LoraLink.air (dataHeader c c.txFragmentIndex) bytes c)
  | skip {c : Context κ} (unused : c.sequenceExhausted = false) :
      Move b a frame c (takeSequence c).2
  | answer {c : Context κ} {h : Header} {payload bytes : List UInt8}
      (unused : c.sequenceExhausted = false) (heard : Heard a frame c h payload)
      (answerable : Answerable c h)
      (encoded : frameEncode a (ackHeader c h (takeSequence c).1)
        (encodeAckBody h.sessionId h.sequence) c.config.key kMaxPayload = .ok bytes) :
      Move b a frame c
        (LoraLink.air (ackHeader c h (takeSequence c).1) bytes (takeSequence c).2)
  | touch {c : Context κ} {index : ℕ} {p : Peer} (now : UInt32)
      (found : c.peers[index]? = some p) (valid : p.valid = true) :
      Move b a frame c (touchPeer index now c)
  | drop {c : Context κ} : Move b a frame c (dropReassembly c)
  | claim {c : Context κ} {h : Header} {payload : List UInt8} (r : Replies)
      (heard : Heard a frame c h payload) :
      Move b a frame c (claimReassembly r h (isEncrypted h) c)
  | put {c : Context κ} {h : Header} {payload : List UInt8}
      (storable : Storable a b frame c h payload) :
      Move b a frame c (putFragment h payload (isEncrypted h) c)
  | accept {c : Context κ} {h : Header} {payload : List UInt8} (r : Replies)
      (complete : Complete a r frame c h payload) :
      Move b a frame c (acceptMessage r h (isEncrypted h) c)
  | hand {c : Context κ} (bufferSize : ℕ) : Move b a frame c (receive bufferSize c).2

abbrev Moves (b : Build) (a : Aead κ) (frame : Option (List UInt8)) :
    Context κ → Context κ → Prop :=
  Relation.ReflTransGen (Move b a frame)

variable {b : Build} {a : Aead κ} {frame : Option (List UInt8)} {c c' : Context κ}

theorem Move.one (h : Move b a frame c c') : Moves b a frame c c' := .single h

def identity (c : Context κ) : UInt16 × UInt32 × Option κ :=
  (c.config.localAddress, c.config.sessionId, c.config.key)

theorem move_identity (hmove : Move b a frame c c') : identity c' = identity c := by
  cases hmove with
  | claim r _ =>
    unfold claimReassembly
    split_ifs <;> rfl
  | hand bufferSize =>
    unfold receive
    split_ifs <;> rfl
  | pace _ _ => rfl
  | finish _ _ _ _ => rfl
  | begin _ _ => rfl
  | air _ _ => rfl
  | skip _ => rfl
  | answer _ _ _ _ => rfl
  | touch _ _ _ => rfl
  | drop => rfl
  | put _ => rfl
  | accept _ _ => rfl

structure Grows (old new : History) : Prop where
  aired : ∀ f ∈ old.aired, f ∈ new.aired
  sent : ∀ m ∈ old.sent, m ∈ new.sent
  accepted : ∀ e ∈ old.accepted, e ∈ new.accepted
  taken : old.taken ≤ new.taken

theorem grows_refl (h : History) : Grows h h := ⟨fun _ => id, fun _ => id, fun _ => id, le_rfl⟩

theorem grows_trans {h h' h'' : History} (hfirst : Grows h h') (hsecond : Grows h' h'') :
    Grows h h'' :=
  ⟨fun f hf => hsecond.aired f (hfirst.aired f hf), fun m hm => hsecond.sent m (hfirst.sent m hm),
    fun e he => hsecond.accepted e (hfirst.accepted e he), hfirst.taken.trans hsecond.taken⟩

theorem move_grows (hmove : Move b a frame c c') : Grows c.history c'.history := by
  cases hmove with
  | claim r _ =>
    unfold claimReassembly
    split_ifs <;> exact grows_refl _
  | hand bufferSize =>
    unfold receive
    split_ifs <;> exact ⟨fun _ => id, fun _ => id, fun _ => id, le_rfl⟩
  | begin _ _ =>
    exact ⟨fun _ => id, fun _ => List.mem_cons_of_mem _, fun _ => id, Nat.le_succ _⟩
  | air _ _ => exact ⟨fun _ => List.mem_cons_of_mem _, fun _ => id, fun _ => id, le_rfl⟩
  | skip _ => exact ⟨fun _ => id, fun _ => id, fun _ => id, Nat.le_succ _⟩
  | answer _ _ _ _ =>
    exact ⟨fun _ => List.mem_cons_of_mem _, fun _ => id, fun _ => id, Nat.le_succ _⟩
  | accept _ _ => exact ⟨fun _ => id, fun _ => id, fun _ => List.mem_cons_of_mem _, le_rfl⟩
  | pace _ _ => exact grows_refl _
  | finish _ _ _ _ => exact grows_refl _
  | touch _ _ _ => exact grows_refl _
  | drop => exact grows_refl _
  | put _ => exact grows_refl _

theorem heard_congr {h : Header} {payload : List UInt8} (hsame : identity c' = identity c)
    (hheard : Heard a frame c h payload) : Heard a frame c' h payload := by
  simp only [identity, Prod.mk.injEq] at hsame
  refine ⟨?_, ?_, ?_, hheard.data⟩
  · have hdecoded := hheard.decoded
    unfold decodeReceivedFrame Context.usesCrypto at hdecoded ⊢
    rw [hsame.2.2]
    exact hdecoded
  · rw [hsame.1]
    exact hheard.addressed
  · rw [hsame.1]
    exact hheard.foreign

theorem rest_moves {s : LinkState} (hs : ¬ Live s) : Moves b a frame c { c with state := s } :=
  (Move.pace ⟨s, c.sendStatus.attempts, c.acknowledgementStartedMs, c.retryStartedMs,
    c.txFragmentIndex, c.retriesCompleted⟩ fun hl => absurd hl hs).one

theorem live_moves {s : LinkState} (hc : InFlight c) :
    Moves b a frame c { c with state := s } :=
  (Move.pace ⟨s, c.sendStatus.attempts, c.acknowledgementStartedMs, c.retryStartedMs,
    c.txFragmentIndex, c.retriesCompleted⟩ fun _ => hc).one

theorem startReceive_eq (r : Replies) (c : Context κ) :
    ∃ s, ¬ Live s ∧ (startReceive r c).2 = { c with state := s } := by
  have hreceiving : ¬ Live .receiving := by simp [Live]
  have herror : ¬ Live .error := by simp [Live]
  unfold startReceive
  by_cases h : r.receiveState.1 = .ok ∧ r.receiveState.2 = .error
  · simp only [if_pos h]
    split_ifs
    · exact ⟨_, hreceiving, rfl⟩
    · exact ⟨_, herror, rfl⟩
    · exact ⟨_, herror, rfl⟩
  · simp only [if_neg h]
    split_ifs
    · exact ⟨_, hreceiving, rfl⟩
    · exact ⟨_, herror, rfl⟩
    · exact ⟨_, herror, rfl⟩

theorem startReceive_moves (r : Replies) (c : Context κ) :
    Moves b a frame c (startReceive r c).2 := by
  obtain ⟨s, hs, heq⟩ := startReceive_eq r c
  rw [heq]
  exact rest_moves hs

theorem finishSend_moves {r : Replies} {result : Status}
    (hok : result = .ok → c.txAcknowledged = true → Acknowledged a frame c) :
    Moves b a frame c (finishSend r result c).2 := by
  obtain ⟨s, hs, heq⟩ := startReceive_eq r { c with
    txActive := false
    sendStatus := { c.sendStatus with result := result, state := finishState result } }
  have hfinish : (finishSend r result c).2 = endSend result s c := heq
  rw [hfinish]
  exact (Move.finish result s hs hok).one

theorem failSend_moves {r : Replies} {result : Status} (hne : result ≠ .ok) :
    Moves b a frame c (finishSend r result c).2 :=
  finishSend_moves fun h => absurd h hne

theorem startDataFragment_moves (r : Replies) (hc : InFlight c) :
    Moves b a frame c (startDataFragment a r c).2 := by
  unfold startDataFragment
  dsimp only
  cases henc : frameEncode a (dataHeader c c.txFragmentIndex)
      (fragmentPayload c.usesCrypto c.txMessage c.txFragmentIndex) c.config.key kMaxPayload with
  | error status => exact .refl
  | ok bytes =>
    have hair : Moves b a frame c (air (dataHeader c c.txFragmentIndex) bytes c) :=
      (Move.air hc henc).one
    dsimp only
    by_cases hstart : r.transmitStart = .ok
    · rw [if_pos hstart]
      exact hair.trans (live_moves hc)
    · rw [if_neg hstart]
      exact hair

theorem nextFragment_moves (r : Replies) (hc : InFlight c) :
    Moves b a frame c
      (if (startDataFragment a r c).1 = .ok then (Status.ok, (startDataFragment a r c).2)
        else finishSend r (startDataFragment a r c).1 (startDataFragment a r c).2).2 := by
  have hstart : Moves b a frame c (startDataFragment a r c).2 := startDataFragment_moves r hc
  by_cases hok : (startDataFragment a r c).1 = .ok
  · rw [if_pos hok]
    exact hstart
  · rw [if_neg hok]
    exact hstart.trans (failSend_moves hok)

theorem sendStart_moves (destination : UInt16) (port : UInt8) (data : List UInt8)
    (acknowledged : Bool) (r : Replies) (c : Context κ) :
    Moves b a frame c (sendStart b a destination port data acknowledged r c).2 := by
  unfold sendStart
  by_cases harg : destination = kAddressNone ∨ (destination = kAddressBroadcast ∧ acknowledged) ∨
      data.length = 0 ∨ b.maxMessage < data.length ∨ 0xFFFF < data.length
  · rw [if_pos harg]
  rw [if_neg harg]
  simp only [not_or, Nat.not_lt] at harg
  by_cases hbusy : c.state ≠ .receiving ∨ c.txActive
  · rw [if_pos hbusy]
  rw [if_neg hbusy]
  by_cases hused : c.sequenceExhausted = true
  · rw [if_pos hused]
  rw [if_neg hused]
  dsimp only
  by_cases hcount : fragmentCountFor c data.length = 0 ∨
      kMaxFragments < (fragmentCountFor c data.length).toNat
  · rw [if_pos hcount]
  rw [if_neg hcount]
  by_cases hstop : stopRadioOperation r ≠ .ok
  · rw [if_pos hstop]
  rw [if_neg hstop]
  have hbegin : Moves b a frame c
      (beginSend destination port data acknowledged (fragmentCountFor c data.length) c) :=
    (Move.begin port ⟨harg.1, harg.2.1, harg.2.2.1, harg.2.2.2.1, Bool.eq_false_of_not_eq_true hused⟩).one
  have hstart := hbegin.trans (startDataFragment_moves r (Or.inl rfl))
  by_cases hok : (startDataFragment a r (beginSend destination port data acknowledged
      (fragmentCountFor c data.length) c)).1 ≠ .ok
  · rw [if_pos hok]
    exact hstart.trans (failSend_moves hok)
  · rw [if_neg hok]
    exact hstart

theorem startAckWait_moves (r : Replies) (hc : InFlight c) :
    Moves b a frame c (startAckWait r c).2 := by
  unfold startAckWait
  by_cases hstart : r.receiveStart = .ok
  · rw [if_pos hstart]
    exact (Move.pace ⟨.waitingAcknowledgement, c.sendStatus.attempts, r.millis .ackWait,
      c.retryStartedMs, c.txFragmentIndex, c.retriesCompleted⟩ fun _ => hc).one
  · rw [if_neg hstart]

theorem scheduleRetry_moves (r : Replies) (hc : InFlight c) :
    Moves b a frame c (scheduleRetry a r c).2 := by
  unfold scheduleRetry
  by_cases hlast : c.config.maxRetries ≤ c.retriesCompleted
  · rw [if_pos hlast]
    exact failSend_moves (by decide)
  rw [if_neg hlast]
  have hretry : Moves b a frame c (setPace ⟨.retryWait, c.sendStatus.attempts+1,
      c.acknowledgementStartedMs, r.millis .retry, 0, c.retriesCompleted+1⟩ c) :=
    (Move.pace _ fun _ => hc).one
  dsimp only
  by_cases hbackoff : c.config.retryBackoffMs = 0
  · rw [if_pos hbackoff]
    exact hretry.trans (nextFragment_moves r (Or.inr (Or.inr (Or.inr rfl))))
  · rw [if_neg hbackoff]
    exact hretry

theorem finishTransmit_moves {r : Replies} {result : Status} (hne : result ≠ .ok) :
    Moves b a frame c (finishTransmit r result c).2 := by
  unfold finishTransmit
  by_cases hack : c.state = .sendingAcknowledgement
  · rw [if_pos hack]
    exact startReceive_moves r c
  · rw [if_neg hack]
    exact failSend_moves hne

theorem processTransmit_moves (r : Replies)
    (hc : c.state = .transmitting ∨ c.state = .sendingAcknowledgement) :
    Moves b a frame c (processTransmit a r c).2 := by
  unfold processTransmit
  by_cases hstatus : r.txStatus.1 ≠ .ok
  · rw [if_pos hstatus]
    exact finishTransmit_moves hstatus
  rw [if_neg hstatus]
  by_cases hprogress : r.txStatus.2.1 = .inProgress
  · rw [if_pos hprogress]
  rw [if_neg hprogress]
  by_cases hresult : r.txStatus.2.2 ≠ .ok
  · rw [if_pos hresult]
    exact finishTransmit_moves hresult
  rw [if_neg hresult]
  by_cases hack : c.state = .sendingAcknowledgement
  · rw [if_pos hack]
    exact startReceive_moves r c
  rw [if_neg hack]
  have hlive : InFlight c := Or.inr (Or.inl (hc.resolve_right hack))
  by_cases hnext : c.txFragmentIndex.toNat+1 < c.txFragmentCount.toNat
  · rw [if_pos hnext]
    have hindex : Moves b a frame c { c with txFragmentIndex := c.txFragmentIndex+1 } :=
      (Move.pace ⟨c.state, c.sendStatus.attempts, c.acknowledgementStartedMs, c.retryStartedMs,
        c.txFragmentIndex+1, c.retriesCompleted⟩ fun _ => hlive).one
    exact hindex.trans (nextFragment_moves r hlive)
  rw [if_neg hnext]
  by_cases hwait : ¬ c.txAcknowledged = true
  · rw [if_pos hwait]
    exact finishSend_moves fun _ h => absurd h hwait
  rw [if_neg hwait]
  have hstart : Moves b a frame c (startAckWait r c).2 := startAckWait_moves r hlive
  dsimp only
  by_cases hok : (startAckWait r c).1 = .ok
  · rw [if_pos hok]
    exact hstart
  · rw [if_neg hok]
    exact hstart.trans (failSend_moves hok)

theorem keepWaiting_moves (r : Replies) (hc : InFlight c) :
    Moves b a frame c (keepWaiting a r c).2 := by
  unfold keepWaiting
  dsimp only
  by_cases htimeout : restartAckWait r c = .etimeout
  · rw [if_pos htimeout]
    exact scheduleRetry_moves r hc
  rw [if_neg htimeout]
  by_cases hok : restartAckWait r c = .ok
  · rw [if_pos hok]
  · rw [if_neg hok]
    exact failSend_moves hok

theorem processAckWait_moves (r : Replies) (hc : InFlight c) :
    Moves b a (frameOf (.process r)) c (processAckWait a r c).2 := by
  unfold processAckWait
  dsimp only
  by_cases hradio : r.received.1 = .ok
  · have hframe : frameOf (.process r) = some r.received.2 := if_pos hradio
    simp only [hradio, reduceCtorEq, false_and, if_false, ne_eq, not_true_eq_false]
    cases hdec : decodeReceivedFrame a r.received.2 c with
    | error status => exact keepWaiting_moves r hc
    | ok received =>
      obtain ⟨h, payload⟩ := received
      dsimp only
      by_cases hmatch : acknowledgementMatches c h payload = true
      · rw [if_pos hmatch]
        exact finishSend_moves fun _ _ => ⟨r.received.2, h, payload, hframe, hdec, hmatch⟩
      · rw [if_neg hmatch]
        exact keepWaiting_moves r hc
  · have hstatus : (if r.received.1 = .eagain ∧ r.process = .etimeout then Status.etimeout
        else r.received.1) ≠ .ok := by
      split_ifs
      · decide
      · exact hradio
    generalize (if r.received.1 = .eagain ∧ r.process = .etimeout then Status.etimeout
        else r.received.1) = status at hstatus
    by_cases hagain : status = .eagain
    · rw [if_pos hagain]
    rw [if_neg hagain]
    by_cases htimeout : status = .etimeout
    · rw [if_pos htimeout]
      exact scheduleRetry_moves r hc
    rw [if_neg htimeout]
    by_cases hproto : status = .eproto
    · rw [if_pos hproto]
      exact keepWaiting_moves r hc
    rw [if_neg hproto, if_pos hstatus]
    exact failSend_moves hstatus

theorem processRetry_moves (r : Replies) (hc : InFlight c) :
    Moves b a frame c (processRetry a r c).2 := by
  unfold processRetry
  by_cases hdue : elapsed (r.millis .backoff) c.retryStartedMs c.config.retryBackoffMs = true
  · have hstart : Moves b a frame c (startDataFragment a r c).2 :=
      startDataFragment_moves r hc
    rw [if_pos hdue]
    dsimp only
    by_cases hok : (startDataFragment a r c).1 ≠ .ok
    · rw [if_pos hok]
      exact hstart.trans (failSend_moves hok)
    · rw [if_neg hok]
      exact hstart
  · rw [if_neg hdue]

theorem startAcknowledgement_moves {h : Header} {payload : List UInt8} (r : Replies)
    (hheard : Heard a frame c h payload) (hanswer : Answerable c h) :
    Moves b a frame c (startAcknowledgement a r h c).2 := by
  unfold startAcknowledgement
  by_cases hused : c.sequenceExhausted = true
  · rw [if_pos hused]
  rw [if_neg hused]
  have hunused := Bool.eq_false_of_not_eq_true hused
  by_cases hstop : stopRadioOperation r ≠ .ok
  · rw [if_pos hstop]
  rw [if_neg hstop]
  have hsending : ¬ Live .sendingAcknowledgement := by simp [Live]
  dsimp only
  cases henc : frameEncode a (ackHeader (takeSequence c).2 h (takeSequence c).1)
      (encodeAckBody h.sessionId h.sequence) (takeSequence c).2.config.key kMaxPayload with
  | error status =>
    have hskip : Moves b a frame c (takeSequence c).2 := (Move.skip hunused).one
    dsimp only
    by_cases hok : status = .ok
    · rw [if_pos hok]
      exact hskip.trans (rest_moves hsending)
    · rw [if_neg hok]
      exact hskip.trans (startReceive_moves r _)
  | ok bytes =>
    have hair : Moves b a frame c
        (air (ackHeader c h (takeSequence c).1) bytes (takeSequence c).2) :=
      (Move.answer hunused hheard hanswer henc).one
    dsimp only
    by_cases hok : r.transmitStart = .ok
    · rw [if_pos hok]
      exact hair.trans (rest_moves hsending)
    · rw [if_neg hok]
      exact hair.trans (startReceive_moves r _)

theorem repeatedFrame_moves {r : Replies} {h : Header} {payload : List UInt8} {index : ℕ}
    (hheard : Heard a frame c h payload) (hseen : sequenceSeen r h c = some index) :
    Moves b a frame c (repeatedFrame a r h index c).2 := by
  unfold repeatedFrame
  obtain ⟨p, hp, hvalid, hsource, hsession, hwindow⟩ := sequenceSeen_some hseen
  have htouch : Moves b a frame c (touchPeer index (r.millis .seen) c) :=
    (Move.touch (r.millis .seen) hp hvalid).one
  dsimp only
  by_cases hack : lastFragment h ∧ ackRequested h
  · rw [if_pos hack]
    obtain ⟨hlength, hget⟩ := List.getElem?_eq_some_iff.mp hp
    have hmem : { p with lastSeenMs := r.millis .seen } ∈
        (touchPeer index (r.millis .seen) c).peers := by
      rw [touchPeer, List.getD_eq_getElem?_getD, hp]
      exact List.mem_set hlength _
    have hanswer : Answerable (touchPeer index (r.millis .seen) c) h :=
      Or.inl ⟨_, hmem, hvalid, hsource, hsession, hwindow⟩
    exact htouch.trans (startAcknowledgement_moves r (heard_congr (c := c) rfl hheard) hanswer)
  · rw [if_neg hack]
    exact htouch

theorem claimReassembly_same (r : Replies) (h : Header) (encrypted : Bool) (c : Context κ) :
    sameReassembly (claimReassembly r h encrypted c).reassembly h encrypted = true := by
  unfold claimReassembly
  by_cases hsame : sameReassembly c.reassembly h encrypted = true
  · rw [if_pos hsame]
    exact hsame
  · rw [if_neg hsame]
    simp [sameReassembly, beginReassembly]

theorem claimReassembly_rest (r : Replies) (h : Header) (encrypted : Bool) (c : Context κ) :
    (claimReassembly r h encrypted c).peers = c.peers ∧
      (claimReassembly r h encrypted c).rxReady = c.rxReady := by
  unfold claimReassembly
  split_ifs <;> exact ⟨rfl, rfl⟩

theorem storeFragment_moves {r : Replies} {h : Header} {payload : List UInt8}
    (hstorable : Storable a b frame c h payload) (hunseen : sequenceSeen r h c = none)
    (hfree : c.rxReady = false) :
    Moves b a frame c (storeFragment a r h payload (isEncrypted h) c).2 := by
  unfold storeFragment
  have hput : Moves b a frame c (putFragment h payload (isEncrypted h) c) :=
    (Move.put hstorable).one
  dsimp only
  by_cases hpartial : (putFragment h payload (isEncrypted h) c).reassembly.receivedFragments ≠
      fragmentMask h.fragmentCount
  · rw [if_pos hpartial]
    exact hput
  rw [if_neg hpartial, ne_eq, not_not] at *
  by_cases hcrc : ¬ isEncrypted h = true ∧ crc32 (slice (putFragment h payload (isEncrypted h)
      c).rxMessage 0 h.messageLength.toNat) ≠ h.integrity
  · rw [if_pos hcrc]
    exact hput.tail Move.drop
  rw [if_neg hcrc]
  have hheard : Heard a frame (putFragment h payload (isEncrypted h) c) h payload :=
    heard_congr (c := c) rfl hstorable.heard
  have haccept : Moves b a frame c
      (acceptMessage r h (isEncrypted h) (putFragment h payload (isEncrypted h) c)) :=
    hput.tail (Move.accept r ⟨hheard, hstorable.same, hunseen, hfree, hpartial⟩)
  by_cases hack : ackRequested h = true ∧ lastFragment h = true
  · rw [if_pos hack]
    have hanswer : Answerable (acceptMessage r h (isEncrypted h)
        (putFragment h payload (isEncrypted h) c)) h := Or.inr ⟨_, List.mem_cons_self⟩
    exact haccept.trans (startAcknowledgement_moves r (heard_congr (c := c) rfl hstorable.heard) hanswer)
  · rw [if_neg hack]
    exact haccept

theorem acceptDataFrame_moves {r : Replies} {h : Header} {payload : List UInt8}
    (hheard : Heard a frame c h payload) :
    Moves b a frame c (acceptDataFrame b a r h payload c).2 := by
  unfold acceptDataFrame
  dsimp only
  cases hseen : sequenceSeen r h c with
  | some index => exact repeatedFrame_moves hheard hseen
  | none =>
    dsimp only
    by_cases hready : c.rxReady = true
    · rw [if_pos hready]
    rw [if_neg hready]
    by_cases hlength : b.maxMessage < h.messageLength.toNat
    · rw [if_pos hlength]
    rw [if_neg hlength]
    by_cases hother : ¬ sameReassembly c.reassembly h (isEncrypted h) = true ∧
        c.reassembly.active = true ∧ h.fragmentIndex ≠ 0
    · rw [if_pos hother]
    rw [if_neg hother]
    have hclaim : Moves b a frame c (claimReassembly r h (isEncrypted h) c) :=
      (Move.claim r hheard).one
    obtain ⟨hpeers, hrx⟩ := claimReassembly_rest r h (isEncrypted h) c
    by_cases hstored : (claimReassembly r h (isEncrypted h) c).reassembly.receivedFragments &&&
        1 <<< h.fragmentIndex.toUInt32 ≠ 0
    · rw [if_pos hstored]
      exact hclaim
    rw [if_neg hstored]
    have hstorable : Storable a b frame (claimReassembly r h (isEncrypted h) c) h payload :=
      ⟨heard_congr (move_identity (b := b) (Move.claim r hheard)) hheard, claimReassembly_same r h _ c, Nat.le_of_not_lt hlength⟩
    have hunseen : sequenceSeen r h (claimReassembly r h (isEncrypted h) c) = none := by
      rw [sequenceSeen, findPeer, hpeers]
      exact hseen
    exact hclaim.trans (storeFragment_moves hstorable hunseen
      (hrx.trans (Bool.eq_false_of_not_eq_true hready)))

theorem processReceive_moves (r : Replies) (c : Context κ) :
    Moves b a (frameOf (.process r)) c (processReceive b a r c).2 := by
  unfold processReceive
  by_cases hagain : r.received.1 = .eagain
  · rw [if_pos hagain]
    split_ifs <;> exact .refl
  rw [if_neg hagain]
  by_cases hradio : r.received.1 ≠ .ok
  · rw [if_pos hradio]
  rw [if_neg hradio]
  rw [not_not] at hradio
  cases hdec : decodeReceivedFrame a r.received.2 c with
  | error status => exact .refl
  | ok received =>
    obtain ⟨h, payload⟩ := received
    dsimp only
    by_cases haddress : h.destination ≠ c.config.localAddress ∧
        h.destination ≠ kAddressBroadcast
    · rw [if_pos haddress]
    rw [if_neg haddress]
    by_cases hown : h.source = c.config.localAddress ∨ isAck h = true
    · rw [if_pos hown]
    rw [if_neg hown]
    rw [not_or] at hown
    exact acceptDataFrame_moves ⟨⟨r.received.2, if_pos hradio, hdec⟩, by tauto, hown.1,
      Bool.eq_false_of_not_eq_true hown.2⟩

theorem expireReassembly_moves (r : Replies) (c : Context κ) :
    Moves b a frame c (expireReassembly r c) := by
  unfold expireReassembly
  split_ifs
  · exact Move.drop.one
  · exact .refl

theorem process_moves (r : Replies) (c : Context κ) :
    Moves b a (frameOf (.process r)) c (process b a r c).2 := by
  have hexpire : Moves b a (frameOf (.process r)) c (expireReassembly r c) :=
    expireReassembly_moves r c
  unfold process
  dsimp only
  cases hs : (expireReassembly r c).state with
  | receiving => exact hexpire.trans (processReceive_moves r _)
  | transmitting => exact hexpire.trans (processTransmit_moves r (Or.inl hs))
  | sendingAcknowledgement => exact hexpire.trans (processTransmit_moves r (Or.inr hs))
  | waitingAcknowledgement =>
    exact hexpire.trans (processAckWait_moves r (Or.inr (Or.inr (Or.inl hs))))
  | retryWait => exact hexpire.trans (processRetry_moves r (Or.inr (Or.inr (Or.inr hs))))
  | error => exact hexpire

theorem cancel_moves (r : Replies) (c : Context κ) :
    Moves b a frame c (cancel r c).2 := by
  unfold cancel
  by_cases hidle : ¬ c.txActive = true
  · rw [if_pos hidle]
  rw [if_neg hidle]
  by_cases hstop : stopRadioOperation r ≠ .ok
  · rw [if_pos hstop]
  · rw [if_neg hstop]
    exact failSend_moves (by decide)

theorem step_moves (b : Build) (a : Aead κ) (call : Call) (c : Context κ) :
    Moves b a (frameOf call) c (step b a call c) := by
  cases call with
  | sendStart destination port data acknowledged r =>
    exact sendStart_moves destination port data acknowledged r c
  | process r => exact process_moves r c
  | receive bufferSize => exact (Move.hand bufferSize).one
  | cancel r => exact cancel_moves r c

/-- What every move of a call keeps, the call keeps. -/
theorem step_keeps {P : Context κ → Prop} {call : Call}
    (hmove : ∀ c c', Move b a (frameOf call) c c' → P c → P c') (hc : P c) :
    P (step b a call c) := by
  have hsteps := step_moves b a call c
  generalize step b a call c = c' at hsteps
  induction hsteps with
  | refl => exact hc
  | tail _ hlast ih => exact hmove _ _ hlast ih

theorem step_grows (b : Build) (a : Aead κ) (call : Call) (c : Context κ) :
    Grows c.history (step b a call c).history :=
  step_keeps (P := fun c' => Grows c.history c'.history)
    (fun _ _ hmove hc => grows_trans hc (move_grows hmove)) (grows_refl _)

/-- What the moves of all its calls keep, the run keeps. -/
theorem run_keeps {P : Context κ → Prop} {calls : List Call}
    (hmove : ∀ call ∈ calls, ∀ c c', Move b a (frameOf call) c c' → P c → P c') (hc : P c) :
    P (run b a calls c) := by
  induction calls generalizing c with
  | nil => exact hc
  | cons call rest ih =>
    exact ih (fun later hlater => hmove later (List.mem_cons_of_mem _ hlater))
      (step_keeps (hmove call List.mem_cons_self) hc)

end JaszczurHal.LoraMoves
