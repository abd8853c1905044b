import JaszczurHal.LoraReceiver

/-!
# Two links agree on what was acknowledged

Each link is called in any order; what its radio hears are frames that one of
the two has given to the radio before, in any order and any number of times.
A send that ends acknowledged was accepted by the other link, as long as the
sender has not gone through half of its sequence numbers.
-/

set_option autoImplicit false

namespace JaszczurHal.LoraAgreement
open HalStatus HalCrc LoraFrame LoraLink LoraMoves LoraSender LoraReceiver SerialWindow

variable {κ : Type}

abbrev Net (κ : Type) : Type := Bool → Context κ

def Delivered (x y : Context κ) : Prop :=
  ∃ e ∈ y.history.accepted, e.2 = x.txMessage ∧ e.1.source = x.config.localAddress ∧
    e.1.sessionId = x.config.sessionId ∧ e.1.destination = x.txDestination ∧
    e.1.port = x.txPort ∧ e.1.sequence = x.sendStatus.sequence

/-- An acknowledged send that is reported as succeeded was accepted. -/
def Agreed (x y : Context κ) : Prop :=
  x.sendStatus.state = .succeeded → x.txAcknowledged = true → Delivered x y

def Channel (x y : Context κ) (frame : Option (List UInt8)) : Prop :=
  ∀ bytes, frame = some bytes →
    ∃ f, (f ∈ x.history.aired ∨ f ∈ y.history.aired) ∧ f.2 = bytes

inductive NetStep (builds : Bool → Build) (a : Aead κ) : Net κ → Net κ → Prop
  | call {n : Net κ} (side : Bool) (call : Call)
      (heard : Channel (n side) (n !side) (frameOf call)) :
      NetStep builds a n (Function.update n side (step (builds side) a call (n side)))

def NetRuns (builds : Bool → Build) (a : Aead κ) (configs : Bool → Config κ) (n : Net κ) : Prop :=
  Relation.ReflTransGen (NetStep builds a) (fun side => create (builds side) (configs side)) n

structure Agreement (a : Aead κ) (base : UInt32) (x y : Context κ) : Prop where
  sender : Sender a base x
  receiver : Receiver a base x y
  outputs : Outputs a x
  outputs' : Outputs a y
  keys : a.Compatible x.config.key y.config.key
  keys' : a.Compatible y.config.key x.config.key
  status : x.history.sent ≠ [] → x.sendStatus.sequence = x.txSequence
  agreed : Agreed x y

variable {a : Aead κ} {b : Build} {base : UInt32} {frame : Option (List UInt8)}
  {x x' y y' : Context κ}

theorem compatible_self (a : Aead κ) (key : Option κ) : a.Compatible key key := by
  intro k k' hk hk'
  exact Or.inl (Option.some.inj (hk.symm.trans hk'))

theorem decoded_frame {bytes payload : List UInt8} {h : Header}
    (hdec : decodeReceivedFrame a bytes y = .ok (h, payload)) :
    frameDecode a bytes y.config.key kMaxPlaintext = .ok (h, payload) := by
  unfold decodeReceivedFrame at hdec
  cases hframe : frameDecode a bytes y.config.key kMaxPlaintext with
  | error status =>
    rw [hframe] at hdec
    cases hdec
  | ok received =>
    rw [hframe] at hdec
    dsimp only at hdec
    split at hdec
    · cases hdec
    · exact hdec

/-- What a link reads from a frame of a compatible one is what was put in. -/
theorem decoded_output (ha : a.Correct) {f : Header × List UInt8} {h : Header}
    {payload payload' : List UInt8} (hkeys : a.Compatible x.config.key y.config.key)
    (henc : frameEncode a f.1 payload' x.config.key kMaxPayload = .ok f.2)
    (hdec : decodeReceivedFrame a f.2 y = .ok (h, payload)) : h = f.1 ∧ payload = payload' :=
  decode_faithful ha hkeys henc (decoded_frame hdec)

theorem hears_from (ha : a.Correct) (hn : Agreement a base x y) (hchannel : Channel x y frame) :
    HearsFrom a x y frame := by
  intro h payload hheard
  obtain ⟨bytes, hframe, hdec⟩ := hheard.decoded
  obtain ⟨f, hf | hf, rfl⟩ := hchannel bytes hframe
  · obtain ⟨⟨_, henc⟩, _, _⟩ := hn.outputs f hf
    obtain ⟨rfl, _⟩ := decoded_output ha hn.keys henc hdec
    obtain ⟨m, hm, _, hfragment, hencoded⟩ := hn.sender.fragments f hf hheard.data
    obtain ⟨_, rfl⟩ := decoded_output ha hn.keys hencoded hdec
    obtain ⟨hcommon, hshape, _⟩ := frameEncode_ok hencoded
    exact ⟨m, hm, hfragment, hcommon, hshape⟩
  · obtain ⟨⟨_, henc⟩, hsource, _⟩ := hn.outputs' f hf
    obtain ⟨rfl, _⟩ := decoded_output ha (compatible_self a _) henc hdec
    exact absurd hsource hheard.foreign

/-- An acknowledgement that counts tells that the message was accepted. -/
theorem acknowledged_delivered (ha : a.Correct) (hn : Agreement a base x y)
    (hchannel : Channel x y frame) (hack : Acknowledged a frame x) : Delivered x y := by
  obtain ⟨bytes, h, body, hframe, hdec, hmatch⟩ := hack
  simp only [acknowledgementMatches, Bool.and_eq_true, decide_eq_true_iff] at hmatch
  obtain ⟨⟨⟨⟨hflag, _⟩, hdestination⟩, hbody⟩, _⟩ := hmatch
  obtain ⟨f, hf | hf, rfl⟩ := hchannel bytes hframe
  · obtain ⟨⟨_, henc⟩, _, hanswers⟩ := hn.outputs f hf
    obtain ⟨rfl, _⟩ := decoded_output ha (compatible_self a _) henc hdec
    exact absurd hdestination (hanswers hflag)
  · obtain ⟨⟨_, henc⟩, _, _⟩ := hn.outputs' f hf
    obtain ⟨rfl, _⟩ := decoded_output ha hn.keys' henc hdec
    obtain ⟨s, hencoded, ⟨m, hm, hms⟩, hwhy⟩ := hn.receiver.answers f hf hflag
    obtain ⟨_, rfl⟩ := decoded_output ha hn.keys' hencoded hdec
    rw [decode_encodeAckBody, Option.some.injEq, Prod.mk.injEq] at hbody
    obtain ⟨_, rfl⟩ := hbody
    rcases hwhy with ⟨e, he, hsequence⟩ | hlt
    · obtain ⟨m', hm', rfl⟩ := hn.receiver.accepted e he
      have hcurrent := hn.sender.current (Or.inr (List.ne_nil_of_mem hm))
      obtain rfl := hn.sender.distinct m' hm' _ hcurrent hsequence
      exact ⟨_, he, rfl, rfl, rfl, rfl, rfl, (hn.status (List.ne_nil_of_mem hm)).symm⟩
    · exact absurd hlt (Nat.lt_irrefl _)

theorem finish_succeeded {result : Status} (h : finishState result = .succeeded) :
    result = .ok := by
  cases result <;> first | rfl | cases h

theorem agreed_move (ha : a.Correct) (hmove : Move b a frame x x') (hchannel : Channel x y frame)
    (hn : Agreement a base x y) : Agreed x' y := by
  have hagreed := hn.agreed
  cases hmove with
  | finish result s resting success =>
    intro hstate hack
    exact acknowledged_delivered (x := x) ha hn hchannel
      (success (finish_succeeded hstate) hack)
  | begin port sendable => exact fun hstate => by cases hstate
  | claim r _ =>
    unfold claimReassembly
    split_ifs <;> exact hagreed
  | hand bufferSize =>
    unfold receive
    split_ifs <;> exact hagreed
  | pace _ _ => exact hagreed
  | air _ _ => exact hagreed
  | skip _ => exact hagreed
  | answer _ _ _ _ => exact hagreed
  | touch _ _ _ => exact hagreed
  | drop => exact hagreed
  | put _ => exact hagreed
  | accept _ _ => exact hagreed

theorem status_move (hmove : Move b a frame x x')
    (hx : x.history.sent ≠ [] → x.sendStatus.sequence = x.txSequence) :
    x'.history.sent ≠ [] → x'.sendStatus.sequence = x'.txSequence := by
  cases hmove with
  | begin port sendable => exact fun _ => rfl
  | claim r _ =>
    unfold claimReassembly
    split_ifs <;> exact hx
  | hand bufferSize =>
    unfold receive
    split_ifs <;> exact hx
  | finish _ _ _ _ => exact hx
  | pace _ _ => exact hx
  | air _ _ => exact hx
  | skip _ => exact hx
  | answer _ _ _ _ => exact hx
  | touch _ _ _ => exact hx
  | drop => exact hx
  | put _ => exact hx
  | accept _ _ => exact hx

theorem agreement_sender_move (ha : a.Correct) (hmove : Move b a frame x x')
    (hroom : x'.history.taken ≤ 2^31) (hchannel : Channel x y frame)
    (hn : Agreement a base x y) : Agreement a base x' y := by
  have hkey : x'.config.key = x.config.key := congrArg (fun i => i.2.2) (move_identity hmove)
  refine ⟨sender_move hmove (by omega) hn.sender,
    receiver_sender_move hmove hn.sender (by omega) hn.receiver, outputs_move hmove hn.outputs,
    hn.outputs', ?_, ?_, status_move hmove hn.status, agreed_move ha hmove hchannel hn⟩
  · rw [hkey]
    exact hn.keys
  · rw [hkey]
    exact hn.keys'

theorem agreement_receiver_move (ha : a.Correct) (hmove : Move b a frame y y')
    (hroom : x.history.taken ≤ 2^31) (hchannel : Channel x y frame)
    (hn : Agreement a base x y) : Agreement a base x y' := by
  have hkey : y'.config.key = y.config.key := congrArg (fun i => i.2.2) (move_identity hmove)
  refine ⟨hn.sender, receiver_move hmove hn.sender hroom (hears_from ha hn hchannel) hn.receiver,
    hn.outputs, outputs_move hmove hn.outputs', ?_, ?_, hn.status, ?_⟩
  · rw [hkey]
    exact hn.keys
  · rw [hkey]
    exact hn.keys'
  · intro hstate hack
    obtain ⟨e, he, hsame⟩ := hn.agreed hstate hack
    exact ⟨e, (move_grows hmove).accepted e he, hsame⟩

theorem channel_sender_move (hmove : Move b a frame x x') (hchannel : Channel x y frame) :
    Channel x' y frame := by
  intro bytes hbytes
  obtain ⟨f, hf, hsame⟩ := hchannel bytes hbytes
  exact ⟨f, hf.imp_left ((move_grows hmove).aired f), hsame⟩

theorem channel_swap (hchannel : Channel x y frame) : Channel y x frame := by
  intro bytes hbytes
  obtain ⟨f, hf, hsame⟩ := hchannel bytes hbytes
  exact ⟨f, hf.symm, hsame⟩

theorem agreement_sender_step (ha : a.Correct) {call : Call}
    (hchannel : Channel x y (frameOf call)) (hroom : (step b a call x).history.taken ≤ 2^31)
    (hn : Agreement a base x y) : Agreement a base (step b a call x) y := by
  have hstep : Channel (step b a call x) y (frameOf call) ∧
      ((step b a call x).history.taken ≤ 2^31 → Agreement a base (step b a call x) y) :=
    step_keeps (P := fun c => Channel c y (frameOf call) ∧
      (c.history.taken ≤ 2^31 → Agreement a base c y))
    (fun c c' hmove hc => ⟨channel_sender_move hmove hc.1, fun hroom =>
      agreement_sender_move ha hmove hroom hc.1 (hc.2 ((move_grows hmove).taken.trans hroom))⟩)
    ⟨hchannel, fun _ => hn⟩
  exact hstep.2 hroom

theorem agreement_receiver_step (ha : a.Correct) {call : Call}
    (hchannel : Channel x y (frameOf call)) (hroom : x.history.taken ≤ 2^31)
    (hn : Agreement a base x y) : Agreement a base x (step b a call y) := by
  have hstep : Channel x (step b a call y) (frameOf call) ∧
      Agreement a base x (step b a call y) :=
    step_keeps (P := fun c => Channel x c (frameOf call) ∧ Agreement a base x c)
    (fun c c' hmove hc => ⟨channel_swap (channel_sender_move hmove (channel_swap hc.1)),
      agreement_receiver_move ha hmove hroom hc.1 hc.2⟩)
    ⟨hchannel, hn⟩
  exact hstep.2

theorem create_agreement {config config' : Config κ} (b b' : Build)
    (hkeys : a.Compatible config.key config'.key) (hkeys' : a.Compatible config'.key config.key) :
    Agreement a config.initialSequence (create b config) (create b' config') where
  sender := by
    refine ⟨?_, ?_, ?_, ?_, ?_, ?_, ?_⟩
    · exact (UInt32.add_zero _).symm
    · exact fun m hm => absurd hm List.not_mem_nil
    · exact fun m hm => absurd hm List.not_mem_nil
    · exact fun m hm => absurd hm List.not_mem_nil
    · exact fun m hm => absurd hm List.not_mem_nil
    · intro h
      simp [InFlight, Live, create] at h
    · exact fun f hf => absurd hf List.not_mem_nil
  receiver := by
    refine ⟨?_, ?_, ?_, ?_⟩
    · exact fun e he => absurd he List.not_mem_nil
    · exact fun h => absurd h Bool.false_ne_true
    · intro p hp hvalid
      rw [List.eq_of_mem_replicate hp] at hvalid
      exact absurd hvalid Bool.false_ne_true
    · exact fun f hf => absurd hf List.not_mem_nil
  outputs f hf := absurd hf List.not_mem_nil
  outputs' f hf := absurd hf List.not_mem_nil
  keys := hkeys
  keys' := hkeys'
  status h := absurd rfl h
  agreed h := by cases h

/-- In every run of the two links a sender that has not taken more than half
of its numbers and its receiver are in agreement. -/
theorem agreement_runs {builds : Bool → Build} {configs : Bool → Config κ} {n : Net κ}
    (ha : a.Correct) (hkeys : ∀ side, a.Compatible (configs side).key (configs !side).key)
    (hruns : NetRuns builds a configs n) (side : Bool)
    (hroom : (n side).history.taken ≤ 2^31) :
    Agreement a (configs side).initialSequence (n side) (n !side) := by
  induction hruns with
  | refl =>
    have hback := hkeys (!side)
    rw [Bool.not_not] at hback
    exact create_agreement _ _ (hkeys side) hback
  | tail _ hstep ih =>
    cases hstep with
    | @call caller call heard =>
      by_cases hside : caller = side
      · subst hside
        rw [Function.update_self] at hroom
        rw [Function.update_self, Function.update_of_ne (by simp)]
        exact agreement_sender_step ha heard hroom (ih ((step_grows _ _ _ _).taken.trans hroom))
      · have hother : caller = !side := by
          revert hside
          cases caller <;> cases side <;> decide
        subst hother
        rw [Function.update_of_ne (by simp)] at hroom
        rw [Function.update_self, Function.update_of_ne (by simp)]
        rw [Bool.not_not] at heard
        exact agreement_receiver_step ha (channel_swap heard) hroom (ih hroom)

/-- Over any run of two links, an acknowledged send that is reported as
succeeded was accepted by the other link with the same bytes, port,
destination and number, as long as the sender has taken at most `2^31`
numbers. -/
theorem acknowledged_agreement (builds : Bool → Build) (a : Aead κ) (ha : a.Correct)
    (configs : Bool → Config κ)
    (hkeys : ∀ side, a.Compatible (configs side).key (configs !side).key) (n : Net κ)
    (hruns : NetRuns builds a configs n) (side : Bool)
    (hroom : (n side).history.taken ≤ 2^31) : Agreed (n side) (n !side) :=
  (agreement_runs ha hkeys hruns side hroom).agreed

def pairNet (x y : Context κ) : Net κ := fun side => if side then y else x

def plainConfig (side : Bool) : Config Unit where
  localAddress := if side then 2 else 1
  sessionId := if side then 9 else 7
  initialSequence := 0
  acknowledgementTimeoutMs := 100
  retryBackoffMs := 0
  reassemblyTimeoutMs := 1000
  maxRetries := 0
  key := none

abbrev PlainRuns (x y : Context Unit) : Prop :=
  NetRuns (fun _ => defaultBuild) noAead plainConfig (pairNet x y)

theorem runs_create :
    PlainRuns (create defaultBuild (plainConfig false)) (create defaultBuild (plainConfig true)) := by
  have hnet : pairNet (create defaultBuild (plainConfig false))
      (create defaultBuild (plainConfig true)) =
        fun side => create defaultBuild (plainConfig side) := by
    funext side
    cases side <;> rfl
  rw [PlainRuns, hnet]
  exact .refl

theorem runs_first {x y : Context Unit} (call : Call) (hruns : PlainRuns x y)
    (hchannel : Channel x y (frameOf call)) :
    PlainRuns (step defaultBuild noAead call x) y := by
  have hnet : Function.update (pairNet x y) false (step defaultBuild noAead call x) =
      pairNet (step defaultBuild noAead call x) y := by
    funext side
    cases side <;> rfl
  rw [PlainRuns, ← hnet]
  exact hruns.tail (NetStep.call false call hchannel)

theorem runs_second {x y : Context Unit} (call : Call) (hruns : PlainRuns x y)
    (hchannel : Channel x y (frameOf call)) :
    PlainRuns x (step defaultBuild noAead call y) := by
  have hnet : Function.update (pairNet x y) true (step defaultBuild noAead call y) =
      pairNet x (step defaultBuild noAead call y) := by
    funext side
    cases side <;> rfl
  rw [PlainRuns, ← hnet]
  exact hruns.tail (NetStep.call true call (channel_swap hchannel))

theorem channel_silent {x y : Context Unit} {call : Call} (hsilent : frameOf call = none) :
    Channel x y (frameOf call) := by
  intro bytes hbytes
  rw [hsilent] at hbytes
  cases hbytes

theorem channel_aired {x y : Context Unit} {bytes : List UInt8}
    (haired : bytes ∈ (x.history.aired ++ y.history.aired).map Prod.snd) :
    Channel x y (frameOf (hearing bytes)) := by
  intro bytes' hbytes
  obtain ⟨f, hf, hsame⟩ := List.mem_map.mp haired
  exact ⟨f, List.mem_append.mp hf, hsame.trans (Option.some.inj hbytes)⟩

def plainHeader (k : ℕ) (byte : UInt8) : Header :=
  ⟨kFlagAckRequest, 3, 1, 2, 7, UInt32.ofNat k, 0, 1, 1, crc32 [byte]⟩

def plainFrame (k : ℕ) (byte : UInt8) : List UInt8 := encodeHeader (plainHeader k byte) ++ [byte]

def plainAnswer (sequence s : UInt32) : List UInt8 :=
  encodeHeader ⟨kFlagAck, 0, 2, 1, 9, sequence, 0, 1, 8, crc32 (encodeAckBody 7 s)⟩ ++
    encodeAckBody 7 s

def sending (byte : UInt8) : Call := .sendStart 2 3 [byte] true silentRadio

def firstSender : Context Unit :=
  run defaultBuild noAead [sending 0x61, .process silentRadio, hearing (plainAnswer 0 0)]
    (create defaultBuild (plainConfig false))

def firstReceiver : Context Unit :=
  run defaultBuild noAead [hearing (plainFrame 0 0x61)] (create defaultBuild (plainConfig true))

theorem first_runs : PlainRuns firstSender firstReceiver := by
  have hsent := runs_first (sending 0x61) runs_create (channel_silent rfl)
  have hwaits := runs_first (.process silentRadio) hsent (channel_silent rfl)
  have hheard := runs_second (hearing (plainFrame 0 0x61)) hwaits
    (channel_aired (by decide +kernel))
  exact runs_first (hearing (plainAnswer 0 0)) hheard (channel_aired (by decide +kernel))

theorem first_message_agreed : Delivered firstSender firstReceiver :=
  acknowledged_agreement (fun _ => defaultBuild) noAead noAead_correct plainConfig
    (fun _ _ _ hk => by cases hk) (pairNet firstSender firstReceiver) first_runs false
    (by decide +kernel) (by decide +kernel) (by decide +kernel)

structure Idle (k : ℕ) (c : Context Unit) : Prop where
  config : c.config = { plainConfig false with initialSequence := UInt32.ofNat k }
  state : c.state = .receiving
  active : c.txActive = false
  unused : c.sequenceExhausted = false
  reassembly : c.reassembly.active = false

def flying (k : ℕ) (byte : UInt8) (state : LinkState) (c : Context Unit) : Context Unit :=
  { air (plainHeader k byte) (plainFrame k byte) (beginSend 2 3 [byte] true 1 c) with
    state := state }

variable {k : ℕ} {c : Context Unit}

theorem plainFrame_encode (k : ℕ) (byte : UInt8) :
    frameEncode noAead (plainHeader k byte) [byte] none kMaxPayload =
      .ok (plainFrame k byte) := by
  -- neither the number nor the integrity is looked at
  have hcommon : headerCommonValid (plainHeader k byte) = true :=
    (rfl : _ = headerCommonValid ⟨kFlagAckRequest, 3, 1, 2, 7, 0, 0, 1, 1, 0⟩).trans (by decide)
  have hshape : payloadShapeValid (plainHeader k byte) 1 = true :=
    (rfl : _ = payloadShapeValid ⟨kFlagAckRequest, 3, 1, 2, 7, 0, 0, 1, 1, 0⟩ 1).trans (by decide)
  have hplain : isEncrypted (plainHeader k byte) = false :=
    (rfl : _ = isEncrypted ⟨kFlagAckRequest, 3, 1, 2, 7, 0, 0, 1, 1, 0⟩).trans (by decide)
  rw [frameEncode, if_neg (by simp [hcommon, hshape])]
  dsimp only
  rw [tagSize, hplain, if_neg (by simp [kHeaderSize, kMaxPayload]), if_pos Bool.false_ne_true]
  rfl

theorem idle_begin (hc : Idle k c) (byte : UInt8) :
    (beginSend 2 3 [byte] true 1 c).usesCrypto = false ∧
      (beginSend 2 3 [byte] true 1 c).config =
        { plainConfig false with initialSequence := UInt32.ofNat (k+1) } ∧
      dataHeader (beginSend 2 3 [byte] true 1 c) 0 = plainHeader k byte := by
  have hcrypto : c.usesCrypto = false := by rw [Context.usesCrypto, hc.config]; rfl
  have hnext : (beginSend 2 3 [byte] true 1 c).config =
      { plainConfig false with initialSequence := UInt32.ofNat (k+1) } := by
    show { c.config with initialSequence := c.config.initialSequence+1 } = _
    rw [hc.config, UInt32.ofNat_add]
    rfl
  have hintegrity : (beginSend 2 3 [byte] true 1 c).txIntegrity = crc32 [byte] := by
    show (if (takeSequence c).2.usesCrypto then 0 else crc32 [byte]) = _
    rw [show (takeSequence c).2.usesCrypto = false from hcrypto, if_neg Bool.false_ne_true]
  have hsequence : (beginSend 2 3 [byte] true 1 c).txSequence = UInt32.ofNat k := by
    show c.config.initialSequence = _
    rw [hc.config]
  have hflags : (0 : UInt8) ||| kFlagAckRequest = kFlagAckRequest := by decide
  refine ⟨hcrypto, hnext, ?_⟩
  rw [dataHeader, show (beginSend 2 3 [byte] true 1 c).usesCrypto = false from hcrypto,
    hintegrity, hsequence, hnext, if_neg Bool.false_ne_true,
    show (beginSend 2 3 [byte] true 1 c).txAcknowledged = true from rfl, if_pos rfl, hflags]
  rfl

theorem idle_send (hc : Idle k c) (byte : UInt8) :
    step defaultBuild noAead (sending byte) c = flying k byte .transmitting c := by
  obtain ⟨hcrypto, hconfig, hheader⟩ := idle_begin hc byte
  have hcount : fragmentCountFor c [byte].length = 1 := by
    rw [fragmentCountFor, show c.usesCrypto = false from hcrypto, List.length_singleton]
    rfl
  have hkey : (beginSend 2 3 [byte] true 1 c).config.key = none := by
    rw [hconfig]
    rfl
  have hfragment : fragmentPayload (beginSend 2 3 [byte] true 1 c).usesCrypto
      (beginSend 2 3 [byte] true 1 c).txMessage 0 = [byte] := by
    rw [hcrypto]
    rfl
  have hstart : startDataFragment noAead silentRadio (beginSend 2 3 [byte] true 1 c) =
      (.ok, flying k byte .transmitting c) := by
    rw [startDataFragment, show (beginSend 2 3 [byte] true 1 c).txFragmentIndex = 0 from rfl,
      hheader, hfragment, hkey, plainFrame_encode k byte]
    rfl
  show (sendStart defaultBuild noAead 2 3 [byte] true silentRadio c).2 = _
  rw [sendStart, if_neg (by simp [kAddressNone, kAddressBroadcast, defaultBuild]),
    if_neg (by simp [hc.state, hc.active]), if_neg (by simp [hc.unused]), hcount,
    if_neg (by decide), if_neg (by decide), hstart]
  rfl

/-- A send that is cancelled takes a number and leaves the link idle. -/
theorem idle_cancel (hc : Idle k c) (byte : UInt8) :
    Idle (k+1) (step defaultBuild noAead (.cancel silentRadio) (flying k byte .transmitting c)) := by
  obtain ⟨hcrypto, hconfig, _⟩ := idle_begin hc byte
  refine ⟨hconfig, rfl, rfl, ?_, hc.reassembly⟩
  show (c.sequenceExhausted || (c.usesCrypto && _)) = false
  rw [hc.unused, show c.usesCrypto = false from hcrypto]
  rfl

theorem idle_runs {y : Context Unit} (hstart : ∃ x, Idle 1 x ∧ PlainRuns x y) :
    ∀ k, ∃ x, Idle (k+1) x ∧ PlainRuns x y := by
  intro k
  induction k with
  | zero => exact hstart
  | succ k ih =>
    obtain ⟨x, hidle, hruns⟩ := ih
    have hsent := runs_first (sending 0x61) hruns (channel_silent rfl)
    have hcancelled := runs_first (.cancel silentRadio) hsent (channel_silent rfl)
    rw [idle_send hidle] at hcancelled
    exact ⟨_, idle_cancel hidle 0x61, hcancelled⟩

def waiting (k : ℕ) (byte : UInt8) (c : Context Unit) : Context Unit :=
  { flying k byte .waitingAcknowledgement c with
    acknowledgementStartedMs := silentRadio.millis .ackWait }

theorem idle_keeps (hc : Idle k c) (r : Replies) (c' : Context Unit)
    (hsame : c'.reassembly = c.reassembly) : expireReassembly r c' = c' := by
  apply if_neg
  rw [hsame, hc.reassembly]
  exact fun h => Bool.false_ne_true h.1

theorem flying_waits (hc : Idle k c) (byte : UInt8) :
    step defaultBuild noAead (.process silentRadio) (flying k byte .transmitting c) =
      waiting k byte c := by
  show (process defaultBuild noAead silentRadio (flying k byte .transmitting c)).2 = _
  rw [process, idle_keeps hc _ (flying k byte .transmitting c) rfl]
  rfl

theorem waiting_ends (hc : Idle k c) (byte : UInt8) {h : Header} {body bytes : List UInt8}
    (hdec : decodeReceivedFrame noAead bytes (waiting k byte c) = .ok (h, body))
    (hmatch : acknowledgementMatches (waiting k byte c) h body = true) :
    step defaultBuild noAead (hearing bytes) (waiting k byte c) =
      (finishSend silentRadio .ok (waiting k byte c)).2 := by
  have hack : processAckWait noAead (heardRadio bytes) (waiting k byte c) =
      finishSend (heardRadio bytes) .ok (waiting k byte c) := by
    have hreceived : (heardRadio bytes).received = (.ok, bytes) := rfl
    rw [processAckWait, hreceived]
    simp only [reduceCtorEq, false_and, if_false, ne_eq, not_true_eq_false, hdec, hmatch, if_true]
  show (process defaultBuild noAead (heardRadio bytes) (waiting k byte c)).2 = _
  rw [process, idle_keeps hc _ (waiting k byte c) rfl]
  exact congrArg Prod.snd hack

def ackOf (sequence s : UInt32) : Header :=
  ⟨kFlagAck, 0, 2, 1, 9, sequence, 0, 1, 8, crc32 (encodeAckBody 7 s)⟩

theorem waiting_matches (hc : Idle (2^31) c) (byte : UInt8) :
    decodeReceivedFrame noAead (plainAnswer 1 0x80000000) (waiting (2^31) byte c) =
        .ok (ackOf 1 0x80000000, encodeAckBody 7 0x80000000) ∧
      acknowledgementMatches (waiting (2^31) byte c) (ackOf 1 0x80000000)
        (encodeAckBody 7 0x80000000) = true := by
  obtain ⟨hcrypto, hconfig, _⟩ := idle_begin hc byte
  have hplain : (waiting (2^31) byte c).usesCrypto = false := hcrypto
  have hsame : (waiting (2^31) byte c).config =
      { plainConfig false with initialSequence := UInt32.ofNat (2^31+1) } := hconfig
  have hsequence : (waiting (2^31) byte c).txSequence = 0x80000000 := by
    show c.config.initialSequence = _
    rw [hc.config]
    rfl
  constructor
  · have hdec : frameDecode noAead (plainAnswer 1 0x80000000) none kMaxPlaintext =
        .ok (ackOf 1 0x80000000, encodeAckBody 7 0x80000000) := by decide +kernel
    have hkey : (waiting (2^31) byte c).config.key = none := by
      rw [hsame]
      rfl
    have hflag : isEncrypted (ackOf 1 0x80000000) = false := by decide +kernel
    rw [decodeReceivedFrame, hkey, hdec, hplain]
    simp only [hflag, ne_eq, not_true_eq_false, Bool.false_eq_true, false_and, or_false, if_false]
  · have hbody : decodeAckBody (encodeAckBody 7 0x80000000) = some (7, 0x80000000) :=
      decode_encodeAckBody _ _
    have hack : isAck (ackOf 1 0x80000000) = true := by decide +kernel
    have hdestination : (waiting (2^31) byte c).txDestination = 2 := rfl
    rw [acknowledgementMatches, hplain, hsame, hsequence, hbody, hack, hdestination]
    decide +kernel

def wrapReceiver : Context Unit :=
  run defaultBuild noAead [hearing (plainFrame 0 0x61), .process silentRadio,
    hearing (plainFrame (2^31) 0x62)] (create defaultBuild (plainConfig true))

theorem create_idle : Idle 0 (create defaultBuild (plainConfig false)) := ⟨rfl, rfl, rfl, rfl, rfl⟩

/-- In plaintext the numbers wrap around. The message that comes `2^31`
numbers after the first one is taken for seen: it is acknowledged and
reported as succeeded, but never accepted. -/
theorem wrapped_number_disagrees : noAead.Correct ∧
    (plainConfig false).sessionId ≠ (plainConfig true).sessionId ∧
    ∃ n, NetRuns (fun _ => defaultBuild) noAead plainConfig n ∧
      ¬ Agreed (n false) (n !false) := by
  refine ⟨noAead_correct, by decide, ?_⟩
  have hsent := runs_first (sending 0x61) runs_create (channel_silent rfl)
  rw [idle_send create_idle] at hsent
  have hheard := runs_second (hearing (plainFrame 0 0x61)) hsent (channel_aired List.mem_cons_self)
  have hanswered := runs_second (.process silentRadio) hheard (channel_silent rfl)
  have hcancelled := runs_first (.cancel silentRadio) hanswered (channel_silent rfl)
  obtain ⟨x, hidle, hruns⟩ := idle_runs ⟨_, idle_cancel create_idle 0x61, hcancelled⟩ (2^31-1)
  rw [show 2^31-1+1 = 2^31 from rfl] at hidle
  have hnext := runs_first (sending 0x62) hruns (channel_silent rfl)
  rw [idle_send hidle] at hnext
  have hwaits := runs_first (.process silentRadio) hnext (channel_silent rfl)
  rw [flying_waits hidle] at hwaits
  have hrepeated := runs_second (hearing (plainFrame (2^31) 0x62)) hwaits
    (channel_aired List.mem_cons_self)
  have hreceiver : step defaultBuild noAead (hearing (plainFrame (2^31) 0x62))
      (step defaultBuild noAead (.process silentRadio)
        (step defaultBuild noAead (hearing (plainFrame 0 0x61))
          (create defaultBuild (plainConfig true)))) = wrapReceiver := rfl
  rw [hreceiver] at hrepeated
  have haired : plainAnswer 1 0x80000000 ∈ wrapReceiver.history.aired.map Prod.snd := by
    decide +kernel
  obtain ⟨hdec, hmatch⟩ := waiting_matches hidle 0x62
  have hends := runs_first (hearing (plainAnswer 1 0x80000000)) hrepeated (channel_aired (by
    rw [List.map_append]
    exact List.mem_append_right _ haired))
  rw [waiting_ends hidle 0x62 hdec hmatch] at hends
  refine ⟨_, hends, fun hagreed => ?_⟩
  obtain ⟨e, he, hbytes, _⟩ := hagreed rfl rfl
  have hother : ∀ e ∈ wrapReceiver.history.accepted, e.2 ≠ [0x62] := by decide +kernel
  exact hother e he hbytes

end JaszczurHal.LoraAgreement
