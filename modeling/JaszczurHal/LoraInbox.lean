import JaszczurHal.LoraAgreement

/-!
# What waits for the application

The buffer of a link and the message in it. Only a data frame changes them,
and only while no message is ready; what it copies ends within the buffer.
-/

set_option autoImplicit false

namespace JaszczurHal.LoraInbox
open HalStatus HalCrc ByteImage LoraFrame LoraLink LoraMoves LoraReceiver LoraAgreement

variable {κ : Type}

structure Inbox where
  message : Image
  length : ℕ
  info : MessageInfo
  ready : Bool
  accepted : List (MessageInfo × List UInt8)

def inbox (c : Context κ) : Inbox :=
  ⟨c.rxMessage, c.rxLength, c.rxInfo, c.rxReady, c.history.accepted⟩

def Fits (b : Build) (h : Header) (payload : List UInt8) : Prop :=
  h.fragmentIndex.toNat*payloadCapacity (isEncrypted h)+payload.length ≤ b.maxMessage

inductive Arrival (b : Build) (c : Context κ) : Call → Context κ → Prop
  | same {call : Call} {c' : Context κ} (kept : inbox c' = inbox c) : Arrival b c call c'
  | stored {call : Call} {c' : Context κ} (h : Header) (payload : List UInt8)
      (free : c.rxReady = false) (fits : Fits b h payload)
      (copied : inbox c' = inbox (putFragment h payload (isEncrypted h) c)) : Arrival b c call c'
  | completed {call : Call} {c' : Context κ} (r : Replies) (h : Header) (payload : List UInt8)
      (free : c.rxReady = false) (fits : Fits b h payload)
      (accepted : inbox c' =
        inbox (acceptMessage r h (isEncrypted h) (putFragment h payload (isEncrypted h) c))) :
      Arrival b c call c'
  | handed (bufferSize : ℕ) : Arrival b c (.receive bufferSize) (receive bufferSize c).2

variable {b : Build} {a : Aead κ} {r : Replies} {call : Call} {c c' : Context κ}

theorem startReceive_inbox (r : Replies) (c : Context κ) :
    inbox (startReceive r c).2 = inbox c := by
  obtain ⟨s, _, heq⟩ := startReceive_eq r c
  rw [heq]
  rfl

theorem finishSend_inbox (r : Replies) (result : Status) (c : Context κ) :
    inbox (finishSend r result c).2 = inbox c :=
  startReceive_inbox r { c with
    txActive := false
    sendStatus := { c.sendStatus with result := result, state := finishState result } }

theorem startDataFragment_inbox (a : Aead κ) (r : Replies) (c : Context κ) :
    inbox (startDataFragment a r c).2 = inbox c := by
  unfold startDataFragment
  dsimp only
  cases frameEncode a (dataHeader c c.txFragmentIndex)
      (fragmentPayload c.usesCrypto c.txMessage c.txFragmentIndex) c.config.key kMaxPayload with
  | error status => rfl
  | ok bytes =>
    dsimp only
    split_ifs <;> rfl

theorem sendStart_inbox (destination : UInt16) (port : UInt8) (data : List UInt8)
    (acknowledged : Bool) (r : Replies) (c : Context κ) :
    inbox (sendStart b a destination port data acknowledged r c).2 = inbox c := by
  have hstart : ∀ count, inbox (startDataFragment a r
      (beginSend destination port data acknowledged count c)).2 = inbox c :=
    fun _ => startDataFragment_inbox a r _
  unfold sendStart
  dsimp only
  split_ifs
  · rfl
  · rfl
  · rfl
  · rfl
  · rfl
  · exact (finishSend_inbox r _ _).trans (hstart _)
  · exact hstart _

theorem startAckWait_inbox (r : Replies) (c : Context κ) :
    inbox (startAckWait r c).2 = inbox c := by
  unfold startAckWait
  split_ifs <;> rfl

theorem scheduleRetry_inbox (a : Aead κ) (r : Replies) (c : Context κ) :
    inbox (scheduleRetry a r c).2 = inbox c := by
  unfold scheduleRetry
  split_ifs
  · exact finishSend_inbox r _ c
  dsimp only
  split_ifs
  · exact startDataFragment_inbox a r _
  · exact (finishSend_inbox r _ _).trans (startDataFragment_inbox a r _)
  · rfl

theorem finishTransmit_inbox (r : Replies) (result : Status) (c : Context κ) :
    inbox (finishTransmit r result c).2 = inbox c := by
  unfold finishTransmit
  split_ifs
  · exact startReceive_inbox r c
  · exact finishSend_inbox r result c

theorem processTransmit_inbox (a : Aead κ) (r : Replies) (c : Context κ) :
    inbox (processTransmit a r c).2 = inbox c := by
  unfold processTransmit
  dsimp only
  split_ifs
  · exact finishTransmit_inbox r _ c
  · rfl
  · exact finishTransmit_inbox r _ c
  · exact startReceive_inbox r c
  · exact startDataFragment_inbox a r _
  · exact (finishSend_inbox r _ _).trans (startDataFragment_inbox a r _)
  · exact startAckWait_inbox r c
  · exact (finishSend_inbox r _ _).trans (startAckWait_inbox r c)
  · exact finishSend_inbox r _ c

theorem keepWaiting_inbox (a : Aead κ) (r : Replies) (c : Context κ) :
    inbox (keepWaiting a r c).2 = inbox c := by
  unfold keepWaiting
  dsimp only
  split_ifs
  · exact scheduleRetry_inbox a r c
  · rfl
  · exact finishSend_inbox r _ c

theorem processAckWait_inbox (a : Aead κ) (r : Replies) (c : Context κ) :
    inbox (processAckWait a r c).2 = inbox c := by
  unfold processAckWait
  dsimp only
  generalize (if r.received.1 = .eagain ∧ r.process = .etimeout then Status.etimeout
    else r.received.1) = status
  split_ifs
  · rfl
  · exact scheduleRetry_inbox a r c
  · exact keepWaiting_inbox a r c
  · exact finishSend_inbox r _ c
  cases decodeReceivedFrame a r.received.2 c with
  | error _ => exact keepWaiting_inbox a r c
  | ok received =>
    dsimp only
    split_ifs
    · exact finishSend_inbox r _ c
    · exact keepWaiting_inbox a r c

theorem processRetry_inbox (a : Aead κ) (r : Replies) (c : Context κ) :
    inbox (processRetry a r c).2 = inbox c := by
  unfold processRetry
  split_ifs
  · dsimp only
    split_ifs
    · exact (finishSend_inbox r _ _).trans (startDataFragment_inbox a r c)
    · exact startDataFragment_inbox a r c
  · rfl

theorem cancel_inbox (r : Replies) (c : Context κ) : inbox (cancel r c).2 = inbox c := by
  unfold cancel
  split_ifs
  · rfl
  · exact finishSend_inbox r _ c
  · rfl

theorem startAcknowledgement_inbox (a : Aead κ) (r : Replies) (h : Header) (c : Context κ) :
    inbox (startAcknowledgement a r h c).2 = inbox c := by
  unfold startAcknowledgement
  split_ifs
  · rfl
  · rfl
  dsimp only
  cases frameEncode a (ackHeader (takeSequence c).2 h (takeSequence c).1)
      (encodeAckBody h.sessionId h.sequence) (takeSequence c).2.config.key kMaxPayload with
  | error status =>
    dsimp only
    by_cases hok : status = .ok
    · rw [if_pos hok]
      rfl
    · rw [if_neg hok]
      exact startReceive_inbox r _
  | ok bytes =>
    dsimp only
    by_cases hok : r.transmitStart = .ok
    · rw [if_pos hok]
      rfl
    · rw [if_neg hok]
      exact startReceive_inbox r _

theorem repeatedFrame_inbox (a : Aead κ) (r : Replies) (h : Header) (index : ℕ) (c : Context κ) :
    inbox (repeatedFrame a r h index c).2 = inbox c := by
  unfold repeatedFrame
  dsimp only
  split_ifs
  · exact startAcknowledgement_inbox a r h _
  · rfl

theorem expireReassembly_inbox (r : Replies) (c : Context κ) :
    inbox (expireReassembly r c) = inbox c := by
  unfold expireReassembly
  split_ifs <;> rfl

theorem claimReassembly_inbox (r : Replies) (h : Header) (encrypted : Bool) (c : Context κ) :
    inbox (claimReassembly r h encrypted c) = inbox c := by
  unfold claimReassembly
  split_ifs <;> rfl

theorem putFragment_inbox {h : Header} {payload : List UInt8} {encrypted : Bool}
    (hsame : inbox c' = inbox c) :
    inbox (putFragment h payload encrypted c') = inbox (putFragment h payload encrypted c) := by
  simp only [inbox, Inbox.mk.injEq] at hsame ⊢
  simp only [putFragment, hsame, and_self]

theorem acceptMessage_inbox {h : Header} {encrypted : Bool} (hsame : inbox c' = inbox c) :
    inbox (acceptMessage r h encrypted c') = inbox (acceptMessage r h encrypted c) := by
  simp only [inbox, Inbox.mk.injEq] at hsame ⊢
  simp only [acceptMessage, hsame, and_self]

theorem arrival_congr {c₀ : Context κ} (hsame : inbox c = inbox c₀)
    (h : Arrival b c (.process r) c') : Arrival b c₀ (.process r) c' := by
  have hready : c.rxReady = c₀.rxReady := congrArg Inbox.ready hsame
  cases h with
  | same kept => exact .same (kept.trans hsame)
  | stored h payload free fits copied =>
    exact .stored h payload (hready.symm.trans free) fits
      (copied.trans (putFragment_inbox hsame))
  | completed r h payload free fits accepted =>
    exact .completed r h payload (hready.symm.trans free) fits
      (accepted.trans (acceptMessage_inbox (putFragment_inbox hsame)))

theorem storeFragment_arrival {h : Header} {payload : List UInt8} (call : Call)
    (hfree : c.rxReady = false) (hfits : Fits b h payload) :
    Arrival b c call (storeFragment a r h payload (isEncrypted h) c).2 := by
  unfold storeFragment
  dsimp only
  split_ifs
  · exact .stored h payload hfree hfits rfl
  · exact .stored h payload hfree hfits rfl
  · exact .completed r h payload hfree hfits (startAcknowledgement_inbox a r h _)
  · exact .completed r h payload hfree hfits rfl

/-- The shape of a data frame keeps its payload within its message. -/
theorem shape_fits {h : Header} {payload : List UInt8} (hdata : isAck h = false)
    (hcommon : headerCommonValid h = true) (hshape : payloadShapeValid h payload.length = true)
    (hlength : h.messageLength.toNat ≤ b.maxMessage) : Fits b h payload := by
  have hindex := UInt8.lt_iff_toNat_lt.mp (data_common hdata hcommon)
  have hcount := (data_shape hdata hshape).1
  have hpos := capacity_pos (isEncrypted h)
  unfold payloadShapeValid at hshape
  rw [if_neg (by simp [hdata])] at hshape
  dsimp only at hshape
  split at hshape
  · cases hshape
  have hpayload := of_decide_eq_true hshape
  -- a fragment before the last one starts within the message
  have hstart : h.fragmentIndex.toNat*payloadCapacity (isEncrypted h) <
      h.messageLength.toNat := by
    have hdiv := Nat.div_mul_le_self (h.messageLength.toNat+payloadCapacity (isEncrypted h)-1)
      (payloadCapacity (isEncrypted h))
    rw [fragmentsOf] at hcount
    have hstep := Nat.mul_le_mul_right (payloadCapacity (isEncrypted h))
      (show h.fragmentIndex.toNat+1 ≤ h.fragmentCount.toNat from hindex)
    rw [← hcount, Nat.succ_mul] at hstep
    omega
  unfold Fits
  omega

theorem acceptDataFrame_arrival {h : Header} {payload : List UInt8} (hdata : isAck h = false)
    (hcommon : headerCommonValid h = true) (hshape : payloadShapeValid h payload.length = true) :
    Arrival b c (.process r) (acceptDataFrame b a r h payload c).2 := by
  unfold acceptDataFrame
  dsimp only
  cases sequenceSeen r h c with
  | some index => exact .same (repeatedFrame_inbox a r h index c)
  | none =>
    dsimp only
    by_cases hready : c.rxReady = true
    · rw [if_pos hready]
      exact .same rfl
    rw [if_neg hready]
    by_cases hlength : b.maxMessage < h.messageLength.toNat
    · rw [if_pos hlength]
      exact .same rfl
    rw [if_neg hlength]
    have hclaim := claimReassembly_inbox r h (isEncrypted h) c
    have hfree : (claimReassembly r h (isEncrypted h) c).rxReady = false :=
      (congrArg Inbox.ready hclaim).trans (Bool.eq_false_of_not_eq_true hready)
    split_ifs
    · exact .same rfl
    · exact .same hclaim
    · exact arrival_congr hclaim (storeFragment_arrival _ hfree
        (shape_fits hdata hcommon hshape (Nat.le_of_not_lt hlength)))

theorem processReceive_arrival (ha : a.Correct) (r : Replies) (c : Context κ) :
    Arrival b c (.process r) (processReceive b a r c).2 := by
  unfold processReceive
  by_cases hagain : r.received.1 = .eagain
  · rw [if_pos hagain]
    split_ifs <;> exact .same rfl
  rw [if_neg hagain]
  by_cases hradio : r.received.1 ≠ .ok
  · rw [if_pos hradio]
    exact .same rfl
  rw [if_neg hradio]
  cases hdec : decodeReceivedFrame a r.received.2 c with
  | error status => exact .same rfl
  | ok received =>
    obtain ⟨h, payload⟩ := received
    obtain ⟨_, hcommon, hshape, _⟩ := frameDecode_ok ha (decoded_frame hdec)
    dsimp only
    split_ifs with haddress hown
    · exact .same rfl
    · exact .same rfl
    · rw [not_or] at hown
      exact acceptDataFrame_arrival (Bool.eq_false_of_not_eq_true hown.2) hcommon hshape

theorem step_arrival (ha : a.Correct) (call : Call) (c : Context κ) :
    Arrival b c call (step b a call c) := by
  cases call with
  | sendStart destination port data acknowledged r =>
    exact .same (sendStart_inbox destination port data acknowledged r c)
  | cancel r => exact .same (cancel_inbox r c)
  | receive bufferSize => exact .handed bufferSize
  | process r =>
    have hexpire := expireReassembly_inbox r c
    apply arrival_congr hexpire
    show Arrival b (expireReassembly r c) (.process r) (process b a r c).2
    unfold process
    dsimp only
    cases (expireReassembly r c).state with
    | receiving => exact processReceive_arrival ha r _
    | transmitting => exact .same (processTransmit_inbox a r _)
    | sendingAcknowledgement => exact .same (processTransmit_inbox a r _)
    | waitingAcknowledgement => exact .same (processAckWait_inbox a r _)
    | retryWait => exact .same (processRetry_inbox a r _)
    | error => exact .same rfl

/-- The memory after the buffer is never written to. -/
theorem beyond_step (ha : a.Correct) (call : Call) (c : Context κ) {k : ℕ}
    (hk : b.maxMessage ≤ k) : (step b a call c).rxMessage k = c.rxMessage k := by
  have harrival := step_arrival (b := b) ha call c
  generalize step b a call c = c' at harrival
  cases harrival with
  | same kept => exact congrFun (congrArg Inbox.message kept) k
  | stored h payload free fits copied =>
    exact (congrFun (congrArg Inbox.message copied) k).trans (write_of_ge (fits.trans hk))
  | completed r h payload free fits accepted =>
    exact (congrFun (congrArg Inbox.message accepted) k).trans (write_of_ge (fits.trans hk))
  | handed bufferSize =>
    unfold receive
    split_ifs <;> rfl

/-- A message that is ready stays as it is until it is taken. -/
theorem ready_step (ha : a.Correct) {call : Call} (hcall : ∀ bufferSize, call ≠ .receive bufferSize)
    (hready : c.rxReady = true) : inbox (step b a call c) = inbox c := by
  have harrival := step_arrival (b := b) ha call c
  generalize step b a call c = c' at harrival
  cases harrival with
  | same kept => exact kept
  | stored _ _ free _ _ => exact absurd (free.symm.trans hready) Bool.false_ne_true
  | completed _ _ _ free _ _ => exact absurd (free.symm.trans hready) Bool.false_ne_true
  | handed bufferSize => exact absurd rfl (hcall bufferSize)

theorem ready_run (ha : a.Correct) {calls : List Call}
    (hcalls : ∀ call ∈ calls, ∀ bufferSize, call ≠ .receive bufferSize)
    (hready : c.rxReady = true) : inbox (run b a calls c) = inbox c := by
  induction calls generalizing c with
  | nil => rfl
  | cons call rest ih =>
    have hkept : inbox (step b a call c) = inbox c :=
      ready_step ha (hcalls call List.mem_cons_self) hready
    have hrest := ih (fun later hlater => hcalls later (List.mem_cons_of_mem _ hlater))
      ((congrArg Inbox.ready hkept).trans hready)
    exact hrest.trans hkept

def Ready (i : Inbox) : Prop :=
  i.ready = true → (i.info, slice i.message 0 i.length) ∈ i.accepted

theorem ready_accepted (ha : a.Correct) (call : Call) (hc : Ready (inbox c)) :
    Ready (inbox (step b a call c)) := by
  have harrival := step_arrival (b := b) ha call c
  generalize step b a call c = c' at harrival
  cases harrival with
  | same kept =>
    rw [kept]
    exact hc
  | stored h payload free fits copied =>
    rw [copied]
    exact fun hready => absurd (free.symm.trans hready) Bool.false_ne_true
  | completed r h payload free fits accepted =>
    rw [accepted]
    exact fun _ => List.mem_cons_self
  | handed bufferSize =>
    unfold receive
    split_ifs
    · exact fun h => absurd h Bool.false_ne_true
    · exact hc

end JaszczurHal.LoraInbox
