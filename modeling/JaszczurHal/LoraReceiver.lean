import JaszczurHal.LoraMoves

/-!
# What a link has sent

The messages of a link carry different sequence numbers in the order they
were taken, and every frame of it is a fragment of one of them or an
acknowledgement.
-/

set_option autoImplicit false

namespace JaszczurHal.LoraSender
open HalStatus LoraFrame LoraLink LoraMoves SerialWindow

variable {κ : Type}

/-- A frame of a link shows its address, and its acknowledgements go to
another one. -/
structure Output (a : Aead κ) (address : UInt16) (key : Option κ) (f : Header × List UInt8) :
    Prop where
  encoded : ∃ payload, frameEncode a f.1 payload key kMaxPayload = .ok f.2
  source : f.1.source = address
  answers : isAck f.1 = true → f.1.destination ≠ address

def FragmentOf (h : Header) (payload : List UInt8) (m : Header × List UInt8) : Prop :=
  ∃ i, h = { m.1 with fragmentIndex := i } ∧ payload = fragmentPayload (isEncrypted m.1) m.2 i

structure Message (address : UInt16) (sessionId : UInt32) (m : Header × List UInt8) : Prop where
  source : m.1.source = address
  sessionId : m.1.sessionId = sessionId
  data : isAck m.1 = false
  length : m.1.messageLength.toNat = m.2.length

structure Sender (a : Aead κ) (base : UInt32) (c : Context κ) : Prop where
  next : c.config.initialSequence = base+UInt32.ofNat c.history.taken
  messages : ∀ m ∈ c.history.sent, Message c.config.localAddress c.config.sessionId m
  before : ∀ m ∈ c.history.sent, offset base m.1.sequence < c.history.taken
  distinct : ∀ m ∈ c.history.sent, ∀ m' ∈ c.history.sent, m.1.sequence = m'.1.sequence → m = m'
  newest : ∀ m ∈ c.history.sent, offset base m.1.sequence ≤ offset base c.txSequence
  current : InFlight c ∨ c.history.sent ≠ [] → (dataHeader c 0, c.txMessage) ∈ c.history.sent
  fragments : ∀ f ∈ c.history.aired, isAck f.1 = false → ∃ m ∈ c.history.sent, ∃ payload,
    FragmentOf f.1 payload m ∧ frameEncode a f.1 payload c.config.key kMaxPayload = .ok f.2

variable {a : Aead κ} {b : Build} {base : UInt32} {frame : Option (List UInt8)}
  {c c' : Context κ}

theorem dataHeader_index (c : Context κ) (i : UInt8) :
    dataHeader c i = { dataHeader c 0 with fragmentIndex := i } := rfl

theorem data_flags : ∀ encrypted acknowledged : Bool,
    let flags := (if encrypted then kFlagEncrypted else 0) |||
      (if acknowledged then kFlagAckRequest else 0)
    decide (flags &&& kFlagAck ≠ 0) = false ∧
      decide (flags &&& kFlagEncrypted ≠ 0) = encrypted := by
  decide

theorem ack_flags : ∀ encrypted : Bool,
    decide ((kFlagAck ||| (if encrypted then kFlagEncrypted else 0)) &&& kFlagAck ≠ 0) = true := by
  decide

theorem dataHeader_flags (c : Context κ) (i : UInt8) :
    isAck (dataHeader c i) = false ∧ isEncrypted (dataHeader c i) = c.usesCrypto :=
  data_flags c.usesCrypto c.txAcknowledged

theorem ackHeader_isAck (c : Context κ) (h : Header) (sequence : UInt32) :
    isAck (ackHeader c h sequence) = true :=
  ack_flags c.usesCrypto

def Outputs (a : Aead κ) (c : Context κ) : Prop :=
  ∀ f ∈ c.history.aired, Output a c.config.localAddress c.config.key f

theorem outputs_air {f : Header × List UInt8} (hc : Outputs a c)
    (hf : Output a c.config.localAddress c.config.key f) : Outputs a (air f.1 f.2 c) := by
  intro f' hf'
  rcases List.mem_cons.mp hf' with rfl | hf'
  · exact hf
  · exact hc f' hf'

theorem outputs_move (hmove : Move b a frame c c') (hc : Outputs a c) : Outputs a c' := by
  cases hmove with
  | air flight encoded =>
    have hflag := (dataHeader_flags c c.txFragmentIndex).1
    exact outputs_air (f := (_, _)) hc
      ⟨⟨_, encoded⟩, rfl, fun hack => absurd (hflag.symm.trans hack) Bool.false_ne_true⟩
  | answer unused heard answerable encoded =>
    exact outputs_air (f := (_, _)) (c := (takeSequence c).2) hc
      ⟨⟨_, encoded⟩, rfl, fun _ => heard.foreign⟩
  | claim r _ =>
    unfold claimReassembly
    split_ifs <;> exact hc
  | hand bufferSize =>
    unfold receive
    split_ifs <;> exact hc
  | pace _ _ => exact hc
  | finish _ _ _ _ => exact hc
  | begin _ _ => exact hc
  | skip _ => exact hc
  | touch _ _ _ => exact hc
  | drop => exact hc
  | put _ => exact hc
  | accept _ _ => exact hc

/-- A move that leaves what was sent, taken and aired as it is. -/
theorem sender_congr (hconfig : c'.config = c.config) (haired : c'.history.aired = c.history.aired)
    (hsent : c'.history.sent = c.history.sent) (htaken : c'.history.taken = c.history.taken)
    (hsequence : c'.txSequence = c.txSequence) (hmessage : c'.txMessage = c.txMessage)
    (hheader : dataHeader c' 0 = dataHeader c 0) (hflight : InFlight c' → InFlight c)
    (hc : Sender a base c) : Sender a base c' := by
  refine ⟨?_, ?_, ?_, ?_, ?_, ?_, ?_⟩
  · rw [hconfig, htaken]
    exact hc.next
  · rw [hsent, hconfig]
    exact hc.messages
  · rw [hsent, htaken]
    exact hc.before
  · rw [hsent]
    exact hc.distinct
  · rw [hsent, hsequence]
    exact hc.newest
  · rw [hsent, hheader, hmessage]
    exact fun h => hc.current (h.imp_left hflight)
  · rw [haired, hsent, hconfig]
    exact hc.fragments

theorem sender_take (hc : Sender a base c) : Sender a base (takeSequence c).2 := by
  refine ⟨?_, hc.messages, fun m hm => (hc.before m hm).trans (Nat.lt_succ_self _), hc.distinct,
    hc.newest, hc.current, hc.fragments⟩
  have hnext : (takeSequence c).2.config.initialSequence = c.config.initialSequence+1 := rfl
  have htaken : (takeSequence c).2.history.taken = c.history.taken+1 := rfl
  rw [hnext, htaken, hc.next, UInt32.ofNat_add, UInt32.add_assoc]
  rfl

theorem sender_air {f : Header × List UInt8} (hc : Sender a base c)
    (hf : isAck f.1 = false → ∃ m ∈ c.history.sent, ∃ payload, FragmentOf f.1 payload m ∧
      frameEncode a f.1 payload c.config.key kMaxPayload = .ok f.2) :
    Sender a base (air f.1 f.2 c) := by
  refine ⟨hc.next, hc.messages, hc.before, hc.distinct, hc.newest, hc.current, ?_⟩
  intro f' hf' hdata
  rcases List.mem_cons.mp hf' with rfl | hf'
  · exact hf hdata
  · exact hc.fragments f' hf' hdata

theorem sequence_offset (hc : Sender a base c) (hroom : c.history.taken < 2^32) :
    offset base c.config.initialSequence = c.history.taken := by
  have hcancel : base+UInt32.ofNat c.history.taken-base = UInt32.ofNat c.history.taken := by grind
  rw [offset, hc.next, hcancel, UInt32.toNat_ofNat']
  exact Nat.mod_eq_of_lt hroom

/-- A new message has a number past those of all others. -/
theorem sender_begin {destination : UInt16} {port : UInt8} {data : List UInt8}
    {acknowledged : Bool} {count : UInt8} (hroom : c.history.taken < 2^32)
    (hlength : data.length < 2^16) (hc : Sender a base c) :
    Sender a base (beginSend destination port data acknowledged count c) := by
  have hoffset := sequence_offset hc hroom
  have htake := sender_take hc
  have hnew : offset base
      (dataHeader (beginSend destination port data acknowledged count c) 0).sequence =
        c.history.taken := hoffset
  have hold : ∀ m ∈ c.history.sent, m.1.sequence ≠
      (dataHeader (beginSend destination port data acknowledged count c) 0).sequence := by
    intro m hm hsame
    have := hc.before m hm
    rw [hsame, hnew] at this
    omega
  refine ⟨htake.next, ?_, ?_, ?_, ?_, fun _ => List.mem_cons_self, ?_⟩
  · intro m hm
    rcases List.mem_cons.mp hm with rfl | hm
    · exact ⟨rfl, rfl, (dataHeader_flags _ 0).1, Nat.mod_eq_of_lt hlength⟩
    · exact hc.messages m hm
  · intro m hm
    rcases List.mem_cons.mp hm with rfl | hm
    · exact hnew.trans_lt (Nat.lt_succ_self _)
    · exact htake.before m hm
  · intro m hm m' hm' hsame
    rcases List.mem_cons.mp hm with rfl | hm
    · rcases List.mem_cons.mp hm' with rfl | hm'
      · rfl
      · exact absurd hsame.symm (hold m' hm')
    · rcases List.mem_cons.mp hm' with rfl | hm'
      · exact absurd hsame (hold m hm)
      · exact hc.distinct m hm m' hm' hsame
  · intro m hm
    have hle : offset base (beginSend destination port data acknowledged count c).txSequence =
        c.history.taken := hoffset
    rw [hle]
    rcases List.mem_cons.mp hm with rfl | hm
    · exact hnew.le
    · exact (hc.before m hm).le
  · intro f hf hdata
    obtain ⟨m, hm, hfragment⟩ := hc.fragments f hf hdata
    exact ⟨m, List.mem_cons_of_mem _ hm, hfragment⟩

theorem sender_move (hmove : Move b a frame c c') (hroom : c'.history.taken ≤ 2^32)
    (hc : Sender a base c) : Sender a base c' := by
  cases hmove with
  | pace p flight =>
    exact sender_congr (c := c) rfl rfl rfl rfl rfl rfl rfl (fun h => h.elim Or.inl flight) hc
  | finish result s resting success =>
    exact sender_congr (c := c) rfl rfl rfl rfl rfl rfl rfl (fun h => h.elim
      (fun hactive => absurd hactive Bool.false_ne_true) fun hlive => absurd hlive resting) hc
  | begin port sendable =>
    have hlength := sendable.length_le.trans b.message_le
    exact sender_begin hroom (by omega) hc
  | air flight encoded =>
    refine sender_air (f := (_, _)) hc fun _ => ⟨_, hc.current (Or.inl flight), _,
      ⟨c.txFragmentIndex, dataHeader_index c c.txFragmentIndex, ?_⟩, encoded⟩
    rw [(dataHeader_flags c 0).2]
  | skip unused => exact sender_take hc
  | answer unused heard answerable encoded =>
    exact sender_air (f := (_, _)) (sender_take hc) fun hdata =>
      absurd (hdata.symm.trans (ackHeader_isAck c _ _)) Bool.false_ne_true
  | claim r _ =>
    unfold claimReassembly
    split_ifs
    · exact hc
    · exact sender_congr (c := c) rfl rfl rfl rfl rfl rfl rfl id hc
  | hand bufferSize =>
    unfold receive
    split_ifs
    · exact sender_congr (c := c) rfl rfl rfl rfl rfl rfl rfl id hc
    · exact hc
  | touch _ _ _ => exact sender_congr (c := c) rfl rfl rfl rfl rfl rfl rfl id hc
  | drop => exact sender_congr (c := c) rfl rfl rfl rfl rfl rfl rfl id hc
  | put _ => exact sender_congr (c := c) rfl rfl rfl rfl rfl rfl rfl id hc
  | accept _ _ => exact sender_congr (c := c) rfl rfl rfl rfl rfl rfl rfl id hc

end JaszczurHal.LoraSender

namespace JaszczurHal.LoraReceiver
open HalStatus ByteImage LoraFrame LoraLink LoraPeers LoraMoves LoraSender SerialWindow

variable {κ : Type}

structure Reassembles (s : Reassembly) (rx : Image) (m : Header × List UInt8) : Prop where
  same : sameReassembly s m.1 (isEncrypted m.1) = true
  bytes : ∀ k < m.2.length,
    bit s.receivedFragments (k/payloadCapacity (isEncrypted m.1)) = true → rx k = m.2.getD k 0

def acceptedNumbers (base : UInt32) (y : Context κ) : Set ℕ :=
  {n | ∃ e ∈ y.history.accepted, offset base e.1.sequence = n}

structure Receiver (a : Aead κ) (base : UInt32) (x y : Context κ) : Prop where
  accepted : ∀ e ∈ y.history.accepted, ∃ m ∈ x.history.sent,
    e = (messageInfo m.1 (isEncrypted m.1), m.2)
  reassembly : y.reassembly.active = true → ∃ m ∈ x.history.sent,
    Reassembles y.reassembly y.rxMessage m
  peers : ∀ p ∈ y.peers, p.valid = true →
    pairOf p = (x.config.localAddress, x.config.sessionId) →
      ∃ S ⊆ acceptedNumbers base y, Represents base (windowOf p) S
  answers : ∀ f ∈ y.history.aired, isAck f.1 = true → ∃ s,
    frameEncode a f.1 (encodeAckBody x.config.sessionId s) y.config.key kMaxPayload = .ok f.2 ∧
      (∃ m ∈ x.history.sent, m.1.sequence = s) ∧
      ((∃ e ∈ y.history.accepted, e.1.sequence = s) ∨
        offset base s < offset base x.txSequence)

def HearsFrom (a : Aead κ) (x y : Context κ) (frame : Option (List UInt8)) : Prop :=
  ∀ h payload, Heard a frame y h payload → ∃ m ∈ x.history.sent, FragmentOf h payload m ∧
    headerCommonValid h = true ∧ payloadShapeValid h payload.length = true

variable {a : Aead κ} {b : Build} {base : UInt32} {frame : Option (List UInt8)}
  {x x' y y' : Context κ}

theorem capacity_pos (encrypted : Bool) : 0 < payloadCapacity encrypted := by
  cases encrypted <;> decide

theorem data_common {h : Header} (hdata : isAck h = false)
    (hcommon : headerCommonValid h = true) : h.fragmentIndex < h.fragmentCount := by
  unfold headerCommonValid at hcommon
  split at hcommon
  · cases hcommon
  · rw [if_neg (by simp [hdata])] at hcommon
    exact (of_decide_eq_true hcommon).2.1

theorem data_shape {h : Header} {length : ℕ} (hdata : isAck h = false)
    (hshape : payloadShapeValid h length = true) :
    fragmentsOf h.messageLength.toNat (payloadCapacity (isEncrypted h)) =
      h.fragmentCount.toNat ∧ h.fragmentCount.toNat ≤ 32 := by
  unfold payloadShapeValid at hshape
  rw [if_neg (by simp [hdata])] at hshape
  dsimp only at hshape
  split at hshape
  · cases hshape
  · omega

theorem fragments_cover {length capacity : ℕ} (hpos : 0 < capacity) :
    length ≤ fragmentsOf length capacity*capacity := by
  have hdiv := Nat.div_add_mod (length+capacity-1) capacity
  have hmod := Nat.mod_lt (length+capacity-1) hpos
  rw [Nat.mul_comm] at hdiv
  rw [fragmentsOf]
  omega

theorem mask_bit : ∀ count ≤ 32, ∀ i < count,
    bit (fragmentMask (UInt8.ofNat count)) i = true := by
  decide +kernel

theorem fragment_getD (encrypted : Bool) (message : List UInt8) (i : UInt8) {k : ℕ}
    (hk : k/payloadCapacity encrypted = i.toNat) (hlength : k < message.length) :
    i.toNat*payloadCapacity encrypted ≤ k ∧
      k-i.toNat*payloadCapacity encrypted < (fragmentPayload encrypted message i).length ∧
      (fragmentPayload encrypted message i).getD (k-i.toNat*payloadCapacity encrypted) 0 =
        message.getD k 0 := by
  have hpos := capacity_pos encrypted
  have hdiv := Nat.div_add_mod k (payloadCapacity encrypted)
  have hmod := Nat.mod_lt k hpos
  rw [hk, Nat.mul_comm] at hdiv
  have hle : i.toNat*payloadCapacity encrypted ≤ k := by omega
  have hback : i.toNat*payloadCapacity encrypted+(k-i.toNat*payloadCapacity encrypted) = k := by
    omega
  refine ⟨hle, ?_, ?_⟩
  · rw [fragmentPayload, List.length_take, List.length_drop]
    omega
  · rw [fragmentPayload, List.getD_eq_getElem?_getD, List.getElem?_take_of_lt (by omega),
      List.getElem?_drop, hback, List.getD_eq_getElem?_getD]

/-- A byte that is not of the fragment stays as it was. -/
theorem fragment_frame (encrypted : Bool) (message : List UInt8) (i : UInt8) (rx : Image) {k : ℕ}
    (hk : k/payloadCapacity encrypted ≠ i.toNat) :
    write rx (i.toNat*payloadCapacity encrypted) (fragmentPayload encrypted message i) k =
      rx k := by
  have hpos := capacity_pos encrypted
  have hlength : (fragmentPayload encrypted message i).length ≤ payloadCapacity encrypted := by
    rw [fragmentPayload, List.length_take]
    exact Nat.min_le_left _ _
  rcases Nat.lt_or_gt_of_ne hk with hlt | hgt
  · exact write_of_lt ((Nat.div_lt_iff_lt_mul hpos).mp hlt)
  · have hge := (Nat.le_div_iff_mul_le hpos).mp hgt
    rw [Nat.succ_mul] at hge
    exact write_of_ge (by omega)

theorem same_sequence {s : Reassembly} {h : Header} {encrypted : Bool}
    (hs : sameReassembly s h encrypted = true) : s.active = true ∧ s.sequence = h.sequence := by
  have hfields := of_decide_eq_true hs
  exact ⟨hfields.1, hfields.2.2.2.2.1⟩

/-- The message that is put together is the one the fragment belongs to. -/
theorem storable_message {h : Header} {payload : List UInt8} (hx : Sender a base x)
    (hy : Receiver a base x y) (hears : HearsFrom a x y frame) (hheard : Heard a frame y h payload)
    (hsame : sameReassembly y.reassembly h (isEncrypted h) = true) :
    ∃ m ∈ x.history.sent, FragmentOf h payload m ∧ Reassembles y.reassembly y.rxMessage m ∧
      headerCommonValid h = true ∧ payloadShapeValid h payload.length = true := by
  obtain ⟨hactive, hsequence⟩ := same_sequence hsame
  obtain ⟨m, hm, hreassembles⟩ := hy.reassembly hactive
  obtain ⟨m', hm', hfragment, hcommon, hshape⟩ := hears h payload hheard
  have hsender : m.1.sequence = m'.1.sequence := by
    obtain ⟨i, rfl, _⟩ := hfragment
    exact (same_sequence hreassembles.same).2.symm.trans hsequence
  obtain rfl := hx.distinct m hm m' hm' hsender
  exact ⟨m, hm, hfragment, hreassembles, hcommon, hshape⟩

theorem reassembles_put {s : Reassembly} {rx : Image} {m : Header × List UInt8} {i : UInt8}
    (hm : Reassembles s rx m) (hi : i.toNat < 32) :
    Reassembles { s with receivedFragments := s.receivedFragments ||| 1 <<< i.toUInt32 }
      (write rx (i.toNat*payloadCapacity (isEncrypted m.1))
        (fragmentPayload (isEncrypted m.1) m.2 i)) m := by
  refine ⟨hm.same, fun k hk hbit => ?_⟩
  by_cases hplace : k/payloadCapacity (isEncrypted m.1) = i.toNat
  · obtain ⟨hle, hlength, hget⟩ := fragment_getD (isEncrypted m.1) m.2 i hplace hk
    rw [← Nat.add_sub_cancel' hle, write_at hlength, Nat.add_sub_cancel' hle, hget]
  · have hindex : i.toUInt32.toNat = i.toNat := UInt8.toNat_toUInt32 i
    rw [or_bit _ _ (by omega), Bool.or_eq_true, decide_eq_true_iff, hindex] at hbit
    rw [fragment_frame _ _ _ _ hplace]
    exact hm.bytes k hk (hbit.resolve_right fun heq => hplace heq.symm)

/-- When every fragment is there, the bytes are those of the message. -/
theorem reassembles_complete {s : Reassembly} {rx : Image} {m : Header × List UInt8} {h : Header}
    {length : ℕ} (hm : Reassembles s rx m) (hdata : isAck h = false)
    (hshape : payloadShapeValid h length = true) (hencrypted : isEncrypted h = isEncrypted m.1)
    (hlength : h.messageLength.toNat = m.2.length)
    (hmask : s.receivedFragments = fragmentMask h.fragmentCount) :
    slice rx 0 h.messageLength.toNat = m.2 := by
  obtain ⟨hcount, hmax⟩ := data_shape hdata hshape
  have hpos := capacity_pos (isEncrypted h)
  have hcover : h.messageLength.toNat ≤ fragmentsOf h.messageLength.toNat
      (payloadCapacity (isEncrypted h))*payloadCapacity (isEncrypted h) := fragments_cover hpos
  rw [hlength]
  refine slice_eq_iff.mpr fun k hk => ?_
  rw [Nat.zero_add]
  have hplace : k/payloadCapacity (isEncrypted h) < h.fragmentCount.toNat := by
    apply (Nat.div_lt_iff_lt_mul hpos).mpr
    rw [hcount] at hcover
    omega
  have hbit := mask_bit h.fragmentCount.toNat hmax _ hplace
  rw [UInt8.ofNat_toNat] at hbit
  apply hm.bytes k hk
  rw [← hencrypted, hmask]
  exact hbit

/-- A message the window takes for seen is accepted, or older than one that is. -/
theorem seen_older {p : Peer} {s : UInt32} (hx : Sender a base x)
    (hroom : x.history.taken ≤ 2^31) (hy : Receiver a base x y) (hp : p ∈ y.peers)
    (hvalid : p.valid = true) (hpair : pairOf p = (x.config.localAddress, x.config.sessionId))
    (hsent : ∃ m ∈ x.history.sent, m.1.sequence = s) (hseen : peerSequenceSeen p s = true) :
    (∃ e ∈ y.history.accepted, e.1.sequence = s) ∨ offset base s < offset base x.txSequence := by
  obtain ⟨S, hsubset, hwindow⟩ := hy.peers p hp hvalid hpair
  obtain ⟨m, hm, rfl⟩ := hsent
  have hrange := (hx.before m hm).trans_le hroom
  rw [peerSequenceSeen_window hvalid, represents_seen hwindow hrange] at hseen
  rcases hseen.2 with hfar | hmem
  · obtain ⟨e, he, hoffset⟩ := hsubset hwindow.newest
    obtain ⟨m', hm', rfl⟩ := hy.accepted e he
    have hnewest := hx.newest m' hm'
    have hsame : offset base m'.1.sequence = offset base (windowOf p).newest := hoffset
    exact Or.inr (by omega)
  · obtain ⟨e, he, hoffset⟩ := hsubset hmem
    exact Or.inl ⟨e, he, offset_inj hoffset⟩

theorem receiver_congr (hpeers : y'.peers = y.peers) (hrx : y'.rxMessage = y.rxMessage)
    (hreassembly : y'.reassembly = y.reassembly) (hkey : y'.config.key = y.config.key)
    (haccepted : y'.history.accepted = y.history.accepted)
    (haired : ∀ f ∈ y'.history.aired, isAck f.1 = true → f ∈ y.history.aired)
    (hy : Receiver a base x y) : Receiver a base x y' := by
  refine ⟨?_, ?_, ?_, ?_⟩
  · rw [haccepted]
    exact hy.accepted
  · rw [hreassembly, hrx]
    exact hy.reassembly
  · unfold acceptedNumbers
    rw [hpeers, haccepted]
    exact hy.peers
  · rw [hkey, haccepted]
    exact fun f hf hack => hy.answers f (haired f hf hack) hack

theorem receiver_touch {index : ℕ} {p : Peer} (now : UInt32) (hget : y.peers[index]? = some p)
    (hy : Receiver a base x y) : Receiver a base x (touchPeer index now y) := by
  refine ⟨hy.accepted, hy.reassembly, fun q hq hvalid hpair => ?_, hy.answers⟩
  rw [touchPeer, List.getD_eq_getElem?_getD, hget, Option.getD_some] at hq
  rcases List.mem_or_eq_of_mem_set hq with hq | rfl
  · exact hy.peers q hq hvalid hpair
  · exact hy.peers p (List.mem_of_getElem? hget) hvalid hpair

theorem receiver_claim {h : Header} {payload : List UInt8} {r : Replies}
    (hears : HearsFrom a x y frame) (hheard : Heard a frame y h payload)
    (hy : Receiver a base x y) :
    Receiver a base x (claimReassembly r h (isEncrypted h) y) := by
  unfold claimReassembly
  split_ifs
  · exact hy
  · refine ⟨hy.accepted, fun _ => ?_, hy.peers, hy.answers⟩
    obtain ⟨m, hm, ⟨i, hi, _⟩, _, _⟩ := hears h payload hheard
    refine ⟨m, hm, ?_, fun k _ hbit => ?_⟩
    · rw [hi]
      exact decide_eq_true (by simp [beginReassembly, ackRequested, isEncrypted, hasFlag])
    · exact absurd hbit (by simp [beginReassembly, bit])

theorem receiver_put {h : Header} {payload : List UInt8} (hx : Sender a base x)
    (hears : HearsFrom a x y frame) (hstorable : Storable a b frame y h payload)
    (hy : Receiver a base x y) :
    Receiver a base x (putFragment h payload (isEncrypted h) y) := by
  refine ⟨hy.accepted, fun _ => ?_, hy.peers, hy.answers⟩
  obtain ⟨m, hm, ⟨i, rfl, rfl⟩, hreassembles, hcommon, hshape⟩ :=
    storable_message hx hy hears hstorable.heard hstorable.same
  have hindex := UInt8.lt_iff_toNat_lt.mp (data_common hstorable.heard.data hcommon)
  have hmax := (data_shape hstorable.heard.data hshape).2
  exact ⟨m, hm, reassembles_put hreassembles (hindex.trans_le hmax)⟩

theorem receiver_accept {h : Header} {payload : List UInt8} {r : Replies}
    (hx : Sender a base x) (hroom : x.history.taken ≤ 2^31) (hears : HearsFrom a x y frame)
    (hcomplete : Complete a r frame y h payload) (hy : Receiver a base x y) :
    Receiver a base x (acceptMessage r h (isEncrypted h) y) := by
  obtain ⟨m, hm, ⟨i, hi, _⟩, hreassembles, _, hshape⟩ :=
    storable_message hx hy hears hcomplete.heard hcomplete.same
  have hmessage := hx.messages m hm
  have hencrypted : isEncrypted h = isEncrypted m.1 := by rw [hi]; rfl
  have hlength : h.messageLength.toNat = m.2.length := by rw [hi]; exact hmessage.length
  have hslice := reassembles_complete hreassembles hcomplete.heard.data hshape hencrypted hlength
    hcomplete.mask
  have hrange : offset base h.sequence < 2^31 := by
    rw [hi]
    exact (hx.before m hm).trans_le hroom
  refine ⟨?_, fun hactive => absurd hactive Bool.false_ne_true, ?_, ?_⟩
  · intro e he
    rcases List.mem_cons.mp he with rfl | he
    · refine ⟨m, hm, Prod.ext ?_ hslice⟩
      rw [hi]
      rfl
    · exact hy.accepted e he
  · intro q hq hvalid hpair
    have hold : acceptedNumbers base y ⊆
        acceptedNumbers base (acceptMessage r h (isEncrypted h) y) :=
      fun _ ⟨e, he, hoffset⟩ => ⟨e, List.mem_cons_of_mem _ he, hoffset⟩
    rcases admitPeer_mem hq with hq | ⟨p, rfl, hpp, hwas⟩
    · obtain ⟨S, hsubset, hwindow⟩ := hy.peers q hq hvalid hpair
      exact ⟨S, hsubset.trans hold, hwindow⟩
    · have hbefore : ∃ S ⊆ acceptedNumbers base y,
          p.receivedWindow = 0 ∧ S = ∅ ∨ Represents base (windowOf p) S := by
        rcases hwas with ⟨hp, hpvalid⟩ | hzero
        · have hsame : pairOf p = (x.config.localAddress, x.config.sessionId) :=
            (markPeerSequence_rest r p h.sequence).2.symm.trans hpair
          obtain ⟨S, hsubset, hwindow⟩ := hy.peers p hp hpvalid hsame
          exact ⟨S, hsubset, Or.inr hwindow⟩
        · exact ⟨∅, Set.empty_subset _, Or.inl ⟨hzero, rfl⟩⟩
      obtain ⟨S, hsubset, hstands⟩ := hbefore
      refine ⟨_, ?_, represents_markPeer r hstands hrange⟩
      exact Set.insert_subset ⟨_, List.mem_cons_self, rfl⟩ (hsubset.trans hold)
  · intro f hf hack
    obtain ⟨s, henc, hsent, hwhy⟩ := hy.answers f hf hack
    exact ⟨s, henc, hsent, hwhy.imp_left fun ⟨e, he, hseq⟩ => ⟨e, List.mem_cons_of_mem _ he, hseq⟩⟩

theorem receiver_answer {h : Header} {payload bytes : List UInt8} (hx : Sender a base x)
    (hroom : x.history.taken ≤ 2^31) (hears : HearsFrom a x y frame)
    (hheard : Heard a frame y h payload) (hanswer : Answerable y h)
    (henc : frameEncode a (ackHeader y h (takeSequence y).1)
      (encodeAckBody h.sessionId h.sequence) y.config.key kMaxPayload = .ok bytes)
    (hy : Receiver a base x y) :
    Receiver a base x (air (ackHeader y h (takeSequence y).1) bytes (takeSequence y).2) := by
  refine ⟨hy.accepted, hy.reassembly, hy.peers, fun f hf hack => ?_⟩
  rcases List.mem_cons.mp hf with rfl | hf
  · obtain ⟨m, hm, ⟨i, hi, _⟩, _, _⟩ := hears h payload hheard
    have hmessage := hx.messages m hm
    have hsession : h.sessionId = x.config.sessionId := by rw [hi]; exact hmessage.sessionId
    have hsent : ∃ m ∈ x.history.sent, m.1.sequence = h.sequence := ⟨m, hm, by rw [hi]⟩
    refine ⟨h.sequence, by rw [← hsession]; exact henc, hsent, ?_⟩
    rcases hanswer with ⟨p, hp, hvalid, hsource, hid, hseen⟩ | ⟨data, hmem⟩
    · have hpair : pairOf p = (x.config.localAddress, x.config.sessionId) := by
        refine Prod.ext (hsource.trans ?_) (hid.trans hsession)
        rw [hi]
        exact hmessage.source
      exact seen_older (y := y) hx hroom hy hp hvalid hpair hsent hseen
    · exact Or.inl ⟨_, hmem, rfl⟩
  · exact hy.answers f hf hack

theorem receiver_move (hmove : Move b a frame y y') (hx : Sender a base x)
    (hroom : x.history.taken ≤ 2^31) (hears : HearsFrom a x y frame)
    (hy : Receiver a base x y) : Receiver a base x y' := by
  cases hmove with
  | touch now found valid => exact receiver_touch now found hy
  | claim r heard => exact receiver_claim hears heard hy
  | put storable => exact receiver_put hx hears storable hy
  | accept r complete => exact receiver_accept hx hroom hears complete hy
  | answer unused heard answerable encoded =>
    exact receiver_answer hx hroom hears heard answerable encoded hy
  | air flight encoded =>
    refine receiver_congr (y := y) rfl rfl rfl rfl rfl (fun f hf hack => ?_) hy
    rcases List.mem_cons.mp hf with rfl | hf
    · exact absurd ((dataHeader_flags y _).1.symm.trans hack) Bool.false_ne_true
    · exact hf
  | drop => exact ⟨hy.accepted, fun h => absurd h Bool.false_ne_true, hy.peers, hy.answers⟩
  | hand bufferSize =>
    unfold receive
    split_ifs
    · exact receiver_congr (y := y) rfl rfl rfl rfl rfl (fun _ hf _ => hf) hy
    · exact hy
  | pace _ _ => exact receiver_congr (y := y) rfl rfl rfl rfl rfl (fun _ hf _ => hf) hy
  | finish _ _ _ _ => exact receiver_congr (y := y) rfl rfl rfl rfl rfl (fun _ hf _ => hf) hy
  | begin _ _ => exact receiver_congr (y := y) rfl rfl rfl rfl rfl (fun _ hf _ => hf) hy
  | skip _ => exact receiver_congr (y := y) rfl rfl rfl rfl rfl (fun _ hf _ => hf) hy

theorem receiver_sender_move (hmove : Move b a frame x x') (hx : Sender a base x)
    (hroom : x'.history.taken ≤ 2^32) (hy : Receiver a base x y) : Receiver a base x' y := by
  cases hmove with
  | begin port sendable =>
    have hnew := sequence_offset hx hroom
    refine ⟨?_, ?_, hy.peers, ?_⟩
    · intro e he
      obtain ⟨m, hm, heq⟩ := hy.accepted e he
      exact ⟨m, List.mem_cons_of_mem _ hm, heq⟩
    · intro hactive
      obtain ⟨m, hm, hreassembles⟩ := hy.reassembly hactive
      exact ⟨m, List.mem_cons_of_mem _ hm, hreassembles⟩
    · intro f hf hack
      obtain ⟨s, henc, ⟨m, hm, rfl⟩, _⟩ := hy.answers f hf hack
      have hlt := hx.before m hm
      rw [← hnew] at hlt
      exact ⟨_, henc, ⟨m, List.mem_cons_of_mem _ hm, rfl⟩, Or.inr hlt⟩
  | claim r _ =>
    unfold claimReassembly
    split_ifs
    · exact hy
    · exact ⟨hy.accepted, hy.reassembly, hy.peers, hy.answers⟩
  | hand bufferSize =>
    unfold receive
    split_ifs
    · exact ⟨hy.accepted, hy.reassembly, hy.peers, hy.answers⟩
    · exact hy
  | pace _ _ => exact ⟨hy.accepted, hy.reassembly, hy.peers, hy.answers⟩
  | finish _ _ _ _ => exact ⟨hy.accepted, hy.reassembly, hy.peers, hy.answers⟩
  | air _ _ => exact ⟨hy.accepted, hy.reassembly, hy.peers, hy.answers⟩
  | skip _ => exact ⟨hy.accepted, hy.reassembly, hy.peers, hy.answers⟩
  | answer _ _ _ _ => exact ⟨hy.accepted, hy.reassembly, hy.peers, hy.answers⟩
  | touch _ _ _ => exact ⟨hy.accepted, hy.reassembly, hy.peers, hy.answers⟩
  | drop => exact ⟨hy.accepted, hy.reassembly, hy.peers, hy.answers⟩
  | put _ => exact ⟨hy.accepted, hy.reassembly, hy.peers, hy.answers⟩
  | accept _ _ => exact ⟨hy.accepted, hy.reassembly, hy.peers, hy.answers⟩

end JaszczurHal.LoraReceiver
