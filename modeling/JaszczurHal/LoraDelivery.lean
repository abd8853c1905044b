import JaszczurHal.LoraMoves

/-!
# No message is handed out twice

As long as the table has room for every sender, its windows stand for exactly
the messages accepted so far. Whether frames come late, twice or out of order
makes no difference.
-/

set_option autoImplicit false

namespace JaszczurHal.LoraDelivery
open HalStatus HalCrc LoraFrame LoraLink LoraPeers LoraMoves SerialWindow

variable {κ : Type}

def senderOf (i : MessageInfo) : UInt16 × UInt32 := (i.source, i.sessionId)

def messageId (i : MessageInfo) : UInt16 × UInt32 × UInt32 := (i.source, i.sessionId, i.sequence)

abbrev Base : Type := UInt16 × UInt32 → UInt32

def acceptedOffsets (base : Base) (accepted : List (MessageInfo × List UInt8))
    (sender : UInt16 × UInt32) : Set ℕ :=
  {x | ∃ e ∈ accepted, senderOf e.1 = sender ∧ offset (base sender) e.1.sequence = x}

/-- What the radio gives a link in a call comes from one of the senders, less
than half the sequence space from its base. -/
def HearsOnly (a : Aead κ) (senders : List (UInt16 × UInt32)) (base : Base) (c : Context κ)
    (frame : Option (List UInt8)) : Prop :=
  ∀ h payload, Heard a frame c h payload → (h.source, h.sessionId) ∈ senders ∧
    offset (base (h.source, h.sessionId)) h.sequence < 2^31

structure Delivery (senders : List (UInt16 × UInt32)) (base : Base) (c : Context κ)
    (known : List Peer) : Prop where
  table : Table c.peers known
  room : senders.length ≤ c.peers.length
  heard : ∀ p ∈ known, pairOf p ∈ senders
  windows : ∀ p ∈ known, Represents (base (pairOf p)) (windowOf p)
    (acceptedOffsets base c.history.accepted (pairOf p))
  accepted : ∀ e ∈ c.history.accepted, senderOf e.1 ∈ known.map pairOf
  distinct : ((c.history.accepted.map Prod.fst).map messageId).Nodup
  handed : c.history.accepted.map Prod.fst =
    (if c.rxReady then [c.rxInfo] else []) ++ c.history.handed

variable {senders : List (UInt16 × UInt32)} {base : Base} {a : Aead κ} {c c' : Context κ}
  {known : List Peer}

theorem offsets_cons (base : Base) (accepted : List (MessageInfo × List UInt8))
    (e : MessageInfo × List UInt8) :
    acceptedOffsets base (e :: accepted) (senderOf e.1) =
      insert (offset (base (senderOf e.1)) e.1.sequence)
        (acceptedOffsets base accepted (senderOf e.1)) := by
  ext x
  simp only [acceptedOffsets, List.mem_cons, Set.mem_ofPred_eq, Set.mem_insert_iff]
  constructor
  · rintro ⟨e', rfl | he', hsender, hx⟩
    · exact Or.inl hx.symm
    · exact Or.inr ⟨e', he', hsender, hx⟩
  · rintro (hx | ⟨e', he', hsender, hx⟩)
    · exact ⟨e, Or.inl rfl, rfl, hx.symm⟩
    · exact ⟨e', Or.inr he', hsender, hx⟩

theorem offsets_cons_ne {base : Base} {accepted : List (MessageInfo × List UInt8)}
    {e : MessageInfo × List UInt8} {sender : UInt16 × UInt32} (hne : sender ≠ senderOf e.1) :
    acceptedOffsets base (e :: accepted) sender = acceptedOffsets base accepted sender := by
  ext x
  simp only [acceptedOffsets, List.mem_cons, Set.mem_ofPred_eq]
  constructor
  · rintro ⟨e', rfl | he', hsender, hx⟩
    · exact absurd hsender.symm hne
    · exact ⟨e', he', hsender, hx⟩
  · rintro ⟨e', he', hsender, hx⟩
    exact ⟨e', Or.inr he', hsender, hx⟩

theorem offsets_empty {base : Base} {accepted : List (MessageInfo × List UInt8)}
    {sender : UInt16 × UInt32} (h : ∀ e ∈ accepted, senderOf e.1 ≠ sender) :
    acceptedOffsets base accepted sender = ∅ := by
  ext x
  simp only [acceptedOffsets, Set.mem_ofPred_eq, Set.mem_empty_iff_false, iff_false]
  rintro ⟨e, he, hsender, _⟩
  exact h e he hsender

/-- A move that touches neither the table nor what was received. -/
theorem delivery_congr (hpeers : c'.peers = c.peers) (hready : c'.rxReady = c.rxReady)
    (hinfo : c'.rxInfo = c.rxInfo) (haccepted : c'.history.accepted = c.history.accepted)
    (hhanded : c'.history.handed = c.history.handed) (hc : Delivery senders base c known) :
    Delivery senders base c' known := by
  refine ⟨?_, ?_, hc.heard, ?_, ?_, ?_, ?_⟩
  · rw [hpeers]
    exact hc.table
  · rw [hpeers]
    exact hc.room
  · rw [haccepted]
    exact hc.windows
  · rw [haccepted]
    exact hc.accepted
  · rw [haccepted]
    exact hc.distinct
  · rw [haccepted, hready, hinfo, hhanded]
    exact hc.handed

theorem delivery_touch {index : ℕ} {p : Peer} (now : UInt32) (hget : c.peers[index]? = some p)
    (hp : p.valid = true) (hc : Delivery senders base c known) :
    ∃ known', Delivery senders base (touchPeer index now c) known' := by
  obtain ⟨hknown, htable⟩ := touchPeer_table now hc.table hget hp
  have hmem := List.mem_of_getElem? hknown
  refine ⟨_, htable, ?_, ?_, ?_, ?_, hc.distinct, hc.handed⟩
  · rw [touchPeer, List.length_set]
    exact hc.room
  · intro q hq
    rcases List.mem_or_eq_of_mem_set hq with hq | rfl
    · exact hc.heard q hq
    · exact hc.heard p hmem
  · intro q hq
    rcases List.mem_or_eq_of_mem_set hq with hq | rfl
    · exact hc.windows q hq
    · exact hc.windows p hmem
  · intro e he
    rw [map_set_same (y := { p with lastSeenMs := now }) pairOf hknown rfl]
    exact hc.accepted e he

/-- A message that is not seen was not accepted before. -/
theorem unseen_new {h : Header} {r : Replies} (hc : Delivery senders base c known)
    (hunseen : sequenceSeen r h c = none)
    (hrange : offset (base (h.source, h.sessionId)) h.sequence < 2^31) :
    ∀ e ∈ c.history.accepted, messageId e.1 ≠ (h.source, h.sessionId, h.sequence) := by
  intro e he hsame
  simp only [messageId, Prod.mk.injEq] at hsame
  have hsender : senderOf e.1 = (h.source, h.sessionId) := Prod.ext hsame.1 hsame.2.1
  have hmem := hc.accepted e he
  rw [hsender] at hmem
  obtain ⟨index, p, hfind, hget, hp, hpair⟩ := findPeer_known r hc.table hmem
  have hwindow := hc.windows p hp
  rw [hpair] at hwindow
  have hoffset : offset (base (h.source, h.sessionId)) h.sequence ∈
      acceptedOffsets base c.history.accepted (h.source, h.sessionId) :=
    ⟨e, he, hsender, by rw [hsame.2.2]⟩
  have hseen : peerSequenceSeen p h.sequence = true := by
    rw [peerSequenceSeen_window (hc.table.valid p hp), represents_seen hwindow hrange]
    exact ⟨hwindow.greatest _ hoffset, Or.inr hoffset⟩
  rw [sequenceSeen, hfind, Option.filter_some, List.getD_eq_getElem?_getD, hget,
    Option.getD_some, hseen] at hunseen
  cases hunseen

theorem sender_room {sender : UInt16 × UInt32} (hc : Delivery senders base c known)
    (hsender : sender ∈ senders) (hnew : sender ∉ known.map pairOf) :
    known.length < c.peers.length := by
  have hnodup : (sender :: known.map pairOf).Nodup := List.nodup_cons.mpr ⟨hnew, hc.table.distinct⟩
  have hsubset : sender :: known.map pairOf ⊆ senders := by
    intro q hq
    rcases List.mem_cons.mp hq with rfl | hq
    · exact hsender
    · obtain ⟨p, hp, rfl⟩ := List.mem_map.mp hq
      exact hc.heard p hp
  have hlength := (hnodup.subperm hsubset).length_le
  rw [List.length_cons, List.length_map] at hlength
  exact hlength.trans hc.room

theorem delivery_accept {h : Header} {payload : List UInt8} {r : Replies}
    {frame : Option (List UInt8)} (hcomplete : Complete a r frame c h payload)
    (hsender : (h.source, h.sessionId) ∈ senders)
    (hrange : offset (base (h.source, h.sessionId)) h.sequence < 2^31)
    (hc : Delivery senders base c known) :
    ∃ known', Delivery senders base (acceptMessage r h (isEncrypted h) c) known' := by
  obtain ⟨p, known', htable, hpair, hwas, hmark, hrest, hkept⟩ :=
    admitPeer_table r h.sequence hc.table (sender_room hc hsender)
  have hpairMark := (markPeerSequence_rest r p h.sequence).2.trans hpair
  have hnew := unseen_new hc hcomplete.unseen hrange
  refine ⟨known', htable, ?_, ?_, ?_, ?_, ?_, ?_⟩
  · rw [acceptMessage, admitPeer_length]
    exact hc.room
  · intro q hq
    rcases hrest q hq with rfl | hq
    · rw [hpairMark]
      exact hsender
    · exact hc.heard q hq
  · intro q hq
    by_cases hq' : pairOf q = (h.source, h.sessionId)
    · -- the peer of this sender is the one that was marked
      have hmarked : q = markPeerSequence r p h.sequence :=
        List.inj_on_of_nodup_map htable.distinct hq hmark (hq'.trans hpairMark.symm)
      have hbefore : p.receivedWindow = 0 ∧
          acceptedOffsets base c.history.accepted (h.source, h.sessionId) = ∅ ∨
          Represents (base (h.source, h.sessionId)) (windowOf p)
            (acceptedOffsets base c.history.accepted (h.source, h.sessionId)) := by
        rcases hwas with hp | ⟨hzero, hunknown⟩
        · have hwindow := hc.windows p hp
          rw [hpair] at hwindow
          exact Or.inr hwindow
        · refine Or.inl ⟨hzero, offsets_empty fun e he hsame => hunknown ?_⟩
          rw [← hsame]
          exact hc.accepted e he
      rw [hq', hmarked]
      exact offsets_cons base _ (messageInfo h (isEncrypted h), _) ▸
        represents_markPeer r hbefore hrange
    · have hold : q ∈ known := (hrest q hq).resolve_left fun hqm =>
        hq' (by rw [hqm]; exact hpairMark)
      rw [acceptMessage, offsets_cons_ne hq']
      exact hc.windows q hold
  · intro e he
    rcases List.mem_cons.mp he with rfl | he
    · exact List.mem_map.mpr ⟨_, hmark, hpairMark⟩
    · exact hkept _ (hc.accepted e he)
  · refine List.nodup_cons.mpr ⟨fun hmem => ?_, hc.distinct⟩
    obtain ⟨_, hinfo, hsame⟩ := List.mem_map.mp hmem
    obtain ⟨e, he, rfl⟩ := List.mem_map.mp hinfo
    exact hnew e he hsame
  · have hhanded := hc.handed
    rw [hcomplete.free] at hhanded
    rw [acceptMessage, List.map_cons, hhanded]
    rfl

theorem delivery_move {b : Build} {frame : Option (List UInt8)}
    (hmove : Move b a frame c c') (hears : HearsOnly a senders base c frame)
    (hc : ∃ known, Delivery senders base c known) :
    ∃ known, Delivery senders base c' known := by
  obtain ⟨known, hc⟩ := hc
  cases hmove with
  | touch now found valid => exact delivery_touch now found valid hc
  | accept r complete =>
    obtain ⟨hsender, hrange⟩ := hears _ _ complete.heard
    exact delivery_accept complete hsender hrange hc
  | hand bufferSize =>
    unfold receive
    have hhanded := hc.handed
    by_cases hready : c.rxReady = true
    · rw [if_neg (not_not.mpr hready)]
      rw [if_pos hready] at hhanded
      exact ⟨known, hc.table, hc.room, hc.heard, hc.windows, hc.accepted, hc.distinct, hhanded⟩
    · rw [if_pos hready]
      exact ⟨known, hc⟩
  | claim r _ =>
    unfold claimReassembly
    split_ifs <;> exact ⟨known, delivery_congr (c := c) rfl rfl rfl rfl rfl hc⟩
  | pace _ _ => exact ⟨known, delivery_congr (c := c) rfl rfl rfl rfl rfl hc⟩
  | finish _ _ _ _ => exact ⟨known, delivery_congr (c := c) rfl rfl rfl rfl rfl hc⟩
  | begin _ _ => exact ⟨known, delivery_congr (c := c) rfl rfl rfl rfl rfl hc⟩
  | air _ _ => exact ⟨known, delivery_congr (c := c) rfl rfl rfl rfl rfl hc⟩
  | skip _ => exact ⟨known, delivery_congr (c := c) rfl rfl rfl rfl rfl hc⟩
  | answer _ _ _ _ => exact ⟨known, delivery_congr (c := c) rfl rfl rfl rfl rfl hc⟩
  | drop => exact ⟨known, delivery_congr (c := c) rfl rfl rfl rfl rfl hc⟩
  | put _ => exact ⟨known, delivery_congr (c := c) rfl rfl rfl rfl rfl hc⟩

theorem create_delivery (b : Build) (config : Config κ) (hroom : senders.length ≤ b.maxPeers) :
    Delivery senders base (create b config) [] where
  table := ⟨⟨_, rfl, fun p hp => by rw [List.eq_of_mem_replicate hp]; rfl⟩,
    fun p hp => absurd hp List.not_mem_nil, List.nodup_nil⟩
  room := by
    rw [create, List.length_replicate]
    exact hroom
  heard p hp := absurd hp List.not_mem_nil
  windows p hp := absurd hp List.not_mem_nil
  accepted e he := absurd he List.not_mem_nil
  distinct := List.nodup_nil
  handed := rfl

/-- Whatever the radio hears, as long as it comes from as many senders as the
table has room for and each stays within half of the sequence space, every
message is handed out at most once. -/
theorem delivered_once (b : Build) (a : Aead κ) (config : Config κ) (calls : List Call)
    (senders : List (UInt16 × UInt32)) (base : Base) (hroom : senders.length ≤ b.maxPeers)
    (hears : ∀ call ∈ calls, HearsOnly a senders base (create b config) (frameOf call)) :
    ((run b a calls (create b config)).history.handed.map messageId).Nodup := by
  have hrun := run_keeps (b := b) (a := a) 
    (P := fun c => identity c = identity (create b config) ∧
      ∃ known, Delivery senders base c known)
    (fun call hcall c c' hmove hc => ⟨(move_identity hmove).trans hc.1, delivery_move hmove
      (fun h payload hheard => hears call hcall h payload (heard_congr hc.1.symm hheard)) hc.2⟩)
    ⟨rfl, [], create_delivery b config hroom⟩
  obtain ⟨_, known, hfinal⟩ := hrun
  have hdistinct := hfinal.distinct
  rw [hfinal.handed, List.map_append] at hdistinct
  exact (List.nodup_append.mp hdistinct).2.1

def plainConfig : Config Unit where
  localAddress := 2
  sessionId := 9
  initialSequence := 0
  acknowledgementTimeoutMs := 100
  retryBackoffMs := 0
  reassemblyTimeoutMs := 1000
  maxRetries := 1
  key := none

def sampleFrame (sequence : UInt32) : List UInt8 :=
  encodeHeader ⟨kFlagAckRequest, 3, 1, 2, 7, sequence, 0, 1, 2, crc32 [0x68, 0x69]⟩ ++
    [0x68, 0x69]

/-- One message twice and, past the end of the numbers, the next one, each
acknowledged before the next frame comes. -/
def sampleCalls : List Call :=
  [hearing (sampleFrame 0xFFFFFFFF), .process silentRadio, .receive 16,
    hearing (sampleFrame 0xFFFFFFFF), .process silentRadio, .receive 16,
    hearing (sampleFrame 0), .process silentRadio, .receive 16]

theorem sampleFrame_hears (sequence : UInt32) (hrange : offset 0xFFFFFFF0 sequence < 2^31)
    (hdec : decodeReceivedFrame noAead (sampleFrame sequence) (create defaultBuild plainConfig) =
      .ok (⟨kFlagAckRequest, 3, 1, 2, 7, sequence, 0, 1, 2, crc32 [0x68, 0x69]⟩, [0x68, 0x69])) :
    HearsOnly noAead [(1, 7)] (fun _ => 0xFFFFFFF0) (create defaultBuild plainConfig)
      (some (sampleFrame sequence)) := by
  rintro h payload ⟨⟨bytes, hbytes, hdecoded⟩, _, _, _⟩
  obtain rfl := Option.some.inj hbytes
  rw [hdec] at hdecoded
  obtain ⟨rfl, _⟩ := Prod.mk.inj (Except.ok.inj hdecoded)
  exact ⟨List.mem_singleton.mpr rfl, hrange⟩

theorem silent_hears {call : Call} (hsilent : frameOf call = none) :
    HearsOnly noAead [(1, 7)] (fun _ => 0xFFFFFFF0) (create defaultBuild plainConfig)
      (frameOf call) := by
  rintro h payload ⟨⟨bytes, hbytes, _⟩, _, _, _⟩
  rw [hsilent] at hbytes
  cases hbytes

theorem repeated_message_once :
    ((run defaultBuild noAead sampleCalls (create defaultBuild plainConfig)).history.handed.map
      messageId) = [(1, 7, 0), (1, 7, 0xFFFFFFFF)] ∧
    ((run defaultBuild noAead sampleCalls (create defaultBuild plainConfig)).history.handed.map
      messageId).Nodup := by
  refine ⟨by decide +kernel, delivered_once defaultBuild noAead plainConfig sampleCalls [(1, 7)]
    (fun _ => 0xFFFFFFF0) (by decide) ?_⟩
  have hlast := sampleFrame_hears 0xFFFFFFFF (by decide) (by decide +kernel)
  have hfirst := sampleFrame_hears 0 (by decide) (by decide +kernel)
  intro call hcall
  simp only [sampleCalls, List.mem_cons, List.not_mem_nil, or_false] at hcall
  rcases hcall with rfl | rfl | rfl | rfl | rfl | rfl | rfl | rfl | rfl
  · exact hlast
  · exact silent_hears rfl
  · exact silent_hears rfl
  · exact hlast
  · exact silent_hears rfl
  · exact silent_hears rfl
  · exact hfirst
  · exact silent_hears rfl
  · exact silent_hears rfl

end JaszczurHal.LoraDelivery
