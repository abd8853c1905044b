import JaszczurHal.LoraInbox
import JaszczurHal.LoraNonce

/-!
# Any number of links in one air

Every link is called in any order, and its radio hears whatever bytes an
attacker likes. Of the cipher it is used that what opens under a key was
sealed by a link that has the key.
-/

set_option autoImplicit false

namespace JaszczurHal.LoraMesh
open HalStatus ByteImage LoraFrame LoraLink LoraMoves LoraSender LoraReceiver LoraAgreement
  LoraInbox LoraNonce

variable {ι κ : Type}

abbrev Mesh (ι κ : Type) : Type := ι → Context κ

def Unforged (a : Aead κ) (n : Mesh ι κ) (i : ι) (frame : Option (List UInt8)) : Prop :=
  ∀ key bytes body, (n i).config.key = some key → frame = some bytes →
    a.decrypt key (buildNonce (decodeHeader (ofList bytes))) (bytes.take kHeaderSize)
      (bytes.drop kHeaderSize) = some body →
    ∃ j, (n j).config.key = some key ∧ ∃ f ∈ (n j).history.aired, f.2 = bytes

inductive MeshStep [DecidableEq ι] (builds : ι → Build) (a : Aead κ) :
    Mesh ι κ → Mesh ι κ → Prop
  | call {n : Mesh ι κ} (i : ι) (call : Call) (unforged : Unforged a n i (frameOf call)) :
      MeshStep builds a n (Function.update n i (step (builds i) a call (n i)))

def MeshRuns [DecidableEq ι] (builds : ι → Build) (a : Aead κ) (configs : ι → Config κ)
    (n : Mesh ι κ) : Prop :=
  Relation.ReflTransGen (MeshStep builds a) (fun i => create (builds i) (configs i)) n

def OwnSessions (configs : ι → Config κ) : Prop :=
  ∀ i j key, (configs i).key = some key → (configs j).key = some key →
    (configs i).localAddress = (configs j).localAddress →
    (configs i).sessionId = (configs j).sessionId → i = j

def Messages (configs : ι → Config κ) (key : κ) (n : Mesh ι κ) : Set (Header × List UInt8) :=
  {m | ∃ i, (configs i).key = some key ∧ m ∈ (n i).history.sent}

structure Distinct (S : Set (Header × List UInt8)) : Prop where
  length : ∀ m ∈ S, m.1.messageLength.toNat = m.2.length
  same : ∀ m ∈ S, ∀ m' ∈ S, m.1.source = m'.1.source → m.1.sessionId = m'.1.sessionId →
    m.1.sequence = m'.1.sequence → m = m'

structure Collected (S : Set (Header × List UInt8)) (c : Context κ) : Prop where
  accepted : ∀ e ∈ c.history.accepted, ∃ m ∈ S, e = (messageInfo m.1 (isEncrypted m.1), m.2)
  reassembly : c.reassembly.active = true → ∃ m ∈ S, Reassembles c.reassembly c.rxMessage m

def Hears (a : Aead κ) (S : Set (Header × List UInt8)) (c : Context κ)
    (frame : Option (List UInt8)) : Prop :=
  ∀ h payload, Heard a frame c h payload → ∃ m ∈ S, FragmentOf h payload m ∧
    headerCommonValid h = true ∧ payloadShapeValid h payload.length = true

variable {a : Aead κ} {b : Build} {base : UInt32} {frame : Option (List UInt8)}
  {S S' : Set (Header × List UInt8)} {c c' : Context κ}

theorem decoded_encrypted {bytes payload : List UInt8} {h : Header}
    (hdec : decodeReceivedFrame a bytes c = .ok (h, payload)) (hcrypto : c.usesCrypto = true) :
    isEncrypted h = true := by
  unfold decodeReceivedFrame at hdec
  cases hframe : frameDecode a bytes c.config.key kMaxPlaintext with
  | error status =>
    rw [hframe] at hdec
    cases hdec
  | ok received =>
    obtain ⟨h', payload'⟩ := received
    rw [hframe] at hdec
    dsimp only at hdec
    split at hdec
    · cases hdec
    · rename_i hflag
      rw [not_or, not_not] at hflag
      obtain ⟨rfl, rfl⟩ := Prod.mk.inj (Except.ok.inj hdec)
      exact hflag.1.trans hcrypto

theorem collected_mono (hsubset : S ⊆ S') (hc : Collected S c) : Collected S' c := by
  refine ⟨fun e he => ?_, fun hactive => ?_⟩
  · obtain ⟨m, hm, heq⟩ := hc.accepted e he
    exact ⟨m, hsubset hm, heq⟩
  · obtain ⟨m, hm, hreassembles⟩ := hc.reassembly hactive
    exact ⟨m, hsubset hm, hreassembles⟩

theorem collected_congr (haccepted : c'.history.accepted = c.history.accepted)
    (hreassembly : c'.reassembly = c.reassembly) (hmessage : c'.rxMessage = c.rxMessage)
    (hc : Collected S c) : Collected S c' := by
  refine ⟨?_, ?_⟩
  · rw [haccepted]
    exact hc.accepted
  · rw [hreassembly, hmessage]
    exact hc.reassembly

theorem same_fields {s : Reassembly} {h : Header} {encrypted : Bool}
    (hs : sameReassembly s h encrypted = true) :
    s.source = h.source ∧ s.sessionId = h.sessionId ∧ s.sequence = h.sequence := by
  have hfields := of_decide_eq_true hs
  exact ⟨hfields.2.1, hfields.2.2.2.1, hfields.2.2.2.2.1⟩

/-- A fragment of the message that is put together is of that message. -/
theorem fragment_message {h : Header} {payload : List UInt8} (hS : Distinct S)
    (hears : Hears a S c frame) (hheard : Heard a frame c h payload)
    (hsame : sameReassembly c.reassembly h (isEncrypted h) = true) (hc : Collected S c) :
    ∃ m ∈ S, FragmentOf h payload m ∧ Reassembles c.reassembly c.rxMessage m ∧
      headerCommonValid h = true ∧ payloadShapeValid h payload.length = true := by
  obtain ⟨m, hm, hreassembles⟩ := hc.reassembly (same_sequence hsame).1
  obtain ⟨m', hm', hfragment, hcommon, hshape⟩ := hears h payload hheard
  obtain ⟨hsource, hsession, hsequence⟩ := same_fields hsame
  obtain ⟨hsource', hsession', hsequence'⟩ := same_fields hreassembles.same
  obtain ⟨i, hi, hpayload⟩ := hfragment
  have hheader : h.source = m'.1.source ∧ h.sessionId = m'.1.sessionId ∧
      h.sequence = m'.1.sequence := by
    rw [hi]
    exact ⟨rfl, rfl, rfl⟩
  obtain rfl : m = m' := hS.same m hm m' hm' (hsource'.symm.trans (hsource.trans hheader.1))
    (hsession'.symm.trans (hsession.trans hheader.2.1))
    (hsequence'.symm.trans (hsequence.trans hheader.2.2))
  exact ⟨m, hm, ⟨i, hi, hpayload⟩, hreassembles, hcommon, hshape⟩

theorem collected_claim {h : Header} {payload : List UInt8} {r : Replies}
    (hears : Hears a S c frame) (hheard : Heard a frame c h payload) (hc : Collected S c) :
    Collected S (claimReassembly r h (isEncrypted h) c) := by
  unfold claimReassembly
  split_ifs
  · exact hc
  · refine ⟨hc.accepted, fun _ => ?_⟩
    obtain ⟨m, hm, ⟨i, hi, _⟩, _, _⟩ := hears h payload hheard
    refine ⟨m, hm, ?_, fun k _ hbit => ?_⟩
    · rw [hi]
      exact decide_eq_true (by simp [beginReassembly, ackRequested, isEncrypted, hasFlag])
    · exact absurd hbit (by simp [beginReassembly, SerialWindow.bit])

theorem collected_put {h : Header} {payload : List UInt8} (hS : Distinct S)
    (hears : Hears a S c frame) (hstorable : Storable a b frame c h payload)
    (hc : Collected S c) : Collected S (putFragment h payload (isEncrypted h) c) := by
  refine ⟨hc.accepted, fun _ => ?_⟩
  obtain ⟨m, hm, ⟨i, rfl, rfl⟩, hreassembles, hcommon, hshape⟩ :=
    fragment_message hS hears hstorable.heard hstorable.same hc
  have hindex := UInt8.lt_iff_toNat_lt.mp (data_common hstorable.heard.data hcommon)
  have hmax := (data_shape hstorable.heard.data hshape).2
  exact ⟨m, hm, reassembles_put hreassembles (hindex.trans_le hmax)⟩

theorem collected_accept {h : Header} {payload : List UInt8} {r : Replies} (hS : Distinct S)
    (hears : Hears a S c frame) (hcomplete : Complete a r frame c h payload)
    (hc : Collected S c) : Collected S (acceptMessage r h (isEncrypted h) c) := by
  obtain ⟨m, hm, ⟨i, hi, _⟩, hreassembles, _, hshape⟩ :=
    fragment_message hS hears hcomplete.heard hcomplete.same hc
  have hencrypted : isEncrypted h = isEncrypted m.1 := by rw [hi]; rfl
  have hlength : h.messageLength.toNat = m.2.length := by rw [hi]; exact hS.length m hm
  have hslice := reassembles_complete hreassembles hcomplete.heard.data hshape hencrypted hlength
    hcomplete.mask
  refine ⟨fun e he => ?_, fun hactive => absurd hactive Bool.false_ne_true⟩
  rcases List.mem_cons.mp he with rfl | he
  · refine ⟨m, hm, Prod.ext ?_ hslice⟩
    rw [hi]
    rfl
  · exact hc.accepted e he

theorem collected_move (hmove : Move b a frame c c') (hS : Distinct S)
    (hears : Hears a S c frame) (hc : Collected S c) : Collected S c' := by
  cases hmove with
  | claim r heard => exact collected_claim hears heard hc
  | put storable => exact collected_put hS hears storable hc
  | accept r complete => exact collected_accept hS hears complete hc
  | drop => exact ⟨hc.accepted, fun h => absurd h Bool.false_ne_true⟩
  | hand bufferSize =>
    unfold receive
    split_ifs
    · exact collected_congr (c := c) rfl rfl rfl hc
    · exact hc
  | pace _ _ => exact collected_congr (c := c) rfl rfl rfl hc
  | finish _ _ _ _ => exact collected_congr (c := c) rfl rfl rfl hc
  | begin _ _ => exact collected_congr (c := c) rfl rfl rfl hc
  | air _ _ => exact collected_congr (c := c) rfl rfl rfl hc
  | skip _ => exact collected_congr (c := c) rfl rfl rfl hc
  | answer _ _ _ _ => exact collected_congr (c := c) rfl rfl rfl hc
  | touch _ _ _ => exact collected_congr (c := c) rfl rfl rfl hc

theorem collected_step {call : Call} (hS : Distinct S) (hears : Hears a S c (frameOf call))
    (hc : Collected S c) : Collected S (step b a call c) := by
  have hstep : identity (step b a call c) = identity c ∧ Collected S (step b a call c) :=
    step_keeps (P := fun c' => identity c' = identity c ∧ Collected S c')
      (fun c₁ c₂ hmove ⟨hid, hc₁⟩ => ⟨(move_identity hmove).trans hid,
        collected_move hmove hS (fun h payload hheard =>
          hears h payload (heard_congr (c := c₁) hid.symm hheard)) hc₁⟩)
      ⟨rfl, hc⟩
  exact hstep.2

structure Room (base : UInt32) (c : Context κ) : Prop where
  crypto : c.usesCrypto = true
  next : c.config.initialSequence = base+UInt32.ofNat c.history.taken
  bound : base.toNat+c.history.taken ≤ 2^32
  exhausted : base.toNat+c.history.taken = 2^32 → c.sequenceExhausted = true

theorem room_take (hunused : c.sequenceExhausted = false) (hc : Room base c) :
    Room base (takeSequence c).2 := by
  have hlt : base.toNat+c.history.taken < 2^32 := by
    refine lt_of_le_of_ne hc.bound fun hfull => ?_
    rw [hc.exhausted hfull] at hunused
    cases hunused
  refine ⟨hc.crypto, ?_, hlt, fun hfull => ?_⟩
  · show c.config.initialSequence+1 = base+UInt32.ofNat (c.history.taken+1)
    rw [hc.next, UInt32.ofNat_add, UInt32.add_assoc]
    rfl
  · have hlast : c.config.initialSequence = 0xFFFFFFFF := by
      have hfull' : base.toNat+(c.history.taken+1) = 2^32 := hfull
      rw [hc.next]
      apply UInt32.toNat_inj.mp
      rw [UInt32.toNat_add, UInt32.toNat_ofNat']
      have hone : (0xFFFFFFFF : UInt32).toNat = 2^32-1 := rfl
      rw [hone]
      omega
    simp only [takeSequence, hc.crypto, hlast, decide_true, Bool.and_self, Bool.or_true]

theorem room_move (hmove : Move b a frame c c') (hc : Room base c) : Room base c' := by
  cases hmove with
  | begin _ sendable =>
    have htake := room_take sendable.unused hc
    exact ⟨htake.1, htake.2, htake.3, htake.4⟩
  | skip unused => exact room_take unused hc
  | answer unused _ _ _ =>
    have htake := room_take unused hc
    exact ⟨htake.1, htake.2, htake.3, htake.4⟩
  | claim r _ =>
    unfold claimReassembly
    split_ifs <;> exact ⟨hc.1, hc.2, hc.3, hc.4⟩
  | hand bufferSize =>
    unfold receive
    split_ifs <;> exact ⟨hc.1, hc.2, hc.3, hc.4⟩
  | air _ _ => exact ⟨hc.1, hc.2, hc.3, hc.4⟩
  | pace _ _ => exact ⟨hc.1, hc.2, hc.3, hc.4⟩
  | finish _ _ _ _ => exact ⟨hc.1, hc.2, hc.3, hc.4⟩
  | touch _ _ _ => exact ⟨hc.1, hc.2, hc.3, hc.4⟩
  | drop => exact ⟨hc.1, hc.2, hc.3, hc.4⟩
  | put _ => exact ⟨hc.1, hc.2, hc.3, hc.4⟩
  | accept _ _ => exact ⟨hc.1, hc.2, hc.3, hc.4⟩

structure Sealing (a : Aead κ) (base : UInt32) (c : Context κ) : Prop where
  sender : Sender a base c
  room : Room base c

theorem sealing_step {call : Call} (hc : Sealing a base c) :
    Sealing a base (step b a call c) :=
  step_keeps (fun _ _ hmove hc => by
    have hroom := room_move hmove hc.room
    exact ⟨sender_move hmove (by have := hroom.bound; omega) hc.sender, hroom⟩) hc

structure MeshSafe (a : Aead κ) (configs : ι → Config κ) (n : Mesh ι κ) : Prop where
  identity : ∀ i, identity (n i) =
    ((configs i).localAddress, (configs i).sessionId, (configs i).key)
  outputs : ∀ i, Outputs a (n i)
  sealing : ∀ i, (configs i).key.isSome = true → Sealing a (configs i).initialSequence (n i)
  collected : ∀ i key, (configs i).key = some key → Collected (Messages configs key n) (n i)
  ready : ∀ i, Ready (inbox (n i))

variable {configs : ι → Config κ} {n : Mesh ι κ} {i : ι} {key : κ}

theorem key_of (hn : MeshSafe a configs n) (i : ι) : (n i).config.key = (configs i).key :=
  congrArg (fun id => id.2.2) (hn.identity i)

/-- What a holder of the key has sent, with the sender. -/
theorem messages_of (hn : MeshSafe a configs n) {m : Header × List UInt8}
    (hm : m ∈ Messages configs key n) : ∃ j, (configs j).key = some key ∧
      m ∈ (n j).history.sent ∧ Sender a (configs j).initialSequence (n j) ∧
      Message (configs j).localAddress (configs j).sessionId m := by
  obtain ⟨j, hkey, hsent⟩ := hm
  have hsender := (hn.sealing j (by rw [hkey]; rfl)).sender
  have hmessage := hsender.messages m hsent
  have hid := hn.identity j
  simp only [LoraMoves.identity, Prod.mk.injEq] at hid
  rw [hid.1, hid.2.1] at hmessage
  exact ⟨j, hkey, hsent, hsender, hmessage⟩

theorem messages_distinct (hsessions : OwnSessions configs) (hn : MeshSafe a configs n) :
    Distinct (Messages configs key n) := by
  refine ⟨fun m hm => ?_, fun m hm m' hm' hsource hsession hsequence => ?_⟩
  · obtain ⟨_, _, _, _, hmessage⟩ := messages_of hn hm
    exact hmessage.length
  · obtain ⟨j, hkey, hsent, hsender, hmessage⟩ := messages_of hn hm
    obtain ⟨j', hkey', hsent', _, hmessage'⟩ := messages_of hn hm'
    obtain rfl : j = j' := hsessions j j' key hkey hkey'
      (hmessage.source.symm.trans (hsource.trans hmessage'.source))
      (hmessage.sessionId.symm.trans (hsession.trans hmessage'.sessionId))
    exact hsender.distinct m hsent m' hsent' hsequence

/-- What opens at a link is a fragment of a message of a holder of its key. -/
theorem hears_messages (ha : a.Correct) (hn : MeshSafe a configs n)
    (hkey : (configs i).key = some key) (hunforged : Unforged a n i frame) :
    Hears a (Messages configs key n) (n i) frame := by
  intro h payload hheard
  obtain ⟨bytes, hframe, hdec⟩ := hheard.decoded
  have hcrypto : (n i).usesCrypto = true := by
    rw [Context.usesCrypto, key_of hn, hkey]
    rfl
  have hencrypted : isEncrypted h = true := decoded_encrypted hdec hcrypto
  obtain ⟨hh, _, _, hopen⟩ := frameDecode_ok ha (decoded_frame hdec)
  obtain ⟨k, hk, hbody⟩ := hopen hencrypted
  rw [hh] at hbody
  obtain ⟨j, hj, f, hf, rfl⟩ := hunforged k bytes payload hk hframe hbody
  have hk' : key = k := Option.some.inj (hkey.symm.trans ((key_of hn i).symm.trans hk))
  have hkeys : a.Compatible (n j).config.key (n i).config.key := by
    rw [hj, hk]
    exact compatible_self a _
  rw [key_of hn, ← hk'] at hj
  have hsender := (hn.sealing j (by rw [hj]; rfl)).sender
  obtain ⟨⟨_, henc⟩, _, _⟩ := hn.outputs j f hf
  obtain ⟨rfl, _⟩ := decoded_output ha hkeys henc hdec
  obtain ⟨m, hm, _, hfragment, hencoded⟩ := hsender.fragments f hf hheard.data
  obtain ⟨_, rfl⟩ := decoded_output ha hkeys hencoded hdec
  obtain ⟨hcommon, hshape, _⟩ := frameEncode_ok hencoded
  exact ⟨m, ⟨j, hj, hm⟩, hfragment, hcommon, hshape⟩

theorem messages_grow [DecidableEq ι] {call : Call} :
    Messages configs key n ⊆
      Messages configs key (Function.update n i (step b a call (n i))) := by
  rintro m ⟨j, hkey, hm⟩
  refine ⟨j, hkey, ?_⟩
  by_cases hj : j = i
  · subst hj
    rw [Function.update_self]
    exact (step_grows b a call (n j)).sent m hm
  · rw [Function.update_of_ne hj]
    exact hm

theorem mesh_step [DecidableEq ι] {call : Call} (ha : a.Correct) (hsessions : OwnSessions configs)
    (hunforged : Unforged a n i (frameOf call)) (hn : MeshSafe a configs n) :
    MeshSafe a configs (Function.update n i (step b a call (n i))) := by
  refine ⟨?_, ?_, ?_, ?_, ?_⟩
  · refine (Function.forall_update_iff n fun j c => LoraMoves.identity c =
      ((configs j).localAddress, (configs j).sessionId, (configs j).key)).mpr
      ⟨?_, fun j _ => hn.identity j⟩
    exact step_keeps (fun _ _ hmove hid => (move_identity hmove).trans hid) (hn.identity i)
  · refine (Function.forall_update_iff n fun _ c => Outputs a c).mpr
      ⟨?_, fun j _ => hn.outputs j⟩
    exact step_keeps (fun _ _ hmove => outputs_move hmove) (hn.outputs i)
  · refine (Function.forall_update_iff n fun j c => (configs j).key.isSome = true →
      Sealing a (configs j).initialSequence c).mpr ⟨fun hkey => ?_, fun j _ => hn.sealing j⟩
    exact sealing_step (hn.sealing i hkey)
  · intro j k hkey
    refine collected_mono messages_grow ?_
    by_cases hj : j = i
    · subst hj
      rw [Function.update_self]
      exact collected_step (messages_distinct hsessions hn) (hears_messages ha hn hkey hunforged)
        (hn.collected j k hkey)
    · rw [Function.update_of_ne hj]
      exact hn.collected j k hkey
  · refine (Function.forall_update_iff n fun _ c => Ready (inbox c)).mpr
      ⟨ready_accepted ha call (hn.ready i), fun j _ => hn.ready j⟩

theorem create_sender (a : Aead κ) (b : Build) (config : Config κ) :
    Sender a config.initialSequence (create b config) where
  next := (UInt32.add_zero _).symm
  messages _ hm := absurd hm List.not_mem_nil
  before _ hm := absurd hm List.not_mem_nil
  distinct _ hm := absurd hm List.not_mem_nil
  newest _ hm := absurd hm List.not_mem_nil
  current h := by simp [InFlight, Live, create] at h
  fragments _ hf := absurd hf List.not_mem_nil

theorem create_room (b : Build) (config : Config κ) (hkey : config.key.isSome = true) :
    Room config.initialSequence (create b config) where
  crypto := hkey
  next := (UInt32.add_zero _).symm
  bound := config.initialSequence.toNat_lt.le
  exhausted h := absurd h config.initialSequence.toNat_lt.ne

theorem create_mesh (a : Aead κ) (builds : ι → Build) (configs : ι → Config κ) :
    MeshSafe a configs fun i => create (builds i) (configs i) where
  identity _ := rfl
  outputs _ _ hf := absurd hf List.not_mem_nil
  sealing i hkey := ⟨create_sender a (builds i) (configs i), create_room (builds i) (configs i) hkey⟩
  collected _ _ _ := ⟨fun _ he => absurd he List.not_mem_nil, fun h => absurd h Bool.false_ne_true⟩
  ready _ h := absurd h Bool.false_ne_true

theorem mesh_runs [DecidableEq ι] {builds : ι → Build} (ha : a.Correct)
    (hsessions : OwnSessions configs) (hruns : MeshRuns builds a configs n) :
    MeshSafe a configs n := by
  induction hruns with
  | refl => exact create_mesh a builds configs
  | tail _ hstep ih =>
    cases hstep with
    | call j call unforged => exact mesh_step ha hsessions unforged ih

theorem slice_take_min (m : Image) (offset length size : ℕ) :
    slice m offset (min length size) = (slice m offset length).take size := by
  rw [slice, slice, ← List.map_take, List.take_range, Nat.min_comm]

/-- In every run of links of which the encrypted ones have sessions of their
own, an encrypted link hands out only what a holder of its key has sent, byte
for byte and with the same source, session and sequence; no call writes past
its buffer; and what is ready stays as it is until the application takes it. -/
theorem reassembly_integrity [DecidableEq ι] (builds : ι → Build) (a : Aead κ) (ha : a.Correct)
    (configs : ι → Config κ) (hsessions : OwnSessions configs) (n : Mesh ι κ)
    (hruns : MeshRuns builds a configs n) (i : ι) (key : κ) (hkey : (configs i).key = some key) :
    (∀ bufferSize info, (receive bufferSize (n i)).1.info = some info →
      ∃ j, (configs j).key = some key ∧ ∃ m ∈ (n j).history.sent,
        info.source = (configs j).localAddress ∧ info.sessionId = (configs j).sessionId ∧
        info.sequence = m.1.sequence ∧
        (receive bufferSize (n i)).1.bytes = m.2.take bufferSize ∧
        (receive bufferSize (n i)).1.length = m.2.length ∧
        (receive bufferSize (n i)).1.status =
          if bufferSize < m.2.length then .eoverflow else .ok) ∧
    (∀ (memory : Image) (call : Call) (k : ℕ), (builds i).maxMessage ≤ k →
      (step (builds i) a call { n i with rxMessage := memory }).rxMessage k = memory k) ∧
    ∀ calls : List Call, (∀ call ∈ calls, ∀ bufferSize, call ≠ .receive bufferSize) →
      (n i).rxReady = true → inbox (run (builds i) a calls (n i)) = inbox (n i) := by
  have hn := mesh_runs ha hsessions hruns
  refine ⟨fun bufferSize info hinfo => ?_,
    fun memory call k hk => beyond_step ha call { n i with rxMessage := memory } hk,
    fun calls hcalls hready => ready_run ha hcalls hready⟩
  have hready : (n i).rxReady = true := by
    by_contra hempty
    rw [receive, if_pos hempty] at hinfo
    cases hinfo
  rw [receive, if_neg (not_not.mpr hready)] at hinfo ⊢
  obtain rfl := Option.some.inj hinfo
  obtain ⟨m, hm, heq⟩ := (hn.collected i key hkey).accepted _ (hn.ready i hready)
  obtain ⟨j, hkey', hsent, _, hmessage⟩ := messages_of hn hm
  obtain ⟨hheader, hbytes⟩ := Prod.mk.inj heq
  have hlength : (n i).rxLength = m.2.length := by
    rw [← hbytes, slice_length]
    rfl
  have hfields : (n i).rxInfo = messageInfo m.1 (isEncrypted m.1) := hheader
  refine ⟨j, hkey', m, hsent, ?_, ?_, ?_, ?_, hlength, ?_⟩
  · rw [hfields]
    exact hmessage.source
  · rw [hfields]
    exact hmessage.sessionId
  · rw [hfields]
    rfl
  · exact (slice_take_min _ _ _ _).trans (congrArg (List.take bufferSize) hbytes)
  · rw [← hlength]
    have hmin : min (n i).rxLength bufferSize < (n i).rxLength ↔ bufferSize < (n i).rxLength := by
      omega
    simp only [hmin]

def meshKey : List UInt8 := (List.range 32).map UInt8.ofNat

def meshNonce : List UInt8 := [0, 0, 0, 1, 0, 1, 0, 0, 0, 5, 0, 0]

def meshHeader : List UInt8 :=
  [0x4A, 0x4C, 2, 4, 3, 0, 1, 0, 2, 0, 0, 0, 1, 0, 0, 0, 5, 0, 1, 0, 2, 0, 0, 0, 0]

def meshBody : List UInt8 := [0x68, 0x69]

def meshSealed : List UInt8 :=
  [0x60, 0x98, 0x52, 0x04, 0x1E, 0xAF, 0xCD, 0x40, 0x7A, 0x1C, 0x48, 0x04, 0x18, 0x8D, 0x8F,
    0x46, 0xA4, 0x51]

def meshAead : Aead (List UInt8) where
  encrypt key nonce header body :=
    if key = meshKey ∧ nonce = meshNonce ∧ header = meshHeader ∧ body = meshBody then
      some meshSealed
    else none
  decrypt key nonce header sealed :=
    if key = meshKey ∧ nonce = meshNonce ∧ header = meshHeader ∧ sealed = meshSealed then
      some meshBody
    else none

theorem meshAead_correct : meshAead.Correct where
  opens key nonce header sealed body := by
    simp only [meshAead, Option.ite_none_right_eq_some, Option.some.injEq]
    constructor <;> rintro ⟨⟨hkey, hnonce, hheader, rfl⟩, rfl⟩ <;>
      exact ⟨⟨hkey, hnonce, hheader, rfl⟩, rfl⟩
  length key nonce header sealed body h := by
    simp only [meshAead, Option.ite_none_right_eq_some, Option.some.injEq] at h
    obtain ⟨⟨_, _, _, rfl⟩, rfl⟩ := h
    rfl

/-- Two links with one key; the first is at address 1, the second at 2. -/
def meshConfig (second : Bool) : Config (List UInt8) :=
  { sampleConfig with
    localAddress := if second then 2 else 1
    sessionId := if second then 9 else 1
    key := some meshKey }

def meshSent : Context (List UInt8) :=
  step defaultBuild meshAead (.sendStart 2 3 meshBody false silentRadio)
    (create defaultBuild (meshConfig false))

def meshHeard : Context (List UInt8) :=
  step defaultBuild meshAead (hearing (meshHeader ++ meshSealed))
    (create defaultBuild (meshConfig true))

theorem mesh_delivers : ∃ n, MeshRuns (fun _ => defaultBuild) meshAead meshConfig n ∧
    (receive 16 (n true)).1.bytes = meshBody ∧ ∃ j, ∃ m ∈ (n j).history.sent,
      (receive 16 (n true)).1.bytes = m.2.take 16 := by
  have hsessions : OwnSessions meshConfig := by
    intro i j key _ _ haddress _
    cases i <;> cases j <;> first | rfl | cases haddress
  have hsent : MeshRuns (fun _ => defaultBuild) meshAead meshConfig
      (Function.update (fun i => create defaultBuild (meshConfig i)) false meshSent) :=
    .tail .refl (.call false _ fun _ _ _ _ hframe => by cases hframe)
  have haired : ∃ f ∈ meshSent.history.aired, f.2 = meshHeader ++ meshSealed := by
    decide +kernel
  have hheard := hsent.tail (.call true (hearing (meshHeader ++ meshSealed))
    fun key bytes body hkey hframe _ => by
      obtain rfl : meshHeader ++ meshSealed = bytes := Option.some.inj hframe
      exact ⟨false, hkey, haired⟩)
  have hinfo : ((receive 16 meshHeard).1.info).isSome = true ∧
      (receive 16 meshHeard).1.bytes = meshBody := by
    decide +kernel
  obtain ⟨info, hsome⟩ := Option.isSome_iff_exists.mp hinfo.1
  obtain ⟨hmessages, _, _⟩ := reassembly_integrity (fun _ => defaultBuild) meshAead
    meshAead_correct meshConfig hsessions _ hheard true meshKey rfl
  obtain ⟨j, _, m, hm, _, _, _, hbytes, _⟩ := hmessages 16 info hsome
  exact ⟨_, hheard, hinfo.2, j, m, hm, hbytes⟩

end JaszczurHal.LoraMesh
