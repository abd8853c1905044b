import JaszczurHal.LoraMoves

/-!
# No nonce of a link seals two different frames

Every sequence number is taken once, for one message or for one
acknowledgement. While a message is in flight its fields do not change, so a
fragment sent again is the same frame.
-/

set_option autoImplicit false

namespace JaszczurHal.LoraNonce
open HalStatus ByteImage LoraFrame LoraLink LoraMoves

variable {κ : Type}

def Own (a : Aead κ) (c : Context κ) (n : ℕ) : Prop :=
  c.txSequence.toNat < n ∧ ∀ e ∈ c.history.aired, e.1.sequence = c.txSequence →
    ∃ i, e.1 = dataHeader c i ∧ frameEncode a e.1
      (fragmentPayload c.usesCrypto c.txMessage i) c.config.key kMaxPayload = .ok e.2

structure Fresh (a : Aead κ) (c : Context κ) (n : ℕ) : Prop where
  bound : n ≤ 2^32
  crypto : c.usesCrypto = true
  next : c.config.initialSequence = UInt32.ofNat n
  exhausted : n = 2^32 → c.sequenceExhausted = true
  used : ∀ e ∈ c.history.aired, e.1.sequence.toNat < n
  same : ∀ e ∈ c.history.aired, ∀ e' ∈ c.history.aired,
    buildNonce e.1 = buildNonce e'.1 → e.2 = e'.2
  own : InFlight c → Own a c n

def NonceSafe (a : Aead κ) (c : Context κ) : Prop := ∃ n, Fresh a c n

variable {a : Aead κ} {c : Context κ} {n : ℕ}

theorem be32_inj {v w : UInt32} (h : storeBe32 v = storeBe32 w) : v = w := by
  have hv : loadBe32 (ofList (storeBe32 v)) 0 = v := loadBe32_store rfl
  have hw : loadBe32 (ofList (storeBe32 w)) 0 = w := loadBe32_store rfl
  rw [← hv, h, hw]

theorem nonce_sequence {h h' : Header} (hn : buildNonce h = buildNonce h') :
    h.sequence = h'.sequence ∧ h.fragmentIndex = h'.fragmentIndex := by
  have hsplit := List.append_inj hn rfl
  have hmiddle := List.append_inj hsplit.1 rfl
  exact ⟨be32_inj hmiddle.2, (List.cons.inj hsplit.2).1⟩

theorem fresh_lt (hc : Fresh a c n) (hunused : c.sequenceExhausted = false) : n < 2^32 := by
  rcases Nat.lt_or_ge n (2^32) with hlt | hge
  · exact hlt
  · rw [hc.exhausted (le_antisymm hc.bound hge)] at hunused
    cases hunused

theorem fresh_sequence (hc : Fresh a c n) (hlt : n < 2^32) :
    (takeSequence c).1.toNat = n := by
  have htaken : (takeSequence c).1 = UInt32.ofNat n := hc.next
  rw [htaken, UInt32.toNat_ofNat']
  exact Nat.mod_eq_of_lt hlt

/-- Taking a sequence number leaves no room for it to be taken again. -/
theorem fresh_take (hc : Fresh a c n) (hunused : c.sequenceExhausted = false) :
    Fresh a (takeSequence c).2 (n+1) := by
  have hlt := fresh_lt hc hunused
  refine ⟨hlt, hc.crypto, ?_, ?_, fun e he => (hc.used e he).trans n.lt_succ_self, hc.same,
    fun hflight => ⟨(hc.own hflight).1.trans n.lt_succ_self, (hc.own hflight).2⟩⟩
  · have hnext : (takeSequence c).2.config.initialSequence = c.config.initialSequence+1 := rfl
    rw [hnext, hc.next, UInt32.ofNat_add]
    rfl
  · intro hfull
    have hlast : c.config.initialSequence = 0xFFFFFFFF := by
      rw [hc.next, show n = 0xFFFFFFFF by omega]
      rfl
    simp only [takeSequence, hc.crypto, hlast, decide_true, Bool.and_self, Bool.or_true]

/-- A frame that no other nonce of the link can be that of. -/
theorem fresh_air {h : Header} {bytes : List UInt8} (hc : Fresh a c n)
    (hseq : h.sequence.toNat < n)
    (hsame : ∀ e ∈ c.history.aired, buildNonce h = buildNonce e.1 → bytes = e.2)
    (hown : InFlight c → h.sequence = c.txSequence → ∃ i, h = dataHeader c i ∧
      frameEncode a h (fragmentPayload c.usesCrypto c.txMessage i) c.config.key kMaxPayload =
        .ok bytes) : Fresh a (air h bytes c) n := by
  refine ⟨hc.bound, hc.crypto, hc.next, hc.exhausted, ?_, ?_, fun hl => ⟨(hc.own hl).1, ?_⟩⟩
  · intro e he
    rcases List.mem_cons.mp he with rfl | he
    · exact hseq
    · exact hc.used e he
  · intro e he e' he' hn
    rcases List.mem_cons.mp he with rfl | he
    · rcases List.mem_cons.mp he' with rfl | he'
      · rfl
      · exact hsame e' he' hn
    · rcases List.mem_cons.mp he' with rfl | he'
      · exact (hsame e he hn.symm).symm
      · exact hc.same e he e' he' hn
  · intro e he hs
    rcases List.mem_cons.mp he with rfl | he
    · exact hown hl hs
    · exact (hc.own hl).2 e he hs

/-- A fragment aired again is the same frame: the nonce gives the sequence
number and the index, and these give the header. -/
theorem fresh_fragment {i : UInt8} {bytes : List UInt8} (hc : Fresh a c n)
    (hflight : InFlight c)
    (henc : frameEncode a (dataHeader c i) (fragmentPayload c.usesCrypto c.txMessage i)
      c.config.key kMaxPayload = .ok bytes) : Fresh a (air (dataHeader c i) bytes c) n := by
  obtain ⟨hseq, hframes⟩ := hc.own hflight
  apply fresh_air hc hseq
  · intro e he hn
    obtain ⟨hsequence, hindex⟩ := nonce_sequence hn
    obtain ⟨j, hj, hencoded⟩ := hframes e he hsequence.symm
    have hij : i = j := by
      rw [hj] at hindex
      exact hindex
    rw [hj, ← hij, henc] at hencoded
    exact Except.ok.inj hencoded
  · exact fun _ _ => ⟨i, rfl, henc⟩

/-- The message in flight has a sequence number nothing was aired under. -/
theorem fresh_begin {destination : UInt16} {port : UInt8} {data : List UInt8}
    {acknowledged : Bool} {count : UInt8} (hc : Fresh a c n)
    (hunused : c.sequenceExhausted = false) :
    Fresh a (beginSend destination port data acknowledged count c) (n+1) := by
  have htake := fresh_take hc hunused
  have hseq := fresh_sequence hc (fresh_lt hc hunused)
  refine ⟨htake.bound, htake.crypto, htake.next, htake.exhausted, htake.used, htake.same,
    fun _ => ⟨?_, ?_⟩⟩
  · have htaken : (beginSend destination port data acknowledged count c).txSequence.toNat = n :=
      hseq
    omega
  · intro e he hs
    have hused := hc.used e he
    have htaken : e.1.sequence.toNat = n := by
      rw [hs]
      exact hseq
    omega

theorem fresh_answer {h : Header} {bytes : List UInt8} (hc : Fresh a c n)
    (hunused : c.sequenceExhausted = false) :
    Fresh a (air (ackHeader c h (takeSequence c).1) bytes (takeSequence c).2) (n+1) := by
  have hseq := fresh_sequence hc (fresh_lt hc hunused)
  have hack : (ackHeader c h (takeSequence c).1).sequence.toNat = n := hseq
  apply fresh_air (fresh_take hc hunused) (by omega)
  · intro e he hn
    have hused := hc.used e he
    have hsame := congrArg UInt32.toNat (nonce_sequence hn).1
    omega
  · intro hflight hs
    have hown := (hc.own hflight).1
    have hsame := congrArg UInt32.toNat hs
    have htx : (takeSequence c).2.txSequence = c.txSequence := rfl
    rw [htx] at hsame
    omega

theorem nonce_move {b : Build} {frame : Option (List UInt8)} {c c' : Context κ}
    (hmove : Move b a frame c c') (hc : NonceSafe a c) : NonceSafe a c' := by
  obtain ⟨n, hc⟩ := hc
  cases hmove with
  | pace p flight =>
    exact ⟨n, hc.bound, hc.crypto, hc.next, hc.exhausted, hc.used, hc.same,
      fun h => hc.own (h.elim Or.inl flight)⟩
  | finish result s resting _ =>
    exact ⟨n, hc.bound, hc.crypto, hc.next, hc.exhausted, hc.used, hc.same,
      fun h => h.elim (fun hactive => absurd hactive Bool.false_ne_true)
        fun hlive => absurd hlive resting⟩
  | begin port sendable => exact ⟨n+1, fresh_begin hc sendable.unused⟩
  | air flight encoded => exact ⟨n, fresh_fragment hc flight encoded⟩
  | skip unused => exact ⟨n+1, fresh_take hc unused⟩
  | answer unused _ _ _ => exact ⟨n+1, fresh_answer hc unused⟩
  | claim r _ =>
    unfold claimReassembly
    split_ifs <;> exact ⟨n, ⟨hc.1, hc.2, hc.3, hc.4, hc.5, hc.6, hc.7⟩⟩
  | hand bufferSize =>
    unfold receive
    split_ifs <;> exact ⟨n, ⟨hc.1, hc.2, hc.3, hc.4, hc.5, hc.6, hc.7⟩⟩
  | touch _ _ _ => exact ⟨n, ⟨hc.1, hc.2, hc.3, hc.4, hc.5, hc.6, hc.7⟩⟩
  | drop => exact ⟨n, ⟨hc.1, hc.2, hc.3, hc.4, hc.5, hc.6, hc.7⟩⟩
  | put _ => exact ⟨n, ⟨hc.1, hc.2, hc.3, hc.4, hc.5, hc.6, hc.7⟩⟩
  | accept _ _ => exact ⟨n, ⟨hc.1, hc.2, hc.3, hc.4, hc.5, hc.6, hc.7⟩⟩

theorem create_fresh (a : Aead κ) (b : Build) (config : Config κ) (key : κ) :
    Fresh a (create b { config with key := some key }) config.initialSequence.toNat where
  bound := config.initialSequence.toNat_lt.le
  crypto := rfl
  next := UInt32.ofNat_toNat.symm
  exhausted h := absurd h config.initialSequence.toNat_lt.ne
  used e he := absurd he List.not_mem_nil
  same e he := absurd he List.not_mem_nil
  own h := by simp [InFlight, Live, create] at h

/-- Over any calls of an encrypted link, two frames given to the radio under
one nonce are the same bytes. -/
theorem nonce_unique (b : Build) (a : Aead κ) (config : Config κ) (key : κ)
    (calls : List Call) (e e' : Header × List UInt8)
    (he : e ∈ (run b a calls (create b { config with key := some key })).history.aired)
    (he' : e' ∈ (run b a calls (create b { config with key := some key })).history.aired)
    (hn : buildNonce e.1 = buildNonce e'.1) : e.2 = e'.2 := by
  have hsafe : NonceSafe a (run b a calls (create b { config with key := some key })) :=
    run_keeps (fun _ _ _ _ hmove => nonce_move hmove) ⟨_, create_fresh a b config key⟩
  obtain ⟨n, hfresh⟩ := hsafe
  exact hfresh.same e he e' he' hn

def sampleAead : Aead (List UInt8) where
  encrypt key nonce header body :=
    if key = (List.range 32).map UInt8.ofNat ∧ nonce = [0, 0, 0, 1, 0, 1, 0, 0, 0, 5, 0, 0] ∧
        header = [0x4A, 0x4C, 2, 5, 3, 0, 1, 0, 2, 0, 0, 0, 1, 0, 0, 0, 5, 0, 1, 0, 2,
          0, 0, 0, 0] ∧ body = [0x68, 0x69] then
      some [0x60, 0x98, 0xFA, 0x25, 0x83, 0x9B, 0x9F, 0x68, 0xF0, 0xB6, 0xAE, 0x49,
        0xE9, 0x27, 0xF8, 0x5C, 0x43, 0x9C]
    else none
  decrypt _ _ _ _ := none

def sampleConfig : Config (List UInt8) where
  localAddress := 1
  sessionId := 1
  initialSequence := 5
  acknowledgementTimeoutMs := 100
  retryBackoffMs := 0
  reassemblyTimeoutMs := 1000
  maxRetries := 1
  key := none

def sampleCalls : List Call :=
  [.sendStart 2 3 [0x68, 0x69] true silentRadio, .process silentRadio,
    .process { silentRadio with process := .etimeout }]

def sampleAired : List (Header × List UInt8) :=
  (run defaultBuild sampleAead sampleCalls (create defaultBuild
    { sampleConfig with key := some ((List.range 32).map UInt8.ofNat) })).history.aired

theorem retry_repeats_frame :
    sampleAired.length = 2 ∧ ∃ e e', sampleAired = [e, e'] ∧ e.2 = e'.2 := by
  have hlength : sampleAired.length = 2 := by decide +kernel
  obtain ⟨e, e', hpair⟩ := List.length_eq_two.mp hlength
  refine ⟨hlength, e, e', hpair, ?_⟩
  have hn : sampleAired.map (fun f => buildNonce f.1) =
      List.replicate 2 [0, 0, 0, 1, 0, 1, 0, 0, 0, 5, 0, 0] := by decide +kernel
  rw [hpair] at hn
  obtain ⟨hfirst, hsecond, _⟩ : buildNonce e.1 = _ ∧ buildNonce e'.1 = _ ∧ True := by
    simpa using hn
  have hmem : e ∈ sampleAired ∧ e' ∈ sampleAired := by simp [hpair]
  exact nonce_unique defaultBuild sampleAead sampleConfig ((List.range 32).map UInt8.ofNat)
    sampleCalls e e' hmem.1 hmem.2 (hfirst.trans hsecond.symm)

end JaszczurHal.LoraNonce
