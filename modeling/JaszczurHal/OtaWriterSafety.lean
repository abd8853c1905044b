import JaszczurHal.OtaStaging

/-!
# What an update can do to the boot state

A session moves from its header over the payload to a finished update. The
boot state that was selected when it began stays selected until the record of
the pending update is complete, and by then the payload has been verified.
-/

set_option autoImplicit false

namespace JaszczurHal.OtaWriterSafety
open HalStatus CrashRun OtaImage OtaFlash ByteImage OtaManifest OtaWriter OtaStaging
open OtaBoot (selected loadState loadOrInitialiseState initialiseFactoryState confirmBoot
  pendingState digestPartition nextState)

abbrev State := BootState (List UInt8)

structure Factory (s : State) : Prop where
  mode : s.mode = .stable
  sequence : s.sequence = 1
  version : s.programVersion = OtaBoot.text OtaBoot.factoryText
  staging : s.stagingSize = 0

def Base (before : Option (State × Bool)) (f : RpFlash) : Prop :=
  selected f = before ∨ before = none ∧ ∃ s, Factory s ∧ selected f = some (s, false)

def Pending (m : OtaManifest.Manifest) (f : RpFlash) : Prop :=
  ∃ s i, s.mode = .stable ∧ selected f = some (pendingState s (recorded m), i) ∧
    ∀ t, f.journal t = kErased

/-- The journal was erased by one operation and the record written by the next. -/
def Ordered (m : OtaManifest.Manifest) (f : RpFlash) (cs : Changes) : Prop :=
  ∃ earlier g h s i, cs = earlier ++ [(g, h), (h, f)] ∧ s.mode = .stable ∧
    selected g = some (s, i) ∧ selected h = some (s, i) ∧ (∀ t, h.journal t = kErased) ∧
    selected f = some (pendingState s (recorded m), !i) ∧ f.journal = h.journal

variable {b : Build} {g : RpFlash}

theorem base_refl : Base (selected g) g := Or.inl rfl

theorem select_torn_first (f : RpFlash) (h : selected f = none) :
    selected { f with record := Function.update f.record false none } = none := by
  have hnone := select_none_decode _ _ h
  have hfirst : stateDecode (none : Option State) = none := rfl
  simp [selected, stateSelect, hnone, hfirst]

theorem firstState_from (h : selected g = none) (s : State) (hs : Factory s) :
    From g (writeState s true) (fun r f => f.staging = g.staging ∧ Base none f ∧
        (r = .ok → selected f = some (s, false)))
      (fun f => f.staging = g.staging ∧ Base none f) := by
  refine holds_ite (fun hvalid => ?_) (fun _ => ?_)
  · have hdone : selected { g with record := Function.update g.record (!true) (some s) } =
        some (s, false) := select_first g.record s h hvalid
    have hleave : ∀ f, f = g → ∀ damage : Damage Image,
        let f' := damage.leave
          (fun f => { f with record := Function.update f.record (!true) (some s) })
          (fun _ _ f => { f with record := Function.update f.record (!true) none }) f
        f'.staging = g.staging ∧ Base none f' := by
      rintro f rfl damage
      cases damage with
      | before => exact ⟨rfl, Or.inl h⟩
      | after => exact ⟨rfl, Or.inr ⟨rfl, s, hs, hdone⟩⟩
      | torn x j => exact ⟨rfl, Or.inl (select_torn_first f h)⟩
    apply callback_holds
    · rintro f rfl
      exact ⟨rfl, Or.inr ⟨rfl, s, hs, hdone⟩, fun _ => hdone⟩
    · intro _ f hf damage
      obtain ⟨hst, hb⟩ := hleave f hf damage
      exact ⟨hst, hb, by simp⟩
    · intro _ f hf damage
      exact hleave f hf damage
  · refine holds_pure _ fun d hd => on_mono hd fun f hf => ?_
    subst hf
    exact ⟨rfl, Or.inl h, by simp⟩

theorem initialiseFactoryState_from (h : selected g = none) :
    From g (initialiseFactoryState b.layout b.binary)
      (fun r f => f.staging = g.staging ∧ Base none f ∧ r ≠ .error .ok ∧
        ∀ s i, r = .ok (s, i) → selected f = some (s, i) ∧ Factory s)
      (fun f => f.staging = g.staging ∧ Base none f) := by
  rw [From, initialiseFactoryState]
  cases b.binary.size with
  | none =>
    refine holds_pure _ fun d hd => on_mono hd fun f hf => ?_
    subst hf
    exact ⟨rfl, Or.inl h, by simp, by simp⟩
  | some size =>
    refine holds_bind (holds_conseq (OtaLaunch.digestPartition_holds (P := fun f => f = g)
      b.layout .program size) (fun _ => id) (fun _ _ => id) fun d hd => cut_mono hd fun f hf => ?_)
      fun digest => ?_
    · subst hf
      exact ⟨rfl, Or.inl h⟩
    cases digest with
    | error status =>
      refine holds_pure _ fun d hd => on_mono hd fun f hf => ?_
      obtain ⟨rfl, hne, _⟩ := hf
      exact ⟨rfl, Or.inl h, fun he => hne (congrArg Except.error (Except.error.inj he)), by simp⟩
    | ok sha256 =>
      dsimp only
      generalize hstate : BootState.mk 1 BootMode.stable 0 b.binary.maxBootAttempts size 0 0 0
        sha256 b.binary.emptySha256 (OtaBoot.text OtaBoot.factoryText)
        (OtaBoot.text OtaBoot.emptyText) = state
      have hfactory : Factory state := by
        rw [← hstate]
        exact ⟨rfl, rfl, rfl, rfl⟩
      refine holds_bind (holds_pre (firstState_from h state hfactory)
        fun d hd => on_mono hd fun f hf => hf.1) fun status => ?_
      refine holds_ite (fun hok => ?_) (fun hne => ?_)
      · refine holds_pure _ fun d hd => on_mono hd fun f hf => ⟨hf.1, hf.2.1, by simp, ?_⟩
        intro s i hs
        obtain ⟨rfl, rfl⟩ := Prod.mk.inj (Except.ok.inj hs)
        exact ⟨hf.2.2 hok, hfactory⟩
      · refine holds_pure _ fun d hd => on_mono hd fun f hf => ⟨hf.1, hf.2.1, ?_, by simp⟩
        exact fun he => hne (Except.error.inj he)

/-- The state an update starts from: the recorded one, or the first record. -/
theorem loadOrInitialiseState_from :
    From g (loadOrInitialiseState b.layout b.binary)
      (fun r f => f.staging = g.staging ∧ Base (selected g) f ∧ r ≠ .error .ok ∧
        ∀ s i, r = .ok (s, i) → selected f = some (s, i))
      (fun f => f.staging = g.staging ∧ Base (selected g) f) := by
  refine holds_bind (holds_conseq (OtaLaunch.loadState_holds (P := fun f => f = g)) (fun _ => id)
    (fun _ _ => id) fun d hd => cut_mono hd fun f hf => ?_) fun loaded => ?_
  · subst hf
    exact ⟨rfl, base_refl⟩
  cases loaded with
  | ok found =>
    refine holds_pure _ fun d hd => on_mono hd fun f hf => ?_
    obtain ⟨rfl, hfound, _⟩ := hf
    exact ⟨rfl, base_refl, by simp, fun s i hs => hfound _ hs⟩
  | error status =>
    refine holds_ite (fun hother => ?_) (fun hnone => ?_)
    · refine holds_pure _ fun d hd => on_mono hd fun f hf => ?_
      obtain ⟨rfl, _, herror⟩ := hf
      refine ⟨rfl, base_refl, fun he => ?_, by simp⟩
      rcases herror status rfl with rfl | ⟨rfl, _⟩
      · cases he
      · cases he
    · refine holds_known (φ := selected g = none) (fun d hd => ?_) fun hsel => ?_
      · obtain ⟨hg, _, herror⟩ := hd.1
        rcases herror status rfl with rfl | ⟨_, hsel⟩
        · exact absurd (by decide) hnone
        · rw [← hg]
          exact hsel
      · rw [hsel]
        refine holds_conseq (initialiseFactoryState_from hsel)
          (fun d hd => on_mono hd fun f hf => hf.1)
          (fun r d hd => on_mono hd fun f hf => ⟨hf.1, hf.2.1, hf.2.2.1, ?_⟩) fun _ => id
        exact fun s i hs => (hf.2.2.2 s i hs).1

theorem pending_valid {m : OtaManifest.Manifest} (hm : manifestValid m = true) {s : State}
    (h : stateValid s = true) : stateValid (pendingState s (recorded m)) = true := by
  simp only [stateValid, manifestValid, Bool.and_eq_true] at h hm ⊢
  exact ⟨h.1, hm.2⟩

theorem publish_holds (w : Writer) (hm : manifestValid w.manifest = true)
    (before : Option (State × Bool)) (st : ℕ → Image) :
    Holds (Seen fun f cs => Fine cs ∧ selected f = before ∧ f.staging = st) (publish b w)
      (fun r => Seen fun f cs => Fine cs ∧ f.staging = st ∧
        (Base before f ∨ Pending w.manifest f) ∧
        (r.1 = .ok → r.2 = cleared ∧ Ordered w.manifest f cs) ∧ (r.1 ≠ .ok → r.2 = w))
      (Seen fun f cs => Fine cs ∧ f.staging = st ∧ (Base before f ∨ Pending w.manifest f)) := by
  have hload : Holds (Seen fun f cs => Fine cs ∧ selected f = before ∧ f.staging = st)
      (watch (loadOrInitialiseState b.layout b.binary))
      (fun r => Seen fun f cs => Fine cs ∧ f.staging = st ∧ Base before f ∧ r ≠ .error .ok ∧
        ∀ s i, r = .ok (s, i) → selected f = some (s, i))
      (Seen fun f cs => Fine cs ∧ f.staging = st ∧ (Base before f ∨ Pending w.manifest f)) := by
    refine watch_holds fun g cs hg => holds_conseq loadOrInitialiseState_from (fun _ => id)
      (fun r d hd => on_mono hd fun f hf => ?_) fun d hd => cut_mono hd fun f hf => ?_
    · rw [hg.2.1] at hf
      exact ⟨fine_append hg.1 (Or.inl hf.1), hf.1.trans hg.2.2, hf.2⟩
    · rw [hg.2.1] at hf
      exact ⟨fine_append hg.1 (Or.inl hf.1), hf.1.trans hg.2.2, Or.inl hf.2⟩
  refine holds_bind hload fun loaded => ?_
  cases loaded with
  | error status =>
    refine holds_pure _ fun x hx => ⟨hx.1, hx.2.1, Or.inl hx.2.2.1, fun h => ?_, fun _ => rfl⟩
    exact absurd (congrArg Except.error h) hx.2.2.2.1
  | ok found =>
  obtain ⟨s, i⟩ := found
  refine holds_ite (fun _ => ?_) (fun hstable => ?_)
  · exact holds_pure _ fun x hx => ⟨hx.1, hx.2.1, Or.inl hx.2.2.1, by simp, fun _ => rfl⟩
  have hstable := not_not.mp hstable
  have herase : Holds (Seen fun f cs => Fine cs ∧ f.staging = st ∧ Base before f ∧
        selected f = some (s, i)) (watch erasePhase)
      (fun r => Seen fun f cs => Fine cs ∧ f.staging = st ∧ Base before f ∧
        selected f = some (s, i) ∧ (r = .ok → (∀ t, f.journal t = kErased) ∧
          ∃ earlier g, cs = earlier ++ [(g, f)] ∧ selected g = some (s, i)))
      (Seen fun f cs => Fine cs ∧ f.staging = st ∧ (Base before f ∨ Pending w.manifest f)) := by
    refine watch_holds fun g cs hg => holds_conseq (OtaApply.erasePhase_holds
      (K := fun f => f.staging = g.staging ∧ f.record = g.record) fun _ _ h => h)
      (fun d hd => on_mono hd fun f hf => ⟨by rw [hf], by rw [hf]⟩)
      (fun r d hd => on_mono hd fun f hf => ?_) fun d hd => cut_mono hd fun f hf => ?_
    · have hsel : selected f = selected g := by rw [selected, selected, hf.1.2]
      refine ⟨fine_append hg.1 (Or.inl hf.1.1), hf.1.1.trans hg.2.1, ?_, hsel.trans hg.2.2.2,
        fun hr => ⟨hf.2.1 hr, cs, g, rfl, hg.2.2.2⟩⟩
      rw [Base, hsel]
      exact hg.2.2.1
    · have hsel : selected f = selected g := by rw [selected, selected, hf.2]
      refine ⟨fine_append hg.1 (Or.inl hf.1), hf.1.trans hg.2.1, Or.inl ?_⟩
      rw [Base, hsel]
      exact hg.2.2.1
  refine holds_bind (holds_pre herase fun x hx => ⟨hx.1, hx.2.1, hx.2.2.1,
    hx.2.2.2.2 s i rfl⟩) fun erased => ?_
  refine holds_ite (fun hne => ?_) (fun hok => ?_)
  · exact holds_pure _ fun x hx => ⟨hx.1, hx.2.1, Or.inl hx.2.2.1, fun h => absurd h hne,
      fun _ => rfl⟩
  have hok := not_not.mp hok
  have hwrite : Holds (Seen fun f cs => Fine cs ∧ f.staging = st ∧ Base before f ∧
        selected f = some (s, i) ∧ (erased = .ok → (∀ t, f.journal t = kErased) ∧
          ∃ earlier g, cs = earlier ++ [(g, f)] ∧ selected g = some (s, i)))
      (watch (writeState (pendingState s (recorded w.manifest)) i))
      (fun r => Seen fun f cs => Fine cs ∧ f.staging = st ∧
        (Base before f ∨ Pending w.manifest f) ∧ (r = .ok → Ordered w.manifest f cs))
      (Seen fun f cs => Fine cs ∧ f.staging = st ∧ (Base before f ∨ Pending w.manifest f)) := by
    refine watch_holds fun g cs hg => ?_
    obtain ⟨hfine, hst, hbase, hsel, herased⟩ := hg
    obtain ⟨hjournal, earlier, g₀, hcs, hg₀⟩ := herased hok
    have hleft : ∀ f : RpFlash, (f.staging = g.staging ∧ f.journal = g.journal) →
        (selected f = some (s, i) ∨ selected f = some (pendingState s (recorded w.manifest), !i)) →
        Fine (cs ++ [(g, f)]) ∧ f.staging = st ∧ (Base before f ∨ Pending w.manifest f) := by
      intro f hf hor
      refine ⟨fine_append hfine (Or.inl hf.1), hf.1.trans hst, ?_⟩
      rcases hor with hold | hnew
      · rw [Base, hold, ← hsel]
        exact Or.inl hbase
      · refine Or.inr ⟨s, !i, hstable, hnew, ?_⟩
        rw [hf.2]
        exact hjournal
    refine holds_conseq (OtaApply.writeState_holds
      (K := fun f => f.staging = g.staging ∧ f.journal = g.journal) (fun _ _ h => h) (s := s)
      (t := pendingState s (recorded w.manifest)) rfl (pending_valid hm))
      (fun d hd => on_mono hd fun f hf => ?_)
      (fun r d hd => on_mono hd fun f hf => ?_) fun d hd => cut_mono hd fun f hf => ?_
    · subst hf
      exact ⟨hsel, rfl, rfl⟩
    · obtain ⟨h1, h2, h3⟩ := hleft f hf.1 hf.2.1
      refine ⟨h1, h2, h3, fun hr => ⟨earlier, g₀, g, s, i, ?_, hstable, hg₀, hsel, hjournal,
        hf.2.2.1 hr, hf.1.2⟩⟩
      rw [hcs, List.append_assoc, List.singleton_append]
    · exact hleft f hf.1 hf.2
  refine holds_bind hwrite fun status => ?_
  exact holds_pure _ fun x hx => ⟨hx.1, hx.2.1, hx.2.2.1, fun h => ⟨if_pos h, hx.2.2.2 h⟩,
    fun h => if_neg h⟩

structure Checked (b : Build) (w : Writer) : Prop where
  whole : w.header.length = JH_OTA_IMAGE_HEADER_SIZE
  decoded : manifestDecode w.header = .ok w.manifest
  target : w.manifest.target = b.target
  offset : w.manifest.programOffset = b.programOffset
  fits : w.manifest.payloadSize.toNat ≤ b.slotSize
  container : w.containerSize = JH_OTA_IMAGE_HEADER_SIZE+w.manifest.payloadSize.toNat
  verified : manifestVerify w.manifest w.authenticationKey = .ok

def Healthy (f : RpFlash) (w : Writer) (accepted : List UInt8) : Prop :=
  w.containerReceived = JH_OTA_IMAGE_HEADER_SIZE+w.payloadReceived ∧
    ∃ payload, accepted = w.header ++ payload ∧ Kept f w payload

/-- How far an active session has come. A session is lost once a write
consumed payload and failed; it is spent once its digest has been taken. -/
inductive Progress (b : Build) (f : RpFlash) (w : Writer) (accepted : List UInt8) : Prop where
  | header (hready : w.stagingReady = false) (hsettled : Settled f)
      (hheader : w.header = accepted) (hlen : accepted.length < JH_OTA_IMAGE_HEADER_SIZE)
      (hcontainer : w.containerReceived = accepted.length) (hpayload : w.payloadReceived = 0)
      (hpage : w.page = [])
  | refused (hready : w.stagingReady = false)
      (hlen : w.header.length = JH_OTA_IMAGE_HEADER_SIZE)
  | loading (hready : w.stagingReady = true) (hsettled : Settled f) (hchecked : Checked b w)
      (hshort : w.page.length ≤ FLASH_PAGE_SIZE)
      (hpayload : w.payloadReceived ≤ w.manifest.payloadSize.toNat)
      (hdata : Healthy f w accepted ∨
        w.containerReceived < JH_OTA_IMAGE_HEADER_SIZE+w.payloadReceived)
  | spent (hready : w.stagingReady = true) (hlen : w.header.length = JH_OTA_IMAGE_HEADER_SIZE)
      (hcontainer : w.containerReceived = w.containerSize) (hpage : w.page = [])
      (hsha : w.sha256.initialized = false)

structure Session (b : Build) (f : RpFlash) (w : Writer) (key accepted : List UInt8) : Prop where
  keyed : w.authenticationKey = key
  progress : Progress b f w accepted

/-- The container that was accepted is a verified one, and its payload is in
the staging slot. -/
structure Verified (b : Build) (key accepted : List UInt8) (m : OtaManifest.Manifest)
    (f : RpFlash) : Prop where
  decoded : manifestDecode (accepted.take JH_OTA_IMAGE_HEADER_SIZE) = .ok m
  signed : JhSha256.halHmacSha256 key (signedBytes m) = m.signature.toList
  target : m.target = b.target
  offset : m.programOffset = b.programOffset
  nonempty : 0 < m.payloadSize.toNat
  fits : m.payloadSize.toNat ≤ b.slotSize
  length : accepted.length = JH_OTA_IMAGE_HEADER_SIZE+m.payloadSize.toNat
  digested : JhSha256.halSha256 (accepted.drop JH_OTA_IMAGE_HEADER_SIZE) = m.sha256.toList
  stored : (List.range m.payloadSize.toNat).map (stagingByte f) =
    accepted.drop JH_OTA_IMAGE_HEADER_SIZE

theorem verified_staging {key accepted : List UInt8} {m : OtaManifest.Manifest} {f f' : RpFlash}
    (h : Verified b key accepted m f) (hf : f'.staging = f.staging) :
    Verified b key accepted m f' := by
  refine ⟨h.decoded, h.signed, h.target, h.offset, h.nonempty, h.fits, h.length, h.digested, ?_⟩
  rw [← h.stored]
  apply List.map_congr_left
  intro a _
  rw [stagingByte, stagingByte, hf]

theorem valid_nonempty {m : OtaManifest.Manifest} (h : manifestValid m = true) :
    0 < m.payloadSize.toNat := by
  simp only [manifestValid, Bool.and_eq_true, decide_eq_true_eq] at h
  exact UInt32.lt_iff_toNat_lt.mp h.1.2

theorem list_of_getD {payload : List UInt8} (read : ℕ → UInt8)
    (h : ∀ i < payload.length, read i = payload.getD i 0) :
    (List.range payload.length).map read = payload := by
  apply List.ext_getElem (by simp)
  intro i hi hi'
  simp only [List.getElem_map, List.getElem_range, h i hi',
    List.getD_eq_getElem?_getD, List.getElem?_eq_getElem hi', Option.getD_some]

/-- What the writer has checked, once the digest of the payload agrees. -/
theorem checked_verified {w : Writer} {key accepted payload : List UInt8} {f : RpFlash}
    (hc : Checked b w) (hkey : w.authenticationKey = key) (ha : accepted = w.header ++ payload)
    (hsize : payload.length = w.manifest.payloadSize.toNat)
    (hdigest : JhSha256.halSha256 payload = w.manifest.sha256.toList)
    (hstored : ∀ i < payload.length, stagingByte f i = payload.getD i 0) :
    Verified b key accepted w.manifest f := by
  have hvalid := decode_valid hc.decoded
  have htake : accepted.take JH_OTA_IMAGE_HEADER_SIZE = w.header := by
    rw [ha, List.take_left' hc.whole]
  have hdrop : accepted.drop JH_OTA_IMAGE_HEADER_SIZE = payload := by
    rw [ha, List.drop_left' hc.whole]
  refine ⟨?_, ?_, hc.target, hc.offset, valid_nonempty hvalid, hc.fits, ?_, ?_, ?_⟩
  · rw [htake]
    exact hc.decoded
  · rw [← hkey]
    exact verify_ok hvalid hc.verified
  · rw [ha, List.length_append, hc.whole, hsize]
  · rw [hdrop]
    exact hdigest
  · rw [hdrop, ← hsize]
    exact list_of_getD _ hstored

def Outcome (b : Build) (key accepted : List UInt8) (before : Option (State × Bool))
    (f : RpFlash) : Prop :=
  Base before f ∨ ∃ m, Verified b key accepted m f ∧ Pending m f

def Finished (b : Build) (key accepted : List UInt8) (before : Option (State × Bool))
    (r : Status × Writer) (f : RpFlash) (cs : Changes) : Prop :=
  Fine cs ∧ Outcome b key accepted before f ∧
    (r.2.active = true → Session b f r.2 key accepted) ∧
    (r.1 = .ok → ∃ m, Verified b key accepted m f ∧ Ordered m f cs)

theorem final_spent (context : JhSha256.Context) :
    (JhSha256.final context).2.initialized = false := rfl

variable {record : Bool → Option State} {key accepted : List UInt8}

/-- From the comparison of the digests on, a refused update is spent. -/
theorem finish_digest_holds (w : Writer) (before : Option (State × Bool))
    (hm : manifestValid w.manifest = true)
    (hspent : ∀ f, Session b f w key accepted) (st : ℕ → Image)
    (hverified : ∀ f : RpFlash, f.staging = st → Verified b key accepted w.manifest f) :
    Holds (Seen fun f cs => Fine cs ∧ selected f = before ∧ f.staging = st)
      (do
        match ← watch (digestPartition b.layout .staging w.manifest.payloadSize) with
        | .error status => pure (status, w)
        | .ok flashDigest =>
          if flashDigest ≠ w.manifest.sha256.toList then pure (.eio, w) else publish b w)
      (fun r => Seen (Finished b key accepted before r))
      (Seen fun f cs => Fine cs ∧ Outcome b key accepted before f) := by
  have hread : Holds (Seen fun f cs => Fine cs ∧ selected f = before ∧ f.staging = st)
      (watch (digestPartition b.layout .staging w.manifest.payloadSize))
      (fun r => Seen fun f cs => Fine cs ∧ selected f = before ∧ f.staging = st ∧ r ≠ .error .ok)
      (Seen fun f cs => Fine cs ∧ Outcome b key accepted before f) := by
    refine watch_holds fun g cs hg => holds_conseq (OtaLaunch.digestPartition_holds
      (P := fun f => f = g) b.layout .staging w.manifest.payloadSize) (fun _ => id)
      (fun r d hd => on_mono hd fun f hf => ?_) fun d hd => cut_mono hd fun f hf => ?_
    · obtain ⟨rfl, hne, _⟩ := hf
      exact ⟨fine_append hg.1 (Or.inl rfl), hg.2.1, hg.2.2, hne⟩
    · subst hf
      exact ⟨fine_append hg.1 (Or.inl rfl), Or.inl (Or.inl hg.2.1)⟩
  refine holds_bind hread fun flashDigest => ?_
  cases flashDigest with
  | error status =>
    refine holds_pure _ fun x hx => ⟨hx.1, Or.inl (Or.inl hx.2.1), fun _ => hspent _, fun h => ?_⟩
    exact absurd (congrArg Except.error h) hx.2.2.2
  | ok flashDigest =>
    refine holds_ite (fun _ => ?_) (fun _ => ?_)
    · exact holds_pure _ fun x hx => ⟨hx.1, Or.inl (Or.inl hx.2.1), fun _ => hspent _, by simp⟩
    · have houtcome : ∀ f : RpFlash, f.staging = st → Base before f ∨ Pending w.manifest f →
          Outcome b key accepted before f := fun f hst hor =>
        hor.imp id fun hp => ⟨w.manifest, hverified f hst, hp⟩
      refine holds_conseq (publish_holds w hm before st)
        (fun x hx => ⟨hx.1, hx.2.1, hx.2.2.1⟩) (fun r x hx => ?_)
        fun x hx => ⟨hx.1, houtcome _ hx.2.1 hx.2.2⟩
      obtain ⟨hfine, hst, hor, hok, hne⟩ := hx
      refine ⟨hfine, houtcome _ hst hor, fun hactive => ?_,
        fun hr => ⟨w.manifest, hverified _ hst, (hok hr).2⟩⟩
      by_cases hr : r.1 = .ok
      · rw [(hok hr).1] at hactive
        cases hactive
      · rw [hne hr]
        exact hspent _

theorem finish_healthy (w : Writer) (payload : List UInt8) (hactive : w.active = true)
    (hready : w.stagingReady = true) (hkey : w.authenticationKey = key) (hc : Checked b w)
    (ha : accepted = w.header ++ payload) (hcontainer : w.containerReceived = w.containerSize)
    (hpayload : w.payloadReceived = w.manifest.payloadSize.toNat)
    (before : Option (State × Bool)) (hb : ∀ f : RpFlash, f.record = record → selected f = before) :
    Holds (Seen fun f cs => Still record f cs ∧ Kept f w payload) (finish b w)
      (fun r => Seen (Finished b key accepted before r))
      (Seen fun f cs => Fine cs ∧ Outcome b key accepted before f) := by
  rintro x ⟨hstill, done, hs, hshort, hp⟩
  have hguard : ¬ (w.active = false ∨ w.stagingReady = false ∨
      w.containerReceived ≠ w.containerSize ∨
      w.payloadReceived ≠ w.manifest.payloadSize.toNat) := by
    simp [hactive, hready, hcontainer, hpayload]
  have hsize : payload.length = w.manifest.payloadSize.toNat := by
    rw [← hpayload, hs.received, hp, List.length_append]
  rw [finish, if_neg hguard]
  refine holds_bind (holds_conseq (flushPage_holds True w done hshort.le) (fun _ => id)
    (fun _ _ => id) fun y hy => ⟨hy.2.2, Or.inl (Or.inl (hb _ hy.1))⟩) (fun r => ?_) x
    ⟨hstill, fun _ => hs⟩
  obtain ⟨status, w₁⟩ := r
  refine holds_ite (fun hne => ?_) (fun hok => ?_)
  · refine holds_pure _ fun y hy => ⟨hy.1.2.2, Or.inl (Or.inl (hb _ hy.1.1)), fun _ => ?_,
      fun h => absurd h hne⟩
    obtain ⟨rfl, hstored⟩ := hy.2.2.2 hne
    refine ⟨hkey, .loading hready hy.1.2.1 hc hshort.le hpayload.le (Or.inl ⟨?_, payload, ha,
      done, hstored trivial, hshort, hp⟩)⟩
    rw [hcontainer, hc.container, hpayload]
  have hok := not_not.mp hok
  refine holds_known (fun y hy => (hy.2.2.1 hok).1) fun hw => ?_
  subst hw
  have hsha : w.sha256 = JhSha256.update JhSha256.init payload := by rw [hs.hashed, ← hp]
  have hinit : ¬ w.sha256.initialized = false := by
    rw [hsha, absorbed_initialized]
    decide
  dsimp only
  rw [if_neg hinit]
  generalize hfinal : JhSha256.final w.sha256 = final
  obtain ⟨digest, sha256⟩ := final
  have hdigest : digest = JhSha256.halSha256 payload := by
    rw [JhSha256.halSha256, ← hsha, hfinal]
  have hunset : sha256.initialized = false := by
    have := final_spent w.sha256
    rwa [hfinal] at this
  have hspent : ∀ f, Session b f { w with page := [], sha256 := sha256 } key accepted :=
    fun f => ⟨hkey, .spent hready hc.whole hcontainer rfl hunset⟩
  refine holds_ite (fun _ => ?_) (fun hsame => ?_)
  · exact holds_pure _ fun y hy => ⟨hy.1.2.2, Or.inl (Or.inl (hb _ hy.1.1)), fun _ => hspent _,
      by simp⟩
  intro y hy
  refine finish_digest_holds { w with page := [], sha256 := sha256 } before
    (decode_valid hc.decoded) hspent y.device.flash.staging (fun f hf => ?_) y
    ⟨hy.1.2.2, hb _ hy.1.1, rfl⟩
  have hwritten := (hy.2.2.1 hok).2 trivial
  rw [← hp] at hwritten
  have hverified : Verified b key accepted w.manifest y.device.flash :=
    checked_verified hc hkey ha hsize (hdigest ▸ not_not.mp hsame) hwritten
  exact verified_staging hverified hf

theorem checked_frame {w w' : Writer} (h : Checked b w) (hheader : w'.header = w.header)
    (hmanifest : w'.manifest = w.manifest) (hsize : w'.containerSize = w.containerSize)
    (hkey : w'.authenticationKey = w.authenticationKey) : Checked b w' := by
  refine ⟨?_, ?_, ?_, ?_, ?_, ?_, ?_⟩
  · rw [hheader]
    exact h.whole
  · rw [hheader, hmanifest]
    exact h.decoded
  · rw [hmanifest]
    exact h.target
  · rw [hmanifest]
    exact h.offset
  · rw [hmanifest]
    exact h.fits
  · rw [hsize, hmanifest]
    exact h.container
  · rw [hmanifest, hkey]
    exact h.verified

theorem progress_congr {f : RpFlash} {w : Writer} (h : Progress b g w accepted)
    (hs : Settled g → Settled f)
    (hk : ∀ payload, Kept g w payload → Kept f w payload) : Progress b f w accepted := by
  cases h with
  | header hready hsettled hheader hlen hcontainer hpayload hpage =>
    exact .header hready (hs hsettled) hheader hlen hcontainer hpayload hpage
  | refused hready hlen => exact .refused hready hlen
  | loading hready hsettled hchecked hshort hpayload hdata =>
    refine .loading hready (hs hsettled) hchecked hshort hpayload (hdata.imp_left ?_)
    rintro ⟨hc, payload, ha, hkept⟩
    exact ⟨hc, payload, ha, hk payload hkept⟩
  | spent hready hlen hcontainer hpage hsha => exact .spent hready hlen hcontainer hpage hsha

/-- A session that takes a part of its payload. `good` says that no write of
it has failed. -/
theorem writePayload_holds (accepted : List UInt8) (good : Prop) (w : Writer)
    (data payload : List UInt8)
    (hready : w.stagingReady = true) (hc : Checked b w) (hshort : w.page.length ≤ FLASH_PAGE_SIZE)
    (hpayload : w.payloadReceived ≤ w.manifest.payloadSize.toNat)
    (hroom : w.containerReceived+data.length ≤ w.containerSize)
    (hgood : good → w.containerReceived = JH_OTA_IMAGE_HEADER_SIZE+w.payloadReceived ∧
      accepted = w.header ++ payload)
    (hlost : ¬ good → w.containerReceived < JH_OTA_IMAGE_HEADER_SIZE+w.payloadReceived) :
    Holds (Seen fun f cs => Still record f cs ∧ (good → Kept f w payload))
      (writePayload b w data)
      (fun r => Seen fun f cs => Still record f cs ∧
        r.2.authenticationKey = w.authenticationKey ∧
        (r.1 = .ok → Progress b f r.2 (accepted ++ data)) ∧
        (r.1 ≠ .ok → ∀ any, Progress b f r.2 any))
      (Seen fun f cs => Still record f cs) := by
  have hmod : (w.payloadReceived+data.length)%2^32 = w.payloadReceived+data.length := by
    apply Nat.mod_eq_of_lt
    have := hc.fits
    have := hc.container
    have := b.fits
    simp only [Build.slotSize, JH_OTA_IMAGE_HEADER_SIZE] at *
    omega
  rw [writePayload, hmod]
  refine holds_ite (fun hnil => ?_) (fun hnil => ?_)
  · refine holds_pure _ fun x hx => ⟨hx.1, rfl, fun _ => ?_, by simp⟩
    rw [hnil, List.append_nil]
    refine .loading hready hx.1.2.1 hc hshort hpayload ?_
    by_cases hg : good
    · exact Or.inl ⟨(hgood hg).1, payload, (hgood hg).2, hx.2 hg⟩
    · exact Or.inr (hlost hg)
  refine holds_ite (fun hover => ?_) (fun hfits => ?_)
  · refine holds_pure _ fun x hx => ⟨hx.1, rfl, by simp, fun _ any => ?_⟩
    refine .loading hready hx.1.2.1 hc hshort hpayload (Or.inr (hlost fun hg => ?_))
    have hcount := (hgood hg).1
    have hsize := hc.container
    rcases hover with hover | hover
    · rw [hready] at hover
      cases hover
    · omega
  have hfits : w.payloadReceived+data.length ≤ w.manifest.payloadSize.toNat := by
    rw [not_or] at hfits
    omega
  refine holds_bind (consumePayload_holds good (data.length+1) w data payload
    (by split <;> omega) hshort) fun r => ?_
  obtain ⟨status, w₁⟩ := r
  have hframe : ∀ f, Consumed good w payload data status w₁ f →
      w₁.stagingReady = true ∧ w₁.header = w.header ∧ w₁.manifest = w.manifest ∧
        w₁.containerReceived = w.containerReceived ∧
        w₁.authenticationKey = w.authenticationKey ∧ Checked b w₁ := by
    intro f hf
    have h := hf.advanced.frame
    rw [h]
    exact ⟨hready, rfl, rfl, rfl, rfl, checked_frame hc rfl rfl rfl rfl⟩
  refine holds_ite (fun hne => ?_) (fun hok => ?_)
  · refine holds_pure _ fun x hx => ⟨hx.1, (hframe _ hx.2).2.2.2.2.1,
      fun h => absurd h hne, fun _ any => ?_⟩
    obtain ⟨h1, h2, h3, h4, h5, h6⟩ := hframe _ hx.2
    have hmost := hx.2.advanced.atMost
    have hleast := hx.2.advanced.atLeast
    refine .loading h1 hx.1.2.1 h6 hx.2.advanced.short ?_ (Or.inr ?_)
    · rw [h3]
      omega
    · rw [h4]
      by_cases hg : good
      · have := hx.2.partly hne hg hnil
        have := (hgood hg).1
        omega
      · have := hlost hg
        omega
  · have hok := not_not.mp hok
    refine holds_pure _ fun x hx => ⟨hx.1, (hframe _ hx.2).2.2.2.2.1, fun _ => ?_, by simp⟩
    obtain ⟨h1, h2, h3, h4, h5, h6⟩ := hframe _ hx.2
    obtain ⟨hreceived, hkept⟩ := hx.2.whole hok
    have hreceived : w₁.payloadReceived = w.payloadReceived+data.length := hreceived
    refine .loading h1 hx.1.2.1 (checked_frame h6 rfl rfl rfl rfl) hx.2.advanced.short ?_ ?_
    · rw [h3, hreceived]
      exact hfits
    · by_cases hg : good
      · obtain ⟨hcount, ha⟩ := hgood hg
        have hsum : w₁.containerReceived+data.length =
            JH_OTA_IMAGE_HEADER_SIZE+w₁.payloadReceived := by omega
        refine Or.inl ⟨hsum, payload ++ data, ?_, ?_⟩
        · rw [ha, h2, List.append_assoc]
        · obtain ⟨done, hs, hlt, hp⟩ := hkept hg
          exact ⟨done, ⟨hs.received, hs.hashed, hs.aligned, hs.written⟩, hlt, hp⟩
      · have := hlost hg
        have hsum : w₁.containerReceived+data.length <
            JH_OTA_IMAGE_HEADER_SIZE+w₁.payloadReceived := by omega
        exact Or.inr hsum

theorem prepareStaging_ok {w w' : Writer} (h : prepareStaging b w = (.ok, w'))
    (hlen : w.header.length = JH_OTA_IMAGE_HEADER_SIZE) :
    Checked b w' ∧ w' = { w with
      manifest := w'.manifest, sha256 := JhSha256.init, page := [], stagingReady := true } := by
  unfold prepareStaging at h
  cases hd : manifestDecode w.header with
  | error status =>
    simp only [hd, Prod.mk.injEq] at h
    rw [decode_error hd] at h
    cases h.1
  | ok m =>
    simp only [hd] at h
    split at h
    · cases h
    · rename_i hchecks
      split at h
      · rename_i hne
        exact absurd (congrArg Prod.fst h) hne
      · rename_i hverify
        obtain ⟨_, rfl⟩ := Prod.mk.inj h
        simp only [not_or] at hchecks
        obtain ⟨h1, h2, _, h4, h5⟩ := hchecks
        exact ⟨⟨hlen, hd, not_not.mp h1, not_not.mp h2, Nat.not_lt.mp h4, not_not.mp h5,
          not_not.mp hverify⟩, rfl⟩

theorem prepareStaging_frame (w : Writer) :
    (prepareStaging b w).2.header = w.header ∧
      (prepareStaging b w).2.authenticationKey = w.authenticationKey ∧
      ((prepareStaging b w).1 ≠ .ok → (prepareStaging b w).2.stagingReady = w.stagingReady) := by
  unfold prepareStaging
  cases manifestDecode w.header with
  | error status => exact ⟨rfl, rfl, fun _ => rfl⟩
  | ok m =>
    dsimp only
    split
    · exact ⟨rfl, rfl, fun _ => rfl⟩
    · split
      · exact ⟨rfl, rfl, fun _ => rfl⟩
      · exact ⟨rfl, rfl, fun h => absurd rfl h⟩

def Wrote (b : Build) (record : Bool → Option State) (key accepted data : List UInt8)
    (r : Except Status ℕ × Writer) (f : RpFlash) (cs : Changes) : Prop :=
  f.record = record ∧ Fine cs ∧ r.1 ≠ .error .ok ∧ (r.2.active = true → Session b f r.2 key
    (match r.1 with
      | .ok _ => accepted ++ data
      | .error _ => accepted))

/-- The payload part of a write, seen from its caller: `before` was accepted
when the write began, `head` is what its header part took. -/
theorem wrote_payload (good : Prop) (w : Writer) (before head payload : List UInt8)
    {rest : List UInt8}
    (hready : w.stagingReady = true) (hkey : w.authenticationKey = key) (hc : Checked b w)
    (hshort : w.page.length ≤ FLASH_PAGE_SIZE)
    (hpayload : w.payloadReceived ≤ w.manifest.payloadSize.toNat)
    (hroom : w.containerReceived+rest.length ≤ w.containerSize)
    (hgood : good → w.containerReceived = JH_OTA_IMAGE_HEADER_SIZE+w.payloadReceived ∧
      before ++ head = w.header ++ payload)
    (hlost : ¬ good → w.containerReceived < JH_OTA_IMAGE_HEADER_SIZE+w.payloadReceived) (n : ℕ) :
    Holds (Seen fun f cs => Still record f cs ∧ (good → Kept f w payload))
      (do
        let (status, w) ← writePayload b w rest
        if status ≠ .ok then pure (.error status, w) else pure (.ok n, w))
      (fun r => Seen (Wrote b record key before (head ++ rest) r))
      (Seen fun f cs => Still record f cs) := by
  refine holds_bind (writePayload_holds (before ++ head) good w rest payload hready hc
    hshort hpayload hroom hgood hlost) fun r => ?_
  obtain ⟨status, w₁⟩ := r
  refine holds_ite (fun hne => ?_) (fun hok => ?_)
  · exact holds_pure _ fun x hx => ⟨hx.1.1, hx.1.2.2, fun h => hne (Except.error.inj h),
      fun _ => ⟨hx.2.1.trans hkey, hx.2.2.2 hne before⟩⟩
  · refine holds_pure _ fun x hx => ⟨hx.1.1, hx.1.2.2, by simp,
      fun _ => ⟨hx.2.1.trans hkey, ?_⟩⟩
    have hp := hx.2.2.1 (not_not.mp hok)
    rwa [List.append_assoc] at hp

theorem header_short {w : Writer} {data : List UInt8}
    (h : w.header.length < JH_OTA_IMAGE_HEADER_SIZE)
    (hd : data.length < JH_OTA_IMAGE_HEADER_SIZE-w.header.length) :
    writeHeader b w data = (.ok, { w with
      header := w.header ++ data, containerReceived := w.containerReceived+data.length }, []) := by
  have hmin : min data.length (JH_OTA_IMAGE_HEADER_SIZE-w.header.length) = data.length := by omega
  have hopen : ¬ (w.header ++ data).length = JH_OTA_IMAGE_HEADER_SIZE := by
    rw [List.length_append]
    omega
  simp only [writeHeader, if_pos h, hmin, List.take_length, List.drop_length, if_neg hopen]

def headed (w : Writer) (head : List UInt8) : Writer :=
  { w with header := w.header ++ head, containerReceived := w.containerReceived+head.length }

theorem header_full {w : Writer} {head rest : List UInt8}
    (h : w.header.length < JH_OTA_IMAGE_HEADER_SIZE)
    (hd : head.length = JH_OTA_IMAGE_HEADER_SIZE-w.header.length) :
    writeHeader b w (head ++ rest) =
      ((prepareStaging b (headed w head)).1, (prepareStaging b (headed w head)).2, rest) := by
  have hmin : min (head ++ rest).length (JH_OTA_IMAGE_HEADER_SIZE-w.header.length) =
      head.length := by
    rw [List.length_append]
    omega
  have hfull : (w.header ++ head).length = JH_OTA_IMAGE_HEADER_SIZE := by
    rw [List.length_append]
    omega
  simp only [writeHeader, if_pos h, hmin, List.take_left, List.drop_left, if_pos hfull]
  rfl

theorem header_split {w : Writer} {data : List UInt8}
    (hd : JH_OTA_IMAGE_HEADER_SIZE-w.header.length ≤ data.length) :
    ∃ head rest, data = head ++ rest ∧
      head.length = JH_OTA_IMAGE_HEADER_SIZE-w.header.length := by
  refine ⟨data.take (JH_OTA_IMAGE_HEADER_SIZE-w.header.length), data.drop _,
    (List.take_append_drop _ data).symm, ?_⟩
  rw [List.length_take, Nat.min_eq_left hd]

theorem write_header_holds (w : Writer) (head rest : List UInt8)
    (hready : w.stagingReady = false) (hkey : w.authenticationKey = key)
    (hheader : w.header = accepted) (hlen : accepted.length < JH_OTA_IMAGE_HEADER_SIZE)
    (hcontainer : w.containerReceived = accepted.length) (hpayload : w.payloadReceived = 0)
    (hd : head.length = JH_OTA_IMAGE_HEADER_SIZE-w.header.length)
    (hroom : w.containerReceived+(head ++ rest).length ≤ w.containerSize) :
    Holds (Seen fun f cs => Still record f cs)
      (writeRest b (head ++ rest).length (writeHeader b w (head ++ rest)))
      (fun r => Seen (Wrote b record key accepted (head ++ rest) r))
      (Seen fun f cs => f.record = record ∧ Fine cs) := by
  have hshort : w.header.length < JH_OTA_IMAGE_HEADER_SIZE := by
    rw [hheader]
    exact hlen
  have hwhole : (headed w head).header.length = JH_OTA_IMAGE_HEADER_SIZE := by
    simp only [headed, List.length_append]
    omega
  rw [header_full hshort hd]
  obtain ⟨hframe, hauth, hunready⟩ := prepareStaging_frame (b := b) (headed w head)
  generalize hprepare : prepareStaging b (headed w head) = prepared at hframe hauth hunready ⊢
  obtain ⟨status, w₁⟩ := prepared
  refine holds_ite (fun hne => ?_) (fun hok => ?_)
  · refine holds_pure _ fun x hx => ⟨hx.1, hx.2.2, fun h => hne (Except.error.inj h),
      fun _ => ⟨hauth.trans hkey, .refused ?_ ?_⟩⟩
    · exact (hunready hne).trans hready
    · exact (congrArg List.length hframe).trans hwhole
  · have hok : status = .ok := not_not.mp hok
    subst hok
    obtain ⟨hchecked, hw₁⟩ := prepareStaging_ok hprepare hwhole
    have hpage : w₁.page = [] := by rw [hw₁]
    have hsha : w₁.sha256 = JhSha256.init := by rw [hw₁]
    have hcount : w₁.payloadReceived = 0 := by
      rw [hw₁]
      exact hpayload
    have hreceived : w₁.containerReceived = w.containerReceived+head.length := by
      rw [hw₁]
      rfl
    have hsize : w₁.containerSize = w.containerSize := by
      rw [hw₁]
      rfl
    have hready₁ : w₁.stagingReady = true := by rw [hw₁]
    have hheader₁ : w₁.header = accepted ++ head := by
      rw [hw₁, ← hheader]
      rfl
    have hkept : ∀ f, Kept f w₁ [] := by
      refine fun f => ⟨[], ⟨?_, ?_, by decide, by simp⟩, ?_, ?_⟩
      · simp [hcount, hpage]
      · rw [hpage, hsha]
        rfl
      · rw [hpage]
        decide
      · rw [hpage]
        rfl
    refine holds_conseq (wrote_payload True w₁ accepted _ _ hready₁
      (hauth.trans hkey) hchecked (by rw [hpage]; exact Nat.zero_le _) (by omega) ?_
      (fun _ => ⟨?_, ?_⟩) (fun h => absurd trivial h) _) (fun x hx => ⟨hx, fun _ => hkept _⟩)
      (fun r x hx => hx) fun x hx => ⟨hx.1, hx.2.2⟩
    · rw [List.length_append] at hroom
      omega
    · rw [hreceived, hcount, hcontainer, ← hheader]
      omega
    · rw [hheader₁, List.append_nil]

theorem write_holds (record : Bool → Option State) (key accepted : List UInt8) (w : Writer)
    (data : List UInt8) :
    Holds (Seen fun f cs => f.record = record ∧ Fine cs ∧
        (w.active = true → Session b f w key accepted)) (OtaWriter.write b w data)
      (fun r => Seen (Wrote b record key accepted data r))
      (Seen fun f cs => f.record = record ∧ Fine cs) := by
  rintro x ⟨hrecord, hfine, hsession⟩
  rw [OtaWriter.write]
  by_cases hbad : w.active = false ∨ data = [] ∨ w.containerSize-w.containerReceived < data.length
  · rw [if_pos hbad]
    exact ⟨hrecord, hfine, by simp, hsession⟩
  rw [if_neg hbad]
  simp only [not_or, Bool.not_eq_false] at hbad
  obtain ⟨hactive, hdata, hover⟩ := hbad
  have hpos : 0 < data.length := List.length_pos_iff.mpr hdata
  have hroom : w.containerReceived+data.length ≤ w.containerSize := by omega
  obtain ⟨hkey, hprogress⟩ := hsession hactive
  cases hprogress with
  | refused hready hlen =>
    have hheader : writeHeader b w data = (.ok, w, data) := by
      rw [writeHeader, if_neg (by omega)]
    have hpayload : writePayload b w data = pure (.eoverflow, w) := by
      rw [writePayload, if_neg hdata, if_pos (Or.inl hready)]
    rw [hheader, writeRest, if_neg (by simp), hpayload]
    exact ⟨hrecord, hfine, by simp, fun _ => ⟨hkey, .refused hready hlen⟩⟩
  | spent hready hlen hcontainer hpage hsha => omega
  | loading hready hsettled hchecked hshort hpayload hloaded =>
    have hheader : writeHeader b w data = (.ok, w, data) := by
      rw [writeHeader, if_neg (by rw [hchecked.whole]; omega)]
    rw [hheader, writeRest, if_neg (by simp)]
    rcases hloaded with ⟨hcount, payload, ha, hkept⟩ | hlost
    · exact holds_conseq (wrote_payload True w accepted [] _ hready hkey
        hchecked hshort hpayload hroom (fun _ => ⟨hcount, by rw [List.append_nil, ha]⟩)
        (fun h => absurd trivial h) data.length) (fun _ => id) (fun _ _ => id)
        (fun y hy => ⟨hy.1, hy.2.2⟩) x ⟨⟨hrecord, hsettled, hfine⟩, fun _ => hkept⟩
    · exact holds_conseq (wrote_payload False w accepted [] []
        hready hkey hchecked hshort hpayload hroom False.elim (fun _ => hlost) data.length)
        (fun _ => id) (fun _ _ => id) (fun y hy => ⟨hy.1, hy.2.2⟩) x
        ⟨⟨hrecord, hsettled, hfine⟩, False.elim⟩
  | header hready hsettled hheader hlen hcontainer hpayload hpage =>
    by_cases hfull : JH_OTA_IMAGE_HEADER_SIZE-w.header.length ≤ data.length
    · obtain ⟨head, rest, rfl, hhead⟩ := header_split hfull
      exact write_header_holds (b := b) w head rest hready hkey hheader hlen hcontainer hpayload hhead
        hroom x ⟨hrecord, hsettled, hfine⟩
    · have hsum : (accepted ++ data).length < JH_OTA_IMAGE_HEADER_SIZE := by
        rw [List.length_append, ← hheader]
        omega
      rw [header_short (by rw [hheader]; exact hlen) (by omega)]
      refine ⟨hrecord, hfine, by simp,
        fun _ => ⟨hkey, .header hready hsettled ?_ hsum ?_ hpayload hpage⟩⟩
      · exact congrArg (· ++ data) hheader
      · rw [List.length_append, ← hcontainer]

theorem finish_holds (key accepted : List UInt8) (before : Option (State × Bool)) (w : Writer) :
    Holds (Seen fun f cs => selected f = before ∧ Fine cs ∧
        (w.active = true → Session b f w key accepted)) (OtaWriter.finish b w)
      (fun r => Seen (Finished b key accepted before r))
      (Seen fun f cs => Fine cs ∧ Outcome b key accepted before f) := by
  rintro x ⟨hsel, hfine, hsession⟩
  by_cases hbad : w.active = false ∨ w.stagingReady = false ∨
      w.containerReceived ≠ w.containerSize ∨ w.payloadReceived ≠ w.manifest.payloadSize.toNat
  · rw [OtaWriter.finish, if_pos hbad]
    exact ⟨hfine, Or.inl (Or.inl hsel), hsession, by simp⟩
  have hgood := hbad
  simp only [not_or, Bool.not_eq_false, not_not] at hgood
  obtain ⟨hactive, hready, hcontainer, hpayload⟩ := hgood
  obtain ⟨hkey, hprogress⟩ := hsession hactive
  cases hprogress with
  | header hnot => rw [hready] at hnot; cases hnot
  | refused hnot => rw [hready] at hnot; cases hnot
  | spent _ hlen _ hpage hsha =>
    rw [OtaWriter.finish, if_neg hbad, flushPage, if_pos hpage]
    simp only [bind, pure, ne_eq, not_true_eq_false, hsha]
    exact ⟨hfine, Or.inl (Or.inl hsel), fun _ => ⟨hkey, .spent hready hlen hcontainer hpage hsha⟩,
      by simp⟩
  | loading _ hsettled hchecked hshort _ hloaded =>
    rcases hloaded with ⟨_, payload, ha, hkept⟩ | hlost
    · exact finish_healthy w payload hactive hready hkey hchecked ha hcontainer hpayload before
        (fun f hf => by rw [← hsel, selected, selected, hf]) x
        ⟨⟨rfl, hsettled, hfine⟩, hkept⟩
    · have := hchecked.container
      omega

theorem begin_holds (w : Writer) (g : RpFlash) (containerSize : UInt32)
    (authenticationKey : List UInt8) :
    Holds (Seen fun f cs => f = g ∧ Fine cs) (OtaWriter.begin w containerSize authenticationKey)
      (fun r => Seen fun f cs => f = g ∧ Fine cs ∧ (r.1 ≠ .ok → r.2 = w) ∧
        (r.1 = .ok → Session b f r.2 authenticationKey []))
      (Seen fun f cs => f = g ∧ Fine cs) := by
  refine holds_ite (fun _ => ?_) (fun _ => ?_)
  · refine holds_pure _ fun x hx => ⟨hx.1, hx.2, fun _ => rfl, fun h => ?_⟩
    dsimp only at h
    split at h <;> cases h
  have hload : Holds (Seen fun f cs => f = g ∧ Fine cs) (watch loadState)
      (fun r => Seen fun f cs => f = g ∧ Fine cs ∧
        (∀ s, r = .ok s → selected f = some s) ∧
        ∀ status, r = .error status → status = .eio ∨ status = .enoent ∧ selected f = none)
      (Seen fun f cs => f = g ∧ Fine cs) := by
    refine watch_holds fun g' cs hg => holds_conseq (OtaLaunch.loadState_holds
      (P := fun f => f = g')) (fun _ => id) (fun r d hd => on_mono hd fun f hf => ?_)
      fun d hd => cut_mono hd fun f hf => ?_
    · obtain ⟨rfl, hf⟩ := hf
      exact ⟨hg.1, fine_append hg.2 (Or.inl rfl), hf⟩
    · subst hf
      exact ⟨hg.1, fine_append hg.2 (Or.inl rfl)⟩
  have hstart : ∀ f, Settled f → Session b f { cleared with
      active := true, containerSize := containerSize.toNat
      authenticationKey := authenticationKey } authenticationKey [] := fun f hf =>
    ⟨rfl, .header rfl hf rfl (by decide) rfl rfl rfl⟩
  refine holds_bind hload fun loaded => ?_
  cases loaded with
  | ok found =>
    obtain ⟨state, i⟩ := found
    refine holds_ite (fun _ => ?_) (fun hstable => ?_)
    · exact holds_pure _ fun x hx => ⟨hx.1, hx.2.1, fun _ => rfl, by simp⟩
    · refine holds_pure _ fun x hx => ⟨hx.1, hx.2.1, by simp, fun _ => hstart _ fun s j hs => ?_⟩
      rw [hx.2.2.1 _ rfl] at hs
      obtain ⟨rfl, _⟩ := Prod.mk.inj (Option.some.inj hs)
      exact not_not.mp hstable
  | error status =>
    refine holds_ite (fun _ => ?_) (fun henoent => ?_)
    · refine holds_pure _ fun x hx => ⟨hx.1, hx.2.1, fun _ => rfl, fun h => ?_⟩
      rcases hx.2.2.2 status rfl with rfl | ⟨rfl, _⟩
      · cases h
      · cases h
    · refine holds_pure _ fun x hx => ⟨hx.1, hx.2.1, by simp, fun _ => hstart _ fun s j hs => ?_⟩
      rcases hx.2.2.2 status rfl with rfl | ⟨_, hnone⟩
      · exact absurd (by decide) henoent
      · rw [hnone] at hs
        cases hs

/-- Confirming a trial never touches the staging slot, nor a settled flash. -/
theorem confirmBoot_from :
    From g confirmBoot (fun _ f => f.staging = g.staging ∧ (Settled g → f = g))
      (fun f => f.staging = g.staging ∧ (Settled g → f = g)) := by
  refine holds_bind (holds_conseq (OtaLaunch.loadState_holds (P := fun f => f = g)) (fun _ => id)
    (fun _ _ => id) fun d hd => cut_mono hd fun f hf => ?_) fun loaded => ?_
  · subst hf
    exact ⟨rfl, fun _ => rfl⟩
  cases loaded with
  | error status =>
    refine holds_pure _ fun d hd => on_mono hd fun f hf => ?_
    obtain ⟨rfl, _⟩ := hf
    exact ⟨rfl, fun _ => rfl⟩
  | ok found =>
    obtain ⟨state, i⟩ := found
    refine holds_ite (fun _ => ?_) (fun _ => holds_ite (fun _ => ?_) (fun htrial => ?_))
    · refine holds_pure _ fun d hd => on_mono hd fun f hf => ?_
      obtain ⟨rfl, _⟩ := hf
      exact ⟨rfl, fun _ => rfl⟩
    · refine holds_pure _ fun d hd => on_mono hd fun f hf => ?_
      obtain ⟨rfl, _⟩ := hf
      exact ⟨rfl, fun _ => rfl⟩
    · refine holds_known (φ := ¬ Settled g) (fun d hd hsettled => ?_) fun hunsettled => ?_
      · obtain ⟨hg, hfound, _⟩ := hd.1
        rw [hg] at hfound
        have hmode := hsettled state i (hfound _ rfl)
        rw [not_not.mp htrial] at hmode
        cases hmode
      · refine holds_conseq (OtaApply.writeState_holds
          (K := fun f : RpFlash => f.staging = g.staging) (fun _ _ h => h)
          (t := { nextState state .stable with attempts := 0 }) rfl
          fun h => OtaApply.valid_nextState .stable h)
          (fun d hd => on_mono hd fun f hf => ⟨hf.2.1 _ rfl, by rw [hf.1]⟩)
          (fun r d hd => on_mono hd fun f hf => ⟨hf.1, fun h => absurd h hunsettled⟩)
          fun d hd => cut_mono hd fun f hf => ⟨hf.1, fun h => absurd h hunsettled⟩

theorem kept_staging {f : RpFlash} {w : Writer} {payload : List UInt8} (h : Kept g w payload)
    (hf : f.staging = g.staging) : Kept f w payload := by
  obtain ⟨done, hs, hlt, hp⟩ := h
  refine ⟨done, ⟨hs.received, hs.hashed, hs.aligned, fun i hi => ?_⟩, hlt, hp⟩
  rw [← hs.written i hi, stagingByte, stagingByte, hf]

structure Inv (b : Build) (u : Updater) : Prop where
  fine : Fine u.watched.changes
  session : u.writer.active = true → Session b u.flash u.writer u.key u.accepted

structure Performed (b : Build) (call : Call) (u : Updater) (r : Status × Writer) (f : RpFlash)
    (cs : Changes) : Prop where
  fine : Fine cs
  outcome : Settled u.flash → Outcome b u.key u.accepted (selected u.flash) f
  session : r.2.active = true →
    Session b f r.2 (u.note r.1 call).key (u.note r.1 call).accepted
  finished : call = .finish → r.1 = .ok → ∃ m, Verified b u.key u.accepted m f ∧ Ordered m f cs

theorem outcome_refl {f : RpFlash} (h : f.record = g.record) :
    Outcome b key accepted (selected g) f :=
  Or.inl (Or.inl (by rw [selected, selected, h]))

theorem perform_holds (u : Updater) (hinv : Inv b u) (call : Call) :
    Holds (fun x => x = u.watched) (perform b u.writer call)
      (fun r => Seen (Performed b call u r))
      (Seen fun f cs => Fine cs ∧
        (Settled u.flash → Outcome b u.key u.accepted (selected u.flash) f)) := by
  obtain ⟨hfine, hsession⟩ := hinv
  cases call with
  | begin containerSize authenticationKey =>
    refine holds_conseq (begin_holds (b := b) u.writer u.flash containerSize authenticationKey)
      (fun x hx => ?_) (fun r x hx => ?_) fun x hx => ?_
    · subst hx
      exact ⟨rfl, hfine⟩
    · obtain ⟨hf, hcs, hne, hok⟩ := hx
      refine ⟨hcs, fun _ => outcome_refl (by rw [hf]), fun hactive => ?_, by simp⟩
      by_cases hr : r.1 = .ok
      · rw [Updater.note, if_pos hr]
        exact hok hr
      · rw [hne hr] at hactive ⊢
        rw [Updater.note, if_neg hr, hf]
        exact hsession hactive
    · exact ⟨hx.2, fun _ => outcome_refl (by rw [hx.1])⟩
  | write data =>
    refine holds_bind (holds_conseq (write_holds u.flash.record u.key u.accepted
      u.writer data) (fun x hx => ?_) (fun _ _ => id)
      fun x hx => ⟨hx.2, fun _ => outcome_refl hx.1⟩) fun r => ?_
    · subst hx
      exact ⟨rfl, hfine, hsession⟩
    · obtain ⟨written, w⟩ := r
      cases written with
      | ok n =>
        exact holds_pure _ fun x hx => ⟨hx.2.1, fun _ => outcome_refl hx.1, hx.2.2.2, by simp⟩
      | error status =>
        refine holds_pure _ fun x hx => ⟨hx.2.1, fun _ => outcome_refl hx.1, ?_, by simp⟩
        have hne : status ≠ .ok := fun h => hx.2.2.1 (congrArg Except.error h)
        rw [Updater.note, if_neg hne]
        exact hx.2.2.2
  | finish =>
    refine holds_conseq (finish_holds u.key u.accepted (selected u.flash)
      u.writer) (fun x hx => ?_) (fun r x hx => ?_)
      fun x hx => ⟨hx.1, fun _ => hx.2⟩
    · subst hx
      exact ⟨rfl, hfine, hsession⟩
    · exact ⟨hx.1, fun _ => hx.2.1, hx.2.2.1, fun _ => hx.2.2.2⟩
  | abort =>
    refine holds_pure _ fun x hx => ?_
    subst hx
    exact ⟨hfine, fun _ => outcome_refl rfl, (fun h => by cases h), by simp⟩
  | confirmBoot =>
    have hwatch : Holds (Seen fun f cs => f = u.flash ∧ Fine cs) (watch confirmBoot)
        (fun _ => Seen fun f cs => Fine cs ∧ f.staging = u.flash.staging ∧
          (Settled u.flash → f = u.flash))
        (Seen fun f cs => Fine cs ∧
          (Settled u.flash → Outcome b u.key u.accepted (selected u.flash) f)) := by
      refine watch_holds fun g cs hg => ?_
      obtain ⟨rfl, hcs⟩ := hg
      refine holds_conseq confirmBoot_from (fun _ => id)
        (fun r d hd => on_mono hd fun f hf => ⟨fine_append hcs (Or.inl hf.1), hf⟩)
        fun d hd => cut_mono hd fun f hf => ⟨fine_append hcs (Or.inl hf.1), fun h => ?_⟩
      exact outcome_refl (by rw [hf.2 h])
    refine holds_bind (holds_pre hwatch fun x hx => ?_) fun status => ?_
    · subst hx
      exact ⟨rfl, hfine⟩
    · refine holds_pure _ fun x hx => ⟨hx.1, fun h => outcome_refl (by rw [hx.2.2 h]),
        fun hactive => ?_, by simp⟩
      obtain ⟨hkey, hprogress⟩ := hsession hactive
      refine ⟨hkey, progress_congr hprogress (fun h => ?_) fun payload h => ?_⟩
      · rw [hx.2.2 h]
        exact h
      · exact kept_staging h hx.2.1

theorem note_frame (u : Updater) (x : Watched) (w : Writer) (status : Status) (call : Call) :
    { u with watched := x, writer := w }.note status call =
      { u.note status call with watched := x, writer := w } := by
  cases call with
  | begin _ _ => simp only [Updater.note]; split <;> rfl
  | write _ => simp only [Updater.note]; split <;> rfl
  | finish => rfl
  | abort => rfl
  | confirmBoot => rfl

theorem invoke_left {call : Call} {u u' : Updater} {reply : Option Status} (hinv : Inv b u)
    (h : invoke b call u = (reply, u')) :
    Inv b u' ∧ (Settled u.flash → Outcome b u.key u.accepted (selected u.flash) u'.flash) ∧
      (call = .finish → reply = some .ok → ∃ m, Verified b u.key u.accepted m u'.flash ∧
        Ordered m u'.flash u'.watched.changes) := by
  have hp := perform_holds u hinv call u.watched rfl
  rw [invoke] at h
  rcases hr : perform b u.writer call u.watched with ⟨_ | ⟨status, w⟩, x⟩
  · simp only [hr] at hp h
    obtain ⟨rfl, rfl⟩ := Prod.mk.inj h
    exact ⟨⟨hp.1, fun hactive => by cases hactive⟩, hp.2, by simp⟩
  · simp only [hr] at hp h
    obtain ⟨rfl, rfl⟩ := Prod.mk.inj h
    rw [note_frame]
    refine ⟨⟨hp.fine, hp.session⟩, hp.outcome, fun hcall hreply => ?_⟩
    exact hp.finished hcall (Option.some.inj hreply)

theorem reached_inv {u : Updater} (h : Reached b u) : Inv b u := by
  induction h with
  | boot d => exact ⟨fun c hc => (by cases hc), fun hactive => by cases hactive⟩
  | call u u' call status _ hi ih => exact (invoke_left ih hi).1

/-- A finished update left a verified container in the staging slot and erased
the journal before it wrote the record. Until that record is complete, a
settled boot state is still selected, or the first record of all; and the
staging slot is only ever modified in a settled flash. -/
theorem update_sound (b : Build) (call : Call) (u u' : Updater) (reply : Option Status)
    (hu : Reached b u) (h : invoke b call u = (reply, u')) :
    (call = .finish → reply = some .ok → ∃ m, Verified b u.key u.accepted m u'.flash ∧
      Ordered m u'.flash u'.watched.changes) ∧
    (Settled u.flash → Base (selected u.flash) u'.flash ∨
      ∃ m, Verified b u.key u.accepted m u'.flash ∧ Pending m u'.flash) ∧
    ∀ c ∈ u'.watched.changes, c.2.staging ≠ c.1.staging → Settled c.1 := by
  obtain ⟨hinv, houtcome, hfinish⟩ := invoke_left (reached_inv hu) h
  exact ⟨hfinish, houtcome, hinv.fine⟩

def sampleFirst : List UInt8 :=
  [74, 72, 79, 84, 65, 49, 13, 10, 1, 0, 160, 0, 1, 0, 0, 0, 0, 64, 0, 0, 1, 0, 0, 0, 7, 0, 0, 0,
   0, 0, 0, 0, 187, 238, 189, 135, 158, 29, 255, 105, 24, 84, 109, 192, 193, 121, 253, 222, 80,
   95, 42, 33, 89, 28, 154, 156, 150, 227, 107, 5, 78, 197, 175, 131, 116, 101, 115, 116, 0, 0,
   0, 0, 0, 0, 0, 0, 0, 0, 0, 0, 0, 0, 0, 0, 0, 0, 0, 0, 0, 0, 0, 0, 0, 0, 0, 0, 4, 41, 209, 57]

def sampleSecond : List UInt8 :=
  [28, 86, 160, 55, 164, 122, 44, 103, 54, 87, 0, 247, 66, 231, 0, 3, 6, 177, 86, 47, 245, 127,
   53, 180, 209, 172, 172, 76, 0, 0, 0, 0, 0, 0, 0, 0, 0, 0, 0, 0, 0, 0, 0, 0, 0, 0, 0, 0, 0, 0,
   0, 0, 0, 0, 0, 0, 15, 41, 134, 186]

def sampleKey : List UInt8 := [115, 101, 99, 114, 101, 116]

def sampleManifest : OtaManifest.Manifest :=
  { target := 1, flags := 0, programOffset := 0x4000, payloadSize := 1, generation := 7
    sha256 := loadArray (sampleFirst ++ sampleSecond) 32
    version := loadArray (sampleFirst ++ sampleSecond) 64
    signature := loadArray (sampleFirst ++ sampleSecond) 96 }

/-- The check sum of the header, 26 bytes at a time. -/
theorem sample_crc : HalCrc.crc32 ((sampleFirst ++ sampleSecond).take kImageCrcOffset) = 0xba86290f := by
  have hsplit : (sampleFirst ++ sampleSecond).take kImageCrcOffset =
      (sampleFirst ++ sampleSecond).take 26 ++ ((sampleFirst ++ sampleSecond).drop 26).take 26 ++ ((sampleFirst ++ sampleSecond).drop 52).take 26 ++
      ((sampleFirst ++ sampleSecond).drop 78).take 26 ++ ((sampleFirst ++ sampleSecond).drop 104).take 26 ++
      ((sampleFirst ++ sampleSecond).drop 130).take 26 := by decide +kernel
  have h1 : ((sampleFirst ++ sampleSecond).take 26).foldl HalCrc.crc32Byte 0xFFFFFFFF = 0xb465eeef := by decide +kernel
  have h2 : (((sampleFirst ++ sampleSecond).drop 26).take 26).foldl HalCrc.crc32Byte 0xb465eeef = 0x2a6050c7 := by decide +kernel
  have h3 : (((sampleFirst ++ sampleSecond).drop 52).take 26).foldl HalCrc.crc32Byte 0x2a6050c7 = 0xb06939f6 := by decide +kernel
  have h4 : (((sampleFirst ++ sampleSecond).drop 78).take 26).foldl HalCrc.crc32Byte 0xb06939f6 = 0xa1a6d2be := by decide +kernel
  have h5 : (((sampleFirst ++ sampleSecond).drop 104).take 26).foldl HalCrc.crc32Byte 0xa1a6d2be = 0x82e5795e := by
    decide +kernel
  have h6 : (((sampleFirst ++ sampleSecond).drop 130).take 26).foldl HalCrc.crc32Byte 0x82e5795e = 0x4579d6f0 := by
    decide +kernel
  have hne : ((sampleFirst ++ sampleSecond).take kImageCrcOffset).isEmpty = false := by decide
  rw [HalCrc.crc32, if_neg (by rw [hne]; decide), hsplit]
  simp only [List.foldl_append, h1, h2, h3, h4, h5, h6]
  decide

theorem sample_decoded : manifestDecode (sampleFirst ++ sampleSecond) = .ok sampleManifest := by
  have hmagic : (sampleFirst ++ sampleSecond).take kImageMagic.length = kImageMagic := by decide
  have hversion : loadLe16 (ofList (sampleFirst ++ sampleSecond)) 8 = JH_OTA_IMAGE_VERSION := by decide
  have hsize : loadLe16 (ofList (sampleFirst ++ sampleSecond)) 10 = UInt16.ofNat JH_OTA_IMAGE_HEADER_SIZE := by
    decide
  have htext : ¬ textValid (slice (ofList (sampleFirst ++ sampleSecond)) 64 JH_OTA_VERSION_TEXT_SIZE) = false := by
    decide
  have hcrc : loadLe32 (ofList (sampleFirst ++ sampleSecond)) kImageCrcOffset =
      HalCrc.crc32 ((sampleFirst ++ sampleSecond).take kImageCrcOffset) := by
    rw [sample_crc]
    decide
  have hvalid : manifestValid sampleManifest = true := by decide
  rw [manifestDecode, if_neg (by simp only [not_or, not_not]; exact ⟨hmagic, hversion, hsize,
    htext, hcrc⟩)]
  exact if_pos hvalid

def sampleBlock : List UInt8 := sampleKey ++ List.replicate (64-sampleKey.length) 0

def sampleInner : JhSha256.Words :=
  ⟨0xb8c3576, 0xf988b6b, 0x95fd95ab, 0x58baa939,
    0x9f90e81, 0x9b17d05c, 0xbfda50dd, 0x5e4c7acc⟩

/-- The digests of the signature and of the payload, a block at a time. -/
theorem sample_digests :
    JhSha256.halSha256 (sampleBlock.map (· ^^^ 0x36) ++ signedBytes sampleManifest) =
      JhSha256.digestBytes sampleInner ∧
    JhSha256.halSha256 (sampleBlock.map (· ^^^ 0x5c) ++ JhSha256.digestBytes sampleInner) =
      sampleManifest.signature.toList ∧
    JhSha256.halSha256 [90] = sampleManifest.sha256.toList := by
  refine ⟨?_, ?_, ?_⟩
  · rw [JhSha256.halSha256_blocks (n := 3) (by decide +kernel),
      JhSha256.blocks_step (t := ⟨0x72804f31, 0xb0420168, 0x4d3dea2, 0xf4e991a2,
        0x1b1c8906, 0xbe161594, 0xb202fb74, 0xafc8ceb3⟩) (by decide +kernel),
      JhSha256.blocks_step (t := ⟨0x711f673e, 0x426c8c40, 0xf25dc969, 0xf53df62d,
        0xcd4441df, 0x3525dd85, 0xff26e4a0, 0x53dfc82e⟩) (by decide +kernel),
      JhSha256.blocks_step (t := sampleInner) (by decide +kernel)]
    rfl
  · rw [JhSha256.halSha256_blocks (n := 2) (by decide +kernel),
      JhSha256.blocks_step (t := ⟨0x5a84072a, 0xab37d222, 0x75b139ad, 0xf7a92564,
        0xc7f674be, 0x98e77d99, 0x1f6f689d, 0x29e05245⟩) (by decide +kernel),
      JhSha256.blocks_step (t := ⟨0x429d139, 0x1c56a037, 0xa47a2c67, 0x365700f7,
        0x42e70003, 0x6b1562f, 0xf57f35b4, 0xd1acac4c⟩) (by decide +kernel)]
    decide +kernel
  · rw [JhSha256.halSha256_blocks (n := 1) (by decide),
      JhSha256.blocks_step (t := ⟨0xbbeebd87, 0x9e1dff69, 0x18546dc0, 0xc179fdde,
        0x505f2a21, 0x591c9a9c, 0x96e36b05, 0x4ec5af83⟩) (by decide +kernel)]
    decide +kernel

theorem sample_verified : manifestVerify sampleManifest sampleKey = .ok := by
  have htag : JhSha256.halHmacSha256 sampleKey (signedBytes sampleManifest) =
      sampleManifest.signature.toList := by
    rw [← sample_digests.2.1, ← sample_digests.1]
    exact JhSha256.halHmacSha256_nested sampleKey _ (by decide)
  rw [manifestVerify, manifestSign, authBytes_eq (by decide)]
  show (if difference (JhSha256.halHmacSha256 sampleKey (signedBytes sampleManifest))
    sampleManifest.signature.toList = 0 then _ else _) = _
  rw [htag, (difference_eq_zero rfl).mpr rfl]
  rfl

def sampleBuild : Build := ⟨1, Nat.zero_lt_one, by decide, 0x4000, 1, some 3, 3⟩

def sampleFlash : RpFlash :=
  ⟨fun _ _ => 0, fun _ _ => 0, fun _ => 0, fun _ => 0, fun _ => none⟩

def undisturbed : Event Image := ⟨.ok, .before⟩

def sampleBegun : Writer :=
  { cleared with active := true, containerSize := 161, authenticationKey := sampleKey }

def sampleHalf : Writer := headed sampleBegun sampleFirst

def samplePrepared : Writer :=
  { headed sampleHalf sampleSecond with
    stagingReady := true, manifest := sampleManifest, sha256 := JhSha256.init, page := [] }

def sampleFull : Writer :=
  { samplePrepared with
    containerReceived := 161, payloadReceived := 1, page := [90]
    sha256 := JhSha256.update JhSha256.init [90] }

theorem sample_whole : manifestDecode (headed sampleHalf sampleSecond).header =
    .ok sampleManifest := by
  simp only [headed, sampleHalf, sampleBegun, cleared, List.nil_append, sample_decoded]

theorem sample_signed : ¬ manifestVerify sampleManifest
    (headed sampleHalf sampleSecond).authenticationKey ≠ .ok := by
  have hkey : (headed sampleHalf sampleSecond).authenticationKey = sampleKey := rfl
  rw [hkey]
  exact not_not.mpr sample_verified

theorem sample_prepared : prepareStaging sampleBuild (headed sampleHalf sampleSecond) =
    (.ok, samplePrepared) := by
  rw [prepareStaging, sample_whole]
  dsimp only
  rw [if_neg (by decide), if_neg sample_signed]
  rfl

theorem sample_opened :
    OtaWriter.write sampleBuild sampleBegun sampleFirst = pure (.ok 100, sampleHalf) := by
  rw [OtaWriter.write, if_neg (by decide), header_short (by decide) (by decide)]
  rfl

theorem sample_written : OtaWriter.write sampleBuild sampleHalf (sampleSecond ++ [90]) =
    writeRest sampleBuild 61 (.ok, samplePrepared, [90]) := by
  rw [OtaWriter.write, if_neg (by decide), header_full (by decide) (by decide), sample_prepared]
  rfl

theorem sample_buffered (x : Watched) :
    writePayload sampleBuild samplePrepared [90] x = (some (.ok, sampleFull), x) := rfl

theorem sample_rest (x : Watched) :
    writeRest sampleBuild 61 (.ok, samplePrepared, [90]) x = (some (.ok 61, sampleFull), x) := by
  rw [writeRest, if_neg (by decide)]
  simp only [bind]
  rw [sample_buffered]
  rfl

theorem sample_performed (x : Watched) :
    perform sampleBuild sampleHalf (.write (sampleSecond ++ [90])) x =
      (some (.ok, sampleFull), x) := by
  rw [perform, sample_written]
  simp only [bind]
  rw [sample_rest]
  rfl

/-- A session whose writer is `w`; `script` says what interrupts the
operations that are still to come. -/
def sampleSession (script : List (Event Image)) (w : Writer) (accepted : List UInt8) : Updater :=
  ⟨⟨⟨sampleFlash, script⟩, [(sampleFlash, sampleFlash)]⟩, w, sampleKey, accepted⟩

def sampleLoaded (script : List (Event Image)) : Updater :=
  sampleSession script sampleFull (sampleFirst ++ (sampleSecond ++ [90]))

theorem sample_noted (script : List (Event Image)) :
    { sampleSession script sampleHalf sampleFirst with writer := sampleFull }.note .ok
      (.write (sampleSecond ++ [90])) = sampleLoaded script := rfl

theorem sample_called (script : List (Event Image)) :
    invoke sampleBuild (.write (sampleSecond ++ [90]))
      (sampleSession script sampleHalf sampleFirst) = (some .ok, sampleLoaded script) := by
  have hperform : perform sampleBuild (sampleSession script sampleHalf sampleFirst).writer
      (.write (sampleSecond ++ [90])) (sampleSession script sampleHalf sampleFirst).watched =
      (some (.ok, sampleFull), (sampleSession script sampleHalf sampleFirst).watched) :=
    sample_performed _
  rw [invoke, hperform, ← sample_noted]

/-- The container comes in two writes, the first of them inside its header. -/
theorem sample_reached (script : List (Event Image)) :
    Reached sampleBuild (sampleLoaded script) := by
  have hboot := Reached.boot (b := sampleBuild)
    ⟨sampleFlash, undisturbed :: undisturbed :: script⟩
  have hbegin : Reached sampleBuild (sampleSession script sampleBegun []) :=
    .call _ _ (.begin 161 sampleKey) .ok hboot rfl
  have hhalf : Reached sampleBuild (sampleSession script sampleHalf sampleFirst) := by
    refine .call _ _ (.write sampleFirst) .ok hbegin ?_
    simp only [invoke, perform, sampleSession, sample_opened]
    rfl
  exact .call _ _ _ .ok hhalf (sample_called script)

theorem sample_digest : (JhSha256.final sampleFull.sha256).1 =
    sampleFull.manifest.sha256.toList := sample_digests.2.2

/-- The finish once the page is flushed and the digest read back. -/
theorem sample_finished {x y z : Watched}
    (hflush : flushPage sampleBuild sampleFull x = (some (.ok, { sampleFull with page := [] }), y))
    (hread : watch (digestPartition sampleBuild.layout .staging sampleFull.manifest.payloadSize) y =
      (some (.ok sampleManifest.sha256.toList), z)) :
    finish sampleBuild sampleFull x = publish sampleBuild { sampleFull with
      page := [], sha256 := (JhSha256.final sampleFull.sha256).2 } z := by
  rw [finish, if_neg (by decide)]
  simp only [bind]
  rw [hflush]
  dsimp only
  have hsame : ¬ (JhSha256.final sampleFull.sha256).1 ≠ sampleFull.manifest.sha256.toList :=
    not_not.mpr sample_digest
  rw [if_neg (by decide), if_neg (by decide)]
  refine (congrFun (if_neg hsame) y).trans ?_
  rw [hread]
  exact congrFun (if_neg (not_not.mpr rfl)) z

/-- The byte of the payload is what the slot gives back. -/
theorem sample_stored (sectors : List Image)
    (h : (sectors.getD 0 fun _ => kErased) 0 = 90) :
    OtaWriter.digest sectors 1 = sampleManifest.sha256.toList := by
  have hbytes : (List.range (UInt32.toNat 1)).map (fun a =>
      (sectors.getD (a/FLASH_SECTOR_SIZE) fun _ => kErased) (a%FLASH_SECTOR_SIZE)) = [90] := by
    rw [← h]
    rfl
  rw [OtaWriter.digest, hbytes]
  exact sample_digest

theorem callback_ok {β : Type} (done : RpFlash → RpFlash)
    (torn : Image → (ℕ → UInt8) → RpFlash → RpFlash) (answer : RpFlash → β) (refusal : β)
    {d : RpDevice} (h : ∀ e ∈ d.script.head?, e.verdict = .ok) :
    callback done torn answer refusal d =
      (some (answer (done d.flash)), ⟨done d.flash, d.script.tail⟩) := by
  rw [callback]
  rcases hevents : d.script with _ | ⟨⟨_ | _ | _, damage⟩, rest⟩
  · rfl
  · rfl
  · exact absurd (h ⟨.fail, damage⟩ (by rw [hevents]; rfl)) (by simp)
  · exact absurd (h ⟨.cut, damage⟩ (by rw [hevents]; rfl)) (by simp)

theorem programmed_read {x : Image} (hx : ∀ i, x i = kErased) (place : ℕ) (data : List UInt8) :
    slice (programmed x place data) place data.length = data := by
  have hand : ∀ c : UInt8, kErased &&& c = c := fun c => by
    rw [← UInt8.toBitVec_inj, UInt8.toBitVec_and]
    exact BitVec.allOnes_and
  refine slice_eq_iff.mpr fun i hi => ?_
  rw [programmed, overlay, if_pos ⟨Nat.le_add_right _ _, Nat.add_lt_add_left hi _⟩, hx, hand,
    Nat.add_sub_cancel_left]

theorem program_erased {offset : ℕ} {data : List UInt8} {d : RpDevice}
    (hvalid : rangeValid b offset data.length = true)
    (hx : ∀ i, d.flash.staging (offset/FLASH_SECTOR_SIZE) i = kErased)
    (h : ∀ e ∈ d.script.head?, e.verdict = .ok) :
    programStaging b offset data d = (some .ok, ⟨d.flash.put .staging (offset/FLASH_SECTOR_SIZE)
      (programmed (d.flash.staging (offset/FLASH_SECTOR_SIZE)) (offset%FLASH_SECTOR_SIZE) data),
        d.script.tail⟩) := by
  have hread := programmed_read hx (offset%FLASH_SECTOR_SIZE) data
  rw [programStaging, if_pos hvalid, callback_ok _ _ _ _ h]
  simp only [Flash.put, Function.update_self, if_pos hread]

theorem erase_ok {offset : ℕ} {d : RpDevice} (hvalid : rangeValid b offset FLASH_SECTOR_SIZE = true)
    (h : ∀ e ∈ d.script.head?, e.verdict = .ok) :
    eraseStaging b offset d = (some .ok,
      ⟨d.flash.put .staging (offset/FLASH_SECTOR_SIZE) fun _ => kErased, d.script.tail⟩) := by
  rw [eraseStaging, if_pos hvalid, callback_ok _ _ _ _ h]

theorem flush_first {w : Writer} {x : Watched} (hpage : w.page ≠ [])
    (hlength : w.page.length ≤ FLASH_PAGE_SIZE)
    (hfirst : w.payloadReceived = w.page.length)
    (h : ∀ e ∈ x.device.script.take 2, e.verdict = .ok) :
    let erased := x.device.flash.put .staging 0 fun _ => kErased
    let staged := erased.put .staging 0 (programmed (erased.staging 0) 0 (pageBytes w))
    flushPage b w x = (some (.ok, { w with page := [] }),
      ⟨⟨staged, x.device.script.tail.tail⟩,
        x.changes ++ [(x.device.flash, erased)] ++ [(erased, staged)]⟩) := by
  intro erased staged
  have hsector : FLASH_SECTOR_SIZE ≤ b.slotSize := Nat.le_mul_of_pos_left _ b.pos
  have hwhole : (pageBytes w).length = FLASH_PAGE_SIZE := by
    rw [pageBytes, List.length_append, List.length_replicate]
    omega
  have hevents : (∀ e ∈ x.device.script.head?, e.verdict = .ok) ∧
      ∀ e ∈ x.device.script.tail.head?, e.verdict = .ok := by
    revert h
    rcases x.device.script with _ | ⟨e, _ | ⟨e', script⟩⟩ <;> simp
  have herased : ∀ i, erased.staging 0 i = kErased := fun i => by
    simp only [erased, Flash.put, Function.update_self]
  have herase : rangeValid b 0 FLASH_SECTOR_SIZE = true := by
    simpa [rangeValid] using hsector
  have hprogram : rangeValid b 0 (pageBytes w).length = true := by
    rw [hwhole]
    simpa [rangeValid] using (by decide : FLASH_PAGE_SIZE ≤ FLASH_SECTOR_SIZE).trans hsector
  have hopen : openSector b 0 x =
      (some .ok, ⟨⟨erased, x.device.script.tail⟩, x.changes ++ [(x.device.flash, erased)]⟩) := by
    rw [openSector, if_pos (by decide), watch, erase_ok herase hevents.1]
    rfl
  have hwritten : watch (programStaging b 0 (pageBytes w))
      ⟨⟨erased, x.device.script.tail⟩, x.changes ++ [(x.device.flash, erased)]⟩ =
      (some .ok, ⟨⟨staged, x.device.script.tail.tail⟩,
        x.changes ++ [(x.device.flash, erased)] ++ [(erased, staged)]⟩) := by
    rw [watch, program_erased (d := ⟨erased, x.device.script.tail⟩) hprogram herased hevents.2]
    rfl
  rw [flushPage, if_neg hpage, hfirst, Nat.sub_self, Nat.zero_mod]
  simp only [bind, Nat.sub_self]
  rw [hopen]
  refine (congrFun (if_neg (by decide)) _).trans ?_
  rw [hwritten]
  exact congrFun (if_neg (by decide)) _

def sampleErased : RpFlash := sampleFlash.put .staging 0 fun _ => kErased

def sampleStaged : RpFlash :=
  sampleErased.put .staging 0 (programmed (sampleErased.staging 0) 0 (pageBytes sampleFull))

def sampleChecked (script : List (Event Image)) : Watched :=
  ⟨⟨sampleStaged, script⟩, [(sampleFlash, sampleFlash), (sampleFlash, sampleErased),
    (sampleErased, sampleStaged), (sampleStaged, sampleStaged)]⟩

theorem sample_published {script : List (Event Image)} (h : ∀ e ∈ script.take 3, e.verdict = .ok) :
    finish sampleBuild sampleFull (sampleLoaded script).watched = publish sampleBuild
      { sampleFull with page := [], sha256 := (JhSha256.final sampleFull.sha256).2 }
      (sampleChecked script.tail.tail.tail) := by
  have hevents : (∀ e ∈ script.take 2, e.verdict = .ok) ∧
      ∀ e ∈ script.tail.tail.head?, e.verdict = .ok := by
    revert h
    rcases script with _ | ⟨e, _ | ⟨e', _ | ⟨e'', script⟩⟩⟩ <;> simp
    exact fun h h' h'' => ⟨⟨h, h'⟩, h''⟩
  have hflush := @flush_first sampleBuild sampleFull (sampleLoaded script).watched (by decide)
    (by decide) (by decide) hevents.1
  have hdigest : sampleBuild.layout.digest (contents sampleBuild.layout.sectors
      (sampleStaged.get .staging)) sampleFull.manifest.payloadSize =
      sampleManifest.sha256.toList := by
    have hlayout : sampleBuild.layout.digest = OtaWriter.digest := rfl
    have hsize : sampleFull.manifest.payloadSize = 1 := rfl
    rw [hlayout, hsize]
    exact sample_stored _ (by decide +kernel)
  have hread : watch (digestPartition sampleBuild.layout .staging sampleFull.manifest.payloadSize)
      ⟨⟨sampleStaged, script.tail.tail⟩, [(sampleFlash, sampleFlash), (sampleFlash, sampleErased),
        (sampleErased, sampleStaged)]⟩ =
      (some (.ok sampleManifest.sha256.toList), sampleChecked script.tail.tail.tail) := by
    rw [watch, digestPartition, if_neg (by decide), callback_ok _ _ _ _ hevents.2]
    simp only [id_eq]
    rw [hdigest]
    rfl
  exact sample_finished hflush hread

theorem finish_called (u : Updater) :
    (invoke b .finish u).1 = (finish b u.writer u.watched).1.map Prod.fst ∧
      (invoke b .finish u).2.watched = (finish b u.writer u.watched).2 := by
  have hperform : perform b u.writer .finish u.watched = finish b u.writer u.watched := rfl
  rw [invoke, hperform]
  rcases finish b u.writer u.watched with ⟨_ | ⟨status, w⟩, x⟩
  · exact ⟨rfl, rfl⟩
  · exact ⟨rfl, rfl⟩

theorem sample_called_finish {script : List (Event Image)}
    (h : ∀ e ∈ script.take 3, e.verdict = .ok) :
    let w := { sampleFull with page := [], sha256 := (JhSha256.final sampleFull.sha256).2 }
    let r := publish sampleBuild w (sampleChecked script.tail.tail.tail)
    (invoke sampleBuild .finish (sampleLoaded script)).1 = r.1.map Prod.fst ∧
      (invoke sampleBuild .finish (sampleLoaded script)).2.watched = r.2 := by
  intro w r
  have hcalled := finish_called (b := sampleBuild) (sampleLoaded script)
  have hfinish : finish sampleBuild (sampleLoaded script).writer (sampleLoaded script).watched = r :=
    sample_published h
  rwa [hfinish] at hcalled

def failingErase : List (Event Image) := List.replicate 7 undisturbed ++ [⟨.fail, .before⟩]

theorem sample_replies : (invoke sampleBuild .finish (sampleLoaded [])).1 = some .ok ∧
    (invoke sampleBuild .finish (sampleLoaded failingErase)).1 = some .eio ∧
    (selected (invoke sampleBuild .finish (sampleLoaded failingErase)).2.flash).map (·.1.mode) =
      some .stable := by
  have hfailing := @sample_called_finish failingErase (by simp [failingErase, undisturbed])
  rw [(@sample_called_finish [] nofun).1, hfailing.1, Updater.flash, hfailing.2]
  refine ⟨?_, ?_, ?_⟩
  · decide +kernel
  · decide +kernel
  · decide +kernel

theorem pair_of_fst {α β : Type} {p : α × β} {a : α} (h : p.1 = a) : p = (a, p.2) := by
  rw [← h]

/-- The container is accepted and its update pending. -/
theorem sample_update_sound :
    ∃ u', invoke sampleBuild .finish (sampleLoaded []) = (some .ok, u') ∧
      ∃ m, Verified sampleBuild sampleKey (sampleFirst ++ (sampleSecond ++ [90])) m u'.flash ∧
        Ordered m u'.flash u'.watched.changes := by
  have hcall := pair_of_fst sample_replies.1
  exact ⟨_, hcall, (update_sound sampleBuild .finish _ _ _ (sample_reached []) hcall).1 rfl rfl⟩

/-- Erasing the journal fails: the first update of a device without a record
leaves the factory record selected, where nothing was. -/
theorem first_update_records_factory : ¬ ∀ (b : Build) (call : Call) (u u' : Updater)
    (reply : Option Status), Reached b u → invoke b call u = (reply, u') → reply ≠ some .ok →
    Settled u.flash → (∀ s i, selected u'.flash = some (s, i) → s.mode ≠ .pending) →
    selected u'.flash = selected u.flash := by
  intro hclaim
  obtain ⟨_, hreply, hmode⟩ := sample_replies
  have hnone : selected (sampleLoaded failingErase).flash = none := by decide
  have hpending : ∀ s i,
      selected (invoke sampleBuild .finish (sampleLoaded failingErase)).2.flash = some (s, i) →
      s.mode ≠ .pending := by
    intro s i hs hp
    rw [hs] at hmode
    have hstable : s.mode = .stable := Option.some.inj hmode
    rw [hstable] at hp
    cases hp
  have hstill := hclaim sampleBuild .finish _ _ _ (sample_reached failingErase) (pair_of_fst hreply)
    (by decide) (fun s i h => by rw [hnone] at h; cases h) hpending
  rw [hstill, hnone] at hmode
  cases hmode

end JaszczurHal.OtaWriterSafety
