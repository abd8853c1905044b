import JaszczurHal.OtaApply

/-!
# Which images a boot launches

From a finished update on, every reset finds a recorded state that is right
about the flash. The image a boot launches is therefore always a whole one,
and a trial or stable launch has the metadata of both slots in its record.
-/

set_option autoImplicit false

namespace JaszczurHal.OtaLaunch
open HalStatus CrashRun OtaImage OtaFlash OtaSwap OtaBoot OtaApply

variable {α δ : Type} {u : Update α δ} {fails cuts : Bool}

theorem settled_mode (s : BootState δ) : (settled s).mode = .trial ∨
    (settled s).mode = .stable ∨ (settled s).mode = .recovery := by
  unfold settled
  cases hs : s.mode with
  | pending => exact Or.inl rfl
  | trial =>
    dsimp only
    split
    · exact Or.inl rfl
    · exact Or.inr (Or.inl rfl)
  | rollback => exact Or.inr (Or.inl rfl)
  | stable => exact Or.inr (Or.inl hs)
  | recovery => exact Or.inr (Or.inr hs)

theorem recorded_whole {s : BootState δ} {f : Flash α δ} (h : Recorded u s f)
    (hs : s.mode = .trial ∨ s.mode = .stable ∨ s.mode = .recovery) : Whole u f := by
  rcases hs with hs | hs | hs
  · exact whole_new ((consistent_trial hs).mp h.2).2.2
  · rcases (consistent_stable hs).mp h.2 with hold | ⟨_, hnew⟩
    · exact whole_old hold.2.2
    · exact whole_new hnew.2.2
  · exact (consistent_recovery hs).mp h.2

/-- The record a boot or a confirmation leaves is right, whatever went wrong. -/
def Sound (u : Update α δ) (f : Flash α δ) : Prop := ∃ s, Recorded u s f

theorem left_sound {s : BootState δ} {f : Flash α δ} (h : Left u fails s f) : Sound u f := by
  obtain ⟨s', _, hs'⟩ := h
  exact ⟨s', hs'⟩

theorem readRecord_holds {P : Flash α δ → Prop} (index : Bool) :
    Holds (On fails cuts P) (readRecord index : Step (Device α δ) _)
      (fun r => On fails cuts fun f => P f ∧ (∀ x, r = .ok x → f.record index = x) ∧
        ∀ status, r = .error status → status = .eio)
      (Cut fails cuts P) := by
  apply callback_holds
  · intro f hf
    exact ⟨hf, fun x h => Except.ok.inj h, by simp⟩
  · intro _ f hf damage
    rw [damage_leave_id]
    exact ⟨hf, by simp, fun _ h => (Except.error.inj h).symm⟩
  · intro _ f hf damage
    rwa [damage_leave_id]

theorem loadState_holds {P : Flash α δ → Prop} :
    Holds (On fails cuts P) (loadState : Step (Device α δ) _)
      (fun r => On fails cuts fun f => P f ∧ (∀ x, r = .ok x → selected f = some x) ∧
        ∀ status, r = .error status → status = .eio ∨ status = .enoent ∧ selected f = none)
      (Cut fails cuts P) := by
  refine holds_bind (readRecord_holds false) fun first => ?_
  cases first with
  | error status =>
    refine holds_pure _ fun d hd => on_mono hd fun f hf => ⟨hf.1, by simp, fun _ h => ?_⟩
    exact Or.inl ((Except.error.inj h).symm.trans (hf.2.2 _ rfl))
  | ok first =>
    refine holds_bind (holds_conseq (readRecord_holds
      (P := fun f => P f ∧ f.record false = first) true)
      (fun d hd => on_mono hd fun f hf => ⟨hf.1, hf.2.1 _ rfl⟩) (fun _ _ => id)
      fun d hd => cut_mono hd fun f hf => hf.1) fun second => ?_
    cases second with
    | error status =>
      refine holds_pure _ fun d hd => on_mono hd fun f hf => ⟨hf.1.1, by simp, fun _ h => ?_⟩
      exact Or.inl ((Except.error.inj h).symm.trans (hf.2.2 _ rfl))
    | ok second =>
      have hselected : ∀ f : Flash α δ, f.record false = first → f.record true = second →
          selected f = stateSelect first second := by
        intro f hfirst hsecond
        rw [selected, hfirst, hsecond]
      dsimp only
      cases hs : stateSelect first second with
      | none =>
        refine holds_pure _ fun d hd => on_mono hd fun f hf => ⟨hf.1.1, by simp, fun _ h => ?_⟩
        exact Or.inr ⟨(Except.error.inj h).symm, (hselected f hf.1.2 (hf.2.1 _ rfl)).trans hs⟩
      | some found =>
        refine holds_pure _ fun d hd => on_mono hd fun f hf => ⟨hf.1.1, fun x hx => ?_, by simp⟩
        rw [hselected f hf.1.2 (hf.2.1 _ rfl), hs]
        exact congrArg some (Except.ok.inj hx)

def confirmed (s : BootState δ) : BootState δ :=
  { nextState s .stable with attempts := 0 }

theorem confirmed_consistent (hu : u.confirms = true) {s : BootState δ} {f : Flash α δ}
    (hs : s.mode = .trial) (h : Consistent u s f) : Consistent u (confirmed s) f :=
  (consistent_stable rfl).mpr (Or.inr ⟨hu, (consistent_trial hs).mp h⟩)

theorem consistent_record {s : BootState δ} {f : Flash α δ} (h : Consistent u s f)
    (r : Bool → Option (BootState δ)) : Consistent u s { f with record := r } := by
  cases hs : s.mode with
  | pending =>
    obtain ⟨hp, hg, hswap⟩ := (consistent_pending hs).mp h
    exact (consistent_pending hs).mpr ⟨hp, hg, swapping_record f r hswap⟩
  | trial => exact trial_congr hs h rfl rfl
  | rollback =>
    obtain ⟨hp, hg, hswap⟩ := (consistent_rollback hs).mp h
    exact (consistent_rollback hs).mpr ⟨hp, hg, swapping_record f r hswap⟩
  | stable => exact (consistent_stable hs).mpr ((consistent_stable hs).mp h : _)
  | recovery => exact (consistent_recovery hs).mpr ((consistent_recovery hs).mp h : _)

/-- Only a trial image is confirmed; what is left is the old record or its
stable successor. -/
theorem confirmBoot_holds (hu : u.confirms = true) (s : BootState δ) :
    Holds (On fails cuts (Recorded u s)) (confirmBoot : Step (Device α δ) Status)
      (fun _ => On fails cuts (Sound u)) (Cut fails cuts (Sound u)) := by
  refine holds_bind (holds_conseq loadState_holds (fun _ => id) (fun _ _ => id)
    fun d hd => cut_mono hd fun f hf => ⟨s, hf⟩) fun loaded => ?_
  cases loaded with
  | error status => exact holds_pure _ fun d hd => on_mono hd fun f hf => ⟨s, hf.1⟩
  | ok found =>
    obtain ⟨state, i⟩ := found
    refine holds_known (φ := state = s) (fun d hd => ?_) fun hstate => ?_
    · obtain ⟨⟨j, hj⟩, _⟩ := hd.1.1
      have hsel := hd.1.2.1 _ rfl
      rw [hj] at hsel
      exact (congrArg Prod.fst (Option.some.inj hsel)).symm
    subst hstate
    refine holds_ite (fun hstable => ?_) (fun hne => holds_ite (fun hother => ?_) (fun htrial => ?_))
    · exact holds_pure _ fun d hd => on_mono hd fun f hf => ⟨state, hf.1⟩
    · exact holds_pure _ fun d hd => on_mono hd fun f hf => ⟨state, hf.1⟩
    · have htrial := not_not.mp htrial
      have hleft : ∀ f : Flash α δ, Consistent u state f ∧ (selected f = some (state, i) ∨
          selected f = some (confirmed state, !i)) → Sound u f := by
        rintro f ⟨hc, hsel | hsel⟩
        · exact ⟨state, ⟨i, hsel⟩, hc⟩
        · exact ⟨confirmed state, ⟨!i, hsel⟩, confirmed_consistent hu htrial hc⟩
      exact holds_conseq (writeState_holds (K := Consistent u state)
        (fun f r hf => consistent_record hf r) (t := confirmed state) rfl
        fun h => valid_nextState .stable h)
        (fun d hd => on_mono hd fun f hf => ⟨hf.2.1 _ rfl, hf.1.2⟩)
        (fun r d hd => on_mono hd fun f hf => hleft f ⟨hf.1, hf.2.1⟩)
        fun d hd => cut_mono hd hleft

variable [DecidableEq δ]

/-- One reset of the boot image, from whatever recorded state it finds. -/
theorem boot_holds (l : Layout α δ) (hl : l.sectors = u.sectors)
    (hnew : fails = false → NewVerified l u) (s : BootState δ) :
    Holds (On fails cuts (Recorded u s)) (boot l)
      (fun r => On fails cuts fun f => ∃ st, r.2 = some st ∧
        Outcome u fails s (settled s) (r.1, st) f)
      (Cut fails cuts (Left u fails s)) := by
  rintro d ⟨⟨⟨i, hi⟩, hc⟩, hscript⟩
  have hread : Holds (fun e => e = d) (readState : Step (Device α δ) _)
      (fun r e => r = some (s, i) ∧ e = d) (Cut fails cuts (Left u fails s)) := by
    rintro e rfl
    exact ⟨hi, rfl⟩
  refine holds_bind (m := readState) hread (fun r => ?_) d rfl
  refine holds_known (fun _ h => h.1) fun hr => ?_
  subst hr
  refine holds_bind (holds_pre (bootApply_holds l hl hnew s i) ?_) fun applied => ?_
  · rintro e ⟨_, rfl⟩
    exact ⟨⟨hi, hc⟩, hscript⟩
  · obtain ⟨action, st⟩ := applied
    exact holds_pure _ fun e he => on_mono he fun f hf => ⟨st, rfl, hf⟩

theorem boot_sound (l : Layout α δ) (hl : l.sectors = u.sectors) {f : Flash α δ}
    (script : List (Event α)) (h : Sound u f) : Sound u (boot l ⟨f, script⟩).2.flash := by
  obtain ⟨s, hs⟩ := h
  have hkeep : Holds (On true true (Recorded u s)) (boot l)
      (fun _ => On true true (Sound u)) (On true true (Sound u)) :=
    holds_conseq (boot_holds l hl (by simp) s) (fun _ => id)
      (fun _ d hd => on_mono hd fun f ⟨_, _, hout⟩ => left_sound hout.1)
      fun d hd => on_mono hd.2 fun f => left_sound
  exact (holds_left hkeep (on_any f script hs)).1

theorem digestPartition_holds {P : Flash α δ → Prop} (l : Layout α δ) (slot : Slot)
    (size : UInt32) :
    Holds (On fails cuts P) (digestPartition l slot size : Step (Device α δ) _)
      (fun r => On fails cuts fun f => P f ∧ r ≠ .error .ok ∧
        ∀ expected, r = .ok expected → slot ≠ .scratch →
          l.matches (f.get slot) size expected = true)
      (Cut fails cuts P) := by
  refine holds_ite (fun hbad => ?_) (fun hgood => ?_)
  · exact holds_pure _ fun d hd => on_mono hd fun f hf => ⟨hf, by simp, by simp⟩
  rw [not_or] at hgood
  apply callback_holds
  · intro f hf
    refine ⟨hf, by simp, fun expected h _ => ?_⟩
    rw [Layout.matches, decide_eq_true hgood.1, decide_eq_true (UInt32.not_lt.mp hgood.2)]
    simpa using h
  · intro _ f hf damage
    rw [damage_leave_id]
    exact ⟨hf, by simp, by simp⟩
  · intro _ f hf damage
    rwa [damage_leave_id]

omit [DecidableEq δ] in
theorem firstState_holds {K : Flash α δ → Prop}
    (hK : ∀ f r, K f → K { f with record := r }) (state : BootState δ) :
    Holds (On fails cuts fun f => selected f = none ∧ K f)
      (writeState state true : Step (Device α δ) Status)
      (fun r => On fails cuts fun f => K f ∧ (r = .ok → selected f = some (state, false)))
      (Cut fails cuts K) := by
  refine holds_ite (fun hvalid => ?_) (fun hinvalid => ?_)
  · have hleave : ∀ f : Flash α δ, K f → ∀ damage : Damage α, K (damage.leave
        (fun f => { f with record := Function.update f.record (!true) (some state) })
        (fun _ _ f => { f with record := Function.update f.record (!true) none }) f) := by
      intro f hf damage
      cases damage with
      | before => exact hf
      | after => exact hK f _ hf
      | torn x j => exact hK f _ hf
    apply callback_holds
    · intro f hf
      exact ⟨hK f _ hf.2, fun _ => select_first f.record state hf.1 hvalid⟩
    · intro _ f hf damage
      exact ⟨hleave f hf.2 damage, by simp⟩
    · intro _ f hf damage
      exact hleave f hf.2 damage
  · exact holds_pure _ fun d hd => on_mono hd fun f hf => ⟨hf.2, by simp⟩

theorem initialiseFactoryState_holds {K : Flash α δ → Prop}
    (hK : ∀ f r, K f → K { f with record := r }) (l : Layout α δ) (binary : Binary δ) :
    Holds (On fails cuts fun f => selected f = none ∧ K f)
      (initialiseFactoryState l binary : Step (Device α δ) _)
      (fun r => On fails cuts fun f => K f ∧ r ≠ .error .ok ∧
        ∀ found, r = .ok found → selected f = some found)
      (Cut fails cuts K) := by
  rw [initialiseFactoryState]
  cases hsize : binary.size with
  | none => exact holds_pure _ fun d hd => on_mono hd fun f hf => ⟨hf.2, by simp, by simp⟩
  | some size =>
    refine holds_bind (holds_conseq (digestPartition_holds l .program size) (fun _ => id)
      (fun _ _ => id) fun d hd => cut_mono hd fun f hf => hf.2) fun digest => ?_
    cases digest with
    | error status =>
      refine holds_pure _ fun d hd => on_mono hd fun f hf => ⟨hf.1.2, fun h => ?_, by simp⟩
      exact hf.2.1 (congrArg Except.error (Except.error.inj h))
    | ok sha256 =>
      dsimp only
      generalize BootState.mk 1 BootMode.stable 0 binary.maxBootAttempts size 0 0 0 sha256
        binary.emptySha256 (text factoryText) (text emptyText) = state
      refine holds_bind (holds_conseq (firstState_holds hK state)
        (fun d hd => on_mono hd fun f hf => hf.1) (fun _ _ => id) fun _ => id) fun status => ?_
      refine holds_ite (fun hok => ?_) (fun hne => ?_)
      · refine holds_pure _ fun d hd => on_mono hd fun f hf => ⟨hf.1, by simp, fun found h => ?_⟩
        rw [← Except.ok.inj h]
        exact hf.2 hok
      · refine holds_pure _ fun d hd => on_mono hd fun f hf => ⟨hf.1, fun h => ?_, by simp⟩
        exact hne (Except.error.inj h)

theorem loadOrInitialiseState_holds {K : Flash α δ → Prop}
    (hK : ∀ f r, K f → K { f with record := r }) (l : Layout α δ) (binary : Binary δ) :
    Holds (On fails cuts K) (loadOrInitialiseState l binary : Step (Device α δ) _)
      (fun r => On fails cuts fun f => K f ∧ r ≠ .error .ok ∧
        ∀ found, r = .ok found → selected f = some found)
      (Cut fails cuts K) := by
  refine holds_bind loadState_holds fun loaded => ?_
  cases loaded with
  | ok found =>
    refine holds_pure _ fun d hd => on_mono hd fun f hf => ⟨hf.1, by simp, fun x h => ?_⟩
    exact hf.2.1 x h
  | error status =>
    refine holds_ite (fun hother => ?_) (fun hnone => ?_)
    · refine holds_pure _ fun d hd => on_mono hd fun f hf => ⟨hf.1, fun h => ?_, by simp⟩
      rcases hf.2.2 status rfl with rfl | ⟨rfl, _⟩
      · cases h
      · cases h
    · refine holds_pre (initialiseFactoryState_holds hK l binary)
        fun d hd => on_mono hd fun f hf => ⟨?_, hf.1⟩
      rcases hf.2.2 status rfl with rfl | ⟨_, hsel⟩
      · exact absurd (by decide) hnone
      · exact hsel

def manifestMeta (m : Manifest δ) : Meta δ := ⟨m.payloadSize, m.generation, m.sha256, m.version⟩

def Started (l : Layout α δ) (m : Manifest δ) (f : Flash α δ) : Prop :=
  ∃ s i, selected f = some (s, i) ∧ s.mode = .pending ∧ s.attempts = 0 ∧
    stagingMeta s = manifestMeta m ∧ (∀ t, f.journal t = kErased) ∧
    l.matches f.staging m.payloadSize m.sha256 = true

/-- The record of a pending update, once the journal is erased. -/
theorem pendingRecord_holds (l : Layout α δ) (m : Manifest δ) (state : BootState δ) (i : Bool) :
    Holds (On fails cuts fun f => selected f = some (state, i) ∧
        (∀ t, f.journal t = kErased) ∧ l.matches f.staging m.payloadSize m.sha256 = true)
      (writeState (pendingState state m) i : Step (Device α δ) Status)
      (fun r => On fails cuts fun f => r = .ok → Started l m f)
      (Cut fails cuts fun _ => True) := by
  by_cases hvalid : stateValid (pendingState state m) = true
  · refine holds_conseq (writeState_holds (K := fun f => (∀ t, f.journal t = kErased) ∧
      l.matches f.staging m.payloadSize m.sha256 = true) (fun _ _ h => h)
      (t := pendingState state m) rfl fun _ => hvalid) (fun _ => id)
      (fun r d hd => on_mono hd fun f hf h => ?_) fun d hd => cut_mono hd fun _ _ => trivial
    exact ⟨pendingState state m, !i, hf.2.2.1 h, rfl, rfl, rfl, hf.1⟩
  · rw [writeState, if_neg hvalid]
    exact holds_pure _ fun d hd => on_mono hd fun f hf h => by cases h

omit [DecidableEq δ] in
theorem flushPage_holds (page : Option (ℕ × α)) :
    Holds (On fails cuts fun _ => True) (flushPage page : Step (Device α δ) Status)
      (fun _ => On fails cuts fun _ => True) (Cut fails cuts fun _ => True) := by
  rcases page with _ | ⟨sector, x⟩
  · exact holds_pure _ fun _ => id
  · rw [flushPage]
    apply callback_holds
    · exact fun _ _ => trivial
    · exact fun _ _ _ _ => trivial
    · exact fun _ _ _ _ => trivial

theorem finish_holds (l : Layout α δ) (binary : Binary δ) (w : OtaWriter α δ) :
    Holds (On fails cuts fun _ => True) (finish l binary w : Step (Device α δ) Status)
      (fun r => On fails cuts fun f => r = .ok → Started l w.manifest f)
      (Cut fails cuts fun _ => True) := by
  refine holds_ite (fun hbad => ?_) (fun hgood => ?_)
  · exact holds_pure _ fun d hd => on_mono hd fun f hf => by simp
  refine holds_bind (flushPage_holds w.page) fun flushed => ?_
  refine holds_ite (fun hne => ?_) (fun _ => ?_)
  · exact holds_pure _ fun d hd => on_mono hd fun f hf h => absurd h hne
  have hdigest : Holds (On fails cuts fun _ => True)
      (sha256Final w.digest : Step (Device α δ) (Except Status δ))
      (fun r => On fails cuts fun _ => r ≠ .error .ok) (Cut fails cuts fun _ => True) := by
    apply callback_holds
    · exact fun _ _ => by simp
    · exact fun _ _ _ _ => by simp
    · exact fun _ _ _ _ => trivial
  refine holds_bind hdigest fun digest => ?_
  cases digest with
  | error status =>
    refine holds_pure _ fun d hd => on_mono hd fun f hf h => ?_
    exact absurd (congrArg Except.error h) hf
  | ok digest =>
  refine holds_ite (fun hne => ?_) (fun _ => ?_)
  · exact holds_pure _ fun d hd => on_mono hd fun f hf h => by cases h
  refine holds_bind (holds_conseq (digestPartition_holds (P := fun _ => True) l .staging
    w.manifest.payloadSize) (fun d hd => on_mono hd fun _ _ => trivial) (fun _ _ => id)
    fun _ => id) fun flashDigest => ?_
  cases flashDigest with
  | error status =>
    refine holds_pure _ fun d hd => on_mono hd fun f hf h => ?_
    exact absurd (congrArg Except.error h) hf.2.1
  | ok flashDigest =>
  refine holds_ite (fun hne => ?_) (fun hsame => ?_)
  · exact holds_pure _ fun d hd => on_mono hd fun f hf h => by cases h
  have hsame := not_not.mp hsame
  refine holds_bind (holds_conseq (loadOrInitialiseState_holds (K := fun f =>
    l.matches f.staging w.manifest.payloadSize w.manifest.sha256 = true) (fun _ _ h => h) l
    binary) (fun d hd => on_mono hd fun f hf => ?_) (fun _ _ => id)
    fun d hd => cut_mono hd fun _ _ => trivial) fun loaded => ?_
  · rw [← hsame]
    exact hf.2.2 _ rfl (by decide)
  cases loaded with
  | error status =>
    refine holds_pure _ fun d hd => on_mono hd fun f hf h => ?_
    exact absurd (congrArg Except.error h) hf.2.1
  | ok found =>
  obtain ⟨state, i⟩ := found
  refine holds_ite (fun hne => ?_) (fun _ => ?_)
  · exact holds_pure _ fun d hd => on_mono hd fun f hf h => by cases h
  refine holds_bind (holds_conseq (erasePhase_holds (K := fun f =>
    selected f = some (state, i) ∧
    l.matches f.staging w.manifest.payloadSize w.manifest.sha256 = true) fun _ _ h => h)
    (fun d hd => on_mono hd fun f hf => ⟨hf.2.2 _ rfl, hf.1⟩) (fun _ _ => id)
    fun d hd => cut_mono hd fun _ _ => trivial) fun erased => ?_
  refine holds_ite (fun hne => ?_) (fun heq => ?_)
  · exact holds_pure _ fun d hd => on_mono hd fun f hf h => absurd h hne
  · exact holds_pre (pendingRecord_holds l w.manifest state i) fun d hd =>
      on_mono hd fun f hf => ⟨hf.1.1, hf.2.1 (not_not.mp heq), hf.1.2⟩

/-- What happens between two states of the flash: a reset runs the boot
image, or the launched program confirms itself. -/
inductive Reset (α : Type) where
  | boot (script : List (Event α))
  | confirm (script : List (Event α))

def runResets (l : Layout α δ) : List (Reset α) → Flash α δ → Flash α δ
  | [], f => f
  | .boot script :: rest, f => runResets l rest (boot l ⟨f, script⟩).2.flash
  | .confirm script :: rest, f => runResets l rest (confirmBoot ⟨f, script⟩).2.flash

omit [DecidableEq δ] in
theorem confirm_sound (hu : u.confirms = true) {f : Flash α δ} (script : List (Event α))
    (h : Sound u f) : Sound u (confirmBoot ⟨f, script⟩).2.flash := by
  obtain ⟨s, hs⟩ := h
  have hkeep : Holds (On true true (Recorded u s)) (confirmBoot : Step (Device α δ) Status)
      (fun _ => On true true (Sound u)) (On true true (Sound u)) :=
    holds_conseq (confirmBoot_holds hu s) (fun _ => id)
      (fun _ _ => id) fun d hd => hd.2
  exact (holds_left hkeep (on_any f script hs)).1

theorem run_sound (l : Layout α δ) (hl : l.sectors = u.sectors) (hu : u.confirms = true)
    (resets : List (Reset α)) (f : Flash α δ) (h : Sound u f) :
    Sound u (runResets l resets f) := by
  induction resets generalizing f with
  | nil => exact h
  | cons reset rest ih =>
    cases reset with
    | boot script => exact ih _ (boot_sound l hl script h)
    | confirm script => exact ih _ (confirm_sound hu script h)

def updateOf (l : Layout α δ) (s : BootState δ) (f : Flash α δ) (confirms : Bool) :
    Update α δ :=
  ⟨l.sectors, f.program, f.staging, programMeta s, stagingMeta s, confirms⟩

omit [DecidableEq δ] in
theorem pending_recorded (l : Layout α δ) {s : BootState δ} {i : Bool} {f : Flash α δ}
    (confirms : Bool) (hsel : selected f = some (s, i)) (hs : s.mode = .pending)
    (hj : ∀ t, f.journal t = kErased) : Recorded (updateOf l s f confirms) s f :=
  ⟨⟨i, hsel⟩, (consistent_pending hs).mpr ⟨rfl, rfl, swapping_fresh f fun t _ => hj t⟩⟩

def Accurate (l : Layout α δ) (s : BootState δ) (f : Flash α δ) : Prop :=
  l.matches f.program s.programSize s.programSha256 = true ∧
  l.matches f.staging s.stagingSize s.stagingSha256 = true

theorem meta_matches {l : Layout α δ} {a b : ℕ → α} {m m' : Meta δ}
    (h : ∀ s < l.sectors, b s = a s) (hm : m' = m)
    (ha : l.matches a m.size m.sha256 = true) : l.matches b m'.size m'.sha256 = true := by
  rw [Layout.matches] at ha ⊢
  rw [hm, contents_congr h]
  exact ha

theorem described_accurate {l : Layout α δ} {s r : BootState δ} {f g : Flash α δ}
    {confirms : Bool} (h : Restored (updateOf l s f confirms) r g ∨
      Updated (updateOf l s f confirms) r g) (hs : Accurate l s f) : Accurate l r g := by
  rcases h with ⟨hp, hg, hhold⟩ | ⟨hp, hg, hhold⟩
  · exact ⟨meta_matches (fun t ht => (hhold t ht).1) hp hs.1,
      meta_matches (fun t ht => (hhold t ht).2) hg hs.2⟩
  · exact ⟨meta_matches (fun t ht => (hhold t ht).1) hp hs.2,
      meta_matches (fun t ht => (hhold t ht).2) hg hs.1⟩

omit [DecidableEq δ] in
theorem recorded_described {s : BootState δ} {f : Flash α δ} (h : Recorded u s f)
    (hs : s.mode = .trial ∨ s.mode = .stable) : Restored u s f ∨ Updated u s f := by
  rcases hs with hs | hs
  · exact Or.inr ((consistent_trial hs).mp h.2)
  · exact ((consistent_stable hs).mp h.2).imp_right And.right

omit [DecidableEq δ] in
theorem recorded_selected {s r : BootState δ} {i : Bool} {f : Flash α δ}
    (h : Recorded u s f) (hr : selected f = some (r, i)) : r = s := by
  obtain ⟨⟨j, hj⟩, _⟩ := h
  rw [hj] at hr
  exact (congrArg Prod.fst (Option.some.inj hr)).symm

/-- After a finished update and any resets, power cuts, callback failures and
confirmations: what a boot launches is one of the two images, whole, and in a
trial or stable launch the record is that of the contents of both slots. -/
theorem launches_whole_images (l : Layout α δ) (binary : Binary δ) (w : OtaWriter α δ)
    (d₀ : Device α δ) (h : (finish l binary w d₀).1 = some .ok) :
    let f₀ := (finish l binary w d₀).2.flash
    ∃ s i, selected f₀ = some (s, i) ∧ s.mode = .pending ∧
      stagingMeta s = manifestMeta w.manifest ∧
      ∀ (resets : List (Reset α)) (script : List (Event α)) (launched : Option (BootState δ)),
        (boot l ⟨runResets l resets f₀, script⟩).1 = some (.launch, launched) →
        let f := (boot l ⟨runResets l resets f₀, script⟩).2.flash
        let u := updateOf l s f₀ true
        Whole u f ∧
        (∀ r j, selected f = some (r, j) → r.mode = .trial ∨ r.mode = .stable →
          (Restored u r f ∨ Updated u r f) ∧ (Accurate l s f₀ → Accurate l r f)) ∧
        ∃ r, launched = some r ∧
          (r.mode = .trial ∨ r.mode = .stable → ∃ j, selected f = some (r, j)) := by
  intro f₀
  have hfinish := holds_returned (finish_holds l binary w)
    (on_any d₀.flash d₀.script trivial) (Prod.ext h rfl)
  obtain ⟨s, i, hsel, hs, _, hmeta, hj, _⟩ := hfinish.1 rfl
  refine ⟨s, i, hsel, hs, hmeta, fun resets script launched hboot => ?_⟩
  intro f u
  have hsound : Sound u (runResets l resets f₀) :=
    run_sound l rfl rfl resets f₀ ⟨s, pending_recorded l true hsel hs hj⟩
  obtain ⟨s', hs'⟩ := hsound
  have hrun := holds_returned (boot_holds l rfl (by simp) s')
    (on_any _ script hs') (Prod.ext hboot rfl)
  obtain ⟨st, rfl, ⟨s'', _, hs''⟩, hlaunch, _⟩ := hrun.1
  have hlaunch : (st = settled s' ∧ Recorded u (settled s') f) ∨
      (st.mode = .recovery ∧ Whole u f) := hlaunch rfl
  refine ⟨?_, fun r j hr hmode => ?_, st, rfl, fun hmode => ?_⟩
  · rcases hlaunch with ⟨_, hrec⟩ | ⟨_, hwhole⟩
    · exact recorded_whole hrec (settled_mode s')
    · exact hwhole
  · rw [recorded_selected hs'' hr] at hmode ⊢
    have hdesc := recorded_described hs'' hmode
    exact ⟨hdesc, described_accurate hdesc⟩
  · rcases hlaunch with ⟨rfl, hrec⟩ | ⟨hrecovery, _⟩
    · exact hrec.1
    · exact absurd hmode (by simp [hrecovery])

/-- An update of two sectors, finished on a device without a record. -/
theorem first_update_launches :
    let l : Layout ℕ ℕ := ⟨2, by decide, 8, fun xs size => xs.sum+size.toNat⟩
    let m : Manifest ℕ := ⟨8, 3, 38, text emptyText⟩
    let w : OtaWriter ℕ ℕ := ⟨true, true, 16, 16, 8, m, some (1, 20), 38⟩
    let d₀ : Device ℕ ℕ :=
      ⟨⟨fun _ => 1, fun s => 10+s, 0, fun _ => 0, fun _ => none⟩, []⟩
    let f₀ := (finish l ⟨some 8, 2, 0⟩ w d₀).2.flash
    ∃ s i, selected f₀ = some (s, i) ∧ s.mode = .pending ∧ stagingMeta s = manifestMeta m ∧
      ∀ (resets : List (Reset ℕ)) (script : List (Event ℕ)) (launched : Option (BootState ℕ)),
        (boot l ⟨runResets l resets f₀, script⟩).1 = some (.launch, launched) →
        let f := (boot l ⟨runResets l resets f₀, script⟩).2.flash
        let u := updateOf l s f₀ true
        Whole u f ∧
        (∀ r j, selected f = some (r, j) → r.mode = .trial ∨ r.mode = .stable →
          (Restored u r f ∨ Updated u r f) ∧ (Accurate l s f₀ → Accurate l r f)) ∧
        ∃ r, launched = some r ∧
          (r.mode = .trial ∨ r.mode = .stable → ∃ j, selected f = some (r, j)) := by
  intro l m w d₀
  exact launches_whole_images l ⟨some 8, 2, 0⟩ w d₀ (by decide +kernel)

end JaszczurHal.OtaLaunch
