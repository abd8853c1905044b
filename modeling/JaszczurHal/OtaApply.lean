import JaszczurHal.OtaBoot

/-!
# What one boot does to the recorded state

A recorded state is consistent with the flash when its mode tells where the
two images are. Every boot moves the recorded state along a small machine of
modes and keeps it consistent, whatever fails and wherever power is lost.
-/

set_option autoImplicit false

namespace JaszczurHal.OtaApply
open HalStatus CrashRun OtaImage OtaFlash OtaSwap OtaBoot

structure Meta (δ : Type) where
  size : UInt32
  generation : UInt32
  sha256 : δ
  version : List UInt8
  deriving DecidableEq, Repr

variable {α δ : Type}

def programMeta (s : BootState δ) : Meta δ :=
  ⟨s.programSize, s.programGeneration, s.programSha256, s.programVersion⟩

def stagingMeta (s : BootState δ) : Meta δ :=
  ⟨s.stagingSize, s.stagingGeneration, s.stagingSha256, s.stagingVersion⟩

/-- Two images and what the record written by a finished update said of
them: `old` in the program slot, `new` in the staging slot. `confirms` allows
the program to accept the new one. -/
structure Update (α δ : Type) where
  sectors : ℕ
  old : ℕ → α
  new : ℕ → α
  oldMeta : Meta δ
  newMeta : Meta δ
  confirms : Bool

def Holding (n : ℕ) (p g : ℕ → α) (f : Flash α δ) : Prop :=
  ∀ s < n, f.program s = p s ∧ f.staging s = g s

def Restored (u : Update α δ) (s : BootState δ) (f : Flash α δ) : Prop :=
  programMeta s = u.oldMeta ∧ stagingMeta s = u.newMeta ∧ Holding u.sectors u.old u.new f

def Updated (u : Update α δ) (s : BootState δ) (f : Flash α δ) : Prop :=
  programMeta s = u.newMeta ∧ stagingMeta s = u.oldMeta ∧ Holding u.sectors u.new u.old f

def Whole (u : Update α δ) (f : Flash α δ) : Prop :=
  (∀ s < u.sectors, f.program s = u.old s) ∨ ∀ s < u.sectors, f.program s = u.new s

def Consistent (u : Update α δ) (s : BootState δ) (f : Flash α δ) : Prop :=
  match s.mode with
  | .pending => programMeta s = u.oldMeta ∧ stagingMeta s = u.newMeta ∧
      Swapping u.sectors u.old u.new f
  | .trial => Updated u s f
  | .rollback => programMeta s = u.newMeta ∧ stagingMeta s = u.oldMeta ∧
      Swapping u.sectors u.new u.old f
  | .stable => Restored u s f ∨ u.confirms = true ∧ Updated u s f
  | .recovery => Whole u f

def Recorded (u : Update α δ) (s : BootState δ) (f : Flash α δ) : Prop :=
  (∃ index, selected f = some (s, index)) ∧ Consistent u s f

/-- One move of the recorded state; `fails` allows the one that gives up. -/
inductive Moves (fails : Bool) : BootState δ → BootState δ → Prop where
  | trial (s : BootState δ) (h : s.mode = .pending) :
      Moves fails s (nextState (swapCompleted s) .trial)
  | attempt (s : BootState δ) (h : s.mode = .trial) (ha : s.attempts < s.maxAttempts) :
      Moves fails s (nextState { s with attempts := s.attempts+1 } .trial)
  | rollback (s : BootState δ) (h : s.mode = .trial) (ha : ¬ s.attempts < s.maxAttempts) :
      Moves fails s (nextState s .rollback)
  | restored (s : BootState δ) (h : s.mode = .rollback) :
      Moves fails s (nextState (swapCompleted s) .stable)
  | recovery (s : BootState δ) (h : s.mode = .pending ∨ s.mode = .rollback)
      (hf : fails = true) : Moves fails s (nextState s .recovery)

def Left (u : Update α δ) (fails : Bool) (s : BootState δ) (f : Flash α δ) : Prop :=
  ∃ s', Relation.ReflTransGen (Moves fails) s s' ∧ Recorded u s' f

variable {u : Update α δ} {fails cuts : Bool}

@[simp] theorem nextState_mode (s : BootState δ) (m : BootMode) : (nextState s m).mode = m := rfl

@[simp] theorem nextState_sequence (s : BootState δ) (m : BootMode) :
    (nextState s m).sequence = s.sequence+1 := rfl

@[simp] theorem nextState_attempts (s : BootState δ) (m : BootMode) :
    (nextState s m).attempts = s.attempts := rfl

@[simp] theorem nextState_maxAttempts (s : BootState δ) (m : BootMode) :
    (nextState s m).maxAttempts = s.maxAttempts := rfl

@[simp] theorem nextState_programMeta (s : BootState δ) (m : BootMode) :
    programMeta (nextState s m) = programMeta s := rfl

@[simp] theorem nextState_stagingMeta (s : BootState δ) (m : BootMode) :
    stagingMeta (nextState s m) = stagingMeta s := rfl

@[simp] theorem swapCompleted_sequence (s : BootState δ) :
    (swapCompleted s).sequence = s.sequence := rfl

@[simp] theorem swapCompleted_attempts (s : BootState δ) : (swapCompleted s).attempts = 0 := rfl

@[simp] theorem swapCompleted_maxAttempts (s : BootState δ) :
    (swapCompleted s).maxAttempts = s.maxAttempts := rfl

@[simp] theorem swapCompleted_programMeta (s : BootState δ) :
    programMeta (swapCompleted s) = stagingMeta s := rfl

@[simp] theorem swapCompleted_stagingMeta (s : BootState δ) :
    stagingMeta (swapCompleted s) = programMeta s := rfl

theorem valid_nextState {s : BootState δ} (m : BootMode) (h : stateValid s = true) :
    stateValid (nextState s m) = true := h

theorem valid_swapCompleted {s : BootState δ} (h : stateValid s = true) :
    stateValid (swapCompleted s) = true := by
  simp only [stateValid, Bool.and_eq_true] at h ⊢
  exact ⟨⟨h.1.1, h.2⟩, h.1.2⟩

theorem moves_valid {s s' : BootState δ} (h : Moves fails s s') (hs : stateValid s = true) :
    stateValid s' = true := by
  cases h with
  | trial => exact valid_nextState _ (valid_swapCompleted hs)
  | attempt => exact hs
  | rollback => exact hs
  | restored => exact valid_nextState _ (valid_swapCompleted hs)
  | recovery => exact hs

theorem moves_sequence {s s' : BootState δ} (h : Moves fails s s') :
    s'.sequence = s.sequence+1 := by
  cases h <;> rfl

theorem selected_valid {f : Flash α δ} {s : BootState δ} {i : Bool}
    (h : selected f = some (s, i)) : stateValid s = true :=
  select_state_valid _ _ s i h

theorem consistent_pending {s : BootState δ} {f : Flash α δ} (h : s.mode = .pending) :
    Consistent u s f ↔ programMeta s = u.oldMeta ∧ stagingMeta s = u.newMeta ∧
      Swapping u.sectors u.old u.new f := by
  rw [Consistent, h]

theorem consistent_trial {s : BootState δ} {f : Flash α δ} (h : s.mode = .trial) :
    Consistent u s f ↔ Updated u s f := by
  rw [Consistent, h]

theorem consistent_rollback {s : BootState δ} {f : Flash α δ} (h : s.mode = .rollback) :
    Consistent u s f ↔ programMeta s = u.newMeta ∧ stagingMeta s = u.oldMeta ∧
      Swapping u.sectors u.new u.old f := by
  rw [Consistent, h]

theorem consistent_stable {s : BootState δ} {f : Flash α δ} (h : s.mode = .stable) :
    Consistent u s f ↔ Restored u s f ∨ u.confirms = true ∧ Updated u s f := by
  rw [Consistent, h]

theorem consistent_recovery {s : BootState δ} {f : Flash α δ} (h : s.mode = .recovery) :
    Consistent u s f ↔ Whole u f := by
  rw [Consistent, h]

theorem trial_congr {s : BootState δ} {f g : Flash α δ} (hs : s.mode = .trial)
    (h : Consistent u s f) (hp : g.program = f.program) (hg : g.staging = f.staging) :
    Consistent u s g := by
  obtain ⟨hprogram, hstaging, hhold⟩ := (consistent_trial hs).mp h
  refine (consistent_trial hs).mpr ⟨hprogram, hstaging, fun t ht => ?_⟩
  rw [hp, hg]
  exact hhold t ht

theorem swapping_record {n : ℕ} {p g : ℕ → α} (f : Flash α δ)
    (r : Bool → Option (BootState δ)) (h : Swapping n p g f) :
    Swapping n p g { f with record := r } :=
  ⟨h.sector, h.order⟩

/-- Writing a successor of the selected state: torn, it is absent and the
old record stands. -/
theorem writeState_holds {K : Flash α δ → Prop} {s t : BootState δ} {i : Bool}
    (hK : ∀ f r, K f → K { f with record := r }) (hseq : t.sequence = s.sequence+1)
    (hnext : stateValid s = true → stateValid t = true) :
    Holds (On fails cuts fun f => selected f = some (s, i) ∧ K f)
      (writeState t i : Step (Device α δ) Status)
      (fun r => On fails cuts fun f => K f ∧
        (selected f = some (s, i) ∨ selected f = some (t, !i)) ∧
        (r = .ok → selected f = some (t, !i)) ∧ (fails = false → r = .ok))
      (Cut fails cuts fun f => K f ∧
        (selected f = some (s, i) ∨ selected f = some (t, !i))) := by
  refine holds_known (fun d hd => selected_valid hd.1.1) fun hvalid => ?_
  have hleave : ∀ f : Flash α δ, selected f = some (s, i) ∧ K f → ∀ damage : Damage α,
      let g := damage.leave
        (fun f => { f with record := Function.update f.record (!i) (some t) })
        (fun _ _ f => { f with record := Function.update f.record (!i) none }) f
      K g ∧ (selected g = some (s, i) ∨ selected g = some (t, !i)) := by
    intro f hf damage
    cases damage with
    | before => exact ⟨hf.2, Or.inl hf.1⟩
    | after => exact ⟨hK f _ hf.2, Or.inr (select_next f.record s t i hf.1 hseq (hnext hvalid))⟩
    | torn x j => exact ⟨hK f _ hf.2, Or.inl (select_torn f.record s i hf.1)⟩
  rw [writeState, if_pos (hnext hvalid)]
  apply callback_holds
  · intro f hf
    have hdone := select_next f.record s t i hf.1 hseq (hnext hvalid)
    exact ⟨hK f _ hf.2, Or.inr hdone, fun _ => hdone, fun _ => rfl⟩
  · intro hfails f hf damage
    obtain ⟨hk, hsel⟩ := hleave f hf damage
    exact ⟨hk, hsel, by simp, by simp [hfails]⟩
  · intro _ f hf damage
    exact hleave f hf damage

theorem moves_holds {K : Flash α δ → Prop} {s s' : BootState δ} {m : BootMode} {i : Bool}
    (hK : ∀ f r, K f → K { f with record := r }) (hmove : Moves fails s (nextState s' m)) :
    Holds (On fails cuts fun f => selected f = some (s, i) ∧ K f)
      (writeNextState s' i m : Step (Device α δ) (Status × BootState δ × Bool))
      (fun r => On fails cuts fun f => K f ∧ r.2.1 = nextState s' m ∧
        (selected f = some (s, i) ∨ selected f = some (nextState s' m, !i)) ∧
        (r.1 = .ok → selected f = some (nextState s' m, !i) ∧ r.2.2 = !i) ∧
        (fails = false → r.1 = .ok))
      (Cut fails cuts fun f => K f ∧
        (selected f = some (s, i) ∨ selected f = some (nextState s' m, !i))) := by
  refine holds_bind (writeState_holds hK (moves_sequence hmove) (moves_valid hmove))
    fun status => ?_
  refine holds_pure _ fun d hd => on_mono hd fun f hf => ⟨hf.1, rfl, hf.2.1, ?_, hf.2.2.2⟩
  exact fun h => ⟨hf.2.2.1 h, if_pos h⟩

/-- An erase of the journal touches neither a record nor a slot. -/
theorem erasePhase_holds {K : Flash α δ → Prop}
    (hK : ∀ f j, K f → K { f with journal := j }) :
    Holds (On fails cuts K) (erasePhase : Step (Device α δ) Status)
      (fun r => On fails cuts fun f => K f ∧ (r = .ok → ∀ s, f.journal s = kErased) ∧
        (fails = false → r = .ok))
      (Cut fails cuts K) := by
  have hleave : ∀ f : Flash α δ, K f → ∀ damage : Damage α,
      K (damage.leave (fun f => { f with journal := fun _ => kErased })
        (fun _ j f => { f with journal := j }) f) := by
    intro f hf damage
    cases damage with
    | before => exact hf
    | after => exact hK f _ hf
    | torn x j => exact hK f _ hf
  apply callback_holds
  · intro f hf
    exact ⟨hK f _ hf, fun _ _ => rfl, fun _ => rfl⟩
  · intro hfails f hf damage
    exact ⟨hleave f hf damage, by simp, by simp [hfails]⟩
  · intro _ f hf damage
    exact hleave f hf damage

theorem slotMatches_holds [DecidableEq δ] {K : Flash α δ → Prop} (l : Layout α δ)
    (slot : Slot) (size : UInt32) (expected : δ) :
    Holds (On fails cuts K) (slotMatches l slot size expected : Step (Device α δ) Bool)
      (fun r => On fails cuts fun f => K f ∧
        (fails = false → slot ≠ .scratch → r = l.matches (f.get slot) size expected))
      (Cut fails cuts K) := by
  apply callback_holds
  · intro f hf
    refine ⟨hf, fun _ hne => ?_⟩
    simp [hne]
  · intro hfails f hf damage
    rw [damage_leave_id]
    exact ⟨hf, by simp [hfails]⟩
  · intro _ f hf damage
    rwa [damage_leave_id]

/-- A swap that is reported not to have started has not. -/
theorem swapStarted_holds {K : Flash α δ → Prop} (remaining sector : ℕ) :
    Holds (On fails cuts K) (swapStarted remaining sector : Step (Device α δ) Bool)
      (fun r => On fails cuts fun f => K f ∧
        (r = false → ∀ s, sector ≤ s → s < sector+remaining → f.journal s = kErased))
      (Cut fails cuts K) := by
  induction remaining generalizing sector K with
  | zero => exact holds_pure _ fun d hd => on_mono hd fun f hf => ⟨hf, fun _ s _ _ => by omega⟩
  | succ remaining ih =>
    refine holds_bind (readPhase_holds sector) fun r => ?_
    cases r with
    | error status => exact holds_pure _ fun d hd => on_mono hd fun f hf => ⟨hf.1, by simp⟩
    | ok phase =>
      refine holds_ite (fun hne => ?_) (fun heq => ?_)
      · exact holds_pure _ fun d hd => on_mono hd fun f hf => ⟨hf.1, by simp⟩
      · have hrest := ih (K := fun f => K f ∧ f.journal sector = kErased) (sector+1)
        refine holds_conseq hrest (fun d hd => on_mono hd fun f hf => ?_)
          (fun started d hd => on_mono hd fun f hf => ⟨hf.1.1, fun h s hle hlt => ?_⟩)
          fun d hd => cut_mono hd fun f hf => hf.1
        · exact ⟨hf.1, (hf.2.1 phase rfl).trans (not_not.mp heq)⟩
        · rcases Nat.eq_or_lt_of_le hle with rfl | hgt
          · exact hf.1.2
          · exact hf.2 h s hgt (by omega)

theorem selected_congr {f g : Flash α δ} (h : g.record = f.record) : selected g = selected f := by
  simp only [selected, h]

theorem swapExecute_keeps_selected (n : ℕ) (x : Option (BootState δ × Bool)) :
    Keeps (fun d : Device α δ => selected d.flash = x) (swapExecute n) := by
  intro d hd
  have hsame := swapExecute_record (r := d.flash.record) n d rfl
  rcases hr : swapExecute n d with ⟨_ | status, e⟩
  · simp only [hr] at hsame
    exact (selected_congr hsame).trans hd
  · simp only [hr] at hsame
    exact (selected_congr hsame).trans hd

theorem swapExecute_selected {n : ℕ} {p g : ℕ → α} {x : Option (BootState δ × Bool)} :
    Holds (On fails cuts fun f => selected f = x ∧ Swapping n p g f)
      (swapExecute n : Step (Device α δ) Status)
      (fun r => On fails cuts fun f => (selected f = x ∧ Swapping n p g f) ∧
        (r = .ok → Before n p g n f) ∧ (fails = false → n ≠ 0 → r = .ok))
      (Cut fails cuts fun f => selected f = x ∧ Swapping n p g f) := by
  refine holds_conseq (holds_frame swapExecute_holds (swapExecute_keeps_selected n x))
    (fun d hd => ⟨on_mono hd fun f hf => hf.2, hd.1.1⟩)
    (fun status d hd => ⟨⟨⟨hd.2, hd.1.1.1⟩, hd.1.1.2⟩, hd.1.2⟩)
    (fun d hd => ⟨hd.1.1, ⟨hd.2, hd.1.2.1⟩, hd.1.2.2⟩)

theorem left_stay {s : BootState δ} {i : Bool} {f : Flash α δ}
    (h : selected f = some (s, i)) (hc : Consistent u s f) : Left u fails s f :=
  ⟨s, Relation.ReflTransGen.refl, ⟨i, h⟩, hc⟩

theorem left_move {s s' : BootState δ} {i : Bool} {f : Flash α δ} (hmove : Moves fails s s')
    (h : selected f = some (s', i)) (hc : Consistent u s' f) : Left u fails s f :=
  ⟨s', Relation.ReflTransGen.single hmove, ⟨i, h⟩, hc⟩

theorem left_after {s s' : BootState δ} {f : Flash α δ} (hmove : Moves fails s s')
    (h : Left u fails s' f) : Left u fails s f := by
  obtain ⟨t, hs, ht⟩ := h
  exact ⟨t, Relation.ReflTransGen.head hmove hs, ht⟩

theorem left_either {s s' : BootState δ} {i : Bool} {f : Flash α δ} (hmove : Moves fails s s')
    (h : selected f = some (s, i) ∨ selected f = some (s', !i)) (hs : Consistent u s f)
    (hs' : Consistent u s' f) : Left u fails s f := by
  rcases h with h | h
  · exact left_stay h hs
  · exact left_move hmove h hs'

theorem holding_done {n : ℕ} {p g : ℕ → α} {f : Flash α δ} (h : Before n p g n f) :
    Holding n g p f :=
  fun _ hs => exchanged h hs

theorem holding_fresh {n : ℕ} {p g : ℕ → α} {f : Flash α δ} (h : Swapping n p g f)
    (hj : ∀ s < n, f.journal s = kErased) : Holding n p g f :=
  fun s hs => (sector_erased (hj s hs)).mp (h.sector s hs)

theorem fresh_swapping {n : ℕ} {p g : ℕ → α} {f : Flash α δ} (h : Holding n p g f)
    (hj : ∀ s < n, f.journal s = kErased) : Swapping n p g f :=
  ⟨fun s hs => (sector_erased (hj s hs)).mpr (h s hs),
    fun _ t _ ht hne => absurd (hj t ht) hne⟩

structure Exchange (u : Update α δ) (fails : Bool) (s : BootState δ) (m : BootMode)
    (p g : ℕ → α) : Prop where
  nonempty : u.sectors ≠ 0
  done : Moves fails s (nextState (swapCompleted s) m)
  mode : m = .trial ∨ m = .stable
  give : fails = true → Moves fails s (nextState s .recovery)
  start : ∀ f : Flash α δ, Swapping u.sectors p g f → Consistent u s f
  finish : ∀ f : Flash α δ, Holding u.sectors g p f →
    Consistent u (nextState (swapCompleted s) m) f
  whole : ∀ f : Flash α δ, Holding u.sectors p g f → Whole u f

def Outcome (u : Update α δ) (fails : Bool) (s final : BootState δ)
    (r : Action × BootState δ) (f : Flash α δ) : Prop :=
  Left u fails s f ∧
  (r.1 = .launch → (r.2 = final ∧ Recorded u final f) ∨ (r.2.mode = .recovery ∧ Whole u f)) ∧
  (fails = false → r = (.launch, final))

theorem completeSwap_holds {s : BootState δ} {i : Bool} {m : BootMode} {p g : ℕ → α}
    (l : Layout α δ) (hl : l.sectors = u.sectors) (h : Exchange u fails s m p g) :
    Holds (On fails cuts fun f => selected f = some (s, i) ∧ Swapping u.sectors p g f)
      (completeSwap l s i m : Step (Device α δ) (Action × BootState δ))
      (fun r => On fails cuts (Outcome u fails s (nextState (swapCompleted s) m) r))
      (Cut fails cuts (Left u fails s)) := by
  rw [completeSwap, hl]
  refine holds_bind (holds_conseq swapExecute_selected (fun _ => id) (fun _ _ => id)
    fun d hd => cut_mono hd fun f hf => left_stay hf.1 (h.start f hf.2)) fun status => ?_
  refine holds_ite (fun hne => ?_) (fun heq => ?_)
  · -- only a reported failure stops the exchange, and then only unstarted it is given up
    refine holds_known (φ := fails = true) (fun d hd => ?_) fun hfails => ?_
    · cases hf : fails with
      | true => rfl
      | false => exact absurd (hd.1.2.2 hf h.nonempty) hne
    refine holds_bind (holds_conseq (swapStarted_holds
      (K := fun f => selected f = some (s, i) ∧ Swapping u.sectors p g f) u.sectors 0)
      (fun d hd => on_mono hd fun f hf => hf.1) (fun _ _ => id)
      fun d hd => cut_mono hd fun f hf => left_stay hf.1 (h.start f hf.2)) fun started => ?_
    refine holds_ite (fun hyes => ?_) (fun hno => ?_)
    · refine holds_pure _ fun d hd => on_mono hd fun f hf => ?_
      exact ⟨left_stay hf.1.1 (h.start f hf.1.2), by simp, by simp [hfails]⟩
    · have hleft : ∀ f : Flash α δ, (Swapping u.sectors p g f ∧ Holding u.sectors p g f) ∧
          (selected f = some (s, i) ∨ selected f = some (nextState s .recovery, !i)) →
          Left u fails s f := fun f hf =>
        left_either (h.give hfails) hf.2 (h.start f hf.1.1)
          ((consistent_recovery rfl).mpr (h.whole f hf.1.2))
      refine holds_bind (holds_conseq (moves_holds
        (K := fun f => Swapping u.sectors p g f ∧ Holding u.sectors p g f)
        (fun f r hf => ⟨swapping_record f r hf.1, hf.2⟩) (h.give hfails))
        (fun d hd => on_mono hd fun f hf => ?_) (fun _ _ => id)
        fun d hd => cut_mono hd hleft) fun written => ?_
      · have hj := hf.2 (Bool.not_eq_true _ ▸ hno)
        exact ⟨hf.1.1, hf.1.2, holding_fresh hf.1.2 fun s hs => hj s (Nat.zero_le s) (by omega)⟩
      · refine holds_pure _ fun d hd => on_mono hd fun f hf => ?_
        refine ⟨hleft f ⟨hf.1, hf.2.2.1⟩, fun _ => Or.inr ⟨?_, h.whole f hf.1.2⟩, ?_⟩
        · rw [hf.2.1, nextState_mode]
        · simp [hfails]
  · have hleft : ∀ f : Flash α δ, Before u.sectors p g u.sectors f ∧
        (selected f = some (s, i) ∨
          selected f = some (nextState (swapCompleted s) m, !i)) → Left u fails s f :=
      fun f hf => left_either h.done hf.2 (h.start f hf.1.1) (h.finish f (holding_done hf.1))
    refine holds_bind (holds_conseq (moves_holds (K := Before u.sectors p g u.sectors)
      (fun f r hf => ⟨swapping_record f r hf.1, hf.2⟩) h.done)
      (fun d hd => on_mono hd fun f hf => ⟨hf.1.1, hf.2.1 (not_not.mp heq)⟩) (fun _ _ => id)
      fun d hd => cut_mono hd hleft) fun written => ?_
    obtain ⟨written, state, index⟩ := written
    refine holds_ite (fun hbad => ?_) (fun hgood => ?_)
    · refine holds_pure _ fun d hd => on_mono hd fun f hf => ?_
      refine ⟨hleft f ⟨hf.1, hf.2.2.1⟩, by simp, fun hfails => ?_⟩
      exact absurd (hf.2.2.2.2 hfails) hbad
    · refine holds_known (fun d hd => hd.1.2.1) fun hstate => ?_
      subst hstate
      refine holds_bind (holds_conseq (erasePhase_holds (K := fun f =>
        selected f = some (nextState (swapCompleted s) m, !i) ∧ Holding u.sectors g p f)
        fun f j hf => hf) (fun d hd => on_mono hd fun f hf => ?_) (fun _ _ => id)
        fun d hd => cut_mono hd fun f hf => left_move h.done hf.1 (h.finish f hf.2))
        fun erased => ?_
      · exact ⟨(hf.2.2.2.1 (not_not.mp hgood)).1, holding_done hf.1⟩
      · refine holds_pure _ fun d hd => on_mono hd fun f hf => ?_
        exact ⟨left_move h.done hf.1.1 (h.finish f hf.1.2),
          fun _ => Or.inl ⟨rfl, ⟨_, hf.1.1⟩, h.finish f hf.1.2⟩, fun _ => rfl⟩

def settled (s : BootState δ) : BootState δ :=
  match s.mode with
  | .pending => nextState (swapCompleted s) .trial
  | .trial => if s.attempts < s.maxAttempts
      then nextState { s with attempts := s.attempts+1 } .trial
      else nextState (swapCompleted (nextState s .rollback)) .stable
  | .rollback => nextState (swapCompleted s) .stable
  | .stable => s
  | .recovery => s

theorem whole_old {f : Flash α δ} (h : Holding u.sectors u.old u.new f) : Whole u f :=
  Or.inl fun s hs => (h s hs).1

theorem whole_new {f : Flash α δ} (h : Holding u.sectors u.new u.old f) : Whole u f :=
  Or.inr fun s hs => (h s hs).1

theorem exchange_pending (hn : u.sectors ≠ 0) {s : BootState δ} (hs : s.mode = .pending)
    (hp : programMeta s = u.oldMeta) (hg : stagingMeta s = u.newMeta) :
    Exchange u fails s .trial u.old u.new where
  nonempty := hn
  done := Moves.trial s hs
  mode := Or.inl rfl
  give := Moves.recovery s (Or.inl hs)
  start := fun _ hf => (consistent_pending hs).mpr ⟨hp, hg, hf⟩
  finish := fun _ hf => (consistent_trial rfl).mpr ⟨hg, hp, hf⟩
  whole := fun _ => whole_old

theorem exchange_rollback (hn : u.sectors ≠ 0) {s : BootState δ} (hs : s.mode = .rollback)
    (hp : programMeta s = u.newMeta) (hg : stagingMeta s = u.oldMeta) :
    Exchange u fails s .stable u.new u.old where
  nonempty := hn
  done := Moves.restored s hs
  mode := Or.inr rfl
  give := Moves.recovery s (Or.inr hs)
  start := fun _ hf => (consistent_rollback hs).mpr ⟨hp, hg, hf⟩
  finish := fun _ hf => (consistent_stable rfl).mpr (Or.inl ⟨hg, hp, hf⟩)
  whole := fun _ => whole_new

theorem outcome_stays {s : BootState δ} {i : Bool} {f : Flash α δ}
    (hsel : selected f = some (s, i)) (hc : Consistent u s f) :
    Outcome u fails s s (.launch, s) f :=
  ⟨left_stay hsel hc, fun _ => Or.inl ⟨rfl, ⟨i, hsel⟩, hc⟩, fun _ => rfl⟩

theorem attempt_holds {s : BootState δ} {i : Bool} (hs : s.mode = .trial)
    (hleft : s.attempts < s.maxAttempts) :
    Holds (On fails cuts fun f => selected f = some (s, i) ∧ Consistent u s f)
      (do
        let (status, state, _) ←
          writeNextState { s with attempts := s.attempts+1 } i .trial
        pure (if status = .ok then .launch else .restart, state) :
          Step (Device α δ) (Action × BootState δ))
      (fun r => On fails cuts (Outcome u fails s
        (nextState { s with attempts := s.attempts+1 } .trial) r))
      (Cut fails cuts (Left u fails s)) := by
  have hmove : Moves fails s _ := Moves.attempt s hs hleft
  have hsame : ∀ f : Flash α δ, Consistent u s f →
      Consistent u (nextState { s with attempts := s.attempts+1 } .trial) f :=
    fun f hf => (consistent_trial rfl).mpr ((consistent_trial hs).mp hf)
  refine holds_bind (holds_conseq (moves_holds (K := Consistent u s)
    (fun f r hf => ?_) hmove) (fun _ => id) (fun _ _ => id)
    fun d hd => cut_mono hd fun f hf => left_either hmove hf.2 hf.1 (hsame f hf.1))
    fun written => ?_
  · exact trial_congr hs hf rfl rfl
  · obtain ⟨status, state, index⟩ := written
    refine holds_pure _ fun d hd => on_mono hd fun f hf => ?_
    obtain ⟨hcons, rfl, hsel, hok, hfail⟩ := hf
    refine ⟨left_either hmove hsel hcons (hsame f hcons), fun haction => Or.inl ⟨rfl, ?_⟩, ?_⟩
    · have hwritten : status = .ok := by
        by_contra hne
        simp [hne] at haction
      exact ⟨⟨_, (hok hwritten).1⟩, hsame f hcons⟩
    · intro hfails
      rw [if_pos (hfail hfails)]

theorem rollback_holds {s : BootState δ} {i : Bool} (l : Layout α δ)
    (hl : l.sectors = u.sectors) (hs : s.mode = .trial)
    (hspent : ¬ s.attempts < s.maxAttempts) :
    Holds (On fails cuts fun f => selected f = some (s, i) ∧ Consistent u s f)
      (do
        let status ← erasePhase
        if status ≠ .ok then pure (.restart, s)
        else do
          let (status, state, index) ← writeNextState s i .rollback
          if status ≠ .ok then pure (.restart, state)
          else completeSwap l state index .stable :
            Step (Device α δ) (Action × BootState δ))
      (fun r => On fails cuts (Outcome u fails s
        (nextState (swapCompleted (nextState s .rollback)) .stable) r))
      (Cut fails cuts (Left u fails s)) := by
  have hn : u.sectors ≠ 0 := hl ▸ l.pos.ne'
  have hmove : Moves fails s _ := Moves.rollback s hs hspent
  refine holds_bind (holds_conseq (erasePhase_holds (K := fun f =>
    selected f = some (s, i) ∧ Consistent u s f) fun f j hf => ⟨hf.1, ?_⟩) (fun _ => id)
    (fun _ _ => id) fun d hd => cut_mono hd fun f hf => left_stay hf.1 hf.2) fun erased => ?_
  · exact trial_congr hs hf.2 rfl rfl
  refine holds_ite (fun hbad => ?_) (fun hgood => ?_)
  · refine holds_pure _ fun d hd => on_mono hd fun f hf => ?_
    exact ⟨left_stay hf.1.1 hf.1.2, by simp, fun h => absurd (hf.2.2 h) hbad⟩
  refine holds_known (φ := programMeta s = u.newMeta ∧ stagingMeta s = u.oldMeta)
    (fun d hd => ?_) fun hmeta => ?_
  · obtain ⟨hp, hg, _⟩ := (consistent_trial hs).mp hd.1.1.2
    exact ⟨hp, hg⟩
  have hback : Exchange u fails (nextState s .rollback) .stable u.new u.old :=
    exchange_rollback hn rfl hmeta.1 hmeta.2
  have hleft : ∀ f : Flash α δ, (Holding u.sectors u.new u.old f ∧
      Swapping u.sectors u.new u.old f) ∧
      (selected f = some (s, i) ∨ selected f = some (nextState s .rollback, !i)) →
      Left u fails s f := fun f hf => left_either hmove hf.2
    ((consistent_trial hs).mpr ⟨hmeta.1, hmeta.2, hf.1.1⟩) (hback.start f hf.1.2)
  refine holds_bind (holds_conseq (moves_holds (K := fun f =>
    Holding u.sectors u.new u.old f ∧ Swapping u.sectors u.new u.old f)
    (fun f r hf => ⟨hf.1, swapping_record f r hf.2⟩) hmove)
    (fun d hd => on_mono hd fun f hf => ?_) (fun _ _ => id) fun d hd => cut_mono hd hleft)
    fun written => ?_
  · obtain ⟨_, _, hhold⟩ := (consistent_trial hs).mp hf.1.2
    exact ⟨hf.1.1, hhold, fresh_swapping hhold fun t _ => hf.2.1 (not_not.mp hgood) t⟩
  obtain ⟨status, state, index⟩ := written
  refine holds_ite (fun hne => ?_) (fun heq => ?_)
  · refine holds_pure _ fun d hd => on_mono hd fun f hf => ?_
    exact ⟨hleft f ⟨hf.1, hf.2.2.1⟩, by simp, fun h => absurd (hf.2.2.2.2 h) hne⟩
  · refine holds_known (φ := state = nextState s .rollback ∧ index = !i)
      (fun d hd => ⟨hd.1.2.1, (hd.1.2.2.2.1 (not_not.mp heq)).2⟩) fun hstate => ?_
    obtain ⟨rfl, rfl⟩ := hstate
    refine holds_conseq (completeSwap_holds l hl hback) (fun d hd => on_mono hd fun f hf => ?_)
      (fun r d hd => on_mono hd fun f hf => ⟨left_after hmove hf.1, hf.2⟩)
      fun d hd => cut_mono hd fun f hf => left_after hmove hf
    exact ⟨(hf.2.2.2.1 (not_not.mp heq)).1, hf.1.2⟩

variable [DecidableEq δ]

def NewVerified (l : Layout α δ) (u : Update α δ) : Prop :=
  l.matches u.new u.newMeta.size u.newMeta.sha256 = true

theorem new_matches {l : Layout α δ} (hl : l.sectors = u.sectors) (hnew : NewVerified l u)
    {slot : ℕ → α} (h : ∀ s < u.sectors, slot s = u.new s) {m : Meta δ} (hm : m = u.newMeta) :
    l.matches slot m.size m.sha256 = true := by
  have hsame : contents l.sectors slot = contents l.sectors u.new :=
    contents_congr fun s hs => h s (hl ▸ hs)
  rw [NewVerified, Layout.matches] at hnew
  rw [hm, Layout.matches, hsame]
  exact hnew

theorem pendingRefused_holds (l : Layout α δ) (hl : l.sectors = u.sectors)
    (hnew : fails = false → NewVerified l u) {s : BootState δ} {i : Bool}
    (hs : s.mode = .pending) :
    Holds (On fails cuts fun f => selected f = some (s, i) ∧ Consistent u s f)
      (pendingRefused l s : Step (Device α δ) Bool)
      (fun r => On fails cuts fun f => (selected f = some (s, i) ∧ Consistent u s f) ∧
        (r = true → fails = true ∧ Holding u.sectors u.old u.new f))
      (Cut fails cuts fun f => selected f = some (s, i) ∧ Consistent u s f) := by
  refine holds_bind (swapStarted_holds l.sectors 0) fun started => ?_
  refine holds_ite (fun hyes => ?_) (fun hno => ?_)
  · exact holds_pure _ fun d hd => on_mono hd fun f hf => ⟨hf.1, by simp⟩
  · have hfresh : ∀ f : Flash α δ, Consistent u s f →
        (∀ t, 0 ≤ t → t < 0+l.sectors → f.journal t = kErased) →
        Holding u.sectors u.old u.new f := fun f hf hj =>
      holding_fresh ((consistent_pending hs).mp hf).2.2
        fun t ht => hj t (Nat.zero_le t) (by omega)
    refine holds_bind (holds_conseq (slotMatches_holds
      (K := fun f => (selected f = some (s, i) ∧ Consistent u s f) ∧
        Holding u.sectors u.old u.new f) l .staging s.stagingSize s.stagingSha256)
      (fun d hd => on_mono hd fun f hf => ?_) (fun _ _ => id)
      fun d hd => cut_mono hd fun f hf => hf.1) fun whole => ?_
    · exact ⟨hf.1, hfresh f hf.1.2 (hf.2 (Bool.not_eq_true _ ▸ hno))⟩
    · refine holds_pure _ fun d hd => on_mono hd fun f hf => ⟨hf.1.1, fun hr => ⟨?_, hf.1.2⟩⟩
      by_contra hfails
      have hfails := Bool.not_eq_true _ ▸ hfails
      have hmeta := ((consistent_pending hs).mp hf.1.1.2).2.1
      have hwhole := hf.2 hfails (by decide)
      have hmatch : l.matches (f.get .staging) s.stagingSize s.stagingSha256 = true :=
        new_matches hl (hnew hfails) (fun t ht => (hf.1.2 t ht).2) hmeta
      simp [hwhole, hmatch] at hr

theorem launch_checked (l : Layout α δ) (hl : l.sectors = u.sectors)
    (hnew : fails = false → NewVerified l u) {s final : BootState δ}
    (hfinal : final.mode = .trial) :
    Holds (On fails cuts (Outcome u fails s final (.launch, final)))
      (do
        let whole ← slotMatches l .program final.programSize final.programSha256
        pure (if whole then .launch else .restart, final) :
          Step (Device α δ) (Action × BootState δ))
      (fun r => On fails cuts (Outcome u fails s final r)) (Cut fails cuts (Left u fails s)) := by
  refine holds_bind (holds_conseq (slotMatches_holds (K := Outcome u fails s final
    (.launch, final)) l .program final.programSize final.programSha256) (fun _ => id)
    (fun _ _ => id) fun d hd => cut_mono hd fun f hf => hf.1) fun whole => ?_
  refine holds_pure _ fun d hd => on_mono hd fun f hf => ⟨hf.1.1, fun _ => hf.1.2.1 rfl, ?_⟩
  intro hfails
  have hrec : Recorded u final f := by
    rcases hf.1.2.1 rfl with h | h
    · exact h.2
    · exact absurd h.1 (by simp [hfinal])
  obtain ⟨hprogram, _, hhold⟩ := (consistent_trial hfinal).mp hrec.2
  have hmatch : l.matches (f.get .program) final.programSize final.programSha256 = true :=
    new_matches hl (hnew hfails) (fun t ht => (hhold t ht).1) hprogram
  have hwhole := hf.2 hfails (by decide)
  rw [hwhole, hmatch]
  rfl

/-- What one application of a recorded state does, by its mode. -/
theorem bootApply_holds (l : Layout α δ) (hl : l.sectors = u.sectors)
    (hnew : fails = false → NewVerified l u) (s : BootState δ) (i : Bool) :
    Holds (On fails cuts fun f => selected f = some (s, i) ∧ Consistent u s f)
      (bootApply l s i : Step (Device α δ) (Action × BootState δ))
      (fun r => On fails cuts (Outcome u fails s (settled s) r))
      (Cut fails cuts (Left u fails s)) := by
  have hn : u.sectors ≠ 0 := hl ▸ l.pos.ne'
  rw [bootApply, if_neg l.pos.ne']
  cases hs : s.mode with
  | pending =>
    have hfinal : settled s = nextState (swapCompleted s) .trial := by rw [settled, hs]
    rw [hfinal]
    refine holds_bind (holds_conseq (pendingRefused_holds l hl hnew hs) (fun _ => id)
      (fun _ _ => id) fun d hd => cut_mono hd fun f hf => left_stay hf.1 hf.2) fun refused => ?_
    refine holds_ite (fun hyes => ?_) (fun hno => ?_)
    · refine holds_known (φ := fails = true) (fun d hd => (hd.1.2 hyes).1) fun hfails => ?_
      have hmove : Moves fails s _ := Moves.recovery s (Or.inl hs) hfails
      have hleft : ∀ f : Flash α δ, (Consistent u s f ∧ Holding u.sectors u.old u.new f) ∧
          (selected f = some (s, i) ∨ selected f = some (nextState s .recovery, !i)) →
          Left u fails s f := fun f hf =>
        left_either hmove hf.2 hf.1.1 ((consistent_recovery rfl).mpr (whole_old hf.1.2))
      refine holds_bind (holds_conseq (moves_holds
        (K := fun f => Consistent u s f ∧ Holding u.sectors u.old u.new f)
        (fun f r hf => ⟨?_, hf.2⟩) hmove)
        (fun d hd => on_mono hd fun f hf => ⟨hf.1.1, hf.1.2, (hf.2 hyes).2⟩) (fun _ _ => id)
        fun d hd => cut_mono hd hleft) fun written => ?_
      · obtain ⟨hp, hg, hswap⟩ := (consistent_pending hs).mp hf.1
        exact (consistent_pending hs).mpr ⟨hp, hg, swapping_record f r hswap⟩
      · refine holds_pure _ fun d hd => on_mono hd fun f hf => ?_
        refine ⟨hleft f ⟨hf.1, hf.2.2.1⟩, fun _ => Or.inr ⟨?_, whole_old hf.1.2⟩, ?_⟩
        · rw [hf.2.1, nextState_mode]
        · simp [hfails]
    · refine holds_known (φ := programMeta s = u.oldMeta ∧ stagingMeta s = u.newMeta)
        (fun d hd => ?_) fun hmeta => ?_
      · obtain ⟨hp, hg, _⟩ := (consistent_pending hs).mp hd.1.1.2
        exact ⟨hp, hg⟩
      refine holds_bind (holds_pre (completeSwap_holds l hl
        (exchange_pending hn hs hmeta.1 hmeta.2)) fun d hd => on_mono hd fun f hf =>
          ⟨hf.1.1, ((consistent_pending hs).mp hf.1.2).2.2⟩) fun swapped => ?_
      obtain ⟨action, state⟩ := swapped
      refine holds_ite (fun hdone => holds_pure _ fun _ => id) (fun hcheck => ?_)
      simp only [not_or, not_not] at hcheck
      obtain ⟨rfl, hmode⟩ := hcheck
      refine holds_known (φ := state = nextState (swapCompleted s) .trial)
        (fun d hd => ?_) fun hstate => ?_
      · rcases hd.1.2.1 rfl with h | h
        · exact h.1
        · exact absurd h.1 (by simp [hmode])
      · subst hstate
        exact launch_checked l hl hnew rfl
  | trial =>
    refine holds_ite (fun hleft => ?_) (fun hspent => ?_)
    · have hfinal : settled s = nextState { s with attempts := s.attempts+1 } .trial := by
        simp only [settled, hs, if_pos hleft]
      rw [hfinal]
      exact attempt_holds hs hleft
    · have hfinal : settled s = nextState (swapCompleted (nextState s .rollback)) .stable := by
        simp only [settled, hs, if_neg hspent]
      rw [hfinal]
      exact rollback_holds l hl hs hspent
  | rollback =>
    have hfinal : settled s = nextState (swapCompleted s) .stable := by rw [settled, hs]
    rw [hfinal]
    refine holds_known (φ := programMeta s = u.newMeta ∧ stagingMeta s = u.oldMeta)
      (fun d hd => ?_) fun hmeta => ?_
    · obtain ⟨hp, hg, _⟩ := (consistent_rollback hs).mp hd.1.2
      exact ⟨hp, hg⟩
    exact holds_pre (completeSwap_holds l hl (exchange_rollback hn hs hmeta.1 hmeta.2))
      fun d hd => on_mono hd fun f hf => ⟨hf.1, ((consistent_rollback hs).mp hf.2).2.2⟩
  | stable =>
    have hfinal : settled s = s := by rw [settled, hs]
    rw [hfinal]
    exact holds_pure _ fun d hd => on_mono hd fun f hf => outcome_stays hf.1 hf.2
  | recovery =>
    have hfinal : settled s = s := by rw [settled, hs]
    rw [hfinal]
    exact holds_pure _ fun d hd => on_mono hd fun f hf => outcome_stays hf.1 hf.2

end JaszczurHal.OtaApply
