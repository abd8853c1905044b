import JaszczurHal.OtaLaunch

/-!
# How often an unconfirmed image is launched

With power cuts alone the recorded state only moves forward: a pending
update, the trials by their attempts, the way back, the old image. Completed
boots and trial launches are both bounded by how far it has come.
-/

set_option autoImplicit false

namespace JaszczurHal.OtaRollback
open HalStatus CrashRun OtaImage OtaFlash OtaSwap OtaBoot OtaApply OtaLaunch

variable {α δ : Type} {u : Update α δ}

def stage (s : BootState δ) : ℕ :=
  match s.mode with
  | .pending => 0
  | .trial => s.attempts.toNat+1
  | .rollback => s.maxAttempts.toNat+1
  | .stable => s.maxAttempts.toNat+1
  | .recovery => s.maxAttempts.toNat+1

structure Budget (limit : UInt8) (c n : ℕ) (s : BootState δ) : Prop where
  max : s.maxAttempts = limit
  mode : s.mode ≠ .recovery
  attempts : s.mode = .trial → s.attempts.toNat ≤ limit.toNat
  launches : n ≤ stage s
  completed : s.mode ≠ .stable → c ≤ stage s

theorem stage_le {limit : UInt8} {c n : ℕ} {s : BootState δ} (h : Budget limit c n s) :
    stage s ≤ limit.toNat+1 := by
  unfold stage
  cases hs : s.mode with
  | pending => exact Nat.zero_le _
  | trial => exact Nat.succ_le_succ (h.attempts hs)
  | rollback => rw [h.max]
  | stable => rw [h.max]
  | recovery => exact absurd hs h.mode

theorem attempts_succ {s : BootState δ} (h : s.attempts < s.maxAttempts) :
    (s.attempts+1).toNat = s.attempts.toNat+1 := by
  have hlt := UInt8.lt_iff_toNat_lt.mp h
  have hmax := s.maxAttempts.toNat_lt
  rw [UInt8.toNat_add]
  have hone : (1 : UInt8).toNat = 1 := rfl
  omega

theorem moves_budget {limit : UInt8} {c n : ℕ} {s s' : BootState δ} (h : Budget limit c n s)
    (hmove : Moves false s s') : Budget limit c n s' := by
  have hle := stage_le h
  cases hmove with
  | trial hs =>
    have hl := h.launches
    have hc := h.completed (by simp [hs])
    simp only [stage, hs] at hl hc
    exact ⟨h.max, by simp, fun _ => Nat.zero_le _, by simp [stage]; omega,
      fun _ => by simp [stage]; omega⟩
  | attempt hs ha =>
    have hl := h.launches
    have hc := h.completed (by simp [hs])
    have hmax := h.max
    have hlt := UInt8.lt_iff_toNat_lt.mp ha
    simp only [stage, hs] at hl hc
    have hstage : stage (nextState { s with attempts := s.attempts+1 } .trial) =
        s.attempts.toNat+1+1 := congrArg (·+1) (attempts_succ ha)
    refine ⟨h.max, by simp, fun _ => ?_, by omega, fun _ => by omega⟩
    have hnext : (nextState { s with attempts := s.attempts+1 } .trial).attempts.toNat =
        s.attempts.toNat+1 := attempts_succ ha
    rw [hnext, ← hmax]
    exact hlt
  | rollback hs ha =>
    have hl := h.launches
    have hc := h.completed (by simp [hs])
    have hstage : stage (nextState s .rollback) = limit.toNat+1 := by
      simp [stage, h.max]
    exact ⟨h.max, by simp, by simp, by omega, fun _ => by omega⟩
  | restored hs =>
    have hl := h.launches
    have hstage : stage (nextState (swapCompleted s) .stable) = limit.toNat+1 := by
      simp [stage, h.max]
    exact ⟨h.max, by simp, by simp, by omega, by simp⟩
  | recovery hs hf => cases hf

theorem path_budget {limit : UInt8} {c n : ℕ} {s s' : BootState δ} (h : Budget limit c n s)
    (hpath : Relation.ReflTransGen (Moves false) s s') : Budget limit c n s' := by
  induction hpath with
  | refl => exact h
  | tail _ hmove ih => exact moves_budget ih hmove

/-- A completed boot comes one stage further, or back to the old image. -/
theorem settled_budget {limit : UInt8} {c n : ℕ} {s : BootState δ} (h : Budget limit c n s) :
    Budget limit (c+1) (if (settled s).mode = .trial then n+1 else n) (settled s) := by
  have hle := stage_le h
  have hl := h.launches
  cases hs : s.mode with
  | pending =>
    have hc := h.completed (by simp [hs])
    simp only [stage, hs] at hl hc
    have hsettled : settled s = nextState (swapCompleted s) .trial := by rw [settled, hs]
    rw [hsettled]
    refine ⟨h.max, by simp, fun _ => Nat.zero_le _, ?_, fun _ => ?_⟩
    · simp [stage]
      omega
    · simp [stage]
      omega
  | trial =>
    have hc := h.completed (by simp [hs])
    simp only [stage, hs] at hl hc
    by_cases ha : s.attempts < s.maxAttempts
    · have hsettled : settled s = nextState { s with attempts := s.attempts+1 } .trial := by
        simp only [settled, hs, if_pos ha]
      have hstage : stage (settled s) = s.attempts.toNat+1+1 := by
        rw [hsettled]
        exact congrArg (·+1) (attempts_succ ha)
      have hmode : (settled s).mode = .trial := by rw [hsettled, nextState_mode]
      have hmoved := moves_budget h (Moves.attempt s hs ha)
      rw [← hsettled] at hmoved
      refine ⟨hmoved.max, hmoved.mode, hmoved.attempts, ?_, fun _ => by omega⟩
      rw [if_pos hmode]
      omega
    · have hsettled : settled s = nextState (swapCompleted (nextState s .rollback)) .stable := by
        simp only [settled, hs, if_neg ha]
      have hmoved := moves_budget (moves_budget h (Moves.rollback s hs ha))
        (Moves.restored _ rfl)
      rw [hsettled]
      refine ⟨hmoved.max, hmoved.mode, hmoved.attempts, ?_, by simp⟩
      simpa using hmoved.launches
  | rollback =>
    have hsettled : settled s = nextState (swapCompleted s) .stable := by rw [settled, hs]
    have hmoved := moves_budget h (Moves.restored s hs)
    rw [hsettled]
    refine ⟨hmoved.max, hmoved.mode, hmoved.attempts, ?_, by simp⟩
    simpa using hmoved.launches
  | stable =>
    have hsettled : settled s = s := by rw [settled, hs]
    rw [hsettled]
    refine ⟨h.max, h.mode, h.attempts, ?_, fun hne => absurd hs hne⟩
    simpa [hs] using hl
  | recovery => exact absurd hs h.mode

def Rolling (u : Update α δ) (limit : UInt8) (c n : ℕ) (f : Flash α δ) : Prop :=
  ∃ s, Recorded u s f ∧ Budget limit c n s

theorem left_rolling {limit : UInt8} {c n : ℕ} {s : BootState δ} {f : Flash α δ}
    (h : Left u false s f) (hs : Budget limit c n s) : Rolling u limit c n f := by
  obtain ⟨s', hpath, hrec⟩ := h
  exact ⟨s', hrec, path_budget hs hpath⟩

def CutsOnly (script : List (Event α)) : Prop := ∀ e ∈ script, e.verdict ≠ .fail

theorem on_cuts {f : Flash α δ} {script : List (Event α)} {P : Flash α δ → Prop}
    (hscript : CutsOnly script) (h : P f) : On false true P ⟨f, script⟩ :=
  ⟨h, fun e he => ⟨fun hv => absurd hv (hscript e he), fun _ => rfl⟩⟩

variable [DecidableEq δ]

abbrev BootResult (α δ : Type) := Option (Action × Option (BootState δ)) × Flash α δ

def bootOnce (l : Layout α δ) (f : Flash α δ) (script : List (Event α)) : BootResult α δ :=
  ((boot l ⟨f, script⟩).1, (boot l ⟨f, script⟩).2.flash)

def bootRun (l : Layout α δ) : Flash α δ → List (List (Event α)) → List (BootResult α δ)
  | _, [] => []
  | f, script :: rest => bootOnce l f script :: bootRun l (bootOnce l f script).2 rest

def bootEnd (l : Layout α δ) : Flash α δ → List (List (Event α)) → Flash α δ
  | f, [] => f
  | f, script :: rest => bootEnd l (bootOnce l f script).2 rest

omit [DecidableEq δ] in
def trialLaunch (b : BootResult α δ) : Bool :=
  match b.1 with
  | some (.launch, some st) => decide (st.mode = .trial)
  | _ => false

def completed (b : BootResult α δ) : Bool := b.1.isSome

def LaunchesOwn (u : Update α δ) (b : BootResult α δ) : Prop :=
  ∀ action launched, b.1 = some (action, launched) → action = .launch ∧
    ∃ r i, launched = some r ∧ selected b.2 = some (r, i) ∧
      (r.mode = .trial ∧ Updated u r b.2 ∨ r.mode = .stable ∧ Restored u r b.2)

omit [DecidableEq δ] in
theorem recorded_own (hu : u.confirms = false) {s : BootState δ} {f : Flash α δ}
    (h : Recorded u s f) (hs : s.mode = .trial ∨ s.mode = .stable) :
    s.mode = .trial ∧ Updated u s f ∨ s.mode = .stable ∧ Restored u s f := by
  rcases hs with hs | hs
  · exact Or.inl ⟨hs, (consistent_trial hs).mp h.2⟩
  · rcases (consistent_stable hs).mp h.2 with hold | ⟨hconf, _⟩
    · exact Or.inr ⟨hs, hold⟩
    · simp [hu] at hconf

theorem boot_step (l : Layout α δ) (hl : l.sectors = u.sectors) (hu : u.confirms = false)
    (hnew : NewVerified l u) {limit : UInt8} {c n : ℕ} {f : Flash α δ}
    (script : List (Event α)) (hscript : CutsOnly script) (h : Rolling u limit c n f) :
    Rolling u limit (if completed (bootOnce l f script) then c+1 else c)
      (if trialLaunch (bootOnce l f script) then n+1 else n) (bootOnce l f script).2 ∧
    LaunchesOwn u (bootOnce l f script) := by
  obtain ⟨s, hrec, hbudget⟩ := h
  have hboot := boot_holds l hl (fun _ => hnew) s
    ⟨f, script⟩ (on_cuts hscript hrec)
  rcases hr : boot l ⟨f, script⟩ with ⟨_ | ⟨action, launched⟩, d⟩
  · simp only [hr] at hboot
    have hleft := left_rolling hboot.2.1 hbudget
    refine ⟨?_, fun action launched h => ?_⟩
    · simpa [bootOnce, hr, completed, trialLaunch] using hleft
    · simp [bootOnce, hr] at h
  · simp only [hr] at hboot
    obtain ⟨⟨st, hst, _, hlaunch, hexact⟩, _⟩ := hboot
    subst hst
    obtain ⟨rfl, rfl⟩ := Prod.mk.inj (hexact rfl)
    have hsettled := settled_budget hbudget
    have hrecorded : Recorded u (settled s) d.flash := by
      rcases hlaunch rfl with ⟨_, hrecorded⟩ | ⟨hrecovery, _⟩
      · exact hrecorded
      · exact absurd hrecovery hsettled.mode
    refine ⟨⟨settled s, ?_, ?_⟩, fun action launched h => ?_⟩
    · simpa [bootOnce, hr] using hrecorded
    · simpa [bootOnce, hr, completed, trialLaunch] using hsettled
    · have hb : (bootOnce l f script).1 = some (.launch, some (settled s)) := by
        simp [bootOnce, hr]
      have hf : (bootOnce l f script).2 = d.flash := by simp [bootOnce, hr]
      obtain ⟨rfl, rfl⟩ := Prod.mk.inj (Option.some.inj (hb.symm.trans h))
      have hmode : (settled s).mode = .trial ∨ (settled s).mode = .stable := by
        rcases settled_mode s with h | h | h
        · exact Or.inl h
        · exact Or.inr h
        · exact absurd h hsettled.mode
      obtain ⟨i, hi⟩ := hrecorded.1
      rw [hf]
      exact ⟨rfl, settled s, i, rfl, hi, recorded_own hu hrecorded hmode⟩

/-- The bounds of a run, from the budget its start has. -/
theorem run_rolling (l : Layout α δ) (hl : l.sectors = u.sectors) (hu : u.confirms = false)
    (hnew : NewVerified l u) {limit : UInt8} (scripts : List (List (Event α)))
    (hscripts : ∀ script ∈ scripts, CutsOnly script) {c n : ℕ} {f : Flash α δ}
    (h : Rolling u limit c n f) :
    Rolling u limit (c+(bootRun l f scripts).countP completed)
      (n+(bootRun l f scripts).countP trialLaunch) (bootEnd l f scripts) ∧
    ∀ b ∈ bootRun l f scripts, LaunchesOwn u b := by
  induction scripts generalizing c n f with
  | nil => exact ⟨h, by simp [bootRun]⟩
  | cons script rest ih =>
    obtain ⟨hnext, hown⟩ := boot_step l hl hu hnew script
      (hscripts script List.mem_cons_self) h
    obtain ⟨hrest, hall⟩ := ih
      (fun script hs => hscripts script (List.mem_cons_of_mem _ hs)) hnext
    refine ⟨?_, fun b hb => ?_⟩
    · have hc : c+(bootRun l f (script :: rest)).countP completed =
          (if completed (bootOnce l f script) then c+1 else c)+
            (bootRun l (bootOnce l f script).2 rest).countP completed := by
        rw [bootRun, List.countP_cons]
        split <;> omega
      have hn : n+(bootRun l f (script :: rest)).countP trialLaunch =
          (if trialLaunch (bootOnce l f script) then n+1 else n)+
            (bootRun l (bootOnce l f script).2 rest).countP trialLaunch := by
        rw [bootRun, List.countP_cons]
        split <;> omega
      rw [hc, hn]
      exact hrest
    · rcases List.mem_cons.mp hb with rfl | hb
      · exact hown
      · exact hall b hb

/-- A stable record makes a boot launch and touch nothing. -/
theorem stable_boot (l : Layout α δ) {f : Flash α δ} {s : BootState δ} {i : Bool}
    (hsel : selected f = some (s, i)) (hs : s.mode = .stable) (script : List (Event α)) :
    boot l ⟨f, script⟩ = (some (.launch, some s), ⟨f, script⟩) := by
  have happly : bootApply l s i = (pure (.launch, s) : Step (Device α δ) _) := by
    rw [bootApply, if_neg l.pos.ne', hs]
  simp only [boot, readState, bind, hsel, happly]
  rfl

theorem stable_run (l : Layout α δ) {f : Flash α δ} {s : BootState δ} {i : Bool}
    (hsel : selected f = some (s, i)) (hs : s.mode = .stable)
    (scripts : List (List (Event α))) :
    ∀ b ∈ bootRun l f scripts, b = (some (.launch, some s), f) := by
  induction scripts with
  | nil => simp [bootRun]
  | cons script rest ih =>
    have hone : bootOnce l f script = (some (.launch, some s), f) := by
      simp only [bootOnce, stable_boot l hsel hs script]
    rw [bootRun, hone]
    exact fun b hb => (List.mem_cons.mp hb).elim id (ih b)

omit [DecidableEq δ] in
/-- Whatever the flash holds, a confirmation that reports success is stable. -/
theorem confirmBoot_stable (d : Device α δ) (h : (confirmBoot d).1 = some .ok) :
    ∃ s i, selected (confirmBoot d).2.flash = some (s, i) ∧ s.mode = .stable := by
  have hconfirm : Holds (On true true fun _ => True)
      (confirmBoot : Step (Device α δ) Status)
      (fun r => On true true fun f => r = .ok →
        ∃ s i, selected f = some (s, i) ∧ s.mode = .stable)
      (Cut true true fun _ => True) := by
    refine holds_bind loadState_holds fun loaded => ?_
    cases loaded with
    | error status =>
      refine holds_pure _ fun d hd => on_mono hd fun f hf hok => ?_
      rcases hf.2.2 status rfl with rfl | ⟨rfl, _⟩
      · cases hok
      · cases hok
    | ok found =>
      obtain ⟨state, i⟩ := found
      refine holds_ite (fun hstable => ?_)
        (fun hne => holds_ite (fun hother => ?_) (fun htrial => ?_))
      · exact holds_pure _ fun d hd => on_mono hd fun f hf _ =>
          ⟨state, i, hf.2.1 _ rfl, hstable⟩
      · exact holds_pure _ fun d hd => on_mono hd fun f hf hok => by cases hok
      · exact holds_conseq (writeState_holds (K := fun _ => True) (fun _ _ h => h)
          (t := OtaLaunch.confirmed state) rfl fun h => valid_nextState .stable h)
          (fun d hd => on_mono hd fun f hf => ⟨hf.2.1 _ rfl, trivial⟩)
          (fun r d hd => on_mono hd fun f hf hok => ⟨_, _, hf.2.2.1 hok, rfl⟩)
          fun d hd => cut_mono hd fun _ _ => trivial
  exact (holds_returned hconfirm (on_any d.flash d.script trivial) (Prod.ext h rfl)).1 rfl

omit [DecidableEq δ] in
theorem confirmBoot_program (d : Device α δ) :
    (confirmBoot d).2.flash.program = d.flash.program := by
  have hread : ∀ index, Keeps (fun e : Device α δ => e.flash.program = d.flash.program)
      (readRecord index) := fun index =>
    callback_keeps (I := fun f => f.program = d.flash.program) (fun _ h => h) fun _ _ _ h => h
  have hload : Keeps (fun e : Device α δ => e.flash.program = d.flash.program) loadState := by
    refine keeps_bind (hread false) fun first => ?_
    cases first with
    | error status => exact keeps_pure _
    | ok first =>
      refine keeps_bind (hread true) fun second => ?_
      cases second with
      | error status => exact keeps_pure _
      | ok second =>
        dsimp only
        split <;> exact keeps_pure _
  refine holds_left (I := fun e : Device α δ => e.flash.program = d.flash.program)
    (keeps_bind hload fun loaded => ?_) rfl
  cases loaded with
  | error status => exact keeps_pure _
  | ok found =>
    refine keeps_ite (keeps_pure _) (keeps_ite (keeps_pure _) (keeps_ite ?_ (keeps_pure _)))
    exact callback_keeps (I := fun f => f.program = d.flash.program) (fun _ h => h)
      fun _ _ _ h => h

end JaszczurHal.OtaRollback
