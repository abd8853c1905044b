import JaszczurHal.OtaFlash

/-!
# The interruption-proof slot swap

Every sector is exchanged through one scratch sector in three copies, each
followed by a journal mark. A run that stops anywhere is repeated from the
marks. The journal decides which of the three places holds which content.
-/

set_option autoImplicit false

namespace JaszczurHal.OtaSwap
open HalStatus CrashRun OtaImage OtaFlash

variable {α δ : Type}

def copyAndMark (sector : ℕ) (destination source : Slot) (phase : UInt8) :
    Step (Device α δ) Status := do
  let status ← copySector sector destination source
  if status ≠ .ok then pure status
  else markPhase sector phase

def advance (sector : ℕ) (entry : UInt8) (destination source : Slot) (done phase : UInt8) :
    Step (Device α δ) (Except Status UInt8) :=
  if phase = entry then do
    let status ← copyAndMark sector destination source done
    if status ≠ .ok then pure (.error status) else pure (.ok done)
  else pure (.ok phase)

def swapSector (sector : ℕ) : Step (Device α δ) Status := do
  match ← readPhase sector with
  | .error status => pure status
  | .ok phase =>
    match ← advance sector kErased .scratch .program kScratchReady phase with
    | .error status => pure status
    | .ok phase =>
      match ← advance sector kScratchReady .program .staging kProgramReady phase with
      | .error status => pure status
      | .ok phase =>
        match ← advance sector kProgramReady .staging .scratch kStagingReady phase with
        | .error status => pure status
        | .ok phase => if phase ≠ kStagingReady then pure .eproto else pure .ok

def swapLoop : ℕ → ℕ → Step (Device α δ) Status
  | 0, _ => pure .ok
  | remaining+1, sector => do
    let status ← swapSector sector
    if status ≠ .ok then pure status else swapLoop remaining (sector+1)

def swapExecute (sectorCount : ℕ) : Step (Device α δ) Status :=
  if sectorCount = 0 then pure .einval else swapLoop sectorCount 0

def SameRecord (r : Bool → Option (BootState δ)) (d : Device α δ) : Prop := d.flash.record = r

variable {r : Bool → Option (BootState δ)}

theorem advance_record (sector : ℕ) (entry : UInt8) (destination source : Slot)
    (done phase : UInt8) :
    Keeps (SameRecord (α := α) r) (advance sector entry destination source done phase) := by
  have hcopy : Keeps (SameRecord (α := α) r) (copySector sector destination source) :=
    callback_keeps (fun f hf => (put_record f _ _ _).trans hf)
      fun x _ f hf => (put_record f _ _ _).trans hf
  have hmark : Keeps (SameRecord (α := α) r) (markPhase sector done) :=
    callback_keeps (I := fun f => f.record = r) (fun _ hf => hf) fun _ _ _ hf => hf
  refine keeps_ite (keeps_bind (keeps_bind hcopy fun status => ?_) fun status => ?_)
    (keeps_pure _)
  · exact keeps_ite (keeps_pure _) hmark
  · exact keeps_ite (keeps_pure _) (keeps_pure _)

theorem swapSector_record (sector : ℕ) :
    Keeps (SameRecord (α := α) r) (swapSector sector) := by
  have hread : Keeps (SameRecord (α := α) r) (readPhase sector) :=
    callback_keeps (I := fun f => f.record = r) (fun _ hf => hf) fun _ _ _ hf => hf
  refine keeps_bind hread fun read => ?_
  cases read with
  | error status => exact keeps_pure _
  | ok phase =>
    refine keeps_bind (advance_record _ _ _ _ _ _) fun first => ?_
    cases first with
    | error status => exact keeps_pure _
    | ok phase =>
      refine keeps_bind (advance_record _ _ _ _ _ _) fun second => ?_
      cases second with
      | error status => exact keeps_pure _
      | ok phase =>
        refine keeps_bind (advance_record _ _ _ _ _ _) fun third => ?_
        cases third with
        | error status => exact keeps_pure _
        | ok phase => exact keeps_ite (keeps_pure _) (keeps_pure _)

theorem swapExecute_record (n : ℕ) :
    Keeps (SameRecord (α := α) r) (swapExecute n) := by
  have hloop : ∀ remaining sector,
      Keeps (SameRecord (α := α) r) (swapLoop remaining sector) := by
    intro remaining
    induction remaining with
    | zero => exact fun sector => keeps_pure _
    | succ remaining ih =>
      exact fun sector => keeps_bind (swapSector_record sector) fun status =>
        keeps_ite (keeps_pure _) (ih (sector+1))
  exact keeps_ite (keeps_pure _) (hloop n 0)

def SectorOk (a b : α) (f : Flash α δ) (s : ℕ) : Prop :=
  (f.journal s = kErased ∧ f.program s = a ∧ f.staging s = b) ∨
  (f.journal s = kScratchReady ∧ f.scratch = a ∧ f.staging s = b) ∨
  (f.journal s = kProgramReady ∧ f.scratch = a ∧ f.program s = b) ∨
  (f.journal s = kStagingReady ∧ f.program s = b ∧ f.staging s = a)

/-- A swap of `A` in the program slot with `B` in the staging slot is under
way: sectors are taken in order, so at most one of them uses the scratch. -/
structure Swapping (n : ℕ) (A B : ℕ → α) (f : Flash α δ) : Prop where
  sector : ∀ s < n, SectorOk (A s) (B s) f s
  order : ∀ s t, s < t → t < n → f.journal t ≠ kErased → f.journal s = kStagingReady

def Before (n : ℕ) (A B : ℕ → α) (s : ℕ) (f : Flash α δ) : Prop :=
  Swapping n A B f ∧ ∀ t < s, f.journal t = kStagingReady

def At (n : ℕ) (A B : ℕ → α) (s : ℕ) (phase : UInt8) (f : Flash α δ) : Prop :=
  Before n A B s f ∧ f.journal s = phase

variable {n : ℕ} {A B : ℕ → α} {fails cuts : Bool}

theorem sector_erased {a b : α} {f : Flash α δ} {s : ℕ} (h : f.journal s = kErased) :
    SectorOk a b f s ↔ f.program s = a ∧ f.staging s = b := by
  rw [SectorOk, h]
  simp +decide

theorem sector_scratch {a b : α} {f : Flash α δ} {s : ℕ} (h : f.journal s = kScratchReady) :
    SectorOk a b f s ↔ f.scratch = a ∧ f.staging s = b := by
  rw [SectorOk, h]
  simp +decide

theorem sector_program {a b : α} {f : Flash α δ} {s : ℕ} (h : f.journal s = kProgramReady) :
    SectorOk a b f s ↔ f.scratch = a ∧ f.program s = b := by
  rw [SectorOk, h]
  simp +decide

theorem sector_staging {a b : α} {f : Flash α δ} {s : ℕ} (h : f.journal s = kStagingReady) :
    SectorOk a b f s ↔ f.program s = b ∧ f.staging s = a := by
  rw [SectorOk, h]
  simp +decide

theorem mark_entry {f : Flash α δ} {s : ℕ} {entry done : UInt8} (h : f.journal s = entry)
    (hand : entry &&& done = done) : (f.mark s done).journal s = done := by
  simp [Flash.mark, h, hand]

theorem mark_other {f : Flash α δ} {s t : ℕ} (done : UInt8) (h : t ≠ s) :
    (f.mark s done).journal t = f.journal t := by
  simp [Flash.mark, Function.update_of_ne h]

theorem swapping_fresh (f : Flash α δ) (h : ∀ s < n, f.journal s = kErased) :
    Swapping n f.program f.staging f :=
  ⟨fun s hs => Or.inl ⟨h s hs, rfl, rfl⟩, fun _ t _ ht hj => absurd (h t ht) hj⟩

theorem after_erased {s t : ℕ} {f : Flash α δ} (h : Swapping n A B f) (hst : s < t)
    (ht : t < n) (hs : f.journal s ≠ kStagingReady) : f.journal t = kErased := by
  by_contra hj
  exact hs (h.order s t hst ht hj)

/-- A change confined to the sector being exchanged and to the scratch. -/
theorem at_update {s : ℕ} {phase phase' : UInt8} {f g : Flash α δ} (hs : s < n)
    (h : At n A B s phase f) (hphase : phase ≠ kStagingReady)
    (hj : ∀ t, t ≠ s → g.journal t = f.journal t)
    (hp : ∀ t, t ≠ s → g.program t = f.program t)
    (hg : ∀ t, t ≠ s → g.staging t = f.staging t)
    (hphase' : g.journal s = phase') (hok : SectorOk (A s) (B s) g s) :
    At n A B s phase' g := by
  obtain ⟨⟨hswap, hbefore⟩, hat⟩ := h
  have hafter : ∀ t, s < t → t < n → f.journal t = kErased := fun t hst ht =>
    after_erased hswap hst ht (by rw [hat]; exact hphase)
  refine ⟨⟨⟨fun t ht => ?_, fun u t hut ht hne => ?_⟩, fun t ht => ?_⟩, hphase'⟩
  · rcases lt_trichotomy t s with hlt | rfl | hgt
    · have hne : t ≠ s := by omega
      have hold := (sector_staging (hbefore t hlt)).mp (hswap.sector t ht)
      rw [sector_staging ((hj t hne).trans (hbefore t hlt)), hp t hne, hg t hne]
      exact hold
    · exact hok
    · have hne : t ≠ s := by omega
      have hold := (sector_erased (hafter t hgt ht)).mp (hswap.sector t ht)
      rw [sector_erased ((hj t hne).trans (hafter t hgt ht)), hp t hne, hg t hne]
      exact hold
  · rcases lt_trichotomy t s with hlt | rfl | hgt
    · rw [hj u (by omega)]
      exact hbefore u (by omega)
    · rw [hj u (by omega)]
      exact hbefore u hut
    · rw [hj t (by omega)] at hne
      exact absurd (hafter t hgt ht) hne
  · rw [hj t (by omega)]
    exact hbefore t ht

theorem copyAndMark_holds {s : ℕ} {entry done : UInt8} {destination source : Slot}
    (hany : ∀ (f : Flash α δ) x, At n A B s entry f →
      At n A B s entry (f.put destination s x))
    (hdone : ∀ f : Flash α δ, At n A B s entry f →
      At n A B s done ((f.put destination s (f.get source s)).mark s done)) :
    Holds (On fails cuts (At n A B s entry))
      (copyAndMark s destination source done : Step (Device α δ) Status)
      (fun r => On fails cuts fun f => Before n A B s f ∧ (r = .ok → At n A B s done f) ∧
        (fails = false → r = .ok))
      (Cut fails cuts (Before n A B s)) := by
  refine holds_bind (holds_conseq (copySector_holds s destination source hany
    (R := fun f => At n A B s done (f.mark s done)) hdone) (fun _ => id) (fun _ _ => id)
    (fun d hd => cut_mono hd fun f hf => hf.1)) fun status => ?_
  refine holds_ite (fun hne => ?_) (fun heq => ?_)
  · apply holds_pure
    intro d hd
    refine on_mono hd fun f hf => ⟨hf.1.1, fun h => absurd h hne, hf.2.2⟩
  · refine holds_pre (markPhase_holds s done (P := fun f => At n A B s entry f ∧
      At n A B s done (f.mark s done)) (fun f hf => hf.1.1)
      (fun f hf => ⟨hf.2.1, hf.2, hf.2.2⟩)) fun d hd => ?_
    exact on_mono hd fun f hf => ⟨hf.1, hf.2.1 (not_not.mp heq)⟩

theorem advance_holds {s : ℕ} {entry done phase : UInt8} {destination source : Slot}
    (hany : ∀ (f : Flash α δ) x, At n A B s entry f →
      At n A B s entry (f.put destination s x))
    (hdone : ∀ f : Flash α δ, At n A B s entry f →
      At n A B s done ((f.put destination s (f.get source s)).mark s done)) :
    Holds (On fails cuts (At n A B s phase))
      (advance s entry destination source done phase :
        Step (Device α δ) (Except Status UInt8))
      (fun r => On fails cuts fun f => Before n A B s f ∧
        (∀ p, r = .ok p → At n A B s p f ∧ p = if phase = entry then done else phase) ∧
        (∀ status, r = .error status → status ≠ .ok ∧ fails = true))
      (Cut fails cuts (Before n A B s)) := by
  refine holds_ite (fun heq => ?_) (fun hne => ?_)
  · subst heq
    refine holds_bind (copyAndMark_holds hany hdone) fun status => ?_
    refine holds_ite (fun hne => holds_pure _ fun d hd => ?_)
      (fun heq => holds_pure _ fun d hd => ?_)
    · refine on_mono hd fun f hf => ⟨hf.1, by simp, fun status h => ?_⟩
      cases h
      refine ⟨hne, ?_⟩
      by_contra hfails
      exact hne (hf.2.2 (Bool.not_eq_true _ ▸ hfails))
    · refine on_mono hd fun f hf => ⟨hf.1, fun p hp => ?_, by simp⟩
      cases hp
      exact ⟨hf.2.1 (not_not.mp heq), (if_pos rfl).symm⟩
  · refine holds_pure _ fun d hd => on_mono hd fun f hf => ⟨hf.1, fun p hp => ?_, by simp⟩
    cases hp
    exact ⟨hf, (if_neg hne).symm⟩

theorem at_sector {s : ℕ} {phase : UInt8} {f : Flash α δ} (hs : s < n)
    (h : At n A B s phase f) : SectorOk (A s) (B s) f s :=
  h.1.1.sector s hs

theorem scratch_put {s : ℕ} (hs : s < n) (f : Flash α δ) (x : α)
    (h : At n A B s kErased f) : At n A B s kErased (f.put .scratch s x) := by
  have hk := (sector_erased h.2).mp (at_sector hs h)
  exact at_update hs h (by decide) (fun _ _ => rfl) (fun _ _ => rfl) (fun _ _ => rfl) h.2
    ((sector_erased (f := f.put .scratch s x) h.2).mpr hk)

theorem scratch_done {s : ℕ} (hs : s < n) (f : Flash α δ) (h : At n A B s kErased f) :
    At n A B s kScratchReady ((f.put .scratch s (f.get .program s)).mark s kScratchReady) := by
  have hk := (sector_erased h.2).mp (at_sector hs h)
  have hm := mark_entry (f := f.put .scratch s (f.get .program s)) h.2
    (by decide : kErased &&& kScratchReady = kScratchReady)
  exact at_update hs h (by decide) (fun t ht => mark_other _ ht) (fun _ _ => rfl)
    (fun _ _ => rfl) hm ((sector_scratch hm).mpr hk)

theorem program_put {s : ℕ} (hs : s < n) (f : Flash α δ) (x : α)
    (h : At n A B s kScratchReady f) : At n A B s kScratchReady (f.put .program s x) := by
  have hk := (sector_scratch h.2).mp (at_sector hs h)
  exact at_update hs h (by decide) (fun _ _ => rfl)
    (fun t ht => put_program_ne f x ht) (fun _ _ => rfl) h.2
    ((sector_scratch (f := f.put .program s x) h.2).mpr hk)

theorem program_done {s : ℕ} (hs : s < n) (f : Flash α δ) (h : At n A B s kScratchReady f) :
    At n A B s kProgramReady ((f.put .program s (f.get .staging s)).mark s kProgramReady) := by
  have hk := (sector_scratch h.2).mp (at_sector hs h)
  have hm := mark_entry (f := f.put .program s (f.get .staging s)) h.2
    (by decide : kScratchReady &&& kProgramReady = kProgramReady)
  refine at_update hs h (by decide) (fun t ht => mark_other _ ht)
    (fun t ht => put_program_ne f _ ht) (fun _ _ => rfl) hm
    ((sector_program hm).mpr ⟨hk.1, ?_⟩)
  exact (put_get f .program s _).trans hk.2

theorem staging_put {s : ℕ} (hs : s < n) (f : Flash α δ) (x : α)
    (h : At n A B s kProgramReady f) : At n A B s kProgramReady (f.put .staging s x) := by
  have hk := (sector_program h.2).mp (at_sector hs h)
  exact at_update hs h (by decide) (fun _ _ => rfl) (fun _ _ => rfl)
    (fun t ht => put_staging_ne f x ht) h.2
    ((sector_program (f := f.put .staging s x) h.2).mpr hk)

theorem staging_done {s : ℕ} (hs : s < n) (f : Flash α δ) (h : At n A B s kProgramReady f) :
    At n A B s kStagingReady ((f.put .staging s (f.get .scratch s)).mark s kStagingReady) := by
  have hk := (sector_program h.2).mp (at_sector hs h)
  have hm := mark_entry (f := f.put .staging s (f.get .scratch s)) h.2
    (by decide : kProgramReady &&& kStagingReady = kStagingReady)
  refine at_update hs h (by decide) (fun t ht => mark_other _ ht) (fun _ _ => rfl)
    (fun t ht => put_staging_ne f _ ht) hm
    ((sector_staging hm).mpr ⟨hk.2, ?_⟩)
  exact (put_get f .staging s _).trans hk.1

/-- The next block runs only in a phase the previous one left. -/
theorem advance_next {s : ℕ} {entry done : UInt8} {destination source : Slot} {p : UInt8}
    {next : UInt8 → Step (Device α δ) Status} {R : Status → Flash α δ → Prop}
    (hput : ∀ (f : Flash α δ) x, At n A B s entry f →
      At n A B s entry (f.put destination s x))
    (hdone : ∀ f : Flash α δ, At n A B s entry f →
      At n A B s done ((f.put destination s (f.get source s)).mark s done))
    (herror : ∀ status f, Before n A B s f → status ≠ .ok → fails = true → R status f)
    (hnext : Holds (On fails cuts (At n A B s (if p = entry then done else p)))
      (next (if p = entry then done else p)) (fun r => On fails cuts (R r))
      (Cut fails cuts (Before n A B s))) :
    Holds (On fails cuts (At n A B s p))
      (advance s entry destination source done p >>= fun r =>
        match r with
        | .error status => pure status
        | .ok phase => next phase)
      (fun r => On fails cuts (R r)) (Cut fails cuts (Before n A B s)) := by
  refine holds_bind (advance_holds hput hdone) fun r => ?_
  cases r with
  | error status =>
    refine holds_pure _ fun d hd => on_mono hd fun f hf => ?_
    obtain ⟨hne, hfails⟩ := hf.2.2 status rfl
    exact herror status f hf.1 hne hfails
  | ok phase =>
    refine holds_known (fun d hd => (hd.1.2.1 phase rfl).2) fun hphase => ?_
    subst hphase
    exact holds_pre hnext fun d hd => on_mono hd fun f hf => (hf.2.1 _ rfl).1

theorem sector_phase {s : ℕ} {phase : UInt8} {f : Flash α δ} (hs : s < n)
    (h : At n A B s phase f) :
    phase = kErased ∨ phase = kScratchReady ∨ phase = kProgramReady ∨ phase = kStagingReady := by
  rcases at_sector hs h with hk | hk | hk | hk
  · exact Or.inl (h.2.symm.trans hk.1)
  · exact Or.inr (Or.inl (h.2.symm.trans hk.1))
  · exact Or.inr (Or.inr (Or.inl (h.2.symm.trans hk.1)))
  · exact Or.inr (Or.inr (Or.inr (h.2.symm.trans hk.1)))

/-- Whatever phase a sector is found in, the three blocks end in the last. -/
theorem phase_end {phase : UInt8} (h : phase = kErased ∨ phase = kScratchReady ∨
    phase = kProgramReady ∨ phase = kStagingReady) :
    (let p := if phase = kErased then kScratchReady else phase
     let q := if p = kScratchReady then kProgramReady else p
     if q = kProgramReady then kStagingReady else q) = kStagingReady := by
  rcases h with rfl | rfl | rfl | rfl <;> decide

theorem before_next {s : ℕ} {f : Flash α δ} (h : At n A B s kStagingReady f) :
    Before n A B (s+1) f := by
  refine ⟨h.1.1, fun t ht => ?_⟩
  rcases Nat.lt_succ_iff_lt_or_eq.mp ht with hlt | rfl
  · exact h.1.2 t hlt
  · exact h.2

theorem swapSector_holds {s : ℕ} (hs : s < n) :
    Holds (On fails cuts (Before n A B s)) (swapSector s : Step (Device α δ) Status)
      (fun r => On fails cuts fun f => Before n A B s f ∧
        (r = .ok → Before n A B (s+1) f) ∧ (fails = false → r = .ok))
      (Cut fails cuts (Before n A B s)) := by
  have herror : ∀ (status : Status) (f : Flash α δ), Before n A B s f → status ≠ .ok →
      fails = true → Before n A B s f ∧ (status = .ok → Before n A B (s+1) f) ∧
        (fails = false → status = .ok) := by
    intro status f hf hne hfails
    exact ⟨hf, fun h => absurd h hne, fun h => by simp [hfails] at h⟩
  refine holds_bind (readPhase_holds s) fun r => ?_
  cases r with
  | error status =>
    refine holds_pure _ fun d hd => on_mono hd fun f hf => ?_
    obtain ⟨hne, hfails⟩ := hf.2.2 status rfl
    exact herror status f hf.1 hne hfails
  | ok phase =>
    refine holds_pre ?_ fun d hd => on_mono hd fun f hf =>
      (⟨hf.1, hf.2.1 phase rfl⟩ : At n A B s phase f)
    refine holds_known (fun d hd => sector_phase hs hd.1) fun hphase => ?_
    refine advance_next (scratch_put hs) (scratch_done hs) herror ?_
    refine advance_next (program_put hs) (program_done hs) herror ?_
    refine advance_next (staging_put hs) (staging_done hs) herror ?_
    rw [phase_end hphase]
    refine holds_pure _ fun d hd => on_mono hd fun f hf => ⟨hf.1, fun _ => before_next hf, ?_⟩
    simp

theorem swapLoop_holds (remaining s : ℕ) (hn : s+remaining = n) :
    Holds (On fails cuts (Before n A B s)) (swapLoop remaining s : Step (Device α δ) Status)
      (fun r => On fails cuts fun f => Swapping n A B f ∧ (r = .ok → Before n A B n f) ∧
        (fails = false → r = .ok))
      (Cut fails cuts (Swapping n A B)) := by
  induction remaining generalizing s with
  | zero =>
    obtain rfl : s = n := by omega
    exact holds_pure _ fun d hd => on_mono hd fun f hf => ⟨hf.1, fun _ => hf, fun _ => rfl⟩
  | succ remaining ih =>
    refine holds_bind (holds_conseq (swapSector_holds (by omega)) (fun _ => id)
      (fun _ _ => id) fun d hd => cut_mono hd fun f hf => hf.1) fun status => ?_
    refine holds_ite (fun hne => ?_) (fun heq => ?_)
    · refine holds_pure _ fun d hd => on_mono hd fun f hf => ⟨hf.1.1, ?_, hf.2.2⟩
      exact fun h => absurd h hne
    · refine holds_pre (ih (s+1) (by omega)) fun d hd => on_mono hd fun f hf => ?_
      exact hf.2.1 (not_not.mp heq)

/-- One execution from any point of a swap keeps the swap going; it returns
`ok` only when every sector is exchanged. -/
theorem swapExecute_holds :
    Holds (On fails cuts (Swapping n A B)) (swapExecute n : Step (Device α δ) Status)
      (fun r => On fails cuts fun f => Swapping n A B f ∧ (r = .ok → Before n A B n f) ∧
        (fails = false → n ≠ 0 → r = .ok))
      (Cut fails cuts (Swapping n A B)) := by
  refine holds_ite (fun hzero => ?_) (fun hpos => ?_)
  · refine holds_pure _ fun d hd => on_mono hd fun f hf => ⟨hf, by simp, ?_⟩
    exact fun _ h => absurd hzero h
  · refine holds_conseq (swapLoop_holds n 0 (by omega)) (fun d hd => on_mono hd ?_)
      (fun _ d hd => on_mono hd ?_) (fun _ => id)
    · exact fun f hf => ⟨hf, fun t ht => absurd ht (Nat.not_lt_zero t)⟩
    · exact fun f hf => ⟨hf.1, hf.2.1, fun h _ => hf.2.2 h⟩

theorem exchanged {f : Flash α δ} (h : Before n A B n f) {s : ℕ} (hs : s < n) :
    f.program s = B s ∧ f.staging s = A s :=
  (sector_staging (h.2 s hs)).mp (h.1.sector s hs)

/-- A content of sector `s` that one of the three places still holds. -/
def Kept (f : Flash α δ) (s : ℕ) (x : α) : Prop :=
  f.program s = x ∨ f.staging s = x ∨ f.scratch = x

theorem swapping_kept {f : Flash α δ} (h : Swapping n A B f) {s : ℕ} (hs : s < n) :
    Kept f s (A s) ∧ Kept f s (B s) := by
  rcases h.sector s hs with ⟨_, hp, hg⟩ | ⟨_, hx, hg⟩ | ⟨_, hx, hp⟩ | ⟨_, hp, hg⟩
  · exact ⟨Or.inl hp, Or.inr (Or.inl hg)⟩
  · exact ⟨Or.inr (Or.inr hx), Or.inr (Or.inl hg)⟩
  · exact ⟨Or.inr (Or.inr hx), Or.inl hp⟩
  · exact ⟨Or.inr (Or.inl hg), Or.inl hp⟩

/-- The flash after executions interrupted as the scripts say, each started
again on what the one before it left. -/
def runExecutions (n : ℕ) (f : Flash α δ) : List (List (Event α)) → Flash α δ
  | [] => f
  | script :: rest => runExecutions n (swapExecute n ⟨f, script⟩).2.flash rest

theorem on_any (f : Flash α δ) (script : List (Event α)) {P : Flash α δ → Prop} (h : P f) :
    On true true P ⟨f, script⟩ :=
  ⟨h, fun _ _ => ⟨fun _ => rfl, fun _ => rfl⟩⟩

theorem on_quiet (f : Flash α δ) {P : Flash α δ → Prop} (h : P f) :
    On false false P ⟨f, []⟩ :=
  ⟨h, by simp⟩

theorem execute_swapping (script : List (Event α)) {f : Flash α δ}
    (h : Swapping n A B f) : Swapping n A B (swapExecute n ⟨f, script⟩).2.flash := by
  have hkeep : Holds (On true true (Swapping n A B))
      (swapExecute n : Step (Device α δ) Status)
      (fun _ => On true true (Swapping n A B)) (On true true (Swapping n A B)) :=
    holds_conseq swapExecute_holds (fun _ => id) (fun _ d hd => on_mono hd fun f hf => hf.1)
      fun d hd => hd.2
  exact (holds_left hkeep (on_any f script h)).1

theorem run_swapping (scripts : List (List (Event α))) (f : Flash α δ)
    (h : Swapping n A B f) : Swapping n A B (runExecutions n f scripts) := by
  induction scripts generalizing f with
  | nil => exact h
  | cons script rest ih => exact ih _ (execute_swapping script h)

/-- After any interruptions both contents of every sector are still held; an
execution that returns `ok` leaves the slots exchanged, and one that nothing
interrupts returns `ok`. -/
theorem swap_survives_interruptions (n : ℕ) (f : Flash α δ)
    (hfresh : ∀ s < n, f.journal s = kErased) (scripts : List (List (Event α))) :
    (∀ s < n, Kept (runExecutions n f scripts) s (f.program s) ∧
      Kept (runExecutions n f scripts) s (f.staging s)) ∧
    (∀ script d, swapExecute n ⟨runExecutions n f scripts, script⟩ = (some .ok, d) →
      ∀ s < n, d.flash.program s = f.staging s ∧ d.flash.staging s = f.program s) ∧
    (n ≠ 0 → (swapExecute n ⟨runExecutions n f scripts, []⟩).1 = some .ok) := by
  have hswap := run_swapping scripts f (swapping_fresh f hfresh)
  refine ⟨fun s hs => swapping_kept hswap hs, fun script d hd s hs => ?_, fun hn => ?_⟩
  · have hdone := holds_returned swapExecute_holds (on_any _ script hswap) hd
    exact exchanged (hdone.1.2.1 rfl) hs
  · have hrun := swapExecute_holds _ (on_quiet _ hswap)
    rcases hr : swapExecute n ⟨runExecutions n f scripts, []⟩ with ⟨_ | r, d⟩
    · simp only [hr] at hrun
      exact absurd hrun.1 Bool.false_ne_true
    · simp only [hr] at hrun
      rw [hrun.1.2.2 trivial hn]

/-- Two sectors, a copy to the program slot cut half way, then a full run. -/
theorem torn_copy_survived :
    let f : Flash ℕ Unit := ⟨fun s => s, fun s => 10+s, 0, fun _ => kErased, fun _ => none⟩
    let scripts : List (List (Event ℕ)) :=
      [[⟨.ok, .before⟩, ⟨.ok, .before⟩, ⟨.ok, .before⟩, ⟨.cut, .torn 99 f.journal⟩]]
    (runExecutions 2 f scripts).program 0 = 99 ∧
    (∀ s < 2, Kept (runExecutions 2 f scripts) s s ∧
      Kept (runExecutions 2 f scripts) s (10+s)) ∧
    (∀ script d, swapExecute 2 ⟨runExecutions 2 f scripts, script⟩ = (some .ok, d) →
      ∀ s < 2, d.flash.program s = 10+s ∧ d.flash.staging s = s) ∧
    (2 ≠ 0 → (swapExecute 2 ⟨runExecutions 2 f scripts, []⟩).1 = some .ok) := by
  intro f scripts
  exact ⟨by decide +kernel, swap_survives_interruptions 2 f (fun _ _ => rfl) scripts⟩

end JaszczurHal.OtaSwap
