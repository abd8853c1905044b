import JaszczurHal.HalStatus
import JaszczurHal.CrashRun
import JaszczurHal.OtaImage

/-!
# The flash behind the OTA boot image

The callbacks of the boot backend over a device with two image slots, one
scratch sector, one journal byte per sector and two record sectors. A script
says what interrupts each callback: a reported failure or a power cut, before
the operation, after it, or in the middle with the target left arbitrary.
-/

set_option autoImplicit false

namespace JaszczurHal.OtaFlash
open HalStatus CrashRun OtaImage

def kErased : UInt8 := 0xFF
def kScratchReady : UInt8 := 0xFE
def kProgramReady : UInt8 := 0xFC
def kStagingReady : UInt8 := 0xF8

inductive Slot where
  | program
  | staging
  | scratch
  deriving DecidableEq, Repr

structure Flash (α δ : Type) where
  program : ℕ → α
  staging : ℕ → α
  scratch : α
  journal : ℕ → UInt8
  record : Bool → Option (BootState δ)

inductive Verdict where
  | ok
  | fail
  | cut
  deriving DecidableEq, Repr

/-- How far an operation got that did not report success. A torn sector
holds anything; a torn record fails its CRC-32; a torn journal erase leaves
any bytes. One journal mark changes one bit, so it cannot be torn. -/
inductive Damage (α : Type) where
  | before
  | after
  | torn (sector : α) (journal : ℕ → UInt8)

structure Event (α : Type) where
  verdict : Verdict
  damage : Damage α

structure Device (α δ : Type) where
  flash : Flash α δ
  script : List (Event α)

variable {α δ β : Type}

def Damage.leave (done : Flash α δ → Flash α δ)
    (torn : α → (ℕ → UInt8) → Flash α δ → Flash α δ) :
    Damage α → Flash α δ → Flash α δ
  | .before, f => f
  | .after, f => done f
  | .torn x j, f => torn x j f

/-- One callback: `done` is the whole operation, `torn` a part of it. An
exhausted script interrupts nothing. -/
def callback (done : Flash α δ → Flash α δ)
    (torn : α → (ℕ → UInt8) → Flash α δ → Flash α δ)
    (answer : Flash α δ → β) (refusal : β) : Step (Device α δ) β := fun d =>
  match d.script with
  | [] => (some (answer (done d.flash)), ⟨done d.flash, []⟩)
  | ⟨.ok, _⟩ :: rest => (some (answer (done d.flash)), ⟨done d.flash, rest⟩)
  | ⟨.fail, damage⟩ :: rest => (some refusal, ⟨damage.leave done torn d.flash, rest⟩)
  | ⟨.cut, damage⟩ :: rest => (none, ⟨damage.leave done torn d.flash, rest⟩)

/-- The flash satisfies `P`, and the script reports failures or cuts the
power only as far as the two flags allow. -/
def On (fails cuts : Bool) (P : Flash α δ → Prop) (d : Device α δ) : Prop :=
  P d.flash ∧ ∀ e ∈ d.script, (e.verdict = .fail → fails = true) ∧
    (e.verdict = .cut → cuts = true)

/-- What a power cut leaves; there is none unless the script has one. -/
def Cut (fails cuts : Bool) (P : Flash α δ → Prop) (d : Device α δ) : Prop :=
  cuts = true ∧ On fails cuts P d

variable {fails cuts : Bool} {P P' C : Flash α δ → Prop} {Q : β → Flash α δ → Prop}

theorem on_mono {d : Device α δ} (h : On fails cuts P d) (hp : ∀ f, P f → P' f) :
    On fails cuts P' d :=
  ⟨hp d.flash h.1, h.2⟩

theorem cut_mono {d : Device α δ} (h : Cut fails cuts P d) (hp : ∀ f, P f → P' f) :
    Cut fails cuts P' d :=
  ⟨h.1, on_mono h.2 hp⟩

/-- What a callback guarantees follows from what it leaves complete, refused
and torn. -/
theorem callback_holds {done : Flash α δ → Flash α δ}
    {torn : α → (ℕ → UInt8) → Flash α δ → Flash α δ} {answer : Flash α δ → β} {refusal : β}
    (hok : ∀ f, P f → Q (answer (done f)) (done f))
    (hfail : fails = true → ∀ f, P f → ∀ damage : Damage α,
      Q refusal (damage.leave done torn f))
    (hcut : cuts = true → ∀ f, P f → ∀ damage : Damage α, C (damage.leave done torn f)) :
    Holds (On fails cuts P) (callback done torn answer refusal)
      (fun b => On fails cuts (Q b)) (Cut fails cuts C) := by
  rintro ⟨f, script⟩ ⟨hf, hs⟩
  cases script with
  | nil => exact ⟨hok f hf, hs⟩
  | cons e rest =>
    have hrest := fun e' he' => hs e' (List.mem_cons_of_mem e he')
    have he := hs e List.mem_cons_self
    obtain ⟨verdict, damage⟩ := e
    cases verdict with
    | ok => exact ⟨hok f hf, hrest⟩
    | fail => exact ⟨hfail (he.1 rfl) f hf damage, hrest⟩
    | cut => exact ⟨he.2 rfl, hcut (he.2 rfl) f hf damage, hrest⟩

/-- A property of the flash that neither a whole nor a torn operation touches. -/
theorem callback_keeps {I : Flash α δ → Prop} {done : Flash α δ → Flash α δ}
    {torn : α → (ℕ → UInt8) → Flash α δ → Flash α δ} {answer : Flash α δ → β} {refusal : β}
    (hdone : ∀ f, I f → I (done f)) (htorn : ∀ x j f, I f → I (torn x j f)) :
    Keeps (fun d : Device α δ => I d.flash) (callback done torn answer refusal) := by
  have hleave : ∀ f, I f → ∀ damage : Damage α, I (damage.leave done torn f) := by
    intro f hf damage
    cases damage with
    | before => exact hf
    | after => exact hdone f hf
    | torn x j => exact htorn x j f hf
  rintro ⟨f, script⟩ hf
  cases script with
  | nil => exact hdone f hf
  | cons e rest =>
    obtain ⟨verdict, damage⟩ := e
    cases verdict with
    | ok => exact hdone f hf
    | fail => exact hleave f hf damage
    | cut => exact hleave f hf damage

def Flash.get (f : Flash α δ) (slot : Slot) (sector : ℕ) : α :=
  match slot with
  | .program => f.program sector
  | .staging => f.staging sector
  | .scratch => f.scratch

def Flash.put (f : Flash α δ) (slot : Slot) (sector : ℕ) (x : α) : Flash α δ :=
  match slot with
  | .program => { f with program := Function.update f.program sector x }
  | .staging => { f with staging := Function.update f.staging sector x }
  | .scratch => { f with scratch := x }

def Flash.mark (f : Flash α δ) (sector : ℕ) (value : UInt8) : Flash α δ :=
  { f with journal := Function.update f.journal sector (f.journal sector &&& value) }

@[simp] theorem mark_program (f : Flash α δ) (s : ℕ) (v : UInt8) :
    (f.mark s v).program = f.program := rfl

@[simp] theorem mark_staging (f : Flash α δ) (s : ℕ) (v : UInt8) :
    (f.mark s v).staging = f.staging := rfl

@[simp] theorem mark_scratch (f : Flash α δ) (s : ℕ) (v : UInt8) :
    (f.mark s v).scratch = f.scratch := rfl

@[simp] theorem mark_record (f : Flash α δ) (s : ℕ) (v : UInt8) :
    (f.mark s v).record = f.record := rfl

@[simp] theorem put_journal (f : Flash α δ) (slot : Slot) (s : ℕ) (x : α) :
    (f.put slot s x).journal = f.journal := by
  cases slot <;> rfl

@[simp] theorem put_record (f : Flash α δ) (slot : Slot) (s : ℕ) (x : α) :
    (f.put slot s x).record = f.record := by
  cases slot <;> rfl

theorem put_program_ne (f : Flash α δ) {s t : ℕ} (x : α) (h : t ≠ s) :
    (f.put .program s x).program t = f.program t := by
  simp [Flash.put, Function.update_of_ne h]

theorem put_staging_ne (f : Flash α δ) {s t : ℕ} (x : α) (h : t ≠ s) :
    (f.put .staging s x).staging t = f.staging t := by
  simp [Flash.put, Function.update_of_ne h]

@[simp] theorem put_get (f : Flash α δ) (slot : Slot) (s : ℕ) (x : α) :
    (f.put slot s x).get slot s = x := by
  cases slot <;> simp [Flash.put, Flash.get]

def readPhase (sector : ℕ) : Step (Device α δ) (Except Status UInt8) :=
  callback id (fun _ _ => id) (fun f => .ok (f.journal sector)) (.error .eio)

def copySector (sector : ℕ) (destination source : Slot) : Step (Device α δ) Status :=
  callback (fun f => f.put destination sector (f.get source sector))
    (fun x _ f => f.put destination sector x) (fun _ => .ok) .eio

/-- The page is programmed with the byte ANDed; the stored byte is compared
with the mark itself. -/
def markPhase (sector : ℕ) (value : UInt8) : Step (Device α δ) Status :=
  callback (fun f => f.mark sector value) (fun _ _ => id)
    (fun f => if f.journal sector = value then .ok else .eio) .eio

/-- Writes the record that is not `index`; an invalid state is not encoded. -/
def writeState (state : BootState δ) (index : Bool) : Step (Device α δ) Status :=
  if stateValid state then
    callback (fun f => { f with record := Function.update f.record (!index) (some state) })
      (fun _ _ f => { f with record := Function.update f.record (!index) none })
      (fun _ => .ok) .eio
  else pure .einval

def erasePhase : Step (Device α δ) Status :=
  callback (fun f => { f with journal := fun _ => kErased })
    (fun _ j f => { f with journal := j }) (fun _ => .ok) .eio

/-- A slot has `sectors` sectors and `slotSize` bytes; `digest` is the
SHA-256 of so many of its first bytes. -/
structure Layout (α δ : Type) where
  sectors : ℕ
  pos : 0 < sectors
  slotSize : UInt32
  digest : List α → UInt32 → δ

def contents (n : ℕ) (slot : ℕ → α) : List α := (List.range n).map slot

def Layout.matches [DecidableEq δ] (l : Layout α δ) (slot : ℕ → α) (size : UInt32)
    (expected : δ) : Bool :=
  decide (size ≠ 0) && decide (size ≤ l.slotSize) &&
    decide (l.digest (contents l.sectors slot) size = expected)

def slotMatches [DecidableEq δ] (l : Layout α δ) (slot : Slot) (size : UInt32)
    (expected : δ) : Step (Device α δ) Bool :=
  callback id (fun _ _ => id)
    (fun f => decide (slot ≠ .scratch) && l.matches (f.get slot) size expected) false

theorem contents_congr {n : ℕ} {a b : ℕ → α} (h : ∀ s < n, a s = b s) :
    contents n a = contents n b := by
  apply List.map_congr_left
  intro s hs
  exact h s (List.mem_range.mp hs)

theorem damage_leave_id (damage : Damage α) (f : Flash α δ) :
    damage.leave id (fun _ _ => id) f = f := by
  cases damage <;> rfl

theorem readPhase_holds (sector : ℕ) :
    Holds (On fails cuts P) (readPhase sector)
      (fun r => On fails cuts fun f => P f ∧
        (∀ phase, r = .ok phase → f.journal sector = phase) ∧
        (∀ status, r = .error status → status ≠ .ok ∧ fails = true))
      (Cut fails cuts P) := by
  apply callback_holds
  · intro f hf
    exact ⟨hf, fun phase h => Except.ok.inj h, fun _ h => by cases h⟩
  · intro hfails f hf damage
    rw [damage_leave_id]
    refine ⟨hf, by simp, fun status h => ?_⟩
    cases h
    exact ⟨by decide, hfails⟩
  · intro _ f hf damage
    rwa [damage_leave_id]

/-- A copy that is not complete leaves its destination sector arbitrary. -/
theorem copySector_holds (sector : ℕ) (destination source : Slot)
    (hany : ∀ f x, P f → P (f.put destination sector x)) {R : Flash α δ → Prop}
    (hdone : ∀ f, P f → R (f.put destination sector (f.get source sector))) :
    Holds (On fails cuts P) (copySector sector destination source)
      (fun r => On fails cuts fun f => P f ∧ (r = .ok → R f) ∧ (fails = false → r = .ok))
      (Cut fails cuts P) := by
  have hleave : ∀ f, P f → ∀ damage : Damage α, P (damage.leave
      (fun f => f.put destination sector (f.get source sector))
      (fun x _ f => f.put destination sector x) f) := by
    intro f hf damage
    cases damage with
    | before => exact hf
    | after => exact hany f _ hf
    | torn x j => exact hany f x hf
  apply callback_holds
  · intro f hf
    exact ⟨hany f _ hf, fun _ => hdone f hf, fun _ => rfl⟩
  · intro hfails f hf damage
    exact ⟨hleave f hf damage, by simp, by simp [hfails]⟩
  · intro _ f hf damage
    exact hleave f hf damage

theorem markPhase_holds (sector : ℕ) (value : UInt8) {I R : Flash α δ → Prop}
    (hkeep : ∀ f, P f → I f)
    (hdone : ∀ f, P f → I (f.mark sector value) ∧ R (f.mark sector value) ∧
      (f.mark sector value).journal sector = value) :
    Holds (On fails cuts P) (markPhase sector value)
      (fun r => On fails cuts fun f => I f ∧ (r = .ok → R f) ∧ (fails = false → r = .ok))
      (Cut fails cuts I) := by
  have hleave : ∀ f, P f → ∀ damage : Damage α, I (damage.leave
      (fun f => f.mark sector value) (fun _ _ => id) f) := by
    intro f hf damage
    cases damage with
    | before => exact hkeep f hf
    | after => exact (hdone f hf).1
    | torn x j => exact hkeep f hf
  apply callback_holds
  · intro f hf
    obtain ⟨hi, hr, hv⟩ := hdone f hf
    exact ⟨hi, fun _ => hr, fun _ => if_pos hv⟩
  · intro hfails f hf damage
    exact ⟨hleave f hf damage, by simp, by simp [hfails]⟩
  · intro _ f hf damage
    exact hleave f hf damage

end JaszczurHal.OtaFlash
