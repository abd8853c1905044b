import Mathlib.Tactic

/-!
# Computations that can lose power

A step maps a device state to the next one and either returns a value or
stops for good. `Holds` is a triple with two postconditions: one for the
steps that return, one for the state a stopped step leaves behind. The rules
below are those of a crash-aware Hoare logic; they name no device.
-/

set_option autoImplicit false

namespace JaszczurHal.CrashRun

universe u v

def Step (σ : Type u) (β : Type v) := σ → Option β × σ

variable {σ : Type u} {β γ : Type v}

instance : Monad (Step σ) where
  pure b := fun s => (some b, s)
  bind m f := fun s =>
    match m s with
    | (none, s') => (none, s')
    | (some b, s') => f b s'

def Holds (P : σ → Prop) (m : Step σ β) (Q : β → σ → Prop) (C : σ → Prop) : Prop :=
  ∀ s, P s → match m s with
    | (none, s') => C s'
    | (some b, s') => Q b s'

variable {P P' : σ → Prop} {Q Q' : β → σ → Prop} {C C' : σ → Prop}

theorem holds_pure (b : β) (h : ∀ s, P s → Q b s) : Holds P (pure b) Q C :=
  fun s hs => h s hs

theorem holds_bind {m : Step σ β} {f : β → Step σ γ} {R : γ → σ → Prop}
    (hm : Holds P m Q C) (hf : ∀ b, Holds (Q b) (f b) R C) :
    Holds P (m >>= f) R C := by
  intro s hs
  have h := hm s hs
  simp only [bind]
  rcases hr : m s with ⟨_ | b, s'⟩
  · simpa [hr] using h
  · simp only [hr] at h
    exact hf b s' h

theorem holds_conseq {m : Step σ β} (h : Holds P m Q C) (hp : ∀ s, P' s → P s)
    (hq : ∀ b s, Q b s → Q' b s) (hc : ∀ s, C s → C' s) : Holds P' m Q' C' := by
  intro s hs
  have hm := h s (hp s hs)
  rcases hr : m s with ⟨_ | b, s'⟩
  · simp only [hr] at hm
    exact hc s' hm
  · simp only [hr] at hm
    exact hq b s' hm

theorem holds_pre {m : Step σ β} (h : Holds P m Q C) (hp : ∀ s, P' s → P s) :
    Holds P' m Q C :=
  holds_conseq h hp (fun _ _ => id) (fun _ => id)

/-- A fact the precondition implies may be used to prove the triple. -/
theorem holds_known {φ : Prop} {m : Step σ β} (hp : ∀ s, P s → φ)
    (h : φ → Holds P m Q C) : Holds P m Q C :=
  fun s hs => h (hp s hs) s hs

theorem holds_ite {b : Prop} [Decidable b] {m n : Step σ β}
    (hm : b → Holds P m Q C) (hn : ¬ b → Holds P n Q C) :
    Holds P (if b then m else n) Q C := by
  by_cases h : b
  · simpa only [if_pos h] using hm h
  · simpa only [if_neg h] using hn h

theorem holds_and {m : Step σ β} (h : Holds P m Q C) (h' : Holds P' m Q' C') :
    Holds (fun s => P s ∧ P' s) m (fun b s => Q b s ∧ Q' b s) (fun s => C s ∧ C' s) := by
  intro s hs
  have hm := h s hs.1
  have hm' := h' s hs.2
  rcases hr : m s with ⟨_ | b, s'⟩
  · simp only [hr] at hm hm'
    exact ⟨hm, hm'⟩
  · simp only [hr] at hm hm'
    exact ⟨hm, hm'⟩

def Keeps (I : σ → Prop) (m : Step σ β) : Prop := Holds I m (fun _ => I) I

variable {I : σ → Prop}

theorem keeps_pure (b : β) : Keeps I (pure b) := holds_pure b fun _ hs => hs

theorem keeps_bind {m : Step σ β} {f : β → Step σ γ} (hm : Keeps I m)
    (hf : ∀ b, Keeps I (f b)) : Keeps I (m >>= f) :=
  holds_bind hm hf

theorem keeps_ite {b : Prop} [Decidable b] {m n : Step σ β} (hm : Keeps I m)
    (hn : Keeps I n) : Keeps I (if b then m else n) :=
  holds_ite (fun _ => hm) fun _ => hn

theorem holds_frame {m : Step σ β} (h : Holds P m Q C) (hI : Keeps I m) :
    Holds (fun s => P s ∧ I s) m (fun b s => Q b s ∧ I s) (fun s => C s ∧ I s) :=
  holds_and h hI

theorem holds_returned {m : Step σ β} (h : Holds P m Q C) {s s' : σ} {b : β} (hs : P s)
    (hr : m s = (some b, s')) : Q b s' := by
  have := h s hs
  simpa [hr] using this

/-- Whatever a run of a step leaves, returned or not. -/
theorem holds_left {m : Step σ β} (h : Holds P m (fun _ => I) I) {s : σ}
    (hs : P s) : I (m s).2 := by
  have hm := h s hs
  rcases hr : m s with ⟨_ | b, s'⟩
  · simpa [hr] using hm
  · simpa [hr] using hm

end JaszczurHal.CrashRun
