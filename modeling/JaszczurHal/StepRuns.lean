import Mathlib.Data.List.Basic

/-!
# Runs of a step function

A run whose steps all meet a condition on the state before them keeps every
invariant that such a step keeps.
-/

set_option autoImplicit false

namespace JaszczurHal.StepRuns

variable {S I : Type} {step : S → I → S}

def runFrom (step : S → I → S) (s : S) (inputs : List I) : S := inputs.foldl step s

def Along (step : S → I → S) (P : S → I → Prop) : S → List I → Prop
  | _, [] => True
  | s, i :: inputs => P s i ∧ Along step P (step s i) inputs

instance decidableAlong (P : S → I → Prop) [∀ s i, Decidable (P s i)] :
    ∀ s inputs, Decidable (Along step P s inputs)
  | _, [] => isTrue trivial
  | s, i :: inputs =>
    have := decidableAlong P (step s i) inputs
    inferInstanceAs (Decidable (P s i ∧ Along step P (step s i) inputs))

theorem along_run {P : S → I → Prop} {J : S → Prop}
    (hstep : ∀ s i, J s → P s i → J (step s i)) {s : S} {inputs : List I} (hs : J s)
    (h : Along step P s inputs) : J (runFrom step s inputs) := by
  induction inputs generalizing s with
  | nil => exact hs
  | cons i inputs ih => exact ih (hstep s i hs h.1) h.2

end JaszczurHal.StepRuns
