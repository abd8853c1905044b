import Mathlib.Tactic

/-!
# The OTA boot state record

Two flash sectors each hold at most one record. A record whose write was cut
fails its CRC-32 and counts as absent; of two present records the one with
the newer sequence number is selected.
-/

set_option autoImplicit false

namespace JaszczurHal.OtaImage

def JH_OTA_VERSION_TEXT_SIZE : ℕ := 32

inductive BootMode where
  | stable
  | pending
  | trial
  | rollback
  | recovery
  deriving DecidableEq, Repr

structure BootState (δ : Type*) where
  sequence : UInt32
  mode : BootMode
  attempts : UInt8
  maxAttempts : UInt8
  programSize : UInt32
  stagingSize : UInt32
  programGeneration : UInt32
  stagingGeneration : UInt32
  programSha256 : δ
  stagingSha256 : δ
  programVersion : List UInt8
  stagingVersion : List UInt8
  deriving DecidableEq, Repr

variable {δ : Type*}

def textValid (text : List UInt8) : Bool :=
  (text.take JH_OTA_VERSION_TEXT_SIZE).contains 0

def stateValid (state : BootState δ) : Bool :=
  decide (0 < state.maxAttempts) && textValid state.programVersion &&
    textValid state.stagingVersion

def sequenceNewer (lhs rhs : UInt32) : Bool :=
  decide (0 < (lhs - rhs).toNat) && decide ((lhs - rhs).toNat < 2^31)

theorem sequence_newer_succ (n : UInt32) : sequenceNewer (n+1) n = true := by
  have h : n+1-n = 1 := by grind
  rw [sequenceNewer, h]
  decide

theorem sequence_newer_pred (n : UInt32) : sequenceNewer n (n+1) = false := by
  have h : n-(n+1) = 0-1 := by grind
  rw [sequenceNewer, h]
  decide

def stateDecode (record : Option (BootState δ)) : Option (BootState δ) :=
  record.filter stateValid

/-- `jh_ota_boot_state_select`; the index is `false` for the first record. -/
def stateSelect (first second : Option (BootState δ)) : Option (BootState δ × Bool) :=
  match stateDecode first, stateDecode second with
  | none, none => none
  | some a, none => some (a, false)
  | none, some b => some (b, true)
  | some a, some b => if sequenceNewer b.sequence a.sequence then some (b, true)
      else some (a, false)

theorem stateSelect_valid (first second : Option (BootState δ)) (state : BootState δ)
    (index : Bool) (h : stateSelect first second = some (state, index)) :
    stateDecode (if index then second else first) = some state := by
  unfold stateSelect at h
  cases ha : stateDecode first with
  | none =>
    cases hb : stateDecode second with
    | none => simp [ha, hb] at h
    | some b =>
      simp only [ha, hb, Option.some.injEq, Prod.mk.injEq] at h
      obtain ⟨rfl, rfl⟩ := h
      simpa using hb
  | some a =>
    cases hb : stateDecode second with
    | none =>
      simp only [ha, hb, Option.some.injEq, Prod.mk.injEq] at h
      obtain ⟨rfl, rfl⟩ := h
      simpa using ha
    | some b =>
      simp only [ha, hb] at h
      split at h
      · simp only [Option.some.injEq, Prod.mk.injEq] at h
        obtain ⟨rfl, rfl⟩ := h
        simpa using hb
      · simp only [Option.some.injEq, Prod.mk.injEq] at h
        obtain ⟨rfl, rfl⟩ := h
        simpa using ha

theorem state_decode_valid (record : Option (BootState δ)) (state : BootState δ)
    (h : stateDecode record = some state) : stateValid state = true :=
  (Option.filter_eq_some_iff.mp h).2

theorem select_state_valid (first second : Option (BootState δ)) (state : BootState δ)
    (index : Bool) (h : stateSelect first second = some (state, index)) :
    stateValid state = true :=
  state_decode_valid _ state (stateSelect_valid first second state index h)

theorem decode_some (next : BootState δ) (h : stateValid next = true) :
    stateDecode (some next) = some next := by
  simp [stateDecode, h]

/-- A record written with the next sequence number over the other one. -/
theorem select_next (record : Bool → Option (BootState δ)) (state next : BootState δ)
    (index : Bool) (h : stateSelect (record false) (record true) = some (state, index))
    (hseq : next.sequence = state.sequence+1) (hvalid : stateValid next = true) :
    stateSelect (Function.update record (!index) (some next) false)
      (Function.update record (!index) (some next) true) = some (next, !index) := by
  have hold := stateSelect_valid _ _ _ _ h
  cases index with
  | false =>
    have hold : stateDecode (record false) = some state := by simpa using hold
    simp [stateSelect, hold, decode_some next hvalid, hseq, sequence_newer_succ]
  | true =>
    have hold : stateDecode (record true) = some state := by simpa using hold
    simp [stateSelect, hold, decode_some next hvalid, hseq, sequence_newer_pred]

theorem select_none_decode (first second : Option (BootState δ))
    (h : stateSelect first second = none) : stateDecode second = none := by
  unfold stateSelect at h
  cases hb : stateDecode second with
  | none => rfl
  | some b =>
    cases ha : stateDecode first with
    | none => simp [ha, hb] at h
    | some a =>
      simp only [ha, hb] at h
      split at h <;> simp at h

/-- The first record ever written, when neither sector holds one. -/
theorem select_first (record : Bool → Option (BootState δ)) (state : BootState δ)
    (h : stateSelect (record false) (record true) = none) (hvalid : stateValid state = true) :
    stateSelect (Function.update record false (some state) false)
      (Function.update record false (some state) true) = some (state, false) := by
  have hnone := select_none_decode _ _ h
  simp [stateSelect, hnone, decode_some state hvalid]

/-- A record torn while it was written over the other one. -/
theorem select_torn (record : Bool → Option (BootState δ)) (state : BootState δ)
    (index : Bool) (h : stateSelect (record false) (record true) = some (state, index)) :
    stateSelect (Function.update record (!index) none false)
      (Function.update record (!index) none true) = some (state, index) := by
  have hold := stateSelect_valid _ _ _ _ h
  have hnone : stateDecode (none : Option (BootState δ)) = none := rfl
  cases index with
  | false =>
    have hold : stateDecode (record false) = some state := by simpa using hold
    simp [stateSelect, hold, hnone]
  | true =>
    have hold : stateDecode (record true) = some state := by simpa using hold
    simp [stateSelect, hold, hnone]

end JaszczurHal.OtaImage
