import Mathlib.Tactic

/-!
# Commands: names, encodings, sources and security flags

What the command router and the command wire format share.
-/

set_option autoImplicit false

namespace JaszczurHal.CommandTypes

/-- `HAL_COMMAND_ROUTER_NAME_MAX` and `HAL_COMMAND_MESSAGE_MAX_PAYLOAD` with the
ranges the configuration header enforces. -/
structure Limits where
  nameMax : ℕ
  maxPayload : ℕ
  nameMax_ge : 2 ≤ nameMax
  nameMax_le : nameMax ≤ 256
  maxPayload_ge : 1 ≤ maxPayload
  maxPayload_le : maxPayload ≤ 65535

def encodingBinary : ℤ := 0
def encodingText : ℤ := 1
def encodingJson : ℤ := 2

def encodingValid (encoding : ℤ) : Bool :=
  encoding = encodingBinary || encoding = encodingText || encoding = encodingJson

def sourceDirect : ℤ := 0
def sourceCount : ℤ := 6

def sourceValid (source : ℤ) : Bool := sourceDirect ≤ source && source < sourceCount

def sourceMask (source : ℤ) : UInt32 := 1 <<< UInt32.ofInt source

def sourceMaskAll : UInt32 := (1 <<< UInt32.ofInt sourceCount)-1

def securityAll : UInt32 := 1 ||| 2 ||| 4 ||| 8

def nameCharValid (value : UInt8) : Bool := !(value ≤ 0x20 || value = 0x7f)

def scanName : List UInt8 → Option ℕ
  | [] => none
  | value :: rest =>
    if value = 0 then some 0
    else if nameCharValid value then (scanName rest).map (·+1)
    else none

/-- `jh_command_name_valid`: the length of a valid name. `name` is the memory
at the pointer, its terminator included. -/
def nameValid (l : Limits) (name : List UInt8) : Option ℕ :=
  match scanName (name.take l.nameMax) with
  | some 0 => none
  | length => length

theorem encodingValid_iff (encoding : ℤ) : encodingValid encoding = true ↔
    encoding = encodingBinary ∨ encoding = encodingText ∨ encoding = encodingJson := by
  simp [encodingValid, or_assoc]

theorem nameChar_ne_zero {value : UInt8} (h : nameCharValid value = true) : value ≠ 0 := by
  rintro rfl
  cases h

theorem scanName_some {name : List UInt8} {n : ℕ} (h : scanName name = some n) :
    n < name.length ∧ name[n]? = some 0 ∧ ∀ value ∈ name.take n, nameCharValid value = true := by
  induction name generalizing n with
  | nil => cases h
  | cons value rest ih =>
    simp only [scanName] at h
    by_cases hzero : value = 0
    · simp only [hzero, if_true, Option.some.injEq] at h
      subst h
      simp [hzero]
    · rw [if_neg hzero] at h
      by_cases hvalid : nameCharValid value = true
      · rw [if_pos hvalid, Option.map_eq_some_iff] at h
        obtain ⟨k, hk, rfl⟩ := h
        obtain ⟨hlt, hget, hall⟩ := ih hk
        refine ⟨by simpa using hlt, by simpa using hget, fun v hv => ?_⟩
        rw [List.take_succ_cons] at hv
        rcases List.mem_cons.mp hv with rfl | hv
        · exact hvalid
        · exact hall v hv
      · rw [if_neg hvalid] at h
        cases h

theorem scanName_append {name rest : List UInt8}
    (h : ∀ value ∈ name, nameCharValid value = true) :
    scanName (name ++ 0 :: rest) = some name.length := by
  induction name with
  | nil => simp [scanName]
  | cons value name ih =>
    have hvalue := h value (List.mem_cons_self)
    rw [List.cons_append, scanName, if_neg (nameChar_ne_zero hvalue), if_pos hvalue,
      ih fun v hv => h v (List.mem_cons_of_mem _ hv)]
    rfl

theorem nameValid_some {l : Limits} {name : List UInt8} {n : ℕ} (h : nameValid l name = some n) :
    0 < n ∧ n < l.nameMax ∧ n < name.length ∧
      ∀ value ∈ name.take n, nameCharValid value = true := by
  rw [nameValid] at h
  have hscan : scanName (name.take l.nameMax) = some n ∧ 0 < n := by
    split at h
    · cases h
    · rename_i hne
      refine ⟨h, Nat.pos_of_ne_zero ?_⟩
      rintro rfl
      exact hne h
  obtain ⟨hlt, _, hall⟩ := scanName_some hscan.1
  rw [List.length_take] at hlt
  refine ⟨hscan.2, by omega, by omega, ?_⟩
  rwa [List.take_take, Nat.min_eq_left (by omega)] at hall

theorem nameValid_append {l : Limits} {name rest : List UInt8} (hpos : 0 < name.length)
    (hlt : name.length < l.nameMax) (h : ∀ value ∈ name, nameCharValid value = true) :
    nameValid l (name ++ 0 :: rest) = some name.length := by
  obtain ⟨k, hk⟩ := Nat.exists_eq_add_of_lt hlt
  have htake : (name ++ 0 :: rest).take l.nameMax = name ++ 0 :: rest.take k := by
    rw [hk, List.take_append, List.take_of_length_le (by omega),
      show name.length+k+1-name.length = k+1 by omega, List.take_succ_cons]
  rw [nameValid, htake, scanName_append h]
  split
  · rename_i heq
    simp only [Option.some.injEq] at heq
    omega
  · rfl

end JaszczurHal.CommandTypes
