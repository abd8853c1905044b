import JaszczurHal.FdcanFilters

/-!
# The filter table and the controller

What the controller does with a frame, from the words of its filter elements,
is what the installed filters say, in the order of their elements, followed by
the policy for frames that no filter matches.
-/

set_option autoImplicit false

namespace JaszczurHal.FdcanAcceptance
open HalStatus FdcanFilters

def bits (w : UInt32) (position width : ℕ) : ℕ := w.toNat/2^position%2^width

def stdCondition (s0 : UInt32) (id : ℕ) : Bool :=
  match bits s0 30 2 with
  | 0 => bits s0 16 11 ≤ id ∧ id ≤ bits s0 0 11
  | 1 => id = bits s0 16 11 ∨ id = bits s0 0 11
  | 2 => id &&& bits s0 0 11 = bits s0 16 11 &&& bits s0 0 11
  | _ => false

def extCondition (f0 f1 : UInt32) (id : ℕ) : Bool :=
  match bits f1 30 2 with
  | 1 => id = bits f0 0 29 ∨ id = bits f1 0 29
  | 2 => id &&& bits f1 0 29 = bits f0 0 29 &&& bits f1 0 29
  | _ => bits f0 0 29 ≤ id ∧ id ≤ bits f1 0 29

/-- An element that matches stores the frame, or rejects it under the
configuration 3; the configuration 0 disables an element. -/
def outcome (config : ℕ) (condition : Bool) : Option Bool :=
  if config = 0 ∨ condition = false then none else some (config ≠ 3)

def elementOutcome (fd : Fdcan) (ext : Bool) (elem id : ℕ) : Option Bool :=
  if ext then
    outcome (bits (fd.ram (extFilterWord+elem*2)) 29 3)
      (extCondition (fd.ram (extFilterWord+elem*2)) (fd.ram (extFilterWord+elem*2+1)) id)
  else
    outcome (bits (fd.ram (stdFilterWord+elem)) 27 3) (stdCondition (fd.ram (stdFilterWord+elem)) id)

/-- The first matching element decides; frames without a match are rejected.
An accepted frame comes with the filter index that is reported for it. -/
def controllerVerdict (fd : Fdcan) (frame : Frame) : Option UInt8 :=
  if frame.rtr = true ∧ (if frame.ext then fd.rrfe else fd.rrfs) = true then none
  else
    ((List.range (listSize frame.ext)).findSome? fun elem =>
      (elementOutcome fd frame.ext elem frame.id.toNat).map fun store =>
        if store then some (filterOf fd frame.ext elem) else none).getD none

structure Installed where
  filters : UInt8 → Option FilterEx
  acceptStd : Bool
  acceptExt : Bool
  acceptRtr : Bool
  chosen : Bool

def Installed.accept (a : Installed) (ext : Bool) : Bool := if ext then a.acceptExt else a.acceptStd

def order (fd : Fdcan) (ext : Bool) : List UInt8 :=
  (List.range (listSize ext)).filterMap fun elem =>
    if fd.owner ext elem < ownerAcceptAll then some (fd.owner ext elem) else none

def verdict (a : Installed) (indices : List UInt8) (frame : Frame) : Option UInt8 :=
  if frame.rtr = true ∧ a.acceptRtr = false then none
  else
    (indices.findSome? fun index => (a.filters index).bind fun f =>
      if filterExMatches frame f then some (if f.action = filterReject then none else some index)
      else none).getD (if a.accept frame.ext then some filterNone else none)

inductive Call where
  | setFilter (index : UInt8) (filter : Filter)
  | addFilter (filter : FilterEx)
  | removeFilter (index : UInt8)
  | setUnmatchedPolicy (acceptStd acceptExt acceptRtr : Bool)
  | channel (stopped : Bool)

structure Result where
  status : Status
  index : Option UInt8

def call (fd : Fdcan) : Call → Fdcan × Result
  | .setFilter index filter =>
    if filterExValid (classicAsEx filter) = false then (fd, ⟨.einval, none⟩)
    else if index < maxFilters then ((setFilter fd index filter).1, ⟨(setFilter fd index filter).2, none⟩)
    else (fd, ⟨.einval, none⟩)
  | .addFilter filter =>
    if filterExValid filter = false then (fd, ⟨.einval, none⟩)
    else
      match addFilter fd filter with
      | (fd, .ok index) => (fd, ⟨.ok, some index⟩)
      | (fd, .error status) => (fd, ⟨status, none⟩)
  | .removeFilter index => ((removeFilter fd index).1, ⟨(removeFilter fd index).2, none⟩)
  | .setUnmatchedPolicy acceptStd acceptExt acceptRtr =>
    ((setUnmatchedPolicy fd acceptStd acceptExt acceptRtr).1,
      ⟨(setUnmatchedPolicy fd acceptStd acceptExt acceptRtr).2, none⟩)
  | .channel stopped => ({ fd with cccrInit := stopped }, ⟨.ok, none⟩)

def record (a : Installed) (r : Result) : Call → Installed
  | .setFilter index filter =>
    { filters := Function.update a.filters index (some (classicAsEx filter))
      acceptStd := a.chosen && a.acceptStd
      acceptExt := a.chosen && a.acceptExt
      acceptRtr := a.acceptRtr
      chosen := true }
  | .addFilter filter =>
    match r.index with
    | some index => { a with filters := Function.update a.filters index (some filter) }
    | none => a
  | .removeFilter index => { a with filters := Function.update a.filters index none }
  | .setUnmatchedPolicy acceptStd acceptExt acceptRtr =>
    { a with acceptStd := acceptStd, acceptExt := acceptExt, acceptRtr := acceptRtr, chosen := true }
  | .channel _ => a

structure Session where
  fd : Fdcan
  installed : Installed

def step (s : Session) (c : Call) : Session where
  fd := (call s.fd c).1
  installed := if (call s.fd c).2.status = .ok then record s.installed (call s.fd c).2 c
    else s.installed

def run (s : Session) (calls : List Call) : Session := calls.foldl step s

def start (stopped : Bool) : Session :=
  ⟨resetFilters stopped, ⟨fun _ => none, true, true, true, false⟩⟩

structure Faithful (s : Session) : Prop where
  exclusive : ∀ e e' i j, i < listSize e → j < listSize e' → s.fd.owner e i = s.fd.owner e' j →
    s.fd.owner e i < ownerAcceptAll → e = e' ∧ i = j
  allLast : ∀ e i, i < listSize e → s.fd.owner e i = ownerAcceptAll → i = last e
  complete : ∀ index f, s.installed.filters index = some f → index ∈ order s.fd f.ext
  verdicts : ∀ frame, controllerVerdict s.fd frame = verdict s.installed (order s.fd frame.ext) frame

/-- A call that fails changes nothing, and a new index is not in use. -/
structure Careful (fd : Fdcan) (c : Call) : Prop where
  failed : (call fd c).2.status ≠ .ok → (call fd c).1 = fd
  unused : ∀ index, (call fd c).2.index = some index →
    filterFirstAdded ≤ index ∧ ∀ e i, i < listSize e → fd.owner e i ≠ index

theorem and_idMask {x : UInt32} {ext : Bool} (h : x ≤ idMask ext) : x &&& idMask ext = x := by
  apply UInt32.toNat_inj.mp
  rw [UInt32.toNat_and]
  rw [UInt32.le_iff_toNat_le] at h
  cases ext with
  | false =>
    have hmask : (idMask false).toNat = 2^11-1 := rfl
    rw [hmask] at h ⊢
    rw [Nat.and_two_pow_sub_one_eq_mod]
    exact Nat.mod_eq_of_lt (by omega)
  | true =>
    have hmask : (idMask true).toNat = 2^29-1 := rfl
    rw [hmask] at h ⊢
    rw [Nat.and_two_pow_sub_one_eq_mod]
    exact Nat.mod_eq_of_lt (by omega)

theorem shiftLeft_toNat {x k : UInt32} {n : ℕ} (hk : k.toNat = n) (hn : n < 32)
    (hx : x.toNat*2^n < 2^32) : (x <<< k).toNat = 2^n*x.toNat := by
  rw [UInt32.toNat_shiftLeft, hk, Nat.mod_eq_of_lt hn, Nat.shiftLeft_eq, Nat.mod_eq_of_lt hx,
    Nat.mul_comm]

theorem stdWord_toNat {t c a b : UInt32} (ht : t.toNat < 4) (hc : c.toNat < 8)
    (ha : a.toNat < 2^11) (hb : b.toNat < 2^11) :
    ((t <<< 30) ||| (c <<< 27) ||| (a <<< 16) ||| b).toNat =
      t.toNat*2^30+c.toNat*2^27+a.toNat*2^16+b.toNat := by
  have h30 : (30 : UInt32).toNat = 30 := rfl
  have h27 : (27 : UInt32).toNat = 27 := rfl
  have h16 : (16 : UInt32).toNat = 16 := rfl
  rw [UInt32.toNat_or, UInt32.toNat_or, UInt32.toNat_or, shiftLeft_toNat h30 (by omega) (by omega),
    shiftLeft_toNat h27 (by omega) (by omega), shiftLeft_toNat h16 (by omega) (by omega)]
  have h1 : 2^30*t.toNat ||| 2^27*c.toNat = 2^27*(8*t.toNat+c.toNat) := by
    rw [← Nat.two_pow_add_eq_or_of_lt (by omega)]
    omega
  have h2 : 2^27*(8*t.toNat+c.toNat) ||| 2^16*a.toNat = 2^16*(2^11*(8*t.toNat+c.toNat)+a.toNat) := by
    rw [← Nat.two_pow_add_eq_or_of_lt (by omega)]
    omega
  rw [h1, h2, ← Nat.two_pow_add_eq_or_of_lt (by omega)]
  omega

theorem extWord0_toNat {c a : UInt32} (hc : c.toNat < 8) (ha : a.toNat < 2^29) :
    ((c <<< 29) ||| a).toNat = c.toNat*2^29+a.toNat := by
  have h29 : (29 : UInt32).toNat = 29 := rfl
  rw [UInt32.toNat_or, shiftLeft_toNat h29 (by omega) (by omega),
    ← Nat.two_pow_add_eq_or_of_lt ha, Nat.mul_comm]

theorem extWord1_toNat {t a : UInt32} (ht : t.toNat < 4) (ha : a.toNat < 2^29) :
    ((t <<< 30) ||| a).toNat = t.toNat*2^30+a.toNat := by
  have h30 : (30 : UInt32).toNat = 30 := rfl
  rw [UInt32.toNat_or, shiftLeft_toNat h30 (by omega) (by omega),
    ← Nat.two_pow_add_eq_or_of_lt (by omega), Nat.mul_comm]

def sft (type : UInt8) : UInt32 := if type = filterMask then 2 else if type = filterRange then 0 else 1

def eft (type : UInt8) : UInt32 := if type = filterMask then 2 else if type = filterRange then 3 else 1

theorem sftOf_eq (type : UInt8) : sftOf type = sft type <<< 30 := by
  rw [sftOf, sft]
  split
  · rfl
  · split <;> rfl

theorem eftOf_eq (type : UInt8) : eftOf type = eft type <<< 30 := by
  rw [eftOf, eft]
  split
  · rfl
  · split <;> rfl

theorem sft_lt (type : UInt8) : (sft type).toNat < 4 := by
  rw [sft]
  split
  · decide
  · split <;> decide

theorem eft_lt (type : UInt8) : (eft type).toNat < 4 := by
  rw [eft]
  split
  · decide
  · split <;> decide

theorem action_lt (f : FilterEx) : (elementAction f).toNat < 8 := by
  rw [elementAction]
  split <;> decide

theorem idMask_lt {x : UInt32} {ext : Bool} (h : x ≤ idMask ext) :
    x.toNat < if ext then 2^29 else 2^11 := by
  rw [UInt32.le_iff_toNat_le] at h
  cases ext with
  | false =>
    have hmask : (idMask false).toNat = 2^11-1 := rfl
    rw [hmask] at h
    exact Nat.lt_of_le_of_lt h (by decide)
  | true =>
    have hmask : (idMask true).toNat = 2^29-1 := rfl
    rw [hmask] at h
    exact Nat.lt_of_le_of_lt h (by decide)

theorem valid_ids {f : FilterEx} (h : filterExValid f = true) :
    f.id1 ≤ idMask f.ext ∧ f.id2 ≤ idMask f.ext := by
  have hall := of_decide_eq_true h
  exact ⟨hall.2.2.2.1, hall.2.2.2.2.1⟩

theorem bits_std {f : FilterEx} (h : filterExValid f = true) (hext : f.ext = false) :
    bits (stdElementWord f) 30 2 = (sft f.type).toNat ∧
      bits (stdElementWord f) 27 3 = (elementAction f).toNat ∧
      bits (stdElementWord f) 16 11 = f.id1.toNat ∧ bits (stdElementWord f) 0 11 = f.id2.toNat := by
  obtain ⟨h1, h2⟩ := valid_ids h
  rw [hext] at h1 h2
  have hand1 : f.id1 &&& stdIdMask = f.id1 := and_idMask h1
  have hand2 : f.id2 &&& stdIdMask = f.id2 := and_idMask h2
  have hlt1 : f.id1.toNat < 2^11 := idMask_lt h1
  have hlt2 : f.id2.toNat < 2^11 := idMask_lt h2
  have htype := sft_lt f.type
  have haction := action_lt f
  have hword : (stdElementWord f).toNat =
      (sft f.type).toNat*2^30+(elementAction f).toNat*2^27+f.id1.toNat*2^16+f.id2.toNat := by
    rw [stdElementWord, hand1, hand2, sftOf_eq]
    exact stdWord_toNat htype haction hlt1 hlt2
  unfold bits
  rw [hword]
  refine ⟨?_, ?_, ?_, ?_⟩ <;> omega

theorem bits_ext {f : FilterEx} (h : filterExValid f = true) (hext : f.ext = true) :
    bits (extElementWord1 f) 30 2 = (eft f.type).toNat ∧
      bits (extElementWord0 f) 29 3 = (elementAction f).toNat ∧
      bits (extElementWord0 f) 0 29 = f.id1.toNat ∧ bits (extElementWord1 f) 0 29 = f.id2.toNat := by
  obtain ⟨h1, h2⟩ := valid_ids h
  rw [hext] at h1 h2
  have hand1 : f.id1 &&& extIdMask = f.id1 := and_idMask h1
  have hand2 : f.id2 &&& extIdMask = f.id2 := and_idMask h2
  have hlt1 : f.id1.toNat < 2^29 := idMask_lt h1
  have hlt2 : f.id2.toNat < 2^29 := idMask_lt h2
  have htype := eft_lt f.type
  have haction := action_lt f
  have hword0 : (extElementWord0 f).toNat = (elementAction f).toNat*2^29+f.id1.toNat := by
    rw [extElementWord0, hand1]
    exact extWord0_toNat haction hlt1
  have hword1 : (extElementWord1 f).toNat = (eft f.type).toNat*2^30+f.id2.toNat := by
    rw [extElementWord1, hand2, eftOf_eq]
    exact extWord1_toNat htype hlt2
  unfold bits
  rw [hword0, hword1]
  refine ⟨?_, ?_, ?_, ?_⟩ <;> omega

theorem masked_iff (id id1 id2 : UInt32) :
    (id.toNat &&& id2.toNat = id1.toNat &&& id2.toNat) ↔ id &&& id2 = id1 &&& id2 := by
  rw [← UInt32.toNat_and, ← UInt32.toNat_and, UInt32.toNat_inj]

theorem std_condition {f : FilterEx} (h : filterExValid f = true) (hext : f.ext = false)
    {frame : Frame} (hframe : frame.ext = false) :
    stdCondition (stdElementWord f) frame.id.toNat = filterExMatches frame f := by
  obtain ⟨htype, _, hid1, hid2⟩ := bits_std h hext
  rw [stdCondition, htype, hid1, hid2, filterExMatches, if_neg (by simp [hframe, hext]), sft]
  by_cases hmask : f.type = filterMask
  · rw [if_pos hmask, if_pos hmask]
    exact decide_eq_decide.mpr (masked_iff frame.id f.id1 f.id2)
  rw [if_neg hmask, if_neg hmask]
  by_cases hrange : f.type = filterRange
  · rw [if_pos hrange, if_pos hrange]
    exact decide_eq_decide.mpr (by rw [UInt32.le_iff_toNat_le, UInt32.le_iff_toNat_le])
  · rw [if_neg hrange, if_neg hrange]
    exact decide_eq_decide.mpr (by rw [UInt32.toNat_inj, UInt32.toNat_inj])

theorem ext_condition {f : FilterEx} (h : filterExValid f = true) (hext : f.ext = true)
    {frame : Frame} (hframe : frame.ext = true) :
    extCondition (extElementWord0 f) (extElementWord1 f) frame.id.toNat = filterExMatches frame f := by
  obtain ⟨htype, _, hid1, hid2⟩ := bits_ext h hext
  rw [extCondition, htype, hid1, hid2, filterExMatches, if_neg (by simp [hframe, hext]), eft]
  by_cases hmask : f.type = filterMask
  · rw [if_pos hmask, if_pos hmask]
    exact decide_eq_decide.mpr (masked_iff frame.id f.id1 f.id2)
  rw [if_neg hmask, if_neg hmask]
  by_cases hrange : f.type = filterRange
  · rw [if_pos hrange, if_pos hrange]
    exact decide_eq_decide.mpr (by rw [UInt32.le_iff_toNat_le, UInt32.le_iff_toNat_le])
  · rw [if_neg hrange, if_neg hrange]
    exact decide_eq_decide.mpr (by rw [UInt32.toNat_inj, UInt32.toNat_inj])

def stores (f : FilterEx) : Bool := f.action ≠ filterReject

theorem outcome_action (f : FilterEx) (condition : Bool) :
    outcome (elementAction f).toNat condition =
      if condition = true then some (stores f) else none := by
  rw [outcome, elementAction, stores]
  cases condition with
  | false => simp
  | true => by_cases h : f.action = filterReject <;> simp [h]

def Holds (fd : Fdcan) (ext : Bool) (elem : ℕ) (f : FilterEx) : Prop :=
  ∀ frame : Frame, frame.ext = ext → elementOutcome fd ext elem frame.id.toNat =
    if filterExMatches frame f = true then some (stores f) else none

def Disabled (fd : Fdcan) (ext : Bool) (elem : ℕ) : Prop :=
  ∀ id, elementOutcome fd ext elem id = none

structure Edit (fd fd' : Fdcan) (ext : Bool) (elem : ℕ) (owner : UInt8) : Prop where
  owner : ∀ e i, fd'.owner e i = if e = ext ∧ i = elem then owner else fd.owner e i
  other : ∀ e i id, i < listSize e → ¬(e = ext ∧ i = elem) →
    elementOutcome fd' e i id = elementOutcome fd e i id
  policySet : fd'.policySet = fd.policySet
  rrfs : fd'.rrfs = fd.rrfs
  rrfe : fd'.rrfe = fd.rrfe

theorem setOwner_owner (fd : Fdcan) (ext : Bool) (elem : ℕ) (owner : UInt8) (e : Bool) (i : ℕ) :
    (setOwner fd ext elem owner).owner e i = if e = ext ∧ i = elem then owner else fd.owner e i := by
  rw [setOwner]
  dsimp only
  by_cases he : e = ext
  · subst he
    rw [Function.update_self]
    by_cases hi : i = elem
    · rw [hi, Function.update_self, if_pos ⟨rfl, rfl⟩]
    · rw [Function.update_of_ne hi, if_neg (fun h => hi h.2)]
  · rw [Function.update_of_ne he, if_neg (fun h => he h.1)]

def Word (ext : Bool) (elem word : ℕ) : Prop :=
  if ext then word = extFilterWord+elem*2 ∨ word = extFilterWord+elem*2+1
  else word = stdFilterWord+elem

theorem outcome_congr {fd fd' : Fdcan} {ext : Bool} {elem : ℕ}
    (h : ∀ word, Word ext elem word → fd'.ram word = fd.ram word) (id : ℕ) :
    elementOutcome fd' ext elem id = elementOutcome fd ext elem id := by
  unfold elementOutcome
  cases ext with
  | false =>
    rw [if_neg Bool.false_ne_true, if_neg Bool.false_ne_true, h _ rfl]
  | true =>
    rw [if_pos rfl, if_pos rfl, h _ (Or.inl rfl), h _ (Or.inr rfl)]

theorem word_unique {e ext : Bool} {i elem word : ℕ} (hi : i < listSize e) (helem : elem < listSize ext)
    (h : Word e i word) (h' : Word ext elem word) : e = ext ∧ i = elem := by
  cases e <;> cases ext <;> simp [Word, listSize, stdFilterWord, extFilterWord] at * <;> omega

theorem ram_other {fd : Fdcan} {ext : Bool} {elem word : ℕ} (value : UInt32) (hword : Word ext elem word)
    (helem : elem < listSize ext) {e : Bool} {i : ℕ} (hi : i < listSize e)
    (hne : ¬(e = ext ∧ i = elem)) :
    ∀ w, Word e i w → (ramWr fd word value).ram w = fd.ram w := by
  intro w hw
  rw [ramWr]
  dsimp only
  rw [Function.update_of_ne]
  rintro rfl
  exact hne (word_unique hi helem hw hword)

theorem ext_eq {f : FilterEx} (h : ¬f.ext = false) : f.ext = true := by simpa using h

theorem edit_write (fd : Fdcan) {f : FilterEx} {elem : ℕ} (helem : elem < listSize f.ext)
    (owner : UInt8) :
    Edit fd (writeElement (setOwner fd f.ext elem owner) elem f) f.ext elem owner := by
  have howner : ∀ e i, (writeElement (setOwner fd f.ext elem owner) elem f).owner e i =
      (setOwner fd f.ext elem owner).owner e i := by
    intro e i
    rw [writeElement]
    split <;> rfl
  refine ⟨?_, ?_, ?_, ?_, ?_⟩
  · intro e i
    rw [howner]
    exact setOwner_owner fd f.ext elem owner e i
  · intro e i id hi hne
    apply outcome_congr
    intro w hw
    rw [writeElement]
    by_cases hext : f.ext = false
    · rw [if_pos hext]
      have hword : Word f.ext elem (stdFilterWord+elem) := by rw [hext]; rfl
      rw [ram_other _ hword helem hi hne w hw]
      rfl
    · rw [if_neg hext]
      have hword0 : Word f.ext elem (extFilterWord+elem*2) := by rw [ext_eq hext]; exact Or.inl rfl
      have hword1 : Word f.ext elem (extFilterWord+elem*2+1) := by rw [ext_eq hext]; exact Or.inr rfl
      dsimp only
      rw [ram_other _ hword0 helem hi hne w hw, ram_other _ hword1 helem hi hne w hw,
        ram_other _ hword0 helem hi hne w hw]
      rfl
  all_goals
    rw [writeElement]
    split <;> rfl

theorem holds_write {fd : Fdcan} {f : FilterEx} {elem : ℕ} (hvalid : filterExValid f = true) :
    Holds (writeElement fd elem f) f.ext elem f := by
  intro frame hframe
  rw [writeElement, elementOutcome]
  by_cases hext : f.ext = false
  · obtain ⟨_, haction, _⟩ := bits_std hvalid hext
    rw [if_pos hext, if_neg (by simp [hext]), ramWr]
    dsimp only
    rw [Function.update_self, haction, std_condition hvalid hext (hframe.trans hext)]
    exact outcome_action f _
  · have hext' := ext_eq hext
    obtain ⟨_, haction, _⟩ := bits_ext hvalid hext'
    rw [if_neg hext, if_pos hext']
    dsimp only [ramWr]
    rw [Function.update_self, Function.update_of_ne (by omega), Function.update_self, haction,
      ext_condition hvalid hext' (hframe.trans hext')]
    exact outcome_action f _

theorem edit_clear (fd : Fdcan) {ext : Bool} {elem : ℕ} (helem : elem < listSize ext) :
    Edit fd (clearElement fd ext elem) ext elem ownerFree := by
  refine ⟨?_, ?_, rfl, rfl, rfl⟩
  · intro e i
    rw [clearElement, setOwner_owner]
    rfl
  · intro e i id hi hne
    apply outcome_congr
    intro w hw
    have hword : Word ext elem (if ext then extFilterWord+elem*2 else stdFilterWord+elem) := by
      cases ext with
      | false => rfl
      | true => exact Or.inl rfl
    exact ram_other _ hword helem hi hne w hw

theorem disabled_zero {fd : Fdcan} {ext : Bool} {elem : ℕ}
    (h : fd.ram (if ext then extFilterWord+elem*2 else stdFilterWord+elem) = 0) :
    Disabled fd ext elem := by
  intro id
  have hzero : ∀ position width, bits 0 position width = 0 := by
    intro position width
    simp [bits]
  rw [elementOutcome]
  cases ext with
  | false =>
    rw [if_neg Bool.false_ne_true] at h ⊢
    rw [h, hzero, outcome, if_pos (Or.inl rfl)]
  | true =>
    rw [if_pos rfl] at h ⊢
    rw [h, hzero, outcome, if_pos (Or.inl rfl)]

theorem disabled_clear (fd : Fdcan) (ext : Bool) (elem : ℕ) :
    Disabled (clearElement fd ext elem) ext elem :=
  disabled_zero (Function.update_self _ _ _)

inductive Entry (fd : Fdcan) (filters : UInt8 → Option FilterEx) (e : Bool) (i : ℕ) : Prop where
  | free (owner : fd.owner e i = ownerFree) (off : Disabled fd e i)
  | all (owner : fd.owner e i = ownerAcceptAll) (position : i = last e) (on : Holds fd e i (acceptAll e))
  | filter (f : FilterEx) (owner : fd.owner e i < ownerAcceptAll)
      (installed : filters (fd.owner e i) = some f) (kind : f.ext = e) (on : Holds fd e i f)

structure Programmed (fd : Fdcan) (a : Installed) : Prop where
  exclusive : ∀ e e' i j, i < listSize e → j < listSize e' → fd.owner e i = fd.owner e' j →
    fd.owner e i < ownerAcceptAll → e = e' ∧ i = j
  entries : ∀ e i, i < listSize e → Entry fd a.filters e i
  listed : ∀ index f, a.filters index = some f → index < ownerAcceptAll ∧
    ∃ i, i < listSize f.ext ∧ fd.owner f.ext i = index
  accept : ∀ e, a.accept e = true ↔ fd.owner e (last e) = ownerAcceptAll
  chosen : fd.policySet = a.chosen
  unchosen : a.chosen = false → ∀ e, fd.owner e (last e) = ownerAcceptAll
  rrfs : fd.rrfs = !a.acceptRtr
  rrfe : fd.rrfe = !a.acceptRtr

theorem last_lt (e : Bool) : last e < listSize e := by
  cases e <;> decide

theorem entry_kept {fd fd' : Fdcan} {filters filters' : UInt8 → Option FilterEx} {e : Bool} {i : ℕ}
    (h : Entry fd filters e i) (howner : fd'.owner e i = fd.owner e i)
    (houtcome : ∀ id, elementOutcome fd' e i id = elementOutcome fd e i id)
    (hfilters : fd.owner e i < ownerAcceptAll → filters' (fd.owner e i) = filters (fd.owner e i)) :
    Entry fd' filters' e i := by
  cases h with
  | free owner off => exact .free (howner.trans owner) fun id => (houtcome id).trans (off id)
  | all owner position on =>
    exact .all (howner.trans owner) position fun frame hframe => (houtcome _).trans (on frame hframe)
  | filter f owner installed kind on =>
    refine .filter f (howner ▸ owner) ?_ kind fun frame hframe => (houtcome _).trans (on frame hframe)
    rw [howner, hfilters owner]
    exact installed

/-- One element changed, and the installed filters with it. -/
theorem programmed_edit {fd fd' : Fdcan} {a a' : Installed} {e : Bool} {i : ℕ} {o : UInt8}
    (h : Programmed fd a) (hi : i < listSize e) (hedit : Edit fd fd' e i o)
    (hentry : Entry fd' a'.filters e i)
    (hfresh : o < ownerAcceptAll → ∀ e' j, j < listSize e' → ¬(e' = e ∧ j = i) → fd.owner e' j ≠ o)
    (hsame : ∀ e' j, j < listSize e' → ¬(e' = e ∧ j = i) → fd.owner e' j < ownerAcceptAll →
      a'.filters (fd.owner e' j) = a.filters (fd.owner e' j))
    (hlisted : ∀ index f, a'.filters index = some f → index < ownerAcceptAll ∧
      ∃ k, k < listSize f.ext ∧ fd'.owner f.ext k = index)
    (haccept : ∀ e, a'.accept e = true ↔ fd'.owner e (last e) = ownerAcceptAll)
    (hchosen : a'.chosen = a.chosen)
    (hunchosen : a'.chosen = false → ∀ e, fd'.owner e (last e) = ownerAcceptAll)
    (hrtr : a'.acceptRtr = a.acceptRtr) : Programmed fd' a' where
  exclusive := by
    intro e1 e2 j k hj hk hjk hsmall
    have hother : ∀ e' j, ¬(e' = e ∧ j = i) → fd'.owner e' j = fd.owner e' j := by
      intro e' j hne
      rw [hedit.owner, if_neg hne]
    have hself : fd'.owner e i = o := by rw [hedit.owner, if_pos ⟨rfl, rfl⟩]
    by_cases h1 : e1 = e ∧ j = i
    · obtain ⟨rfl, rfl⟩ := h1
      by_cases h2 : e2 = e1 ∧ k = j
      · exact ⟨h2.1.symm, h2.2.symm⟩
      · rw [hself] at hjk hsmall
        rw [hother e2 k h2] at hjk
        exact absurd hjk.symm (hfresh hsmall e2 k hk h2)
    · by_cases h2 : e2 = e ∧ k = i
      · obtain ⟨rfl, rfl⟩ := h2
        rw [hself] at hjk
        rw [hjk] at hsmall
        rw [hother e1 j h1] at hjk
        exact absurd hjk (hfresh hsmall e1 j hj h1)
      · rw [hother e1 j h1] at hjk hsmall
        rw [hother e2 k h2] at hjk
        exact h.exclusive e1 e2 j k hj hk hjk hsmall
  entries := by
    intro e' j hj
    by_cases hne : e' = e ∧ j = i
    · obtain ⟨rfl, rfl⟩ := hne
      exact hentry
    · refine entry_kept (h.entries e' j hj) ?_ (fun id => hedit.other e' j id hj hne)
        (hsame e' j hj hne)
      rw [hedit.owner, if_neg hne]
  listed := hlisted
  accept := haccept
  chosen := by rw [hedit.policySet, hchosen, h.chosen]
  unchosen := hunchosen
  rrfs := by rw [hedit.rrfs, hrtr, h.rrfs]
  rrfe := by rw [hedit.rrfe, hrtr, h.rrfe]

def install (a : Installed) (index : UInt8) (f : FilterEx) : Installed :=
  { a with filters := Function.update a.filters index (some f) }

def uninstall (a : Installed) (index : UInt8) : Installed :=
  { a with filters := Function.update a.filters index none }

theorem installed_self (a : Installed) (index : UInt8) (f : FilterEx) :
    (install a index f).filters index = some f := Function.update_self _ _ _

theorem installed_other (a : Installed) {index x : UInt8} (f : FilterEx) (h : x ≠ index) :
    (install a index f).filters x = a.filters x := Function.update_of_ne h _ _

theorem uninstalled_self (a : Installed) (index : UInt8) :
    (uninstall a index).filters index = none := Function.update_self _ _ _

theorem uninstalled_other (a : Installed) {index x : UInt8} (h : x ≠ index) :
    (uninstall a index).filters x = a.filters x := Function.update_of_ne h _ _

theorem small_ne_all {o : UInt8} (h : o < ownerAcceptAll) : o ≠ ownerAcceptAll := by
  rintro rfl
  exact absurd h (by decide)

theorem small_ne_free {o : UInt8} (h : o < ownerAcceptAll) : o ≠ ownerFree := by
  rintro rfl
  exact absurd h (by decide)

/-- The last position accepts everything after an edit if it did before and was
not edited. -/
theorem accept_edited {fd fd' : Fdcan} {e : Bool} {i : ℕ} {o : UInt8} (hedit : Edit fd fd' e i o)
    (hold : fd.owner e i ≠ ownerAcceptAll) (ho : o ≠ ownerAcceptAll) (e' : Bool) :
    fd'.owner e' (last e') = ownerAcceptAll ↔ fd.owner e' (last e') = ownerAcceptAll := by
  rw [hedit.owner]
  by_cases hsame : e' = e ∧ last e' = i
  · obtain ⟨rfl, rfl⟩ := hsame
    rw [if_pos ⟨rfl, rfl⟩]
    exact ⟨fun h => absurd h ho, fun h => absurd h hold⟩
  · rw [if_neg hsame]

/-- A filter goes into an element that is free or has its index already. -/
theorem programmed_write {fd : Fdcan} {a : Installed} {f : FilterEx} {elem : ℕ} {index : UInt8}
    (h : Programmed fd a) (hvalid : filterExValid f = true) (helem : elem < listSize f.ext)
    (hindex : index < ownerAcceptAll)
    (hold : fd.owner f.ext elem = ownerFree ∨ fd.owner f.ext elem = index)
    (hfresh : ∀ e j, j < listSize e → ¬(e = f.ext ∧ j = elem) → fd.owner e j ≠ index) :
    Programmed (writeElement (setOwner fd f.ext elem index) elem f) (install a index f) := by
  have hedit := edit_write fd helem index
  have hself : (writeElement (setOwner fd f.ext elem index) elem f).owner f.ext elem = index := by
    rw [hedit.owner, if_pos ⟨rfl, rfl⟩]
  have hnotAll : fd.owner f.ext elem ≠ ownerAcceptAll := by
    rcases hold with hfree | hsame
    · rw [hfree]
      decide
    · rw [hsame]
      exact small_ne_all hindex
  refine programmed_edit h helem hedit ?_ (fun _ => hfresh) ?_ ?_ ?_ rfl ?_ rfl
  · refine .filter f (hself.symm ▸ hindex) ?_ rfl (holds_write hvalid)
    rw [hself]
    exact installed_self a index f
  · intro e j hj hne _
    exact installed_other a f (hfresh e j hj hne)
  · intro x g hx
    by_cases hxi : x = index
    · subst hxi
      have hg : g = f := by
        rw [installed_self] at hx
        exact (Option.some.inj hx).symm
      subst hg
      exact ⟨hindex, elem, helem, hself⟩
    · rw [installed_other a f hxi] at hx
      obtain ⟨hsmall, k, hk, howner⟩ := h.listed x g hx
      refine ⟨hsmall, k, hk, ?_⟩
      rw [hedit.owner, if_neg ?_]
      · exact howner
      · rintro ⟨hext, rfl⟩
        rw [hext] at howner
        rcases hold with hfree | hsame
        · exact small_ne_free hsmall (howner.symm.trans hfree)
        · exact hxi (howner.symm.trans hsame)
  · intro e
    rw [accept_edited hedit hnotAll (small_ne_all hindex)]
    exact h.accept e
  · intro hchosen e
    rw [accept_edited hedit hnotAll (small_ne_all hindex)]
    exact h.unchosen hchosen e

theorem programmed_clear {fd : Fdcan} {a : Installed} {e : Bool} {i : ℕ} (h : Programmed fd a)
    (hi : i < listSize e) (howner : fd.owner e i < ownerAcceptAll) :
    Programmed (clearElement fd e i) (uninstall a (fd.owner e i)) := by
  have hedit := edit_clear fd hi
  have hfree : ownerFree ≠ ownerAcceptAll := by decide
  refine programmed_edit h hi hedit ?_ (fun hsmall => absurd hsmall (by decide)) ?_ ?_ ?_ rfl ?_ rfl
  · refine .free ?_ (disabled_clear fd e i)
    rw [hedit.owner, if_pos ⟨rfl, rfl⟩]
  · intro e' j hj hne hsmall
    refine uninstalled_other a ?_
    intro hsame
    obtain ⟨he, hij⟩ := h.exclusive e' e j i hj hi hsame hsmall
    exact hne ⟨he, hij⟩
  · intro x g hx
    by_cases hxi : x = fd.owner e i
    · rw [hxi, uninstalled_self] at hx
      cases hx
    · rw [uninstalled_other a hxi] at hx
      obtain ⟨hsmall, k, hk, hkx⟩ := h.listed x g hx
      refine ⟨hsmall, k, hk, ?_⟩
      rw [hedit.owner, if_neg ?_]
      · exact hkx
      · rintro ⟨rfl, rfl⟩
        exact hxi hkx.symm
  · intro e'
    rw [accept_edited hedit (small_ne_all howner) hfree]
    exact h.accept e'
  · intro hchosen e'
    rw [accept_edited hedit (small_ne_all howner) hfree]
    exact h.unchosen hchosen e'

def setAccept (a : Installed) (ext on : Bool) : Installed :=
  if ext then { a with acceptExt := on } else { a with acceptStd := on }

theorem setAccept_self (a : Installed) (ext on : Bool) : (setAccept a ext on).accept ext = on := by
  cases ext <;> rfl

theorem setAccept_other (a : Installed) {e ext : Bool} (on : Bool) (h : e ≠ ext) :
    (setAccept a ext on).accept e = a.accept e := by
  cases ext <;> cases e <;> first | rfl | exact absurd rfl h

theorem setAccept_same {a : Installed} {ext on : Bool} (h : a.accept ext = on) :
    setAccept a ext on = a := by
  subst h
  cases ext <;> rfl

theorem setAccept_filters (a : Installed) (ext on : Bool) :
    (setAccept a ext on).filters = a.filters := by
  cases ext <;> rfl

theorem setAccept_chosen (a : Installed) (ext on : Bool) : (setAccept a ext on).chosen = a.chosen := by
  cases ext <;> rfl

theorem setAccept_rtr (a : Installed) (ext on : Bool) :
    (setAccept a ext on).acceptRtr = a.acceptRtr := by
  cases ext <;> rfl

theorem acceptAll_ext (ext : Bool) : (acceptAll ext).ext = ext := by
  cases ext <;> decide

theorem acceptAll_valid (ext : Bool) : filterExValid (acceptAll ext) = true := by
  cases ext <;> decide

/-- An edit at the last position that changes nothing but the acceptance of
unmatched frames. -/
theorem programmed_last {fd fd' : Fdcan} {a : Installed} {ext on : Bool} {o : UInt8}
    (h : Programmed fd a) (hchosen : a.chosen = true) (hedit : Edit fd fd' ext (last ext) o)
    (hold : ¬fd.owner ext (last ext) < ownerAcceptAll) (hnew : ¬o < ownerAcceptAll)
    (hentry : Entry fd' a.filters ext (last ext)) (hon : on = true ↔ o = ownerAcceptAll) :
    Programmed fd' (setAccept a ext on) := by
  refine programmed_edit h (last_lt ext) hedit ?_ (fun hsmall => absurd hsmall hnew) ?_ ?_ ?_
    (setAccept_chosen a ext on) ?_ (setAccept_rtr a ext on)
  · rw [setAccept_filters]
    exact hentry
  · intro e' j _ _ _
    rw [setAccept_filters]
  · intro x g hx
    rw [setAccept_filters] at hx
    obtain ⟨hsmall, k, hk, hkx⟩ := h.listed x g hx
    refine ⟨hsmall, k, hk, ?_⟩
    rw [hedit.owner, if_neg ?_]
    · exact hkx
    · rintro ⟨he, rfl⟩
      rw [he] at hkx
      rw [hkx] at hold
      exact hold hsmall
  · intro e
    rw [hedit.owner]
    by_cases he : e = ext
    · subst he
      rw [setAccept_self, if_pos ⟨rfl, rfl⟩]
      exact hon
    · rw [setAccept_other a on he, if_neg (fun hboth => he hboth.1)]
      exact h.accept e
  · intro hno
    rw [setAccept_chosen, hchosen] at hno
    cases hno

theorem acceptUnmatched_programmed {fd : Fdcan} {a : Installed} (h : Programmed fd a)
    (hchosen : a.chosen = true) (ext on : Bool) (hok : (acceptUnmatched fd ext on).2 = .ok) :
    Programmed (acceptUnmatched fd ext on).1 (setAccept a ext on) := by
  rw [acceptUnmatched] at hok ⊢
  have hlarge : ∀ {o : UInt8}, o = ownerAcceptAll ∨ o = ownerFree → ¬o < ownerAcceptAll := by
    intro o ho hsmall
    rcases ho with rfl | rfl <;> exact absurd hsmall (by decide)
  cases on with
  | false =>
    rw [if_pos rfl]
    by_cases hall : fd.owner ext (last ext) = ownerAcceptAll
    · rw [if_pos hall]
      have hedit := edit_clear fd (last_lt ext)
      refine programmed_last h hchosen hedit (hlarge (Or.inl hall)) (by decide) ?_ (by decide)
      refine .free ?_ (disabled_clear fd ext (last ext))
      rw [hedit.owner, if_pos ⟨rfl, rfl⟩]
    · rw [if_neg hall, setAccept_same]
      · exact h
      · have hno := mt (h.accept ext).mp hall
        simpa using hno
  | true =>
    rw [if_neg (by decide)] at hok ⊢
    by_cases hall : fd.owner ext (last ext) = ownerAcceptAll
    · rw [if_pos hall, setAccept_same]
      · exact h
      · exact (h.accept ext).mpr hall
    · rw [if_neg hall] at hok ⊢
      by_cases hfree : fd.owner ext (last ext) = ownerFree
      · rw [if_neg (by simp [hfree])]
        have helem : last ext < listSize (acceptAll ext).ext := by
          rw [acceptAll_ext]
          exact last_lt ext
        have hedit := edit_write fd helem ownerAcceptAll
        have hholds : Holds (writeElement (setOwner fd (acceptAll ext).ext (last ext) ownerAcceptAll)
            (last ext) (acceptAll ext)) (acceptAll ext).ext (last ext) (acceptAll ext) :=
          holds_write (acceptAll_valid ext)
        rw [acceptAll_ext] at hedit hholds
        refine programmed_last h hchosen hedit (hlarge (Or.inr hfree)) (by decide) ?_ (by decide)
        refine .all ?_ rfl hholds
        rw [hedit.owner, if_pos ⟨rfl, rfl⟩]
      · rw [if_pos hfree] at hok
        cases hok

theorem findIn_some {fd : Fdcan} {ext : Bool} {index : UInt8} {elem : ℕ}
    (h : findIn fd ext index = some elem) : elem < listSize ext ∧ fd.owner ext elem = index := by
  rw [findIn, List.find?_range_eq_some] at h
  obtain ⟨howner, hlt, _⟩ := h
  exact ⟨List.mem_range.mp hlt, of_decide_eq_true howner⟩

theorem findIn_none {fd : Fdcan} {ext : Bool} {index : UInt8} (h : findIn fd ext index = none) :
    ∀ i, i < listSize ext → fd.owner ext i ≠ index := by
  intro i hi howner
  rw [findIn, List.find?_eq_none] at h
  exact h i (List.mem_range.mpr hi) (decide_eq_true howner)

theorem findOwner_some {fd : Fdcan} {index : UInt8} {ext : Bool} {elem : ℕ}
    (h : findOwner fd index = some (ext, elem)) : elem < listSize ext ∧ fd.owner ext elem = index := by
  rw [findOwner] at h
  cases hstd : findIn fd false index with
  | some i =>
    rw [hstd] at h
    obtain ⟨rfl, rfl⟩ := Prod.mk.inj (Option.some.inj h)
    exact findIn_some hstd
  | none =>
    rw [hstd] at h
    cases hext : findIn fd true index with
    | none =>
      rw [hext] at h
      cases h
    | some i =>
      rw [hext] at h
      obtain ⟨rfl, rfl⟩ := Prod.mk.inj (Option.some.inj h)
      exact findIn_some hext

theorem findOwner_none {fd : Fdcan} {index : UInt8} (h : findOwner fd index = none) :
    ∀ e i, i < listSize e → fd.owner e i ≠ index := by
  rw [findOwner] at h
  cases hstd : findIn fd false index with
  | some i =>
    rw [hstd] at h
    cases h
  | none =>
    rw [hstd] at h
    intro e
    cases e with
    | false => exact findIn_none hstd
    | true => exact findIn_none (Option.map_eq_none_iff.mp h)

theorem freeElement_some {fd : Fdcan} {ext : Bool} {elem : ℕ} (h : freeElement fd ext = some elem) :
    elem < listSize ext ∧ fd.owner ext elem = ownerFree := findIn_some h

theorem freeElement_isSome {fd : Fdcan} {ext : Bool} {i : ℕ} (hi : i < listSize ext)
    (howner : fd.owner ext i = ownerFree) : ∃ elem, freeElement fd ext = some elem := by
  cases hfree : freeElement fd ext with
  | some elem => exact ⟨elem, rfl⟩
  | none => exact absurd howner (findIn_none hfree i hi)

theorem freeIndex_some {fd : Fdcan} {fuel : ℕ} {candidate index : UInt8}
    (hfuel : candidate.toNat+fuel < 2^8) (h : freeIndex fd fuel candidate = some index) :
    candidate ≤ index ∧ index.toNat < candidate.toNat+fuel ∧ findOwner fd index = none := by
  induction fuel generalizing candidate with
  | zero => cases h
  | succ fuel ih =>
    rw [freeIndex] at h
    split at h
    · have hnext : (candidate+1).toNat = candidate.toNat+1 := by
        rw [UInt8.toNat_add]
        have h1 : (1 : UInt8).toNat = 1 := rfl
        omega
      obtain ⟨hle, hlt, hnone⟩ := ih (by omega) h
      rw [UInt8.le_iff_toNat_le] at hle ⊢
      exact ⟨by omega, by omega, hnone⟩
    · rename_i hfree
      obtain rfl := Option.some.inj h
      refine ⟨UInt8.le_refl _, by omega, ?_⟩
      simpa using hfree

theorem freeIndex_none {fd : Fdcan} {fuel : ℕ} {candidate : UInt8}
    (hfuel : candidate.toNat+fuel < 2^8) (h : freeIndex fd fuel candidate = none) :
    ∀ k, k < fuel → ∃ e i, i < listSize e ∧ (fd.owner e i).toNat = candidate.toNat+k := by
  induction fuel generalizing candidate with
  | zero =>
    intro k hk
    exact absurd hk (Nat.not_lt_zero k)
  | succ fuel ih =>
    rw [freeIndex] at h
    split at h
    · rename_i howned
      have hnext : (candidate+1).toNat = candidate.toNat+1 := by
        rw [UInt8.toNat_add]
        have h1 : (1 : UInt8).toNat = 1 := rfl
        omega
      intro k hk
      cases k with
      | zero =>
        obtain ⟨⟨e, i⟩, hfound⟩ := Option.isSome_iff_exists.mp howned
        obtain ⟨hi, howner⟩ := findOwner_some hfound
        exact ⟨e, i, hi, congrArg UInt8.toNat howner⟩
      | succ k =>
        obtain ⟨e, i, hi, howner⟩ := ih (by omega) h k (by omega)
        exact ⟨e, i, hi, by omega⟩
    · cases h

theorem freeIndex_found (fd : Fdcan) : ∃ index, freeIndex fd searchFuel filterFirstAdded = some index := by
  cases h : freeIndex fd searchFuel filterFirstAdded with
  | some index => exact ⟨index, rfl⟩
  | none =>
    exfalso
    have howned := freeIndex_none (by decide) h
    choose! e i hi howner using howned
    let place : ℕ → ℕ := fun k => if e k then 28+i k else i k
    have hplace : ∀ k, k < searchFuel → place k < 36 := by
      intro k hk
      have hlt := hi k hk
      dsimp only [place]
      cases he : e k with
      | false =>
        rw [he] at hlt
        have hstd : i k < 28 := hlt
        rw [if_neg Bool.false_ne_true]
        omega
      | true =>
        rw [he] at hlt
        have hext : i k < 8 := hlt
        rw [if_pos rfl]
        omega
    obtain ⟨j, hj, k, hk, hjk, hsame⟩ := Finset.exists_ne_map_eq_of_card_lt_of_maps_to
      (s := Finset.range searchFuel) (t := Finset.range 36) (f := place) (by simp [searchFuel])
      (fun k hk => Finset.mem_coe.mpr (Finset.mem_range.mpr (hplace k (Finset.mem_range.mp hk))))
    rw [Finset.mem_range] at hj hk
    have hsameEntry : e j = e k ∧ i j = i k := by
      have hltj := hi j hj
      have hltk := hi k hk
      dsimp only [place] at hsame
      cases hej : e j <;> cases hek : e k <;> rw [hej] at hltj hsame <;> rw [hek] at hltk hsame <;>
        simp [listSize] at hltj hltk hsame ⊢ <;> omega
    have hboth := howner j hj
    rw [hsameEntry.1, hsameEntry.2, howner k hk] at hboth
    exact hjk (by omega)

theorem placeFilter_full {fd : Fdcan} {index : UInt8} {f : FilterEx} (h : freeElement fd f.ext = none) :
    placeFilter fd index f = (fd, .enomem) := by
  rw [placeFilter, h]

theorem placeFilter_room {fd : Fdcan} {a : Installed} {index : UInt8} {f : FilterEx} {elem : ℕ}
    (h : Programmed fd a) (hvalid : filterExValid f = true) (hindex : index < ownerAcceptAll)
    (hfresh : ∀ e j, j < listSize e → fd.owner e j ≠ index) (hroom : freeElement fd f.ext = some elem) :
    (placeFilter fd index f).2 = .ok ∧ Programmed (placeFilter fd index f).1 (install a index f) := by
  obtain ⟨helem, hfree⟩ := freeElement_some hroom
  rw [placeFilter, hroom]
  exact ⟨rfl, programmed_write h hvalid helem hindex (Or.inl hfree) fun e j hj _ => hfresh e j hj⟩

theorem addFilter_spec {fd : Fdcan} {a : Installed} {f : FilterEx} (h : Programmed fd a)
    (hvalid : filterExValid f = true) :
    (∃ status, addFilter fd f = (fd, .error status) ∧ status ≠ .ok) ∨
      ∃ fd' index, addFilter fd f = (fd', .ok index) ∧ Programmed fd' (install a index f) ∧
        filterFirstAdded ≤ index ∧ ∀ e i, i < listSize e → fd.owner e i ≠ index := by
  obtain ⟨index, hindex⟩ := freeIndex_found fd
  obtain ⟨hfirst, hlt, hnone⟩ := freeIndex_some (by decide) hindex
  have hsmall : index < ownerAcceptAll := by
    rw [UInt8.lt_iff_toNat_lt]
    exact Nat.lt_of_lt_of_le hlt (by decide)
  have hfresh := findOwner_none hnone
  rw [addFilter, hindex]
  dsimp only
  cases hroom : freeElement fd f.ext with
  | none =>
    rw [placeFilter_full hroom]
    exact Or.inl ⟨.enomem, rfl, by decide⟩
  | some elem =>
    obtain ⟨hok, hprogrammed⟩ := placeFilter_room h hvalid hsmall hfresh hroom
    right
    cases hplaced : placeFilter fd index f with
    | mk fd' status =>
      rw [hplaced] at hok hprogrammed
      dsimp only at hok
      subst hok
      exact ⟨fd', index, rfl, hprogrammed, hfirst, hfresh⟩

theorem removeFilter_spec {fd : Fdcan} {a : Installed} {index : UInt8} (h : Programmed fd a) :
    (removeFilter fd index = (fd, .enoent)) ∨
      ((removeFilter fd index).2 = .ok ∧ Programmed (removeFilter fd index).1 (uninstall a index)) := by
  rw [removeFilter]
  by_cases hlarge : ownerAcceptAll ≤ index
  · rw [if_pos hlarge]
    exact Or.inl rfl
  rw [if_neg hlarge]
  cases hfound : findOwner fd index with
  | none => exact Or.inl rfl
  | some found =>
    obtain ⟨e, i⟩ := found
    obtain ⟨hi, howner⟩ := findOwner_some hfound
    right
    refine ⟨rfl, ?_⟩
    have hsmall : fd.owner e i < ownerAcceptAll := by
      rw [howner]
      exact UInt8.not_le.mp hlarge
    have hcleared := programmed_clear h hi hsmall
    rw [howner] at hcleared
    exact hcleared

def choose (a : Installed) : Installed := { a with chosen := true }

theorem programmed_choose {fd : Fdcan} {a : Installed} (h : Programmed fd a) :
    Programmed { fd with policySet := true } (choose a) := by
  refine ⟨h.exclusive, ?_, h.listed, h.accept, rfl, nofun, h.rrfs, h.rrfe⟩
  intro e i hi
  exact entry_kept (h.entries e i hi) rfl (fun _ => rfl) fun _ => rfl

theorem writeElement_policy (fd : Fdcan) (p : Bool) (elem : ℕ) (f : FilterEx) :
    writeElement { fd with policySet := p } elem f =
      { writeElement fd elem f with policySet := p } := by
  unfold writeElement
  by_cases hext : f.ext = false
  · rw [if_pos hext, if_pos hext]
    rfl
  · rw [if_neg hext, if_neg hext]
    rfl

theorem acceptUnmatched_policy (fd : Fdcan) (p ext on : Bool) :
    acceptUnmatched { fd with policySet := p } ext on =
      ({ (acceptUnmatched fd ext on).1 with policySet := p }, (acceptUnmatched fd ext on).2) := by
  unfold acceptUnmatched
  dsimp only
  by_cases hoff : on = false
  · rw [if_pos hoff, if_pos hoff]
    by_cases hall : fd.owner ext (last ext) = ownerAcceptAll
    · rw [if_pos hall, if_pos hall]
      rfl
    · rw [if_neg hall, if_neg hall]
  rw [if_neg hoff, if_neg hoff]
  by_cases hall : fd.owner ext (last ext) = ownerAcceptAll
  · rw [if_pos hall, if_pos hall]
  rw [if_neg hall, if_neg hall]
  by_cases hfree : fd.owner ext (last ext) ≠ ownerFree
  · rw [if_pos hfree, if_pos hfree]
  · rw [if_neg hfree, if_neg hfree]
    exact congrArg (fun fd => (fd, Status.ok))
      (writeElement_policy (setOwner fd ext (last ext) ownerAcceptAll) p (last ext) (acceptAll ext))

theorem acceptUnmatched_both (fd : Fdcan) (p std ext : Bool) :
    acceptUnmatched (acceptUnmatched { fd with policySet := p } false std).1 true ext =
      ({ (acceptUnmatched (acceptUnmatched fd false std).1 true ext).1 with policySet := p },
        (acceptUnmatched (acceptUnmatched fd false std).1 true ext).2) := by
  have hstd := congrArg Prod.fst (acceptUnmatched_policy fd p false std)
  rw [hstd]
  exact acceptUnmatched_policy (acceptUnmatched fd false std).1 p true ext

theorem acceptUnmatched_off (fd : Fdcan) (ext : Bool) : (acceptUnmatched fd ext false).2 = .ok := by
  rw [acceptUnmatched, if_pos rfl]
  split <;> rfl

/-- An owner after a list stopped to accept everything. -/
theorem acceptUnmatched_owner (fd : Fdcan) (ext e : Bool) (i : ℕ) :
    (acceptUnmatched fd ext false).1.owner e i =
      if e = ext ∧ i = last ext ∧ fd.owner e i = ownerAcceptAll then ownerFree else fd.owner e i := by
  rw [acceptUnmatched, if_pos rfl]
  by_cases hall : fd.owner ext (last ext) = ownerAcceptAll
  · rw [if_pos hall, (edit_clear fd (last_lt ext)).owner]
    by_cases hsame : e = ext ∧ i = last ext
    · obtain ⟨rfl, rfl⟩ := hsame
      rw [if_pos ⟨rfl, rfl⟩, if_pos ⟨rfl, rfl, hall⟩]
    · rw [if_neg hsame, if_neg (fun h => hsame ⟨h.1, h.2.1⟩)]
  · rw [if_neg hall, if_neg]
    rintro ⟨rfl, rfl, h⟩
    exact hall h

def switched (fd : Fdcan) : Fdcan :=
  if fd.policySet = false then
    { (acceptUnmatched (acceptUnmatched fd false false).1 true false).1 with policySet := true }
  else fd

def switchedPolicy (a : Installed) : Installed :=
  { a with acceptStd := a.chosen && a.acceptStd, acceptExt := a.chosen && a.acceptExt, chosen := true }

theorem switched_programmed {fd : Fdcan} {a : Installed} (h : Programmed fd a) :
    Programmed (switched fd) (switchedPolicy a) := by
  rw [switched]
  by_cases hpolicy : fd.policySet = false
  · have hchosen : a.chosen = false := h.chosen.symm.trans hpolicy
    have hstd := acceptUnmatched_programmed (programmed_choose h) rfl false false
      (acceptUnmatched_off _ false)
    have hext := acceptUnmatched_programmed hstd rfl true false (acceptUnmatched_off _ true)
    rw [acceptUnmatched_both] at hext
    have hpolicies : setAccept (setAccept (choose a) false false) true false = switchedPolicy a := by
      simp [setAccept, choose, switchedPolicy, hchosen]
    rw [if_pos hpolicy, ← hpolicies]
    exact hext
  · have hchosen : a.chosen = true := by
      rw [← h.chosen]
      simpa using hpolicy
    have hsame : switchedPolicy a = a := by
      rw [switchedPolicy, hchosen]
      cases a
      simp_all
    rw [if_neg hpolicy, hsame]
    exact h

theorem switched_owner (fd : Fdcan) (e : Bool) (i : ℕ) :
    (switched fd).owner e i =
      if fd.policySet = false ∧ i = last e ∧ fd.owner e i = ownerAcceptAll then ownerFree
      else fd.owner e i := by
  rw [switched]
  by_cases hpolicy : fd.policySet = false
  · rw [if_pos hpolicy]
    dsimp only
    rw [acceptUnmatched_owner, acceptUnmatched_owner]
    cases e <;> simp [hpolicy]
  · rw [if_neg hpolicy, if_neg (fun h => hpolicy h.1)]

theorem switched_small {fd : Fdcan} {e : Bool} {i : ℕ} {index : UInt8} (hindex : index < ownerAcceptAll) :
    (switched fd).owner e i = index ↔ fd.owner e i = index := by
  rw [switched_owner]
  split
  · rename_i hall
    rw [hall.2.2]
    exact ⟨fun h => absurd h.symm (small_ne_free hindex), fun h => absurd h.symm (small_ne_all hindex)⟩
  · exact Iff.rfl

theorem switched_free {fd : Fdcan} {e : Bool} {i : ℕ} (h : fd.owner e i = ownerFree) :
    (switched fd).owner e i = ownerFree := by
  rw [switched_owner]
  split
  · rfl
  · exact h

theorem setOwner_same (fd : Fdcan) (e : Bool) (i : ℕ) : setOwner fd e i (fd.owner e i) = fd := by
  rw [setOwner, Function.update_eq_self, Function.update_eq_self]

theorem installed_again (a : Installed) (index : UInt8) (f : FilterEx) :
    install (uninstall a index) index f = install a index f := by
  rw [install, uninstall, Function.update_idem]
  rfl

theorem setFilter_spec {fd : Fdcan} {a : Installed} {index : UInt8} {filter : Filter}
    (h : Programmed fd a) (hvalid : filterExValid (classicAsEx filter) = true)
    (hindex : index < ownerAcceptAll) :
    setFilter fd index filter = (fd, .enomem) ∨
      ((setFilter fd index filter).2 = .ok ∧ Programmed (setFilter fd index filter).1
        (install (switchedPolicy a) index (classicAsEx filter))) := by
  rw [setFilter]
  dsimp only
  generalize hex : classicAsEx filter = ex at hvalid ⊢
  by_cases hroom : ((findOwner fd index).any fun o => o.1 = ex.ext) = false ∧
      freeElement fd ex.ext = none ∧
      ¬(fd.policySet = false ∧ fd.owner ex.ext (last ex.ext) = ownerAcceptAll)
  · rw [if_pos hroom]
    exact Or.inl rfl
  rw [if_neg hroom, ← switched]
  right
  have hswitched := switched_programmed h
  -- A free element of the list after the switch, unless the filter stays in its element.
  have hfree : ((findOwner fd index).any fun o => o.1 = ex.ext) = false →
      ∃ i, i < listSize ex.ext ∧ (switched fd).owner ex.ext i = ownerFree := by
    intro hnot
    cases helement : freeElement fd ex.ext with
    | some elem =>
      obtain ⟨hlt, howner⟩ := freeElement_some helement
      exact ⟨elem, hlt, switched_free howner⟩
    | none =>
      refine ⟨last ex.ext, last_lt _, ?_⟩
      have hlast : fd.policySet = false ∧ fd.owner ex.ext (last ex.ext) = ownerAcceptAll := by
        by_contra hno
        exact hroom ⟨hnot, helement, hno⟩
      rw [switched_owner, if_pos ⟨hlast.1, rfl, hlast.2⟩]
  cases hfound : findOwner fd index with
  | none =>
    rw [hfound] at hfree
    obtain ⟨i, hi, howner⟩ := hfree rfl
    obtain ⟨elem, helem⟩ := freeElement_isSome hi howner
    refine placeFilter_room hswitched hvalid hindex ?_ helem
    intro e j hj hsame
    exact findOwner_none hfound e j hj ((switched_small hindex).mp hsame)
  | some found =>
    obtain ⟨oldExt, old⟩ := found
    obtain ⟨hold, howner⟩ := findOwner_some hfound
    have howner' : (switched fd).owner oldExt old = index := (switched_small hindex).mpr howner
    dsimp only
    have halone : ∀ e j, j < listSize e → ¬(e = oldExt ∧ j = old) → (switched fd).owner e j ≠ index := by
      intro e j hj hne hsame
      exact hne (hswitched.exclusive e oldExt j old hj hold (hsame.trans howner'.symm)
        (by rw [hsame]; exact hindex))
    by_cases hext : oldExt = ex.ext
    · rw [if_pos hext]
      subst hext
      have hwritten := programmed_write hswitched hvalid hold hindex (Or.inr howner') halone
      rw [← howner', setOwner_same, howner'] at hwritten
      exact ⟨rfl, hwritten⟩
    · rw [if_neg hext]
      rw [hfound] at hfree
      obtain ⟨i, hi, hifree⟩ := hfree (by simp [hext])
      have hcleared := programmed_clear hswitched hold (by rw [howner']; exact hindex)
      have hedit := edit_clear (switched fd) hold
      rw [howner'] at hcleared
      have hroom' : (clearElement (switched fd) oldExt old).owner ex.ext i = ownerFree := by
        rw [hedit.owner, if_neg (fun hboth => hext hboth.1.symm)]
        exact hifree
      obtain ⟨elem, helem⟩ := freeElement_isSome hi hroom'
      rw [← installed_again]
      refine placeFilter_room hcleared hvalid hindex ?_ helem
      intro e j hj hsame
      rw [hedit.owner] at hsame
      by_cases hne : e = oldExt ∧ j = old
      · rw [if_pos hne] at hsame
        exact small_ne_free hindex hsame.symm
      · rw [if_neg hne] at hsame
        exact halone e j hj hne hsame

/-- The last position can be given to unmatched frames. -/
theorem acceptUnmatched_ok {fd : Fdcan} {ext on : Bool}
    (h : on = true → fd.owner ext (last ext) = ownerFree ∨ fd.owner ext (last ext) = ownerAcceptAll) :
    (acceptUnmatched fd ext on).2 = .ok := by
  cases on with
  | false => exact acceptUnmatched_off fd ext
  | true =>
    rw [acceptUnmatched, if_neg (by decide)]
    by_cases hall : fd.owner ext (last ext) = ownerAcceptAll
    · rw [if_pos hall]
    · rw [if_neg hall, if_neg]
      intro hno
      rcases h rfl with hfree | hsame
      · exact hno hfree
      · exact hall hsame

theorem acceptUnmatched_list (fd : Fdcan) {e ext : Bool} (on : Bool) (h : e ≠ ext) (i : ℕ) :
    (acceptUnmatched fd ext on).1.owner e i = fd.owner e i := by
  rw [acceptUnmatched]
  by_cases hoff : on = false
  · rw [if_pos hoff]
    split
    · rw [(edit_clear fd (last_lt ext)).owner, if_neg (fun hboth => h hboth.1)]
    · rfl
  rw [if_neg hoff]
  split
  · rfl
  split
  · rfl
  · have helem : last ext < listSize (acceptAll ext).ext := by
      rw [acceptAll_ext]
      exact last_lt ext
    have hedit := edit_write fd helem ownerAcceptAll
    rw [acceptAll_ext] at hedit
    rw [hedit.owner, if_neg (fun hboth => h hboth.1)]

theorem programmed_remote {fd : Fdcan} {a : Installed} (h : Programmed fd a) (on : Bool) :
    Programmed { fd with rrfs := !on, rrfe := !on } { a with acceptRtr := on } := by
  refine ⟨h.exclusive, ?_, h.listed, h.accept, h.chosen, h.unchosen, rfl, rfl⟩
  intro e i hi
  exact entry_kept (h.entries e i hi) rfl (fun _ => rfl) fun _ => rfl

theorem setUnmatchedPolicy_spec {fd : Fdcan} {a : Installed} (h : Programmed fd a)
    (acceptStd acceptExt acceptRtr : Bool) :
    (∃ status, setUnmatchedPolicy fd acceptStd acceptExt acceptRtr = (fd, status) ∧ status ≠ .ok) ∨
      ((setUnmatchedPolicy fd acceptStd acceptExt acceptRtr).2 = .ok ∧
        Programmed (setUnmatchedPolicy fd acceptStd acceptExt acceptRtr).1
          { a with acceptStd := acceptStd, acceptExt := acceptExt, acceptRtr := acceptRtr
                   chosen := true }) := by
  rw [setUnmatchedPolicy]
  dsimp only
  split
  · exact Or.inl ⟨.ebusy, rfl, by decide⟩
  split
  · exact Or.inl ⟨.enomem, rfl, by decide⟩
  · rename_i _ htaken
    right
    refine ⟨rfl, ?_⟩
    have hroom : ∀ ext on, (ext = false ∧ on = acceptStd ∨ ext = true ∧ on = acceptExt) → on = true →
        fd.owner ext (last ext) = ownerFree ∨ fd.owner ext (last ext) = ownerAcceptAll := by
      intro ext on hlist hon
      by_contra hno
      obtain ⟨hfree, hall⟩ := not_or.mp hno
      rcases hlist with ⟨rfl, rfl⟩ | ⟨rfl, rfl⟩
      · exact htaken (Or.inl ⟨hon, hfree, hall⟩)
      · exact htaken (Or.inr ⟨hon, hfree, hall⟩)
    have hchosen := programmed_choose h
    have hstd := acceptUnmatched_programmed hchosen rfl false acceptStd
      (acceptUnmatched_ok (hroom false acceptStd (Or.inl ⟨rfl, rfl⟩)))
    have hext := acceptUnmatched_programmed hstd (setAccept_chosen _ _ _) true acceptExt
      (acceptUnmatched_ok (by
        rw [acceptUnmatched_list _ _ (by decide)]
        exact hroom true acceptExt (Or.inr ⟨rfl, rfl⟩)))
    rw [acceptUnmatched_both] at hext
    have hpolicy : setAccept (setAccept (choose a) false acceptStd) true acceptExt =
        { a with acceptStd := acceptStd, acceptExt := acceptExt, chosen := true } := rfl
    rw [hpolicy] at hext
    split
    · exact programmed_remote hext acceptRtr
    · rename_i hsame
      have hrtr : a.acceptRtr = acceptRtr := by
        rw [h.rrfs, h.rrfe] at hsame
        simpa using hsame
      rw [← hrtr]
      exact hext

/-- A message RAM of zeros, with a policy that rejects. -/
theorem programmed_blank (stopped : Bool) :
    Programmed ⟨fun _ _ => ownerFree, fun _ => 0, true, stopped, false, false⟩
      ⟨fun _ => none, false, false, true, true⟩ where
  exclusive := by
    intro e e' i j _ _ _ hsmall
    exact absurd rfl (small_ne_free hsmall)
  entries := fun _ _ _ => .free rfl (disabled_zero rfl)
  listed := nofun
  accept := by
    intro e
    have hdifferent : ownerFree ≠ ownerAcceptAll := by decide
    cases e
    · exact ⟨nofun, fun h => absurd h hdifferent⟩
    · exact ⟨nofun, fun h => absurd h hdifferent⟩
  chosen := rfl
  unchosen := nofun
  rrfs := rfl
  rrfe := rfl

theorem programmed_unchosen {fd : Fdcan} {a : Installed} (h : Programmed fd a)
    (hall : ∀ e, a.accept e = true) :
    Programmed { fd with policySet := false } { a with chosen := false } := by
  refine ⟨h.exclusive, ?_, h.listed, h.accept, rfl, fun _ e => (h.accept e).mp (hall e), h.rrfs, h.rrfe⟩
  intro e i hi
  exact entry_kept (h.entries e i hi) rfl (fun _ => rfl) fun _ => rfl

theorem programmed_start (stopped : Bool) :
    Programmed (start stopped).fd (start stopped).installed := by
  have hstd := acceptUnmatched_programmed (programmed_blank stopped) rfl false true
    (acceptUnmatched_ok fun _ => Or.inl rfl)
  have hext := acceptUnmatched_programmed hstd rfl true true
    (acceptUnmatched_ok fun _ => Or.inl (acceptUnmatched_list _ _ (by decide) _))
  have hboth := programmed_unchosen hext fun e => by cases e <;> rfl
  have hfd := acceptUnmatched_both ⟨fun _ _ => ownerFree, fun _ => 0, true, stopped, false, false⟩ false
    true true
  rw [start, resetFilters]
  dsimp only
  rw [hfd]
  exact hboth

theorem order_eq (fd : Fdcan) (e : Bool) {β : Type} (g : UInt8 → Option β) :
    (order fd e).findSome? g = (List.range (listSize e)).findSome? fun i =>
      if fd.owner e i < ownerAcceptAll then g (fd.owner e i) else none := by
  rw [order, ← List.head?_filterMap, List.filterMap_filterMap, List.head?_filterMap]
  congr 1
  funext i
  split <;> rfl

theorem findSome_congr {α β : Type} {l : List α} {f g : α → Option β} (h : ∀ x ∈ l, f x = g x) :
    l.findSome? f = l.findSome? g := by
  rw [← List.head?_filterMap, ← List.head?_filterMap, List.filterMap_congr h]

theorem filterOf_small {fd : Fdcan} {e : Bool} {i : ℕ} (hi : i < listSize e)
    (h : fd.owner e i < ownerAcceptAll) : filterOf fd e i = fd.owner e i := by
  rw [filterOf, if_neg (by omega), if_pos h]

/-- An element that does not accept everything decides like its filter. -/
theorem entry_decides {fd : Fdcan} {a : Installed} {frame : Frame} {i : ℕ}
    (hi : i < listSize frame.ext) (h : Entry fd a.filters frame.ext i)
    (hall : fd.owner frame.ext i ≠ ownerAcceptAll) :
    ((elementOutcome fd frame.ext i frame.id.toNat).map fun store =>
        if store then some (filterOf fd frame.ext i) else none) =
      if fd.owner frame.ext i < ownerAcceptAll then
        (a.filters (fd.owner frame.ext i)).bind fun f =>
          if filterExMatches frame f then
            some (if f.action = filterReject then none else some (fd.owner frame.ext i))
          else none
      else none := by
  cases h with
  | free owner off =>
    rw [off, if_neg]
    · rfl
    · intro hsmall
      exact small_ne_free hsmall owner
  | all owner _ _ => exact absurd owner hall
  | filter f owner installed kind on =>
    rw [on frame rfl, if_pos owner, installed, filterOf_small hi owner, Option.bind_some]
    by_cases hmatches : filterExMatches frame f = true
    · rw [if_pos hmatches, if_pos hmatches, stores]
      by_cases haction : f.action = filterReject <;> simp [haction]
    · rw [if_neg hmatches, if_neg hmatches]
      rfl

theorem acceptAll_matches (frame : Frame) : filterExMatches frame (acceptAll frame.ext) = true := by
  have hmask : (acceptAll frame.ext).type = filterMask := rfl
  rw [filterExMatches, acceptAll_ext, if_neg (by simp), if_pos hmask]
  simp [acceptAll]

theorem listSize_last (e : Bool) : listSize e = last e+1 := by
  cases e <;> rfl

theorem not_all_before {fd : Fdcan} {a : Installed} (h : Programmed fd a) {e : Bool} {i : ℕ}
    (hi : i < last e) : fd.owner e i ≠ ownerAcceptAll := by
  intro hall
  have hlt : i < listSize e := by
    have := last_lt e
    omega
  cases h.entries e i hlt with
  | free owner _ => exact absurd (hall.symm.trans owner) (by decide)
  | all _ position _ => omega
  | filter f owner _ _ _ => exact small_ne_all owner hall

def elementVerdict (fd : Fdcan) (frame : Frame) (i : ℕ) : Option (Option UInt8) :=
  (elementOutcome fd frame.ext i frame.id.toNat).map fun store =>
    if store then some (filterOf fd frame.ext i) else none

def filterVerdict (fd : Fdcan) (a : Installed) (frame : Frame) (i : ℕ) : Option (Option UInt8) :=
  if fd.owner frame.ext i < ownerAcceptAll then
    (a.filters (fd.owner frame.ext i)).bind fun f =>
      if filterExMatches frame f then
        some (if f.action = filterReject then none else some (fd.owner frame.ext i))
      else none
  else none

theorem last_decides {fd : Fdcan} {a : Installed} (h : Programmed fd a) (frame : Frame) :
    (elementVerdict fd frame (last frame.ext)).getD none =
      (filterVerdict fd a frame (last frame.ext)).getD
        (if a.accept frame.ext then some filterNone else none) := by
  have hlast := h.entries frame.ext (last frame.ext) (last_lt _)
  by_cases hall : fd.owner frame.ext (last frame.ext) = ownerAcceptAll
  · have haccept := (h.accept frame.ext).mpr hall
    have hlarge : ¬fd.owner frame.ext (last frame.ext) < ownerAcceptAll := fun hsmall =>
      small_ne_all hsmall hall
    have hnone : filterOf fd frame.ext (last frame.ext) = filterNone := by
      have hlt := last_lt frame.ext
      rw [filterOf, if_neg (by omega), if_neg hlarge]
    cases hlast with
    | free owner _ => exact absurd (hall.symm.trans owner) (by decide)
    | filter f owner _ _ _ => exact absurd owner hlarge
    | all _ _ on =>
      rw [elementVerdict, on frame rfl, acceptAll_matches, if_pos rfl, filterVerdict, if_neg hlarge,
        haccept]
      show (if stores (acceptAll frame.ext) = true then
        some (filterOf fd frame.ext (last frame.ext)) else none) = some filterNone
      have hstores : stores (acceptAll frame.ext) = true := rfl
      rw [hnone, if_pos hstores]
  · have haccept : a.accept frame.ext = false := by simpa using mt (h.accept frame.ext).mp hall
    have hentry : elementVerdict fd frame (last frame.ext) = filterVerdict fd a frame (last frame.ext) :=
      entry_decides (last_lt _) hlast hall
    rw [hentry, haccept]
    rfl

theorem verdict_eq {fd : Fdcan} {a : Installed} (h : Programmed fd a) (frame : Frame) :
    controllerVerdict fd frame = verdict a (order fd frame.ext) frame := by
  have hremote : (if frame.ext then fd.rrfe else fd.rrfs) = true ↔ a.acceptRtr = false := by
    rw [h.rrfe, h.rrfs]
    cases frame.ext <;> simp
  rw [controllerVerdict, verdict, order_eq]
  by_cases hrtr : frame.rtr = true ∧ a.acceptRtr = false
  · rw [if_pos ⟨hrtr.1, hremote.mpr hrtr.2⟩, if_pos hrtr]
  rw [if_neg (fun hboth => hrtr ⟨hboth.1, hremote.mp hboth.2⟩), if_neg hrtr]
  have hcontroller : (List.range (listSize frame.ext)).findSome? (elementVerdict fd frame) =
      ((List.range (last frame.ext)).findSome? (filterVerdict fd a frame)).or
        (elementVerdict fd frame (last frame.ext)) := by
    rw [listSize_last, List.range_succ, List.findSome?_append, List.findSome?_singleton]
    congr 1
    refine findSome_congr fun i hi => ?_
    have hlt := List.mem_range.mp hi
    have hsize := last_lt frame.ext
    exact entry_decides (by omega) (h.entries frame.ext i (by omega)) (not_all_before h hlt)
  have hinstalled : (List.range (listSize frame.ext)).findSome? (filterVerdict fd a frame) =
      ((List.range (last frame.ext)).findSome? (filterVerdict fd a frame)).or
        (filterVerdict fd a frame (last frame.ext)) := by
    rw [listSize_last, List.range_succ, List.findSome?_append, List.findSome?_singleton]
  show ((List.range (listSize frame.ext)).findSome? (elementVerdict fd frame)).getD none =
    ((List.range (listSize frame.ext)).findSome? (filterVerdict fd a frame)).getD
      (if a.accept frame.ext then some filterNone else none)
  rw [hcontroller, hinstalled]
  cases (List.range (last frame.ext)).findSome? (filterVerdict fd a frame) with
  | some found => rfl
  | none =>
    rw [Option.none_or, Option.none_or]
    exact last_decides h frame

theorem call_careful {fd : Fdcan} {a : Installed} (h : Programmed fd a) (c : Call) : Careful fd c := by
  cases c with
  | setFilter index filter =>
    refine ⟨?_, ?_⟩
    · rw [call]
      split
      · exact fun _ => rfl
      · rename_i hvalid
        split
        · rename_i hindex
          have hsmall : index < ownerAcceptAll := UInt8.lt_trans hindex (by decide)
          intro hstatus
          rcases setFilter_spec h (by simpa using hvalid) hsmall with hfull | ⟨hok, _⟩
          · exact congrArg Prod.fst hfull
          · exact absurd hok hstatus
        · exact fun _ => rfl
    · rw [call]
      split
      · exact nofun
      · split <;> exact nofun
  | addFilter filter =>
    by_cases hvalid : filterExValid filter = true
    · rcases addFilter_spec h hvalid with ⟨status, hadd, hstatus⟩ | ⟨fd', index, hadd, _, hfirst, hfresh⟩
      · have hcall : call fd (.addFilter filter) = (fd, ⟨status, none⟩) := by
          rw [call, if_neg (by simp [hvalid]), hadd]
        exact ⟨fun _ => by rw [hcall], fun index hindex => by rw [hcall] at hindex; cases hindex⟩
      · have hcall : call fd (.addFilter filter) = (fd', ⟨.ok, some index⟩) := by
          rw [call, if_neg (by simp [hvalid]), hadd]
        refine ⟨fun hstatus => ?_, fun x hx => ?_⟩
        · rw [hcall] at hstatus
          exact absurd rfl hstatus
        · rw [hcall] at hx
          obtain rfl := Option.some.inj hx
          exact ⟨hfirst, hfresh⟩
    · have hcall : call fd (.addFilter filter) = (fd, ⟨.einval, none⟩) := by
        rw [call, if_pos (by simpa using hvalid)]
      exact ⟨fun _ => by rw [hcall], fun index hindex => by rw [hcall] at hindex; cases hindex⟩
  | removeFilter index =>
    refine ⟨?_, nofun⟩
    intro hstatus
    rcases removeFilter_spec h with hnone | ⟨hok, _⟩
    · exact congrArg Prod.fst hnone
    · exact absurd hok hstatus
  | setUnmatchedPolicy acceptStd acceptExt acceptRtr =>
    refine ⟨?_, nofun⟩
    intro hstatus
    rcases setUnmatchedPolicy_spec h acceptStd acceptExt acceptRtr with ⟨status, hfailed, _⟩ | ⟨hok, _⟩
    · exact congrArg Prod.fst hfailed
    · exact absurd hok hstatus
  | channel stopped => exact ⟨fun hstatus => absurd rfl hstatus, nofun⟩

theorem step_failed {s : Session} {c : Call} (hstatus : (call s.fd c).2.status ≠ .ok)
    (hfd : (call s.fd c).1 = s.fd) : step s c = s := by
  rw [step, hfd, if_neg hstatus]

theorem programmed_channel {fd : Fdcan} {a : Installed} (h : Programmed fd a) (stopped : Bool) :
    Programmed { fd with cccrInit := stopped } a := by
  refine ⟨h.exclusive, ?_, h.listed, h.accept, h.chosen, h.unchosen, h.rrfs, h.rrfe⟩
  intro e i hi
  exact entry_kept (h.entries e i hi) rfl (fun _ => rfl) fun _ => rfl

theorem step_programmed {s : Session} (h : Programmed s.fd s.installed) (c : Call) :
    Programmed (step s c).fd (step s c).installed := by
  by_cases hstatus : (call s.fd c).2.status = .ok
  swap
  · rw [step_failed hstatus ((call_careful h c).failed hstatus)]
    exact h
  have hstep : step s c = ⟨(call s.fd c).1, record s.installed (call s.fd c).2 c⟩ := by
    rw [step, if_pos hstatus]
  rw [hstep]
  cases c with
  | setFilter index filter =>
    rw [call] at hstatus ⊢
    split at hstatus
    · cases hstatus
    rename_i hvalid
    split at hstatus
    · rename_i hindex
      have hsmall : index < ownerAcceptAll := UInt8.lt_trans hindex (by decide)
      rw [if_neg hvalid, if_pos hindex]
      rcases setFilter_spec h (by simpa using hvalid) hsmall with hfull | ⟨_, hprogrammed⟩
      · rw [hfull] at hstatus
        cases hstatus
      · exact hprogrammed
    · cases hstatus
  | addFilter filter =>
    rw [call] at hstatus ⊢
    split at hstatus
    · cases hstatus
    rename_i hvalid
    rw [if_neg hvalid]
    rcases addFilter_spec h (by simpa using hvalid) with
      ⟨status, hadd, hno⟩ | ⟨fd', index, hadd, hprogrammed, _⟩
    · rw [hadd] at hstatus
      exact absurd hstatus hno
    · rw [hadd]
      exact hprogrammed
  | removeFilter index =>
    rcases removeFilter_spec h with hnone | ⟨_, hprogrammed⟩
    · rw [call, hnone] at hstatus
      cases hstatus
    · exact hprogrammed
  | setUnmatchedPolicy acceptStd acceptExt acceptRtr =>
    rcases setUnmatchedPolicy_spec h acceptStd acceptExt acceptRtr with
      ⟨status, hfailed, hno⟩ | ⟨_, hprogrammed⟩
    · rw [call, hfailed] at hstatus
      exact absurd hstatus hno
    · exact hprogrammed
  | channel stopped => exact programmed_channel h stopped

theorem run_programmed {s : Session} (h : Programmed s.fd s.installed) (calls : List Call) :
    Programmed (run s calls).fd (run s calls).installed := by
  induction calls generalizing s with
  | nil => exact h
  | cons c calls ih => exact ih (step_programmed h c)

theorem mem_order {fd : Fdcan} {e : Bool} {index : UInt8} :
    index ∈ order fd e ↔ index < ownerAcceptAll ∧ ∃ i, i < listSize e ∧ fd.owner e i = index := by
  rw [order, List.mem_filterMap]
  constructor
  · rintro ⟨i, hi, howner⟩
    split at howner
    · rename_i hsmall
      obtain rfl := Option.some.inj howner
      exact ⟨hsmall, i, List.mem_range.mp hi, rfl⟩
    · cases howner
  · rintro ⟨hsmall, i, hi, rfl⟩
    exact ⟨i, List.mem_range.mpr hi, if_pos hsmall⟩

theorem faithful_of_programmed {s : Session} (h : Programmed s.fd s.installed) : Faithful s where
  exclusive := h.exclusive
  allLast := by
    intro e i hi hall
    cases h.entries e i hi with
    | free owner _ => exact absurd (hall.symm.trans owner) (by decide)
    | all _ position _ => exact position
    | filter f owner _ _ _ => exact absurd hall (small_ne_all owner)
  complete := fun index f hf => mem_order.mpr (h.listed index f hf)
  verdicts := verdict_eq h

/-- After every sequence of calls the controller treats every frame as the
installed filters and the policy say, and the next call is careful. -/
theorem filters_refined (stopped : Bool) (calls : List Call) :
    Faithful (run (start stopped) calls) ∧ ∀ c, Careful (run (start stopped) calls).fd c := by
  have h := run_programmed (programmed_start stopped) calls
  exact ⟨faithful_of_programmed h, call_careful h⟩

end JaszczurHal.FdcanAcceptance
