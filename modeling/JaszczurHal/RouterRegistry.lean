import JaszczurHal.CommandRouter

/-!
# The commands of one context as a finite map

What each call does under the mutex, read as an update of a map from names to
registrations, and what it leaves alone.
-/

set_option autoImplicit false

namespace JaszczurHal.RouterRegistry
open JaszczurHal.HalStatus JaszczurHal.CommandTypes JaszczurHal.CommandRouter

variable {c : Config} {commands commands' : Commands c}

def Distinct (commands : Commands c) : Prop :=
  ∀ j j' r r', (commands j).registration = some r → (commands j').registration = some r' →
    r.name = r'.name → j = j'

structure Wf (commands : Commands c) : Prop where
  distinct : Distinct commands
  unused_idle : ∀ j, (commands j).registration = none → (commands j).activeDispatches = 0

def registry (commands : Commands c) (name : List UInt8) : Option Registration :=
  (findCommand commands name).bind fun j => (commands j).registration

def busy (commands : Commands c) (name : List UInt8) : Prop :=
  ∃ j, findCommand commands name = some j ∧ (commands j).activeDispatches ≠ 0

def full (commands : Commands c) : Prop := ∀ j, (commands j).registration ≠ none

theorem findCommand_some {name : List UInt8} {j : Fin c.maxCommands}
    (h : findCommand commands name = some j) :
    ∃ r, (commands j).registration = some r ∧ r.name = name := by
  have hfound := List.find?_some h
  rw [Option.any_eq_true] at hfound
  obtain ⟨r, hr, hname⟩ := hfound
  exact ⟨r, hr, of_decide_eq_true hname⟩

theorem findCommand_none {name : List UInt8} (h : findCommand commands name = none)
    {j : Fin c.maxCommands} {r : Registration} (hr : (commands j).registration = some r) :
    r.name ≠ name := by
  have hno := List.find?_eq_none.mp h j (List.mem_finRange j)
  rw [hr] at hno
  simpa using hno

theorem findCommand_eq (hdistinct : Distinct commands) {j : Fin c.maxCommands}
    {r : Registration} (hr : (commands j).registration = some r) :
    findCommand commands r.name = some j := by
  cases hfind : findCommand commands r.name with
  | none => exact absurd rfl (findCommand_none hfind hr)
  | some j' =>
    obtain ⟨r', hr', hname⟩ := findCommand_some hfind
    rw [hdistinct j j' r r' hr hr' hname.symm]

theorem registry_iff (hdistinct : Distinct commands) {name : List UInt8} {r : Registration} :
    registry commands name = some r ↔
      ∃ j, (commands j).registration = some r ∧ r.name = name := by
  rw [registry]
  constructor
  · intro h
    obtain ⟨j, hfind, hr⟩ := Option.bind_eq_some_iff.mp h
    obtain ⟨r', hr', hname⟩ := findCommand_some hfind
    obtain rfl := Option.some.inj (hr'.symm.trans hr)
    exact ⟨j, hr, hname⟩
  · rintro ⟨j, hr, rfl⟩
    rw [findCommand_eq hdistinct hr]
    exact hr

theorem findUnused_some {j : Fin c.maxCommands} (h : findUnused commands = some j) :
    (commands j).registration = none := by
  simpa using List.find?_some h

theorem findUnused_none (h : findUnused commands = none) : full commands := by
  intro j hnone
  have hno := List.find?_eq_none.mp h j (List.mem_finRange j)
  rw [hnone] at hno
  simp at hno

theorem anyActive_iff : anyActive commands = false ↔
    ∀ j, (commands j).activeDispatches = 0 := by
  simp [anyActive]

/-- What a call other than a dispatch can do to the slots of a context: it
touches only slots through which nothing is running. -/
inductive CommandsChange (commands : Commands c) : Commands c → Prop
  | same : CommandsChange commands commands
  | put (j : Fin c.maxCommands) (r : Registration)
      (idle : (commands j).activeDispatches = 0)
      (fresh : ∀ j' r', (commands j').registration = some r' → r'.name = r.name → j' = j) :
      CommandsChange commands (putCommand commands j r)
  | remove (j : Fin c.maxCommands) (idle : (commands j).activeDispatches = 0) :
      CommandsChange commands (removeCommand commands j)
  | clear (idle : ∀ j, (commands j).activeDispatches = 0) :
      CommandsChange commands fun _ => .zero

theorem CommandsChange.active (h : CommandsChange commands commands')
    (j : Fin c.maxCommands) :
    (commands' j).activeDispatches = (commands j).activeDispatches := by
  cases h with
  | same => rfl
  | put i r idle fresh =>
    by_cases hj : j = i
    · subst hj
      simp [putCommand, idle]
    · simp [putCommand, hj]
  | remove i idle =>
    by_cases hj : j = i
    · subst hj
      simp [removeCommand, CommandSlot.zero, idle]
    · simp [removeCommand, hj]
  | clear idle => exact (idle j).symm

theorem CommandsChange.untouched (h : CommandsChange commands commands')
    {j : Fin c.maxCommands} (hactive : (commands j).activeDispatches ≠ 0) :
    commands' j = commands j := by
  cases h with
  | same => rfl
  | put i r idle fresh =>
    have hj : j ≠ i := by
      rintro rfl
      exact hactive idle
    simp [putCommand, hj]
  | remove i idle =>
    have hj : j ≠ i := by
      rintro rfl
      exact hactive idle
    simp [removeCommand, hj]
  | clear idle => exact absurd (idle j) hactive

theorem CommandsChange.distinct (h : CommandsChange commands commands')
    (hdistinct : Distinct commands) : Distinct commands' := by
  cases h with
  | same => exact hdistinct
  | put i r idle fresh =>
    intro j j' rj rj' hj hj' hname
    by_cases hji : j = i
    · by_cases hji' : j' = i
      · rw [hji, hji']
      · subst hji
        simp only [putCommand, Function.update_self, Option.some.injEq] at hj
        subst hj
        rw [putCommand, Function.update_of_ne hji'] at hj'
        exact (fresh j' rj' hj' hname.symm).symm
    · rw [putCommand, Function.update_of_ne hji] at hj
      by_cases hji' : j' = i
      · subst hji'
        simp only [putCommand, Function.update_self, Option.some.injEq] at hj'
        subst hj'
        exact fresh j rj hj hname
      · rw [putCommand, Function.update_of_ne hji'] at hj'
        exact hdistinct j j' rj rj' hj hj' hname
  | remove i idle =>
    intro j j' rj rj' hj hj' hname
    by_cases hji : j = i
    · subst hji
      simp [removeCommand, CommandSlot.zero] at hj
    · by_cases hji' : j' = i
      · subst hji'
        simp [removeCommand, CommandSlot.zero] at hj'
      · rw [removeCommand, Function.update_of_ne hji] at hj
        rw [removeCommand, Function.update_of_ne hji'] at hj'
        exact hdistinct j j' rj rj' hj hj' hname
  | clear idle =>
    intro j j' rj rj' hj
    cases hj

theorem CommandsChange.wf (h : CommandsChange commands commands') (hwf : Wf commands) :
    Wf commands' where
  distinct := h.distinct hwf.distinct
  unused_idle j hnone := by
    rw [h.active j]
    by_contra hactive
    rw [h.untouched hactive] at hnone
    exact hactive (hwf.unused_idle j hnone)

theorem registry_put (hdistinct : Distinct commands) {j : Fin c.maxCommands} {r : Registration}
    (idle : (commands j).activeDispatches = 0)
    (fresh : ∀ j' r', (commands j').registration = some r' → r'.name = r.name → j' = j)
    (hslot : ∀ r', (commands j).registration = some r' → r'.name = r.name) :
    registry (putCommand commands j r) = Function.update (registry commands) r.name (some r) := by
  have hdistinct' := (CommandsChange.put j r idle fresh).distinct hdistinct
  funext name
  apply Option.ext
  intro r'
  rw [registry_iff hdistinct']
  by_cases hname : name = r.name
  · subst hname
    rw [Function.update_self]
    constructor
    · rintro ⟨j', hr', hname⟩
      by_cases hj : j' = j
      · subst hj
        simpa [putCommand] using hr'
      · rw [putCommand, Function.update_of_ne hj] at hr'
        exact absurd (fresh j' r' hr' hname) hj
    · intro h
      obtain rfl := Option.some.inj h
      exact ⟨j, by simp [putCommand], rfl⟩
  · rw [Function.update_of_ne hname, registry_iff hdistinct]
    apply exists_congr
    intro j'
    by_cases hj : j' = j
    · subst hj
      simp only [putCommand, Function.update_self, Option.some.injEq]
      constructor
      · rintro ⟨rfl, rfl⟩
        exact absurd rfl hname
      · rintro ⟨hr', rfl⟩
        exact absurd (hslot r' hr') hname
    · rw [putCommand, Function.update_of_ne hj]

theorem registry_remove (hdistinct : Distinct commands) {j : Fin c.maxCommands}
    {r : Registration} (idle : (commands j).activeDispatches = 0)
    (hr : (commands j).registration = some r) :
    registry (removeCommand commands j) = Function.update (registry commands) r.name none := by
  have hdistinct' := (CommandsChange.remove j idle).distinct hdistinct
  funext name
  apply Option.ext
  intro r'
  rw [registry_iff hdistinct']
  by_cases hname : name = r.name
  · subst hname
    rw [Function.update_self]
    constructor
    · rintro ⟨j', hr', hname⟩
      by_cases hj : j' = j
      · subst hj
        simp [removeCommand, CommandSlot.zero] at hr'
      · rw [removeCommand, Function.update_of_ne hj] at hr'
        exact absurd (hdistinct j' j r' r hr' hr hname) hj
    · intro h
      cases h
  · rw [Function.update_of_ne hname, registry_iff hdistinct]
    apply exists_congr
    intro j'
    by_cases hj : j' = j
    · subst hj
      simp only [removeCommand, Function.update_self, CommandSlot.zero, hr]
      constructor
      · rintro ⟨h, _⟩
        cases h
      · rintro ⟨h, rfl⟩
        obtain rfl := Option.some.inj h
        exact absurd rfl hname
    · rw [removeCommand, Function.update_of_ne hj]

theorem registry_clear : registry (fun _ => .zero : Commands c) = fun _ => none := by
  funext name
  cases hfind : findCommand (fun _ => .zero : Commands c) name with
  | none => rw [registry, hfind]; rfl
  | some j => rw [registry, hfind]; rfl

def RegistryCall (commands commands' : Commands c) (status : Status) : Call → Prop
  | .register r replaceExisting =>
    (status = .eexist ∧ replaceExisting = false ∧ (registry commands r.name).isSome = true ∧
        registry commands' = registry commands) ∨
      (status = .ebusy ∧ replaceExisting = true ∧ busy commands r.name ∧
        registry commands' = registry commands) ∨
      (status = .enomem ∧ registry commands r.name = none ∧ full commands ∧
        registry commands' = registry commands) ∨
      (status = .ok ∧ (registry commands r.name = none ∨
          (replaceExisting = true ∧ ¬ busy commands r.name)) ∧
        registry commands' = Function.update (registry commands) r.name (some r))
  | .unregister name =>
    (status = .enoent ∧ registry commands name = none ∧
        registry commands' = registry commands) ∨
      (status = .ebusy ∧ busy commands name ∧ registry commands' = registry commands) ∨
      (status = .ok ∧ (registry commands name).isSome = true ∧ ¬ busy commands name ∧
        registry commands' = Function.update (registry commands) name none)
  | .unregisterIfMatches name handler user =>
    (status = .enoent ∧ registry commands name = none ∧
        registry commands' = registry commands) ∨
      (status = .ebusy ∧ registry commands' = registry commands) ∨
      (status = .ok ∧ ¬ busy commands name ∧
        (∃ r, registry commands name = some r ∧ r.invoke = .publicHandler ∧
          r.callback = handler ∧ r.user = user) ∧
        registry commands' = Function.update (registry commands) name none)
  | .clear =>
    (status = .ebusy ∧ (∃ j, (commands j).activeDispatches ≠ 0) ∧
        registry commands' = registry commands) ∨
      (status = .ok ∧ (∀ j, (commands j).activeDispatches = 0) ∧
        registry commands' = fun _ => none)
  | _ => registry commands' = registry commands

theorem registry_isNone {name : List UInt8} (h : findCommand commands name = none) :
    registry commands name = none := by
  rw [registry, h]
  rfl

theorem not_busy {name : List UInt8} {j : Fin c.maxCommands}
    (hfind : findCommand commands name = some j)
    (hidle : ¬ (commands j).activeDispatches ≠ 0) : ¬ busy commands name := by
  rintro ⟨j', hfind', hactive⟩
  obtain rfl := Option.some.inj (hfind.symm.trans hfind')
  exact hidle hactive

theorem registerCommand_spec (hwf : Wf commands) (r : Registration)
    (replaceExisting : Bool) :
    CommandsChange commands (registerCommand commands r replaceExisting).2 ∧
      RegistryCall commands (registerCommand commands r replaceExisting).2
        (registerCommand commands r replaceExisting).1 (.register r replaceExisting) := by
  have hdistinct := hwf.distinct
  rw [registerCommand]
  cases hfind : findCommand commands r.name with
  | none =>
    have hnone := registry_isNone hfind
    have hfresh : ∀ (i j' : Fin c.maxCommands) (r' : Registration),
        (commands j').registration = some r' → r'.name = r.name → j' = i :=
      fun i j' r' hr' hname => absurd hname (findCommand_none hfind hr')
    cases hunused : findUnused commands with
    | none => exact ⟨.same, Or.inr (Or.inr (Or.inl ⟨rfl, hnone, findUnused_none hunused, rfl⟩))⟩
    | some j =>
      have hempty := findUnused_some hunused
      have hidle := hwf.unused_idle j hempty
      refine ⟨.put j r hidle (hfresh j), Or.inr (Or.inr (Or.inr ⟨rfl, Or.inl hnone, ?_⟩))⟩
      refine registry_put hdistinct hidle (hfresh j) fun r' hr' => ?_
      rw [hempty] at hr'
      cases hr'
  | some j =>
    obtain ⟨r', hr', hname⟩ := findCommand_some hfind
    have hsome : (registry commands r.name).isSome = true := by
      rw [registry, hfind, Option.bind_some, hr']
      rfl
    have hfresh : ∀ (j' : Fin c.maxCommands) (r'' : Registration),
        (commands j').registration = some r'' → r''.name = r.name → j' = j :=
      fun j' r'' hr'' hname' => hdistinct j' j r'' r' hr'' hr' (hname'.trans hname.symm)
    cases replaceExisting with
    | false => exact ⟨.same, Or.inl ⟨rfl, rfl, hsome, rfl⟩⟩
    | true =>
      by_cases hactive : (commands j).activeDispatches ≠ 0
      · simp only [Bool.not_true, Bool.false_eq_true, if_false, if_pos hactive]
        exact ⟨.same, Or.inr (Or.inl ⟨rfl, rfl, ⟨j, hfind, hactive⟩, rfl⟩)⟩
      · have hidle := not_not.mp hactive
        simp only [Bool.not_true, Bool.false_eq_true, if_false, if_neg hactive]
        refine ⟨.put j r hidle hfresh, Or.inr (Or.inr (Or.inr ⟨rfl,
          Or.inr ⟨rfl, not_busy hfind hactive⟩, ?_⟩))⟩
        refine registry_put hdistinct hidle hfresh fun r'' hr'' => ?_
        obtain rfl := Option.some.inj (hr'.symm.trans hr'')
        exact hname

theorem unregisterCommand_spec (hwf : Wf commands) (name : List UInt8) :
    CommandsChange commands (unregisterCommand commands name).2 ∧
      RegistryCall commands (unregisterCommand commands name).2
        (unregisterCommand commands name).1 (.unregister name) := by
  rw [unregisterCommand]
  cases hfind : findCommand commands name with
  | none => exact ⟨.same, Or.inl ⟨rfl, registry_isNone hfind, rfl⟩⟩
  | some j =>
    obtain ⟨r, hr, rfl⟩ := findCommand_some hfind
    by_cases hactive : (commands j).activeDispatches ≠ 0
    · simp only [if_pos hactive]
      exact ⟨.same, Or.inr (Or.inl ⟨rfl, ⟨j, hfind, hactive⟩, rfl⟩)⟩
    · have hidle := not_not.mp hactive
      have hsome : (registry commands r.name).isSome = true := by
        rw [registry, hfind, Option.bind_some, hr]
        rfl
      simp only [if_neg hactive]
      exact ⟨.remove j hidle, Or.inr (Or.inr ⟨rfl, hsome, not_busy hfind hactive,
        registry_remove hwf.distinct hidle hr⟩)⟩

theorem unregisterMatching_spec (hwf : Wf commands) (name handler : List UInt8) (user : ℕ) :
    CommandsChange commands (unregisterMatching commands name handler user).2 ∧
      RegistryCall commands (unregisterMatching commands name handler user).2
        (unregisterMatching commands name handler user).1
        (.unregisterIfMatches name handler user) := by
  rw [unregisterMatching]
  cases hfind : findCommand commands name with
  | none => exact ⟨.same, Or.inl ⟨rfl, registry_isNone hfind, rfl⟩⟩
  | some j =>
    obtain ⟨r, hr, rfl⟩ := findCommand_some hfind
    simp only [hr, Option.all_some]
    by_cases hother : (r.invoke ≠ .publicHandler || r.callback.length ≠ handler.length ||
        r.user ≠ user || r.callback ≠ handler) = true
    · rw [if_pos hother]
      exact ⟨.same, Or.inr (Or.inl ⟨rfl, rfl⟩)⟩
    · rw [if_neg hother]
      simp only [Bool.or_eq_true, decide_eq_true_eq, not_or, ne_eq, not_not] at hother
      obtain ⟨⟨⟨hinvoke, _⟩, huser⟩, hcallback⟩ := hother
      by_cases hactive : (commands j).activeDispatches ≠ 0
      · simp only [if_pos hactive]
        exact ⟨.same, Or.inr (Or.inl ⟨rfl, rfl⟩)⟩
      · have hidle := not_not.mp hactive
        have hsome : registry commands r.name = some r := by
          rw [registry, hfind, Option.bind_some, hr]
        simp only [if_neg hactive]
        exact ⟨.remove j hidle, Or.inr (Or.inr ⟨rfl, not_busy hfind hactive,
          ⟨r, hsome, hinvoke, hcallback, huser⟩, registry_remove hwf.distinct hidle hr⟩)⟩

theorem clearCommands_spec (commands : Commands c) :
    CommandsChange commands (clearCommands commands).2 ∧
      RegistryCall commands (clearCommands commands).2 (clearCommands commands).1 .clear := by
  rw [clearCommands]
  by_cases hactive : anyActive commands = true
  · rw [if_pos hactive]
    refine ⟨.same, Or.inl ⟨rfl, ?_, rfl⟩⟩
    by_contra hidle
    have hnone : anyActive commands = false :=
      anyActive_iff.mpr fun j => by_contra fun hj => hidle ⟨j, hj⟩
    rw [hnone] at hactive
    cases hactive
  · rw [if_neg hactive]
    have hidle := anyActive_iff.mp (Bool.eq_false_iff.mpr hactive)
    exact ⟨.clear hidle, Or.inr ⟨rfl, hidle, registry_clear⟩⟩

/-- A dispatch is admitted only by a registration that allows its source and
whose security it meets. -/
theorem admitDispatch_ok {request : Request} {name : List UInt8} {j : Fin c.maxCommands}
    {r : Registration} (h : admitDispatch commands request name = .ok (j, r)) :
    registry commands name = some r ∧ (commands j).registration = some r ∧
      r.allowedSources &&& sourceMask request.source ≠ 0 ∧
      request.securityFlags &&& r.requiredSecurity = r.requiredSecurity := by
  rw [admitDispatch] at h
  cases hfind : findCommand commands name with
  | none => simp [hfind] at h
  | some i =>
    simp only [hfind] at h
    cases hr : (commands i).registration with
    | none => simp [hr] at h
    | some r' =>
      simp only [hr] at h
      by_cases hsource : r'.allowedSources &&& sourceMask request.source = 0
      · simp [hsource] at h
      · rw [if_neg hsource] at h
        by_cases hsecurity : request.securityFlags &&& r'.requiredSecurity ≠ r'.requiredSecurity
        · simp [hsecurity] at h
        · rw [if_neg hsecurity] at h
          simp only [Except.ok.injEq, Prod.mk.injEq] at h
          obtain ⟨rfl, rfl⟩ := h
          refine ⟨?_, hr, hsource, not_not.mp hsecurity⟩
          rw [registry, hfind, Option.bind_some, hr]

def lookup (map : List UInt8 → Option Registration) (request : Request) (name : List UInt8) :
    Except Reply Registration :=
  match map name with
  | none => .error ⟨.enoent, some "unknown command"⟩
  | some r =>
    if r.allowedSources &&& sourceMask request.source = 0 then
      .error ⟨.eperm, some "source not allowed"⟩
    else if request.securityFlags &&& r.requiredSecurity ≠ r.requiredSecurity then
      .error ⟨.eauth, some "security policy not met"⟩
    else
      .ok r

theorem admitDispatch_lookup (commands : Commands c) (request : Request) (name : List UInt8) :
    (admitDispatch commands request name).map Prod.snd =
      lookup (registry commands) request name := by
  rw [admitDispatch, lookup, registry]
  cases findCommand commands name with
  | none => rfl
  | some j =>
    rw [Option.bind_some]
    cases hr : (commands j).registration with
    | none => simp [hr, Except.map]
    | some r =>
      simp only [hr]
      by_cases hsource : r.allowedSources &&& sourceMask request.source = 0
      · rw [if_pos hsource, if_pos hsource]
        rfl
      · rw [if_neg hsource, if_neg hsource]
        by_cases hsecurity : request.securityFlags &&& r.requiredSecurity ≠ r.requiredSecurity
        · rw [if_pos hsecurity, if_pos hsecurity]
          rfl
        · rw [if_neg hsecurity, if_neg hsecurity]
          rfl

end JaszczurHal.RouterRegistry
