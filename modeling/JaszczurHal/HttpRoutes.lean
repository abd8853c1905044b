import JaszczurHal.HttpServer
import JaszczurHal.HalStatus
import Mathlib.Data.List.ReduceOption

/-!
# The route table of the HTTP server

Routes are registered into the slots of a table. Which one a request gets is
said of the set of routes, and the scan over the slots finds it.
-/

set_option autoImplicit false

namespace JaszczurHal.HttpRoutes
open HalStatus HttpServer
open HttpPath (slash)

variable {H : Type}

/-- Arguments of `hal_http_server_route` and `hal_http_server_route_prefix`;
`none` is NULL. -/
structure Call (H : Type) where
  method : Method
  path : Option (List UInt8)
  isPrefix : Bool
  handler : Option H

def key (r : Route H) : Method × Bool × List UInt8 := (r.method, r.isPrefix, r.path)

def replaceRoute (r : Route H) : List (Option (Route H)) → Option (List (Option (Route H)))
  | [] => none
  | none :: slots => (replaceRoute r slots).map (none :: ·)
  | some old :: slots =>
    if key old = key r then some (some r :: slots) else (replaceRoute r slots).map (some old :: ·)

def addRoute (r : Route H) : List (Option (Route H)) → Option (List (Option (Route H)))
  | [] => none
  | none :: slots => some (some r :: slots)
  | some old :: slots => (addRoute r slots).map (some old :: ·)

structure Table (H : Type) (maxRoutes : ℕ) where
  slots : List (Option (Route H))
  size : slots.length = maxRoutes
  distinct : (slots.reduceOption.map key).Nodup
  rooted : ∀ r ∈ slots.reduceOption, r.path.head? = some slash

variable {maxRoutes : ℕ}

def Table.routes (t : Table H maxRoutes) : List (Route H) := t.slots.reduceOption

theorem Table.routes_le (t : Table H maxRoutes) : t.routes.length ≤ maxRoutes :=
  (List.reduceOption_length_le t.slots).trans (Nat.le_of_eq t.size)

theorem replaceRoute_keys {r : Route H} {slots replaced : List (Option (Route H))}
    (h : replaceRoute r slots = some replaced) : replaced.length = slots.length ∧
      replaced.reduceOption.map key = slots.reduceOption.map key := by
  induction slots generalizing replaced with
  | nil => cases h
  | cons slot slots ih =>
    cases slot with
    | none =>
      obtain ⟨rest, hrest, rfl⟩ := Option.map_eq_some_iff.mp h
      obtain ⟨hlength, hkeys⟩ := ih hrest
      exact ⟨congrArg Nat.succ hlength, hkeys⟩
    | some old =>
      rw [replaceRoute] at h
      split_ifs at h with hkey
      · obtain rfl := Option.some.inj h
        exact ⟨rfl, congrArg (· :: slots.reduceOption.map key) hkey.symm⟩
      · obtain ⟨rest, hrest, rfl⟩ := Option.map_eq_some_iff.mp h
        obtain ⟨hlength, hkeys⟩ := ih hrest
        exact ⟨congrArg Nat.succ hlength, congrArg (key old :: ·) hkeys⟩

theorem replaceRoute_none {r : Route H} {slots : List (Option (Route H))}
    (h : replaceRoute r slots = none) : key r ∉ slots.reduceOption.map key := by
  induction slots with
  | nil => exact nofun
  | cons slot slots ih =>
    cases slot with
    | none => exact ih (Option.map_eq_none_iff.mp h)
    | some old =>
      rw [replaceRoute] at h
      split_ifs at h with hkey
      have hrest := ih (Option.map_eq_none_iff.mp h)
      rintro hmem
      rcases List.mem_cons.mp hmem with heq | hin
      · exact hkey heq.symm
      · exact hrest hin

/-- Where a route stays, one with its key was before or it is the new one. -/
theorem replaceRoute_mem {r other : Route H} {slots replaced : List (Option (Route H))}
    (h : replaceRoute r slots = some replaced) (hother : other ∈ replaced.reduceOption) :
    other = r ∨ other ∈ slots.reduceOption := by
  induction slots generalizing replaced with
  | nil => cases h
  | cons slot slots ih =>
    cases slot with
    | none =>
      obtain ⟨rest, hrest, rfl⟩ := Option.map_eq_some_iff.mp h
      exact ih hrest hother
    | some old =>
      rw [replaceRoute] at h
      split_ifs at h with hkey
      · obtain rfl := Option.some.inj h
        rcases List.mem_cons.mp hother with heq | hin
        · exact .inl heq
        · exact .inr (List.mem_cons_of_mem old hin)
      · obtain ⟨rest, hrest, rfl⟩ := Option.map_eq_some_iff.mp h
        rcases List.mem_cons.mp hother with heq | hin
        · exact .inr (heq ▸ List.mem_cons_self)
        · exact (ih hrest hin).imp_right (List.mem_cons_of_mem old)

theorem addRoute_perm {r : Route H} {slots added : List (Option (Route H))}
    (h : addRoute r slots = some added) : added.length = slots.length ∧
      added.reduceOption.Perm (r :: slots.reduceOption) := by
  induction slots generalizing added with
  | nil => cases h
  | cons slot slots ih =>
    cases slot with
    | none =>
      obtain rfl := Option.some.inj h
      exact ⟨rfl, List.Perm.refl _⟩
    | some old =>
      obtain ⟨rest, hrest, rfl⟩ := Option.map_eq_some_iff.mp h
      obtain ⟨hlength, hperm⟩ := ih hrest
      exact ⟨congrArg Nat.succ hlength, (hperm.cons old).trans (List.Perm.swap r old _)⟩

theorem addRoute_none {r : Route H} {slots : List (Option (Route H))}
    (h : addRoute r slots = none) : slots.reduceOption.length = slots.length := by
  induction slots with
  | nil => rfl
  | cons slot slots ih =>
    cases slot with
    | none => cases h
    | some old => exact congrArg Nat.succ (ih (Option.map_eq_none_iff.mp h))

def checkCall (pathMax : ℕ) (c : Call H) : Except Status (Route H) :=
  match c.path, c.handler with
  | some path, some handler =>
    if c.method = .unknown ∨ path.head? ≠ some slash then .error .einval
    else if pathMax ≤ path.length then .error .eoverflow
    else .ok ⟨c.method, path, c.isPrefix, handler⟩
  | _, _ => .error .einval

theorem checkCall_rooted {pathMax : ℕ} {c : Call H} {r : Route H}
    (h : checkCall pathMax c = .ok r) : r.path.head? = some slash := by
  unfold checkCall at h
  split at h
  · split_ifs at h with hbad
    obtain rfl := Except.ok.inj h
    exact not_not.mp (not_or.mp hbad).2
  · cases h

def routeCommon (pathMax : ℕ) (t : Table H maxRoutes) (c : Call H) : Table H maxRoutes × Status :=
  match hcheck : checkCall pathMax c with
  | .error status => (t, status)
  | .ok r =>
    match hreplace : replaceRoute r t.slots with
    | some replaced =>
      ({ slots := replaced
         size := (replaceRoute_keys hreplace).1.trans t.size
         distinct := (replaceRoute_keys hreplace).2 ▸ t.distinct
         rooted := fun other hother => (replaceRoute_mem hreplace hother).elim
           (fun heq => heq ▸ checkCall_rooted hcheck) (t.rooted other) }, .ok)
    | none =>
      match hadd : addRoute r t.slots with
      | some added =>
        ({ slots := added
           size := (addRoute_perm hadd).1.trans t.size
           distinct := (((addRoute_perm hadd).2.map key).nodup_iff).mpr
             (List.nodup_cons.mpr ⟨replaceRoute_none hreplace, t.distinct⟩)
           rooted := fun other hother =>
             (List.mem_cons.mp ((addRoute_perm hadd).2.mem_iff.mp hother)).elim
               (fun heq => heq ▸ checkCall_rooted hcheck) (t.rooted other) }, .ok)
      | none => (t, .enomem)

def clearRoutes (H : Type) (maxRoutes : ℕ) : Table H maxRoutes where
  slots := List.replicate maxRoutes none
  size := List.length_replicate
  distinct := by simp [List.reduceOption]
  rooted := by simp [List.reduceOption]

def Table.findRoute (t : Table H maxRoutes) (method : Method) (path : List UInt8) :
    Option (Route H) :=
  HttpServer.findRoute method path t.routes none 0

def Exact (method : Method) (path : List UInt8) (r : Route H) : Prop :=
  r.method = method ∧ r.isPrefix = false ∧ r.path = path

def Covers (method : Method) (path : List UInt8) (r : Route H) : Prop :=
  r.method = method ∧ r.isPrefix = true ∧ ∃ rest, path = r.path ++ rest ∧
    (r.path.getLast? = some slash ∨ rest = [] ∨ rest.head? = some slash)

inductive Chosen (routes : Route H → Prop) (method : Method) (path : List UInt8) :
    Option (Route H) → Prop where
  | exact {r : Route H} (hr : routes r) (h : Exact method path r) :
      Chosen routes method path (some r)
  | longest {r : Route H} (hr : routes r) (hnone : ∀ r', routes r' → ¬ Exact method path r')
      (h : Covers method path r)
      (hmax : ∀ r', routes r' → Covers method path r' → r'.path.length ≤ r.path.length) :
      Chosen routes method path (some r)
  | none (hnone : ∀ r, routes r → ¬ Exact method path r ∧ ¬ Covers method path r) :
      Chosen routes method path none

variable {method : Method} {path : List UInt8}

theorem prefixCovers_iff (route path : List UInt8) : prefixCovers route path = true ↔
    ∃ rest, path = route ++ rest ∧
      (route.getLast? = some slash ∨ rest = [] ∨ rest.head? = some slash) := by
  rw [prefixCovers, Bool.and_eq_true, List.isPrefixOf_iff_prefix]
  constructor
  · rintro ⟨⟨rest, rfl⟩, hend⟩
    refine ⟨rest, rfl, ?_⟩
    simpa [or_assoc] using hend
  · rintro ⟨rest, rfl, hend⟩
    refine ⟨⟨rest, rfl⟩, ?_⟩
    simpa [or_assoc] using hend

theorem findRoute_stop {r : Route H} (h : Exact method path r) (routes : List (Route H))
    (best : Option (Route H)) (bestLen : ℕ) :
    HttpServer.findRoute method path (r :: routes) best bestLen = some r := by
  obtain ⟨hmethod, hkind, hpath⟩ := h
  rw [HttpServer.findRoute, if_neg (not_not.mpr hmethod), if_pos ⟨by rw [hkind]; rfl, hpath⟩]

/-- It takes a longer prefix route and passes over every other one. -/
theorem findRoute_step {r : Route H} (h : ¬ Exact method path r) (routes : List (Route H))
    (best : Option (Route H)) (bestLen : ℕ) :
    (Covers method path r ∧ bestLen < r.path.length →
      HttpServer.findRoute method path (r :: routes) best bestLen =
        HttpServer.findRoute method path routes (some r) r.path.length) ∧
    (¬ (Covers method path r ∧ bestLen < r.path.length) →
      HttpServer.findRoute method path (r :: routes) best bestLen =
        HttpServer.findRoute method path routes best bestLen) := by
  have hcovers := prefixCovers_iff r.path path
  rw [HttpServer.findRoute]
  by_cases hmethod : r.method = method
  · rw [if_neg (not_not.mpr hmethod)]
    have hnot : ¬ ((!r.isPrefix) = true ∧ r.path = path) :=
      fun hmatch => h ⟨hmethod, by simpa using hmatch.1, hmatch.2⟩
    rw [if_neg hnot]
    constructor
    · rintro ⟨⟨_, hkind, hend⟩, hlong⟩
      exact if_pos ⟨hkind, hlong, hcovers.mpr hend⟩
    · intro hother
      exact if_neg fun hall => hother ⟨⟨hmethod, hall.1, hcovers.mp hall.2.2⟩, hall.2.1⟩
  · rw [if_pos hmethod]
    exact ⟨fun hall => absurd hall.1.1 hmethod, fun _ => rfl⟩

theorem findRoute_exact {routes : List (Route H)} (h : ∃ r ∈ routes, Exact method path r)
    (best : Option (Route H)) (bestLen : ℕ) :
    ∃ r ∈ routes, Exact method path r ∧
      HttpServer.findRoute method path routes best bestLen = some r := by
  induction routes generalizing best bestLen with
  | nil =>
    obtain ⟨r, hr, _⟩ := h
    cases hr
  | cons r routes ih =>
    by_cases hexact : Exact method path r
    · exact ⟨r, List.mem_cons_self, hexact, findRoute_stop hexact routes best bestLen⟩
    · have hrest : ∃ r ∈ routes, Exact method path r := by
        obtain ⟨other, hother, hmatch⟩ := h
        rcases List.mem_cons.mp hother with rfl | hin
        · exact absurd hmatch hexact
        · exact ⟨other, hin, hmatch⟩
      obtain ⟨htake, hpass⟩ := findRoute_step hexact routes best bestLen
      by_cases hlonger : Covers method path r ∧ bestLen < r.path.length
      · obtain ⟨r', hin, hmatch, hfound⟩ := ih hrest (some r) r.path.length
        exact ⟨r', List.mem_cons_of_mem r hin, hmatch, (htake hlonger).trans hfound⟩
      · obtain ⟨r', hin, hmatch, hfound⟩ := ih hrest best bestLen
        exact ⟨r', List.mem_cons_of_mem r hin, hmatch, (hpass hlonger).trans hfound⟩

/-- Without an exact route the scan keeps the longest prefix route. -/
theorem findRoute_longest {routes : List (Route H)} (h : ∀ r ∈ routes, ¬ Exact method path r)
    (best : Option (Route H)) (bestLen : ℕ) :
    (HttpServer.findRoute method path routes best bestLen = best ∧
      ∀ r ∈ routes, Covers method path r → r.path.length ≤ bestLen) ∨
    ∃ r ∈ routes, Covers method path r ∧ bestLen < r.path.length ∧
      HttpServer.findRoute method path routes best bestLen = some r ∧
      ∀ r' ∈ routes, Covers method path r' → r'.path.length ≤ r.path.length := by
  induction routes generalizing best bestLen with
  | nil => exact .inl ⟨rfl, nofun⟩
  | cons r routes ih =>
    have hrest : ∀ r' ∈ routes, ¬ Exact method path r' :=
      fun r' hr' => h r' (List.mem_cons_of_mem r hr')
    obtain ⟨htake, hpass⟩ := findRoute_step (h r List.mem_cons_self) routes best bestLen
    by_cases hlonger : Covers method path r ∧ bestLen < r.path.length
    · right
      rw [htake hlonger]
      rcases ih hrest (some r) r.path.length with
        ⟨hsame, hbound⟩ | ⟨r', hin, hcov, hlt, hfound, hmax⟩
      · refine ⟨r, List.mem_cons_self, hlonger.1, hlonger.2, hsame, fun r' hr' hcov => ?_⟩
        rcases List.mem_cons.mp hr' with rfl | hin
        · exact Nat.le_refl _
        · exact hbound r' hin hcov
      · refine ⟨r', List.mem_cons_of_mem r hin, hcov, hlonger.2.trans hlt, hfound,
          fun other hother hcovers => ?_⟩
        rcases List.mem_cons.mp hother with rfl | hmem
        · exact Nat.le_of_lt hlt
        · exact hmax other hmem hcovers
    · rw [hpass hlonger]
      have hhere : Covers method path r → r.path.length ≤ bestLen :=
        fun hcov => Nat.le_of_not_lt fun hlt => hlonger ⟨hcov, hlt⟩
      rcases ih hrest best bestLen with ⟨hsame, hbound⟩ | ⟨r', hin, hcov, hlt, hfound, hmax⟩
      · refine .inl ⟨hsame, fun other hother hcovers => ?_⟩
        rcases List.mem_cons.mp hother with rfl | hmem
        · exact hhere hcovers
        · exact hbound other hmem hcovers
      · refine .inr ⟨r', List.mem_cons_of_mem r hin, hcov, hlt, hfound,
          fun other hother hcovers => ?_⟩
        rcases List.mem_cons.mp hother with rfl | hmem
        · exact (hhere hcovers).trans (Nat.le_of_lt hlt)
        · exact hmax other hmem hcovers

/-- Every table gives a request the route that its set of routes says. -/
theorem Table.findRoute_chosen (t : Table H maxRoutes) (method : Method) (path : List UInt8) :
    Chosen (· ∈ t.routes) method path (t.findRoute method path) := by
  rw [Table.findRoute]
  by_cases hexact : ∃ r ∈ t.routes, Exact method path r
  · obtain ⟨r, hr, hmatch, hfound⟩ := findRoute_exact hexact none 0
    rw [hfound]
    exact .exact hr hmatch
  · have hnone : ∀ r ∈ t.routes, ¬ Exact method path r := fun r hr hmatch => hexact ⟨r, hr, hmatch⟩
    rcases findRoute_longest hnone none 0 with ⟨hfound, hbound⟩ | ⟨r, hr, hcov, _, hfound, hmax⟩
    · rw [hfound]
      refine .none fun r hr => ⟨hnone r hr, fun hcov => ?_⟩
      -- the path of a route is not empty
      have hempty := List.length_eq_zero_iff.mp (Nat.le_zero.mp (hbound r hr hcov))
      have hroot := t.rooted r hr
      rw [hempty] at hroot
      cases hroot
    · rw [hfound]
      exact .longest hr hnone hcov hmax

theorem Table.chosen_unique (t : Table H maxRoutes) {a b : Option (Route H)}
    (ha : Chosen (· ∈ t.routes) method path a) (hb : Chosen (· ∈ t.routes) method path b) :
    a = b := by
  have hsame : ∀ {r r' : Route H}, r ∈ t.routes → r' ∈ t.routes → key r = key r' → r = r' :=
    fun hr hr' hkey => List.inj_on_of_nodup_map t.distinct hr hr' hkey
  cases ha with
  | @exact r hr h =>
    cases hb with
    | @exact r' hr' h' =>
      have hkey : key r = key r' := by
        rw [key, key, h.1, h.2.1, h.2.2, h'.1, h'.2.1, h'.2.2]
      rw [hsame hr hr' hkey]
    | longest hr' hnone => exact absurd h (hnone r hr)
    | none hnone => exact absurd h (hnone r hr).1
  | @longest r hr hnone h hmax =>
    cases hb with
    | @exact r' hr' h' => exact absurd h' (hnone r' hr')
    | @longest r' hr' _ h' hmax' =>
      have hlength := Nat.le_antisymm (hmax' r hr h) (hmax r' hr' h')
      obtain ⟨hmethod, hkind, rest, hpath, _⟩ := h
      obtain ⟨hmethod', hkind', rest', hpath', _⟩ := h'
      have hpaths : r.path = r'.path := (List.append_inj (hpath.symm.trans hpath') hlength).1
      have hkey : key r = key r' := by
        rw [key, key, hmethod, hkind, hmethod', hkind', hpaths]
      rw [hsame hr hr' hkey]
    | none hnone' => exact absurd h (hnone' r hr).2
  | none hnone =>
    cases hb with
    | @exact r' hr' h' => exact absurd h' (hnone r' hr').1
    | @longest r' hr' _ h' => exact absurd h' (hnone r' hr').2
    | none => rfl

/-- Tables with the same routes give every request the same route. -/
theorem Table.findRoute_congr {t t' : Table H maxRoutes}
    (h : ∀ r, r ∈ t.routes ↔ r ∈ t'.routes) (method : Method) (path : List UInt8) :
    t.findRoute method path = t'.findRoute method path := by
  apply t.chosen_unique (t.findRoute_chosen method path)
  have hmem : (· ∈ t.routes) = (· ∈ t'.routes) := funext fun r => propext (h r)
  rw [hmem]
  exact t'.findRoute_chosen method path

inductive Operation (H : Type) where
  | register (c : Call H)
  | clear

def step (pathMax : ℕ) (t : Table H maxRoutes) : Operation H → Table H maxRoutes
  | .register c => (routeCommon pathMax t c).1
  | .clear => clearRoutes H maxRoutes

def run (maxRoutes pathMax : ℕ) (operations : List (Operation H)) : Table H maxRoutes :=
  operations.foldl (step pathMax) (clearRoutes H maxRoutes)

def registerAll (pathMax : ℕ) : Table H maxRoutes → List (Call H) → Table H maxRoutes × List Status
  | t, [] => (t, [])
  | t, c :: calls =>
    let (t, status) := routeCommon pathMax t c
    ((registerAll pathMax t calls).1, status :: (registerAll pathMax t calls).2)

def routeOf (pathMax : ℕ) (c : Call H) : Option (Route H) := (checkCall pathMax c).toOption

def Different (pathMax : ℕ) (calls : List (Call H)) : Prop :=
  ((calls.filterMap (routeOf pathMax)).map key).Nodup

variable {pathMax : ℕ} {t : Table H maxRoutes} {c : Call H} {r : Route H}

theorem replaceRoute_absent {slots : List (Option (Route H))}
    (h : key r ∉ slots.reduceOption.map key) : replaceRoute r slots = none := by
  induction slots with
  | nil => rfl
  | cons slot slots ih =>
    cases slot with
    | none => exact Option.map_eq_none_iff.mpr (ih h)
    | some old =>
      obtain ⟨hne, hrest⟩ := not_or.mp fun hor => h (List.mem_cons.mpr hor)
      rw [replaceRoute, if_neg (Ne.symm hne), ih hrest]
      rfl

theorem addRoute_full {slots : List (Option (Route H))}
    (h : slots.reduceOption.length = slots.length) : addRoute r slots = none := by
  induction slots with
  | nil => rfl
  | cons slot slots ih =>
    cases slot with
    | none =>
      have hle : slots.reduceOption.length ≤ slots.length := List.reduceOption_length_le slots
      exact absurd h (Nat.ne_of_lt (Nat.lt_succ_of_le hle))
    | some old =>
      rw [addRoute, ih (Nat.succ.inj h)]
      rfl

theorem routeCommon_new (hcheck : checkCall pathMax c = .ok r) (hnew : key r ∉ t.routes.map key) :
    ((routeCommon pathMax t c).2 = .ok ↔ t.routes.length < maxRoutes) ∧
    ((routeCommon pathMax t c).2 = .ok →
      (routeCommon pathMax t c).1.routes.Perm (r :: t.routes)) := by
  have habsent := replaceRoute_absent hnew
  have hle := t.routes_le
  unfold routeCommon
  split
  · rename_i status hstatus
    rw [hcheck] at hstatus
    cases hstatus
  · rename_i r' hr'
    rw [hcheck] at hr'
    obtain rfl := Except.ok.inj hr'
    split
    · rename_i replaced hreplaced
      rw [habsent] at hreplaced
      cases hreplaced
    · split
      · rename_i added hadded
        have hroom : t.routes.length < maxRoutes := by
          apply Nat.lt_of_le_of_ne hle
          intro hfull
          rw [addRoute_full (hfull.trans t.size.symm)] at hadded
          cases hadded
        exact ⟨iff_of_true rfl hroom, fun _ => (addRoute_perm hadded).2⟩
      · rename_i hadded
        have hfull : t.routes.length = maxRoutes := (addRoute_none hadded).trans t.size
        exact ⟨iff_of_false nofun (by omega), nofun⟩

theorem routeCommon_refused {status : Status} (hcheck : checkCall pathMax c = .error status) :
    (routeCommon pathMax t c).2 = status := by
  unfold routeCommon
  split
  · rename_i other hother
    rw [hcheck] at hother
    exact (Except.error.inj hother).symm
  · rename_i r hother
    rw [hcheck] at hother
    cases hother

theorem checkCall_error {status : Status} (hcheck : checkCall pathMax c = .error status) :
    status ≠ .ok := by
  unfold checkCall at hcheck
  split at hcheck
  · split_ifs at hcheck <;> (obtain rfl := Except.error.inj hcheck; decide)
  · obtain rfl := Except.error.inj hcheck
    decide

/-- Calls that register new routes are all accepted exactly when each passes the
checks and there is room for all of them; the routes are then added. -/
theorem registerAll_new {calls : List (Call H)} (t : Table H maxRoutes)
    (hnew : ((calls.filterMap (routeOf pathMax) ++ t.routes).map key).Nodup) :
    ((∀ status ∈ (registerAll pathMax t calls).2, status = .ok) ↔
      (∀ c ∈ calls, (routeOf pathMax c).isSome) ∧ calls.length+t.routes.length ≤ maxRoutes) ∧
    ((∀ status ∈ (registerAll pathMax t calls).2, status = .ok) →
      (registerAll pathMax t calls).1.routes.Perm
        (calls.filterMap (routeOf pathMax) ++ t.routes)) := by
  induction calls generalizing t with
  | nil =>
    have hle := t.routes_le
    exact ⟨iff_of_true nofun ⟨nofun, by simpa using hle⟩, fun _ => List.Perm.refl _⟩
  | cons c calls ih =>
    cases hcheck : checkCall pathMax c with
    | error status =>
      have hnone : routeOf pathMax c = none := by rw [routeOf, hcheck]; rfl
      have hrefused : ¬ ∀ status ∈ (registerAll pathMax t (c :: calls)).2, status = .ok := by
        intro hall
        have hfirst := hall (routeCommon pathMax t c).2 List.mem_cons_self
        rw [routeCommon_refused hcheck] at hfirst
        exact checkCall_error hcheck hfirst
      refine ⟨iff_of_false hrefused fun hpass => ?_, fun hall => absurd hall hrefused⟩
      have hsome := hpass.1 c List.mem_cons_self
      rw [hnone] at hsome
      cases hsome
    | ok r =>
      have hroute : routeOf pathMax c = some r := by rw [routeOf, hcheck]; rfl
      rw [List.filterMap_cons_some hroute] at hnew ⊢
      have hall := hnew
      rw [List.cons_append, List.map_cons, List.nodup_cons] at hnew
      have habsent : key r ∉ t.routes.map key := by
        intro hin
        apply hnew.1
        rw [List.map_append]
        exact List.mem_append_right _ hin
      obtain ⟨hok, hadded⟩ := routeCommon_new hcheck habsent
      by_cases hfirst : (routeCommon pathMax t c).2 = .ok
      · have hroutes := hadded hfirst
        have hmoved : (calls.filterMap (routeOf pathMax) ++
            (routeCommon pathMax t c).1.routes).Perm
              (r :: calls.filterMap (routeOf pathMax) ++ t.routes) :=
          (hroutes.append_left _).trans List.perm_middle
        obtain ⟨hrest, hperm⟩ :=
          ih (routeCommon pathMax t c).1 (((hmoved.map key).nodup_iff).mpr hall)
        have hlength := hroutes.length_eq
        rw [List.length_cons] at hlength
        have hstatus : (∀ status ∈ (registerAll pathMax t (c :: calls)).2, status = .ok) ↔
            ∀ status ∈ (registerAll pathMax (routeCommon pathMax t c).1 calls).2,
              status = .ok := by
          refine ⟨fun h s hs => h s (List.mem_cons_of_mem _ hs), fun h s hs => ?_⟩
          rcases List.mem_cons.mp hs with rfl | hin
          · exact hfirst
          · exact h s hin
        constructor
        · rw [hstatus, hrest, List.length_cons, List.forall_mem_cons, hroute, hlength,
            Option.isSome_some, Nat.add_right_comm]
          simp [Nat.add_assoc]
        · exact fun h => (hperm (hstatus.mp h)).trans hmoved
      · have hrefused : ¬ ∀ status ∈ (registerAll pathMax t (c :: calls)).2, status = .ok :=
          fun h => hfirst (h _ List.mem_cons_self)
        refine ⟨iff_of_false hrefused fun hpass => ?_, fun h => absurd h hrefused⟩
        have hlength := hpass.2
        rw [List.length_cons] at hlength
        exact hfirst (hok.mpr (by omega))

/-- Different routes are accepted in any order when they are in one, and every
request then gets the same route. -/
theorem registerAll_perm {calls calls' : List (Call H)} (hperm : calls.Perm calls')
    (hdifferent : Different pathMax calls)
    (haccepted : ∀ status ∈ (registerAll pathMax (clearRoutes H maxRoutes) calls).2,
      status = .ok) :
    (∀ status ∈ (registerAll pathMax (clearRoutes H maxRoutes) calls').2, status = .ok) ∧
    ∀ method path,
      (registerAll pathMax (clearRoutes H maxRoutes) calls').1.findRoute method path =
        (registerAll pathMax (clearRoutes H maxRoutes) calls).1.findRoute method path := by
  have hempty : (clearRoutes H maxRoutes).routes = [] := by
    simp [Table.routes, clearRoutes]
  have hnew : ((calls.filterMap (routeOf pathMax) ++
      (clearRoutes H maxRoutes).routes).map key).Nodup := by
    rw [hempty, List.append_nil]
    exact hdifferent
  have hroutes := hperm.filterMap (routeOf pathMax)
  have hnew' : ((calls'.filterMap (routeOf pathMax) ++
      (clearRoutes H maxRoutes).routes).map key).Nodup :=
    (((hroutes.append_right _).map key).nodup_iff).mp hnew
  obtain ⟨hall, htable⟩ := registerAll_new _ hnew
  obtain ⟨hall', htable'⟩ := registerAll_new _ hnew'
  obtain ⟨hpass, hroom⟩ := hall.mp haccepted
  have haccepted' := hall'.mpr
    ⟨fun c hc => hpass c (hperm.mem_iff.mpr hc), hperm.length_eq ▸ hroom⟩
  refine ⟨haccepted', fun method path => Table.findRoute_congr (fun r => ?_) method path⟩
  rw [(htable' haccepted').mem_iff, (htable haccepted).mem_iff]
  exact ((hroutes.append_right _).mem_iff).symm

end JaszczurHal.HttpRoutes
