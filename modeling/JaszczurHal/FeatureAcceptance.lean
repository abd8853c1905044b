import JaszczurHal.DepthFirst
import JaszczurHal.FeatureClosure

/-!
# Which registries are accepted

The checks of the loader against the graph of the implications. The walk of
`check_cycles` is the depth-first search over the places of the symbols.
-/

set_option autoImplicit false

namespace JaszczurHal.FeatureAcceptance
open FeatureRegistry
open DepthFirst (Cycle Acyclic)

def checks (features : List Feature) : Except LoadError Unit := do
  reject (checkRelations features)
  checkCycles features
  reject (checkConflicts features)

def Implies (features : List Feature) (name target : Text) : Prop :=
  ∃ f ∈ features, f.name = name ∧ target ∈ f.implies

structure Acceptable (features : List Feature) : Prop where
  declared : ∀ f ∈ features, ∀ r ∈ relations f, r.2 ≠ f.name ∧ ∃ g ∈ features, g.name = r.2
  acyclic : Acyclic (Implies features)
  symmetric : ∀ f ∈ features, ∀ g ∈ features, g.name ∈ f.conflicts → f.name ∈ g.conflicts
  compatible : ∀ f ∈ features, ∀ a ∈ features, ∀ b ∈ features,
    Relation.ReflTransGen (Implies features) f.name a.name →
    Relation.ReflTransGen (Implies features) f.name b.name → b.name ∉ a.conflicts
  disabled : ∀ f ∈ features, (text "HAL_DISABLE_").isPrefixOf f.name = true →
    f.derived = false ∧ f.featureSources = [] ∧ f.portableSources = [] ∧ f.dependencies = []

def enough (features : List Feature) : ℕ :=
  features.length + (features.map fun f => f.implies.length).sum + 1

def cyclesWithin (features : List Feature) (fuel : ℕ) : Except LoadError Unit :=
  let start : Except LoadError (ℕ → Mark) := .ok fun _ => .new
  ((List.range features.length).foldl (fun marks root => do
    let marks ← marks
    if marks root = .visited then return marks
    walk features fuel (Function.update marks root .visiting) [(root, impliesOf features root)])
    start).map fun _ => ()

theorem checkCycles_within (features : List Feature) :
    checkCycles features = cyclesWithin features (enough features) := rfl

section Walk

def mark : DepthFirst.Mark → Mark
  | .new => .new
  | .visiting => .visiting
  | .visited => .visited

def outcome (features : List Feature) :
    Except (List ℕ) (ℕ → DepthFirst.Mark) → Except LoadError (ℕ → Mark)
  | .ok marks => .ok fun i => mark (marks i)
  | .error cycle => .error (.impliesCycle (cycle.map (nameOf features)))

theorem mark_update (marks : ℕ → DepthFirst.Mark) (i : ℕ) (m : DepthFirst.Mark) :
    (fun j => mark (Function.update marks i m j)) =
      Function.update (fun j => mark (marks j)) i (mark m) := by
  funext j
  by_cases hj : j = i
  · simp [hj]
  · simp [hj]

def Found (features : List Feature) (targets : List Text) : Prop :=
  ∀ target ∈ targets, findFeature features target ≠ none

def entry (features : List Feature) (e : ℕ × List Text) : ℕ × List ℕ :=
  (e.1, e.2.filterMap (findFeature features))

variable {features : List Feature}

theorem entry_places (path : List (ℕ × List Text)) :
    (path.map (entry features)).map Prod.fst = path.map Prod.fst := by
  rw [List.map_map]
  rfl

theorem walk_search (hknown : ∀ i, Found features (impliesOf features i)) (fuel : ℕ)
    (marks : ℕ → DepthFirst.Mark) (path : List (ℕ × List Text))
    (hpath : ∀ e ∈ path, Found features e.2) :
    walk features fuel (fun i => mark (marks i)) path =
      outcome features
        (DepthFirst.walk (implied features) fuel marks (path.map (entry features))) := by
  induction fuel generalizing marks path with
  | zero => rfl
  | succ fuel ih =>
    cases path with
    | nil => rfl
    | cons e path =>
      obtain ⟨current, targets⟩ := e
      have hrest : ∀ e ∈ path, Found features e.2 :=
        fun e he => hpath e (List.mem_cons_of_mem _ he)
      cases targets with
      | nil =>
        have hmark := mark_update marks current .visited
        have hnext := ih (Function.update marks current .visited) path hrest
        rw [hmark] at hnext
        exact hnext
      | cons target targets =>
        have htargets : Found features (target :: targets) := hpath _ (List.mem_cons_self ..)
        obtain ⟨j, hj⟩ := Option.ne_none_iff_exists'.mp (htargets target (List.mem_cons_self ..))
        have hlater : ∀ e ∈ (current, targets) :: path, Found features e.2 := by
          intro e he
          cases List.mem_cons.mp he with
          | inl hsame =>
            rw [hsame]
            exact fun x hx => htargets x (List.mem_cons_of_mem _ hx)
          | inr hin => exact hrest e hin
        have hentry : entry features (current, target :: targets) =
            (current, j :: targets.filterMap (findFeature features)) := by
          simp [entry, hj]
        rw [List.map_cons, hentry]
        cases hmark : marks j with
        | visited =>
          simp only [walk, DepthFirst.walk, hj, hmark, mark]
          exact ih marks _ hlater
        | visiting =>
          simp only [walk, DepthFirst.walk, hj, hmark, mark, outcome]
          rw [entry_places]
        | new =>
          simp only [walk, DepthFirst.walk, hj, hmark, mark]
          have hupdate := mark_update marks j .visiting
          have hnext := ih (Function.update marks j .visiting)
            ((j, impliesOf features j) :: (current, targets) :: path) (by
              intro e he
              cases List.mem_cons.mp he with
              | inl hsame =>
                rw [hsame]
                exact hknown j
              | inr hin => exact hlater e hin)
          rw [hupdate] at hnext
          exact hnext

theorem roots_search (hknown : ∀ i, Found features (impliesOf features i)) (fuel : ℕ)
    (roots : List ℕ) (marks : ℕ → DepthFirst.Mark) :
    roots.foldl (fun marks root => do
      let marks ← marks
      if marks root = .visited then return marks
      walk features fuel (Function.update marks root .visiting)
        [(root, impliesOf features root)]) (outcome features (.ok marks)) =
      outcome features (DepthFirst.search (implied features) fuel roots marks) := by
  induction roots generalizing marks with
  | nil => rfl
  | cons root roots ih =>
    rw [List.foldl_cons]
    by_cases hmark : marks root = .visited
    · have hmodel : mark (marks root) = .visited := by rw [hmark, mark]
      simp only [DepthFirst.search, if_pos hmark]
      rw [← ih marks]
      congr 1
      simp only [outcome, bind, Except.bind, hmodel, if_true]
      rfl
    · have hmodel : mark (marks root) ≠ .visited := by
        intro h
        cases hall : marks root with
        | new => simp [hall, mark] at h
        | visiting => simp [hall, mark] at h
        | visited => exact hmark hall
      have hwalk := walk_search hknown fuel (Function.update marks root .visiting)
        [(root, impliesOf features root)] (by
          intro e he
          rw [List.mem_singleton.mp he]
          exact hknown root)
      rw [mark_update] at hwalk
      have hstep : (do
          let marks ← outcome features (.ok marks)
          if marks root = .visited then return marks
          walk features fuel (Function.update marks root .visiting)
            [(root, impliesOf features root)]) =
          outcome features (DepthFirst.walk (implied features) fuel
            (Function.update marks root .visiting) [(root, implied features root)]) := by
        simp only [outcome, bind, Except.bind, if_neg hmodel]
        exact hwalk
      rw [hstep]
      simp only [DepthFirst.search, if_neg hmark]
      cases hresult : DepthFirst.walk (implied features) fuel
          (Function.update marks root .visiting) [(root, implied features root)] with
      | ok marks => exact ih marks
      | error cycle =>
        clear hstep hwalk ih
        induction roots with
        | nil => rfl
        | cons root roots ih => exact ih

theorem cyclesWithin_search (hknown : ∀ i, Found features (impliesOf features i)) (fuel : ℕ) :
    cyclesWithin features fuel =
      (outcome features (DepthFirst.search (implied features) fuel
        (List.range features.length) fun _ => .new)).map fun _ => () := by
  unfold cyclesWithin
  rw [← roots_search hknown]
  rfl

end Walk

section Graph

variable {features : List Feature} (hsorted : (features.map Feature.name).Pairwise (· < ·))
include hsorted

omit hsorted in
theorem impliesOf_outside {i : ℕ} (hi : features.length ≤ i) : impliesOf features i = [] := by
  simp [impliesOf, List.getElem?_eq_none hi]

theorem implied_nodes (i j : ℕ) (hj : j ∈ implied features i) :
    i ∈ List.range features.length ∧ j ∈ List.range features.length := by
  have hi : i ∈ List.range features.length := by
    by_contra hout
    rw [implied, impliesOf_outside (by simpa using hout)] at hj
    cases hj
  exact ⟨hi, implied_range hsorted i hi j hj⟩

theorem found_of_declared
    (hdeclared : ∀ f ∈ features, ∀ r ∈ relations f, ∃ g ∈ features, g.name = r.2) (i : ℕ) :
    Found features (impliesOf features i) := by
  intro target htarget
  cases hi : features[i]? with
  | none => simp [impliesOf, hi] at htarget
  | some f =>
    have hin : target ∈ f.implies := by simpa [impliesOf, hi] using htarget
    obtain ⟨g, hg, hname⟩ := hdeclared f (List.mem_of_getElem? hi) (.implies, target)
      (by simp [relations, hin])
    obtain ⟨j, hj⟩ := List.mem_iff_getElem?.mp hg
    have hname : g.name = target := hname
    rw [← hname, findFeature_at hsorted hj]
    exact Option.some_ne_none j

theorem implied_implies {i j : ℕ} (hj : j ∈ implied features i) :
    Implies features (nameOf features i) (nameOf features j) := by
  have hi := List.mem_range.mp (implied_nodes hsorted i j hj).1
  have hf : features[i]? = some features[i] := List.getElem?_eq_getElem hi
  obtain ⟨g, hg, hname⟩ := (mem_implied hsorted hf j).mp hj
  refine ⟨features[i], List.getElem_mem hi, ?_, ?_⟩
  · simp [nameOf, hf]
  · simpa [nameOf, hg] using hname

/-- A way over the names, from the place of the first one. -/
theorem implies_places
    (hdeclared : ∀ f ∈ features, ∀ r ∈ relations f, ∃ g ∈ features, g.name = r.2) {a b : Text}
    (hab : Relation.TransGen (Implies features) a b) :
    ∃ i j f g, features[i]? = some f ∧ f.name = a ∧ features[j]? = some g ∧ g.name = b ∧
      Relation.TransGen (fun x y => y ∈ implied features x) i j := by
  have hplace : ∀ a b, Implies features a b → ∃ i j f g, features[i]? = some f ∧ f.name = a ∧
      features[j]? = some g ∧ g.name = b ∧ j ∈ implied features i := by
    rintro a b ⟨f, hf, hname, hb⟩
    obtain ⟨i, hi⟩ := List.mem_iff_getElem?.mp hf
    obtain ⟨g, hg, hgname⟩ := hdeclared f hf (.implies, b) (by simp [relations, hb])
    have hgname : g.name = b := hgname
    obtain ⟨j, hj⟩ := List.mem_iff_getElem?.mp hg
    exact ⟨i, j, f, g, hi, hname, hj, hgname,
      (mem_implied hsorted hi j).mpr ⟨g, hj, hgname ▸ hb⟩⟩
  induction hab with
  | single hstep =>
    obtain ⟨i, j, f, g, hi, hf, hj, hg, hedge⟩ := hplace _ _ hstep
    exact ⟨i, j, f, g, hi, hf, hj, hg, .single hedge⟩
  | tail _ hstep ih =>
    obtain ⟨i, j, f, g, hi, hf, hj, hg, hway⟩ := ih
    obtain ⟨k, l, f', g', hk, hf', hl, hg', hedge⟩ := hplace _ _ hstep
    have hsame : j = k := by
      have hfound := findFeature_at hsorted hj
      rw [hg, ← hf', findFeature_at hsorted hk] at hfound
      exact (Option.some.inj hfound).symm
    exact ⟨i, l, f, g', hi, hf, hl, hg', hway.tail (hsame ▸ hedge)⟩

theorem acyclic_places
    (hdeclared : ∀ f ∈ features, ∀ r ∈ relations f, ∃ g ∈ features, g.name = r.2) :
    Acyclic (fun x y => y ∈ implied features x) ↔ Acyclic (Implies features) := by
  constructor
  · intro h a hcycle
    obtain ⟨i, j, f, g, hi, hf, hj, hg, hway⟩ := implies_places hsorted hdeclared hcycle
    have hsame : i = j := by
      have hfound := findFeature_at hsorted hj
      rw [hg, ← hf, findFeature_at hsorted hi] at hfound
      exact Option.some.inj hfound
    rw [hsame] at hway
    exact h j hway
  · intro h i hcycle
    exact h _ (hcycle.lift (nameOf features) fun _ _ hstep => implied_implies hsorted hstep)

theorem cycle_names {cycle : List ℕ} (h : Cycle (fun x y => y ∈ implied features x) cycle) :
    Cycle (Implies features) (cycle.map (nameOf features)) := by
  constructor
  · rw [List.length_map]
    exact h.long
  · rw [List.head?_map, List.getLast?_map, h.returns]
  · rw [List.isChain_map]
    exact h.chain.imp fun _ _ hstep => implied_implies hsorted hstep

omit hsorted in
theorem enough_turns :
    ((List.range features.length).map fun i => 1 + (implied features i).length).sum <
      enough features := by
  have hlists : (List.range features.length).map (impliesOf features) =
      features.map Feature.implies := by
    apply List.ext_getElem?
    intro i
    by_cases hi : i < features.length
    · simp [impliesOf, hi]
    · simp [hi]
  have hsum : ((List.range features.length).map fun i => 1 + (implied features i).length).sum ≤
      ((List.range features.length).map fun i => 1 + (impliesOf features i).length).sum := by
    apply List.sum_le_sum
    intro i _
    have hlength : (implied features i).length ≤ (impliesOf features i).length :=
      List.length_filterMap_le _ _
    omega
  have hlengths : ((List.range features.length).map fun i => (impliesOf features i).length) =
      features.map fun f => f.implies.length := by
    have hmap := congrArg (List.map List.length) hlists
    rw [List.map_map, List.map_map] at hmap
    exact hmap
  have hall : ((List.range features.length).map fun i => 1 + (impliesOf features i).length).sum =
      features.length + (features.map fun f => f.implies.length).sum := by
    rw [List.sum_map_add, hlengths]
    simp
  unfold enough
  omega

/-- The walk finds a cycle exactly when there is one, and more turns than it
takes change nothing. -/
theorem checkCycles_exact
    (hdeclared : ∀ f ∈ features, ∀ r ∈ relations f, ∃ g ∈ features, g.name = r.2) :
    (checkCycles features = .ok () ∧ Acyclic (Implies features)) ∨
    (∃ names, checkCycles features = .error (.impliesCycle names) ∧
      Cycle (Implies features) names) := by
  have hsearch := DepthFirst.search_exact (implied_nodes hsorted) (enough features)
    enough_turns
  rw [checkCycles_within, cyclesWithin_search (found_of_declared hsorted hdeclared)]
  cases hsearch with
  | inl hcycle =>
    obtain ⟨cycle, hresult, hcycle⟩ := hcycle
    right
    rw [hresult]
    exact ⟨_, rfl, cycle_names hsorted hcycle⟩
  | inr hdone =>
    obtain ⟨marks, hresult, hacyclic⟩ := hdone
    left
    rw [hresult]
    exact ⟨rfl, (acyclic_places hsorted hdeclared).mp hacyclic⟩

theorem cyclesWithin_settled
    (hdeclared : ∀ f ∈ features, ∀ r ∈ relations f, ∃ g ∈ features, g.name = r.2) (fuel : ℕ)
    (hfuel : enough features ≤ fuel) : cyclesWithin features fuel = checkCycles features := by
  have hknown := found_of_declared hsorted hdeclared
  rw [checkCycles_within, cyclesWithin_search hknown, cyclesWithin_search hknown]
  rw [DepthFirst.search_settled (implied_nodes hsorted) (enough features) fuel enough_turns hfuel
    (List.range features.length) (fun _ hx => hx) _ DepthFirst.walking_new]

theorem closure_reaches {i : ℕ} (hi : i < features.length) (j : ℕ) :
    j ∈ closure features i ↔ Relation.TransGen (fun x y => y ∈ implied features x) i j := by
  have hclosed := closure_closed hsorted hi
  constructor
  · intro hj
    apply Worklist.run_least Worklist.pushFront_pushes
      (S := {j | Relation.TransGen (fun x y => y ∈ implied features x) i j}) _
      (features.length + 1) ⟨[], [i]⟩ _ _ j (mem_closure.mp hj).2
    · intro x hx y hy
      exact Relation.TransGen.tail hx hy
    · simp
    · intro x hx y hy
      rw [List.mem_singleton.mp hx] at hy
      exact Relation.TransGen.single hy
  · intro hway
    induction hway with
    | single hstep => exact hclosed.1 _ hstep
    | tail _ hstep ih => exact hclosed.2 _ ih _ hstep

end Graph

theorem relationError_none (features : List Feature) (f : Feature) :
    relationError features f = none ↔
      (∀ r ∈ relations f, r.2 ≠ f.name ∧ findFeature features r.2 ≠ none) ∧
      ((text "HAL_DISABLE_").isPrefixOf f.name = true → f.derived = false ∧
        f.featureSources = [] ∧ f.portableSources = [] ∧ f.dependencies = []) := by
  unfold relationError
  rw [Option.or_eq_none_iff, List.findSome?_eq_none_iff]
  apply and_congr
  · apply forall₂_congr
    rintro ⟨field, target⟩ _
    by_cases hself : target = f.name
    · simp [hself]
    · by_cases hunknown : findFeature features target = none
      · simp [hself, hunknown]
      · simp [hself, hunknown]
  · by_cases hdisable : (text "HAL_DISABLE_").isPrefixOf f.name = true
    · rw [if_pos hdisable]
      cases hderived : f.derived with
      | true => simp [hdisable]
      | false =>
        by_cases hinputs : f.featureSources ≠ [] ∨ f.portableSources ≠ [] ∨ f.dependencies ≠ []
        · have hnot : ¬(f.featureSources = [] ∧ f.portableSources = [] ∧ f.dependencies = []) := by
            tauto
          simp [hinputs, hdisable, hnot]
        · have hall : f.featureSources = [] ∧ f.portableSources = [] ∧ f.dependencies = [] := by
            tauto
          simp [hall]
    · rw [if_neg hdisable]
      simp [hdisable]

theorem conflictError_none (features : List Feature) (index : ℕ) (f : Feature) :
    conflictError features index f = none ↔
      (∀ target ∈ f.conflicts, f.name ∈ conflictsOf features target) ∧
      ∀ a < features.length, (a = index ∨ a ∈ closure features index) →
      ∀ b < features.length, (b = index ∨ b ∈ closure features index) →
        nameOf features b ∉ conflictsAt features a := by
  unfold conflictError
  rw [Option.or_eq_none_iff, List.findSome?_eq_none_iff]
  simp only [List.findSome?_eq_none_iff, List.mem_filter, List.mem_range, decide_eq_true_eq,
    ite_eq_left_iff, ite_eq_right_iff, reduceCtorEq, imp_false, not_not, and_imp]

section Acceptance

variable {features : List Feature} (hsorted : (features.map Feature.name).Pairwise (· < ·))
include hsorted

theorem found_iff (name : Text) :
    findFeature features name ≠ none ↔ ∃ g ∈ features, g.name = name := by
  rw [Option.ne_none_iff_exists']
  constructor
  · rintro ⟨i, hi⟩
    obtain ⟨g, hg, hname⟩ := (findFeature_iff hsorted name i).mp hi
    exact ⟨g, List.mem_of_getElem? hg, hname⟩
  · rintro ⟨g, hg, hname⟩
    obtain ⟨i, hi⟩ := List.mem_iff_getElem?.mp hg
    exact ⟨i, (findFeature_iff hsorted name i).mpr ⟨g, hi, hname⟩⟩

theorem checkRelations_iff :
    checkRelations features = none ↔
      (∀ f ∈ features, ∀ r ∈ relations f, r.2 ≠ f.name ∧ ∃ g ∈ features, g.name = r.2) ∧
      (∀ f ∈ features, (text "HAL_DISABLE_").isPrefixOf f.name = true →
        f.derived = false ∧ f.featureSources = [] ∧ f.portableSources = [] ∧
          f.dependencies = []) := by
  unfold checkRelations
  rw [List.findSome?_eq_none_iff]
  simp only [relationError_none, found_iff hsorted]
  constructor
  · intro h
    exact ⟨fun f hf => (h f hf).1, fun f hf => (h f hf).2⟩
  · intro h f hf
    exact ⟨h.1 f hf, h.2 f hf⟩

/-- A symbol with its closure is what the symbol reaches. -/
theorem active_reaches
    (hdeclared : ∀ f ∈ features, ∀ r ∈ relations f, ∃ g ∈ features, g.name = r.2)
    {i j : ℕ} {f g : Feature} (hi : features[i]? = some f) (hj : features[j]? = some g) :
    j = i ∨ j ∈ closure features i ↔
      Relation.ReflTransGen (Implies features) f.name g.name := by
  have hbound := (List.getElem?_eq_some_iff.mp hi).1
  rw [closure_reaches hsorted hbound, Relation.reflTransGen_iff_eq_or_transGen]
  constructor
  · intro h
    cases h with
    | inl hsame =>
      left
      rw [hsame, hi, Option.some.injEq] at hj
      rw [hj]
    | inr hway =>
      right
      have hnames := hway.lift (nameOf features) fun _ _ hstep => implied_implies hsorted hstep
      simpa [Function.onFun, nameOf, hi, hj] using hnames
  · intro h
    cases h with
    | inl hsame =>
      left
      have hfound := findFeature_at hsorted hj
      rw [hsame, findFeature_at hsorted hi] at hfound
      exact (Option.some.inj hfound).symm
    | inr hway =>
      right
      obtain ⟨k, l, f', g', hk, hf', hl, hg', hplaces⟩ := implies_places hsorted hdeclared hway
      have hfirst := findFeature_at hsorted hk
      rw [hf', findFeature_at hsorted hi, Option.some.injEq] at hfirst
      have hlast := findFeature_at hsorted hl
      rw [hg', findFeature_at hsorted hj, Option.some.injEq] at hlast
      rw [hfirst, hlast]
      exact hplaces

theorem conflictsOf_at {i : ℕ} {f : Feature} (hi : features[i]? = some f) :
    conflictsOf features f.name = f.conflicts := by
  simp [conflictsOf, findFeature_at hsorted hi, conflictsAt, hi]

theorem checkConflicts_iff
    (hdeclared : ∀ f ∈ features, ∀ r ∈ relations f, ∃ g ∈ features, g.name = r.2) :
    checkConflicts features = none ↔
      (∀ f ∈ features, ∀ g ∈ features, g.name ∈ f.conflicts → f.name ∈ g.conflicts) ∧
      (∀ f ∈ features, ∀ a ∈ features, ∀ b ∈ features,
        Relation.ReflTransGen (Implies features) f.name a.name →
        Relation.ReflTransGen (Implies features) f.name b.name → b.name ∉ a.conflicts) := by
  have hindexed : checkConflicts features = none ↔
      ∀ i f, features[i]? = some f → conflictError features i f = none := by
    unfold checkConflicts
    rw [List.findSome?_eq_none_iff]
    constructor
    · intro h i f hi
      exact h (f, i) (List.mem_zipIdx_iff_getElem?.mpr hi)
    · rintro h ⟨f, i⟩ hin
      exact h i f (List.mem_zipIdx_iff_getElem?.mp hin)
  rw [hindexed]
  simp only [conflictError_none]
  constructor
  · intro h
    constructor
    · intro f hf g hg hconflict
      obtain ⟨i, hi⟩ := List.mem_iff_getElem?.mp hf
      obtain ⟨j, hj⟩ := List.mem_iff_getElem?.mp hg
      rw [← conflictsOf_at hsorted hj]
      exact (h i f hi).1 g.name hconflict
    · intro f hf a ha b hb hfa hfb
      obtain ⟨i, hi⟩ := List.mem_iff_getElem?.mp hf
      obtain ⟨j, hj⟩ := List.mem_iff_getElem?.mp ha
      obtain ⟨k, hk⟩ := List.mem_iff_getElem?.mp hb
      have hpair := (h i f hi).2 j (List.getElem?_eq_some_iff.mp hj).1
        ((active_reaches hsorted hdeclared hi hj).mpr hfa) k (List.getElem?_eq_some_iff.mp hk).1
        ((active_reaches hsorted hdeclared hi hk).mpr hfb)
      simpa [nameOf, conflictsAt, hj, hk] using hpair
  · rintro ⟨hsymmetric, hcompatible⟩ i f hi
    have hf := List.mem_of_getElem? hi
    constructor
    · intro target htarget
      obtain ⟨g, hg, hname⟩ := hdeclared f hf (.conflicts, target) (by simp [relations, htarget])
      have hname : g.name = target := hname
      obtain ⟨j, hj⟩ := List.mem_iff_getElem?.mp hg
      rw [← hname, conflictsOf_at hsorted hj]
      exact hsymmetric f hf g hg (hname ▸ htarget)
    · intro a ha hactive b hb hother
      have hfa : features[a]? = some features[a] := List.getElem?_eq_getElem ha
      have hfb : features[b]? = some features[b] := List.getElem?_eq_getElem hb
      have hpair := hcompatible f hf features[a] (List.getElem_mem ha) features[b]
        (List.getElem_mem hb) ((active_reaches hsorted hdeclared hi hfa).mp hactive)
        ((active_reaches hsorted hdeclared hi hfb).mp hother)
      simpa [nameOf, conflictsAt, hfa, hfb] using hpair

/-- The checks pass exactly on an acceptable registry. -/
theorem checks_accept : checks features = .ok () ↔ Acceptable features := by
  constructor
  · intro h
    obtain ⟨_, hrelations, h⟩ := bind_ok h
    obtain ⟨_, hcycles, hconflicts⟩ := bind_ok h
    obtain ⟨hdeclared, hdisabled⟩ := (checkRelations_iff hsorted).mp (reject_ok hrelations)
    have hknown := fun f hf r hr => (hdeclared f hf r hr).2
    obtain ⟨hsymmetric, hcompatible⟩ :=
      (checkConflicts_iff hsorted hknown).mp (reject_ok hconflicts)
    constructor
    · exact hdeclared
    · cases checkCycles_exact hsorted hknown with
      | inl hdone => exact hdone.2
      | inr hcycle =>
        obtain ⟨names, herror, _⟩ := hcycle
        rw [hcycles] at herror
        cases herror
    · exact hsymmetric
    · exact hcompatible
    · exact hdisabled
  · intro h
    have hknown := fun f hf r hr => (h.declared f hf r hr).2
    have hrelations := (checkRelations_iff hsorted).mpr ⟨h.declared, h.disabled⟩
    have hconflicts := (checkConflicts_iff hsorted hknown).mpr ⟨h.symmetric, h.compatible⟩
    have hcycles : checkCycles features = .ok () := by
      cases checkCycles_exact hsorted hknown with
      | inl hdone => exact hdone.1
      | inr hcycle =>
        obtain ⟨names, _, hcycle⟩ := hcycle
        exact absurd h.acyclic (DepthFirst.cycle_not_acyclic hcycle)
    unfold checks
    rw [hrelations, hcycles, hconflicts]
    rfl

omit hsorted in
theorem relationError_other {f : Feature} {names : List Text} :
    relationError features f ≠ some (.impliesCycle names) := by
  intro h
  unfold relationError at h
  rw [Option.or_eq_some_iff] at h
  cases h with
  | inl hrelation =>
    obtain ⟨r, _, hr⟩ := List.exists_of_findSome?_eq_some hrelation
    obtain ⟨field, target⟩ := r
    simp only at hr
    split_ifs at hr <;> cases hr
  | inr hkind =>
    have hkind := hkind.2
    split_ifs at hkind <;> cases hkind

omit hsorted in
theorem conflictError_other {index : ℕ} {f : Feature} {names : List Text} :
    conflictError features index f ≠ some (.impliesCycle names) := by
  intro h
  unfold conflictError at h
  rw [Option.or_eq_some_iff] at h
  cases h with
  | inl hsymmetric =>
    obtain ⟨target, _, ht⟩ := List.exists_of_findSome?_eq_some hsymmetric
    split_ifs at ht
    cases ht
  | inr hactive =>
    obtain ⟨a, _, ha⟩ := List.exists_of_findSome?_eq_some hactive.2
    obtain ⟨b, _, hb⟩ := List.exists_of_findSome?_eq_some ha
    split_ifs at hb
    cases hb

theorem checks_cycle {names : List Text} (h : checks features = .error (.impliesCycle names)) :
    Cycle (Implies features) names := by
  unfold checks at h
  cases hrelations : checkRelations features with
  | some error =>
    rw [hrelations] at h
    have hsame : error = .impliesCycle names := Except.error.inj h
    obtain ⟨f, _, hf⟩ := List.exists_of_findSome?_eq_some hrelations
    rw [hsame] at hf
    exact absurd hf relationError_other
  | none =>
    rw [hrelations] at h
    have hknown := fun f hf r hr => (((checkRelations_iff hsorted).mp hrelations).1 f hf r hr).2
    cases checkCycles_exact hsorted hknown with
    | inl hdone =>
      rw [hdone.1] at h
      cases hconflicts : checkConflicts features with
      | none =>
        rw [hconflicts] at h
        cases h
      | some error =>
        rw [hconflicts] at h
        have hsame : error = .impliesCycle names := Except.error.inj h
        obtain ⟨e, _, he⟩ := List.exists_of_findSome?_eq_some hconflicts
        rw [hsame] at he
        exact absurd he conflictError_other
    | inr hcycle =>
      obtain ⟨found, herror, hcycle⟩ := hcycle
      rw [herror] at h
      have hsame : LoadError.impliesCycle found = .impliesCycle names := Except.error.inj h
      rw [← LoadError.impliesCycle.inj hsame]
      exact hcycle

end Acceptance

/-- The loader answers what the checks answer on the sorted list of all symbols. -/
theorem load_checks {managed : List Text} {registryDigest : List Feature → Text}
    {schemaDigest : Text} {fragments : List Fragment} {read features : List Feature}
    (hsome : fragments ≠ []) (hread : readFragments managed [] 0 fragments = .ok read)
    (hsort : (read.insertionSort fun a b => a.name ≤ b.name) = features) :
    load managed registryDigest schemaDigest fragments = (checks features).map fun _ =>
      ⟨features, fragments.map Fragment.path, registryDigest features, schemaDigest⟩ := by
  unfold load checks
  rw [if_neg hsome, hread]
  simp only [reject, bind, Except.bind, hsort]
  cases hrelations : checkRelations features with
  | some error => rfl
  | none =>
    cases hcycles : checkCycles features with
    | error error => rfl
    | ok done =>
      cases hconflicts : checkConflicts features with
      | some error => rfl
      | none => rfl

/-- For every sorted list of features the checks end, and they pass exactly on
an acceptable registry. A cycle that is named is a cycle. -/
theorem checks_exact (features : List Feature)
    (hsorted : (features.map Feature.name).Pairwise (· < ·)) :
    (checks features = .ok () ↔ Acceptable features) ∧
    (∀ names, checks features = .error (.impliesCycle names) → Cycle (Implies features) names) ∧
    (checkRelations features = none → ∀ fuel, enough features ≤ fuel →
      cyclesWithin features fuel = checkCycles features) ∧
    ∀ managed registryDigest schemaDigest fragments read, fragments ≠ [] →
      readFragments managed [] 0 fragments = .ok read →
      (read.insertionSort fun a b => a.name ≤ b.name) = features →
        load managed registryDigest schemaDigest fragments = (checks features).map fun _ =>
          ⟨features, fragments.map Fragment.path, registryDigest features, schemaDigest⟩ := by
  constructor
  · exact checks_accept hsorted
  constructor
  · intro names h
    exact checks_cycle hsorted h
  constructor
  · intro hrelations fuel hfuel
    apply cyclesWithin_settled hsorted _ fuel hfuel
    intro f hf r hr
    exact (((checkRelations_iff hsorted).mp hrelations).1 f hf r hr).2
  · intro managed registryDigest schemaDigest fragments read hsome hread hsort
    exact load_checks hsome hread hsort

def symbol (name : String) (implies : List String) : Feature :=
  ⟨text name, text "hal", none, false, implies.map text, [], [], [], [], [], 0⟩

def circular : List Feature :=
  [symbol "HAL_ENABLE_A" ["HAL_ENABLE_B"], symbol "HAL_ENABLE_B" ["HAL_ENABLE_C"],
    symbol "HAL_ENABLE_C" ["HAL_ENABLE_B"]]

theorem circular_named :
    checks circular = .error (.impliesCycle
      [text "HAL_ENABLE_B", text "HAL_ENABLE_C", text "HAL_ENABLE_B"]) ∧
    Cycle (Implies circular)
      [text "HAL_ENABLE_B", text "HAL_ENABLE_C", text "HAL_ENABLE_B"] := by
  have hnamed : checks circular = .error (.impliesCycle
      [text "HAL_ENABLE_B", text "HAL_ENABLE_C", text "HAL_ENABLE_B"]) := by
    decide +kernel
  exact ⟨hnamed, (checks_exact circular (by decide +kernel)).2.1 _ hnamed⟩

end JaszczurHal.FeatureAcceptance
