import JaszczurHal.FeatureRegistry

/-!
# What a loaded registry provides

Its names are sorted, every relation names a symbol of the registry, and
conflicts are symmetric. The closure of a symbol is then the least closed set
that holds its implications.
-/

set_option autoImplicit false

namespace JaszczurHal.FeatureRegistry
open Worklist (Closed closureOf)

/-- The search finds the place of a name in sorted names. -/
theorem search_some {names : List Text} {name : Text} {fuel low high i : ℕ}
    (h : search names name fuel low high = some i) : names[i]? = some name := by
  induction fuel generalizing low high with
  | zero => cases h
  | succ fuel ih =>
    simp only [search] at h
    split at h
    · split at h
      · cases h
      · rename_i found hfound
        split_ifs at h with hsame hless
        · rw [Option.some.injEq] at h
          rw [← h, hfound, hsame]
        · exact ih h
        · exact ih h
    · cases h

theorem search_exact {names : List Text} {name : Text} {i : ℕ} (hsorted : names.Pairwise (· < ·))
    (hi : names[i]? = some name) (fuel low high : ℕ) (hlow : low ≤ i) (hhigh : i < high)
    (hlength : high ≤ names.length) (hfuel : high - low < fuel) :
    search names name fuel low high = some i := by
  induction fuel generalizing low high with
  | zero => omega
  | succ fuel ih =>
    have hmiddle : low + (high - low) / 2 < names.length := by omega
    obtain ⟨hbound, hname⟩ := List.getElem?_eq_some_iff.mp hi
    simp only [search, if_pos (show low < high by omega), List.getElem?_eq_getElem hmiddle]
    by_cases hsame : low + (high - low) / 2 = i
    · simp [hsame, hname]
    · by_cases hbelow : low + (high - low) / 2 < i
      · have hless := List.pairwise_iff_getElem.mp hsorted _ _ hmiddle hbound hbelow
        rw [hname] at hless
        rw [if_neg hless.ne, if_pos hless]
        exact ih _ _ (by omega) hhigh hlength (by omega)
      · have habove : i < low + (high - low) / 2 := by omega
        have hless := List.pairwise_iff_getElem.mp hsorted _ _ hbound hmiddle habove
        rw [hname] at hless
        rw [if_neg hless.ne', if_neg hless.not_gt]
        exact ih _ _ hlow habove (by omega) (by omega)

structure Checked (features : List Feature) : Prop where
  sorted : (features.map Feature.name).Pairwise (· < ·)
  symbols : ∀ f ∈ features, featureSymbol f.name = true
  others : ∀ f ∈ features, ∀ r ∈ relations f, r.2 ≠ f.name
  known : ∀ f ∈ features, ∀ r ∈ relations f, ∃ g ∈ features, g.name = r.2
  symmetric : ∀ f ∈ features, ∀ g ∈ features, g.name ∈ f.conflicts → f.name ∈ g.conflicts

section Checked

variable {features : List Feature}

theorem findFeature_iff (hsorted : (features.map Feature.name).Pairwise (· < ·)) (name : Text)
    (i : ℕ) :
    findFeature features name = some i ↔ ∃ f, features[i]? = some f ∧ f.name = name := by
  have hplace : (features.map Feature.name)[i]? = some name ↔
      ∃ f, features[i]? = some f ∧ f.name = name := by
    rw [List.getElem?_map]
    exact Option.map_eq_some_iff
  rw [← hplace]
  constructor
  · exact search_some
  · intro hi
    have hbound := (List.getElem?_eq_some_iff.mp hi).1
    apply search_exact hsorted hi
    · omega
    · simpa using hbound
    · simp
    · omega

theorem findFeature_at (hsorted : (features.map Feature.name).Pairwise (· < ·)) {i : ℕ}
    {f : Feature} (hi : features[i]? = some f) : findFeature features f.name = some i :=
  (findFeature_iff hsorted f.name i).mpr ⟨f, hi, rfl⟩

theorem feature_unique (hsorted : (features.map Feature.name).Pairwise (· < ·)) {f g : Feature}
    (hf : f ∈ features) (hg : g ∈ features) (hname : f.name = g.name) : f = g := by
  obtain ⟨i, hi⟩ := List.mem_iff_getElem?.mp hf
  obtain ⟨j, hj⟩ := List.mem_iff_getElem?.mp hg
  have hfound := findFeature_at hsorted hi
  rw [hname, findFeature_at hsorted hj, Option.some.injEq] at hfound
  rw [hfound, hi, Option.some.injEq] at hj
  exact hj

end Checked

def impliesOfName (features : List Feature) (name : Text) : List Text :=
  ((features.find? fun f => decide (f.name = name)).map Feature.implies).getD []

theorem impliesOfName_feature {features : List Feature} (h : Checked features) {f : Feature}
    (hf : f ∈ features) : impliesOfName features f.name = f.implies := by
  unfold impliesOfName
  cases hfound : features.find? fun g => decide (g.name = f.name) with
  | none =>
    have hnone := List.find?_eq_none.mp hfound f hf
    simp at hnone
  | some g =>
    have hname : g.name = f.name := by simpa using List.find?_some hfound
    have hsame := feature_unique h.sorted (List.mem_of_find?_eq_some hfound) hf hname
    simp [hsame]

theorem implies_known {features : List Feature} (h : Checked features) {f : Feature}
    (hf : f ∈ features) {target : Text} (ht : target ∈ f.implies) :
    ∃ i g, findFeature features target = some i ∧ features[i]? = some g ∧ g.name = target := by
  obtain ⟨g, hg, hname⟩ := h.known f hf (.implies, target) (by simp [relations, ht])
  obtain ⟨i, hi⟩ := List.mem_iff_getElem?.mp hg
  have hname : g.name = target := hname
  exact ⟨i, g, hname ▸ findFeature_at h.sorted hi, hi, hname⟩

theorem mem_implied {features : List Feature}
    (hsorted : (features.map Feature.name).Pairwise (· < ·)) {i : ℕ} {f : Feature}
    (hi : features[i]? = some f) (j : ℕ) :
    j ∈ implied features i ↔ ∃ g, features[j]? = some g ∧ g.name ∈ f.implies := by
  simp only [implied, impliesOf, hi, Option.map_some, Option.getD_some, List.mem_filterMap]
  constructor
  · rintro ⟨target, htarget, hfound⟩
    obtain ⟨g, hg, hname⟩ := (findFeature_iff hsorted target j).mp hfound
    exact ⟨g, hg, hname ▸ htarget⟩
  · rintro ⟨g, hg, hname⟩
    exact ⟨g.name, hname, findFeature_at hsorted hg⟩

theorem implied_range {features : List Feature}
    (hsorted : (features.map Feature.name).Pairwise (· < ·)) :
    ∀ i ∈ List.range features.length, ∀ j ∈ implied features i, j ∈ List.range features.length := by
  intro i hi j hj
  have hbound := List.mem_range.mp hi
  obtain ⟨g, hg, _⟩ := (mem_implied hsorted (List.getElem?_eq_getElem hbound) j).mp hj
  exact List.mem_range.mpr (List.getElem?_eq_some_iff.mp hg).1

def places (features : List Feature) (S : Set Text) : Set ℕ :=
  {j | ∃ g : Feature, features[j]? = some g ∧ g.name ∈ S}

theorem places_closed {features : List Feature} (h : Checked features) {S : Set Text}
    (hclosed : Closed (impliesOfName features) S) : Closed (implied features) (places features S) := by
  rintro j ⟨g, hg, hname⟩ k hk
  obtain ⟨target, htarget, himplied⟩ := (mem_implied h.sorted hg k).mp hk
  have hstep := hclosed g.name hname target.name
  rw [impliesOfName_feature h (List.mem_of_getElem? hg)] at hstep
  exact ⟨target, htarget, hstep himplied⟩

theorem mem_closure {features : List Feature} {i j : ℕ} :
    j ∈ closure features i ↔ j < features.length ∧
      j ∈ Worklist.run Worklist.pushFront (implied features) (features.length + 1) ⟨[], [i]⟩ := by
  simp [closure]

theorem closure_least {features : List Feature} (h : Checked features) {i : ℕ} {f : Feature}
    (hi : features[i]? = some f) {S : Set Text} (hdirect : ∀ y ∈ f.implies, y ∈ S)
    (hclosed : Closed (impliesOfName features) S) :
    ∀ j ∈ closure features i, j ∈ places features S := by
  intro j hj
  apply Worklist.run_least Worklist.pushFront_pushes (places_closed h hclosed)
    (features.length + 1) ⟨[], [i]⟩ _ _ j (mem_closure.mp hj).2
  · simp
  · intro k hk l hl
    rw [List.mem_singleton.mp hk] at hl
    obtain ⟨target, htarget, himplied⟩ := (mem_implied h.sorted hi l).mp hl
    exact ⟨target, htarget, hdirect _ himplied⟩

/-- The closure holds the direct implications and is closed. -/
theorem closure_closed {features : List Feature}
    (hsorted : (features.map Feature.name).Pairwise (· < ·)) {i : ℕ} (hi : i < features.length) :
    (∀ j ∈ implied features i, j ∈ closure features i) ∧
      Closed (implied features) {j | j ∈ closure features i} := by
  have hstart : Worklist.Expanding (implied features) (List.range features.length) ⟨[], [i]⟩ := by
    constructor
    · exact List.nodup_nil
    · simp
    · simpa using hi
    · simp
  have hrun := Worklist.run_closed Worklist.pushFront_pushes (implied_range hsorted)
    (features.length + 1) ⟨[], [i]⟩ hstart (by simp; omega)
  have hrange : ∀ j < features.length, ∀ k ∈ implied features j, k < features.length := by
    intro j hj k hk
    exact List.mem_range.mp (implied_range hsorted j (List.mem_range.mpr hj) k hk)
  constructor
  · intro j hj
    exact mem_closure.mpr ⟨hrange i hi j hj, hrun.2.1 i (by simp) j hj⟩
  · intro j hj k hk
    obtain ⟨hlength, hseen⟩ := mem_closure.mp hj
    exact mem_closure.mpr ⟨hrange j hlength k hk, hrun.2.2 j hseen k hk⟩

theorem reject_ok {error : Option LoadError} (h : reject error = .ok ()) : error = none := by
  cases error with
  | none => rfl
  | some error => cases h

theorem bind_ok {α β : Type} {x : Except LoadError α} {f : α → Except LoadError β} {b : β}
    (h : x >>= f = .ok b) : ∃ a, x = .ok a ∧ f a = .ok b := by
  cases x with
  | error e => cases h
  | ok a => exact ⟨a, rfl, h⟩

theorem readSymbol_ok {managed : List Text} {path domain : Text} {owner : ℕ} {name : Text}
    {record : SymbolRecord} {f : Feature}
    (h : readSymbol managed path domain owner name record = .ok f) :
    f.name = name ∧ featureSymbol name = true := by
  unfold readSymbol at h
  obtain ⟨_, hsymbol, h⟩ := bind_ok h
  obtain ⟨_, _, h⟩ := bind_ok h
  obtain ⟨_, _, h⟩ := bind_ok h
  obtain ⟨_, _, h⟩ := bind_ok h
  obtain ⟨_, _, h⟩ := bind_ok h
  obtain ⟨_, _, h⟩ := bind_ok h
  obtain ⟨_, _, h⟩ := bind_ok h
  obtain ⟨_, _, h⟩ := bind_ok h
  obtain ⟨_, _, h⟩ := bind_ok h
  simp only [pure, Except.pure, Except.ok.injEq] at h
  constructor
  · rw [← h]
  · by_contra hnot
    rw [if_neg hnot] at hsymbol
    cases reject_ok hsymbol

theorem mapM_names {managed : List Text} {path domain : Text} {owner : ℕ}
    {symbols : List (Text × SymbolRecord)} {features : List Feature}
    (h : (symbols.mapM fun symbol => readSymbol managed path domain owner symbol.1 symbol.2) =
      .ok features) :
    features.map Feature.name = symbols.map Prod.fst ∧
      ∀ f ∈ features, featureSymbol f.name = true := by
  induction symbols generalizing features with
  | nil =>
    rw [List.mapM_nil] at h
    cases h
    simp
  | cons symbol symbols ih =>
    rw [List.mapM_cons] at h
    obtain ⟨f, hf, h⟩ := bind_ok h
    obtain ⟨rest, hrest, h⟩ := bind_ok h
    simp only [pure, Except.pure, Except.ok.injEq] at h
    obtain ⟨hname, hsymbol⟩ := readSymbol_ok hf
    obtain ⟨hnames, hsymbols⟩ := ih hrest
    rw [← h]
    constructor
    · simp [hname, hnames]
    · intro g hg
      cases List.mem_cons.mp hg with
      | inl hfirst => rw [hfirst, hname, hsymbol]
      | inr hlater => exact hsymbols g hlater

theorem duplicateSymbol_none {path : Text} {earlier read : List Feature}
    (h : duplicateSymbol path earlier read = none) :
    ∀ f ∈ read, ∀ g ∈ earlier, g.name ≠ f.name := by
  intro f hf g hg
  have hnone := List.findSome?_eq_none_iff.mp h f hf
  rw [Option.map_eq_none_iff] at hnone
  simpa using List.find?_eq_none.mp hnone g hg

theorem readFragments_names {managed : List Text} {earlier features : List Feature} {owner : ℕ}
    {fragments : List Fragment} (h : readFragments managed earlier owner fragments = .ok features)
    (hdistinct : (earlier.map Feature.name).Nodup)
    (hsymbols : ∀ f ∈ earlier, featureSymbol f.name = true) :
    (features.map Feature.name).Nodup ∧ ∀ f ∈ features, featureSymbol f.name = true := by
  induction fragments generalizing earlier owner with
  | nil =>
    simp only [readFragments, Except.ok.injEq] at h
    rw [← h]
    exact ⟨hdistinct, hsymbols⟩
  | cons fragment fragments ih =>
    simp only [readFragments] at h
    obtain ⟨read, hread, h⟩ := bind_ok h
    obtain ⟨_, hreject, h⟩ := bind_ok h
    obtain ⟨hnames, hread⟩ := mapM_names hread
    have hnew := duplicateSymbol_none (reject_ok hreject)
    apply ih h
    · rw [List.map_append]
      apply hdistinct.append
      · rw [hnames]
        exact fragment.distinct
      · intro name hearlier hlater
        obtain ⟨g, hg, hgname⟩ := List.mem_map.mp hearlier
        obtain ⟨f, hf, hfname⟩ := List.mem_map.mp hlater
        exact hnew f hf g hg (hgname.trans hfname.symm)
    · intro f hf
      cases List.mem_append.mp hf with
      | inl hold => exact hsymbols f hold
      | inr hlater => exact hread f hlater

theorem sorted_names {features : List Feature} (h : (features.map Feature.name).Nodup) :
    ((features.insertionSort fun a b => a.name ≤ b.name).map Feature.name).Pairwise (· < ·) := by
  have : Std.Total fun a b : Feature => a.name ≤ b.name := ⟨fun a b => le_total a.name b.name⟩
  have : IsTrans Feature fun a b => a.name ≤ b.name := ⟨fun _ _ _ => le_trans⟩
  have hle := List.pairwise_insertionSort (fun a b : Feature => a.name ≤ b.name) features
  have hperm := List.perm_insertionSort (fun a b : Feature => a.name ≤ b.name) features
  have hne : ((features.insertionSort fun a b => a.name ≤ b.name).map Feature.name).Nodup :=
    (hperm.map Feature.name).nodup_iff.mpr h
  have hle' := List.pairwise_map.mpr hle
  exact (hle'.and hne).imp fun h => lt_of_le_of_ne h.1 h.2

theorem checkRelations_none {features : List Feature} (h : checkRelations features = none) :
    ∀ f ∈ features, ∀ r ∈ relations f, r.2 ≠ f.name ∧ findFeature features r.2 ≠ none := by
  intro f hf r hr
  have hfeature := List.findSome?_eq_none_iff.mp h f hf
  have hrelations := (Option.or_eq_none_iff.mp hfeature).1
  have hone := List.findSome?_eq_none_iff.mp hrelations r hr
  obtain ⟨field, target⟩ := r
  simp only at hone
  split_ifs at hone with hself hunknown
  exact ⟨hself, hunknown⟩

theorem checkConflicts_none {features : List Feature} (h : checkConflicts features = none) :
    ∀ f ∈ features, ∀ target ∈ f.conflicts, f.name ∈ conflictsOf features target := by
  intro f hf target htarget
  obtain ⟨i, hi⟩ := List.mem_iff_getElem?.mp hf
  have hindexed : (f, i) ∈ features.zipIdx := List.mem_zipIdx_iff_getElem?.mpr hi
  have hfeature := List.findSome?_eq_none_iff.mp h (f, i) hindexed
  have hsymmetric := List.findSome?_eq_none_iff.mp (Option.or_eq_none_iff.mp hfeature).1 target htarget
  by_contra hnot
  rw [if_neg hnot] at hsymmetric
  cases hsymmetric

theorem load_checked {managed : List Text} {registryDigest : List Feature → Text}
    {schemaDigest : Text} {fragments : List Fragment} {registry : Registry}
    (h : load managed registryDigest schemaDigest fragments = .ok registry) :
    Checked registry.features := by
  unfold load at h
  obtain ⟨_, _, h⟩ := bind_ok h
  obtain ⟨read, hread, h⟩ := bind_ok h
  obtain ⟨_, hrelations, h⟩ := bind_ok h
  obtain ⟨_, _, h⟩ := bind_ok h
  obtain ⟨_, hconflicts, h⟩ := bind_ok h
  simp only [pure, Except.pure, Except.ok.injEq] at h
  rw [← h]
  obtain ⟨hdistinct, hsymbols⟩ := readFragments_names hread (by simp) (by simp)
  have hsorted := sorted_names hdistinct
  have hknown := checkRelations_none (reject_ok hrelations)
  have hsymmetric := checkConflicts_none (reject_ok hconflicts)
  constructor
  · exact hsorted
  · intro f hf
    apply hsymbols f
    simpa using hf
  · intro f hf r hr
    exact (hknown f hf r hr).1
  · intro f hf r hr
    obtain ⟨i, hi⟩ := Option.ne_none_iff_exists'.mp (hknown f hf r hr).2
    obtain ⟨g, hg, hname⟩ := (findFeature_iff hsorted r.2 i).mp hi
    exact ⟨g, List.mem_of_getElem? hg, hname⟩
  · intro f hf g hg hconflict
    have hdeclared := hsymmetric f hf g.name hconflict
    obtain ⟨j, hj⟩ := List.mem_iff_getElem?.mp hg
    simpa [conflictsOf, findFeature_at hsorted hj, conflictsAt, hj] using hdeclared

end JaszczurHal.FeatureRegistry
