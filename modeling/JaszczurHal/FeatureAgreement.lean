import JaszczurHal.FeatureHeader

/-!
# The generated CMake functions

A variable of one symbol can have the name of a variable of another one. The
later symbol sets it last, and only later symbols collide with a variable that
the resolution reads.
-/

set_option autoImplicit false

namespace JaszczurHal.FeatureRegistry
open Worklist (Closed closureOf)

theorem cmakeVariable_last {first rest : List (Text × List Text)} {name : Text}
    {values : List Text} (hrest : ∀ set ∈ rest, set.1 ≠ name) :
    cmakeVariable (first ++ (name, values) :: rest) name = values := by
  have hnone : rest.reverse.find? (fun set => decide (set.1 = name)) = none := by
    apply List.find?_eq_none.mpr
    intro set hset
    simpa using hrest set (List.mem_reverse.mp hset)
  simp [cmakeVariable, List.find?_append, hnone]

def suffixes : List String :=
  ["_DOMAIN", "_KIND", "_IMPLIES", "_TRANSITIVE_IMPLIES", "_REQUIRES", "_CONFLICTS",
    "_BUILD_EFFECT_FEATURE_SOURCES", "_BUILD_EFFECT_PORTABLE_SOURCES", "_BUILD_EFFECT_DEPENDENCIES"]

theorem featureValues_suffixes (features : List Feature) (i : ℕ) (f : Feature) :
    ((featureValues features i f).map Prod.fst).Sublist suffixes := by
  unfold featureValues effectValues
  split_ifs <;> exact List.isSublist_iff_sublist.mp rfl

theorem featureSets_names {features : List Feature} {i : ℕ} {f : Feature} {set : Text × List Text}
    (hset : set ∈ featureSets features i f) :
    ∃ suffix ∈ suffixes, set.1 = featureVariable f.name suffix := by
  obtain ⟨value, hvalue, hsame⟩ := List.mem_map.mp hset
  have hsuffix := (featureValues_suffixes features i f).subset (List.mem_map_of_mem hvalue)
  exact ⟨value.1, hsuffix, by rw [← hsame]⟩

/-- Two variables have one name only for one symbol and suffix, or where the name
of the symbol that is read ends in `_TRANSITIVE`. -/
theorem suffix_collision {x y : Text} {suffix other : String}
    (hsuffix : suffix ∈ ["_IMPLIES", "_REQUIRES", "_CONFLICTS"]) (hother : other ∈ suffixes)
    (h : y ++ text other = x ++ text suffix) :
    (y = x ∧ other = suffix) ∨ x = y ++ text "_TRANSITIVE" := by
  have hreverse := congrArg List.reverse h
  simp only [suffixes, List.mem_cons, List.not_mem_nil, or_false] at hsuffix hother
  rcases hsuffix with rfl | rfl | rfl <;>
    rcases hother with rfl | rfl | rfl | rfl | rfl | rfl | rfl | rfl | rfl <;>
    simp [text] at hreverse ⊢
  · exact Or.inl hreverse
  · have hback := congrArg List.reverse hreverse
    simpa using hback.symm
  · exact Or.inl hreverse
  · exact Or.inl hreverse

theorem lt_append {x rest : Text} (h : rest ≠ []) : x < x ++ rest := by
  induction x with
  | nil =>
    cases rest with
    | nil => exact absurd rfl h
    | cons c rest => exact List.nil_lt_cons _ _
  | cons c x ih => exact List.cons_lt_cons_self.mpr ih

theorem featureVariable_collision {x y : Text} {suffix other : String}
    (hsuffix : suffix ∈ ["_IMPLIES", "_REQUIRES", "_CONFLICTS"]) (hother : other ∈ suffixes)
    (h : featureVariable y other = featureVariable x suffix) :
    (y = x ∧ other = suffix) ∨ x = y ++ text "_TRANSITIVE" := by
  apply suffix_collision hsuffix hother
  simpa [featureVariable] using h

section Variables

variable {registry : Registry}

/-- The later symbols do not set a variable of this one that the resolution reads. -/
theorem later_sets {features : List Feature} {x : Text} {suffix : String}
    (hsuffix : suffix ∈ ["_IMPLIES", "_REQUIRES", "_CONFLICTS"])
    {later : List (Feature × ℕ)} (hlater : ∀ g ∈ later, x < g.1.name) :
    ∀ set ∈ later.flatMap (fun (g, j) => featureSets features j g),
      set.1 ≠ featureVariable x suffix := by
  intro set hset hsame
  obtain ⟨⟨g, j⟩, hg, hmem⟩ := List.mem_flatMap.mp hset
  obtain ⟨other, hother, hname⟩ := featureSets_names hmem
  have hless : x < g.name := hlater _ hg
  cases featureVariable_collision hsuffix hother (hname.symm.trans hsame) with
  | inl hequal => exact hless.ne' hequal.1
  | inr hlonger =>
    rw [hlonger] at hless
    exact hless.not_gt (lt_append (by simp [text]))

theorem relation_value (h : Checked registry.features) {i : ℕ} {f : Feature}
    (hi : registry.features[i]? = some f) {suffix : String} {values : List Text}
    (hsuffix : suffix ∈ ["_IMPLIES", "_REQUIRES", "_CONFLICTS"])
    (hvalue : (suffix, values) ∈ featureValues registry.features i f) :
    relationVariable (cmakeSets registry) f.name suffix = values := by
  have hplace : (f, i) ∈ registry.features.zipIdx := List.mem_zipIdx_iff_getElem?.mpr hi
  obtain ⟨earlier, later, hsplit⟩ := List.append_of_mem hplace
  obtain ⟨before, after, hvalues⟩ := List.append_of_mem hvalue
  have hlater : ∀ g ∈ later, f.name < g.1.name := by
    have hnames : registry.features.zipIdx.map (fun g => g.1.name) =
        registry.features.map Feature.name := by
      have hfirst : (fun g : Feature × ℕ => g.1.name) = Feature.name ∘ Prod.fst := rfl
      rw [hfirst, ← List.map_map, List.zipIdx_map_fst]
    have hsorted := h.sorted
    rw [← hnames, hsplit, List.map_append, List.map_cons] at hsorted
    intro g hg
    exact (List.pairwise_cons.mp (List.pairwise_append.mp hsorted).2.1).1 _ (List.mem_map_of_mem hg)
  have hafter : ∀ value ∈ after, value.1 ≠ suffix := by
    have hnodup : ((featureValues registry.features i f).map Prod.fst).Nodup :=
      (show suffixes.Nodup by decide).sublist (featureValues_suffixes _ _ _)
    rw [hvalues, List.map_append, List.map_cons] at hnodup
    intro value hmem hsame
    apply (List.nodup_cons.mp (List.nodup_append.mp hnodup).2.1).1
    have hin := List.mem_map_of_mem (f := Prod.fst) hmem
    rw [hsame] at hin
    exact hin
  let named (value : String × List Text) : Text × List Text :=
    (featureVariable f.name value.1, value.2)
  let sets (g : Feature × ℕ) := featureSets registry.features g.2 g.1
  have hsets : cmakeSets registry =
      (listSets registry ++ earlier.flatMap sets ++ before.map named) ++
        (featureVariable f.name suffix, values) :: (after.map named ++ later.flatMap sets) := by
    simp [cmakeSets, hsplit, featureSets, hvalues, sets, named]
  rw [relationVariable, hsets]
  apply cmakeVariable_last
  intro set hset hsame
  cases List.mem_append.mp hset with
  | inl hown =>
    obtain ⟨value, hmem, hname⟩ := List.mem_map.mp hown
    have hother : value.1 ∈ suffixes := by
      have hin : value ∈ featureValues registry.features i f := by simp [hvalues, hmem]
      exact (featureValues_suffixes registry.features i f).subset (List.mem_map_of_mem hin)
    rw [← hname] at hsame
    cases featureVariable_collision hsuffix hother hsame with
    | inl hequal => exact hafter value hmem hequal.2
    | inr hlonger => exact absurd hlonger (lt_append (by simp [text])).ne
  | inr hnext => exact later_sets hsuffix hlater set hnext hsame

theorem relation_values (h : Checked registry.features) {i : ℕ} {f : Feature}
    (hi : registry.features[i]? = some f) :
    relationVariable (cmakeSets registry) f.name "_IMPLIES" = f.implies ∧
      relationVariable (cmakeSets registry) f.name "_REQUIRES" = f.requirements ∧
      relationVariable (cmakeSets registry) f.name "_CONFLICTS" = f.conflicts := by
  constructor
  · exact relation_value h hi (by simp) (by simp [featureValues])
  constructor
  · exact relation_value h hi (by simp) (by simp [featureValues])
  · exact relation_value h hi (by simp) (by simp [featureValues])

theorem feature_set_start (h : Checked registry.features) {set : Text × List Text}
    (hset : set ∈ registry.features.zipIdx.flatMap
      fun (g, j) => featureSets registry.features j g) :
    (set.1.drop 15).take 4 = text "HAL_" := by
  obtain ⟨⟨g, j⟩, hg, hmem⟩ := List.mem_flatMap.mp hset
  obtain ⟨suffix, _, hname⟩ := featureSets_names hmem
  have hin : g ∈ registry.features := List.mem_of_getElem? (List.mem_zipIdx_iff_getElem?.mp hg)
  have hstart := symbol_start (h.symbols g hin)
  have hlength : 4 ≤ g.name.length := by
    have htake := congrArg List.length hstart
    simpa [text] using htake
  have hdrop : (featureVariable g.name suffix).drop 15 = g.name ++ text suffix := by
    simp [featureVariable, text]
  rw [hname, hdrop, List.take_append_of_le_length hlength, hstart]

theorem symbol_lists (h : Checked registry.features) :
    cmakeVariable (cmakeSets registry) (text "JH_HAL_FEATURE_SYMBOLS") =
        registry.features.map Feature.name ∧
      cmakeVariable (cmakeSets registry) (text "JH_HAL_FEATURE_DERIVED_SYMBOLS") =
        (registry.features.filter Feature.derived).map Feature.name := by
  have hlater : ∀ name : Text, (name.drop 15).take 4 ≠ text "HAL_" →
      ∀ set ∈ registry.features.zipIdx.flatMap (fun (g, j) =>
        featureSets registry.features j g), set.1 ≠ name := by
    intro name hname set hset hsame
    exact hname (hsame ▸ feature_set_start h hset)
  have hsymbols : ((text "JH_HAL_FEATURE_SYMBOLS").drop 15).take 4 ≠ text "HAL_" := by
    rw [text_ofList, text_ofList]
    decide
  have hother : text "JH_HAL_FEATURE_DERIVED_SYMBOLS" ≠ text "JH_HAL_FEATURE_SYMBOLS" := by
    rw [text_ofList, text_ofList]
    decide
  have hderived : ((text "JH_HAL_FEATURE_DERIVED_SYMBOLS").drop 15).take 4 ≠ text "HAL_" := by
    rw [text_ofList, text_ofList]
    decide
  constructor
  · apply @cmakeVariable_last ((listSets registry).take 4)
    intro set hset
    cases List.mem_cons.mp hset with
    | inl hnext =>
      rw [hnext]
      exact hother
    | inr hfeature => exact hlater _ hsymbols set hfeature
  · exact @cmakeVariable_last ((listSets registry).take 5) _ _ _ (hlater _ hderived)

end Variables

theorem symbol_no_equals {name : Text} (h : featureSymbol name = true) : '=' ∉ name := by
  simp only [featureSymbol, List.any_cons, List.any_nil, Bool.or_false, Bool.or_eq_true,
    Bool.and_eq_true, List.isPrefixOf_iff_prefix] at h
  have hpart : ∀ start rest : Text, '=' ∉ start → start ++ rest = name →
      (name.drop start.length).all symbolPart = true → '=' ∉ name := by
    intro start rest hstart hname hall hmem
    rw [← hname, List.drop_left, List.all_eq_true] at hall
    rw [← hname] at hmem
    cases List.mem_append.mp hmem with
    | inl hin => exact hstart hin
    | inr hin => exact absurd (hall '=' hin) (by decide)
  rcases h with ⟨⟨⟨rest, hrest⟩, _⟩, hall⟩ | ⟨⟨⟨rest, hrest⟩, _⟩, hall⟩
  · exact hpart _ rest (by decide) hrest hall
  · exact hpart _ rest (by decide) hrest hall

theorem symbol_not_dash {name rest : Text} (h : featureSymbol name = true) :
    withoutD (name ++ rest) = name ++ rest := by
  have hstart := symbol_start h
  cases name with
  | nil => cases hstart
  | cons c name =>
    have hc : c = 'H' := (List.cons.inj hstart).1
    simp [withoutD, hc, text]

section Requests

variable {registry : Registry} {requests : List Request}

theorem cmakeSymbol_request (h : Checked registry.features)
    (hr : Requestable registry.features requests) {r : Request} (hmem : r ∈ requests) :
    cmakeSymbol (cmakeSets registry) (definition r) = .ok r.symbol := by
  obtain ⟨f, hf, hname, hplain⟩ := hr.known r hmem
  have hsymbol : featureSymbol r.symbol = true := hname ▸ h.symbols f hf
  have hequals := symbol_no_equals hsymbol
  have hknown : r.symbol ∈ cmakeVariable (cmakeSets registry) (text "JH_HAL_FEATURE_SYMBOLS") := by
    rw [(symbol_lists h).1]
    exact List.mem_map.mpr ⟨f, hf, hname⟩
  have hderived : r.symbol ∉
      cmakeVariable (cmakeSets registry) (text "JH_HAL_FEATURE_DERIVED_SYMBOLS") := by
    rw [(symbol_lists h).2]
    intro hin
    obtain ⟨g, hg, hgname⟩ := List.mem_map.mp hin
    obtain ⟨hg, hgderived⟩ := List.mem_filter.mp hg
    rw [feature_unique h.sorted hg hf (hgname.trans hname.symm), hplain] at hgderived
    cases hgderived
  have henabled := hr.enabled r hmem
  simp only [enabled, decide_eq_true_eq] at henabled
  have hsplit : ∀ (stem : Text) (c : Char), r.symbol ≠ stem ++ ['=', c] := by
    intro stem c hsame
    apply hequals
    rw [hsame]
    simp
  cases henabled with
  | inl hbare =>
    have hdefinition : definition r = r.symbol := by simp [definition, hbare]
    have hraw : withoutD (r.symbol ++ []) = r.symbol ++ [] := symbol_not_dash hsymbol
    rw [List.append_nil] at hraw
    rw [hdefinition]
    simp only [cmakeSymbol, hraw, show text "=0" = ['=', '0'] from rfl,
      show text "=1" = ['=', '1'] from rfl, hsplit, and_false, if_false, hsymbol, if_true]
    simp [Except.bind, hknown, hderived]
  | inr hone =>
    have hdefinition : definition r = r.symbol ++ ['=', '1'] := by
      simp [definition, hone, text]
    have hraw : withoutD (r.symbol ++ ['=', '1']) = r.symbol ++ ['=', '1'] := symbol_not_dash hsymbol
    have hstem : (r.symbol ++ ['=', '1']).take ((r.symbol ++ ['=', '1']).length - 2) = r.symbol := by
      simp
    rw [hdefinition]
    simp only [cmakeSymbol, hraw, hstem, show text "=0" = ['=', '0'] from rfl,
      show text "=1" = ['=', '1'] from rfl, hsymbol]
    simp [Except.bind, hknown, hderived]

theorem mapM_symbols
    (hr : ∀ r ∈ requests, cmakeSymbol (cmakeSets registry) (definition r) = .ok r.symbol) :
    (requests.map definition).mapM (cmakeSymbol (cmakeSets registry)) =
      .ok (requests.map Request.symbol) := by
  induction requests with
  | nil => rfl
  | cons r requests ih =>
    rw [List.map_cons, List.mapM_cons, hr r (List.mem_cons_self ..),
      ih fun s hs => hr s (List.mem_cons_of_mem _ hs)]
    rfl

def requestedNames (requests : List Request) : List Text :=
  sortTexts (requests.map Request.symbol).dedup

theorem cmakeRequested_requests (h : Checked registry.features)
    (hr : Requestable registry.features requests) :
    cmakeRequested (cmakeSets registry) (requests.map definition) = .ok (requestedNames requests) := by
  unfold cmakeRequested
  rw [mapM_symbols fun r hmem => cmakeSymbol_request h hr hmem]
  rfl

theorem mem_requestedNames (x : Text) :
    x ∈ requestedNames requests ↔ x ∈ requests.map Request.symbol := by
  simp [requestedNames, sortTexts]

theorem sortTexts_nodup {items : List Text} (h : items.Nodup) :
    (sortTexts items).Pairwise (· < ·) := by
  have hle := List.pairwise_insertionSort (fun a b : Text => a ≤ b) items
  have hne := ((List.perm_insertionSort (fun a b : Text => a ≤ b) items).nodup_iff).mpr h
  exact (hle.and hne).imp fun h => lt_of_le_of_ne h.1 h.2

theorem implies_variable (h : Checked registry.features) {x : Text}
    (hx : x ∈ registry.features.map Feature.name) :
    relationVariable (cmakeSets registry) x "_IMPLIES" = impliesOfName registry.features x := by
  obtain ⟨f, hf, hname⟩ := List.mem_map.mp hx
  obtain ⟨i, hi⟩ := List.mem_iff_getElem?.mp hf
  rw [← hname, impliesOfName_feature h hf]
  exact (relation_values h hi).1

theorem cmakeResolved_least (h : Checked registry.features)
    (hr : Requestable registry.features requests) (x : Text) :
    x ∈ cmakeResolved (cmakeSets registry) (requestedNames requests) ↔
      x ∈ leastSet registry.features requests := by
  let succ (name : Text) : List Text := relationVariable (cmakeSets registry) name "_IMPLIES"
  let names := registry.features.map Feature.name
  have hnames : ∀ y, y ∈ leastSet registry.features requests → y ∈ names := by
    intro y hy
    obtain ⟨f, hf, hname⟩ := leastSet_names h hr hy
    exact List.mem_map.mpr ⟨f, hf, hname⟩
  have hrequested : ∀ y ∈ requestedNames requests, y ∈ leastSet registry.features requests := by
    intro y hy
    exact Worklist.subset_closureOf _ ((mem_requestedNames y).mp hy)
  have hclosed : Closed succ (leastSet registry.features requests) := by
    intro y hy z hz
    apply Worklist.closureOf_closed _ y hy z
    rw [← implies_variable h (hnames y hy)]
    exact hz
  have hstart : Worklist.Expanding succ names ⟨requestedNames requests, requestedNames requests⟩ := by
    constructor
    · exact (sortTexts_nodup (List.nodup_dedup _)).imp fun h => h.ne
    · exact fun y hy => hnames y (hrequested y hy)
    · exact fun y hy => hnames y (hrequested y hy)
    · exact fun y hy => Or.inl hy
  have hsucc : ∀ y ∈ names, ∀ z ∈ succ y, z ∈ names := by
    intro y hy z hz
    apply names_closed h y hy z
    rw [← implies_variable h hy]
    exact hz
  have hrun := Worklist.run_closed Worklist.pushBack_pushes hsucc
    (cmakeVariable (cmakeSets registry) (text "JH_HAL_FEATURE_SYMBOLS")).length _ hstart (by
      rw [(symbol_lists h).1]
      exact (Nat.add_comm _ _).le)
  have hsound := Worklist.run_least Worklist.pushBack_pushes hclosed
    (cmakeVariable (cmakeSets registry) (text "JH_HAL_FEATURE_SYMBOLS")).length
    ⟨requestedNames requests, requestedNames requests⟩ hrequested
    fun y hy z hz => hclosed y (hrequested y hy) z hz
  unfold cmakeResolved sortTexts
  rw [List.mem_insertionSort]
  constructor
  · exact hsound x
  · intro hx
    apply hx {y | y ∈ Worklist.run Worklist.pushBack succ
      (cmakeVariable (cmakeSets registry) (text "JH_HAL_FEATURE_SYMBOLS")).length
      ⟨requestedNames requests, requestedNames requests⟩}
    · exact fun y hy => hrun.1 y ((mem_requestedNames y).mpr hy)
    · intro y hy z hz
      have hsame : succ y = impliesOfName registry.features y :=
        implies_variable h (hnames y (hsound y hy))
      rw [← hsame] at hz
      exact hrun.2.2 y hy z hz

theorem cmakeResolved_sorted :
    (cmakeResolved (cmakeSets registry) (requestedNames requests)).Pairwise (· < ·) := by
  apply sortTexts_nodup
  apply Worklist.run_nodup
  exact (sortTexts_nodup (List.nodup_dedup _)).imp fun h => h.ne

theorem cmakeCheck_none (h : Checked registry.features)
    (hr : Requestable registry.features requests) {resolved : List Text}
    (hresolved : ∀ x, x ∈ resolved ↔ x ∈ leastSet registry.features requests) :
    cmakeCheck (cmakeSets registry) resolved = none ↔
      ¬Broken registry.features (leastSet registry.features requests) := by
  simp only [cmakeCheck, List.findSome?_eq_none_iff, Option.or_eq_none_iff]
  constructor
  · rintro hnone ⟨f, hf, hin, hbroken⟩
    obtain ⟨i, hi⟩ := List.mem_iff_getElem?.mp hf
    obtain ⟨hrequires, hconflicts⟩ := hnone f.name ((hresolved _).mpr hin)
    obtain ⟨_, hrequirements, hpairs⟩ := relation_values h hi
    rw [hrequirements] at hrequires
    rw [hpairs] at hconflicts
    cases hbroken with
    | inl hmissing =>
      obtain ⟨requirement, hrequirement, hout⟩ := hmissing
      have hfound := hrequires requirement hrequirement
      rw [if_neg (by rw [hresolved]; exact hout)] at hfound
      cases hfound
    | inr hpair =>
      obtain ⟨conflict, hconflict, hother⟩ := hpair
      have hfound := hconflicts conflict hconflict
      rw [if_pos ((hresolved _).mpr hother)] at hfound
      cases hfound
  · intro hsound x hx
    have hleast := (hresolved x).mp hx
    obtain ⟨f, hf, hname⟩ := leastSet_names h hr hleast
    obtain ⟨i, hi⟩ := List.mem_iff_getElem?.mp hf
    rw [← hname] at hleast ⊢
    obtain ⟨_, hrequirements, hpairs⟩ := relation_values h hi
    constructor
    · intro requirement hrequirement
      rw [hrequirements] at hrequirement
      by_cases hin : requirement ∈ resolved
      · rw [if_pos hin]
      · exact absurd ⟨f, hf, hleast, Or.inl ⟨requirement, hrequirement,
          fun hother => hin ((hresolved _).mpr hother)⟩⟩ hsound
    · intro conflict hconflict
      rw [hpairs] at hconflict
      by_cases hin : conflict ∈ resolved
      · exact absurd ⟨f, hf, hleast, Or.inr ⟨conflict, hconflict, (hresolved _).mp hin⟩⟩ hsound
      · rw [if_neg hin]

/-- The header defines the resolved symbols, in the order of the names. -/
theorem header_symbols (h : Checked registry.features)
    (hr : Requestable registry.features requests) (pythonRepr : Text → Text) (context : Text) :
    (registry.features.map Feature.name).filter (isDefined
      (preprocess (requests.map Request.symbol) (jhFeatureRegistryHeader registry))) =
      (jhFeatureResolve registry pythonRepr requests context).resolved := by
  apply (h.sorted.sublist List.filter_sublist).eq_of_mem_iff (resolved_sorted h pythonRepr context)
  intro x
  rw [resolved_mem h hr, List.mem_filter]
  constructor
  · rintro ⟨hx, hdefined⟩
    obtain ⟨f, hf, hname⟩ := List.mem_map.mp hx
    rw [← hname] at hdefined ⊢
    exact ((header_resolves h hr).1 f hf).mp (by simpa [isDefined] using hdefined)
  · intro hx
    obtain ⟨f, hf, hname⟩ := leastSet_names h hr hx
    rw [← hname] at hx ⊢
    exact ⟨List.mem_map_of_mem hf, by simpa [isDefined] using ((header_resolves h hr).1 f hf).mpr hx⟩

end Requests

/-- The tool, the generated header and the generated CMake function resolve the
requests to the same symbols, the least set that holds them and is closed under
implies, and report an error together or not at all. -/
theorem resolvers_agree {managed : List Text} {registryDigest : List Feature → Text}
    {schemaDigest : Text} {fragments : List Fragment} {registry : Registry}
    (hload : load managed registryDigest schemaDigest fragments = .ok registry)
    (requests : List Request) (hr : Requestable registry.features requests)
    (pythonRepr : Text → Text) (context : Text) :
    let resolution := jhFeatureResolve registry pythonRepr requests context
    let header := preprocess (requests.map Request.symbol) (jhFeatureRegistryHeader registry)
    let sets := cmakeSets registry
    (∀ x, x ∈ resolution.resolved ↔ x ∈ leastSet registry.features requests) ∧
    (registry.features.map Feature.name).filter (isDefined header) = resolution.resolved ∧
    (∃ requested, cmakeRequested sets (requests.map definition) = .ok requested ∧
      cmakeResolved sets requested = resolution.resolved) ∧
    ((resolution.findings = [] ∧ header.errors = [] ∧
        ∃ requested, jhHalResolveFeatures sets (requests.map definition) =
          .ok (requested, resolution.resolved)) ∨
      (resolution.findings ≠ [] ∧ header.errors ≠ [] ∧
        ∃ message, jhHalResolveFeatures sets (requests.map definition) = .error message)) := by
  have h := load_checked hload
  intro resolution header sets
  have hresolved : ∀ x, x ∈ resolution.resolved ↔ x ∈ leastSet registry.features requests :=
    resolved_mem h hr pythonRepr context
  have hrequested := cmakeRequested_requests h hr
  have hcmake : cmakeResolved sets (requestedNames requests) = resolution.resolved := by
    apply cmakeResolved_sorted.eq_of_mem_iff (resolved_sorted h pythonRepr context)
    intro x
    rw [cmakeResolved_least h hr, resolved_mem h hr]
  have hcheck := cmakeCheck_none h hr hresolved
  have hfindings := resolve_findings h hr pythonRepr context
  have herrors := (header_resolves h hr).2
  constructor
  · exact hresolved
  constructor
  · exact header_symbols h hr pythonRepr context
  constructor
  · exact ⟨_, hrequested, hcmake⟩
  · by_cases hbroken : Broken registry.features (leastSet registry.features requests)
    · right
      constructor
      · exact fun hnone => hfindings.mp hnone hbroken
      constructor
      · exact fun hnone => herrors.mp hnone hbroken
      · cases hfirst : cmakeCheck sets resolution.resolved with
        | none => exact absurd hbroken (hcheck.mp hfirst)
        | some message =>
          refine ⟨message, ?_⟩
          simp only [jhHalResolveFeatures, sets] at hrequested hcmake hfirst ⊢
          rw [hrequested]
          simp only [bind, Except.bind, hcmake, hfirst]
          rfl
    · left
      constructor
      · exact hfindings.mpr hbroken
      constructor
      · exact herrors.mpr hbroken
      · have hnone := hcheck.mpr hbroken
        refine ⟨requestedNames requests, ?_⟩
        simp only [jhHalResolveFeatures, sets] at hrequested hcmake hnone ⊢
        rw [hrequested]
        simp only [bind, Except.bind, hcmake, hnone]
        rfl

def record (implies requirements conflicts : List String) : SymbolRecord :=
  ⟨false, implies.map text, requirements.map text, conflicts.map text, [], [], [], none⟩

def networkFragment : Fragment where
  path := text "features/network.json"
  domain := text "network"
  symbols :=
    [(text "HAL_ENABLE_WIFI", record ["HAL_ENABLE_NET"] [] ["HAL_ENABLE_MODEM"]),
      (text "HAL_ENABLE_TCP", record [] [] []),
      (text "HAL_ENABLE_NET", record ["HAL_ENABLE_TCP"] [] []),
      (text "HAL_ENABLE_MQTT", record [] ["HAL_ENABLE_NET"] []),
      (text "HAL_ENABLE_MODEM", record [] [] ["HAL_ENABLE_WIFI"])]
  distinct := by decide

def networkFeature (name : String) (implies requirements conflicts : List String) : Feature :=
  ⟨text name, text "network", none, false, implies.map text, requirements.map text,
    conflicts.map text, [], [], [], 0⟩

def networkRegistry : Registry :=
  ⟨[networkFeature "HAL_ENABLE_MODEM" [] [] ["HAL_ENABLE_WIFI"],
      networkFeature "HAL_ENABLE_MQTT" [] ["HAL_ENABLE_NET"] [],
      networkFeature "HAL_ENABLE_NET" ["HAL_ENABLE_TCP"] [] [],
      networkFeature "HAL_ENABLE_TCP" [] [] [],
      networkFeature "HAL_ENABLE_WIFI" ["HAL_ENABLE_NET"] [] ["HAL_ENABLE_MODEM"]],
    [text "features/network.json"], [], []⟩

def wifiRequest : Request := ⟨text "HAL_ENABLE_WIFI", some (text "1"), text "build"⟩

def modemRequest : Request := ⟨text "HAL_ENABLE_MODEM", some (text "1"), text "build"⟩

/-- The three agree on the symbols, and that two of them conflict. -/
theorem resolvers_agree_conflict :
    let requests := [wifiRequest, modemRequest]
    let resolution := jhFeatureResolve networkRegistry id requests []
    let header := preprocess (requests.map Request.symbol) (jhFeatureRegistryHeader networkRegistry)
    let sets := cmakeSets networkRegistry
    (∀ x, x ∈ resolution.resolved ↔ x ∈ leastSet networkRegistry.features requests) ∧
    (networkRegistry.features.map Feature.name).filter (isDefined header) = resolution.resolved ∧
    (∃ requested, cmakeRequested sets (requests.map definition) = .ok requested ∧
      cmakeResolved sets requested = resolution.resolved) ∧
    resolution.findings ≠ [] ∧ header.errors ≠ [] ∧
      ∃ message, jhHalResolveFeatures sets (requests.map definition) = .error message := by
  have hload : load [] (fun _ => []) [] [networkFragment] = .ok networkRegistry := by
    decide +kernel
  have hr : Requestable networkRegistry.features [wifiRequest, modemRequest] := by
    constructor
    · decide +kernel
    · decide +kernel
    · decide +kernel
  have hfindings : (jhFeatureResolve networkRegistry id [wifiRequest, modemRequest] []).findings ≠
      [] := by
    decide +kernel
  obtain ⟨hleast, hsymbols, hrequested, hverdict⟩ := resolvers_agree hload _ hr id []
  refine ⟨hleast, hsymbols, hrequested, ?_⟩
  cases hverdict with
  | inl hclean => exact absurd hclean.1 hfindings
  | inr herrors => exact herrors

end JaszczurHal.FeatureRegistry
