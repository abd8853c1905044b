import JaszczurHal.FeatureResolution

/-!
# The generated header

Every group of lines closes the conditionals that it opens. The implications
are written in name order and transitively, so one pass through them defines the
least set.
-/

set_option autoImplicit false

namespace JaszczurHal.FeatureRegistry

def runLines (p : Preprocessor) (lines : List Line) : Preprocessor := lines.foldl preprocessLine p

theorem runLines_append (p : Preprocessor) (first second : List Line) :
    runLines p (first ++ second) = runLines (runLines p first) second := by
  simp [runLines]

theorem active_push (p : Preprocessor) (test : Bool) :
    active { p with frames := test :: p.frames } = (test && active p) := by
  simp [active]

theorem guarded_define (p : Preprocessor) (tests : List (Bool × Text)) (name body : Text) :
    runLines p (guardedLine tests (.define name body)) =
      if tests.all (holds p) && active p then { p with defined := name :: p.defined } else p := by
  simp only [runLines, guardedLine, List.foldl_cons, List.foldl_nil, preprocessLine, active_push]
  split_ifs <;> rfl

theorem guarded_error (p : Preprocessor) (check : List (Bool × Text) × Text) :
    runLines p (errorLines check) =
      if check.1.all (holds p) && active p then { p with errors := p.errors ++ [check.2] }
      else p := by
  simp only [runLines, errorLines, guardedLine, List.foldl_cons, List.foldl_nil, preprocessLine,
    active_push]
  split_ifs <;> rfl

theorem pragma_lines (p : Preprocessor) (features : List Feature) (message : Feature → Text) :
    runLines p (features.flatMap fun f => guardedLine [(true, f.name)] (.pragma (message f))) =
      p := by
  induction features with
  | nil => rfl
  | cons f features ih =>
    rw [List.flatMap_cons, runLines_append]
    exact ih

/-- The checks of an active region report what holds, and leave the rest alone. -/
theorem check_lines (p : Preprocessor) (hactive : active p = true)
    (checks : List (List (Bool × Text) × Text)) :
    runLines p (checks.flatMap errorLines) =
      { p with errors := p.errors ++ (checks.filter fun c => c.1.all (holds p)).map Prod.snd } := by
  induction checks generalizing p with
  | nil => simp [runLines]
  | cons check checks ih =>
    rw [List.flatMap_cons, runLines_append, guarded_error, hactive, Bool.and_true]
    by_cases hholds : check.1.all (holds p) = true
    · have hrest := ih { p with errors := p.errors ++ [check.2] } hactive
      have hsame : holds { p with errors := p.errors ++ [check.2] } = holds p := rfl
      rw [if_pos hholds, hrest]
      simp [hsame, hholds]
    · rw [if_neg hholds, ih p hactive]
      simp [hholds]

structure Extends (p q : Preprocessor) (added : Set Text) : Prop where
  frames : q.frames = p.frames
  errors : q.errors = p.errors
  defined : ∀ x, x ∈ q.defined ↔ x ∈ p.defined ∨ x ∈ added

theorem define_lines (p : Preprocessor) (dependencies : List Text) :
    Extends p (runLines p (dependencies.flatMap fun dependency =>
      guardedLine [(false, dependency)] (.define dependency (text "1"))))
      {x | active p = true ∧ x ∈ dependencies} := by
  induction dependencies generalizing p with
  | nil =>
    constructor
    · rfl
    · rfl
    · simp [runLines]
  | cons dependency dependencies ih =>
    rw [List.flatMap_cons, runLines_append, guarded_define]
    by_cases hdefine : ([(false, dependency)].all (holds p) && active p) = true
    · rw [if_pos hdefine]
      have hrest := ih { p with defined := dependency :: p.defined }
      have hactive : active p = true := (Bool.and_eq_true_iff.mp hdefine).2
      have hsame : active { p with defined := dependency :: p.defined } = active p := rfl
      constructor
      · exact hrest.frames
      · exact hrest.errors
      · intro x
        rw [hrest.defined]
        simp [hsame, hactive]
        tauto
    · rw [if_neg hdefine]
      have hrest := ih p
      constructor
      · exact hrest.frames
      · exact hrest.errors
      · intro x
        rw [hrest.defined]
        simp only [List.all_cons, List.all_nil, Bool.and_true, holds, isDefined, Bool.and_eq_true,
          beq_false, Bool.not_eq_true', decide_eq_false_iff_not, not_and] at hdefine
        by_cases hactive : active p = true
        · have hdependency : dependency ∈ p.defined := by
            by_contra hnot
            exact hdefine hnot hactive
          simp [hactive]
          constructor
          · tauto
          · rintro (h | h | h)
            · exact Or.inl h
            · exact Or.inl (h ▸ hdependency)
            · exact Or.inr h
        · simp [hactive]

/-- The block of a symbol defines its closure if the symbol is defined. -/
theorem implied_lines (features : List Feature) (p : Preprocessor) (hactive : active p = true)
    (i : ℕ) :
    Extends p (runLines p (impliedLines features i))
      {x | nameOf features i ∈ p.defined ∧ x ∈ (closure features i).map (nameOf features)} := by
  unfold impliedLines
  by_cases hempty : (closure features i).map (nameOf features) = []
  · simp only [if_pos hempty]
    constructor
    · rfl
    · rfl
    · simp [runLines, hempty]
  · simp only [if_neg hempty]
    have hblock := define_lines
      { p with frames := isDefined p (nameOf features i) :: p.frames }
      ((closure features i).map (nameOf features))
    have hopen : active { p with frames := isDefined p (nameOf features i) :: p.frames } =
        isDefined p (nameOf features i) := by
      rw [active_push, hactive, Bool.and_true]
    have hfirst : preprocessLine p (.ifAll [(true, nameOf features i)]) =
        { p with frames := isDefined p (nameOf features i) :: p.frames } := by
      simp [preprocessLine, holds]
    rw [runLines_append]
    simp only [runLines, List.foldl_cons, List.foldl_nil, hfirst]
    constructor
    · simp only [preprocessLine]
      exact (congrArg List.tail hblock.frames)
    · exact hblock.errors
    · intro x
      have hx := hblock.defined x
      rw [hopen] at hx
      simp only [preprocessLine]
      simpa [isDefined, runLines] using hx

/-- All the blocks: what they define is implied by what is defined, and whatever a
symbol that was defined implies is defined. -/
theorem all_implied_lines (features : List Feature) (indices : List ℕ) (p : Preprocessor)
    (hactive : active p = true) :
    let q := runLines p (indices.flatMap (impliedLines features))
    q.frames = p.frames ∧ q.errors = p.errors ∧ (∀ x ∈ p.defined, x ∈ q.defined) ∧
      (∀ i ∈ indices, nameOf features i ∈ p.defined →
        ∀ x ∈ (closure features i).map (nameOf features), x ∈ q.defined) ∧
      ∀ S : Set Text, (∀ x ∈ p.defined, x ∈ S) →
        (∀ i ∈ indices, nameOf features i ∈ S →
          ∀ x ∈ (closure features i).map (nameOf features), x ∈ S) →
        ∀ x ∈ q.defined, x ∈ S := by
  induction indices generalizing p with
  | nil =>
    simp only [List.flatMap_nil, runLines, List.foldl_nil, List.not_mem_nil, false_imp_iff,
      implies_true, true_and]
    exact ⟨fun x h => h, fun S h _ => h⟩
  | cons i indices ih =>
    have hblock := implied_lines features p hactive i
    have hstill : active (runLines p (impliedLines features i)) = true := by
      unfold active
      rw [hblock.frames]
      exact hactive
    obtain ⟨hframes, herrors, hkept, hdone, hsound⟩ := ih _ hstill
    rw [List.flatMap_cons, runLines_append]
    have hmore : ∀ x ∈ p.defined, x ∈ (runLines p (impliedLines features i)).defined :=
      fun x hx => (hblock.defined x).mpr (Or.inl hx)
    constructor
    · exact hframes.trans hblock.frames
    constructor
    · exact herrors.trans hblock.errors
    constructor
    · exact fun x hx => hkept x (hmore x hx)
    constructor
    · intro j hj hname x hx
      cases List.mem_cons.mp hj with
      | inl hsame =>
        rw [hsame] at hname hx
        exact hkept x ((hblock.defined x).mpr (Or.inr ⟨hname, hx⟩))
      | inr hlater => exact hdone j hlater (hmore _ hname) x hx
    · intro S hstart hclosed
      apply hsound S
      · intro x hx
        cases (hblock.defined x).mp hx with
        | inl hold => exact hstart x hold
        | inr hnew => exact hclosed i (List.mem_cons_self ..) (hstart _ hnew.1) x hnew.2
      · exact fun j hj => hclosed j (List.mem_cons_of_mem _ hj)

theorem symbol_start {name : Text} (h : featureSymbol name = true) : name.take 4 = text "HAL_" := by
  simp only [featureSymbol, List.any_cons, List.any_nil, Bool.or_false, Bool.or_eq_true,
    Bool.and_eq_true, List.isPrefixOf_iff_prefix] at h
  rcases h with ⟨⟨⟨rest, hrest⟩, _⟩, _⟩ | ⟨⟨⟨rest, hrest⟩, _⟩, _⟩
  · rw [← hrest]
    rfl
  · rw [← hrest]
    rfl

def ownMacros : List Text :=
  [graphGuard, text "JH_HAL_FEATURE_SCHEMA_VERSION", text "JH_HAL_FEATURE_GENERATOR_VERSION",
    text "JH_HAL_FEATURE_REGISTRY_DIGEST", text "JH_HAL_FEATURE_SCHEMA_DIGEST",
    text "JH_HAL_FEATURE_VERBOSE_REPORT_EMITTED"]

theorem text_ofList (cs : List Char) : text (String.ofList cs) = cs := String.toList_ofList

theorem ownMacros_start : ∀ x ∈ ownMacros, x.take 4 ≠ text "HAL_" := by
  simp only [ownMacros, graphGuard, List.forall_mem_cons]
  rw [text_ofList, text_ofList, text_ofList, text_ofList, text_ofList, text_ofList, text_ofList]
  exact ⟨by decide, by decide, by decide, by decide, by decide, by decide, nofun⟩

section Header

variable {registry : Registry} {features : List Feature} {requests : List Request}

def openedHeader (requests : List Request) : Preprocessor :=
  ⟨(ownMacros.take 5).reverse ++ requests.map Request.symbol, [true], []⟩

theorem own_not_feature (h : Checked features) {f : Feature} (hf : f ∈ features) :
    f.name ∉ ownMacros := by
  intro hown
  exact ownMacros_start f.name hown (symbol_start (h.symbols f hf))

theorem opened_defined (h : Checked features) {f : Feature} (hf : f ∈ features) :
    f.name ∈ (openedHeader requests).defined ↔ f.name ∈ requests.map Request.symbol := by
  have hown : f.name ∉ (ownMacros.take 5).reverse := by
    intro hmem
    exact own_not_feature h hf (List.mem_of_mem_take (List.mem_reverse.mp hmem))
  simp only [openedHeader, List.mem_append, hown, false_or]

theorem derived_silent (h : Checked features) (hr : Requestable features requests) :
    runLines (openedHeader requests) ((features.flatMap derivedChecks).flatMap errorLines) =
      openedHeader requests := by
  have hnone : (features.flatMap derivedChecks).filter
      (fun c => c.1.all (holds (openedHeader requests))) = [] := by
    apply List.filter_eq_nil_iff.mpr
    intro check hcheck
    obtain ⟨f, hf, hmem⟩ := List.mem_flatMap.mp hcheck
    unfold derivedChecks at hmem
    split_ifs at hmem with hderived
    · rw [List.mem_singleton.mp hmem]
      simp only [List.all_cons, List.all_nil, Bool.and_true, holds, isDefined, beq_true,
        decide_eq_true_eq, opened_defined h hf]
      intro hrequested
      obtain ⟨r, hr', hsymbol⟩ := List.mem_map.mp hrequested
      obtain ⟨g, hg, hname, hplain⟩ := hr.known r hr'
      rw [feature_unique h.sorted hg hf (hname.trans hsymbol), hderived] at hplain
      cases hplain
    · cases hmem
  rw [check_lines _ rfl, hnone, List.map_nil, List.append_nil]

theorem implied_least (h : Checked features) (hr : Requestable features requests) :
    let q := runLines (openedHeader requests)
      ((List.range features.length).flatMap (impliedLines features))
    q.frames = [true] ∧ q.errors = [] ∧
      ∀ f ∈ features, f.name ∈ q.defined ↔ f.name ∈ leastSet features requests := by
  obtain ⟨hframes, herrors, hkept, hdone, hsound⟩ :=
    all_implied_lines features (List.range features.length) (openedHeader requests) rfl
  constructor
  · exact hframes
  constructor
  · exact herrors
  · intro f hf
    constructor
    · intro hdefined
      apply hsound {x | ∀ g ∈ features, g.name = x → x ∈ leastSet features requests} _ _ f.name
        hdefined f hf rfl
      · intro x hx g hg hname
        rw [← hname, opened_defined h hg] at hx
        exact hname ▸ Worklist.subset_closureOf _ hx
      · intro i hi hin x hx g hg hname
        have hg' := List.getElem?_eq_getElem (List.mem_range.mp hi)
        have hfirst := hin _ (List.mem_of_getElem? hg') (by simp [nameOf, hg'])
        simp only [nameOf, hg', Option.map_some, Option.getD_some] at hfirst
        obtain ⟨j, hj, hjname⟩ := List.mem_map.mp hx
        obtain ⟨k, hk, hleast⟩ := closure_least h hg' (S := leastSet features requests) (by
          intro y hy
          apply Worklist.closureOf_closed _ _ hfirst y
          rw [impliesOfName_feature h (List.mem_of_getElem? hg')]
          exact hy) (Worklist.closureOf_closed _) j hj
        rw [← hjname]
        simpa [nameOf, hk] using hleast
    · intro hleast
      obtain ⟨i, hi⟩ := List.mem_iff_getElem?.mp hf
      obtain ⟨r, hmem, k, hfound, hplace⟩ := (mem_resolvedMarks h hr id i).mp
        ((resolvedMarks_least h hr id i).mpr ⟨f, hi, hleast⟩)
      obtain ⟨g, hg, hname⟩ := (findFeature_iff h.sorted _ k).mp hfound
      have hopened : g.name ∈ (openedHeader requests).defined := by
        rw [opened_defined h (List.mem_of_getElem? hg), hname]
        exact List.mem_map.mpr ⟨r, hmem, rfl⟩
      cases hplace with
      | inl hsame =>
        rw [hsame, hg, Option.some.injEq] at hi
        exact hkept _ (hi ▸ hopened)
      | inr hclosure =>
        apply hdone k (List.mem_range.mpr (List.getElem?_eq_some_iff.mp hg).1)
        · simpa [nameOf, hg] using hopened
        · exact List.mem_map.mpr ⟨i, hclosure, by simp [nameOf, hi]⟩

theorem relation_errors (h : Checked features) {S : Set Text} {q : Preprocessor}
    (hq : ∀ f ∈ features, f.name ∈ q.defined ↔ f.name ∈ S) :
    (features.flatMap relationChecks).filter (fun c => c.1.all (holds q)) = [] ↔
      ¬Broken features S := by
  have htarget : ∀ f ∈ features, ∀ field target, (field, target) ∈ relations f →
      (target ∈ q.defined ↔ target ∈ S) := by
    intro f hf field target hrelation
    obtain ⟨g, hg, hname⟩ := h.known f hf _ hrelation
    have hname : g.name = target := hname
    rw [← hname]
    exact hq g hg
  rw [broken_iff h, List.filter_eq_nil_iff]
  constructor
  · rintro hnone ⟨f, hf, hin, hbroken⟩
    cases hbroken with
    | inl hmissing =>
      obtain ⟨requirement, hrequirement, hout⟩ := hmissing
      have hrelation : (ListField.requirements, requirement) ∈ relations f := by
        simp [relations, hrequirement]
      apply hnone ([(true, f.name), (false, requirement)], requiresMessage f.name requirement)
      · exact List.mem_flatMap.mpr ⟨f, hf, by simp [relationChecks, hrequirement]⟩
      · simp [holds, isDefined, hq f hf, hin, htarget f hf _ _ hrelation, hout]
    | inr hpair =>
      obtain ⟨conflict, hconflict, hother, hless⟩ := hpair
      have hrelation : (ListField.conflicts, conflict) ∈ relations f := by
        simp [relations, hconflict]
      apply hnone ([(true, f.name), (true, conflict)], conflictMessage f.name conflict)
      · exact List.mem_flatMap.mpr ⟨f, hf, by simp [relationChecks, hconflict, hless]⟩
      · simp [holds, isDefined, hq f hf, hin, htarget f hf _ _ hrelation, hother]
  · intro hsound check hcheck hholds
    obtain ⟨f, hf, hmem⟩ := List.mem_flatMap.mp hcheck
    unfold relationChecks at hmem
    cases List.mem_append.mp hmem with
    | inl hrequires =>
      obtain ⟨requirement, hrequirement, hsame⟩ := List.mem_map.mp hrequires
      have hrelation : (ListField.requirements, requirement) ∈ relations f := by
        simp [relations, hrequirement]
      simp [← hsame, holds, isDefined, hq f hf, htarget f hf _ _ hrelation] at hholds
      exact hsound ⟨f, hf, hholds.1, Or.inl ⟨requirement, hrequirement, hholds.2⟩⟩
    | inr hconflicts =>
      obtain ⟨conflict, hconflict, hsame⟩ := List.mem_map.mp hconflicts
      simp only [List.mem_filter, decide_eq_true_eq] at hconflict
      have hrelation : (ListField.conflicts, conflict) ∈ relations f := by
        simp [relations, hconflict.1]
      simp [← hsame, holds, isDefined, hq f hf, htarget f hf _ _ hrelation] at hholds
      exact hsound ⟨f, hf, hholds.1, Or.inr ⟨conflict, hconflict.1, hholds.2, hconflict.2⟩⟩

/-- The report behind the graph defines one macro of its own at most. -/
theorem report_lines (p : Preprocessor) (features : List Feature) :
    let q := runLines p ([.endif,
      .ifAll [(true, text "HAL_CONFIG_VERBOSE"),
        (false, text "JH_HAL_FEATURE_VERBOSE_REPORT_DEFERRED"),
        (false, text "JH_HAL_FEATURE_VERBOSE_REPORT_EMITTED")],
      .define (text "JH_HAL_FEATURE_VERBOSE_REPORT_EMITTED") (text "1")] ++
      features.flatMap (fun feature =>
        guardedLine [(true, feature.name)] (.pragma (text "HAL_CONFIG: " ++ feature.name))) ++
      [.endif])
    q.errors = p.errors ∧ ∀ x, x ∉ ownMacros → (x ∈ q.defined ↔ x ∈ p.defined) := by
  simp only [runLines_append, pragma_lines]
  simp only [runLines, List.foldl_cons, List.foldl_nil, preprocessLine]
  split_ifs
  · constructor
    · rfl
    · intro x hx
      have hother : x ≠ text "JH_HAL_FEATURE_VERBOSE_REPORT_EMITTED" := by
        rintro rfl
        exact hx (by simp [ownMacros])
      simp [hother]
  · exact ⟨rfl, fun x _ => Iff.rfl⟩

/-- The first lines open the guard and define the macros of the header. -/
theorem header_opens (hguard : graphGuard ∉ requests.map Request.symbol) :
    runLines ⟨requests.map Request.symbol, [], []⟩
      [.ifndef graphGuard, .define graphGuard (text "1"),
        .define (text "JH_HAL_FEATURE_SCHEMA_VERSION") (text "1"),
        .define (text "JH_HAL_FEATURE_GENERATOR_VERSION") (text "2"),
        .define (text "JH_HAL_FEATURE_REGISTRY_DIGEST") ('"' :: registry.digest ++ ['"']),
        .define (text "JH_HAL_FEATURE_SCHEMA_DIGEST") ('"' :: registry.schemaDigest ++ ['"'])] =
      openedHeader requests := by
  have hopen : preprocessLine ⟨requests.map Request.symbol, [], []⟩ (.ifndef graphGuard) =
      ⟨requests.map Request.symbol, [true], []⟩ := by
    rw [preprocessLine, isDefined, decide_eq_false hguard]
    rfl
  have hdefine : ∀ (defined : List Text) (name value : Text),
      preprocessLine ⟨defined, [true], []⟩ (.define name value) = ⟨name :: defined, [true], []⟩ :=
    fun _ _ _ => rfl
  rw [runLines, List.foldl_cons, hopen, List.foldl_cons, hdefine, List.foldl_cons, hdefine,
    List.foldl_cons, hdefine, List.foldl_cons, hdefine, List.foldl_cons, hdefine, List.foldl_nil]
  rfl

/-- The macros of the symbols behind the header, and whether it reports an error. -/
theorem header_resolves (h : Checked registry.features)
    (hr : Requestable registry.features requests) :
    let q := preprocess (requests.map Request.symbol) (jhFeatureRegistryHeader registry)
    (∀ f ∈ registry.features, f.name ∈ q.defined ↔
      f.name ∈ leastSet registry.features requests) ∧
    (q.errors = [] ↔ ¬Broken registry.features (leastSet registry.features requests)) := by
  have hguard : graphGuard ∉ requests.map Request.symbol := by
    intro hmem
    obtain ⟨r, hr', hsymbol⟩ := List.mem_map.mp hmem
    obtain ⟨f, hf, hname, _⟩ := hr.known r hr'
    apply own_not_feature h hf
    rw [hname, hsymbol]
    exact List.mem_cons_self ..
  have hopen := @header_opens registry requests hguard
  obtain ⟨hframes, herrors, hdefined⟩ := implied_least h hr
  let implied := runLines (openedHeader requests)
    ((List.range registry.features.length).flatMap (impliedLines registry.features))
  have hchecks := check_lines implied (by simp [active, implied, hframes])
    (registry.features.flatMap relationChecks)
  obtain ⟨hreported, hsame⟩ := report_lines (runLines implied
    ((registry.features.flatMap relationChecks).flatMap errorLines)) registry.features
  have hwhole : preprocess (requests.map Request.symbol) (jhFeatureRegistryHeader registry) =
      runLines ⟨requests.map Request.symbol, [], []⟩ (jhFeatureRegistryHeader registry) := rfl
  rw [hwhole]
  unfold jhFeatureRegistryHeader
  simp only [runLines_append, hopen, derived_silent h hr] at hreported hsame ⊢
  constructor
  · intro f hf
    rw [hsame f.name (own_not_feature h hf), hchecks]
    exact hdefined f hf
  · rw [hreported, hchecks, ← relation_errors h hdefined]
    simp [implied, herrors]

end Header

end JaszczurHal.FeatureRegistry
