import JaszczurHal.FeatureClosure
import JaszczurHal.FeatureResolvers

/-!
# The resolution of the tool and of the header

The marked symbols and the macros that are defined behind the header are the
least set that holds the requests and is closed under the implications. A
finding, or an error, is reported when a requirement of it is missing or two of
its symbols conflict.
-/

set_option autoImplicit false

namespace JaszczurHal.FeatureRegistry
open Worklist (Closed closureOf)

/-- The requested symbols are known, not derived and enabled, each requested once. -/
structure Requestable (features : List Feature) (requests : List Request) : Prop where
  enabled : ∀ r ∈ requests, enabled r = true
  known : ∀ r ∈ requests, ∃ f ∈ features, f.name = r.symbol ∧ f.derived = false
  distinct : (requests.map Request.symbol).Nodup

def leastSet (features : List Feature) (requests : List Request) : Set Text :=
  closureOf (impliesOfName features) {x | x ∈ requests.map Request.symbol}

def Broken (features : List Feature) (S : Set Text) : Prop :=
  ∃ f ∈ features, f.name ∈ S ∧
    ((∃ requirement ∈ f.requirements, requirement ∉ S) ∨ ∃ conflict ∈ f.conflicts, conflict ∈ S)

section Tool

variable {features : List Feature} {registry : Registry} {requests : List Request}

theorem names_closed (h : Checked features) :
    Closed (impliesOfName features) {x | x ∈ features.map Feature.name} := by
  intro x hx y hy
  obtain ⟨f, hf, hname⟩ := List.mem_map.mp hx
  rw [← hname, impliesOfName_feature h hf] at hy
  obtain ⟨_, g, _, hg, hgname⟩ := implies_known h hf hy
  exact List.mem_map.mpr ⟨g, List.mem_of_getElem? hg, hgname⟩

theorem leastSet_names (h : Checked features) (hr : Requestable features requests) {x : Text}
    (hx : x ∈ leastSet features requests) : ∃ f ∈ features, f.name = x := by
  have hnames := Worklist.closureOf_least (S := {x | x ∈ features.map Feature.name}) (by
    intro y hy
    obtain ⟨r, hmem, hsymbol⟩ := List.mem_map.mp hy
    obtain ⟨f, hf, hname, _⟩ := hr.known r hmem
    exact List.mem_map.mpr ⟨f, hf, hname.trans hsymbol⟩) (names_closed h) hx
  simpa using hnames

theorem checkRequest_usable (h : Checked features) (hr : Requestable features requests)
    (pythonRepr : Text → Text) {r : Request} (hmem : r ∈ requests) :
    checkRequest features pythonRepr r = ([], true) := by
  obtain ⟨f, hf, hname, hderived⟩ := hr.known r hmem
  obtain ⟨i, hi⟩ := List.mem_iff_getElem?.mp hf
  have hfound := findFeature_at h.sorted hi
  rw [hname] at hfound
  simp [checkRequest, hfound, hr.enabled r hmem, hi, hderived]

theorem grouped_flatten (requests : List Request) (r : Request) :
    r ∈ (grouped requests).flatten ↔ r ∈ requests := by
  rw [grouped, List.flatten_splitBy]
  simp

theorem group_symbols {requests group : List Request} (hgroup : group ∈ grouped requests) :
    ∃ first rest, group = first :: rest ∧ ∀ r ∈ group, r.symbol = first.symbol := by
  cases group with
  | nil => exact absurd hgroup (List.nil_notMem_splitBy _ _)
  | cons first rest =>
    have hchain := List.isChain_of_mem_splitBy hgroup
    simp only [sameSymbol, decide_eq_true_eq] at hchain
    have : Trans (fun a b : Request => a.symbol = b.symbol) (fun a b : Request => a.symbol = b.symbol)
        (fun a b : Request => a.symbol = b.symbol) := ⟨fun h k => h.trans k⟩
    have hpairs := List.isChain_iff_pairwise.mp hchain
    have hsame : ∀ r ∈ first :: rest, r.symbol = first.symbol := by
      intro r hmem
      cases List.mem_cons.mp hmem with
      | inl hfirst => rw [hfirst]
      | inr hrest => exact ((List.pairwise_cons.mp hpairs).1 r hrest).symm
    exact ⟨first, rest, rfl, hsame⟩

theorem mem_groupMarks (first : Request) (rest : List Request) (i : ℕ) :
    i ∈ groupMarks features (first :: rest) ↔ ∃ k, findFeature features first.symbol = some k ∧
      (i = k ∨ i ∈ closure features k) := by
  cases hfound : findFeature features first.symbol with
  | none => simp [groupMarks, hfound]
  | some k => simp [groupMarks, hfound]

theorem mem_resolvedMarks (h : Checked features) (hr : Requestable features requests)
    (pythonRepr : Text → Text) (i : ℕ) :
    i ∈ resolvedMarks features pythonRepr requests ↔
      ∃ r ∈ requests, ∃ k, findFeature features r.symbol = some k ∧
        (i = k ∨ i ∈ closure features k) := by
  have hvalid : requests.filter (fun r => (checkRequest features pythonRepr r).2) = requests := by
    apply List.filter_eq_self.mpr
    intro r hmem
    rw [checkRequest_usable h hr pythonRepr hmem]
  unfold resolvedMarks requestGroups
  rw [hvalid, List.mem_flatMap]
  constructor
  · rintro ⟨group, hgroup, hi⟩
    obtain ⟨first, rest, hcons, _⟩ := group_symbols hgroup
    rw [hcons] at hgroup hi
    have hfirst := (grouped_flatten requests first).mp (List.mem_flatten.mpr ⟨_, hgroup, by simp⟩)
    exact ⟨first, hfirst, (mem_groupMarks first rest i).mp hi⟩
  · rintro ⟨r, hmem, hi⟩
    obtain ⟨group, hgroup, hin⟩ := List.mem_flatten.mp ((grouped_flatten requests r).mpr hmem)
    obtain ⟨first, rest, hcons, hsymbols⟩ := group_symbols hgroup
    rw [hsymbols r hin] at hi
    rw [hcons] at hgroup
    exact ⟨_, hgroup, (mem_groupMarks first rest i).mpr hi⟩

theorem resolvedMarks_least (h : Checked features) (hr : Requestable features requests)
    (pythonRepr : Text → Text) (i : ℕ) :
    i ∈ resolvedMarks features pythonRepr requests ↔
      i ∈ places features (leastSet features requests) := by
  rw [mem_resolvedMarks h hr]
  constructor
  · rintro ⟨r, hmem, k, hfound, hi⟩
    obtain ⟨f, hf, hname⟩ := (findFeature_iff h.sorted _ k).mp hfound
    have hrequested : f.name ∈ leastSet features requests := by
      apply Worklist.subset_closureOf
      exact List.mem_map.mpr ⟨r, hmem, hname.symm⟩
    cases hi with
    | inl hsame => exact ⟨f, hsame ▸ hf, hrequested⟩
    | inr hclosure =>
      apply closure_least h hf _ (Worklist.closureOf_closed _) i hclosure
      intro y hy
      apply Worklist.closureOf_closed _ f.name hrequested y
      rw [impliesOfName_feature h (List.mem_of_getElem? hf)]
      exact hy
  · rintro ⟨g, hg, hleast⟩
    let S : Set Text := {x | ∃ r ∈ requests, ∃ k, findFeature features r.symbol = some k ∧
      ∃ j, (j = k ∨ j ∈ closure features k) ∧ findFeature features x = some j}
    have hin : g.name ∈ S := by
      apply hleast S
      · intro x hx
        obtain ⟨r, hmem, hsymbol⟩ := List.mem_map.mp hx
        obtain ⟨f, hf, hname, _⟩ := hr.known r hmem
        obtain ⟨k, hk⟩ := List.mem_iff_getElem?.mp hf
        have hfound := findFeature_at h.sorted hk
        rw [hname] at hfound
        exact ⟨r, hmem, k, hfound, k, Or.inl rfl, hsymbol ▸ hfound⟩
      · rintro x ⟨r, hmem, k, hfound, j, hj, hx⟩ y hy
        obtain ⟨f, hf, hname⟩ := (findFeature_iff h.sorted x j).mp hx
        rw [← hname, impliesOfName_feature h (List.mem_of_getElem? hf)] at hy
        obtain ⟨l, target, hl, htarget, hlname⟩ := implies_known h (List.mem_of_getElem? hf) hy
        obtain ⟨first, hfirst, _⟩ := (findFeature_iff h.sorted _ k).mp hfound
        have hclosure := closure_closed h.sorted (List.getElem?_eq_some_iff.mp hfirst).1
        have himplied := (mem_implied h.sorted hf l).mpr ⟨target, htarget, hlname ▸ hy⟩
        refine ⟨r, hmem, k, hfound, l, Or.inr ?_, hl⟩
        cases hj with
        | inl hsame => exact hclosure.1 l (hsame ▸ himplied)
        | inr hin => exact hclosure.2 j hin l himplied
    obtain ⟨r, hmem, k, hfound, j, hj, hplace⟩ := hin
    rw [findFeature_at h.sorted hg, Option.some.injEq] at hplace
    exact ⟨r, hmem, k, hfound, hplace ▸ hj⟩

theorem range_names (features : List Feature) :
    (List.range features.length).map (nameOf features) = features.map Feature.name := by
  apply List.ext_getElem
  · simp
  · intro i _ hi
    have hi' : i < features.length := by simpa using hi
    simp [nameOf, hi']

theorem resolved_mem (h : Checked registry.features)
    (hr : Requestable registry.features requests) (pythonRepr : Text → Text) (context : Text)
    (x : Text) :
    x ∈ (jhFeatureResolve registry pythonRepr requests context).resolved ↔
      x ∈ leastSet registry.features requests := by
  simp only [jhFeatureResolve, List.mem_map, List.mem_filter, List.mem_range, decide_eq_true_eq,
    resolvedMarks_least h hr]
  constructor
  · rintro ⟨i, ⟨_, g, hg, hin⟩, hname⟩
    rw [← hname]
    simpa [nameOf, hg] using hin
  · intro hx
    obtain ⟨f, hf, hname⟩ := leastSet_names h hr hx
    obtain ⟨i, hi⟩ := List.mem_iff_getElem?.mp hf
    exact ⟨i, ⟨(List.getElem?_eq_some_iff.mp hi).1, f, hi, hname ▸ hx⟩, by simp [nameOf, hi, hname]⟩

theorem resolved_sorted (h : Checked registry.features) (pythonRepr : Text → Text)
    (context : Text) :
    (jhFeatureResolve registry pythonRepr requests context).resolved.Pairwise (· < ·) := by
  have hsorted := h.sorted
  rw [← range_names] at hsorted
  exact hsorted.sublist (List.filter_sublist.map _)

/-- A conflict is reported at the first of its two names. -/
theorem broken_iff (h : Checked features) (S : Set Text) :
    Broken features S ↔ ∃ f ∈ features, f.name ∈ S ∧
      ((∃ requirement ∈ f.requirements, requirement ∉ S) ∨
        ∃ conflict ∈ f.conflicts, conflict ∈ S ∧ f.name < conflict) := by
  constructor
  · rintro ⟨f, hf, hin, hbroken⟩
    cases hbroken with
    | inl hrequires => exact ⟨f, hf, hin, Or.inl hrequires⟩
    | inr hconflicts =>
      obtain ⟨conflict, hconflict, hother⟩ := hconflicts
      have hrelation : (ListField.conflicts, conflict) ∈ relations f := by
        simp [relations, hconflict]
      obtain ⟨g, hg, hname⟩ := h.known f hf _ hrelation
      have hname : g.name = conflict := hname
      cases lt_or_gt_of_ne (h.others f hf _ hrelation) with
      | inl hless =>
        have hback := h.symmetric f hf g hg (hname ▸ hconflict)
        exact ⟨g, hg, hname ▸ hother, Or.inr ⟨f.name, hback, hin, hname ▸ hless⟩⟩
      | inr hless => exact ⟨f, hf, hin, Or.inr ⟨conflict, hconflict, hother, hless⟩⟩
  · rintro ⟨f, hf, hin, hbroken⟩
    cases hbroken with
    | inl hrequires => exact ⟨f, hf, hin, Or.inl hrequires⟩
    | inr hconflicts =>
      obtain ⟨conflict, hconflict, hother, _⟩ := hconflicts
      exact ⟨f, hf, hin, Or.inr ⟨conflict, hconflict, hother⟩⟩

theorem marked_iff (h : Checked features) (hr : Requestable features requests)
    (pythonRepr : Text → Text) {f : Feature} (hf : f ∈ features) :
    ((findFeature features f.name).any fun i =>
      decide (i ∈ resolvedMarks features pythonRepr requests)) = true ↔
      f.name ∈ leastSet features requests := by
  obtain ⟨i, hi⟩ := List.mem_iff_getElem?.mp hf
  rw [findFeature_at h.sorted hi, Option.any_some, decide_eq_true_eq, resolvedMarks_least h hr]
  constructor
  · rintro ⟨g, hg, hin⟩
    rw [hi, Option.some.injEq] at hg
    exact hg ▸ hin
  · intro hin
    exact ⟨f, hi, hin⟩

/-- A relation target is marked when it is in the least set. -/
theorem target_marked (h : Checked features) (hr : Requestable features requests)
    (pythonRepr : Text → Text) {f : Feature} (hf : f ∈ features) {field : ListField}
    {target : Text} (htarget : (field, target) ∈ relations f) :
    ((findFeature features target).any fun i =>
      decide (i ∈ resolvedMarks features pythonRepr requests)) = true ↔
      target ∈ leastSet features requests := by
  obtain ⟨g, hg, hname⟩ := h.known f hf _ htarget
  have hname : g.name = target := hname
  rw [← hname]
  exact marked_iff h hr pythonRepr hg

theorem checkResolved_nil (h : Checked features) (hr : Requestable features requests)
    (pythonRepr : Text → Text) (context : Text) :
    checkResolved features context (resolvedMarks features pythonRepr requests) = [] ↔
      ¬Broken features (leastSet features requests) := by
  rw [broken_iff h]
  simp only [checkResolved, List.flatMap_eq_nil_iff, List.append_eq_nil_iff, List.map_eq_nil_iff,
    List.filter_eq_nil_iff]
  constructor
  · rintro hnil ⟨f, hf, hin, hbroken⟩
    obtain ⟨i, hi⟩ := List.mem_iff_getElem?.mp hf
    have hmarked : i ∈ resolvedMarks features pythonRepr requests :=
      (resolvedMarks_least h hr pythonRepr i).mpr ⟨f, hi, hin⟩
    obtain ⟨hrequires, hconflicts⟩ := hnil (f, i)
      (List.mem_filter.mpr ⟨List.mem_zipIdx_iff_getElem?.mpr hi, by simpa using hmarked⟩)
    cases hbroken with
    | inl hmissing =>
      obtain ⟨requirement, hrequirement, hout⟩ := hmissing
      have hrelation : (ListField.requirements, requirement) ∈ relations f := by
        simp [relations, hrequirement]
      have hfound := hrequires requirement hrequirement
      rw [Bool.not_eq_true, Bool.not_eq_false'] at hfound
      exact hout ((target_marked h hr pythonRepr hf hrelation).mp hfound)
    | inr hpair =>
      obtain ⟨conflict, hconflict, hother, hless⟩ := hpair
      have hrelation : (ListField.conflicts, conflict) ∈ relations f := by
        simp [relations, hconflict]
      apply hconflicts conflict hconflict
      rw [Bool.and_eq_true, decide_eq_true_eq]
      exact ⟨(target_marked h hr pythonRepr hf hrelation).mpr hother, hless⟩
  · rintro hsound ⟨f, i⟩ hmem
    obtain ⟨hplace, hmarked⟩ := List.mem_filter.mp hmem
    have hi := List.mem_zipIdx_iff_getElem?.mp hplace
    have hf := List.mem_of_getElem? hi
    obtain ⟨g, hg, hin⟩ := (resolvedMarks_least h hr pythonRepr i).mp (by simpa using hmarked)
    rw [hi, Option.some.injEq] at hg
    rw [← hg] at hin
    constructor
    · intro requirement hrequirement hmissing
      have hrelation : (ListField.requirements, requirement) ∈ relations f := by
        simp [relations, hrequirement]
      apply hsound ⟨f, hf, hin, Or.inl ⟨requirement, hrequirement, fun hleast => ?_⟩⟩
      rw [(target_marked h hr pythonRepr hf hrelation).mpr hleast] at hmissing
      cases hmissing
    · intro conflict hconflict hpair
      have hrelation : (ListField.conflicts, conflict) ∈ relations f := by
        simp [relations, hconflict]
      rw [Bool.and_eq_true, decide_eq_true_eq] at hpair
      exact hsound ⟨f, hf, hin, Or.inr ⟨conflict, hconflict,
        (target_marked h hr pythonRepr hf hrelation).mp hpair.1, hpair.2⟩⟩

theorem group_single (hdistinct : (requests.map Request.symbol).Nodup) {group : List Request}
    (hgroup : group ∈ grouped requests) : group.length = 1 := by
  obtain ⟨first, rest, hcons, hsymbols⟩ := group_symbols hgroup
  have hflat : ((grouped requests).flatten.map Request.symbol).Nodup := by
    rw [grouped, List.flatten_splitBy]
    have hperm := List.perm_insertionSort (fun a b : Request => a.symbol ≤ b.symbol) requests
    exact (hperm.map Request.symbol).nodup_iff.mpr hdistinct
  have hnodup := hflat.sublist ((List.sublist_flatten_of_mem hgroup).map Request.symbol)
  rw [hcons] at hnodup hsymbols ⊢
  cases rest with
  | nil => rfl
  | cons second rest =>
    have hsame := hsymbols second (by simp)
    simp [hsame] at hnodup

/-- Every symbol is requested once, so no finding says otherwise. -/
theorem addRequested_findings (context : Text) (groups : List (List Request))
    (hsingle : ∀ group ∈ groups, group.length = 1) (resolution : Resolution) :
    (groups.foldl (addRequested context) resolution).findings = resolution.findings := by
  induction groups generalizing resolution with
  | nil => rfl
  | cons group groups ih =>
    rw [List.foldl_cons, ih fun g hg => hsingle g (List.mem_cons_of_mem _ hg)]
    have hlength := hsingle group (List.mem_cons_self ..)
    cases group with
    | nil => rfl
    | cons first rest => simp [addRequested, hlength]

theorem resolve_findings (h : Checked registry.features)
    (hr : Requestable registry.features requests) (pythonRepr : Text → Text) (context : Text) :
    (jhFeatureResolve registry pythonRepr requests context).findings = [] ↔
      ¬Broken registry.features (leastSet registry.features requests) := by
  have hvalid : requests.filter (fun r => (checkRequest registry.features pythonRepr r).2) =
      requests := by
    apply List.filter_eq_self.mpr
    intro r hmem
    rw [checkRequest_usable h hr pythonRepr hmem]
  have hfindings : (requests.flatMap fun r => (checkRequest registry.features pythonRepr r).1) =
      [] := by
    rw [List.flatMap_eq_nil_iff]
    intro r hmem
    rw [checkRequest_usable h hr pythonRepr hmem]
  have hsingle : ∀ group ∈ grouped requests, group.length = 1 :=
    fun group hgroup => group_single hr.distinct hgroup
  simp only [jhFeatureResolve, requestGroups, hvalid,
    addRequested_findings context _ hsingle, hfindings, List.nil_append]
  exact checkResolved_nil h hr pythonRepr context

end Tool

end JaszczurHal.FeatureRegistry
