import JaszczurHal.Worklist
import Mathlib.Algebra.GroupWithZero.Nat
import Mathlib.Data.Char
import Mathlib.Data.List.Lex
import Mathlib.Data.List.Sort

/-!
# The feature registry

The symbols of all fragments, sorted by name, with the checks that a registry
passes before anything is generated from it.
-/

set_option autoImplicit false

namespace JaszczurHal.FeatureRegistry

abbrev Text := List Char

def text (s : String) : Text := s.toList

/-- One entry of `symbols`, as a fragment declares it; the note is stripped. -/
structure SymbolRecord where
  derived : Bool
  implies : List Text
  requirements : List Text
  conflicts : List Text
  featureSources : List Text
  portableSources : List Text
  dependencies : List Text
  note : Option Text

/-- A fragment file. The last of several members of one name is read. -/
structure Fragment where
  path : Text
  domain : Text
  symbols : List (Text × SymbolRecord)
  distinct : (symbols.map Prod.fst).Nodup

structure Feature where
  name : Text
  domain : Text
  note : Option Text
  derived : Bool
  implies : List Text
  requirements : List Text
  conflicts : List Text
  featureSources : List Text
  portableSources : List Text
  dependencies : List Text
  owner : ℕ
  deriving DecidableEq

structure Registry where
  features : List Feature
  fragments : List Text
  digest : Text
  schemaDigest : Text
  deriving DecidableEq

inductive ListField where
  | featureSources
  | portableSources
  | dependencies
  | implies
  | requirements
  | conflicts
  deriving DecidableEq

inductive LoadError where
  | noFragments
  | notASymbol (path name : Text)
  | emptyNote (path name : Text)
  | badItem (path name : Text) (field : ListField) (index : ℕ)
  | notUnique (path name : Text) (field : ListField)
  | overlap (path name : Text) (sources : List Text)
  | duplicate (path name : Text) (earlier : ℕ)
  | selfReference (name : Text) (field : ListField)
  | unknownSymbol (name : Text) (field : ListField) (target : Text)
  | disableDerived (name : Text)
  | disableInputs (name : Text)
  | impliesCycle (names : List Text)
  | asymmetricConflict (name target : Text)
  | conflictingClosure (name candidate other : Text)
  deriving DecidableEq

def reject : Option LoadError → Except LoadError Unit
  | none => .ok ()
  | some error => .error error

def symbolPart (c : Char) : Bool :=
  (decide ('A' ≤ c) && decide (c ≤ 'Z')) || (decide ('0' ≤ c) && decide (c ≤ '9')) || c == '_'

def featureSymbol (name : Text) : Bool :=
  [text "HAL_ENABLE_", text "HAL_DISABLE_"].any fun start =>
    start.isPrefixOf name && decide (start.length < name.length) &&
      (name.drop start.length).all symbolPart

def sourcePath (path : Text) : Bool :=
  let rest := path.drop 4
  (text "src/").isPrefixOf path &&
    rest.all (fun c => symbolPart c || (decide ('a' ≤ c) && decide (c ≤ 'z')) ||
      decide (c ∈ text "./+-")) &&
    [text ".c", text ".cc", text ".cpp", text ".S"].any fun suffix =>
      decide (suffix.length < rest.length) && suffix.isSuffixOf path

def sortTexts (items : List Text) : List Text := items.insertionSort (· ≤ ·)

def collectItems (path name : Text) (field : ListField) (valid : Text → Bool) :
    List Text → List Text → Except LoadError (List Text)
  | out, [] => .ok out
  | out, item :: items =>
    if ¬valid item then .error (.badItem path name field out.length)
    else if item ∈ out then .error (.notUnique path name field)
    else collectItems path name field valid (out ++ [item]) items

def normalizedList (path name : Text) (field : ListField) (valid : Text → Bool)
    (items : List Text) : Except LoadError (List Text) :=
  (collectItems path name field valid [] items).map sortTexts

def readSymbol (managed : List Text) (path domain : Text) (owner : ℕ) (name : Text)
    (record : SymbolRecord) : Except LoadError Feature := do
  reject (if featureSymbol name then none else some (.notASymbol path name))
  reject (if record.note = some [] then some (.emptyNote path name) else none)
  let featureSources ← normalizedList path name .featureSources sourcePath record.featureSources
  let portableSources ← normalizedList path name .portableSources sourcePath record.portableSources
  let overlap := featureSources.filter fun source => decide (source ∈ portableSources)
  reject (if overlap = [] then none else some (.overlap path name overlap))
  let dependencies ← normalizedList path name .dependencies (fun d => decide (d ∈ managed))
    record.dependencies
  let implies ← normalizedList path name .implies featureSymbol record.implies
  let requirements ← normalizedList path name .requirements featureSymbol record.requirements
  let conflicts ← normalizedList path name .conflicts featureSymbol record.conflicts
  return ⟨name, domain, record.note, record.derived, implies, requirements, conflicts,
    featureSources, portableSources, dependencies, owner⟩

def readFragment (managed : List Text) (fragment : Fragment) (owner : ℕ) :
    Except LoadError (List Feature) :=
  fragment.symbols.mapM fun symbol =>
    readSymbol managed fragment.path fragment.domain owner symbol.1 symbol.2

def duplicateSymbol (path : Text) (earlier read : List Feature) : Option LoadError :=
  read.findSome? fun feature =>
    (earlier.find? fun other => decide (other.name = feature.name)).map fun other =>
      .duplicate path feature.name other.owner

def readFragments (managed : List Text) :
    List Feature → ℕ → List Fragment → Except LoadError (List Feature)
  | features, _, [] => .ok features
  | features, owner, fragment :: fragments => do
    let read ← readFragment managed fragment owner
    reject (duplicateSymbol fragment.path features read)
    readFragments managed (features ++ read) (owner + 1) fragments

def search (names : List Text) (name : Text) : ℕ → ℕ → ℕ → Option ℕ
  | 0, _, _ => none
  | fuel + 1, low, high =>
    if low < high then
      let middle := low + (high - low) / 2
      match names[middle]? with
      | none => none
      | some found =>
        if found = name then some middle
        else if found < name then search names name fuel (middle + 1) high
        else search names name fuel low middle
    else none

def findFeature (features : List Feature) (name : Text) : Option ℕ :=
  search (features.map Feature.name) name (features.length + 1) 0 features.length

def relations (feature : Feature) : List (ListField × Text) :=
  feature.implies.map (Prod.mk ListField.implies) ++
    feature.requirements.map (Prod.mk ListField.requirements) ++
    feature.conflicts.map (Prod.mk ListField.conflicts)

def relationError (features : List Feature) (feature : Feature) : Option LoadError :=
  ((relations feature).findSome? fun (field, target) =>
    if target = feature.name then some (.selfReference feature.name field)
    else if findFeature features target = none then
      some (.unknownSymbol feature.name field target)
    else none).or
  (if (text "HAL_DISABLE_").isPrefixOf feature.name then
    if feature.derived then some (.disableDerived feature.name)
    else if feature.featureSources ≠ [] ∨ feature.portableSources ≠ [] ∨
        feature.dependencies ≠ [] then some (.disableInputs feature.name)
    else none
  else none)

def checkRelations (features : List Feature) : Option LoadError :=
  features.findSome? (relationError features)

inductive Mark where
  | new
  | visiting
  | visited
  deriving DecidableEq

def impliesOf (features : List Feature) (index : ℕ) : List Text :=
  (features[index]?.map Feature.implies).getD []

def nameOf (features : List Feature) (index : ℕ) : Text :=
  (features[index]?.map Feature.name).getD []

/-- The walk of `check_cycles`: the path, deepest first, with the implications
that are left. Every symbol is entered once and every implication followed once. -/
def walk (features : List Feature) :
    ℕ → (ℕ → Mark) → List (ℕ × List Text) → Except LoadError (ℕ → Mark)
  | 0, marks, _ => .ok marks
  | _ + 1, marks, [] => .ok marks
  | fuel + 1, marks, (current, []) :: path =>
    walk features fuel (Function.update marks current .visited) path
  | fuel + 1, marks, (current, child :: children) :: path =>
    match findFeature features child with
    | none => .ok marks
    | some target =>
      match marks target with
      | .visited => walk features fuel marks ((current, children) :: path)
      | .visiting =>
        let cycle := ((current :: path.map Prod.fst).reverse.dropWhile (· ≠ target)) ++ [target]
        .error (.impliesCycle (cycle.map (nameOf features)))
      | .new =>
        walk features fuel (Function.update marks target .visiting)
          ((target, impliesOf features target) :: (current, children) :: path)

def checkCycles (features : List Feature) : Except LoadError Unit :=
  let fuel := features.length + (features.map fun f => f.implies.length).sum + 1
  let start : Except LoadError (ℕ → Mark) := .ok fun _ => .new
  ((List.range features.length).foldl (fun marks root => do
    let marks ← marks
    if marks root = .visited then return marks
    walk features fuel (Function.update marks root .visiting) [(root, impliesOf features root)])
    start).map fun _ => ()

def implied (features : List Feature) (index : ℕ) : List ℕ :=
  (impliesOf features index).filterMap (findFeature features)

def closure (features : List Feature) (index : ℕ) : List ℕ :=
  let seen := Worklist.run Worklist.pushFront (implied features) (features.length + 1) ⟨[], [index]⟩
  (List.range features.length).filter fun i => decide (i ∈ seen)

def conflictsAt (features : List Feature) (index : ℕ) : List Text :=
  (features[index]?.map Feature.conflicts).getD []

def conflictsOf (features : List Feature) (name : Text) : List Text :=
  ((findFeature features name).map (conflictsAt features)).getD []

def conflictError (features : List Feature) (index : ℕ) (feature : Feature) : Option LoadError :=
  (feature.conflicts.findSome? fun target =>
    if feature.name ∈ conflictsOf features target then none
    else some (.asymmetricConflict feature.name target)).or
  (let active := (List.range features.length).filter fun i =>
    decide (i = index ∨ i ∈ closure features index)
  active.findSome? fun a => active.findSome? fun b =>
    if nameOf features b ∈ conflictsAt features a then
      some (.conflictingClosure feature.name (nameOf features a) (nameOf features b))
    else none)

def checkConflicts (features : List Feature) : Option LoadError :=
  features.zipIdx.findSome? fun (feature, index) => conflictError features index feature

/-- `jh_feature_registry_load` from the typed documents on; the digests are
computed from them. -/
def load (managed : List Text) (registryDigest : List Feature → Text) (schemaDigest : Text)
    (fragments : List Fragment) : Except LoadError Registry := do
  reject (if fragments = [] then some .noFragments else none)
  let read ← readFragments managed [] 0 fragments
  let features := read.insertionSort fun a b => a.name ≤ b.name
  reject (checkRelations features)
  checkCycles features
  reject (checkConflicts features)
  return ⟨features, fragments.map Fragment.path, registryDigest features, schemaDigest⟩

end JaszczurHal.FeatureRegistry
