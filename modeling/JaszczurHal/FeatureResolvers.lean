import JaszczurHal.FeatureRegistry
import Mathlib.Data.List.Dedup
import Mathlib.Data.List.SplitBy

/-!
# Three resolvers

A set of requests is resolved by the tool, by the preprocessor in the generated
header and by CMake in the generated functions.
-/

set_option autoImplicit false

namespace JaszczurHal.FeatureRegistry

structure Request where
  symbol : Text
  value : Option Text
  source : Text

structure Provenance where
  symbol : Text
  sources : List Text
  deriving DecidableEq

structure Resolution where
  requested : List Text
  resolved : List Text
  provenance : List Provenance
  findings : List Text

def enabled (request : Request) : Bool :=
  decide (request.value = none ∨ request.value = some (text "1"))

def location (source : Text) : Text := if ':' ∈ source then source else source ++ text ":$"

def checkRequest (features : List Feature) (pythonRepr : Text → Text) (request : Request) :
    List Text × Bool :=
  match findFeature features request.symbol with
  | none =>
    ([location request.source ++ text ": [JH-CFG-UNKNOWN] unknown feature " ++ request.symbol], false)
  | some index =>
    let valueFindings :=
      if enabled request then []
      else if request.value = some (text "0") then
        [location request.source ++ text ": [JH-CFG-VALUE] " ++ request.symbol ++
          text "=0 is unsupported; omit the symbol to disable it"]
      else
        [location request.source ++ text ": [JH-CFG-VALUE] " ++ request.symbol ++
          text " has unsupported value " ++ pythonRepr (request.value.getD [])]
    let derived := (features[index]?.map Feature.derived).getD false
    let derivedFindings :=
      if derived then
        [location request.source ++ text ": [JH-CFG-DERIVED] " ++ request.symbol ++
          text " cannot be requested directly"]
      else []
    (valueFindings ++ derivedFindings, enabled request && !derived)

def joined (separator : Text) : List Text → Text
  | [] => []
  | [item] => item
  | item :: items => item ++ separator ++ joined separator items

def addRequested (context : Text) (resolution : Resolution) (group : List Request) : Resolution :=
  match group with
  | [] => resolution
  | first :: _ =>
    let sources := (sortTexts (group.map Request.source)).dedup
    let redundant :=
      if 1 < group.length then
        [context ++ text ": [JH-CFG-REDUNDANT] " ++ first.symbol ++ text " is requested " ++
          text (toString group.length) ++ text " times by " ++ joined (text ", ") sources]
      else []
    { resolution with
      requested := resolution.requested ++ [first.symbol]
      provenance := resolution.provenance ++ [⟨first.symbol, sources⟩]
      findings := resolution.findings ++ redundant }

def groupMarks (features : List Feature) (group : List Request) : List ℕ :=
  match group.head?.bind fun first => findFeature features first.symbol with
  | none => []
  | some index => index :: closure features index

def checkResolved (features : List Feature) (context : Text) (marks : List ℕ) : List Text :=
  let marked (name : Text) : Bool := (findFeature features name).any fun i => decide (i ∈ marks)
  (features.zipIdx.filter fun indexed => decide (indexed.2 ∈ marks)).flatMap fun (feature, _) =>
    ((feature.requirements.filter fun requirement => !marked requirement).map fun requirement =>
      context ++ text ": [JH-CFG-REQUIRES] " ++ feature.name ++ text " requires " ++ requirement) ++
    ((feature.conflicts.filter fun conflict =>
        marked conflict && decide (feature.name < conflict)).map fun conflict =>
      context ++ text ": [JH-CFG-CONFLICT] " ++ feature.name ++ text " conflicts with " ++ conflict)

def sameSymbol (a b : Request) : Bool := decide (a.symbol = b.symbol)

def grouped (requests : List Request) : List (List Request) :=
  (requests.insertionSort fun a b => a.symbol ≤ b.symbol).splitBy sameSymbol

def requestGroups (features : List Feature) (pythonRepr : Text → Text) (requests : List Request) :
    List (List Request) :=
  grouped (requests.filter fun request => (checkRequest features pythonRepr request).2)

def resolvedMarks (features : List Feature) (pythonRepr : Text → Text) (requests : List Request) :
    List ℕ :=
  (requestGroups features pythonRepr requests).flatMap (groupMarks features)

def jhFeatureResolve (registry : Registry) (pythonRepr : Text → Text) (requests : List Request)
    (context : Text) : Resolution :=
  let features := registry.features
  let requestFindings := requests.flatMap fun request => (checkRequest features pythonRepr request).1
  let resolution := (requestGroups features pythonRepr requests).foldl (addRequested context)
    ⟨[], [], [], requestFindings⟩
  let marks := resolvedMarks features pythonRepr requests
  { resolution with
    resolved := ((List.range features.length).filter fun i => decide (i ∈ marks)).map
      (nameOf features)
    findings := resolution.findings ++ checkResolved features context marks }

/-- The lines of the generated header; a test is `defined`, or not `defined`. -/
inductive Line where
  | ifndef (name : Text)
  | ifAll (tests : List (Bool × Text))
  | define (name body : Text)
  | error (message : Text)
  | pragma (message : Text)
  | endif

def guardedLine (tests : List (Bool × Text)) (line : Line) : List Line := [.ifAll tests, line, .endif]

def graphGuard : Text := text "JH_HAL_GENERATED_FEATURE_GRAPH_INCLUDED"

def errorLines (check : List (Bool × Text) × Text) : List Line := guardedLine check.1 (.error check.2)

def derivedChecks (feature : Feature) : List (List (Bool × Text) × Text) :=
  if feature.derived then
    [([(true, feature.name)],
      text "[JH-CFG-DERIVED] " ++ feature.name ++ text " cannot be requested directly")]
  else []

def impliedLines (features : List Feature) (index : ℕ) : List Line :=
  let implied := (closure features index).map (nameOf features)
  if implied = [] then []
  else
    .ifAll [(true, nameOf features index)] ::
      implied.flatMap (fun dependency =>
        guardedLine [(false, dependency)] (.define dependency (text "1"))) ++ [.endif]

def requiresMessage (name requirement : Text) : Text :=
  text "[JH-CFG-REQUIRES] " ++ name ++ text " requires " ++ requirement

def conflictMessage (name conflict : Text) : Text :=
  text "[JH-CFG-CONFLICT] " ++ name ++ text " conflicts with " ++ conflict

def relationChecks (feature : Feature) : List (List (Bool × Text) × Text) :=
  feature.requirements.map (fun requirement =>
    ([(true, feature.name), (false, requirement)], requiresMessage feature.name requirement)) ++
  (feature.conflicts.filter fun conflict => decide (feature.name < conflict)).map fun conflict =>
    ([(true, feature.name), (true, conflict)], conflictMessage feature.name conflict)

def jhFeatureRegistryHeader (registry : Registry) : List Line :=
  let features := registry.features
  ([.ifndef graphGuard, .define graphGuard (text "1"),
    .define (text "JH_HAL_FEATURE_SCHEMA_VERSION") (text "1"),
    .define (text "JH_HAL_FEATURE_GENERATOR_VERSION") (text "2"),
    .define (text "JH_HAL_FEATURE_REGISTRY_DIGEST") ('"' :: registry.digest ++ ['"']),
    .define (text "JH_HAL_FEATURE_SCHEMA_DIGEST") ('"' :: registry.schemaDigest ++ ['"'])] : List Line) ++
  (features.flatMap derivedChecks).flatMap errorLines ++
  (List.range features.length).flatMap (impliedLines features) ++
  (features.flatMap relationChecks).flatMap errorLines ++
  ([.endif,
    .ifAll [(true, text "HAL_CONFIG_VERBOSE"),
      (false, text "JH_HAL_FEATURE_VERBOSE_REPORT_DEFERRED"),
      (false, text "JH_HAL_FEATURE_VERBOSE_REPORT_EMITTED")],
    .define (text "JH_HAL_FEATURE_VERBOSE_REPORT_EMITTED") (text "1")] : List Line) ++
  features.flatMap (fun feature =>
    guardedLine [(true, feature.name)] (.pragma (text "HAL_CONFIG: " ++ feature.name))) ++
  ([.endif] : List Line)

/-- The preprocessor: the macros that are defined, the open conditionals with
whether each is active, and the errors. -/
structure Preprocessor where
  defined : List Text
  frames : List Bool
  errors : List Text

theorem text_lawful : LawfulBEq Text := inferInstance

-- the membership tests below share one proof that texts compare lawfully
attribute [local instance] text_lawful

def isDefined (p : Preprocessor) (name : Text) : Bool := decide (name ∈ p.defined)

def active (p : Preprocessor) : Bool := p.frames.all id

def holds (p : Preprocessor) (test : Bool × Text) : Bool := isDefined p test.2 == test.1

def preprocessLine (p : Preprocessor) : Line → Preprocessor
  | .ifndef name => { p with frames := (!isDefined p name) :: p.frames }
  | .ifAll tests => { p with frames := (tests.all (holds p)) :: p.frames }
  | .define name _ => if active p then { p with defined := name :: p.defined } else p
  | .error message => if active p then { p with errors := p.errors ++ [message] } else p
  | .pragma _ => p
  | .endif => { p with frames := p.frames.tail }

def preprocess (defined : List Text) (lines : List Line) : Preprocessor :=
  lines.foldl preprocessLine ⟨defined, [], []⟩

def effectValues (suffix : String) (values : List Text) : List (String × List Text) :=
  if values = [] then [] else [(suffix, values)]

def featureValues (features : List Feature) (index : ℕ) (feature : Feature) :
    List (String × List Text) :=
  [("_DOMAIN", [feature.domain]),
    ("_KIND", [if feature.derived then text "derived" else text "feature"]),
    ("_IMPLIES", feature.implies),
    ("_TRANSITIVE_IMPLIES", (closure features index).map (nameOf features)),
    ("_REQUIRES", feature.requirements),
    ("_CONFLICTS", feature.conflicts)] ++
  effectValues "_BUILD_EFFECT_FEATURE_SOURCES" feature.featureSources ++
  effectValues "_BUILD_EFFECT_PORTABLE_SOURCES" feature.portableSources ++
  effectValues "_BUILD_EFFECT_DEPENDENCIES" feature.dependencies

def featureVariable (name : Text) (suffix : String) : Text :=
  text "JH_HAL_FEATURE_" ++ name ++ text suffix

def featureSets (features : List Feature) (index : ℕ) (feature : Feature) :
    List (Text × List Text) :=
  (featureValues features index feature).map fun (suffix, values) =>
    (featureVariable feature.name suffix, values)

def listSets (registry : Registry) : List (Text × List Text) :=
  [(text "JH_HAL_FEATURE_SCHEMA_VERSION", [text "1"]),
    (text "JH_HAL_FEATURE_GENERATOR_VERSION", [text "2"]),
    (text "JH_HAL_FEATURE_REGISTRY_DIGEST", [registry.digest]),
    (text "JH_HAL_FEATURE_SCHEMA_DIGEST", [registry.schemaDigest]),
    (text "JH_HAL_FEATURE_SYMBOLS", registry.features.map Feature.name),
    (text "JH_HAL_FEATURE_DERIVED_SYMBOLS",
      (registry.features.filter Feature.derived).map Feature.name)]

def cmakeSets (registry : Registry) : List (Text × List Text) :=
  listSets registry ++ registry.features.zipIdx.flatMap fun (feature, index) =>
    featureSets registry.features index feature

/-- A variable holds what was set last; one that was not set is empty. -/
def cmakeVariable (sets : List (Text × List Text)) (name : Text) : List Text :=
  ((sets.reverse.find? fun set => decide (set.1 = name)).map Prod.snd).getD []

def withoutD (raw : Text) : Text := if (text "-D").isPrefixOf raw then raw.drop 2 else raw

def cmakeSymbol (sets : List (Text × List Text)) (raw : Text) : Except Text Text :=
  let definition := withoutD raw
  let stem := definition.take (definition.length - 2)
  let symbol : Except Text Text :=
    if featureSymbol stem ∧ definition = stem ++ text "=0" then
      .error (text "[JH-CFG-VALUE] " ++ raw ++
        text " is unsupported; omit the symbol to disable it")
    else if featureSymbol stem ∧ definition = stem ++ text "=1" then .ok stem
    else if featureSymbol definition then .ok definition
    else .error (text "[JH-CFG-VALUE] invalid feature definition " ++ raw)
  symbol.bind fun symbol =>
    if symbol ∉ cmakeVariable sets (text "JH_HAL_FEATURE_SYMBOLS") then
      .error (text "[JH-CFG-UNKNOWN] unknown feature " ++ symbol)
    else if symbol ∈ cmakeVariable sets (text "JH_HAL_FEATURE_DERIVED_SYMBOLS") then
      .error (text "[JH-CFG-DERIVED] " ++ symbol ++ text " cannot be requested directly")
    else .ok symbol

def relationVariable (sets : List (Text × List Text)) (name : Text) (suffix : String) : List Text :=
  cmakeVariable sets (featureVariable name suffix)

/-- The requested and the resolved symbols. The work list takes every symbol at
most once. -/
def cmakeResolved (sets : List (Text × List Text)) (requested : List Text) : List Text :=
  sortTexts (Worklist.run Worklist.pushBack (fun name => relationVariable sets name "_IMPLIES")
    (cmakeVariable sets (text "JH_HAL_FEATURE_SYMBOLS")).length ⟨requested, requested⟩)

def cmakeCheck (sets : List (Text × List Text)) (resolved : List Text) : Option Text :=
  resolved.findSome? fun feature =>
    ((relationVariable sets feature "_REQUIRES").findSome? fun required =>
      if required ∈ resolved then none else some (requiresMessage feature required)).or
    ((relationVariable sets feature "_CONFLICTS").findSome? fun conflict =>
      if conflict ∈ resolved then some (conflictMessage feature conflict) else none)

def cmakeRequested (sets : List (Text × List Text)) (raws : List Text) : Except Text (List Text) :=
  (raws.mapM (cmakeSymbol sets)).map fun symbols => sortTexts symbols.dedup

def jhHalResolveFeatures (sets : List (Text × List Text)) (raws : List Text) :
    Except Text (List Text × List Text) := do
  let requested ← cmakeRequested sets raws
  let resolved := cmakeResolved sets requested
  match cmakeCheck sets resolved with
  | some error => throw error
  | none => return (requested, resolved)

def definition (request : Request) : Text :=
  request.symbol ++ (request.value.map fun value => '=' :: value).getD []

end JaszczurHal.FeatureRegistry
