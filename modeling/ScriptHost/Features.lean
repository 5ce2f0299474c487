import ScriptHost.Value.Text

/-!
# Features

The optional parts of the value system.  A package registers functions for a part only if
the part is on.  Features are read from a setting, a map from names of features to truth
values in which a name that is missing means on; a setting that is empty in any way means
that all are on.
-/

namespace ScriptHost

/-- An optional part of the value system. -/
inductive Feature where
  | sizedIntegers
  | floatingPoint
  | arrays
  | objectMaps
  deriving DecidableEq

namespace Feature

/-- All features, in the order in which they are listed. -/
def all : List Feature := [.sizedIntegers, .floatingPoint, .arrays, .objectMaps]

/-- The name of a feature. -/
def name : Feature → String
  | .sizedIntegers => "sized_integers"
  | .floatingPoint => "floating_point"
  | .arrays => "arrays"
  | .objectMaps => "object_maps"

/-- The feature of a name. -/
def ofName? (s : String) : Option Feature := all.find? fun f => f.name == s

/-- The names of all features. -/
def names : List String := all.map name

end Feature

/-- Which features are on. -/
structure Features where
  has : Feature → Bool

/-- Why a setting does not say which features are on. -/
inductive FeatureError where
  | unknown (names : List String)
  | notIterable (kind : Kind)
  | noEntries (kind : Kind)
  | unhashable (kind : Kind)
  /-- A name of another kind than a string. -/
  | notText (kind : Kind)
  deriving DecidableEq

namespace FeatureError

/-- How the failure is reported. -/
def kind : FeatureError → FailureKind
  | .unknown _ => .value
  | .noEntries _ => .attribute
  | .notIterable _ | .unhashable _ | .notText _ => .type

/-- The wording of the failure. -/
def message : FeatureError → String
  | .unknown names => "Unknown feature(s): " ++ ", ".intercalate names
  | .notIterable k => Text.quotedString k.hostName ++ " object is not iterable"
  | .noEntries k => Text.quotedString k.hostName ++ " object has no attribute 'items'"
  | .unhashable k => "unhashable type: " ++ Text.quotedString k.hostName
  | .notText k => "sequence item 0: expected str instance, " ++ k.hostName ++ " found"

end FeatureError

/-- Strings in increasing order, each once. -/
def sortedNames (names : List String) : List String :=
  names.eraseDups.mergeSort fun s t => decide (s ≤ t)

namespace Features

/-- All features on. -/
def all : Features := ⟨fun _ => true⟩

/-- The same features with some switched off. -/
def without (fs : Features) (off : List Feature) : Features := ⟨fun f => fs.has f && !off.contains f⟩

/-- The names of a list that belong to no feature. -/
def unknownNames (names : List String) : List String :=
  sortedNames (names.filter fun s => (Feature.ofName? s).isNone)

/-- Switches off the named features. -/
def withoutNames (fs : Features) (names : List String) : Except FeatureError Features :=
  match unknownNames names with
  | [] => .ok (fs.without (names.filterMap Feature.ofName?))
  | unknown => .error (.unknown unknown)

/-- The setting that says the same. -/
def toDatum (fs : Features) : Datum :=
  .map (Feature.all.map fun f => (.string f.name, .bool (fs.has f)))

mutual

/-- The first part of a datum that cannot be a member of a set. -/
def unhashable? : Datum → Option Kind
  | .array _ => some .array
  | .map _ => some .map
  | .dynamic _ => some .dynamic
  | .tuple items => unhashableIn? items
  | _ => none

def unhashableIn? : List Datum → Option Kind
  | [] => none
  | d :: rest => (unhashable? d).or (unhashableIn? rest)

end

/-- The texts among data. -/
def textsOf (ds : List Datum) : List String :=
  ds.filterMap fun d => match d with
    | .scalar s => s.text?
    | _ => none

/-- Checks names given as data: all have to be hashable and to name a feature. -/
def checkNames (ds : List Datum) : Except FeatureError Unit :=
  match unhashableIn? ds with
  | some k => .error (.unhashable k)
  | none =>
    let others := ds.filter fun d => match d with
      | .scalar s => s.text?.isNone
      | _ => true
    match others, unknownNames (textsOf ds) with
    | d :: _, _ => .error (.notText d.kind)
    | [], [] => .ok ()
    | [], unknown => .error (.unknown unknown)

/-- Whether the entries of a setting leave a feature on. -/
def isOnIn (entries : List (Datum × Datum)) (f : Feature) : Bool :=
  match Datum.find? entries f.name with
  | some d => d.truthy
  | none => true

/-- The features of a setting. -/
def ofDatum (d : Datum) : Except FeatureError Features :=
  if !d.truthy then .ok all
  else match d with
    | .map entries => do
      checkNames (entries.map (·.1))
      .ok ⟨isOnIn entries⟩
    | .array items | .tuple items => do
      checkNames items
      .error (.noEntries d.kind)
    | .scalar s => match s.text? with
      | some text => do
        checkNames (text.toList.map fun c => .string c.toString)
        .error (.noEntries d.kind)
      | none => .error (.notIterable d.kind)
    | _ => .error (.notIterable d.kind)

end Features
end ScriptHost
