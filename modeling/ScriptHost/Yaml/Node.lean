import ScriptHost.Yaml.Plain

/-!
# YAML documents as trees

A `Node` is a document as it is written: scalars with or without quotes, sequences, mappings,
anchors and aliases, and tags.  `Node.datum?` says what the document denotes.  An alias
denotes what the anchor of its name marked before; a tag fixes the type of a scalar; the
entries of the value of a merge key come before those of the mapping itself, which win.

A document denotes nothing if an alias has no anchor, an anchor is given twice, a tag is not
one of the usual ones or does not fit, or a collection is the key of a mapping.
-/

namespace ScriptHost
namespace Yaml

/-- A document as it is written. -/
inductive Node where
  | scalar (quoted : Bool) (text : List Char)
  | sequence (items : List Node)
  | mapping (entries : List (Node × Node))
  | alias (name : List Char)
  | anchored (name : List Char) (n : Node)
  | tagged (tag : List Char) (n : Node)
  deriving Inhabited

namespace Node

/-- The node without content. -/
def empty : Node := .scalar false []

/-- What anchors denote. -/
abbrev Anchors := List (List Char × Datum)

/-- The value of a scalar under a tag. -/
def ofTag? (tag text : List Char) : Option Datum :=
  match String.ofList tag with
  | "!" => Plain.datum? text
  | "!!str" => some (.string (String.ofList text))
  | "!!int" => (Plain.integer? text).map .int
  | "!!float" => (Plain.float? text).map .float
  | "!!bool" => if Plain.tag text == .bool then Plain.datum? text else none
  | "!!null" => some .unit
  | _ => none

/-- Whether a tag fits a collection. -/
def fitsCollection (tag : List Char) : Datum → Bool
  | .array _ => tag == "!!seq".toList || tag == "!".toList
  | .map _ => tag == "!!map".toList || tag == "!".toList
  | _ => false

/-- Whether a datum can be the key of a mapping. -/
def isKey : Datum → Bool
  | .scalar _ => true
  | _ => false

/-- Whether a node is the merge key. -/
def isMerge : Node → Bool
  | .scalar false text => Plain.tag text == .merge
  | _ => false

/-- Whether a node is the mark for a default value, which as a key is a string. -/
def isValueMark : Node → Bool
  | .scalar false text => Plain.tag text == .value
  | _ => false

/-- The entries that the value of a merge key brings: those of a mapping, or of the mappings
in a sequence, of which the first one wins. -/
def mergedEntries? : Datum → Option (List (Datum × Datum))
  | .map entries => some entries
  | .array items => items.reverse.foldlM (fun done item => match item with
      | .map entries => some (done ++ entries)
      | _ => none) []
  | _ => none

mutual

/-- What a node denotes, and the anchors known after it. -/
def datumWith? (known : Anchors) : Node → Option (Datum × Anchors)
  | .scalar true text => some (.string (String.ofList text), known)
  | .scalar false text => (Plain.datum? text).map (·, known)
  | .sequence items => do
    let (ds, known) ← dataWith? known items
    some (.array ds, known)
  | .mapping entries => do
    let (merged, own, known) ← entriesWith? known entries
    some (.ofEntries (merged ++ own), known)
  | .alias name => (known.lookup name).map (·, known)
  | .anchored name n =>
    if (known.lookup name).isSome then none
    else do
      let (d, known) ← datumWith? known n
      some (d, (name, d) :: known)
  | .tagged tag (.scalar _ text) => (ofTag? tag text).map (·, known)
  | .tagged tag n => do
    let (d, known) ← datumWith? known n
    if fitsCollection tag d then some (d, known) else none

/-- What nodes denote, in order. -/
def dataWith? (known : Anchors) : List Node → Option (List Datum × Anchors)
  | [] => some ([], known)
  | n :: rest => do
    let (d, known) ← datumWith? known n
    let (ds, known) ← dataWith? known rest
    some (d :: ds, known)

/-- The entries of a mapping: those that are merged, and its own. -/
def entriesWith? (known : Anchors) :
    List (Node × Node) → Option (List (Datum × Datum) × List (Datum × Datum) × Anchors)
  | [] => some ([], [], known)
  | (key, value) :: rest =>
    if key.isMerge then do
      let (d, known) ← datumWith? known value
      let more ← mergedEntries? d
      let (merged, own, known) ← entriesWith? known rest
      some (more ++ merged, own, known)
    else do
      let (k, known) ←
        if key.isValueMark then some (.string "=", known) else datumWith? known key
      let (v, known) ← datumWith? known value
      let (merged, own, known) ← entriesWith? known rest
      if isKey k then some (merged, (k, v) :: own, known) else none

end

/-- What a document denotes. -/
def datum? (n : Node) : Option Datum := (datumWith? [] n).map (·.1)

end Node
end Yaml
end ScriptHost
