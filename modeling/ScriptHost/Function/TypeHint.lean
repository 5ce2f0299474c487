import ScriptHost.Value.Text

/-!
# Annotations

What the parameters and the result of a host function are annotated with.  An annotation
may be a kind, a form built from kinds (a receiver, a collection of something, a union), an
object that is no type at all, or a text that is to be evaluated and names one of these.

`TypeHint.kindOf` maps an annotation onto the kind that dispatch compares; a union has no
single kind and is refused.
-/

namespace ScriptHost

/-- What a parameter or a result is annotated with. -/
inductive TypeHint where
  /-- The absent value, which stands for the kind of unit. -/
  | none
  | kind (k : Kind)
  /-- Any value at all. -/
  | any
  /-- An exclusive handle, with or without the type behind it. -/
  | receiver (inner : Option TypeHint)
  /-- A collection with the types of its parts. -/
  | collection (k : Kind) (parts : List TypeHint)
  /-- A union, written with a vertical bar or with the name of the form. -/
  | union (named : Bool) (members : List TypeHint)
  /-- The name of a form, without what the form needs. -/
  | form (name : String)
  | variable (name : String)
  /-- A datum, which is no type. -/
  | literal (d : Datum)
  /-- Any other object, known by its text. -/
  | other (shown : String)
  /-- A text that has not been resolved. -/
  | text (s : String)
  deriving Inhabited

/-- Why an annotation has no kind. -/
inductive KindError where
  | union (shown : String)
  | unsupported (shown : String)
  deriving DecidableEq

/-- The wording of a refused annotation. -/
def KindError.message : KindError → String
  | .union shown => "Union parameter type " ++ shown ++ " is not supported, use Dynamic"
  | .unsupported shown => "Unsupported parameter type " ++ shown

namespace TypeHint

/-- Texts in brackets after a name. -/
def indexed (name : String) (parts : List String) : String :=
  name ++ "[" ++ ", ".intercalate parts ++ "]"

/-- The name of the absent value in a union written with bars. -/
def barName (shown : String) : String := if shown = "NoneType" then "None" else shown

/-- The text of a reference. -/
def referenceText (s : String) : String := "ForwardRef(" ++ Text.quotedString s ++ ")"

mutual

/-- The text of an annotation inside another one. -/
def shown : TypeHint → String
  | .none => "None"
  | .kind k => k.qualifiedName
  | .any => "typing.Any"
  | .receiver .none => Kind.handle.qualifiedName
  | .receiver (some inner) => indexed Kind.handle.qualifiedName [inner.referred]
  | .collection k parts => indexed k.qualifiedName (shownAll parts)
  | .union true [a, .kind .unit] => indexed "typing.Optional" [a.referred]
  | .union true [.kind .unit, a] => indexed "typing.Optional" [a.referred]
  | .union true members => indexed "typing.Union" (referredAll members)
  | .union false members => " | ".intercalate ((shownAll members).map barName)
  | .form name => name
  | .variable name => "~" ++ name
  | .literal d => String.ofList d.exact
  | .other shown => shown
  | .text s => Text.quotedString s

/-- The text of an annotation where a text counts as a reference. -/
def referred : TypeHint → String
  | .text s => referenceText s
  | .none => "None"
  | .kind k => k.qualifiedName
  | .any => "typing.Any"
  | .receiver .none => Kind.handle.qualifiedName
  | .receiver (some inner) => indexed Kind.handle.qualifiedName [inner.referred]
  | .collection k parts => indexed k.qualifiedName (shownAll parts)
  | .union true [a, .kind .unit] => indexed "typing.Optional" [a.referred]
  | .union true [.kind .unit, a] => indexed "typing.Optional" [a.referred]
  | .union true members => indexed "typing.Union" (referredAll members)
  | .union false members => " | ".intercalate ((shownAll members).map barName)
  | .form name => name
  | .variable name => "~" ++ name
  | .literal d => String.ofList d.exact
  | .other shown => shown

def shownAll : List TypeHint → List String
  | [] => []
  | a :: rest => a.shown :: shownAll rest

def referredAll : List TypeHint → List String
  | [] => []
  | a :: rest => a.referred :: referredAll rest

end

/-- The kind that dispatch compares for an annotation. -/
def kindOf : TypeHint → Except KindError Kind
  | .none => .ok .unit
  | .kind k => .ok k
  | .any => .ok .dynamic
  | .receiver _ => .ok .handle
  | .collection k _ => .ok k
  | .union named members => .error (.union (TypeHint.union named members).shown)
  | a => .error (.unsupported a.referred)

/-- The type behind an exclusive handle, which may be left out; none for an annotation that is no
handle. -/
def handle? : TypeHint → Option (Option TypeHint)
  | .receiver inner => some inner
  | .kind .handle => some Option.none
  | .collection .handle parts => some parts.head?
  | _ => Option.none

/-- The members that an annotation adds to a union. -/
def members : TypeHint → List TypeHint
  | .union _ ms => ms
  | .none => [.kind .unit]
  | a => [a]

/-- The union of annotations, each counted once; a single one is no union. -/
def unite (named : Bool) (parts : List TypeHint) : TypeHint :=
  let add := fun done (a : TypeHint) =>
    if done.any fun b : TypeHint => b.shown == a.shown then done else done ++ [a]
  match (parts.flatMap members).foldl add [] with
  | [a] => a
  | ms => .union named ms

/-- Whether an annotation belongs to the named forms, which carry any union they join. -/
def isNamedForm : TypeHint → Bool
  | .receiver (some _) => true
  | .union named _ => named
  | .variable _ => true
  | _ => false

/-- A quoted text stands for an annotation that still has to be resolved. -/
def asPart : TypeHint → TypeHint
  | .literal (.scalar (.string s)) => .text s
  | a => a

/-- Whether an annotation can be a member of a union. -/
def joinable : TypeHint → Bool
  | .none | .kind _ | .any | .receiver _ | .collection .. | .union .. | .variable _ => true
  | .form _ | .literal _ | .other _ | .text _ => false

end TypeHint
end ScriptHost
