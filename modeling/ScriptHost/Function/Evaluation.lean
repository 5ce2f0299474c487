import ScriptHost.Function.Expression

/-!
# The values of text annotations

The scope of a host whose functions see a table of names.  Most of what is evaluated names types:
names, forms applied to parts in brackets, alternatives divided by bars.  The rest is computing
with data: arithmetic on integers, comparisons, truth values, conditional expressions, items of
lists, tuples, maps and texts.  It matters since it can fail in ways of its own.

Attributes, calls, powers, bit operations and arithmetic on anything but integers have no value
here.
-/

namespace ScriptHost
namespace TypeExpr

/-- What the names of an annotation text usually stand for. -/
def named? (s : String) : Option TypeHint :=
  match s with
  | "int" => some (.kind .int)
  | "float" => some (.kind .float)
  | "bool" => some (.kind .bool)
  | "str" => some (.kind .string)
  | "Char" => some (.kind .char)
  | "list" => some (.kind .array)
  | "dict" => some (.kind .map)
  | "None" => some .none
  | "NoneType" => some (.kind .unit)
  | "F32" => some (.kind .single)
  | "Dynamic" => some (.kind .dynamic)
  | "Any" => some .any
  | "Mut" => some (.receiver none)
  | "tuple" => some (.kind .tuple)
  | "object" | "bytes" | "set" => some (.kind (.foreign s))
  | "T" => some (.variable "T")
  | "Optional" | "Union" => some (.form ("typing." ++ s))
  | _ => (Width.all.find? fun w => w.label == s).map fun w => .kind (.sized w)

/-- Kinds that can be written with the types of their parts. -/
def indexable (k : Kind) : Bool :=
  k == .array || k == .map || k == .tuple || k == .foreign "set"

/-- Whether blanks stand before a text. -/
def isIndented (s : String) : Bool := (s.toList.head?.map isBlank).getD false

/-- A text that is no expression. -/
def malformed {α : Type} : Except Obstacle α := .error (.stop (.malformed "invalid syntax"))

/-- Ends with an exception. -/
def raised {α : Type} (k : FailureKind) (hk : k.name ≠ FailureKind.runtime.name)
    (wording : String) : Except Obstacle α :=
  .error (.stop (.raised ⟨k.name, wording, hk⟩))

/-- A part of a form: a quoted text is a reference, which has to be an expression. -/
def asReference : TypeHint → Except Obstacle TypeHint
  | .literal (.scalar (.string s)) =>
    if isIndented s || (parse? (Scope.spelled s)).isNone then
      .error (.stop (.malformed (Scope.notExpression s)))
    else .ok (.text s)
  | a => .ok a

/-- A part of a union, which cannot be the bare name of a form. -/
def asMember : TypeHint → Except Obstacle TypeHint
  | .form _ => .error .missing
  | a => asReference a

/-- The item that an integer means in a sequence. -/
def itemAt {α : Type} (items : List α) (i : Int) (wording : String) : Except Obstacle α :=
  let place := if i < 0 then i + items.length else i
  match if place < 0 then none else items[place.toNat]? with
  | some item => .ok item
  | none => raised .index (by decide) wording

/-- An item of a datum. -/
def item (d key : Datum) : Except Obstacle TypeHint :=
  match d, key with
  | .array items, .scalar (.int i) => (itemAt items i "list index out of range").map .literal
  | .tuple items, .scalar (.int i) => (itemAt items i "tuple index out of range").map .literal
  | .scalar (.string s), .scalar (.int i) =>
    (itemAt s.toList i "string index out of range").map fun c => .literal (.string c.toString)
  | .map entries, key => match entries.find? fun entry => entry.1.sameKey key with
    | some (_, value) => .ok (.literal value)
    | none => raised .key (by decide) (String.ofList key.exact)
  | _, _ => .error .missing

/-- A form applied to parts, or an item of a datum. -/
def applied (a : TypeHint) (parts : List TypeHint) : Except Obstacle TypeHint :=
  match a, parts with
  | .kind k, _ =>
    if indexable k then .ok (.collection k (parts.map TypeHint.asPart)) else .error .missing
  | .receiver none, _ => do
    match ← parts.mapM asReference with
    | [p] => .ok (.receiver (some (if p matches .none then .kind .unit else p)))
    | _ => .error .missing
  | .form "typing.Optional", [p] => do .ok (.unite true [← asMember p, .none])
  | .form "typing.Union", _ => do .ok (.unite true (← parts.mapM asMember))
  | .literal d, [.literal key] => item d key
  | _, _ => .error .missing

/-- Two alternatives. -/
def alternative (a b : TypeHint) : Except Obstacle TypeHint :=
  if a.joinable && b.joinable && !(a matches .none && b matches .none) then
    .ok (.unite (a.isNamedForm || b.isNamedForm) [a, b])
  else .error .missing

/-- The scalar that an annotation is. -/
def scalar? : TypeHint → Option Scalar
  | .literal (.scalar s) => some s
  | .none => some .unit
  | _ => none

/-- The integer that an annotation is. -/
def integer? (a : TypeHint) : Option Int := (scalar? a).bind Scalar.integer?

/-- Whether an annotation counts as true. -/
def truthy : TypeHint → Bool
  | .literal d => d.truthy
  | .none => false
  | _ => true

/-- The datum that an annotation is. -/
def datum? : TypeHint → Option Datum
  | .literal d => some d
  | .none => some .unit
  | _ => none

/-- The text of an item of a collection. -/
def itemText : TypeHint → List Char
  | .kind k => Text.angled ("class " ++ Text.quotedString k.qualifiedName)
  | a => a.shown.toList

/-- A collection of data, or one known by its text. -/
def collected (items : List TypeHint) (make : List Datum → Datum)
    (around : List (List Char) → List Char) : TypeHint :=
  match items.mapM datum? with
  | some ds => .literal (make ds)
  | none => .other (String.ofList (around (items.map itemText)))

/-- Whether a datum can be a key. -/
def isKey : Datum → Bool
  | .array _ | .map _ => false
  | _ => true

/-- A value with a sign. -/
def signed (op : String) (a : TypeHint) : Except Obstacle TypeHint :=
  match op, integer? a with
  | "-", some n => .ok (.literal (.int (-n)))
  | "+", some n => .ok (.literal (.int n))
  | "~", some n => .ok (.literal (.int (-n - 1)))
  | _, _ => .error .missing

/-- The quotient of two integers. -/
def quotient (m n : Int) : Except Obstacle TypeHint :=
  if n = 0 then raised .zeroDivision (by decide) "division by zero"
  else
    let x := Floating.ofUnits .double ((m < 0) != (n < 0))
      (m.natAbs * Nat.pow 2 Format.double.unitScale) n.natAbs
    if x.isFinite then .ok (.literal (.float x))
    else raised .overflow (by decide) "integer division result too large for a float"

/-- What an operator makes of two operands. -/
def joined (op : String) (a b : TypeHint) : Except Obstacle TypeHint :=
  match op, integer? a, integer? b with
  | "+", some m, some n => .ok (.literal (.int (m + n)))
  | "-", some m, some n => .ok (.literal (.int (m - n)))
  | "*", some m, some n => .ok (.literal (.int (m * n)))
  | "/", some m, some n => quotient m n
  | "//", some m, some n =>
    if n = 0 then raised .zeroDivision (by decide) "integer division or modulo by zero"
    else .ok (.literal (.int (m.fdiv n)))
  | "%", some m, some n =>
    if n = 0 then raised .zeroDivision (by decide) "integer modulo by zero"
    else .ok (.literal (.int (m.fmod n)))
  | "|", _, _ => alternative a b
  | _, _, _ => .error .missing

/-- Whether a comparison holds. -/
def compared (op : String) (a b : TypeHint) : Except Obstacle Bool :=
  let same := a.shown == b.shown
  let member := match b with
    | .literal (.array items) | .literal (.tuple items) =>
      .ok (items.any fun d => (TypeHint.literal d).shown == a.shown)
    | _ => .error .missing
  match op, integer? a, integer? b with
  | "<", some m, some n => .ok (m < n)
  | ">", some m, some n => .ok (n < m)
  | "<=", some m, some n => .ok (m ≤ n)
  | ">=", some m, some n => .ok (n ≤ m)
  | "==", some m, some n => .ok (m == n)
  | "!=", some m, some n => .ok (m != n)
  | "==", _, _ | "is", _, _ => .ok same
  | "!=", _, _ | "is not", _, _ => .ok !same
  | "in", _, _ => member
  | "not in", _, _ => member.map not
  | _, _, _ => .error .missing

/-- What the names of a text stand for. -/
abbrev Names := String → Option TypeHint

mutual

/-- The value of an expression. -/
def eval (names : Names) : TypeExpr → Except Obstacle TypeHint
  | .name s => match names s with
    | some a => .ok a
    | none => .error .missing
  | .literal d => .ok (.literal d)
  | .ellipsis => .ok (.other "Ellipsis")
  | .attribute e _ => do
    let _ ← e.eval names
    .error .missing
  | .index e parts single => do
    let a ← e.eval names
    let ps ← evalAll names parts
    match a, single with
    | .literal _, false => applied a [collected ps .tuple Text.tupled]
    | _, _ => applied a ps
  | .call e arguments => do
    let _ ← e.eval names
    let _ ← evalAll names arguments
    .error .missing
  | .list items => do
    let parts ← evalAll names items
    .ok (collected parts .array fun texts => Text.bracketed (Text.joined Text.comma texts))
  | .tuple items => do
    let parts ← evalAll names items
    .ok (collected parts .tuple Text.tupled)
  | .map keys values => do
    let ks ← evalAll names keys
    let vs ← evalAll names values
    match ks.mapM datum?, vs.mapM datum? with
    | some ks, some vs =>
      if ks.all isKey then .ok (.literal (.ofEntries (ks.zip vs))) else .error .missing
    | _, _ => .error .missing
  | .unary op e => do signed op (← e.eval names)
  | .binary op a b => do joined op (← a.eval names) (← b.eval names)
  | .negation e => do .ok (.literal (.bool !(truthy (← e.eval names))))
  | .both a b => do
    let x ← a.eval names
    if truthy x then b.eval names else .ok x
  | .either a b => do
    let x ← a.eval names
    if truthy x then .ok x else b.eval names
  | .choice condition yes no => do
    if truthy (← condition.eval names) then yes.eval names else no.eval names
  | .comparison first operators rest => do
    .ok (.literal (.bool (← compareAll names (← first.eval names) operators rest)))

/-- The values of expressions, from left to right. -/
def evalAll (names : Names) : List TypeExpr → Except Obstacle (List TypeHint)
  | [] => .ok []
  | e :: rest => do
    let a ← e.eval names
    let parts ← evalAll names rest
    .ok (a :: parts)

/-- Whether comparisons in a row hold; the first that does not ends them. -/
def compareAll (names : Names) (a : TypeHint) : List String → List TypeExpr → Except Obstacle Bool
  | op :: operators, e :: rest => do
    let b ← e.eval names
    if ← compared op a b then compareAll names b operators rest else .ok false
  | _, _ => .ok true

end

/-- What a text is compiled to in a scope of names. -/
def code (names : Names) (s : String) : Except Obstacle (Except Obstacle TypeHint) :=
  if isIndented s then malformed
  else match parse? s with
    | some e => .ok (e.eval names)
    | none => malformed

/-- Only what starts without blanks compiles. -/
theorem code_unindented (names : Names) (s : String) (value : Except Obstacle TypeHint)
    (h : code names s = .ok value) : code names (unindented s) = .ok value := by
  rw [code] at h
  split at h
  · exact absurd h nofun
  · rename_i hindented
    have hs : unindented s = s := by
      rw [isIndented] at hindented
      rw [unindented]
      cases hchars : s.toList with
      | nil => rw [List.dropWhile_nil, ← hchars, String.ofList_toList]
      | cons c rest =>
        rw [hchars] at hindented
        rw [List.dropWhile_cons_of_neg (by simpa using hindented), ← hchars, String.ofList_toList]
    rw [hs, code, if_neg hindented]
    exact h

end TypeExpr

/-- How many references a host resolves in one another. -/
def referenceDepth : Nat := 100

/-- Whether an object can be used like a type. -/
def TypeHint.isTypeLike : TypeHint → Bool
  | .form _ | .literal _ => false
  | _ => true

/-- The scope of the names of a table. -/
def Scope.ofNames (names : TypeExpr.Names) : Scope where
  code := TypeExpr.code names
  accepts := TypeHint.isTypeLike
  depth := referenceDepth
  code_unindented := TypeExpr.code_unindented names

/-- The scope of the usual names. -/
def Scope.usual : Scope := .ofNames TypeExpr.named?

end ScriptHost
