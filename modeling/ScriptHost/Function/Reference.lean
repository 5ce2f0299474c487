import ScriptHost.Function.Scope

/-!
# How annotations are resolved

A text annotation is evaluated in the scope of its function.  A quoted text inside of an annotation
is a reference, a text that stands for an annotation in its turn; inside of itself it stays as it
is.

The hints of a function are first resolved all at once, with all the references inside them.  If
one of them names something that is missing they are resolved one by one instead: then only hints
that are texts as a whole are looked at, references inside them stay, and a text that is missing
something, or is no expression, stays a text.

The first attempt has no answer to a text that is no expression, and neither has any answer to what
else a text may raise.  Both stop the registration, unless an annotation before it has already ended
the first attempt.
-/

namespace ScriptHost
namespace TypeHint

mutual

/-- Whether a text stands in an annotation. -/
def refers : TypeHint → Bool
  | .text _ => true
  | .receiver (some inner) => inner.refers
  | .collection _ parts => refersAny parts
  | .union _ ms => refersAny ms
  | _ => false

/-- Whether a text stands in one of several annotations. -/
def refersAny : List TypeHint → Bool
  | [] => false
  | a :: rest => a.refers || refersAny rest

end

/-- The value of a text, if that can stand for an annotation. -/
def checked (scope : Scope) : TypeHint → Except Obstacle TypeHint
  | .none => .ok (.kind .unit)
  | .literal (.scalar (.string s)) => do
    let _ ← scope.reference s
    .ok (.text s)
  | a => if scope.accepts a then .ok a else .error .missing

/-- Checks that the texts in a list are expressions. -/
def checkReferences (scope : Scope) : List TypeHint → Except Obstacle Unit
  | [] => .ok ()
  | .text s :: rest => do
    let _ ← scope.reference s
    checkReferences scope rest
  | _ :: rest => checkReferences scope rest

mutual

/-- Resolves the texts in an annotation, given what each of them stands for. -/
def resolveWith (scope : Scope) (text : String → Except Obstacle TypeHint) :
    TypeHint → Except Obstacle TypeHint
  | .text s => text s
  | .receiver (some inner) => do
    let a ← inner.resolveWith scope text
    .ok (.receiver (some a))
  | .collection k parts => do
    checkReferences scope parts
    let ps ← resolveAllWith scope text parts
    .ok (.collection k ps)
  | .union named ms =>
    if refersAny ms then do
      let ps ← resolveAllWith scope text ms
      .ok (unite named ps)
    else .ok (.union named ms)
  | a => .ok a

/-- Resolves annotations in order; the first that fails decides. -/
def resolveAllWith (scope : Scope) (text : String → Except Obstacle TypeHint) :
    List TypeHint → Except Obstacle (List TypeHint)
  | [] => .ok []
  | a :: rest => do
    let b ← a.resolveWith scope text
    let bs ← resolveAllWith scope text rest
    .ok (b :: bs)

end

/-- What a reference stands for, the references in it included, inside of the given ones.  The
first number bounds how deep references stand in references. -/
def ofText (scope : Scope) : Nat → List String → String → Except Obstacle TypeHint
  | 0, _, _ => .error (.stop (.raised .tooDeep))
  | n + 1, enclosing, s =>
    if enclosing.contains s then .ok (.other (referenceText s))
    else do
      let value ← scope.reference s
      let a ← value
      let b ← checked scope a
      b.resolveWith scope (ofText scope n (s :: enclosing))

/-- Resolves an annotation and the texts inside it. -/
def resolve (scope : Scope) : TypeHint → Except Obstacle TypeHint
  | .none => .ok (.kind .unit)
  | a => a.resolveWith scope (ofText scope scope.depth [])

/-- Resolves a text by itself; one that names nothing stays a text. -/
def resolveAlone (scope : Scope) : TypeHint → Except Escape TypeHint
  | .text s => match scope.alone s with
    | .ok a => .ok a.asPart
    | .error (.stop (.raised e)) => .error e
    | .error _ => .ok (.text s)
  | a => .ok a

/-- Resolves the hints of a function in order; the first that fails decides. -/
def resolveEach {ε : Type} (value : TypeHint → Except ε TypeHint) :
    List (String × TypeHint) → Except ε (List (String × TypeHint))
  | [] => .ok []
  | (name, a) :: rest => do
    let b ← value a
    let bs ← resolveEach value rest
    .ok ((name, b) :: bs)

/-- The hints of a function, resolved, or what stops that. -/
def resolveTogether (scope : Scope) (hints : List (String × TypeHint)) :
    Except Stop (List (String × TypeHint)) :=
  match resolveEach (resolve scope) hints with
  | .ok resolved => .ok resolved
  | .error (.stop s) => .error s
  | .error .missing => (resolveEach (resolveAlone scope) hints).mapError .raised

end TypeHint
end ScriptHost
