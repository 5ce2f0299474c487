import ScriptHost.Function.TypeHint

/-!
# What the texts of annotations are evaluated in

A text among the annotations of a function is an expression of the host's language, and its value
is a matter of the names that the function sees.  A `Scope` is what the resolution of annotations
asks of them: what a text is compiled to, what comes out when that is run, and which objects may
stand for an annotation.  It is given with each function, so nothing here says how expressions are
written.  All that is asked of a scope is that blanks before a text change nothing where the text
compiles at all.

A text can fail for three kinds of reasons.  It names something that does not exist or does not go
together, which the resolution takes up; it is no expression, which is taken up in one place and
not in another; or it raises something else (a division by zero, an index out of range), which
nobody takes up.

Evaluating a text leaves the scope as it is: texts that assign to names are left out.  So are texts
that call something which raises a `RuntimeError` of its own.

* `Scope.alone`: the value of a text by itself.
* `Scope.reference`: the value of a text that is made into a reference first.
-/

namespace ScriptHost

/-- An exception that ends the evaluation of a text and that nobody takes up. -/
structure Escape where
  className : String
  wording : String
  /-- Operators and lookups do not raise what closed tables and builders raise. -/
  className_ne : className ≠ FailureKind.runtime.name

/-- What ends a registration over the text of an annotation. -/
inductive Stop where
  /-- A text is no expression. -/
  | malformed (wording : String)
  | raised (e : Escape)

namespace Stop

/-- The name of the kind of exception. -/
def className : Stop → String
  | .malformed _ => FailureKind.badSyntax.name
  | .raised e => e.className

/-- The wording of the exception. -/
def wording : Stop → String
  | .malformed wording => wording
  | .raised e => e.wording

end Stop

/-- Why a text has no value. -/
inductive Obstacle where
  /-- Something in it does not exist or does not go together. -/
  | missing
  | stop (s : Stop)

namespace Escape

/-- The exception of references that stand too deep in references. -/
def tooDeep : Escape := ⟨FailureKind.recursion.name, ConvertError.tooDeep.message, by decide⟩

end Escape

/-- Characters that may stand before an expression. -/
def isBlank (c : Char) : Bool := c == ' ' || c == '\t'

/-- A text without the blanks before it. -/
def unindented (s : String) : String := String.ofList (s.toList.dropWhile isBlank)

/-- What the texts of annotations are evaluated in. -/
structure Scope where
  /-- Compiles a text; the inner result is that of running it. -/
  code : String → Except Obstacle (Except Obstacle TypeHint)
  /-- Whether an object may stand for an annotation. -/
  accepts : TypeHint → Bool
  /-- How many references may stand in one another. -/
  depth : Nat
  code_unindented : ∀ s value, code s = .ok value → code (unindented s) = .ok value

namespace Scope

/-- The value of a text by itself. -/
def alone (scope : Scope) (s : String) : Except Obstacle TypeHint := do
  let value ← scope.code (unindented s)
  value

/-- Whether a text unpacks something. -/
def isStarred (s : String) : Bool := s.toList.head? == some '*'

/-- What is compiled for a reference; something unpacked is not an expression by itself. -/
def spelled (s : String) : String := if isStarred s then "(" ++ s ++ ",)[0]" else s

/-- The wording for a reference that is no expression. -/
def notExpression (s : String) : String :=
  "Forward reference must be an expression -- got " ++ Text.quotedString s

/-- A reference, compiled; the inner result is its value. -/
def reference (scope : Scope) (s : String) : Except Obstacle (Except Obstacle TypeHint) :=
  match scope.code (spelled s) with
  | .error (.stop (.malformed _)) => .error (.stop (.malformed (notExpression s)))
  | compiled => compiled

end Scope
end ScriptHost
