import ScriptHost.Value.Convert

/-!
# Bodies of host functions

A body is a list of statements over the arguments of the call.  It reaches changeable
values only through its arguments, through values it builds and through calls of the engine
it belongs to, so what a body can do is what its operations do.

An operation takes the values of all its operands, evaluated from left to right.  An
operation without a rule for its operands fails with its own name as the message.

Bodies have no local names, no branches but the one that raises, no loops and no way to handle a
failure.  What is said of every body is said of these; whatever else a host can write is left out.
-/

namespace ScriptHost

/-- The text forms a body can ask for. -/
inductive TextForm where
  | display
  | debug
  | markedDebug
  | exact
  deriving DecidableEq

/-- What can be done with values. -/
inductive Operation where
  /-- The payload behind a handle or in a container. -/
  | payload
  /-- A new container. -/
  | contain
  /-- The name of the kind in a container. -/
  | kindName
  /-- Whether a value came as a handle, in a container or bare. -/
  | passing
  | text (form : TextForm)
  /-- A new array of the operands. -/
  | collect
  | length
  | field (name : String)
  | item
  | add
  | multiply
  | divide
  | less
  | equal
  /-- Replaces the payload behind a handle. -/
  | assign
  /-- Appends to an array. -/
  | push
  /-- Replaces an item of an array or enters a value into a map. -/
  | put
  | setField (name : String)
  deriving DecidableEq

/-- The name an operation fails with. -/
def Operation.name : Operation → String
  | .payload => "value"
  | .contain => "dyn"
  | .kindName => "type_name"
  | .passing => "kind"
  | .text _ => "repr"
  | .collect => "list"
  | .length => "len"
  | .field _ => "field"
  | .item => "item"
  | .add => "add"
  | .multiply => "mul"
  | .divide => "div"
  | .less => "lt"
  | .equal => "eq"
  | .assign => "set"
  | .push => "push"
  | .put => "put"
  | .setField _ => "setfield"

/-- An expression of a body. -/
inductive Expr where
  | argument (i : Nat)
  | constant (d : Datum)
  | apply (op : Operation) (operands : List Expr)
  /-- A call through the engine the function belongs to. -/
  | call (name : String) (arguments : List Expr)
  deriving Inhabited

/-- What a body raises. -/
inductive Raised where
  /-- The declared failure, whose payload is handed to the script. -/
  | declared
  | kind (k : FailureKind)
  deriving DecidableEq

/-- A statement of a body. -/
inductive Stmt where
  | give (e : Expr)
  | run (e : Expr)
  | fail (raised : Raised) (argument : Expr)
  | failIf (condition : Expr) (raised : Raised) (argument : Expr)

/-- The statements of a host function, in order; without a result the answer is unit. -/
abbrev Body := List Stmt

end ScriptHost
