import ScriptHost.Function.Body

/-!
# Native functions

A native function is a host function in the shape in which scripts can call it: a name, a
kind and a binding for each parameter, and whether the failures it declares reach the
script.  The binding says what the body gets for an argument: a copy of the payload, a
copied container, the payload itself, or a handle onto the caller's container.  The last two
make the first parameter a receiver, and the function a method.

Functions are told apart by their key, the name together with the kinds of the parameters.
-/

namespace ScriptHost

/-- How an argument reaches the body. -/
inductive Binding where
  /-- A copy of the payload. -/
  | value
  /-- A copy of the container, whatever it holds. -/
  | dynamic
  /-- The payload itself. -/
  | reference
  /-- A handle onto the container of the caller. -/
  | exclusive
  deriving DecidableEq

namespace Binding

/-- The name of a binding. -/
def name : Binding → String
  | .value => "value"
  | .dynamic => "dynamic"
  | .reference => "ref"
  | .exclusive => "mut"

/-- Whether a binding lets the body reach the caller's own value. -/
def isReceiver : Binding → Bool
  | .reference | .exclusive => true
  | .value | .dynamic => false

end Binding

/-- How the first argument of a function is passed. -/
inductive CallStyle where
  /-- Every argument by value. -/
  | pure
  /-- The first argument is the receiver. -/
  | method
  deriving DecidableEq

/-- The name of a call style. -/
def CallStyle.name : CallStyle → String
  | .pure => "pure"
  | .method => "method"

/-- A parameter of a native function. -/
structure Param where
  name : String
  kind : Kind
  binding : Binding
  deriving DecidableEq

/-- The text of a parameter in a signature. -/
def Param.text (p : Param) : String :=
  if p.binding.isReceiver then "&mut " ++ p.kind.name else p.kind.name

/-- The identity of an engine. -/
abbrev EngineId := Nat

/-- A host function in the shape in which scripts can call it. -/
structure Native where
  name : String
  params : List Param
  /-- Whether the failures that the body declares reach the script unchanged. -/
  fallible : Bool
  result : Option Kind
  body : Body
  /-- The engine that calls of the body go through. -/
  home : Option EngineId

namespace Native

def arity (f : Native) : Nat := f.params.length

/-- The kinds of the parameters, which together with the name are the key. -/
def kinds (f : Native) : List Kind := f.params.map (·.kind)

/-- How the first argument is passed. -/
def style (f : Native) : CallStyle :=
  match f.params with
  | p :: _ => if p.binding.isReceiver then .method else .pure
  | [] => .pure

/-- The signature in readable form, such as `append(&mut string, char) -> ()`. -/
def signature (f : Native) : String :=
  let inputs := f.name ++ "(" ++ ", ".intercalate (f.params.map Param.text) ++ ")"
  match f.result with
  | some k => inputs ++ " -> " ++ k.name
  | none => inputs

/-- The word for whether a function declares failures. -/
def fallibility (f : Native) : String := if f.fallible then "fallible" else "infallible"

/-- The description of a function on one line. -/
def shown (f : Native) : String :=
  "<NativeFunction " ++ f.signature ++ " " ++ f.style.name ++ " " ++ f.fallibility ++ ">"

end Native
end ScriptHost
