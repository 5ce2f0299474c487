import ScriptHost.Number.Floating
import ScriptHost.Value.Kind

/-!
# Scalars

The values that reach no other value and never change: unit, truth values, integers,
numbers, characters and strings.

`Scalar.equal` is equality as the host sees it below the top of a value: numbers of all
kinds are compared by the exact quantity they denote, texts by their characters.  No
undefined number equals anything, itself included.
-/

namespace ScriptHost

/-- A value that reaches no other value and never changes. -/
inductive Scalar where
  | unit
  | bool (b : Bool)
  | int (n : Int)
  | sized (n : SizedInt)
  | float (x : Double)
  | single (x : Single)
  | char (c : Char)
  | string (s : String)
  deriving Inhabited, DecidableEq

/-- What a number denotes. -/
inductive Quantity where
  | undefined
  | infinite (neg : Bool)
  /-- So many units of the double format. -/
  | finite (units : Int)
  deriving DecidableEq

/-- The quantity of an integer. -/
def Quantity.ofInt (n : Int) : Quantity := .finite (n * Nat.pow 2 Format.double.unitScale)

/-- The quantity of a double. -/
def Quantity.ofDouble (x : Double) : Quantity :=
  match x, x.signedUnits? with
  | .infinite neg, _ => .infinite neg
  | _, some n => .finite n
  | _, none => .undefined

/-- Whether two quantities are the same; an undefined one is the same as none. -/
def Quantity.equal : Quantity → Quantity → Bool
  | .undefined, _ => false
  | a, b => a == b

namespace Scalar

/-- The kind of a scalar. -/
def kind : Scalar → Kind
  | .unit => .unit
  | .bool _ => .bool
  | .int _ => .int
  | .sized n => .sized n.width
  | .float _ => .float
  | .single _ => .single
  | .char _ => .char
  | .string _ => .string

/-- The text of a scalar that is one. -/
def text? : Scalar → Option String
  | .string s => some s
  | .char c => some c.toString
  | _ => none

/-- The integer of a scalar that is one; a truth value counts as one or zero. -/
def integer? : Scalar → Option Int
  | .bool b => some b.toNat
  | .int n => some n
  | .sized n => some n.value
  | _ => none

/-- The quantity of a scalar that is a number. -/
def quantity? : Scalar → Option Quantity
  | .float x => some (.ofDouble x)
  | .single x => some (.ofDouble x.toDouble)
  | s => s.integer?.map .ofInt

/-- Whether a scalar counts as true where a truth value is wanted: unit, zero, `false` and
the empty string do not. -/
def truthy (s : Scalar) : Bool :=
  match s.quantity?, s.text? with
  | some q, _ => q ≠ .finite 0
  | none, some text => !text.isEmpty
  | none, none => false

/-- Equality of scalars as the host sees it. -/
def equal (s t : Scalar) : Bool :=
  match s.quantity?, t.quantity? with
  | some p, some q => p.equal q
  | none, none => s.text? == t.text?
  | _, _ => false

end Scalar
end ScriptHost
