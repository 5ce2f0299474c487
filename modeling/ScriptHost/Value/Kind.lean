/-!
# Kinds of values

A `Kind` is the identity of a runtime type.  Dispatch compares kinds and nothing else, so
two kinds are the same only if they are written the same: a character is never a string,
a truth value never an integer, and each width of sized integer is a kind of its own.

`Kind.name` is the name a kind is shown by when no other has been registered.  Names are
not identities: the unbounded integer and the signed integer of 64 bits share one.
-/

namespace ScriptHost

/-- The widths of sized integers, the small ones first. -/
inductive Width where
  | i8 | u8 | i16 | u16 | i32 | u32 | i64 | u64 | i128 | u128
  deriving DecidableEq

namespace Width

/-- All widths, in the order in which packages register them. -/
def all : List Width := [.i8, .u8, .i16, .u16, .i32, .u32, .i64, .u64, .i128, .u128]

def bits : Width → Nat
  | .i8 | .u8 => 8
  | .i16 | .u16 => 16
  | .i32 | .u32 => 32
  | .i64 | .u64 => 64
  | .i128 | .u128 => 128

def signed : Width → Bool
  | .i8 | .i16 | .i32 | .i64 | .i128 => true
  | .u8 | .u16 | .u32 | .u64 | .u128 => false

/-- The least integer of a width. -/
def least (w : Width) : Int := if w.signed then -Nat.pow 2 (w.bits - 1) else 0

/-- The greatest integer of a width. -/
def greatest (w : Width) : Int :=
  if w.signed then Nat.pow 2 (w.bits - 1) - 1 else Nat.pow 2 w.bits - 1

/-- The name scripts see. -/
def name (w : Width) : String := (if w.signed then "i" else "u") ++ w.bits.repr

/-- The name that stands before a value in its exact form. -/
def label (w : Width) : String := (if w.signed then "I" else "U") ++ w.bits.repr

end Width

/-- An integer within the bounds of its width. -/
structure SizedInt where
  width : Width
  value : Int
  inBounds : width.least ≤ value ∧ value ≤ width.greatest
  deriving DecidableEq

/-- The sized integer of a value, if the value fits. -/
def SizedInt.ofInt? (w : Width) (n : Int) : Option SizedInt :=
  if h : w.least ≤ n ∧ n ≤ w.greatest then some ⟨w, n, h⟩ else none

/-- The identity of a runtime type. -/
inductive Kind where
  | unit
  | bool
  | int
  | sized (w : Width)
  | float
  | single
  | char
  | string
  | array
  | map
  | tuple
  /-- The instances of a class that the host defines. -/
  | object (cls : String)
  /-- A container that owns one value of any kind. -/
  | dynamic
  /-- An exclusive handle onto a container. -/
  | handle
  /-- A type of the host that no script value has. -/
  | foreign (name : String)
  deriving DecidableEq

namespace Kind

/-- The module that defines the host's own classes. -/
def hostModule : String := "host"

/-- The name a kind is shown by unless another is registered for it. -/
def name : Kind → String
  | .unit => "()"
  | .bool => "bool"
  | .int => "i64"
  | .sized w => w.name
  | .float => "f64"
  | .single => "f32"
  | .char => "char"
  | .string => "string"
  | .array => "array"
  | .map => "map"
  | .tuple => "tuple"
  | .object cls => hostModule ++ "." ++ cls
  | .dynamic => "Dynamic"
  | .handle => "scriptbind.func.native.Mut"
  | .foreign name => name

/-- The name of a kind in the host language, as failures of the host's own conversions and
annotations show it. -/
def hostName : Kind → String
  | .unit => "NoneType"
  | .bool => "bool"
  | .int => "int"
  | .sized w => w.label
  | .float => "float"
  | .single => "F32"
  | .char => "Char"
  | .string => "str"
  | .array => "list"
  | .map => "dict"
  | .tuple => "tuple"
  | .object cls => cls
  | .dynamic => "Dynamic"
  | .handle => "Mut"
  | .foreign name => name

/-- The host name with the module that defines the type, which the basic ones lack. -/
def qualifiedName : Kind → String
  | .sized w => "scriptbind.types.numeric." ++ w.label
  | .single => "scriptbind.types.numeric.F32"
  | .char => "scriptbind.types.dynamic.Char"
  | .dynamic => "scriptbind.types.dynamic.Dynamic"
  | .handle => "scriptbind.func.native.Mut"
  | .object cls => hostModule ++ "." ++ cls
  | kind => kind.hostName

end Kind
end ScriptHost
