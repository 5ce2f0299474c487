import ScriptHost.Function.Evaluation
import ScriptHost.Package.Definition

/-!
# The string package

Printing, texts of values and the building of strings.  `print` and `to_string` give the
display form of a value and `debug` its debug form, for every kind whose feature is on; `+`
joins texts into a new string, and `append` lengthens a string in place.
-/

namespace ScriptHost
namespace Strings

/-- A function that answers with one expression over its parameters. -/
def answering (parameters : List String) (e : Expr) : Callable :=
  .function ⟨parameters.map fun p => ⟨p, none, .positional, false⟩, some (.kind .string), [.give e],
    .usual⟩

/-- The first argument. -/
def first : Expr := .argument 0

/-- The text of the argument in one of the forms. -/
def textual (form : TextForm) : Callable := answering ["x"] (.apply (.text form) [first])

/-- The empty string. -/
def emptyText : Expr := .constant (.string "")

/-- The string followed by the other text. -/
def joining : Callable :=
  .function ⟨[⟨"s", some (.kind .string), .positional, false⟩, ⟨"tail", none, .positional, false⟩],
    some (.kind .string), [.give (.apply .add [first, .argument 1])], .usual⟩

/-- Replaces the string behind a handle by itself and the other text. -/
def appending : Callable :=
  .function ⟨[⟨"s", some (.receiver (some (.kind .string))), .positional, false⟩,
      ⟨"tail", none, .positional, false⟩],
    some .none,
    [.run (.apply .assign [first, .apply .add [.apply .payload [first], .argument 1]])], .usual⟩

/-- A function with explicit annotations. -/
def entry (condition : Option Feature) (style : CallStyle) (name : String) (callable : Callable)
    (types : List TypeHint) : Entry :=
  ⟨condition, name, callable, types.map some, .fixed types.length style⟩

/-- One method per kind, the value as its receiver. -/
def perKind (condition : Option Feature) (name : String) (callable : Callable)
    (kinds : List Kind) : List Entry :=
  kinds.map fun k => entry condition .method name callable [.kind k]

def printName : String := "print"

def debugName : String := "debug"

def toStringName : String := "to_string"

/-- Printing, conversion and debugging of kinds under a feature. -/
def textsFor (feature : Feature) (shown debugged : TextForm) (kinds : List Kind) : List Entry :=
  perKind (some feature) printName (textual shown) kinds ++
    perKind (some feature) toStringName (textual shown) kinds ++
    perKind (some feature) debugName (textual debugged) kinds

/-- What unit is shown as. -/
def unitText : Callable := answering ["_"] emptyText

/-- A string as it is. -/
def identity : Callable := answering ["s"] first

/-- All registrations of the package. -/
def entries : List Entry :=
  perKind none printName (textual .display) [.int, .bool, .char] ++
  perKind none toStringName (textual .display) [.int, .bool, .char] ++
  [entry none .pure printName (answering [] emptyText) [],
   entry none .pure printName unitText [.kind .unit],
   entry none .pure toStringName unitText [.kind .unit],
   entry none .pure printName identity [.kind .string],
   entry none .pure toStringName identity [.kind .string]] ++
  perKind none debugName (textual .debug) [.int, .bool, .unit, .char, .string] ++
  textsFor .sizedIntegers .display .debug (Width.all.map .sized) ++
  textsFor .floatingPoint .display .debug [.float, .single] ++
  textsFor .arrays .debug .debug [.array] ++
  textsFor .objectMaps .markedDebug .markedDebug [.map] ++
  [entry none .pure "+" joining [.kind .string, .kind .char],
   entry none .pure "+" joining [.kind .string, .kind .string],
   entry none .method "append" appending [.receiver (some (.kind .string)), .kind .char],
   entry none .method "append" appending [.receiver (some (.kind .string)), .kind .string]]

/-- The string package. -/
def package : PackageDef :=
  ⟨"BasicStringPackage", "Basic string utilities, including printing.", entries⟩

end Strings
end ScriptHost
