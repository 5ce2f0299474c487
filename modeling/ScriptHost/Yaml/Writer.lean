import ScriptHost.Value.Text
import ScriptHost.Yaml.Style

/-!
# Writing YAML

Data are written in block style.  The entries of a mapping stand below each other at one
column, nested collections two further to the right, except that a sequence which is the
value of a simple key stays at the column of the key.  Empty collections are written as `[]`
and `{}`.

A key is simple if it is a short string without line ends; any other key follows a question
mark, and its value a colon, on lines of their own.
-/

namespace ScriptHost
namespace Yaml

/-- How much further to the right a nested collection stands. -/
def step : Nat := 2

/-- The text of a number that reads back as a number. -/
def floatText (x : Double) : List Char :=
  match x with
  | .nan => ".nan".toList
  | .infinite neg => (if neg then "-.inf" else ".inf").toList
  | .finite .. =>
    let text := x.text
    if text.contains '.' then text
    else
      let (mantissa, exponent) := text.span (· != 'e')
      mantissa ++ (if exponent.isEmpty then [] else ['.', '0'] ++ exponent)

/-- A scalar from a column on. -/
def scalarText (l : Layout) (isKey : Bool) (column : Nat) : Scalar → List Char
  | .unit => "null".toList
  | .bool b => scriptBool b
  | .float x => floatText x
  | .single x => floatText x.toDouble
  | .int n => Decimal.integerText n
  | .sized n => Decimal.integerText n.value
  | .char c => stringText l isKey column [c]
  | .string s => stringText l isKey column s.toList

/-- The greatest length of a simple key. -/
def keyLimit : Nat := 122

/-- The text of a key that can stand before its colon. -/
def simpleKey? (column : Nat) : Datum → Option (List Char)
  | .scalar s =>
    let text := scalarText ⟨false, 0⟩ true column s
    match s.text? with
    | some content =>
      if content.isEmpty || content.toList.any isBreak || keyLimit < content.length then none
      else some text
    | none => some text
  | _ => none

mutual

/-- The entries of a mapping at a column; the first one is there already. -/
def entriesText (column : Nat) : List (Datum × Datum) → List Char
  | [] => []
  | (key, value) :: rest =>
    let entry := match simpleKey? column key with
      | some text => text ++ ':' :: besideText column (column + text.length + 1) value
      | none =>
        '?' :: ' ' :: (insideText column key ++
          (margin column ++ ':' :: ' ' :: insideText column value))
    entry ++ (if rest.isEmpty then [] else margin column ++ entriesText column rest)

/-- The items of a sequence at a column; the first one is there already. -/
def itemsText (column : Nat) : List Datum → List Char
  | [] => []
  | item :: rest =>
    '-' :: ' ' :: (insideText column item ++
      (if rest.isEmpty then [] else margin column ++ itemsText column rest))

/-- A datum behind an indicator at a column, up to the end of its last line. -/
def insideText (column : Nat) : Datum → List Char
  | .array [] => ['[', ']', '\n']
  | .map [] => ['\x7b', '\x7d', '\n']
  | .array items => itemsText (column + step) items
  | .map entries => entriesText (column + step) entries
  | .scalar s => scalarText ⟨true, column + step⟩ false (column + step) s ++ ['\n']
  | d => stringText ⟨true, column + step⟩ false (column + step) d.exact ++ ['\n']

/-- The value of a simple key: the key at a column, the place behind its colon at another. -/
def besideText (column place : Nat) : Datum → List Char
  | .array [] => [' ', '[', ']', '\n']
  | .map [] => [' ', '\x7b', '\x7d', '\n']
  | .array items => '\n' :: (margin column ++ itemsText column items)
  | .map entries => '\n' :: (margin (column + step) ++ entriesText (column + step) entries)
  | .scalar s => ' ' :: (scalarText ⟨true, column + step⟩ false (place + 1) s ++ ['\n'])
  | d => ' ' :: (stringText ⟨true, column + step⟩ false (place + 1) d.exact ++ ['\n'])

end

/-- The YAML text of a datum. -/
def write (d : Datum) : String :=
  String.ofList (match d with
    | .map (entry :: rest) => entriesText 0 (entry :: rest)
    | .array (item :: rest) => itemsText 0 (item :: rest)
    | d => insideText 0 d)

end Yaml
end ScriptHost
