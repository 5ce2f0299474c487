import ScriptHost.Number.Shortest
import ScriptHost.Text.Quoted
import ScriptHost.Value.Datum

/-!
# Exact text of values

`Datum.exact` is the structural text form.  It shows containers, sized integers and characters
with the names of their types, strings in quotes and numbers exactly, and of an object the name
of its class.  `Datum.plain` is the text of a value by itself: a string as it is and a sized
number without the name of its type.  Neither can fail: the limit on the digits of an integer counts
where values in a store are shown (`Value.Shown`).
-/

namespace ScriptHost

namespace Text

/-- Texts with a separator between them. -/
def joined (separator : List Char) : List (List Char) → List Char
  | [] => []
  | [text] => text
  | text :: rest => text ++ (separator ++ joined separator rest)

/-- The separator of items. -/
def comma : List Char := [',', ' ']

/-- The separator of a key and its value. -/
def colon : List Char := [':', ' ']

def bracketed (body : List Char) : List Char := '[' :: (body ++ [']'])

def braced (body : List Char) : List Char := '\x7b' :: (body ++ ['\x7d'])

/-- A body between the name of a type and a closing parenthesis. -/
def applied (name : String) (body : List Char) : List Char :=
  name.toList ++ '(' :: (body ++ [')'])

/-- An object without a form of its own. -/
def angled (name : String) : List Char := '<' :: (name.toList ++ ['>'])

/-- Items in parentheses; a single one keeps a comma. -/
def tupled : List (List Char) → List Char
  | [text] => '(' :: (text ++ [',', ')'])
  | texts => '(' :: (joined comma texts ++ [')'])

end Text

open Text

/-- The exact text of a truth value. -/
def exactBool (b : Bool) : List Char := (if b then "True" else "False").toList

namespace Scalar

/-- The structural form. -/
def exact : Scalar → List Char
  | .unit => "None".toList
  | .bool b => exactBool b
  | .int n => Decimal.integerText n
  | .sized n => applied n.width.label (Decimal.integerText n.value)
  | .float x => x.text
  | .single x => applied "F32" x.toDouble.text
  | .char c => applied "Char" (quoted [c])
  | .string s => quoted s.toList

/-- The text of a scalar: a string as it is, a sized number without the name of its type. -/
def plain : Scalar → List Char
  | .string s => s.toList
  | .char c => [c]
  | .sized n => Decimal.integerText n.value
  | .single x => x.toDouble.text
  | s => s.exact

end Scalar

namespace Datum

mutual

/-- The structural form. -/
def exact : Datum → List Char
  | .scalar s => s.exact
  | .array items => bracketed (joined comma (exacts items))
  | .map entries => braced (joined comma (exactEntries entries))
  | .tuple items => tupled (exacts items)
  | .object cls _ => angled cls
  | .dynamic d => applied "Dynamic" d.exact
  | .handle d => applied "Mut" d.exact

/-- The structural forms of items. -/
def exacts : List Datum → List (List Char)
  | [] => []
  | d :: rest => d.exact :: exacts rest

/-- The structural forms of entries. -/
def exactEntries : List (Datum × Datum) → List (List Char)
  | [] => []
  | (key, value) :: rest => (key.exact ++ (colon ++ value.exact)) :: exactEntries rest

end

/-- The text of a datum: scalars in plain form, all else in the structural form. -/
def plain : Datum → List Char
  | .scalar s => s.plain
  | d => d.exact

end Datum
end ScriptHost
