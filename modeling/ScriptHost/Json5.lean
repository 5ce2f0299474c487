import ScriptHost.Json5.Token
import ScriptHost.Value.Datum

/-!
# JSON5 data

`Json5.read?` gives the datum of a text.  Objects become maps with string keys in the order
of the text; a key that is repeated keeps its first place and takes its last value.  A comma
may follow the last item of an object or an array.

Each call of the reader takes at least one token, so the number of tokens bounds the depth.
-/

namespace ScriptHost
namespace Json5

/-- The datum of a name that stands for one. -/
def ofWord? (word : List Char) : Option Datum :=
  if word = "null".toList then some .unit
  else if word = "true".toList then some (.bool true)
  else if word = "false".toList then some (.bool false)
  else (namedNumber? word false).map .float

/-- The key that a token is. -/
def key? : Token → Option Datum
  | .text s => some (.string (String.ofList s))
  | .word s _ => some (.string (String.ofList s))
  | .mark _ | .number _ => none

mutual

/-- A datum at the head of the tokens, and what follows it. -/
def readValue : Nat → List Token → Option (Datum × List Token)
  | 0, _ => none
  | n + 1, .mark c :: rest =>
    if c == '[' then do
      let (items, rest) ← readItems n rest
      some (.array items, rest)
    else if c == '\x7b' then do
      let (entries, rest) ← readEntries n rest
      some (.ofEntries entries, rest)
    else none
  | _, .text s :: rest => some (.string (String.ofList s), rest)
  | _, .number s :: rest => some (.scalar s, rest)
  | _, .word s true :: rest => (ofWord? s).map (·, rest)
  | _, .word _ false :: _ => none
  | _, [] => none

/-- The items of an array up to its end. -/
def readItems : Nat → List Token → Option (List Datum × List Token)
  | 0, _ => none
  | _, .mark ']' :: rest => some ([], rest)
  | n + 1, ts => do
    let (item, ts) ← readValue n ts
    match ts with
    | .mark ',' :: rest => do
      let (items, rest) ← readItems n rest
      some (item :: items, rest)
    | .mark ']' :: rest => some ([item], rest)
    | _ => none

/-- The entries of an object up to its end. -/
def readEntries : Nat → List Token → Option (List (Datum × Datum) × List Token)
  | 0, _ => none
  | _, .mark '\x7d' :: rest => some ([], rest)
  | n + 1, t :: .mark ':' :: ts => do
    let key ← key? t
    let (value, ts) ← readValue n ts
    match ts with
    | .mark ',' :: rest => do
      let (entries, rest) ← readEntries n rest
      some ((key, value) :: entries, rest)
    | .mark '\x7d' :: rest => some ([(key, value)], rest)
    | _ => none
  | _, _ => none

end

/-- The datum of a JSON5 text. -/
def read? (text : String) : Option Datum := do
  let ts ← scan? (text.length + 1) text.toList
  let (d, rest) ← readValue (2 * ts.length + 1) ts
  if rest.isEmpty then some d else none

end Json5
end ScriptHost
