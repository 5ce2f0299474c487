import ScriptHost.Number.Shortest
import ScriptHost.Text.Hexadecimal
import ScriptHost.Value.Datum

/-!
# What plain scalars denote

A scalar without quotes is a string unless its text has one of the forms that YAML 1.1 gives
to other types: truth values in several words, integers in four bases and in base sixty,
numbers with a point, points in time, the null value, and two marks with a meaning of their
own.  The forms are regular, and `Plain.tag` decides among them by reading the text from the
left.

`Plain.datum?` gives the value.  Points in time are given as their texts.
-/

namespace ScriptHost
namespace Yaml

/-- The type of a scalar. -/
inductive Tag where
  | null
  | bool
  | int
  | float
  | timestamp
  /-- The key whose value is merged into the mapping. -/
  | merge
  /-- The mark for a default value. -/
  | value
  | str
  deriving DecidableEq

namespace Plain

/-- What follows an optional sign, and whether the sign is a minus. -/
def unsigned : List Char → Bool × List Char
  | '-' :: rest => (true, rest)
  | '+' :: rest => (false, rest)
  | text => (false, text)

/-- A decimal digit, or the underscore that divides digits. -/
def isDigitPart (c : Char) : Bool := c.isDigit || c == '_'

/-- Whether a text consists of one character at least, all of a class. -/
def consistsOf (p : Char → Bool) (text : List Char) : Bool := !text.isEmpty && text.all p

/-- Removes one to two digits at the head of a text. -/
def dropPair? : List Char → Option (List Char)
  | c :: d :: rest =>
    if !c.isDigit then none else if d.isDigit then some rest else some (d :: rest)
  | [c] => if c.isDigit then some [] else none
  | [] => none

/-- Removes so many digits at the head of a text. -/
def dropDigits? : Nat → List Char → Option (List Char)
  | 0, text => some text
  | n + 1, c :: rest => if c.isDigit then dropDigits? n rest else none
  | _ + 1, [] => none

/-- Removes one character at the head of a text. -/
def dropChar? (c : Char) : List Char → Option (List Char)
  | d :: rest => if c == d then some rest else none
  | [] => none

/-- Removes places in base sixty: colons, each with a number below sixty after it. -/
def dropPlaces : List Char → List Char
  | ':' :: a :: b :: rest =>
    if '0' ≤ a && a ≤ '5' && b.isDigit then dropPlaces rest
    else if a.isDigit then dropPlaces (b :: rest)
    else ':' :: a :: b :: rest
  | [':', a] => if a.isDigit then [] else [':', a]
  | text => text

/-- An exponent with a sign, or nothing. -/
def isExponent : List Char → Bool
  | [] => true
  | mark :: sign :: digits =>
    (mark == 'e' || mark == 'E') && (sign == '-' || sign == '+') && consistsOf Char.isDigit digits
  | [_] => false

/-- Whether a text has the form of an integer. -/
def isInteger (text : List Char) : Bool :=
  match (unsigned text).2 with
  | ['0'] => true
  | '0' :: 'b' :: digits => consistsOf (fun c => c == '0' || c == '1' || c == '_') digits
  | '0' :: 'x' :: digits => consistsOf (fun c => (Text.hexDigit? c).isSome || c == '_') digits
  | '0' :: digits => consistsOf (fun c => ('0' ≤ c && c ≤ '7') || c == '_') digits
  | c :: rest =>
    c.isDigit && (dropPlaces (rest.dropWhile isDigitPart)).isEmpty
  | [] => false

/-- The spellings of infinity behind its point. -/
def isInfinity (text : List Char) : Bool :=
  ["inf".toList, "Inf".toList, "INF".toList].contains text

/-- The spellings of the undefined number behind its point. -/
def isUndefined (text : List Char) : Bool :=
  ["nan".toList, "NaN".toList, "NAN".toList].contains text

/-- Digits behind a point, and an exponent. -/
def isFraction (text : List Char) : Bool := isExponent (text.dropWhile isDigitPart)

/-- Whether a text has the form of a number with a point. -/
def isFloat (text : List Char) : Bool :=
  match text with
  | '.' :: c :: rest =>
    isInfinity (c :: rest) || isUndefined (c :: rest) || (c.isDigit && isFraction rest)
  | _ => match (unsigned text).2 with
    | '.' :: rest => isInfinity rest
    | c :: rest =>
      c.isDigit && match rest.dropWhile isDigitPart with
        | '.' :: fraction => isFraction fraction
        | ':' :: rest => match dropPlaces (':' :: rest) with
          | '.' :: fraction => fraction.all isDigitPart
          | _ => false
        | _ => false
    | [] => false

/-- A distance from universal time, or nothing, with blanks before it. -/
def isZone (text : List Char) : Bool :=
  match text.dropWhile fun c => c == ' ' || c == '\t' with
  | [] => text.isEmpty
  | ['Z'] => true
  | sign :: rest =>
    (sign == '-' || sign == '+') && match dropPair? rest with
      | some [] => true
      | some rest => ((dropChar? ':' rest).bind (dropDigits? 2)) == some []
      | none => false

/-- A time of the day, with a fraction of a second and a zone. -/
def isTime (text : List Char) : Bool :=
  let seconds := do
    let rest ← dropPair? text
    let rest ← dropDigits? 2 (← dropChar? ':' rest)
    dropDigits? 2 (← dropChar? ':' rest)
  match seconds with
  | some ('.' :: rest) => isZone (rest.dropWhile Char.isDigit)
  | some rest => isZone rest
  | none => false

/-- Whether a text has the form of a point in time. -/
def isTimestamp (text : List Char) : Bool :=
  let short := do
    let rest ← dropDigits? 4 text
    let rest ← dropDigits? 2 (← dropChar? '-' rest)
    dropDigits? 2 (← dropChar? '-' rest)
  let long := do
    let rest ← dropDigits? 4 text
    let rest ← dropPair? (← dropChar? '-' rest)
    dropPair? (← dropChar? '-' rest)
  short == some [] || match long with
    | some (c :: rest) =>
      if c == 'T' || c == 't' then isTime rest
      else (c == ' ' || c == '\t') && isTime (rest.dropWhile fun c => c == ' ' || c == '\t')
    | _ => false

/-- The words for truth values, the false ones first. -/
def falseWords : List String := ["no", "No", "NO", "false", "False", "FALSE", "off", "Off", "OFF"]

def trueWords : List String := ["yes", "Yes", "YES", "true", "True", "TRUE", "on", "On", "ON"]

/-- The words for the null value; the empty one is among them. -/
def nullWords : List String := ["", "~", "null", "Null", "NULL"]

/-- The type of a scalar without quotes. -/
def tag (text : List Char) : Tag :=
  let word := String.ofList text
  if (falseWords ++ trueWords).contains word then .bool
  else if isFloat text then .float
  else if isInteger text then .int
  else if word = "<<" then .merge
  else if nullWords.contains word then .null
  else if isTimestamp text then .timestamp
  else if word = "=" then .value
  else .str

/-! ## Values -/

/-- The number that digits in a base denote; none if there are no digits. -/
def ofBase? (base : Nat) (digits : List Char) : Option Nat :=
  if digits.isEmpty then none
  else digits.foldlM (fun n c => (Text.hexDigit? c).map (base * n + ·)) 0

/-- The parts of a text between colons. -/
def parts : List Char → List (List Char)
  | [] => [[]]
  | ':' :: rest => [] :: parts rest
  | c :: rest => match parts rest with
    | first :: more => (c :: first) :: more
    | [] => [[c]]

/-- The value of an integer. -/
def integer? (text : List Char) : Option Int := do
  let (neg, body) := unsigned (text.filter (· != '_'))
  let n ← match body with
    | '0' :: 'b' :: digits => ofBase? 2 digits
    | '0' :: 'x' :: digits => ofBase? 16 digits
    | '0' :: c :: digits => ofBase? 8 (c :: digits)
    | digits => (parts digits).foldlM (fun n part => (ofBase? 10 part).map (60 * n + ·)) 0
  some (if neg then -(n : Int) else n)

/-- The value of a number with a point.  In base sixty the number of the last place may have
a fraction, and counts with it. -/
def float? (text : List Char) : Option Double := do
  let (neg, body) := unsigned (text.filter (· != '_'))
  match body with
  | '.' :: rest =>
    if isInfinity rest then some (.infinite neg)
    else if isUndefined rest then some .nan
    else (Decimal.read? body).map (Floating.ofDecimal .double neg)
  | _ => match (parts body).reverse with
    | last :: before => do
      let d ← Decimal.read? last
      let whole ← before.reverse.foldlM (fun n part => (ofBase? 10 part).map (60 * n + ·)) 0
      let scale := Nat.pow 10 (-d.exponent).toNat
      some (Floating.ofDecimal .double neg
        (if before.isEmpty then d else ⟨60 * whole * scale + d.coefficient, d.exponent⟩))
    | [] => none

/-- The value of a scalar without quotes; the two marks have none. -/
def datum? (text : List Char) : Option Datum :=
  match tag text with
  | .null => some .unit
  | .bool => some (.bool (trueWords.contains (String.ofList text)))
  | .int => (integer? text).map .int
  | .float => (float? text).map .float
  | .timestamp | .str => some (.string (String.ofList text))
  | .merge | .value => none

end Plain
end Yaml
end ScriptHost
