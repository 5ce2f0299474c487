import ScriptHost.Value.Convert

/-!
# Text forms of values

Three forms for people who write scripts.  `Datum.debug` is what `debug` shows: strings and
characters quoted and escaped, unit as `()`, numbers exactly.  `Datum.display` is what `print`
shows: texts as they are, floats rounded to the display precision and never with an
exponent, collections in the debug form.  `Datum.shown` is the form a host message uses.

The debug and the display form fail only where a number has no text: a single-precision
number one of whose trial roundings is out of range, or a display precision that is not an
integer or rounds too far.
-/

namespace ScriptHost

/-- The number of places that displayed floats are rounded to, or why there is none. -/
abbrev Precision := Except ConvertError Int

open Text

namespace Floating

/-- A rounded value is shown only if it is this close to the number, relatively … -/
def relativeTolerance : Double := ofDecimal .double false ⟨1, -6⟩

/-- … or absolutely. -/
def absoluteTolerance : Double := ofDecimal .double false ⟨1, -9⟩

/-- The number that is shown for a finite double at a precision. -/
def displayed (places : Int) (x : Double) : Except ConvertError Double :=
  match x.roundPlaces? places with
  | none => .error .roundedTooLarge
  | some y => .ok (if y.near x relativeTolerance absoluteTolerance then y else x)

/-- The words for numbers without digits, as scripts see them. -/
def scriptNamed? : Double → Option (List Char)
  | .nan => some ['N', 'a', 'N']
  | x => x.namedText

/-- The double whose text stands for a single-precision number. -/
def shownSingle (x : Single) : Except ConvertError Double :=
  match x.shownSingle? with
  | some y => .ok y
  | none => .error .singleTooLarge

end Floating

/-- The text of a truth value in scripts. -/
def scriptBool (b : Bool) : List Char := (if b then "true" else "false").toList

/-- A text in double quotes. -/
def debugString (text : List Char) : List Char := '"' :: (escape '"' text ++ ['"'])

/-- A character in single quotes. -/
def debugChar (c : Char) : List Char := '\'' :: (escape '\'' [c] ++ ['\''])

/-- The exact text of a double in scripts. -/
def debugFloat (x : Double) : List Char := x.scriptNamed?.getD x.text

namespace Scalar

/-- The debug form. -/
def debug : Scalar → Except ConvertError (List Char)
  | .unit => .ok ['(', ')']
  | .bool b => .ok (scriptBool b)
  | .int n => .ok (Decimal.integerText n)
  | .sized n => .ok (Decimal.integerText n.value)
  | .float x => .ok (debugFloat x)
  | .single x => do .ok (debugFloat (← Floating.shownSingle x))
  | .char c => .ok (debugChar c)
  | .string s => .ok (debugString s.toList)

/-- The number that is shown for a scalar, rounded to the display precision unless it is of
single precision. -/
def displayedNumber (places : Precision) (s : Scalar) : Except ConvertError Double := do
  match s with
  | .single x => Floating.shownSingle x
  | _ =>
    let x ← s.real
    if x.isFinite then Floating.displayed (← places) x else .ok x

/-- The text of a number, rounded to the display precision. -/
def formatFloat (places : Precision) (s : Scalar) : Except ConvertError (List Char) := do
  let x ← s.displayedNumber places
  .ok (x.scriptNamed?.getD x.text)

/-- The text of a number in positional notation, rounded to the display precision; a whole
number has no point. -/
def displayFloat (places : Precision) (s : Scalar) : Except ConvertError (List Char) := do
  let x ← s.displayedNumber places
  .ok (x.scriptNamed?.getD x.positionalText)

/-- The display form. -/
def display (places : Precision) (s : Scalar) : Except ConvertError (List Char) :=
  match s with
  | .unit => .ok []
  | .bool b => .ok (scriptBool b)
  | .float _ | .single _ => s.displayFloat places
  | _ => .ok s.plain

end Scalar

namespace Datum

mutual

/-- The debug form. -/
def debug : Datum → Except ConvertError (List Char)
  | .scalar s => s.debug
  | .array items => do .ok (bracketed (joined comma (← debugs items)))
  | .map entries => do .ok (braced (joined comma (← debugEntries entries)))
  | .dynamic d => d.debug
  | .tuple items => .ok (Datum.tuple items).exact
  | .object cls fields => .ok (Datum.object cls fields).exact
  | .handle d => .ok (Datum.handle d).exact

/-- The debug forms of items. -/
def debugs : List Datum → Except ConvertError (List (List Char))
  | [] => .ok []
  | d :: rest => do
    let text ← d.debug
    .ok (text :: (← debugs rest))

/-- The debug forms of entries; a key is shown as the string of its text. -/
def debugEntries : List (Datum × Datum) → Except ConvertError (List (List Char))
  | [] => .ok []
  | (key, value) :: rest => do
    let text ← value.debug
    .ok ((debugString key.plain ++ (colon ++ text)) :: (← debugEntries rest))

end

/-- The debug form of a map, marked so that it reads apart from other containers. -/
def debugMap (d : Datum) : Except ConvertError (List Char) := do
  .ok ('#' :: (← d.debug))

/-- The text of a number, rounded to the display precision. -/
def formatFloat (places : Precision) : Datum → Except ConvertError (List Char)
  | .scalar s => s.formatFloat places
  | d => .error (.noReal d.kind)

/-- The display form. -/
def display (places : Precision) : Datum → Except ConvertError (List Char)
  | .scalar s => s.display places
  | .array items => (Datum.array items).debug
  | .map entries => (Datum.map entries).debugMap
  | .dynamic d => d.display places
  | d => .ok d.plain

/-- The form that a host message shows a datum in: a container by its display form. -/
def shown (places : Precision) : Datum → Except ConvertError (List Char)
  | .dynamic d => d.display places
  | d => .ok d.plain

/-- The text of the character that is made from a datum: that of a text with one character, or
the exact text of a collection with one item. -/
def charText (d : Datum) : Except ConvertError (List Char) :=
  let single := fun (size : Nat) (text : List Char) =>
    if size = 1 then .ok text else .error (.notOneChar (String.ofList d.exact))
  match d with
  | .scalar s => match s.text? with
    | some text => single text.length text.toList
    | none => .error (.noLength d.kind)
  | .array items | .tuple items => single items.length d.exact
  | .map entries => single entries.length d.exact
  | .object .. | .dynamic _ | .handle _ => .error (.noLength d.kind)

end Datum
end ScriptHost
