import ScriptHost.Number.Shortest
import ScriptHost.Text.Digit

/-!
# Numbers read from text

Blanks may surround a number, one sign may precede it, and the digits may be those of any
script.
-/

namespace ScriptHost

/-- Reads an integer in base ten. -/
def readInteger? (text : List Char) : Option Int := do
  let plain ← Text.plainNumber? text
  let (neg, body) := Decimal.readSign (Text.trimBlanks plain)
  let digits ← Decimal.readDigits? body
  some (if neg then -(Decimal.ofDigits digits : Int) else Decimal.ofDigits digits)

/-- The words that stand for numbers without digits. -/
def readNamed? (word : List Char) (neg : Bool) : Option Double :=
  if word = "inf".toList ∨ word = "infinity".toList then some (.infinite neg)
  else if word = "nan".toList then some .nan
  else none

/-- Reads a double. -/
def readDouble? (text : List Char) : Option Double := do
  let plain ← Text.plainNumber? text
  let (neg, body) := Decimal.readSign (Text.trimBlanks plain)
  readNamed? (body.map Char.toLower) neg <|>
    (Decimal.read? body).map (Floating.ofDecimal .double neg)

end ScriptHost
