import ScriptHost.Text.Escape

/-!
# Quoted text

The exact form of a text inside messages and structural listings: in single quotes, or in
double quotes when it holds a single quote and no double one.  The quote in use, the
backslash and the three common control characters are escaped by letter, every other
character that is not printable by its code point in two, four or eight hexadecimal digits.
-/

namespace ScriptHost
namespace Text

/-- A number in base sixteen, filled up with zeros to a width. -/
def hexPadded (width n : Nat) : List Char :=
  let text := hexDigits n
  List.replicate (width - text.length) '0' ++ text

/-- One character between quotes. -/
def quotedChar (quote c : Char) : List Char :=
  if c = quote ∨ c = '\\' then ['\\', c]
  else match c with
    | '\n' => ['\\', 'n']
    | '\r' => ['\\', 'r']
    | '\t' => ['\\', 't']
    | _ =>
      if isPrintable c then [c]
      else if c.toNat < 0x100 then '\\' :: 'x' :: hexPadded 2 c.toNat
      else if c.toNat < 0x10000 then '\\' :: 'u' :: hexPadded 4 c.toNat
      else '\\' :: 'U' :: hexPadded 8 c.toNat

/-- The quote that a text is put in. -/
def quoteFor (text : List Char) : Char :=
  if text.contains '\'' && !text.contains '"' then '"' else '\''

/-- The quoted form of a text. -/
def quoted (text : List Char) : List Char :=
  let quote := quoteFor text
  quote :: (text.flatMap (quotedChar quote) ++ [quote])

/-- The quoted form of a string. -/
def quotedString (text : String) : String := String.ofList (quoted text.toList)

end Text
end ScriptHost
