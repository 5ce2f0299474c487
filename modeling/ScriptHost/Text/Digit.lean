/-!
# Digits and blanks

The decimal digits of all scripts, and the characters that may surround a number that
is being read.  Every script's digits are ten consecutive characters in increasing
order, so the table holds the zeros only.

Text that is ASCII throughout is read by the ASCII rules.  As soon as one character
lies outside ASCII, the wider blanks and digits count as well; `plainNumber?` brings such
a text into its ASCII form, and fails on a character that is neither.
-/

namespace ScriptHost
namespace Text

/-- The zero of every script that has decimal digits (Unicode 14.0). -/
def digitZeros : List Nat := [
  48, 1632, 1776, 1984, 2406, 2534, 2662, 2790, 2918, 3046, 3174, 3302, 3430, 3558, 3664,
  3792, 3872, 4160, 4240, 6112, 6160, 6470, 6608, 6784, 6800, 6992, 7088, 7232, 7248,
  42528, 43216, 43264, 43472, 43504, 43600, 44016, 65296, 66720, 68912, 69734, 69872,
  69942, 70096, 70384, 70736, 70864, 71248, 71360, 71472, 71904, 72016, 72784, 73040,
  73120, 92768, 92864, 93008, 120782, 120792, 120802, 120812, 120822, 123200, 123632,
  125264, 130032]

/-- The value of a decimal digit of any script. -/
def digitValue? (c : Char) : Option Nat :=
  (digitZeros.find? fun first => first ≤ c.toNat && c.toNat < first + 10).map (c.toNat - ·)

/-- The ASCII blanks: space, tab, line feed, vertical tab, form feed, carriage return. -/
def isAsciiBlank (c : Char) : Bool :=
  c == ' ' || (9 ≤ c.toNat && c.toNat ≤ 13)

/-- The blanks outside ASCII. -/
def isWideBlank (c : Char) : Bool :=
  [0x85, 0xa0, 0x1680, 0x2028, 0x2029, 0x202f, 0x205f, 0x3000].contains c.toNat ||
    (0x2000 ≤ c.toNat && c.toNat ≤ 0x200a)

/-- The ASCII form of one character of a number text. -/
def plainDigit? (c : Char) : Option Char :=
  if c.toNat < 127 then some c
  else if isWideBlank c then some ' '
  else (digitValue? c).map fun d => Char.ofNat (48 + d)

/-- A number text in ASCII, if it has such a form. -/
def plainNumber? (text : List Char) : Option (List Char) :=
  if text.all (·.toNat < 128) then some text else text.mapM plainDigit?

/-- A text without the ASCII blanks at its two ends. -/
def trimBlanks (text : List Char) : List Char :=
  ((text.dropWhile isAsciiBlank).reverse.dropWhile isAsciiBlank).reverse

/-- A text that already is ASCII is left alone. -/
theorem plainNumber?_ascii (text : List Char) (h : text.all (·.toNat < 128) = true) :
    plainNumber? text = some text := by
  simp [plainNumber?, h]

end Text
end ScriptHost
