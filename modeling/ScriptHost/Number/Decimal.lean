/-!
# Decimal magnitudes and their text

A decimal magnitude is a coefficient times a power of ten.  It is written either
positionally, digit for digit, or with an exponent; `NumberStyle` holds the choice between
the two and the few others that a written number makes.  `read?` takes such a text back,
with blocks of digits that single underscores may divide.
-/

namespace ScriptHost

/-- The magnitude `coefficient * 10 ^ exponent`. -/
structure Decimal where
  coefficient : Nat
  exponent : Int
  deriving DecidableEq

namespace Decimal

/-- The decimal digits of a natural number, `0` for zero. -/
def digits (n : Nat) : List Char := Nat.toDigits 10 n

/-- The decimal text of an integer. -/
def integerText (n : Int) : List Char :=
  if n < 0 then '-' :: digits n.natAbs else digits n.natAbs

/-- The natural number that a string of digits denotes. -/
def ofDigits (text : List Char) : Nat :=
  text.foldl (fun n c => 10 * n + (c.toNat - 48)) 0

/-- The power of ten at which the first digit stands. -/
def leading (d : Decimal) : Int := d.exponent + ((digits d.coefficient).length - 1 : Nat)

/-- The same magnitude with a coefficient that does not end in zero. -/
def normalize (d : Decimal) : Decimal :=
  if d.coefficient = 0 then ⟨0, 0⟩
  else
    let zeros := ((digits d.coefficient).reverse.takeWhile (· == '0')).length
    ⟨d.coefficient / Nat.pow 10 zeros, d.exponent + zeros⟩

/-- Positional notation: the digits, and after a point those below one. -/
def positional (d : Decimal) : List Char :=
  if 0 ≤ d.exponent then digits (d.coefficient * Nat.pow 10 d.exponent.toNat)
  else
    let places := (-d.exponent).toNat
    let text := digits d.coefficient
    let padded := List.replicate (places + 1 - text.length) '0' ++ text
    padded.take (padded.length - places) ++ '.' :: padded.drop (padded.length - places)

end Decimal

/-- The choices that a written number makes. -/
structure NumberStyle where
  /-- The first digit stands at least here in positional notation. -/
  leastPositional : Int
  /-- The first digit stands at most here in positional notation. -/
  mostPositional : Int
  /-- What follows a whole number in positional notation. -/
  wholeEnd : List Char
  /-- The least number of digits of an exponent. -/
  exponentDigits : Nat

namespace NumberStyle

/-- Positional from `0.0001` up to sixteen digits before the point, a whole number ends in
`.0`, and an exponent has two digits. -/
def standard : NumberStyle := ⟨-4, 15, ['.', '0'], 2⟩

/-- The exponent mark, its sign and its digits. -/
def exponentText (style : NumberStyle) (n : Int) : List Char :=
  let text := Decimal.digits n.natAbs
  'e' :: (if n < 0 then '-' else '+') ::
    (List.replicate (style.exponentDigits - text.length) '0' ++ text)

/-- One digit, a point and the others if there are any, and the exponent. -/
def scientific (style : NumberStyle) (d : Decimal) : List Char :=
  let mantissa := match Decimal.digits d.coefficient with
    | first :: second :: rest => first :: '.' :: second :: rest
    | text => text
  mantissa ++ style.exponentText d.leading

/-- The text of a magnitude whose coefficient does not end in zero. -/
def write (style : NumberStyle) (d : Decimal) : List Char :=
  if d.leading < style.leastPositional ∨ style.mostPositional < d.leading then
    style.scientific d
  else if 0 ≤ d.exponent then d.positional ++ style.wholeEnd
  else d.positional

end NumberStyle

namespace Decimal

/-- One digit at least, single underscores between digits only; the digits are returned. -/
def readDigits? : List Char → Option (List Char)
  | [] => none
  | c :: rest =>
    if c.isDigit then
      match rest with
      | [] => some [c]
      | '_' :: more => (readDigits? more).map (c :: ·)
      | d :: more => (readDigits? (d :: more)).map (c :: ·)
    else none

/-- A sign, if there is one, and what follows it. -/
def readSign : List Char → Bool × List Char
  | '-' :: rest => (true, rest)
  | '+' :: rest => (false, rest)
  | text => (false, text)

/-- A possibly empty block of digits. -/
def readBlock? : List Char → Option (List Char)
  | [] => some []
  | text => readDigits? text

/-- The exponent after its mark; nothing at all is the exponent zero. -/
def readExponent? : List Char → Option Int
  | [] => some 0
  | mark :: rest =>
    if mark == 'e' || mark == 'E' then
      let (neg, text) := readSign rest
      (readDigits? text).map fun ds => if neg then -(ofDigits ds : Int) else ofDigits ds
    else none

/-- Reads a magnitude: digits, a point with further digits, an exponent.  There is a digit
before the point or after it. -/
def read? (text : List Char) : Option Decimal :=
  let inBlock := fun c : Char => c.isDigit || c == '_'
  let (whole, rest) := text.span inBlock
  let (fraction, rest) := match rest with
    | '.' :: more => more.span inBlock
    | _ => ([], rest)
  if whole.isEmpty && fraction.isEmpty then none
  else do
    let high ← readBlock? whole
    let low ← readBlock? fraction
    let exponent ← readExponent? rest
    some ⟨ofDigits (high ++ low), exponent - low.length⟩

end Decimal
end ScriptHost
