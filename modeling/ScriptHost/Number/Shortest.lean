import ScriptHost.Number.Decimal
import ScriptHost.Number.Floating

/-!
# Between binary and decimal

Reading: `Floating.ofDecimal` takes a decimal magnitude to the nearest number of a format.

Writing: `Format.shortest` is the decimal with the fewest digits that reads back as the
same number, and among those the one nearest to it.  On the grid of decimals with `n`
digits only the two neighbours of the number can be nearest, so those two are tried on the
seventeen grids from one digit on.  Should none of them read back, the exact decimal value is
taken, which always exists because ten is even; so the result reads back without an
appeal to how many digits are enough.

Rounding: `Format.roundToDigits` and `Floating.roundPlaces?` round the exact value to so many
digits in all or so many places after the point, a tie going to the even digit.
-/

namespace ScriptHost
namespace Format

/-- A count of units divided by a power of ten, as a numerator and a denominator. -/
def scaled (F : Format) (units : Nat) (exponent : Int) : Nat × Nat :=
  if 0 ≤ exponent then (units, Nat.pow 2 F.unitScale * Nat.pow 10 exponent.toNat)
  else (units * Nat.pow 10 (-exponent).toNat, Nat.pow 2 F.unitScale)

/-- The power of ten at which the first digit of a positive magnitude stands. -/
def leading (F : Format) (units : Nat) : Int :=
  let shift := F.unitScale
  ((Decimal.digits (units * Nat.pow 10 shift / Nat.pow 2 F.unitScale)).length : Int) - 1 - shift

/-- The rank nearest to a decimal magnitude. -/
def rankOfDecimal (F : Format) (d : Decimal) : Nat :=
  if 0 ≤ d.exponent then
    F.rankNearest (d.coefficient * Nat.pow 10 d.exponent.toNat * Nat.pow 2 F.unitScale) 1
  else F.rankNearest (d.coefficient * Nat.pow 2 F.unitScale) (Nat.pow 10 (-d.exponent).toNat)

/-- The magnitude of a rank, rounded to the given number of digits. -/
def roundToDigits (F : Format) (rank digits : Nat) : Decimal :=
  let exponent := F.leading (F.units rank) - (digits - 1 : Nat)
  let (num, den) := F.scaled (F.units rank) exponent
  ⟨roundDiv num den, exponent⟩

/-- The multiples of a power of ten next to a magnitude, the nearer one first. -/
def neighbours (F : Format) (rank : Nat) (exponent : Int) : List Decimal :=
  let (num, den) := F.scaled (F.units rank) exponent
  let floor := num / den
  let nearest := roundDiv num den
  let other := if nearest = floor then floor + 1 else floor
  [⟨nearest, exponent⟩, ⟨other, exponent⟩]

/-- The exact decimal value of a magnitude. -/
def exact (F : Format) (rank : Nat) : Decimal :=
  ⟨F.units rank * Nat.pow 5 F.unitScale, -(F.unitScale : Int)⟩

/-- The shortest decimal that reads back as the given rank. -/
def shortest (F : Format) (rank : Nat) : Decimal :=
  if rank = 0 then ⟨0, 0⟩
  else
    let readsBack := fun d => F.rankOfDecimal d == rank
    let first := F.leading (F.units rank)
    let found := (List.range 17).findSome? fun (i : Nat) =>
      (F.neighbours rank (first - i)).find? readsBack
    (found.getD (F.exact rank)).normalize

end Format

namespace Floating

/-- The number of a format nearest to a decimal magnitude.  Far outside of every format the
answer is known without the powers of ten. -/
def ofDecimal (F : Format) (neg : Bool) (d : Decimal) : Floating F :=
  let bound : Int := F.unitScale
  if d.coefficient = 0 ∨ d.leading < -bound then ofRank F neg 0
  else if bound < d.leading then .infinite neg
  else ofRank F neg (F.rankOfDecimal d)

/-- The texts of the numbers that have no digits. -/
def namedText : Double → Option (List Char)
  | .nan => some ['n', 'a', 'n']
  | .infinite false => some ['i', 'n', 'f']
  | .infinite true => some ['-', 'i', 'n', 'f']
  | .finite .. => none

/-- The sign of a written number. -/
def signText (neg : Bool) : List Char := if neg then ['-'] else []

/-- The exact text of a number: the shortest that reads back. -/
def text : Double → List Char
  | .finite neg rank => signText neg ++ NumberStyle.standard.write (Format.double.shortest rank)
  | x => x.namedText.getD []

/-- The shortest text of a finite number in positional notation throughout. -/
def positionalText : Double → List Char
  | .finite neg rank => signText neg ++ (Format.double.shortest rank).positional
  | x => x.namedText.getD []

/-- Beyond these places after the point rounding leaves every number as it is. -/
def mostPlaces : Int := 323

/-- Rounding to fewer places than this leaves zero of every number. -/
def leastPlaces : Int := -308

/-- A finite number rounded to places after the point, or before it if negative; none if
the result is too large. -/
def roundPlaces? (x : Double) (places : Int) : Option Double :=
  match x with
  | .finite neg rank =>
    if mostPlaces < places then some x
    else if places < leastPlaces then some (.ofRank .double neg 0)
    else
      let (num, den) := Format.double.scaled (Format.double.units rank) (-places)
      let y := ofDecimal .double neg ⟨roundDiv num den, -places⟩
      if y.isFinite then some y else none
  | _ => some x

/-- A finite single-precision number, rounded to so many digits and read as a double. -/
def roundedSingle (neg : Bool) (rank digits : Nat) : Double :=
  ofDecimal .double neg (Format.single.roundToDigits rank digits)

/-- The first of the doubles from so many digits on that reads back as a single-precision
number, or the last that is left to try.  None if one that is tried is out of range. -/
def shownFrom? (tried : Nat → Double) (target : Single) : Nat → Nat → Option Double
  | _, 0 => none
  | digits, left + 1 =>
    let shown := tried digits
    match shown.toSingle? with
    | none => none
    | some back =>
      if back = target ∨ left = 0 then some shown
      else shownFrom? tried target (digits + 1) left

/-- The double whose text stands for a single-precision number, rounded to one, two, up to
nine digits. -/
def shownSingle? (x : Single) : Option Double :=
  match x with
  | .finite neg rank =>
    if rank.val = 0 then some (.ofRank .double neg 0)
    else shownFrom? (roundedSingle neg rank) x 1 9
  | _ => some x.toDouble

end Floating
end ScriptHost
