/-!
# Binary floating-point numbers

A binary interchange format fixes how many bits a number spends on its fraction and on
its exponent.  Its finite magnitudes are evenly spaced stretches, each twice as coarse as
the one before, and all of them are whole multiples of the least positive one, the
*unit*.  So a finite number is kept as a sign and the *rank* of its magnitude among all
magnitudes of the format, zero first; the rank is also the bit pattern below the sign bit.

With that, exact arithmetic is arithmetic on natural numbers.  `Format.units` counts how
many units the magnitude of a rank holds, and `Format.rankNearest` goes back, from any
quotient of natural numbers to the rank nearest to it, a tie going to the even rank.
Rounding past the largest finite rank gives an infinity.
-/

namespace ScriptHost

/-- The quotient rounded to the nearest natural number, a tie going to the even one. -/
def roundDiv (num den : Nat) : Nat :=
  let quotient := num / den
  let rest := num % den
  if 2 * rest < den then quotient
  else if den < 2 * rest then quotient + 1
  else quotient + quotient % 2

/-- A binary floating-point format. -/
structure Format where
  fractionBits : Nat
  exponentBits : Nat
  deriving DecidableEq

namespace Format

/-- The format of 64 bits. -/
def double : Format := ⟨52, 11⟩

/-- The format of 32 bits. -/
def single : Format := ⟨23, 8⟩

/-- How many finite magnitudes there are, zero included. -/
def finiteCount (F : Format) : Nat := (Nat.pow 2 F.exponentBits - 1) * Nat.pow 2 F.fractionBits

/-- The unit, the least positive magnitude, is two to the power of minus this. -/
def unitScale (F : Format) : Nat := Nat.pow 2 (F.exponentBits - 1) + F.fractionBits - 2

/-- How many units the magnitude of a rank holds. -/
def units (F : Format) (rank : Nat) : Nat :=
  let block := Nat.pow 2 F.fractionBits
  if rank < block then rank else (block + rank % block) * Nat.pow 2 (rank / block - 1)

/-- The rank nearest to a quotient of units, a tie going to the even rank. -/
def rankNearest (F : Format) (num den : Nat) : Nat :=
  let shift := (num / den).log2 - F.fractionBits
  shift * Nat.pow 2 F.fractionBits + roundDiv num (den * Nat.pow 2 shift)

end Format

/-- A number of a binary floating-point format. -/
inductive Floating (F : Format) where
  | nan
  | infinite (neg : Bool)
  | finite (neg : Bool) (rank : Fin F.finiteCount)
  deriving DecidableEq

/-- Numbers of 64 bits. -/
abbrev Double := Floating .double

/-- Numbers of 32 bits. -/
abbrev Single := Floating .single

namespace Floating

variable {F : Format}

/-- The number with the magnitude of the given rank, infinite past the last finite one. -/
def ofRank (F : Format) (neg : Bool) (rank : Nat) : Floating F :=
  if h : rank < F.finiteCount then .finite neg ⟨rank, h⟩ else .infinite neg

/-- The number nearest to a quotient of units. -/
def ofUnits (F : Format) (neg : Bool) (num den : Nat) : Floating F :=
  ofRank F neg (F.rankNearest num den)

/-- The number nearest to an integer. -/
def ofInt (F : Format) (n : Int) : Floating F :=
  ofUnits F (n < 0) (n.natAbs * Nat.pow 2 F.unitScale) 1

/-- Reads a bit pattern. -/
def ofBits (F : Format) (bits : Nat) : Floating F :=
  let top := Nat.pow 2 (F.exponentBits + F.fractionBits)
  let magnitude := bits % top
  let neg := bits / top % 2 == 1
  if F.finiteCount < magnitude then .nan else ofRank F neg magnitude

/-- The bit pattern; all undefined numbers share one. -/
def toBits : Floating F → Nat
  | .nan => F.finiteCount + Nat.pow 2 (F.fractionBits - 1)
  | .infinite neg => neg.toNat * Nat.pow 2 (F.exponentBits + F.fractionBits) + F.finiteCount
  | .finite neg rank => neg.toNat * Nat.pow 2 (F.exponentBits + F.fractionBits) + rank

def isFinite : Floating F → Bool
  | .finite .. => true
  | _ => false

/-- A finite number as a signed count of units. -/
def signedUnits? : Floating F → Option Int
  | .finite neg rank => some (if neg then -(F.units rank : Int) else F.units rank)
  | _ => none

/-- The same number in another format, rounded to it. -/
def convert (G : Format) : Floating F → Floating G
  | .nan => .nan
  | .infinite neg => .infinite neg
  | .finite neg rank => ofUnits G neg (F.units rank * Nat.pow 2 G.unitScale) (Nat.pow 2 F.unitScale)

/-- The whole part of a finite number. -/
def truncate? (x : Floating F) : Option Int :=
  x.signedUnits?.map fun n => n.tdiv (Nat.pow 2 F.unitScale)

/-- A single-precision number is a double-precision number. -/
def toDouble (x : Single) : Double := x.convert .double

/-- The nearest single-precision number; none if a finite number would become infinite. -/
def toSingle? (x : Double) : Option Single :=
  let y := x.convert .single
  if x.isFinite && !y.isFinite then none else some y

/-- Whether `|x - y| ≤ max (|y| * relative) absolute` on finite numbers, every operation
rounded to a double. -/
def near (x y : Double) (relative absolute : Double) : Bool :=
  match x.signedUnits?, y.signedUnits?, relative.signedUnits?, absolute.signedUnits? with
  | some a, some b, some r, some t =>
    let gap := Format.double.rankNearest (a - b).natAbs 1
    let scale := Nat.pow 2 Format.double.unitScale
    let scaled := Format.double.rankNearest (b.natAbs * r.natAbs) scale
    let limit := Format.double.rankNearest t.natAbs 1
    gap ≤ max scaled limit
  | _, _, _, _ => false

end Floating
end ScriptHost
