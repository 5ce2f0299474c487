/-!
# Code points in base sixteen

Escapes in foreign texts name a character by the digits of its code point, in upper or in
lower case.  Some of them give code units of sixteen bits instead, where two units in a row
can stand for one character.
-/

namespace ScriptHost
namespace Text

/-- The value of a digit in base sixteen, in either case. -/
def hexDigit? (c : Char) : Option Nat :=
  if '0' ≤ c ∧ c ≤ '9' then some (c.toNat - 48)
  else if 'a' ≤ c ∧ c ≤ 'f' then some (c.toNat - 87)
  else if 'A' ≤ c ∧ c ≤ 'F' then some (c.toNat - 55)
  else none

/-- The number that digits in base sixteen denote. -/
def readHex? (text : List Char) : Option Nat :=
  text.foldlM (fun n c => (hexDigit? c).map (16 * n + ·)) 0

/-- The character of a code point. -/
def ofCodePoint? (n : Nat) : Option Char :=
  if n.isValidChar then some (Char.ofNat n) else none

/-- Whether a code unit is the first half of a character. -/
def isHighUnit (n : Nat) : Bool := 0xd800 ≤ n && n < 0xdc00

/-- Whether a code unit is the second half of a character. -/
def isLowUnit (n : Nat) : Bool := 0xdc00 ≤ n && n < 0xe000

/-- The text of code points and code units; half a character has no text. -/
def ofUnits? : List Nat → Option (List Char)
  | [] => some []
  | n :: rest =>
    if isHighUnit n then
      match rest with
      | m :: rest =>
        if isLowUnit m then do
          let c ← ofCodePoint? (0x10000 + (n - 0xd800) * 0x400 + (m - 0xdc00))
          let more ← ofUnits? rest
          some (c :: more)
        else none
      | [] => none
    else do
      let c ← ofCodePoint? n
      let more ← ofUnits? rest
      some (c :: more)

end Text
end ScriptHost
