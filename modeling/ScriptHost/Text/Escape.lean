import ScriptHost.Text.Printable

/-!
# Escaped text

The body of a quoted script text.  The quote in use and the backslash get a backslash,
line feed, carriage return, tab and the null character have an escape of one letter, and
every other character that is not printable is written as its code point between braces.
All else stands for itself, so an escaped text holds printable characters only.

`unescape` reads the escapes back from the left; `unescape quote (escape quote s)` is `s`.
-/

namespace ScriptHost
namespace Text

/-- The digits of a number in base sixteen, in lower case. -/
def hexDigits (n : Nat) : List Char := Nat.toDigits 16 n

/-- The letter that stands for a character after a backslash. -/
def escapeLetter? (c : Char) : Option Char :=
  match c with
  | '\\' => some '\\'
  | '\n' => some 'n'
  | '\r' => some 'r'
  | '\t' => some 't'
  | '\x00' => some '0'
  | _ => none

/-- One character of an escaped text. -/
def escapeChar (quote c : Char) : List Char :=
  if c = quote then ['\\', c]
  else match escapeLetter? c with
    | some letter => ['\\', letter]
    | none =>
      if isPrintable c then [c]
      else '\\' :: 'u' :: '\x7b' :: (hexDigits c.toNat ++ ['\x7d'])

/-- A text with everything escaped that could not stand between two quotes. -/
def escape (quote : Char) (text : List Char) : List Char :=
  text.flatMap (escapeChar quote)

/-- The value of a digit in base sixteen, in lower case. -/
def hexValue? (c : Char) : Option Nat :=
  if '0' ≤ c ∧ c ≤ '9' then some (c.toNat - 48)
  else if 'a' ≤ c ∧ c ≤ 'f' then some (c.toNat - 87)
  else none

/-- What the decoder has read of an escape so far. -/
inductive EscapeState where
  | plain
  | backslash
  | letterU
  | code (n : Nat)

/-- Takes one character; the answer is the new state and the character completed, if any. -/
def EscapeState.step? (quote : Char) (state : EscapeState) (c : Char) :
    Option (EscapeState × List Char) :=
  match state with
  | .plain => if c = '\\' then some (.backslash, []) else some (.plain, [c])
  | .backslash =>
    if c = quote then some (.plain, [quote])
    else match c with
      | '\\' => some (.plain, ['\\'])
      | 'n' => some (.plain, ['\n'])
      | 'r' => some (.plain, ['\r'])
      | 't' => some (.plain, ['\t'])
      | '0' => some (.plain, ['\x00'])
      | 'u' => some (.letterU, [])
      | _ => none
  | .letterU => if c = '\x7b' then some (.code 0, []) else none
  | .code n =>
    if c = '\x7d' then some (.plain, [Char.ofNat n])
    else (hexValue? c).map fun d => (.code (16 * n + d), [])

/-- Decodes from a state; an escape that is not complete at the end is an error. -/
def unescapeFrom (quote : Char) : EscapeState → List Char → Option (List Char)
  | .plain, [] => some []
  | _, [] => none
  | state, c :: rest =>
    match state.step? quote c with
    | none => none
    | some (next, out) => (unescapeFrom quote next rest).map (out ++ ·)

/-- Reads an escaped text back. -/
def unescape (quote : Char) (text : List Char) : Option (List Char) :=
  unescapeFrom quote .plain text

end Text
end ScriptHost
