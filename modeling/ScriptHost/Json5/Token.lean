import ScriptHost.Number.Reading
import ScriptHost.Text.Hexadecimal
import ScriptHost.Text.Letter
import ScriptHost.Value.Scalar

/-!
# Tokens of JSON5

JSON5 is a notation for data that people write by hand: comments and blanks of many kinds
stand between the tokens, texts are in single or double quotes and may go on in the next
line behind a backslash, and names need no quotes.

A number without a point and without an exponent is an integer.  In base sixteen it takes no
minus sign; otherwise any number of plus signs and at most one minus sign may precede it.
-/

namespace ScriptHost
namespace Json5

/-- A smallest piece of a JSON5 text. -/
inductive Token where
  /-- One of the characters that give the text its structure. -/
  | mark (c : Char)
  | text (s : List Char)
  /-- A name without quotes; `exact` tells that it was written without escapes. -/
  | word (s : List Char) (exact : Bool)
  | number (s : Scalar)
  deriving DecidableEq

/-- Whether a character ends a line. -/
def isLineEnd (c : Char) : Bool :=
  c == '\n' || c == '\r' || c.toNat == 0x2028 || c.toNat == 0x2029

/-- Whether a character is blank: a line end, one of the four ASCII blanks, a space of another
width, or the mark of the byte order. -/
def isBlank (c : Char) : Bool :=
  isLineEnd c || [0x20, 0x09, 0x0b, 0x0c, 0xa0, 0x1680, 0x202f, 0x205f, 0x3000, 0xfeff].contains c.toNat
    || (0x2000 ≤ c.toNat && c.toNat ≤ 0x200a)

/-- Whether a name can start with a character. -/
def isNameStart (c : Char) : Bool := c == '$' || c == '_' || Text.isLetter c

/-- Whether a name can go on with a character. -/
def isNamePart (c : Char) : Bool :=
  isNameStart c || Text.isMark c || c.toNat == 0x200c || c.toNat == 0x200d

/-- Whether a character gives the text its structure. -/
def isMark (c : Char) : Bool := ['\x7b', '\x7d', '[', ']', ':', ','].contains c

/-- What follows a comment of several lines, from behind its opening. -/
def skipComment? : List Char → Option (List Char)
  | '*' :: '/' :: rest => some rest
  | _ :: rest => skipComment? rest
  | [] => none

/-- The character that a letter stands for behind a backslash. -/
def escaped? (c : Char) : Option Char :=
  match c with
  | 'b' => some '\x08'
  | 'f' => some '\x0c'
  | 'n' => some '\n'
  | 'r' => some '\r'
  | 't' => some '\t'
  | 'v' => some '\x0b'
  | 'x' | 'u' => none
  | _ => if c.isDigit then none else some c

/-- The code points of a text up to its closing quote, and what follows. -/
def readText? (quote : Char) : List Char → Option (List Nat × List Char)
  | [] => none
  | '\\' :: 'x' :: a :: b :: rest => do
    let n ← Text.readHex? [a, b]
    let (ns, rest) ← readText? quote rest
    some (n :: ns, rest)
  | '\\' :: 'u' :: a :: b :: c :: d :: rest => do
    let n ← Text.readHex? [a, b, c, d]
    let (ns, rest) ← readText? quote rest
    some (n :: ns, rest)
  | '\\' :: '\r' :: '\n' :: rest => readText? quote rest
  | '\\' :: '0' :: rest =>
    if (rest.head?.map Char.isDigit).getD false then none
    else do
      let (ns, rest) ← readText? quote rest
      some (0 :: ns, rest)
  | '\\' :: c :: rest =>
    if isLineEnd c then readText? quote rest
    else do
      let e ← escaped? c
      let (ns, rest) ← readText? quote rest
      some (e.toNat :: ns, rest)
  | c :: rest =>
    if c == quote then some ([], rest)
    else if c == '\\' || isLineEnd c then none
    else do
      let (ns, rest) ← readText? quote rest
      some (c.toNat :: ns, rest)

/-- The rest of a name, whether it has no escapes, and what follows. -/
def readName? : List Char → Option (List Char × Bool × List Char)
  | '\\' :: 'u' :: a :: b :: c :: d :: rest => do
    let e ← (Text.readHex? [a, b, c, d]).bind Text.ofCodePoint?
    let (cs, _, rest) ← readName? rest
    some (e :: cs, false, rest)
  | c :: rest =>
    if c == '\\' then none
    else if isNamePart c then do
      let (cs, exact, rest) ← readName? rest
      some (c :: cs, exact, rest)
    else some ([], true, c :: rest)
  | [] => some ([], true, [])

/-- The named numbers. -/
def namedNumber? (word : List Char) (neg : Bool) : Option Double :=
  if word = "Infinity".toList then some (.infinite neg)
  else if word = "NaN".toList then some .nan
  else none

/-- The signs before a number: whether there is a minus sign, and what follows. -/
def readSigns? : List Char → Option (Bool × List Char)
  | '+' :: rest => readSigns? rest
  | '-' :: rest => do
    let (neg, rest) ← readSigns? rest
    if neg then none else some (true, rest)
  | rest => some (false, rest)

/-- Digits, and what follows them. -/
def readDigits (text : List Char) : List Char × List Char := text.span Char.isDigit

/-- The exponent at the head of a text, with its mark and its sign. -/
def readExponent (text : List Char) : List Char × List Char :=
  match text with
  | mark :: rest =>
    if mark == 'e' || mark == 'E' then
      let (sign, rest) := match rest with
        | c :: more => if c == '+' || c == '-' then ([c], more) else ([], rest)
        | [] => ([], [])
      let (digits, rest) := readDigits rest
      (mark :: (sign ++ digits), rest)
    else ([], text)
  | [] => ([], [])

/-- A number without sign in base ten, with what follows it. -/
def readDecimal? (neg : Bool) (text : List Char) : Option (Scalar × List Char) :=
  let (whole, rest) := readDigits text
  let (fraction, rest) := match rest with
    | '.' :: more =>
      let (digits, rest) := readDigits more
      ('.' :: digits, rest)
    | _ => ([], rest)
  let (exponent, rest) := readExponent rest
  if whole.head? == some '0' && 1 < whole.length then none
  else if fraction.isEmpty && exponent.isEmpty then
    if whole.isEmpty then none
    else
      let n : Int := Decimal.ofDigits whole
      some (.int (if neg then -n else n), rest)
  else do
    let d ← Decimal.read? (whole ++ (fraction ++ exponent))
    if exponent.length == 1 then none
    else some (.float (Floating.ofDecimal .double neg d), rest)

/-- A number with its signs, and what follows it. -/
def readNumber? (text : List Char) : Option (Scalar × List Char) := do
  let (neg, body) ← readSigns? text
  match body with
  | '0' :: x :: rest =>
    if x == 'x' || x == 'X' then
      let (digits, rest) := rest.span fun c => (Text.hexDigit? c).isSome
      if neg || digits.isEmpty then none
      else do
        let n ← Text.readHex? digits
        some (.int n, rest)
    else readDecimal? neg body
  | c :: _ =>
    if isNameStart c then do
      let (word, _, rest) ← readName? body
      let x ← namedNumber? word neg
      some (.float x, rest)
    else readDecimal? neg body
  | [] => none

/-- The tokens of a text; none if some part of it is not one.  The first argument bounds the
number of tokens and blanks and need not exceed the length of the text. -/
def scan? : Nat → List Char → Option (List Token)
  | _, [] => some []
  | 0, _ => none
  | n + 1, '/' :: '/' :: rest => scan? n (rest.dropWhile fun c => !isLineEnd c)
  | n + 1, '/' :: '*' :: rest => do
    let rest ← skipComment? rest
    scan? n rest
  | n + 1, c :: rest =>
    if isBlank c then scan? n rest
    else if isMark c then (scan? n rest).map (.mark c :: ·)
    else if c == '"' || c == '\'' then do
      let (ns, rest) ← readText? c rest
      let s ← Text.ofUnits? ns
      (scan? n rest).map (.text s :: ·)
    else if isNameStart c || c == '\\' then do
      let (s, exact, rest) ← readName? (c :: rest)
      (scan? n rest).map (.word s exact :: ·)
    else do
      let (s, rest) ← readNumber? (c :: rest)
      (scan? n rest).map (.number s :: ·)

end Json5
end ScriptHost
