import ScriptHost.Text.Quoted
import ScriptHost.Yaml.Plain

/-!
# How scalars are written

A string is written without quotes if its text then reads back as the same string, else in
single quotes if no character of it needs an escape, else in double quotes.  A text that is
too long for its line is folded: a line may end where a single blank stands, and a text in
double quotes also behind an escape.

The writers keep count of the column, since only a text that has gone beyond it is folded.
Keys are never folded.
-/

namespace ScriptHost
namespace Yaml

/-- Whether a character ends a line. -/
def isBreak (c : Char) : Bool :=
  c == '\n' || c.toNat == 0x85 || c.toNat == 0x2028 || c.toNat == 0x2029

/-- Whether a character divides words or lines. -/
def isSeparator (c : Char) : Bool := c == ' ' || c == '\t' || c == '\r' || c == '\x00' || isBreak c

/-- Whether a character can stand unescaped. -/
def isPlainChar (c : Char) : Bool :=
  c == '\n' || (0x20 ≤ c.toNat && c.toNat ≤ 0x7e) || c.toNat == 0x85 ||
    (0xa0 ≤ c.toNat && c.toNat < 0x10ffff && c.toNat ≠ 0xfeff && c.toNat ≠ 0xfffe && c.toNat ≠ 0xffff)

/-- Whether two neighbouring characters are in a relation. -/
def anyNeighbours (p : Char → Char → Bool) : List Char → Bool
  | c :: d :: rest => p c d || anyNeighbours p (d :: rest)
  | _ => false

/-! ## The choice of a style -/

namespace Style

/-- Whether a text starts like the mark between documents. -/
def isMarkLike (text : List Char) : Bool :=
  ['-', '-', '-'].isPrefixOf text || ['.', '.', '.'].isPrefixOf text

/-- Characters that mean something at the head of a scalar. -/
def leadingMarks : List Char :=
  ['#', ',', '[', ']', '\x7b', '\x7d', '&', '*', '!', '|', '>', '\'', '"', '%', '@', '\x60']

/-- Whether the head of a text would be taken for something else than a scalar. -/
def hasLeadingMark : List Char → Bool
  | [] => false
  | [c] => leadingMarks.contains c || c == '?' || c == '-'
  | c :: d :: _ => leadingMarks.contains c || ((c == '?' || c == '-') && isSeparator d)

/-- Whether a text holds what would end it as a scalar: a colon before a separator or at the
end, or a number sign behind a separator. -/
def hasInnerMark (text : List Char) : Bool :=
  text.getLast? == some ':' ||
    anyNeighbours (fun c d => (c == ':' && isSeparator d) || (isSeparator c && d == '#')) text

/-- Whether a text starts or ends with a blank. -/
def hasOuterBlank (text : List Char) : Bool := text.head? == some ' ' || text.getLast? == some ' '

/-- Whether a string can be written without quotes. -/
def isPlain (text : List Char) : Bool :=
  Plain.tag text == .str && text.all isPlainChar && !text.any isBreak && !hasOuterBlank text &&
    !isMarkLike text && !hasLeadingMark text && !hasInnerMark text

/-- Whether a string can be written in single quotes: no character needs an escape, and no
blank stands next to a line end. -/
def isSingle (text : List Char) : Bool :=
  text.all isPlainChar &&
    !anyNeighbours (fun c d => (isBreak c && d == ' ') || (c == ' ' && isBreak d)) text

end Style

/-! ## The styles -/

/-- The column that a line goes beyond before it is folded. -/
def bestWidth : Nat := 80

/-- The blanks before a line that continues a scalar. -/
def margin (indent : Nat) : List Char := List.replicate indent ' '

/-- How a scalar is laid out: whether it may be folded, and the column of its further lines. -/
structure Layout where
  folds : Bool
  indent : Nat

/-- Whether a blank can be replaced by a line end: it is a single one, between two others, in
a text that has gone beyond the width. -/
def Layout.breaksAt (l : Layout) (column : Nat) (before : Option Char) (after : List Char) : Bool :=
  l.folds && bestWidth < column && before.isSome && before ≠ some ' ' &&
    !after.isEmpty && after.head? ≠ some ' '

/-- A text without quotes, from a column on. -/
def plainBody (l : Layout) (before : Option Char) (column : Nat) : List Char → List Char
  | [] => []
  | c :: rest =>
    if c == ' ' && l.breaksAt column before rest then
      '\n' :: (margin l.indent ++ plainBody l (some c) l.indent rest)
    else c :: plainBody l (some c) (column + 1) rest

/-- What a line end is written as in single quotes: the first of several is doubled, and the
margin follows the last. -/
def brokenLine (indent : Nat) (before : Option Char) (c : Char) (after : List Char) : List Char :=
  let first := !(before.map isBreak).getD false
  let last := !(after.head?.map isBreak).getD false
  (if first && c == '\n' then ['\n'] else []) ++ c :: (if last then margin indent else [])

/-- A text between single quotes, from a column on. -/
def singleBody (l : Layout) (before : Option Char) (column : Nat) : List Char → List Char
  | [] => []
  | c :: rest =>
    if isBreak c then brokenLine l.indent before c rest ++ singleBody l (some c) l.indent rest
    else if c == '\'' then '\'' :: '\'' :: singleBody l (some c) (column + 2) rest
    else if c == ' ' && l.breaksAt column before rest then
      '\n' :: (margin l.indent ++ singleBody l (some c) l.indent rest)
    else c :: singleBody l (some c) (column + 1) rest

/-- The letter that stands for a character behind a backslash. -/
def escapeLetter? (c : Char) : Option Char :=
  match c.toNat with
  | 0x00 => some '0'
  | 0x07 => some 'a'
  | 0x08 => some 'b'
  | 0x09 => some 't'
  | 0x0a => some 'n'
  | 0x0b => some 'v'
  | 0x0c => some 'f'
  | 0x0d => some 'r'
  | 0x1b => some 'e'
  | 0x22 => some '"'
  | 0x5c => some '\\'
  | 0x85 => some 'N'
  | 0xa0 => some '_'
  | 0x2028 => some 'L'
  | 0x2029 => some 'P'
  | _ => none

/-- Whether a character stands for itself in double quotes. -/
def isQuotable (c : Char) : Bool :=
  c ≠ '"' && c ≠ '\\' && ((0x20 ≤ c.toNat && c.toNat ≤ 0x7e) ||
    (0xa0 ≤ c.toNat && c.toNat ≤ 0xfffd && c.toNat ≠ 0x2028 && c.toNat ≠ 0x2029 && c.toNat ≠ 0xfeff))

/-- A number in base sixteen in upper case, filled up with zeros to a width. -/
def upperHex (width n : Nat) : List Char := (Text.hexPadded width n).map Char.toUpper

/-- The escape of a character. -/
def escapeText (c : Char) : List Char :=
  match escapeLetter? c with
  | some letter => ['\\', letter]
  | none =>
    if c.toNat < 0x100 then '\\' :: 'x' :: upperHex 2 c.toNat
    else if c.toNat < 0x10000 then '\\' :: 'u' :: upperHex 4 c.toNat
    else '\\' :: 'U' :: upperHex 8 c.toNat

/-- A text between double quotes, from a column on.  `fresh` tells that nothing has been
written since an escape; a line then ends in a backslash, and so does a blank at the head of
the next line start with one. -/
def doubleBody (l : Layout) (first fresh : Bool) (column : Nat) : List Char → List Char
  | [] => []
  | c :: rest =>
    let inside := l.folds && !first && !rest.isEmpty
    if isQuotable c then
      if inside && (c == ' ' || fresh) && bestWidth < column then
        let mark := if c == ' ' then ['\\'] else []
        '\\' :: '\n' :: (margin l.indent ++ (mark ++
          c :: doubleBody l false false (l.indent + mark.length + 1) rest))
      else c :: doubleBody l false false (column + 1) rest
    else
      let text := escapeText c
      if inside && bestWidth + 1 < column + text.length then
        let mark := if rest.head? == some ' ' then ['\\'] else []
        text ++ '\\' :: '\n' :: (margin l.indent ++ (mark ++
          doubleBody l false true (l.indent + mark.length) rest))
      else text ++ doubleBody l false true (column + text.length) rest

/-- A string from a column on; a key that is a simple one has no line ends. -/
def stringText (l : Layout) (isKey : Bool) (column : Nat) (text : List Char) : List Char :=
  if Style.isPlain text then plainBody l none column text
  else if Style.isSingle text && !(isKey && text.any isBreak) then
    '\'' :: (singleBody l none (column + 1) text ++ ['\''])
  else '"' :: (doubleBody l true true (column + 1) text ++ ['"'])

end Yaml
end ScriptHost
