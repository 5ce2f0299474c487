import ScriptHost.Yaml.Style

/-!
# Places in a YAML text

Indentation gives a YAML text its structure, so its reader has to know the line and the
column it is at.  A `Cursor` is the text that is left together with these two.

Line ends of all kinds are brought into one form first: only the two separators outside
ASCII stay as they are.
-/

namespace ScriptHost
namespace Yaml

/-- The text that is left, and where it starts. -/
structure Cursor where
  rest : List Char
  line : Nat
  column : Nat
  deriving DecidableEq

/-- A text with the line ends of ASCII, and the next line, written as line feeds. -/
def unifyBreaks : List Char → List Char
  | '\r' :: '\n' :: rest => '\n' :: unifyBreaks rest
  | c :: rest => (if c == '\r' || c.toNat == 0x85 then '\n' else c) :: unifyBreaks rest
  | [] => []

/-- Whether a character may occur in a YAML text at all. -/
def isReadable (c : Char) : Bool :=
  c == '\t' || c == '\n' || c == '\r' || (0x20 ≤ c.toNat && c.toNat ≤ 0x7e) || c.toNat == 0x85 ||
    (0xa0 ≤ c.toNat && c.toNat ≠ 0xfffe && c.toNat ≠ 0xffff)

/-- Whether a separator or nothing stands at the head of a text. -/
def endsWord : List Char → Bool
  | [] => true
  | c :: _ => isSeparator c

/-- Whether a text starts with one of the marks between documents. -/
def startsMark (text : List Char) : Bool := Style.isMarkLike text && endsWord (text.drop 3)

namespace Cursor

/-- The start of a text. -/
def start (text : List Char) : Cursor := ⟨text, 0, 0⟩

/-- The place behind the character at the head. -/
def next (cur : Cursor) : Cursor :=
  match cur.rest with
  | [] => cur
  | c :: rest => if isBreak c then ⟨rest, cur.line + 1, 0⟩ else ⟨rest, cur.line, cur.column + 1⟩

/-- The place behind so many characters, none of which ends a line. -/
def advance (cur : Cursor) (n : Nat) : Cursor := ⟨cur.rest.drop n, cur.line, cur.column + n⟩

/-- The place behind the blanks at the head. -/
def skipSpaces (cur : Cursor) : Cursor :=
  cur.advance (cur.rest.takeWhile (· == ' ')).length

/-- The place of the next token, behind blanks, line ends and comments. -/
def skipFrom (comment : Bool) (line column : Nat) : List Char → Cursor
  | [] => ⟨[], line, column⟩
  | c :: rest =>
    if isBreak c then skipFrom false (line + 1) 0 rest
    else if comment || c == '#' then skipFrom true line (column + 1) rest
    else if c == ' ' then skipFrom false line (column + 1) rest
    else ⟨c :: rest, line, column⟩

/-- The place of the next token. -/
def skip (cur : Cursor) : Cursor := skipFrom false cur.line cur.column cur.rest

/-- Whether a document ends here. -/
def atEnd (cur : Cursor) : Bool :=
  cur.rest.isEmpty || (cur.column == 0 && startsMark cur.rest)

/-- Whether an indicator stands here: a character with a separator behind it. -/
def atIndicator (cur : Cursor) (mark : Char) : Bool :=
  match cur.rest with
  | c :: rest => c == mark && endsWord rest
  | [] => false

end Cursor
end Yaml
end ScriptHost
