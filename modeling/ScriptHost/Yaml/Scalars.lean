import ScriptHost.Yaml.Cursor

/-!
# Reading scalars

A scalar without quotes goes on as long as its lines stand far enough to the right; one in
quotes goes on to its closing quote; a literal one is the block of lines below its head.  In
the first two a line end with the blanks around it counts as one blank, and each empty line
after it as a line end.
-/

namespace ScriptHost
namespace Yaml

/-- The blanks and line ends between two words of a scalar. -/
inductive Gap where
  /-- Blanks in one line. -/
  | blanks (text : List Char)
  /-- A line end, unless it is escaped, and those of the empty lines after it. -/
  | broken (first : Option Char) (more : List Char)

/-- What a gap counts as. -/
def Gap.text : Gap → List Char
  | .blanks text => text
  | .broken none more => more
  | .broken (some c) more => if c ≠ '\n' then c :: more else if more.isEmpty then [' '] else more

/-- A gap with one more blank; at the ends of lines blanks do not count. -/
def Gap.blank (c : Char) : Gap → Gap
  | .blanks text => .blanks (text ++ [c])
  | gap => gap

/-- A gap with one more line end. -/
def Gap.newline (c : Char) : Gap → Gap
  | .blanks _ => .broken (some c) []
  | .broken first more => .broken first (more ++ [c])

/-! ## Without quotes -/

/-- The characters that end a scalar in brackets. -/
def isFlowMark (c : Char) : Bool := [',', '?', '[', ']', '\x7b', '\x7d'].contains c

/-- Whether a colon with this text behind it ends a scalar. -/
def endsKey (flow : Bool) : List Char → Bool
  | [] => true
  | c :: _ => isSeparator c || (flow && [',', '[', ']', '\x7b', '\x7d'].contains c)

/-- A word at the head of a text, and what follows it. -/
def word (flow : Bool) : List Char → List Char × List Char
  | [] => ([], [])
  | c :: rest =>
    if isSeparator c || (c == ':' && endsKey flow rest) || (flow && isFlowMark c) then ([], c :: rest)
    else
      let (w, rest) := word flow rest
      (c :: w, rest)

/-- The gap at a place, and the place behind it; none if a document ends in it. -/
def gapFrom (gap : Gap) (line column : Nat) : List Char → Option (Gap × Cursor)
  | [] => some (gap, ⟨[], line, column⟩)
  | c :: rest =>
    if c == ' ' then gapFrom (gap.blank c) line (column + 1) rest
    else if isBreak c then
      if startsMark rest then none else gapFrom (gap.newline c) (line + 1) 0 rest
    else some (gap, ⟨c :: rest, line, column⟩)

/-- The place behind blanks and line ends. -/
def skipGap (cur : Cursor) : Cursor :=
  Cursor.skipFrom false cur.line cur.column cur.rest

/-- A scalar without quotes, whose further lines have to reach a column, and the place behind
it.  The first argument bounds the number of words. -/
def plainFrom (flow : Bool) (indent : Int) : Nat → Cursor → List Char × Cursor
  | 0, cur => ([], cur)
  | n + 1, cur =>
    let (w, rest) := word flow cur.rest
    let behind : Cursor := ⟨rest, cur.line, cur.column + w.length⟩
    if w.isEmpty then ([], cur)
    else match gapFrom (.blanks []) behind.line behind.column rest with
      | none => (w, skipGap behind)
      | some (gap, place) =>
        let stops := gap.text.isEmpty || place.rest.head? == some '#' ||
          (!flow && (place.column : Int) < indent)
        if stops then (w, place)
        else
          let (more, place') := plainFrom flow indent n place
          if more.isEmpty then (w, place) else (w ++ (gap.text ++ more), place')

/-- Whether a scalar without quotes can start with a text. -/
def startsPlain (flow : Bool) : List Char → Bool
  | [] => false
  | c :: rest =>
    !(isSeparator c || ['-', '?', ':'].contains c || Style.leadingMarks.contains c) ||
      (!endsWord rest && (c == '-' || (!flow && (c == '?' || c == ':'))))

/-! ## In quotes -/

/-- The character that a letter stands for behind a backslash. -/
def unescapeLetter? (c : Char) : Option Char :=
  match c with
  | '0' => some '\x00'
  | 'a' => some '\x07'
  | 'b' => some '\x08'
  | 't' => some '\t'
  | '\t' => some '\t'
  | 'n' => some '\n'
  | 'v' => some '\x0b'
  | 'f' => some '\x0c'
  | 'r' => some '\r'
  | 'e' => some '\x1b'
  | ' ' => some ' '
  | '"' => some '"'
  | '\\' => some '\\'
  | '/' => some '/'
  | 'N' => some (Char.ofNat 0x85)
  | '_' => some (Char.ofNat 0xa0)
  | 'L' => some (Char.ofNat 0x2028)
  | 'P' => some (Char.ofNat 0x2029)
  | _ => none

/-- The number of digits behind the letter of an escape. -/
def escapeWidth? (c : Char) : Option Nat :=
  match c with
  | 'x' => some 2
  | 'u' => some 4
  | 'U' => some 8
  | _ => none

/-- A scalar in quotes, from behind its opening quote, and the place behind its closing one.
The first argument bounds the number of characters. -/
def quotedFrom (double : Bool) : Nat → Gap → Cursor → Option (List Char × Cursor)
  | 0, _, _ => none
  | n + 1, gap, cur =>
    let literal := fun (text : List Char) (size : Nat) => do
      let (more, place) ← quotedFrom double n (.blanks []) (cur.advance size)
      some (gap.text ++ (text ++ more), place)
    match cur.rest with
    | [] => none
    | c :: rest =>
      if c == ' ' || c == '\t' then quotedFrom double n (gap.blank c) cur.next
      else if isBreak c then
        if startsMark rest then none else quotedFrom double n (gap.newline c) cur.next
      else if c == '\'' && !double then
        if rest.head? == some '\'' then literal ['\''] 2 else some (gap.text, cur.next)
      else if c == '"' && double then some (gap.text, cur.next)
      else if c == '\\' && double then
        match rest with
        | [] => none
        | e :: digits =>
          if isBreak e then
            if startsMark digits then none
            else do
              let (more, place) ← quotedFrom double n (.broken none []) cur.next.next
              some (gap.text ++ more, place)
          else match unescapeLetter? e, escapeWidth? e with
            | some d, _ => literal [d] 2
            | none, some width =>
              if digits.length < width then none
              else do
                let d ← (Text.readHex? (digits.take width)).bind Text.ofCodePoint?
                literal [d] (2 + width)
            | none, none => none
      else literal [c] 1

/-- A scalar in quotes, from its opening quote on. -/
def quoted? (double : Bool) (cur : Cursor) : Option (List Char × Cursor) :=
  quotedFrom double (cur.rest.length + 1) (.blanks []) cur.next

/-! ## Literal blocks -/

/-- What happens to the line ends behind the last line. -/
inductive Chomping where
  | strip
  | clip
  | keep
  deriving DecidableEq

/-- The head of a literal block. -/
structure BlockHead where
  folded : Bool
  chomping : Chomping
  /-- How much further to the right than its surroundings the block stands. -/
  depth : Option Nat

/-- Reads the marks behind the first character of a head. -/
def BlockHead.marks (h : BlockHead) : List Char → BlockHead × List Char
  | c :: rest =>
    if c == '+' then marks { h with chomping := .keep } rest
    else if c == '-' then marks { h with chomping := .strip } rest
    else if '1' ≤ c && c ≤ '9' then marks { h with depth := some (c.toNat - 48) } rest
    else (h, c :: rest)
  | [] => (h, [])

/-- What a block has come to. -/
structure Block where
  text : List Char
  /-- The end of the last line. -/
  lineEnd : List Char
  /-- The ends of the empty lines behind it. -/
  empties : List Char
  /-- Whether the last line starts with something else than a blank; none before any line. -/
  solid : Option Bool

/-- Adds a line to a block. -/
def Block.add (folded : Bool) (b : Block) (line lineEnd : List Char) : Block :=
  let solid := match line with
    | c :: _ => !(c == ' ' || c == '\t')
    | [] => true
  let joint := match b.solid with
    | none => []
    | some before =>
      if folded && b.lineEnd == ['\n'] && before && solid then
        if b.empties.isEmpty then [' '] else []
      else b.lineEnd
  ⟨b.text ++ (joint ++ (b.empties ++ line)), lineEnd, [], some solid⟩

/-- The text of a block. -/
def Block.finish (chomping : Chomping) (b : Block) : List Char :=
  match chomping with
  | .strip => b.text
  | .clip => b.text ++ b.lineEnd
  | .keep => b.text ++ (b.lineEnd ++ b.empties)

/-- The line at the head of a text, its end, and what follows. -/
def takeLine (text : List Char) : List Char × List Char × List Char :=
  let (line, rest) := text.span fun c => !isBreak c
  (line, rest.take 1, rest.drop 1)

/-- The lines of a block at a column, and the place behind it.  The first argument bounds their
number. -/
def blockFrom (folded : Bool) (indent : Nat) : Nat → Block → Cursor → Block × Cursor
  | 0, b, cur => (b, cur)
  | n + 1, b, cur =>
    let (line, lineEnd, rest) := takeLine cur.rest
    let lead := (line.takeWhile (· == ' ')).length
    let next : Cursor := ⟨rest, cur.line + 1, 0⟩
    if line.isEmpty && lineEnd.isEmpty then (b, cur)
    else if line.length ≤ indent && lead == line.length then
      if lineEnd.isEmpty then (b, cur.advance lead)
      else blockFrom folded indent n { b with empties := b.empties ++ lineEnd } next
    else if lead < indent then (b, cur)
    else
      let b := b.add folded (line.drop indent) lineEnd
      if lineEnd.isEmpty then (b, cur.advance line.length) else blockFrom folded indent n b next

/-- The column of the first line that is not empty, or of the longest empty one before it. -/
def blockColumn : Nat → Nat → List Char → Nat
  | 0, widest, _ => widest
  | n + 1, widest, text =>
    let (line, lineEnd, rest) := takeLine text
    let lead := (line.takeWhile (· == ' ')).length
    let widest := max widest lead
    if lead < line.length || lineEnd.isEmpty then widest else blockColumn n widest rest

/-- A literal block inside surroundings at a column, from its head on. -/
def block? (outer : Int) (cur : Cursor) : Option (List Char × Cursor) := do
  let (mark, rest) ← match cur.rest with
    | c :: rest => some (c, rest)
    | [] => none
  let (head, rest) := BlockHead.marks ⟨mark == '>', .clip, none⟩ rest
  let (line, lineEnd, rest) := takeLine rest
  let remark := line.dropWhile (· == ' ')
  if !(remark.isEmpty || remark.head? == some '#') then none
  else
    let least := (max (outer + 1) 1).toNat
    let indent := match head.depth with
      | some depth => least + depth - 1
      | none => max least (blockColumn (rest.length + 1) 0 rest)
    let next : Cursor := ⟨rest, cur.line + lineEnd.length, 0⟩
    let (b, place) := blockFrom head.folded indent (rest.length + 1) ⟨[], [], [], none⟩ next
    some (b.finish head.chomping, place)

end Yaml
end ScriptHost
