import ScriptHost.Function.Scope
import ScriptHost.Text.Letter

/-!
# The expressions of text annotations

A text annotation is scanned into tokens (`TypeToken.scan?`) and read as an expression by the
precedence of its operators (`TypeExpr.parse?`).  Most of what annotations are written with is
names, attributes, parts in brackets and alternatives divided by bars; whatever else an expression
may hold is read as well, since a text that is no expression is another failure than one that
names nothing.

The language is smaller than that of the host.  Not read are lambda expressions, comprehensions,
assignments, slices, unpacking, sets, keywords in calls, formatted and prefixed texts, escapes in
texts, numbers to other bases than ten, and lines before the expression.
-/

namespace ScriptHost

/-- The smallest pieces of an annotation text. -/
inductive TypeToken where
  | name (s : String)
  | number (n : Scalar)
  | quoted (s : String)
  | mark (s : String)
  deriving DecidableEq

namespace TypeToken

/-- Whether a name can start with a character. -/
def isNameStart (c : Char) : Bool := c == '_' || Text.isLetter c

/-- Whether a name can go on with a character. -/
def isNamePart (c : Char) : Bool := isNameStart c || Text.isMark c

/-- Whether a character ends a line. -/
def isLineEnd (c : Char) : Bool := c == '\n' || c == '\r'

/-- The marks of two or more characters, longest first. -/
def longMarks : List String := ["...", "**", "//", "<<", ">>", "<=", ">=", "==", "!="]

/-- The other marks. -/
def shortMarks : List Char := "+-*/%@<>|&^~.,:()[]\x7b\x7d".toList

/-- The mark that a text starts with. -/
def mark? (cs : List Char) : Option String :=
  match longMarks.find? fun m => m.toList.isPrefixOf cs with
  | some m => some m
  | none => match cs with
    | c :: _ => if shortMarks.contains c then some (String.ofList [c]) else none
    | [] => none

/-- How many more brackets are open after a mark. -/
def depthAfter (depth : Nat) (m : String) : Nat :=
  if ["(", "[", "\x7b"].contains m then depth + 1
  else if [")", "]", "\x7d"].contains m then depth - 1
  else depth

/-- The number that digits, points and letters write. -/
def number? (cs : List Char) : Option Scalar :=
  match readInteger? cs with
  | some n => if cs.length > 1 && cs.head? == some '0' && n ≠ 0 then none else some (.int n)
  | none => (readDouble? cs).map .float

/-- The tokens of a text, inside of so many open brackets; none if a character fits nowhere.  The
first argument bounds the number of tokens and need not exceed the length of the text. -/
def scan? : Nat → Nat → List Char → Option (List TypeToken)
  | _, _, [] => some []
  | 0, _, _ => none
  | n + 1, depth, c :: rest =>
    if isBlank c then scan? n depth rest
    else if c == '#' then scan? n depth (rest.dropWhile fun d => !isLineEnd d)
    else if isLineEnd c then
      match scan? n depth rest with
      | some [] => some []
      | others => if depth = 0 then none else others
    else if isNameStart c then
      let (more, rest) := rest.span isNamePart
      (scan? n depth rest).map (.name (String.ofList (c :: more)) :: ·)
    else if c.isDigit then
      let (more, rest) := rest.span fun d => d.isDigit || isNamePart d || d == '.'
      match number? (c :: more) with
      | some k => (scan? n depth rest).map (.number k :: ·)
      | none => none
    else if c == '\'' || c == '"' then
      let (body, rest) := rest.span fun d => d != c && d != '\\' && !isLineEnd d
      match rest with
      | d :: rest => if d == c then (scan? n depth rest).map (.quoted (String.ofList body) :: ·)
          else none
      | [] => none
    else match mark? (c :: rest) with
      | some m => (scan? n (depthAfter depth m) ((c :: rest).drop m.length)).map (.mark m :: ·)
      | none => none

end TypeToken

/-- The expression in a text annotation. -/
inductive TypeExpr where
  | name (s : String)
  | literal (d : Datum)
  | ellipsis
  | attribute (e : TypeExpr) (field : String)
  | index (e : TypeExpr) (parts : List TypeExpr) (single : Bool)
  | call (e : TypeExpr) (arguments : List TypeExpr)
  | list (items : List TypeExpr)
  | tuple (items : List TypeExpr)
  | map (keys values : List TypeExpr)
  | unary (op : String) (e : TypeExpr)
  | binary (op : String) (a b : TypeExpr)
  | negation (e : TypeExpr)
  | both (a b : TypeExpr)
  | either (a b : TypeExpr)
  | choice (condition yes no : TypeExpr)
  /-- Comparisons in a row, each operand with the operator before it. -/
  | comparison (first : TypeExpr) (operators : List String) (rest : List TypeExpr)

namespace TypeExpr

/-- Words that cannot be names. -/
def reserved : List String :=
  ["and", "as", "assert", "async", "await", "break", "class", "continue", "def", "del", "elif",
   "else", "except", "finally", "for", "from", "global", "if", "import", "in", "is", "lambda",
   "nonlocal", "not", "or", "pass", "raise", "return", "try", "while", "with", "yield"]

/-- The operators that join two operands, the loosest first. -/
def levels : List (List String) :=
  [["|"], ["^"], ["&"], ["<<", ">>"], ["+", "-"], ["*", "/", "//", "%", "@"]]

/-- The comparison that tokens start with, and the tokens after it. -/
def comparisonAt? : List TypeToken → Option (String × List TypeToken)
  | .name "not" :: .name "in" :: ts => some ("not in", ts)
  | .name "is" :: .name "not" :: ts => some ("is not", ts)
  | .name "in" :: ts => some ("in", ts)
  | .name "is" :: ts => some ("is", ts)
  | .mark m :: ts =>
    if ["<", ">", "<=", ">=", "==", "!="].contains m then some (m, ts) else none
  | _ => none

mutual

/-- A conditional expression, or what can stand in one. -/
def readChoice : Nat → List TypeToken → Option (TypeExpr × List TypeToken)
  | 0, _ => none
  | n + 1, ts => do
    let (yes, ts) ← readEither n ts
    match ts with
    | .name "if" :: ts => do
      let (condition, ts) ← readEither n ts
      match ts with
      | .name "else" :: ts => do
        let (no, ts) ← readChoice n ts
        some (.choice condition yes no, ts)
      | _ => none
    | ts => some (yes, ts)

/-- Alternatives joined by `or`. -/
def readEither : Nat → List TypeToken → Option (TypeExpr × List TypeToken)
  | 0, _ => none
  | n + 1, ts => do
    let (a, ts) ← readBoth n ts
    match ts with
    | .name "or" :: ts => do
      let (b, ts) ← readEither n ts
      some (.either a b, ts)
    | ts => some (a, ts)

/-- Conditions joined by `and`. -/
def readBoth : Nat → List TypeToken → Option (TypeExpr × List TypeToken)
  | 0, _ => none
  | n + 1, ts => do
    let (a, ts) ← readNegation n ts
    match ts with
    | .name "and" :: ts => do
      let (b, ts) ← readBoth n ts
      some (.both a b, ts)
    | ts => some (a, ts)

/-- A negation or comparisons in a row. -/
def readNegation : Nat → List TypeToken → Option (TypeExpr × List TypeToken)
  | 0, _ => none
  | n + 1, .name "not" :: ts => do
    let (e, ts) ← readNegation n ts
    some (.negation e, ts)
  | n + 1, ts => do
    let (first, ts) ← readJoined n levels ts
    let ((operators, rest), ts) ← readComparisons n ts
    some (if operators.isEmpty then first else .comparison first operators rest, ts)

/-- The comparisons after an operand. -/
def readComparisons : Nat → List TypeToken →
    Option ((List String × List TypeExpr) × List TypeToken)
  | 0, _ => none
  | n + 1, ts => match comparisonAt? ts with
    | some (op, ts) => do
      let (e, ts) ← readJoined n levels ts
      let ((operators, rest), ts) ← readComparisons n ts
      some ((op :: operators, e :: rest), ts)
    | none => some (([], []), ts)

/-- Operands joined by operators of the given levels. -/
def readJoined : Nat → List (List String) → List TypeToken → Option (TypeExpr × List TypeToken)
  | 0, _, _ => none
  | n + 1, [], ts => readUnary n ts
  | n + 1, operators :: tighter, ts => do
    let (e, ts) ← readJoined n tighter ts
    readMore n operators tighter e ts

/-- Further operands after one. -/
def readMore : Nat → List String → List (List String) → TypeExpr → List TypeToken →
    Option (TypeExpr × List TypeToken)
  | 0, _, _, _, _ => none
  | n + 1, operators, tighter, e, ts => match ts with
    | .mark m :: rest => if operators.contains m then do
        let (f, ts) ← readJoined n tighter rest
        readMore n operators tighter (.binary m e f) ts
      else some (e, ts)
    | ts => some (e, ts)

/-- A signed operand or a power. -/
def readUnary : Nat → List TypeToken → Option (TypeExpr × List TypeToken)
  | 0, _ => none
  | n + 1, ts => match ts with
    | .mark m :: rest => if ["-", "+", "~"].contains m then do
        let (e, ts) ← readUnary n rest
        some (.unary m e, ts)
      else readPower n ts
    | ts => readPower n ts

/-- An operand, to the power of another one. -/
def readPower : Nat → List TypeToken → Option (TypeExpr × List TypeToken)
  | 0, _ => none
  | n + 1, ts => do
    let (a, ts) ← readAtom n ts
    let (a, ts) ← readTail n a ts
    match ts with
    | .mark "**" :: ts => do
      let (b, ts) ← readUnary n ts
      some (.binary "**" a b, ts)
    | ts => some (a, ts)

/-- The attributes, brackets and arguments after an expression. -/
def readTail : Nat → TypeExpr → List TypeToken → Option (TypeExpr × List TypeToken)
  | 0, _, _ => none
  | n + 1, e, .mark "." :: .name field :: ts =>
    if reserved.contains field then none else readTail n (.attribute e field) ts
  | _, _, .mark "." :: _ => none
  | n + 1, e, .mark "[" :: ts => do
    let ((parts, trailing), ts) ← readParts n "]" ts
    if parts.isEmpty then none
    else readTail n (.index e parts (parts.length == 1 && !trailing)) ts
  | n + 1, e, .mark "(" :: ts => do
    let ((parts, _), ts) ← readParts n ")" ts
    readTail n (.call e parts) ts
  | _, e, ts => some (e, ts)

/-- Expressions divided by commas, up to a closing mark, and whether a comma stands before that. -/
def readParts : Nat → String → List TypeToken →
    Option ((List TypeExpr × Bool) × List TypeToken)
  | 0, _, _ => none
  | n + 1, close, ts =>
    if ts.head? = some (.mark close) then some (([], true), ts.drop 1)
    else do
      let (e, ts) ← readChoice n ts
      match ts with
      | .mark "," :: ts => do
        let ((es, trailing), ts) ← readParts n close ts
        some ((e :: es, trailing), ts)
      | t :: ts => if t = .mark close then some (([e], false), ts) else none
      | [] => none

/-- Keys and values, up to the closing brace. -/
def readEntries : Nat → List TypeToken →
    Option ((List TypeExpr × List TypeExpr) × List TypeToken)
  | 0, _ => none
  | _, .mark "\x7d" :: ts => some (([], []), ts)
  | n + 1, ts => do
    let (key, ts) ← readChoice n ts
    match ts with
    | .mark ":" :: ts => do
      let (value, ts) ← readChoice n ts
      match ts with
      | .mark "," :: ts => do
        let ((keys, values), ts) ← readEntries n ts
        some ((key :: keys, value :: values), ts)
      | .mark "\x7d" :: ts => some (([key], [value]), ts)
      | _ => none
    | _ => none

/-- A name, a literal, or an expression in brackets of its own. -/
def readAtom : Nat → List TypeToken → Option (TypeExpr × List TypeToken)
  | 0, _ => none
  | _, .name "True" :: ts => some (.literal (.bool true), ts)
  | _, .name "False" :: ts => some (.literal (.bool false), ts)
  | _, .name s :: ts => if reserved.contains s then none else some (.name s, ts)
  | _, .number k :: ts => some (.literal (.scalar k), ts)
  | n + 1, .quoted s :: .quoted t :: ts => readAtom n (.quoted (s ++ t) :: ts)
  | _, .quoted s :: ts => some (.literal (.string s), ts)
  | _, .mark "..." :: ts => some (.ellipsis, ts)
  | n + 1, .mark "(" :: ts => do
    let ((parts, trailing), ts) ← readParts n ")" ts
    match parts, trailing with
    | [e], false => some (e, ts)
    | parts, _ => some (.tuple parts, ts)
  | n + 1, .mark "[" :: ts => do
    let ((parts, _), ts) ← readParts n "]" ts
    some (.list parts, ts)
  | n + 1, .mark "\x7b" :: ts => do
    let ((keys, values), ts) ← readEntries n ts
    some (.map keys values, ts)
  | _, _ => none

end

/-- Reads the expression of a text; several divided by commas are a tuple. -/
def parse? (s : String) : Option TypeExpr := do
  let ts ← TypeToken.scan? (s.length + 1) 0 s.toList
  let fuel := 20 * (ts.length + 2)
  let (e, rest) ← readChoice fuel ts
  match rest with
  | [] => some e
  | .mark "," :: more => do
    -- what follows is read as if a bracket closed it
    let ((es, _), rest) ← readParts fuel ")" (more ++ [.mark ")"])
    if rest.isEmpty then some (.tuple (e :: es)) else none
  | _ => none

end TypeExpr
end ScriptHost
