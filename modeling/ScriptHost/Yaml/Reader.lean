import ScriptHost.Yaml.Node
import ScriptHost.Yaml.Scalars

/-!
# Reading YAML

The reader is one descent through the text.  In block style a collection stands at the column
of its first entry and goes on as long as entries stand there; what stands further to the left
belongs to the surroundings, and what stands further to the right belongs nowhere.  A simple
key is a node on one line with a colon behind it, and can stand only where a line, an item or
an explicit key starts.  Inside brackets the columns do not matter.

Every step takes a character or goes one level down, so the length of the text bounds their
number.
-/

namespace ScriptHost
namespace Yaml

/-! ## Anchors, aliases and tags -/

/-- Whether a character can be part of the name of an anchor. -/
def isNameChar (c : Char) : Bool := c.isAlphanum || c == '-' || c == '_'

/-- Whether a character can be part of a tag. -/
def isTagChar (c : Char) : Bool := c.isAlphanum || "-;/?:@&=+$,_.!~*()[]%".toList.contains c || c == '\''

/-- The name behind the mark of an anchor or an alias. -/
def name? (cur : Cursor) : Option (List Char × Cursor) :=
  let name := (cur.rest.drop 1).takeWhile isNameChar
  let place := cur.advance (name.length + 1)
  let ends := endsWord place.rest ||
    (place.rest.head?.map (['?', ':', ',', ']', '\x7d', '%', '@', '\x60'].contains ·)).getD false
  if name.isEmpty || !ends then none else some (name, place)

/-- A tag. -/
def tag? (cur : Cursor) : Option (List Char × Cursor) :=
  let tag := cur.rest.takeWhile isTagChar
  let place := cur.advance tag.length
  if endsWord place.rest then some (tag, place) else none

/-- What can be said about a node in front of it. -/
structure Properties where
  anchor : Option (List Char)
  tag : Option (List Char)

namespace Properties

def none : Properties := ⟨.none, .none⟩

/-- A node with its properties. -/
def attach (p : Properties) (n : Node) : Node :=
  let n := match p.tag with
    | some tag => .tagged tag n
    | .none => n
  match p.anchor with
  | some name => .anchored name n
  | .none => n

/-- The properties at a place, an anchor and a tag at most, and the place behind them. -/
def read? : Nat → Properties → Cursor → Option (Properties × Cursor)
  | 0, p, cur => some (p, cur)
  | n + 1, p, cur =>
    match cur.rest with
    | '&' :: _ =>
      if p.anchor.isSome then .none
      else do
        let (name, place) ← name? cur
        read? n { p with anchor := some name } place.skipSpaces
    | '!' :: _ =>
      if p.tag.isSome then .none
      else do
        let (tag, place) ← tag? cur
        read? n { p with tag := some tag } place.skipSpaces
    | _ => some (p, cur)

end Properties

/-- Whether a line has nothing more than a comment. -/
def atLineEnd (cur : Cursor) : Bool :=
  match cur.rest with
  | [] => true
  | c :: _ => isBreak c || c == '#'

/-- Whether the node between two places is a simple key: one line, not too long, a colon behind
it. -/
def isSimpleKey (flow : Bool) (start behind : Cursor) : Bool :=
  start.line == behind.line && start.rest.length ≤ behind.rest.length + 1024 &&
    match behind.rest with
    | ':' :: rest => flow || endsWord rest
    | _ => false

mutual

/-- A node that starts at this very place and has no block style: an alias, a scalar or a
collection in brackets. -/
def inlineNode : Nat → (flow : Bool) → (outer : Int) → Cursor → Option (Node × Cursor)
  | 0, _, _, _ => none
  | n + 1, flow, outer, cur =>
    match cur.rest with
    | '*' :: _ => do
      let (name, place) ← name? cur
      some (.alias name, place)
    | '"' :: _ => do
      let (text, place) ← quoted? true cur
      some (.scalar true text, place)
    | '\'' :: _ => do
      let (text, place) ← quoted? false cur
      some (.scalar true text, place)
    | '[' :: _ => do
      let (items, place) ← flowItems n cur.next.skip
      some (.sequence items, place)
    | '\x7b' :: _ => do
      let (entries, place) ← flowEntries n cur.next.skip
      some (.mapping entries, place)
    | text =>
      if startsPlain flow text then
        let (text, place) := plainFrom flow (outer + 1) (text.length + 1) cur
        some (.scalar false text, place)
      else none

/-- A node in brackets, which may have no content. -/
def flowNode : Nat → Cursor → Option (Node × Cursor)
  | 0, _ => none
  | n + 1, cur => do
    let (p, place) ← Properties.read? 2 .none cur
    let place := if p.anchor.isSome || p.tag.isSome then place.skip else place
    let ended := match place.rest with
      | c :: _ => [',', ']', '\x7d', ':'].contains c
      | [] => false
    if place.atEnd then none
    else if ended then
      if p.anchor.isSome || p.tag.isSome then some (p.attach .empty, place) else none
    else
      let (node, place) ← inlineNode n true 0 place
      some (p.attach node, place)

/-- A node in brackets that may be a key with a value. -/
def flowPair : Nat → Cursor → Option ((Node × Option Node) × Cursor)
  | 0, _ => none
  | n + 1, cur =>
    let valueAt := fun (place : Cursor) => do
      let place := place.next.skip
      match place.rest with
      | ',' :: _ | ']' :: _ | '\x7d' :: _ => some (Node.empty, place)
      | _ => flowNode n place
    match cur.rest with
    | '?' :: _ => do
      let place := cur.next.skip
      let (key, place) ← match place.rest with
        | ',' :: _ | ']' :: _ | '\x7d' :: _ | ':' :: _ => some (Node.empty, place)
        | _ => flowNode n place
      let place := place.skip
      match place.rest with
      | ':' :: _ => do
        let (value, place) ← valueAt place
        some ((key, some value), place.skip)
      | _ => some ((key, some .empty), place)
    | _ => do
      let (key, place) ← flowNode n cur
      let behind := place.skipSpaces
      if isSimpleKey true cur behind then
        let (value, place) ← valueAt behind
        some ((key, some value), place.skip)
      else some ((key, none), place.skip)

/-- The items of a sequence in brackets up to its end. -/
def flowItems : Nat → Cursor → Option (List Node × Cursor)
  | 0, _ => none
  | n + 1, cur =>
    match cur.rest with
    | ']' :: _ => some ([], cur.next)
    | _ => do
      let ((key, value), place) ← flowPair n cur
      let item := match value with
        | some value => .mapping [(key, value)]
        | none => key
      match place.rest with
      | ',' :: _ => do
        let (items, place) ← flowItems n place.next.skip
        some (item :: items, place)
      | ']' :: _ => some ([item], place.next)
      | _ => none

/-- The entries of a mapping in brackets up to its end. -/
def flowEntries : Nat → Cursor → Option (List (Node × Node) × Cursor)
  | 0, _ => none
  | n + 1, cur =>
    match cur.rest with
    | '\x7d' :: _ => some ([], cur.next)
    | _ => do
      let ((key, value), place) ← flowPair n cur
      let entry := (key, value.getD .empty)
      match place.rest with
      | ',' :: _ => do
        let (entries, place) ← flowEntries n place.next.skip
        some (entry :: entries, place)
      | '\x7d' :: _ => some ([entry], place.next)
      | _ => none

end

mutual

/-- A node in block style, inside surroundings at a column.  `fresh` tells that a collection
may start in the line of the given place, and `aside` that a sequence may stand at the column
of the surroundings. -/
def blockNode : Nat → (outer : Int) → (fresh aside : Bool) → Cursor → Option (Node × Cursor)
  | 0, _, _, _, _ => none
  | n + 1, outer, fresh, aside, start =>
    let cur := start.skip
    let moved := cur.line ≠ start.line
    let fresh := fresh || moved
    if cur.atEnd then some (.empty, cur)
    else if moved && (cur.column : Int) ≤ outer then
      if aside && (cur.column : Int) = outer && cur.atIndicator '-' then do
        let (items, place) ← blockItems n cur.column cur
        some (.sequence items, place)
      else some (.empty, cur)
    else if cur.atIndicator '-' then
      if fresh then do
        let (items, place) ← blockItems n cur.column cur
        some (.sequence items, place)
      else none
    else if cur.atIndicator '?' then
      if fresh then do
        let (entries, place) ← blockEntries n cur.column cur
        some (.mapping entries, place)
      else none
    else do
      let (p, place) ← Properties.read? 2 .none cur
      let marked := p.anchor.isSome || p.tag.isSome
      if marked && atLineEnd place then
        let (node, place) ← blockNode n outer false aside place
        some (p.attach node, place)
      else match place.rest with
        | '|' :: _ | '>' :: _ => do
          let (text, place) ← block? outer place
          some (p.attach (.scalar true text), place)
        | _ => do
          let (node, place) ← inlineNode n false outer place
          if fresh && isSimpleKey false cur place.skipSpaces then
            let (entries, place) ← blockEntries n cur.column cur
            some (.mapping entries, place)
          else some (p.attach node, place)

/-- The items of a sequence at a column. -/
def blockItems : Nat → (column : Nat) → Cursor → Option (List Node × Cursor)
  | 0, _, _ => none
  | n + 1, column, cur => do
    let (item, place) ← blockNode n column true false cur.next
    let place := place.skip
    if !place.atEnd && place.column == column && place.atIndicator '-' then
      let (items, place) ← blockItems n column place
      some (item :: items, place)
    else some ([item], place)

/-- The entries of a mapping at a column. -/
def blockEntries : Nat → (column : Nat) → Cursor → Option (List (Node × Node) × Cursor)
  | 0, _, _ => none
  | n + 1, column, cur => do
    let (entry, place) ← blockEntry n column cur
    let place := place.skip
    if !place.atEnd && place.column == column && !place.atIndicator '-' then
      let (entries, place) ← blockEntries n column place
      some (entry :: entries, place)
    else some ([entry], place)

/-- An entry of a mapping at a column. -/
def blockEntry : Nat → (column : Nat) → Cursor → Option ((Node × Node) × Cursor)
  | 0, _, _ => none
  | n + 1, column, cur =>
    if cur.atIndicator '?' then do
      let (key, place) ← blockNode n column true true cur.next
      let place := place.skip
      if !place.atEnd && place.column == column && place.atIndicator ':' then
        let (value, place) ← blockNode n column true true place.next
        some ((key, value), place)
      else some ((key, .empty), place)
    else do
      let (p, place) ← Properties.read? 2 .none cur
      let (key, place) ← inlineNode n false column place
      let behind := place.skipSpaces
      if isSimpleKey false cur behind then
        let (value, place) ← blockNode n column false true behind.next
        some ((p.attach key, value), place)
      else none

end

/-! ## Documents -/

/-- The place behind the directives before a document. -/
def skipDirectives : Nat → Cursor → Cursor
  | 0, cur => cur
  | n + 1, cur =>
    if cur.column == 0 && cur.rest.head? == some '%' then
      skipDirectives n (Cursor.skipFrom true cur.line cur.column cur.rest)
    else cur

/-- Whether nothing follows but ends of documents. -/
def endsStream : Nat → Cursor → Bool
  | 0, _ => false
  | n + 1, cur =>
    cur.rest.isEmpty ||
      (cur.column == 0 && ['.', '.', '.'].isPrefixOf cur.rest && startsMark cur.rest &&
        endsStream n (cur.advance 3).skip)

/-- The only document of a text; a text without one is the node without content. -/
def parse? (text : List Char) : Option Node := do
  let text := unifyBreaks (if text.head? == some '\ufeff' then text.drop 1 else text)
  if !text.all isReadable then none
  else
    let n := 8 * (text.length + 2)
    let first := (Cursor.start text).skip
    let cur := skipDirectives n first
    let marked := cur.column == 0 && ['-', '-', '-'].isPrefixOf cur.rest && startsMark cur.rest
    if cur.line ≠ first.line && !marked then none
    else if !marked && cur.rest.isEmpty then some .empty
    else
      let (node, place) ← blockNode n (-1) (!marked) false (if marked then cur.advance 3 else cur)
      if endsStream n place.skip then some node else none

/-- What the document of a text denotes. -/
def read? (text : String) : Option Datum := (parse? text.toList).bind Node.datum?

end Yaml
end ScriptHost
