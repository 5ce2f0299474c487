import ScriptHost.Value.Heap
import ScriptHost.Value.Text

/-!
# Text forms of values in a store

The text forms of `Value.Exact` and `Value.Text`, read off the cells.  For a value that has a
datum they are those of the datum; here a value may contain itself as well, and an integer may be
too long for a text.

The exact form stops at an array, a map or a tuple that is being shown already, and puts three
dots in place of its items.  Containers and handles are not looked out for: where nothing but these
lies between a value and itself, the exact form fails.  The debug form looks out for nothing and
fails wherever arrays, maps and containers lead back to themselves.  Tuples, objects and handles
are shown in the exact form there, and with them everything inside.

All forms are computed by `follow`, which goes from cell to cell and remembers on a trail what it
is showing.  A tuple has no address, so tuples that are written alike count as one.  Bodies build no
tuples and what is handed in is new, so two tuples over the same cells are in fact one.
-/

namespace ScriptHost

open Text

/-- A text, or why there is none. -/
abbrev Shown := Except ConvertError (List Char)

/-- Shows the cell at an address by a step that asks for the texts of other cells; `again` is the
text of a cell that is being shown already.  What is being shown makes up the trail, and no more
than so many cells are entered. -/
def follow (again : Addr → Shown) (step : (List Value → Addr → Shown) → List Value → Addr → Shown) :
    Nat → List Value → Addr → Shown
  | 0, _, _ => .error .tooDeep
  | n + 1, trail, a =>
    if .ref a ∈ trail then again a else step (follow again step n) (.ref a :: trail) a

namespace Scalar

/-- Whether a scalar is an integer that has no text.  Sized integers are never so long. -/
def long : Scalar → Bool
  | .int n => tooLong n
  | _ => false

/-- A text of a scalar, unless the scalar is too long for one. -/
def limited (s : Scalar) (text : Shown) : Shown :=
  if s.long then .error .tooManyDigits else text

/-- The undefined number, of single or of double precision. -/
def undefined (single : Bool) : Scalar := if single then .single .nan else .float .nan

end Scalar

namespace Heap

/-- The text of a payload whose collection is being shown already. -/
def elidedWith (inner : Addr → Shown) : Value → Shown
  | .ref a => inner a
  -- no other value leads back to where it is
  | _ => .ok "(...)".toList

/-- The text of a cell whose collection is being shown already. -/
def elidedStep (h : Heap) (inner : Addr → Shown) (a : Addr) : Shown :=
  match h.get? a with
  | some (.dynamic v) => (elidedWith inner v).map (applied "Dynamic")
  | some (.handle slot) => (elidedWith inner (h.payload slot)).map (applied "Mut")
  | some (.map _) => .ok "{...}".toList
  | _ => .ok "[...]".toList

/-- What the exact form of a cell puts where it comes back to the cell: three dots in place of the
items of the next collection.  There may be none. -/
def elided (h : Heap) : Addr → Shown :=
  follow (fun _ => .error .tooDeep) (fun inner trail => h.elidedStep (inner trail)) (h.size + 1) []

mutual

/-- The exact text of a value with a trail before it, given those of the cells. -/
def exactWith (inner : List Value → Addr → Shown) (trail : List Value) : Value → Shown
  | .scalar s => s.limited (.ok s.exact)
  | .undefined single _ => .ok (Scalar.undefined single).exact
  | .tuple items =>
    if .tuple items ∈ trail then .ok "(...)".toList
    else (exactAll inner (.tuple items :: trail) items).map tupled
  | .ref a => inner trail a

/-- The exact texts of values in order. -/
def exactAll (inner : List Value → Addr → Shown) (trail : List Value) :
    List Value → Except ConvertError (List (List Char))
  | [] => .ok []
  | v :: rest => do
    let text ← exactWith inner trail v
    .ok (text :: (← exactAll inner trail rest))

end

/-- The exact texts of entries in order. -/
def exactEntries (inner : List Value → Addr → Shown) (trail : List Value) :
    List (Value × Value) → Except ConvertError (List (List Char))
  | [] => .ok []
  | (k, v) :: rest => do
    let key ← exactWith inner trail k
    let text ← exactWith inner trail v
    .ok ((key ++ (colon ++ text)) :: (← exactEntries inner trail rest))

/-- The exact text of a cell, given those of others.  An address without a cell stands for unit. -/
def exactStep (h : Heap) (inner : List Value → Addr → Shown) (trail : List Value) (a : Addr) :
    Shown :=
  match h.get? a with
  | none => .ok Scalar.unit.exact
  | some (.array items) =>
    (exactAll inner trail items).map fun texts => bracketed (joined comma texts)
  | some (.map entries) =>
    (exactEntries inner trail entries).map fun texts => braced (joined comma texts)
  | some (.object cls _) => .ok (angled cls)
  | some (.dynamic v) => (exactWith inner trail v).map (applied "Dynamic")
  | some (.handle slot) => (exactWith inner trail (h.payload slot)).map (applied "Mut")

/-- The structural form of a value. -/
def exact (h : Heap) (v : Value) : Shown :=
  exactWith (follow h.elided h.exactStep (h.size + 1)) [] v

/-- The text of a value by itself: scalars in plain form, all else in the structural form. -/
def plain (h : Heap) : Value → Shown
  | .scalar s => s.limited (.ok s.plain)
  | .undefined single _ => .ok (Scalar.undefined single).plain
  | v => h.exact v

/-- The debug text of a value, given those of the cells. -/
def debugWith (h : Heap) (inner : Addr → Shown) (v : Value) : Shown :=
  match h.unwrap v with
  | .scalar s => s.limited s.debug
  | .undefined single _ => (Scalar.undefined single).debug
  | .tuple items => h.exact (.tuple items)
  | .ref a => inner a

/-- The debug texts of values in order. -/
def debugAll (h : Heap) (inner : Addr → Shown) :
    List Value → Except ConvertError (List (List Char))
  | [] => .ok []
  | v :: rest => do
    let text ← h.debugWith inner v
    .ok (text :: (← h.debugAll inner rest))

/-- The debug texts of entries in order; a key is shown as the string of its text. -/
def debugEntries (h : Heap) (inner : Addr → Shown) :
    List (Value × Value) → Except ConvertError (List (List Char))
  | [] => .ok []
  | (k, v) :: rest => do
    let key ← h.plain k
    let text ← h.debugWith inner v
    .ok ((debugString key ++ (colon ++ text)) :: (← h.debugEntries inner rest))

/-- The debug text of a cell, given those of others. -/
def debugStep (h : Heap) (inner : Addr → Shown) (a : Addr) : Shown :=
  match h.get? a with
  | some (.array items) =>
    (h.debugAll inner items).map fun texts => bracketed (joined comma texts)
  | some (.map entries) =>
    (h.debugEntries inner entries).map fun texts => braced (joined comma texts)
  | _ => h.exact (.ref a)

/-- The debug text of a cell. -/
def debugCell (h : Heap) (a : Addr) : Shown :=
  follow (fun _ => .error .tooDeep) (fun inner trail => h.debugStep (inner trail)) (h.size + 1) [] a

/-- The debug form of a value. -/
def debug (h : Heap) (v : Value) : Shown := h.debugWith h.debugCell v

/-- The debug form of a map, marked so that it reads apart from other containers. -/
def debugMap (h : Heap) (v : Value) : Shown := (h.debug v).map ('#' :: ·)

/-- The display form of a value. -/
def display (h : Heap) (places : Precision) (v : Value) : Shown :=
  match h.unwrap v with
  | .scalar s => s.limited (s.display places)
  | .undefined single _ => (Scalar.undefined single).display places
  | w => match h.kindOf w with
    | .array => h.debug w
    | .map => h.debugMap w
    | _ => h.plain w

/-- The form that a host message shows a value in: a container by its display form. -/
def shown (h : Heap) (places : Precision) (v : Value) : Shown :=
  if h.kindOf v = .dynamic then h.display places v else h.plain v

/-- The exact text of a value. -/
def exactText (h : Heap) (v : Value) : Except ConvertError String := (h.exact v).map String.ofList

/-- The text of a value in a message. -/
def shownText (h : Heap) (places : Precision) (v : Value) : Except ConvertError String :=
  (h.shown places v).map String.ofList

end Heap
end ScriptHost
