import ScriptHost.Value.Datum

/-!
# Values in a store

A value that can be shared or changed lives in a cell of a `Heap`, and a `Value` refers to
it by address.  There are five kinds of cell: arrays, maps and objects; containers, which
own one value of any kind; and handles, through which a call may replace what a container
owns.  Scalars and tuples are not cells, since nothing can change them.

Undefined numbers are the one kind of scalar whose identity shows: inside a collection
such a number equals itself but no other, so each carries the mark it was made with.

`Heap.build` enters a datum, every part of it in a cell of its own, and `Heap.read?` takes
the datum of a value; it fails only on a cyclic value, which has none.  Both are defined by
recursion on the tree, and reading follows an address at most as often as there are cells.
-/

namespace ScriptHost

/-- The address of a cell. -/
abbrev Addr := Nat

/-- A value whose changeable parts are in a heap. -/
inductive Value where
  | scalar (s : Scalar)
  /-- An undefined number, of single or of double precision. -/
  | undefined (single : Bool) (mark : Nat)
  | tuple (items : List Value)
  | ref (a : Addr)
  deriving Inhabited

/-- A part of the heap that can be shared and changed. -/
inductive Cell where
  | array (items : List Value)
  | map (entries : List (Value × Value))
  | object (cls : String) (fields : List (String × Value))
  /-- A container with its payload. -/
  | dynamic (payload : Value)
  /-- A handle onto the container at an address. -/
  | handle (slot : Addr)
  deriving Inhabited

/-- A store of cells. -/
structure Heap where
  cells : Array Cell
  /-- Every mark in use is below this. -/
  marks : Nat
  deriving Inhabited

namespace Value

def unit : Value := .scalar .unit

def string (s : String) : Value := .scalar (.string s)

/-- Whether two values are one and the same.  Scalars are never asked for their identity:
two that are the same are equal. -/
def same : Value → Value → Bool
  | .undefined s m, .undefined t n => s == t && m == n
  | .ref a, .ref b => a == b
  | _, _ => false

mutual

/-- Whether two values are written alike: the same scalars and references in the same places. -/
def alike : Value → Value → Bool
  | .scalar s, .scalar t => s == t
  | .undefined s m, .undefined t n => s == t && m == n
  | .tuple vs, .tuple ws => alikeAll vs ws
  | .ref a, .ref b => a == b
  | _, _ => false

/-- Whether two lists of values are written alike. -/
def alikeAll : List Value → List Value → Bool
  | [], [] => true
  | v :: vs, w :: ws => v.alike w && alikeAll vs ws
  | _, _ => false

end

mutual

theorem alike_iff : ∀ v w : Value, v.alike w = true ↔ v = w
  | .scalar s, w => by cases w <;> simp [alike]
  | .undefined s m, w => by cases w <;> simp [alike]
  | .tuple vs, .tuple ws => by simp [alike, alikeAll_iff vs ws]
  | .tuple vs, .scalar _ | .tuple vs, .undefined .. | .tuple vs, .ref _ => by simp [alike]
  | .ref a, w => by cases w <;> simp [alike]

theorem alikeAll_iff : ∀ vs ws : List Value, alikeAll vs ws = true ↔ vs = ws
  | [], ws => by cases ws <;> simp [alikeAll]
  | v :: vs, [] => by simp [alikeAll]
  | v :: vs, w :: ws => by simp [alikeAll, alike_iff v w, alikeAll_iff vs ws]

end

instance : DecidableEq Value := fun v w => decidable_of_iff _ (alike_iff v w)

end Value

namespace Cell

/-- The kind of the value in a cell. -/
def kind : Cell → Kind
  | .array _ => .array
  | .map _ => .map
  | .object cls _ => .object cls
  | .dynamic _ => .dynamic
  | .handle _ => .handle

end Cell

namespace Heap

/-- The heap without cells. -/
def empty : Heap := ⟨#[], 0⟩

def size (h : Heap) : Nat := h.cells.size

/-- The cell at an address. -/
def get? (h : Heap) (a : Addr) : Option Cell := h.cells[a]?

/-- Adds a cell. -/
def alloc (h : Heap) (c : Cell) : Addr × Heap := (h.size, { h with cells := h.cells.push c })

/-- Replaces the cell at an address. -/
def set (h : Heap) (a : Addr) (c : Cell) : Heap :=
  { h with cells := h.cells.setIfInBounds a c }

/-- The kind of a value. -/
def kindOf (h : Heap) : Value → Kind
  | .scalar s => s.kind
  | .undefined single _ => if single then .single else .float
  | .tuple _ => .tuple
  | .ref a => match h.get? a with
    | some c => c.kind
    | none => .unit

/-- The payload of the container at an address. -/
def payload (h : Heap) (a : Addr) : Value :=
  match h.get? a with
  | some (.dynamic v) => v
  | _ => .unit

/-- The address of the container that a value is. -/
def dynamic? (h : Heap) : Value → Option Addr
  | .ref a => match h.get? a with
    | some (.dynamic _) => some a
    | _ => none
  | _ => none

/-- A value without the container around it. -/
def unwrap (h : Heap) (v : Value) : Value :=
  match h.dynamic? v with
  | some a => h.payload a
  | none => v

/-- A new container for a value; the payload of a container is taken out of it first. -/
def wrap (h : Heap) (v : Value) : Addr × Heap := h.alloc (.dynamic (h.unwrap v))

/-- Puts another value into the container at an address. -/
def replace (h : Heap) (a : Addr) (v : Value) : Heap := h.set a (.dynamic (h.unwrap v))

/-- The container that a value is, or a new one around it. -/
def contain (h : Heap) (v : Value) : Addr × Heap :=
  match h.dynamic? v with
  | some a => (a, h)
  | none => h.wrap v

/-- A fresh undefined number. -/
def mark (h : Heap) (single : Bool) : Value × Heap :=
  (.undefined single h.marks, { h with marks := h.marks + 1 })

/-- Enters a scalar. -/
def buildScalar (h : Heap) : Scalar → Value × Heap
  | .float .nan => h.mark false
  | .single .nan => h.mark true
  | s => (.scalar s, h)

mutual

/-- Enters a datum, each part in a cell of its own. -/
def build (h : Heap) : Datum → Value × Heap
  | .scalar s => h.buildScalar s
  | .array items =>
    let (vs, h) := h.buildAll items
    let (a, h) := h.alloc (.array vs)
    (.ref a, h)
  | .map entries =>
    let (es, h) := h.buildEntries entries
    let (a, h) := h.alloc (.map es)
    (.ref a, h)
  | .tuple items =>
    let (vs, h) := h.buildAll items
    (.tuple vs, h)
  | .object cls fields =>
    let (fs, h) := h.buildFields fields
    let (a, h) := h.alloc (.object cls fs)
    (.ref a, h)
  | .dynamic d =>
    let (v, h) := h.build d
    let (a, h) := h.wrap v
    (.ref a, h)
  | .handle d =>
    let (v, h) := h.build d
    let (a, h) := h.wrap v
    let (b, h) := h.alloc (.handle a)
    (.ref b, h)

/-- Enters data in order. -/
def buildAll (h : Heap) : List Datum → List Value × Heap
  | [] => ([], h)
  | d :: rest =>
    let (v, h) := h.build d
    let (vs, h) := h.buildAll rest
    (v :: vs, h)

/-- Enters the keys and values of a map in order. -/
def buildEntries (h : Heap) : List (Datum × Datum) → List (Value × Value) × Heap
  | [] => ([], h)
  | (key, value) :: rest =>
    let (k, h) := h.build key
    let (v, h) := h.build value
    let (es, h) := h.buildEntries rest
    ((k, v) :: es, h)

/-- Enters the fields of an object in order. -/
def buildFields (h : Heap) : List (String × Datum) → List (String × Value) × Heap
  | [] => ([], h)
  | (name, value) :: rest =>
    let (v, h) := h.build value
    let (fs, h) := h.buildFields rest
    ((name, v) :: fs, h)

end

mutual

/-- The datum of a value, given those of the cells. -/
def readWith (cell : Addr → Option Datum) : Value → Option Datum
  | .scalar s => some (.scalar s)
  | .undefined single _ => some (.scalar (if single then .single .nan else .float .nan))
  | .tuple items => (readAll cell items).map .tuple
  | .ref a => cell a

/-- The data of values in order. -/
def readAll (cell : Addr → Option Datum) : List Value → Option (List Datum)
  | [] => some []
  | v :: rest => do
    let d ← readWith cell v
    let ds ← readAll cell rest
    some (d :: ds)

end

/-- The data of keys and values. -/
def readEntries (cell : Addr → Option Datum) (entries : List (Value × Value)) :
    Option (List (Datum × Datum)) :=
  entries.mapM fun (k, v) => do some (← readWith cell k, ← readWith cell v)

/-- The data of fields. -/
def readFields (cell : Addr → Option Datum) (fields : List (String × Value)) :
    Option (List (String × Datum)) :=
  fields.mapM fun (name, v) => do some (name, ← readWith cell v)

/-- The datum of a cell, if no more than so many addresses have to be followed in a row. -/
def readCell (h : Heap) : Nat → Addr → Option Datum
  | 0, _ => none
  | n + 1, a =>
    let inner := h.readCell n
    match h.get? a with
    | none => none
    | some (.array items) => (readAll inner items).map .array
    | some (.map entries) => (readEntries inner entries).map .map
    | some (.object cls fields) => (readFields inner fields).map (.object cls)
    | some (.dynamic v) => (readWith inner v).map .dynamic
    | some (.handle slot) => match h.get? slot with
      | some (.dynamic v) => (readWith inner v).map .handle
      | _ => none

/-- The datum of a value; none if the value is cyclic. -/
def read? (h : Heap) (v : Value) : Option Datum := readWith (h.readCell h.size) v

end Heap
end ScriptHost
