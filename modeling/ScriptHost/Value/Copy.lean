import ScriptHost.Value.Heap

/-!
# Copies

A copy of a value is the part of the heap that the value reaches, written once more behind
the heap with all addresses moved along.  So every cell of the copy is new, cells that were
shared inside the value are shared in the copy in the same way, and nothing that was in the
heap before is touched.

Copying always succeeds here.  Every value of a heap can be copied, and no bound is set on how deep
a value goes; payloads of a host that refuse to be copied, and the limit on nested calls that a very
deep value runs into there, are left out.

`Heap.Reaches` is the relation; `Heap.reachable` computes it breadth first.  Every round of
the search that does not end it finds an address not seen before, so as many rounds as there
are cells suffice.
-/

namespace ScriptHost

mutual

/-- The addresses that a value refers to. -/
def Value.addrs : Value → List Addr
  | .ref a => [a]
  | .tuple items => Value.addrsAll items
  | _ => []

/-- The addresses that values refer to. -/
def Value.addrsAll : List Value → List Addr
  | [] => []
  | v :: rest => v.addrs ++ Value.addrsAll rest

end

/-- The addresses that a cell refers to. -/
def Cell.addrs : Cell → List Addr
  | .array items => Value.addrsAll items
  | .map entries => entries.flatMap fun (k, v) => k.addrs ++ v.addrs
  | .object _ fields => fields.flatMap fun (_, v) => v.addrs
  | .dynamic v => v.addrs
  | .handle slot => [slot]

/-- How the parts of a copied value are renamed. -/
structure Renaming where
  addr : Addr → Addr
  /-- Marks of single-precision numbers, which are made anew by copying. -/
  mark : Nat → Nat

mutual

/-- A value with its parts renamed. -/
def Value.rename (r : Renaming) : Value → Value
  | .ref a => .ref (r.addr a)
  | .tuple items => .tuple (Value.renameAll r items)
  | .undefined true m => .undefined true (r.mark m)
  | .undefined false m => .undefined false m
  | .scalar s => .scalar s

/-- Values with their parts renamed. -/
def Value.renameAll (r : Renaming) : List Value → List Value
  | [] => []
  | v :: rest => v.rename r :: Value.renameAll r rest

end

/-- A cell with its parts renamed. -/
def Cell.rename (r : Renaming) : Cell → Cell
  | .array items => .array (Value.renameAll r items)
  | .map entries => .map (entries.map fun (k, v) => (k.rename r, v.rename r))
  | .object cls fields => .object cls (fields.map fun (name, v) => (name, v.rename r))
  | .dynamic v => .dynamic (v.rename r)
  | .handle slot => .handle (r.addr slot)

namespace Heap

/-- The addresses that the cell at an address refers to. -/
def childrenOf (h : Heap) (a : Addr) : List Addr :=
  match h.get? a with
  | some c => c.addrs
  | none => []

/-- An address is reached from given ones by following references. -/
inductive Reaches (h : Heap) (roots : List Addr) : Addr → Prop where
  | root {a : Addr} : a ∈ roots → Reaches h roots a
  | step {a b : Addr} : Reaches h roots a → b ∈ h.childrenOf a → Reaches h roots b

/-- Adds what the addresses seen so far refer to, for so many rounds or until nothing is
new. -/
def grow (h : Heap) : Nat → List Addr → List Addr
  | 0, seen => seen
  | n + 1, seen =>
    let fresh := ((seen.flatMap h.childrenOf).filter fun a => !seen.contains a).eraseDups
    if fresh.isEmpty then seen else h.grow n (seen ++ fresh)

/-- The addresses reached from given ones, each once. -/
def reachable (h : Heap) (roots : List Addr) : List Addr := h.grow h.size roots.eraseDups

/-- The renaming that moves the listed addresses behind the heap, in their order. -/
def moving (h : Heap) (old : List Addr) : Renaming where
  addr a := match old.idxOf? a with
    | some i => h.size + i
    | none => a
  mark m := h.marks + m

/-- A copy of a value, and the heap with the copy in it. -/
def copy (h : Heap) (v : Value) : Value × Heap :=
  let old := h.reachable v.addrs
  let r := h.moving old
  let moved := old.map fun a => ((h.get? a).getD default).rename r
  (v.rename r, ⟨h.cells ++ moved.toArray, h.marks + h.marks⟩)

/-- A copy of the container at an address. -/
def clone (h : Heap) (a : Addr) : Addr × Heap :=
  let (v, h) := h.copy (h.payload a)
  h.wrap v

end Heap
end ScriptHost
