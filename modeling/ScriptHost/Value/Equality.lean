import ScriptHost.Value.Heap

/-!
# Equality of values

Two containers are equal if their payloads have exactly the same kind and are equal in the
host's sense.  Below the top kinds do not matter: numbers are compared by quantity, arrays
and tuples item by item, maps by their keys whatever the order, objects and handles by
identity.  Inside a collection a value also equals itself, which shows for undefined
numbers only.

The comparison follows addresses no deeper than there are cells, so it ends on every heap.
-/

namespace ScriptHost
namespace Heap

mutual

/-- Host equality of values, given that of cells. -/
def equalWith (cells : Addr → Addr → Bool) : Value → Value → Bool
  | .scalar s, .scalar t => s.equal t
  | .tuple vs, .tuple ws => equalAll cells vs ws
  | .ref a, .ref b => cells a b
  | _, _ => false

/-- Equality of items in order; an item equals itself. -/
def equalAll (cells : Addr → Addr → Bool) : List Value → List Value → Bool
  | [], [] => true
  | v :: vs, w :: ws => (v.same w || equalWith cells v w) && equalAll cells vs ws
  | _, _ => false

end

/-- Equality inside a collection. -/
def equalItem (cells : Addr → Addr → Bool) (v w : Value) : Bool :=
  v.same w || equalWith cells v w

/-- The value under a key. -/
def lookup? (cells : Addr → Addr → Bool) (entries : List (Value × Value)) (key : Value) :
    Option Value :=
  (entries.find? fun entry => equalItem cells entry.1 key).map (·.2)

/-- Equality of maps: as many entries, and every key of one leads to an equal value in the
other. -/
def equalEntries (cells : Addr → Addr → Bool) (es fs : List (Value × Value)) : Bool :=
  es.length == fs.length && es.all fun (k, v) =>
    match lookup? cells fs k with
    | some w => equalItem cells v w
    | none => false

/-- Equality of cells, following so many addresses in a row. -/
def equalCells (h : Heap) : Nat → Addr → Addr → Bool
  | 0, _, _ => false
  | n + 1, a, b =>
    let inner := h.equalCells n
    match h.get? a, h.get? b with
    | some (.array vs), some (.array ws) => equalAll inner vs ws
    | some (.map es), some (.map fs) => equalEntries inner es fs
    | some (.dynamic v), some (.dynamic w) => h.kindOf v == h.kindOf w && equalWith inner v w
    | _, _ => a == b

/-- Equality of the containers at two addresses. -/
def equal (h : Heap) (a b : Addr) : Bool :=
  match h.get? a, h.get? b with
  | some (.dynamic _), some (.dynamic _) => h.equalCells h.size a b
  | _, _ => false

/-- Equality of the container at an address and a value; only a container can be equal to
one. -/
def equalTo (h : Heap) (a : Addr) : Value → Bool
  | .ref b => h.equal a b
  | _ => false

/-- The value under a string key. -/
def lookupString? (entries : List (Value × Value)) (key : String) : Option Value :=
  lookup? (fun _ _ => false) entries (.string key)

/-- Enters a value under a string key; a key that is there keeps its place and its form. -/
def enterString (entries : List (Value × Value)) (key : String) (value : Value) :
    List (Value × Value) :=
  let here := fun entry : Value × Value =>
    equalItem (fun _ _ => false) entry.1 (.string key)
  if entries.any here then
    entries.map fun entry => if here entry then (entry.1, value) else entry
  else entries ++ [(.string key, value)]

end Heap
end ScriptHost
