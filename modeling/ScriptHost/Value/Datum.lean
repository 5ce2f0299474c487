import ScriptHost.Value.Scalar

/-!
# Values as trees

A `Datum` is a value with everything it reaches written out: what a reader of the value
sees when nothing changes meanwhile.  Inputs, configuration settings and all text forms
are data.  Sharing and mutation are absent here; a value that lives in a store is a
`Value` (`Value.Heap`), and `Heap.read?` gives its datum.
-/

namespace ScriptHost

/-- A value with everything it reaches written out. -/
inductive Datum where
  | scalar (s : Scalar)
  | array (items : List Datum)
  /-- Entries in order of insertion. -/
  | map (entries : List (Datum × Datum))
  | tuple (items : List Datum)
  | object (cls : String) (fields : List (String × Datum))
  | dynamic (payload : Datum)
  | handle (payload : Datum)
  deriving Inhabited

namespace Datum

def unit : Datum := .scalar .unit

def bool (b : Bool) : Datum := .scalar (.bool b)

def int (n : Int) : Datum := .scalar (.int n)

def float (x : Double) : Datum := .scalar (.float x)

def string (s : String) : Datum := .scalar (.string s)

/-- The kind of a datum. -/
def kind : Datum → Kind
  | .scalar s => s.kind
  | .array _ => .array
  | .map _ => .map
  | .tuple _ => .tuple
  | .object cls _ => .object cls
  | .dynamic _ => .dynamic
  | .handle _ => .handle

/-- A datum in a container of its own; a container is never put into another one. -/
def wrap : Datum → Datum
  | .dynamic d => .dynamic d
  | d => .dynamic d

/-- Whether a datum counts as true where a truth value is wanted; an empty collection does
not. -/
def truthy : Datum → Bool
  | .scalar s => s.truthy
  | .array items => !items.isEmpty
  | .map entries => !entries.isEmpty
  | .tuple items => !items.isEmpty
  | .object .. | .dynamic _ | .handle _ => true

mutual

/-- Whether two data are the same key of a map. -/
def sameKey : Datum → Datum → Bool
  | .scalar s, .scalar t => s.equal t
  | .tuple ds, .tuple es => sameKeys ds es
  | _, _ => false

/-- Whether two lists of data are the same keys. -/
def sameKeys : List Datum → List Datum → Bool
  | [], [] => true
  | d :: ds, e :: es => sameKey d e && sameKeys ds es
  | _, _ => false

end

/-- Enters a value under a key: a key that is there keeps its place and its own form. -/
def enter (entries : List (Datum × Datum)) (key value : Datum) : List (Datum × Datum) :=
  if entries.any fun entry => entry.1.sameKey key then
    entries.map fun entry => if entry.1.sameKey key then (entry.1, value) else entry
  else entries ++ [(key, value)]

/-- The map of a list of entries, the last value of a repeated key counting. -/
def ofEntries (entries : List (Datum × Datum)) : Datum :=
  .map (entries.foldl (fun done entry => enter done entry.1 entry.2) [])

/-- The value under a string key. -/
def find? (entries : List (Datum × Datum)) (key : String) : Option Datum :=
  (entries.find? fun entry => entry.1.sameKey (.string key)).map (·.2)

end Datum
end ScriptHost
