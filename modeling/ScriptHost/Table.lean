import ScriptHost.Function.Shape

/-!
# Function tables

A table holds native functions in one list.  The overloads of a name stand next to each
other, in the order in which their keys were first registered, and the names stand in the
order of their first registration; registering a key again replaces the function and moves
nothing.  Names, keys and the order of iteration are all read off the list, so they cannot
disagree with it.

A call is resolved by the kinds of its arguments.  An overload with exactly these kinds
wins; otherwise the one with the fewest parameters that take every kind, the earliest of
several.
-/

namespace ScriptHost

/-- The key of a function: its name and the kinds of its parameters. -/
structure Key where
  name : String
  kinds : List Kind
  deriving DecidableEq

/-- The key that a function is registered under. -/
def Native.key (f : Native) : Key := ⟨f.name, f.kinds⟩

namespace Native

/-- How many parameters take every kind. -/
def wildcards (f : Native) : Nat := f.kinds.countP (· == .dynamic)

/-- Whether a call with arguments of the given kinds fits a list of kinds of parameters. -/
def fitsKinds : List Kind → List Kind → Bool
  | [], [] => true
  | p :: ps, a :: rest => (p == .dynamic || p == a) && fitsKinds ps rest
  | _, _ => false

/-- Whether a call with arguments of the given kinds fits the function. -/
def fits (f : Native) (kinds : List Kind) : Bool := fitsKinds f.kinds kinds

/-- The function with the fewest wildcards, the first of several. -/
def fewestWildcards : List Native → Option Native
  | [] => none
  | f :: rest => match fewestWildcards rest with
    | some g => if g.wildcards < f.wildcards then some g else some f
    | none => some f

end Native

/-- A table of functions, the overloads of a name side by side. -/
structure Table where
  name : Option String
  functions : List Native
  /-- Whether the table is closed to further functions. -/
  frozen : Bool

namespace Table

/-- A table without functions. -/
def empty (name : Option String) : Table := ⟨name, [], false⟩

/-- The name a table is shown by. -/
def title (t : Table) : String :=
  match t.name with
  | some s => if s.isEmpty then "<anonymous>" else s
  | none => "<anonymous>"

/-- Enters a function among the overloads of its name, at the head of the list. -/
def insertOverload (f : Native) : List Native → List Native
  | [] => [f]
  | g :: rest =>
    if g.name = f.name then
      if g.kinds = f.kinds then f :: rest else g :: insertOverload f rest
    else f :: g :: rest

/-- Enters a function: in place of one with the same key, else behind the overloads of its
name, else at the end. -/
def insert (f : Native) : List Native → List Native
  | [] => [f]
  | g :: rest => if g.name = f.name then insertOverload f (g :: rest) else g :: insert f rest

/-- Whether a key is registered. -/
def contains (t : Table) (key : Key) : Bool := t.functions.any fun f => f.key == key

/-- The overloads of a name. -/
def overloads (t : Table) (name : String) : List Native :=
  t.functions.filter fun f => f.name == name

/-- The function a call with arguments of the given kinds runs. -/
def find? (t : Table) (name : String) (kinds : List Kind) : Option Native :=
  let candidates := t.overloads name
  match candidates.find? fun f => f.kinds == kinds with
  | some f => some f
  | none => Native.fewestWildcards (candidates.filter fun f => f.fits kinds)

/-- Registers a function, unless the table is closed. -/
def register (t : Table) (f : Native) : Except Failure Table :=
  if t.frozen then .error (.frozen t.title)
  else .ok { t with functions := insert f t.functions }

def size (t : Table) : Nat := t.functions.length

/-- The keys in order of iteration. -/
def keys (t : Table) : List Key := t.functions.map Native.key

/-- The names, each once. -/
def names (t : Table) : List String := (t.functions.map (·.name)).eraseDups

/-- The functions in order of their signatures. -/
def sorted (t : Table) : List Native :=
  t.functions.mergeSort fun f g => decide (f.signature ≤ g.signature)

/-- The signatures in increasing order. -/
def signatures (t : Table) : List String :=
  (t.functions.map Native.signature).mergeSort fun s t => decide (s ≤ t)

/-- The table closed to further functions. -/
def freeze (t : Table) : Table := { t with frozen := true }

/-- The description of a table on one line. -/
def shown (t : Table) : String := s!"<Module {t.title}: {t.size} function(s)>"

/-- The first table that has a function for a call. -/
def findIn? (tables : List Table) (name : String) (kinds : List Kind) : Option Native :=
  tables.findSome? fun t => t.find? name kinds

end Table
end ScriptHost
