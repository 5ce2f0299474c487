import ScriptHost.Member

/-!
# Packages

A package is a named list of registrations.  Which of them are made depends on the features
only, so a package built twice under the same features has the same table.

Definitions are kept in a registry by name; a later definition of a name replaces the
earlier one.  A definition without a name is not entered.
-/

namespace ScriptHost

/-- A named list of registrations. -/
structure PackageDef where
  name : String
  description : String
  entries : List Entry

namespace PackageDef

/-- The registrations that are made under the given features. -/
def entriesFor (p : PackageDef) (fs : Features) : List Entry :=
  p.entries.filter fun e => e.applies fs

end PackageDef

/-- The packages that are known by name. -/
abbrev Registry := List PackageDef

namespace Registry

/-- The definition of a name. -/
def find? (r : Registry) (name : String) : Option PackageDef :=
  List.find? (fun p : PackageDef => p.name == name) r

/-- Enters a definition under its name. -/
def put (r : Registry) (p : PackageDef) : Registry :=
  if (find? r p.name).isSome then List.map (fun q : PackageDef => if q.name == p.name then p else q) r
  else r ++ [p]

/-- The definitions in order of their names. -/
def sorted (r : Registry) : List PackageDef :=
  List.mergeSort r fun p q => decide (p.name ≤ q.name)

end Registry
end ScriptHost
