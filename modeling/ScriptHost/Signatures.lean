import ScriptHost.Table

/-!
# Exported signatures

What documentation and editors are told about functions.  Each function has a description:
its name, parameters, style, whether it is fallible, its signature and the name of its result
kind, if that is known.  `Signatures.ofTables` groups the functions of tables under the titles
of the tables; tables of one title share a group, in which the functions of each table stand
in order of their signatures.
-/

namespace ScriptHost

/-- The description of a parameter. -/
def Param.describe (p : Param) : Datum :=
  .map [(.string "name", .string p.name), (.string "type", .string p.kind.name),
    (.string "binding", .string p.binding.name)]

/-- The description of a function. -/
def Native.describe (f : Native) : Datum :=
  .map ([(.string "name", .string f.name),
    (.string "params", .array (f.params.map Param.describe)),
    (.string "style", .string f.style.name), (.string "fallible", .bool f.fallible),
    (.string "signature", .string f.signature)] ++
    (f.result.map fun k => (Datum.string "return", Datum.string k.name)).toList)

/-- Functions in groups, the groups in order of first mention. -/
abbrev Signatures := List (String × List Native)

namespace Signatures

/-- Adds functions at the end of the group of a title. -/
def extend (title : String) (functions : List Native) : Signatures → Signatures
  | [] => [(title, functions)]
  | (t, fs) :: rest =>
    if t = title then (t, fs ++ functions) :: rest else (t, fs) :: extend title functions rest

/-- The functions of tables under the titles of the tables. -/
def ofTables (tables : List Table) : Signatures :=
  tables.foldl (fun groups t => extend t.title t.sorted groups) []

def modulesKey : String := "modules"

/-- The descriptions of all functions by group. -/
def toDatum (groups : Signatures) : Datum :=
  .map [(.string modulesKey, .map (groups.map fun (title, fs) =>
    (.string title, .array (fs.map Native.describe))))]

end Signatures
end ScriptHost
