import ScriptHost.Host.State

/-!
# Operations on tables and packages

Every function enters a table through `register`, which a closed table refuses, and every
other operation that adds functions is made of it.  A package is built by making its
registrations in a new table and closing that.
-/

namespace ScriptHost
namespace Act

/-- A new table. -/
def newTable (name : Option String) : Act TableId := do
  let t ← ask fun s => s.tables.size
  change fun s => { s with tables := s.tables.push (.empty name) }
  pure t

/-- Registers a function in a table; the log says whether its key was there before. -/
def register (t : TableId) (f : Native) : Act Unit := do
  let old ← ask (·.table t)
  let new ← lift (old.register f)
  let word := if old.contains f.key then "Replacing " else "Registering "
  log .debug tableLogger (word ++ f.signature)
  change fun s => { s with tables := s.tables.setIfInBounds t new }

/-- Registers functions in order. -/
def registerAll (t : TableId) : List Native → Act Unit
  | [] => pure ()
  | f :: rest => do
    register t f
    registerAll t rest

/-- Copies every function of one table into another. -/
def merge (target source : TableId) : Act Unit := do
  let functions ← ask fun s => (s.table source).functions
  registerAll target functions

/-- Closes a table. -/
def freeze (t : TableId) : Act Unit :=
  change fun s => { s with tables := s.tables.setIfInBounds t (s.table t).freeze }

/-- Makes a registration in a table. -/
def enter (t : TableId) (home : Option EngineId) (e : Entry) : Act Native := do
  let limit ← ask (·.config.maxArity)
  let f ← lift (e.toNative limit home)
  register t f
  pure f

/-- Makes registrations in order. -/
def enterAll (t : TableId) (home : Option EngineId) : List Entry → Act Unit
  | [] => pure ()
  | e :: rest => do
    let _ ← enter t home e
    enterAll t home rest

/-- The given features, or those of the configuration. -/
def featuresOr (given : Option Features) : Act Features := do
  match given with
  | some fs => pure fs
  | none => match ← ask (·.config.features) with
    | .ok fs => pure fs
    | .error e => fail (.features e)

/-- Builds a package: its table is filled and closed. -/
def buildPackage (p : PackageDef) (given : Option Features) (home : Option EngineId) :
    Act PackageId := do
  let fs ← featuresOr given
  let t ← newTable (some p.name)
  enterAll t home (p.entriesFor fs)
  freeze t
  let size ← ask fun s => (s.table t).size
  log .info packageLogger s!"Built package {p.name} with {size} function(s)"
  let id ← ask fun s => s.packages.size
  change fun s => { s with packages := s.packages.push ⟨p, fs, t⟩ }
  pure id

/-- Makes the registrations of a package in another table. -/
def populate (p : Package) (t : TableId) (home : Option EngineId) : Act Unit :=
  enterAll t home (p.definition.entriesFor p.features)

/-- Enters a definition into the registry; one without a name is not entered. -/
def define (p : PackageDef) : Act Unit :=
  if p.name.isEmpty then pure ()
  else do
    if (← ask fun s => (Registry.find? s.registry p.name).isSome) then
      log .debug packageLogger ("Replacing package " ++ p.name)
    change fun s => { s with registry := Registry.put s.registry p }

/-- The definition of a name. -/
def definition (name : String) : Act PackageDef := do
  match ← ask fun s => Registry.find? s.registry name with
  | some p => pure p
  | none => fail (.unknownPackage name)

end Act
end ScriptHost
