import ScriptHost.Call.Run
import ScriptHost.Config
import ScriptHost.Package.Strings

/-!
# The state of a host

Everything that outlives a single operation: the heap, the configuration, the function
tables, the engines, the builders, the packages and what has been logged.  Tables are shared
by identity: an engine refers to its own table and to those it has loaded, so a function
entered into a table is seen by every engine that refers to it.

An operation either succeeds or fails with a `Failure`; in both cases it leaves a state.
-/

namespace ScriptHost

/-- The identity of a function table. -/
abbrev TableId := Nat

/-- The identity of a builder. -/
abbrev BuilderId := Nat

/-- The identity of a package that has been built. -/
abbrev PackageId := Nat

/-- The weight of a log record. -/
inductive Level where
  | debug
  | info
  deriving DecidableEq

/-- The name of a level. -/
def Level.name : Level → String
  | .debug => "DEBUG"
  | .info => "INFO"

/-- A line of the log. -/
structure Record where
  level : Level
  logger : String
  text : String
  deriving DecidableEq

/-- A log line as it is written. -/
def Record.line (r : Record) : String := r.level.name ++ " " ++ r.logger ++ ": " ++ r.text

/-- The loggers. -/
def tableLogger : String := "scriptbind.module"

def engineLogger : String := "scriptbind.engine"

def builderLogger : String := "scriptbind.api.build_type"

def packageLogger : String := "scriptbind.packages"

/-- The host side of a script runtime. -/
structure Engine where
  features : Features
  /-- The table of the functions registered on the engine itself. -/
  own : TableId
  /-- The other tables, in the order in which they were loaded. -/
  loaded : List TableId
  /-- The registered kinds with the names given to them. -/
  names : List (Kind × Option String)
  /-- Whether printed text goes to the host instead of the log. -/
  hooked : Bool

/-- The tables in the order in which a call searches them. -/
def Engine.searched (e : Engine) : List TableId := e.own :: e.loaded.reverse

/-- The name an engine shows a kind by. -/
def Engine.kindName (e : Engine) (k : Kind) : String :=
  match e.names.lookup k with
  | some (some name) => name
  | _ => k.name

/-- The collected registrations of a type. -/
structure Builder where
  engine : EngineId
  kind : Kind
  name : Option String
  pending : List Native
  finalized : Bool

/-- The description of a builder on one line. -/
def Builder.shown (b : Builder) : String :=
  let state := if b.finalized then "finalized" else "open"
  s!"<TypeBuilder {b.kind.name} {state}: {b.pending.length} member(s)>"

/-- A package built under some features. -/
structure Package where
  definition : PackageDef
  features : Features
  table : TableId

/-- Where printed text goes. -/
inductive Channel where
  | print
  | debug
  deriving DecidableEq

/-- The state of a host. -/
structure Host where
  heap : Heap
  config : Config
  tables : Array Table
  engines : Array Engine
  builders : Array Builder
  packages : Array Package
  registry : Registry
  log : List Record
  /-- The values that were handed to the host's own printing functions. -/
  received : List (Channel × Value)

/-- The state at the start: the default configuration and the string package. -/
def Host.initial : Host :=
  ⟨.empty, .initial, #[], #[], #[], #[], [Strings.package], [], []⟩

/-- An operation of the host. -/
abbrev Act := ExceptT Failure (StateM Host)

namespace Act

/-- A part of the state. -/
def ask {α : Type} (f : Host → α) : Act α := fun s => (.ok (f s), s)

/-- Changes the state. -/
def change (f : Host → Host) : Act Unit := fun s => (.ok (), f s)

/-- Ends with a failure. -/
def fail {α : Type} (e : Failure) : Act α := fun s => (.error e, s)

/-- Goes on with a result or ends with its failure. -/
def lift {α : Type} (x : Except Failure α) : Act α := fun s => (x, s)

/-- Writes a record. -/
def log (level : Level) (logger text : String) : Act Unit :=
  change fun s => { s with log := s.log ++ [⟨level, logger, text⟩] }

end Act

namespace Host

/-- A table; one that does not exist has no functions. -/
def table (s : Host) (t : TableId) : Table := s.tables[t]?.getD (.empty none)

/-- An engine; one that does not exist has nothing. -/
def engine (s : Host) (e : EngineId) : Engine := s.engines[e]?.getD ⟨.all, 0, [], [], false⟩

/-- The tables of an engine in the order in which a call searches them. -/
def tablesOf (s : Host) (e : EngineId) : List Table := (s.engine e).searched.map s.table

/-- The function that a call on an engine runs. -/
def resolve (s : Host) (e : EngineId) (name : String) (kinds : List Kind) : Option Native :=
  Table.findIn? (s.tablesOf e) name kinds

/-- The signatures of the functions that calls on an engine can run, table by table. -/
def signatures (s : Host) (e : EngineId) : List String := (s.tablesOf e).flatMap Table.signatures

/-- How calls find functions and words in this state. -/
def linkage (s : Host) : Linkage where
  find := s.resolve
  kindName e k := (s.engine e).kindName k
  places := s.config.precision

end Host

/-- How many calls may be open at once. -/
def callDepth : Nat := 400

/-- Runs a computation on the heap. -/
def Act.run {α : Type} (r : Run α) : Act α := fun s =>
  match r s.heap with
  | some (.ok a, h) => (.ok a, { s with heap := h })
  | some (.error e, h) => (.error (.fault e), { s with heap := h })
  | none => (.error .exhausted, s)

end ScriptHost
