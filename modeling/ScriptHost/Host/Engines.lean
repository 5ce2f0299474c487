import ScriptHost.Host.Tables
import ScriptHost.Value.Cast

/-!
# Operations on engines and builders

Functions and accessors are registered on an engine directly or through a builder.  A
builder collects native functions while it is open; leaving it registers them in order,
names the type and closes the builder for good, whichever way it is left.
-/

namespace ScriptHost
namespace Act

/-- Adds a table that is searched after the engine's own, the latest first. -/
def addTable (e : EngineId) (t : TableId) : Act Unit :=
  change fun s =>
    let engine := s.engine e
    { s with engines := s.engines.setIfInBounds e { engine with loaded := engine.loaded ++ [t] } }

/-- Loads the table of a package. -/
def loadTable (e : EngineId) (t : TableId) : Act Unit := do
  let table ← ask (·.table t)
  log .info engineLogger s!"Loading package {table.title} ({table.size} function(s))"
  addTable e t

/-- The name of the table of an engine's own functions. -/
def ownTableName : String := "global"

/-- A new engine, with the string package or with empty tables. -/
def newEngine (given : Option Features) (withStrings : Bool) : Act EngineId := do
  let fs ← featuresOr given
  let own ← newTable (some ownTableName)
  let e ← ask fun s => s.engines.size
  change fun s => { s with engines := s.engines.push ⟨fs, own, [], [], false⟩ }
  if withStrings then
    let p ← buildPackage Strings.package (some fs) none
    match ← ask fun s => s.packages[p]? with
    | some package => loadTable e package.table
    | none => pure ()
  pure e

/-- The place where the functions of an engine are made. -/
def site (e : EngineId) (receiver : Option Kind) : Act Site := do
  let limit ← ask (·.config.maxArity)
  pure ⟨limit, some e, receiver⟩

/-- Makes the native function of a member, if the features of the engine allow it. -/
def makeMember (e : EngineId) (verb : String) (receiver : Option Kind) (m : Member) :
    Act Native := do
  let engine ← ask (·.engine e)
  lift (m.check verb engine.features)
  lift (m.toNative (← site e receiver))

/-- Registers a member on an engine. -/
def registerMember (e : EngineId) (receiver : Option Kind) (m : Member) : Act Unit := do
  let f ← makeMember e "register" receiver m
  let engine ← ask (·.engine e)
  register engine.own f

/-- Registers members in order. -/
def registerMembers (e : EngineId) (receiver : Option Kind) : List Member → Act Unit
  | [] => pure ()
  | m :: rest => do
    registerMember e receiver m
    registerMembers e receiver rest

/-- Registers a kind, under a name of its own or under the default one. -/
def registerKind (e : EngineId) (k : Kind) (name : Option String) : Act Unit := do
  change fun s =>
    let engine := s.engine e
    let names := engine.names.filter fun entry => entry.1 ≠ k
    { s with engines := s.engines.setIfInBounds e { engine with names := (k, name) :: names } }
  log .debug engineLogger (match name with
    | some n => "Registered type " ++ k.name ++ " as " ++ n
    | none => "Registered type " ++ k.name)

/-- Hands printed text to the host from now on. -/
def hook (e : EngineId) : Act Unit :=
  change fun s =>
    let engine := s.engine e
    { s with engines := s.engines.setIfInBounds e { engine with hooked := true } }

/-- Calls a function by name. -/
def call (e : EngineId) (name : String) (arguments : List Value) : Act Value := do
  let link ← ask (·.linkage)
  run (link.call callDepth e name arguments)

/-- Invokes a function that may be registered nowhere. -/
def invoke (f : Native) (arguments : List Value) : Act Value := do
  let link ← ask (·.linkage)
  run (link.invoke callDepth f arguments)

/-- The payload of a container as a value of a kind. -/
def cast (a : Addr) (k : Kind) : Act Value := do
  let before ← ask fun s => s.heap.kindOf (s.heap.payload a)
  let (taken, heap) ← ask fun s => s.heap.tryCast a k
  match taken with
  | some v => do
    change fun s => { s with heap := heap }
    pure v
  | none => fail (.badCast before k)

/-- The level that text of a channel is logged at. -/
def channelLevel : Channel → Level
  | .print => .info
  | .debug => .debug

/-- The function that makes the text of a channel. -/
def channelFunction : Channel → String
  | .print => Strings.printName
  | .debug => Strings.debugName

/-- Makes text of arguments and hands it on; the answer is what the function gave. -/
def emit (e : EngineId) (channel : Channel) (arguments : List Value) : Act Value := do
  let answer ← call e (channelFunction channel) arguments
  let text ← ask fun s => s.heap.unwrap answer
  if (← ask fun s => (s.engine e).hooked) then
    change fun s => { s with received := s.received ++ [(channel, text)] }
  else
    match ← ask fun s => s.heap.shownText s.config.precision text with
    | .ok line => log (channelLevel channel) engineLogger line
    | .error _ => pure ()
  pure text

/-- Opens a builder for a type. -/
def openBuilder (e : EngineId) (k : Kind) : Act BuilderId := do
  let b ← ask fun s => s.builders.size
  change fun s => { s with builders := s.builders.push ⟨e, k, none, [], false⟩ }
  pure b

/-- A builder; one that does not exist is closed. -/
def builder (b : BuilderId) : Act Builder :=
  ask fun s => s.builders[b]?.getD ⟨0, .unit, none, [], true⟩

/-- Replaces a builder. -/
def setBuilder (b : BuilderId) (state : Builder) : Act Unit :=
  change fun s => { s with builders := s.builders.setIfInBounds b state }

/-- Collects a member. -/
def addMember (b : BuilderId) (m : Member) : Act Unit := do
  let state ← builder b
  let f ← makeMember state.engine "with" (some state.kind) m
  if state.finalized then fail .finalized
  else setBuilder b { state with pending := state.pending ++ [f] }

/-- Collects members in order. -/
def addMembers (b : BuilderId) : List Member → Act Unit
  | [] => pure ()
  | m :: rest => do
    addMember b m
    addMembers b rest

/-- Gives the type a name; the last one counts. -/
def nameType (b : BuilderId) (name : String) : Act Unit := do
  let state ← builder b
  if state.finalized then fail .finalized else setBuilder b { state with name := some name }

/-- Leaves a builder; leaving it again does nothing. -/
def closeBuilder (b : BuilderId) : Act Unit := do
  let state ← builder b
  if state.finalized then pure ()
  else
    setBuilder b { state with finalized := true }
    let own ← ask fun s => (s.engine state.engine).own
    registerAll own state.pending
    registerKind state.engine state.kind state.name
    let name ← ask fun s => (s.engine state.engine).kindName state.kind
    log .info builderLogger s!"Built type {name} with {state.pending.length} member(s)"

/-- Does something and leaves a builder whichever way that ends. -/
def within {α : Type} (b : BuilderId) (inner : Act α) : Act α := fun s =>
  match inner s with
  | (.ok a, s) => match closeBuilder b s with
    | (.ok _, s) => (.ok a, s)
    | (.error e, s) => (.error e, s)
  | (.error e, s) => match closeBuilder b s with
    | (.ok _, s) => (.error e, s)
    | (.error e, s) => (.error e, s)

end Act
end ScriptHost
