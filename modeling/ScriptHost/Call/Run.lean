import ScriptHost.Call.Operation
import ScriptHost.Value.Cast

/-!
# Calls

A call binds its arguments, runs the body and puts the result into a container.  The three
steps are separate functions: `bindAll` decides whether the call fits and makes what the
body gets, `Body.run` evaluates a body whose calls are answered by a given function, and
`invoke` ties them together and wraps what escapes.

A body has no loops, so only nested calls can go on without end; `invoke` takes the number
of calls that may be open at once, and answers nothing when that is used up.  A fault does
not undo what the body has done to the heap before.
-/

namespace ScriptHost

/-- A computation on the heap that ends with a result or a fault, or does not end. -/
abbrev Run := ExceptT Fault (StateT Heap Option)

/-- How calls find functions and words. -/
structure Linkage where
  /-- The function of an engine that a call with arguments of these kinds runs. -/
  find : EngineId → String → List Kind → Option Native
  /-- The name that an engine shows a kind by. -/
  kindName : EngineId → Kind → String
  /-- The display precision. -/
  places : Precision

namespace Run

/-- A step that always succeeds. -/
def step {α : Type} (f : Heap → α × Heap) : Run α := fun h =>
  let (a, h) := f h
  some (.ok a, h)

/-- A step that may fail, leaving the heap as it is. -/
def attempt {α : Type} (f : Heap → Except Fault (α × Heap)) : Run α := fun h =>
  match f h with
  | .ok (a, h) => some (.ok a, h)
  | .error e => some (.error e, h)

/-- Ends with a fault. -/
def stop {α : Type} (e : Fault) : Run α := fun h => some (.error e, h)

/-- The heap. -/
def heap : Run Heap := fun h => some (.ok h, h)

/-- No answer: too many calls are open. -/
def exhausted {α : Type} : Run α := fun _ => none

end Run

/-- What a body is evaluated with. -/
structure Frame where
  arguments : List Value
  places : Precision
  /-- Answers the calls of the body. -/
  call : String → List Value → Run Value

mutual

/-- The value of an expression. -/
def Expr.eval (frame : Frame) : Expr → Run Value
  | .argument i => match frame.arguments[i]? with
    | some v => pure v
    | none => Run.stop (Fault.worded .index "list index out of range")
  | .constant d => Run.step fun h => h.build d
  | .apply op operands => do
    let vs ← Expr.evalAll frame operands
    Run.attempt (op.run frame.places vs)
  | .call name arguments => do
    let vs ← Expr.evalAll frame arguments
    frame.call name vs

/-- The values of expressions, from left to right. -/
def Expr.evalAll (frame : Frame) : List Expr → Run (List Value)
  | [] => pure []
  | e :: rest => do
    let v ← e.eval frame
    let vs ← Expr.evalAll frame rest
    pure (v :: vs)

end

/-- Raises a value. -/
def Raised.throw (places : Precision) (raised : Raised) (v : Value) : Run Value := do
  match raised with
  | .kind k => Run.stop (.raised k v)
  | .declared => match v with
    | .scalar .unit => Run.stop (.declared v "Runtime error")
    | _ => match (← Run.heap).shownText places v with
      | .ok wording => Run.stop (.declared v wording)
      | .error e => Run.stop (Fault.ofConvert e)

/-- Runs the statements of a body. -/
def Body.run (frame : Frame) : List Stmt → Run Value
  | [] => pure .unit
  | .give e :: _ => e.eval frame
  | .run e :: rest => do
    let _ ← e.eval frame
    Body.run frame rest
  | .fail raised e :: _ => do
    let v ← e.eval frame
    raised.throw frame.places v
  | .failIf condition raised e :: rest => do
    let c ← condition.eval frame
    if (← Run.heap).truthy c then
      let v ← e.eval frame
      raised.throw frame.places v
    else Body.run frame rest

/-- What the body gets for the container at an address.  A cast that does not fit gives
unit. -/
def Param.take (p : Param) (a : Addr) (h : Heap) : Value × Heap :=
  match p.binding with
  | .exclusive => h.allocValue (.handle a)
  | .reference => if p.kind = .dynamic then (.ref a, h) else (h.payload a, h)
  | .dynamic =>
    let (b, h) := h.clone a
    (.ref b, h)
  | .value =>
    let (v, h) := h.tryCast a p.kind
    (v.getD .unit, h)

/-- Binds one argument. -/
def Param.bind (function : String) (position : Nat) (p : Param) (v : Value) (h : Heap) :
    Except Fault (Value × Heap) :=
  let (a, h) := h.contain v
  if h.isKind a p.kind then .ok (p.take a h)
  else .error (.argumentKind function position p.kind (h.kindOf (h.payload a)))

/-- Binds arguments to parameters, counting positions from the given one. -/
def bindAll (function : String) : Nat → List Param → List Value → Run (List Value)
  | position, p :: ps, v :: vs => do
    let native ← Run.attempt (p.bind function position v)
    let natives ← bindAll function (position + 1) ps vs
    pure (native :: natives)
  | _, _, _ => pure []

/-- What leaves a function when a fault escapes its body. -/
def Native.escape (places : Precision) (f : Native) (fault : Fault) (h : Heap) : Fault :=
  if fault.isScriptError && f.fallible then fault
  else match fault.message h places with
    | .ok wording => .escaped f.name fault (fault.className ++ ": " ++ wording)
    | .error e => Fault.ofConvert e

/-- Changes the fault that a computation ends with. -/
def Run.onFault {α : Type} (r : Run α) (f : Fault → Heap → Fault) : Run α := fun h =>
  match r h with
  | some (.error e, h) => some (.error (f e h), h)
  | answer => answer

/-- The container that a result is, or a new one around it. -/
def Run.contained (v : Value) : Run Value := Run.step fun h =>
  let (a, h) := h.contain v
  (.ref a, h)

/-- Puts bare arguments into containers. -/
def containAll : List Value → Run (List Value)
  | [] => pure []
  | v :: rest => do
    let c ← Run.contained v
    let cs ← containAll rest
    pure (c :: cs)

/-- Calls a function of an engine by name, given how functions are invoked. -/
def Linkage.callWith (link : Linkage) (invoke : Native → List Value → Run Value)
    (engine : EngineId) (name : String) (arguments : List Value) : Run Value := do
  let values ← containAll arguments
  let h ← Run.heap
  let kinds := values.map fun v => h.kindOf (h.unwrap v)
  match link.find engine name kinds with
  | some f => invoke f values
  | none => Run.stop (.notFound name (kinds.map (link.kindName engine)))

/-- Invokes a function, at most so many calls deep. -/
def Linkage.invoke (link : Linkage) : Nat → Native → List Value → Run Value
  | 0, _, _ => Run.exhausted
  | n + 1, f, arguments =>
    if arguments.length ≠ f.arity then
      Run.stop (.argumentCount f.name f.arity arguments.length)
    else do
      let natives ← bindAll f.name 1 f.params arguments
      let call := fun name vs => match f.home with
        | some engine => link.callWith (link.invoke n) engine name vs
        | none => Run.stop (Fault.worded .type "call")
      let result ← (Body.run ⟨natives, link.places, call⟩ f.body).onFault (f.escape link.places)
      Run.contained result

/-- Calls a function of an engine by name, at most so many calls deep. -/
def Linkage.call (link : Linkage) (depth : Nat) (engine : EngineId) (name : String)
    (arguments : List Value) : Run Value :=
  link.callWith (link.invoke depth) engine name arguments

end ScriptHost
