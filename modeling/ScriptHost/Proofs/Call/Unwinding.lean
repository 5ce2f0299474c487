import ScriptHost.Proofs.Call.Failure

/-!
# How a fault comes out of a stack of calls

A body that calls a function of its engine waits for the answer, and a body cannot catch a fault.
So a fault that is raised at the top of a stack of calls goes through every function of the stack,
the latest call first, and each of them passes it on or puts a layer around it.  Nothing runs in
between, so all layers are made in the heap in which the fault was raised.

A layer is a script error.  So from the first layer on only the functions that may not fail add one;
whether the fault itself is a script error matters for the latest call only.

* `Expr.Calls`, `Body.Calls`: evaluation comes to a call.
* `Body.run_of_calls`: what comes out of that call comes out of the body.
* `Linkage.Stack`: a stack of calls with a fault on top of it.
* `Linkage.Stack.call_eq`: the fault that leaves the first call, function by function.
* `Fault.Layered`, `Fault.layered_through`: the layers that this makes.
* `Linkage.layered_of_stack`: both together.
-/

namespace ScriptHost

variable {h h' h₁ g g' : Heap} {e : Fault} {f : Native}

/-! ## Waiting for an answer -/

section Waiting

variable (frame : Frame) (name : String) (vs : List Value) (g : Heap)

/-- Evaluating an expression comes to a call of `name` with the values `vs`, in the heap `g`.  The
operands before it have their values by then. -/
inductive Expr.Calls : Expr → Heap → Prop
  | here {arguments : List Expr} {h : Heap}
      (harguments : Expr.evalAll frame arguments h = some (.ok vs, g)) :
      Calls (.call name arguments) h
  | argument {callee : String} {before after : List Expr} {e : Expr} {ws : List Value}
      {h h₁ : Heap} (hbefore : Expr.evalAll frame before h = some (.ok ws, h₁)) (he : Calls e h₁) :
      Calls (.call callee (before ++ e :: after)) h
  | operand {op : Operation} {before after : List Expr} {e : Expr} {ws : List Value}
      {h h₁ : Heap} (hbefore : Expr.evalAll frame before h = some (.ok ws, h₁)) (he : Calls e h₁) :
      Calls (.apply op (before ++ e :: after)) h

/-- The expression that a statement evaluates first. -/
def Stmt.first : Stmt → Expr
  | .give e | .run e | .fail _ e => e
  | .failIf condition _ _ => condition

/-- A statement is done and the body goes on behind it, in the heap `h'`. -/
inductive Stmt.Passes : Stmt → Heap → Heap → Prop
  | run {e : Expr} {v : Value} {h h' : Heap} (he : e.eval frame h = some (.ok v, h')) :
      Passes (.run e) h h'
  | failIf {condition e : Expr} {raised : Raised} {c : Value} {h h' : Heap}
      (hcondition : condition.eval frame h = some (.ok c, h')) (hc : h'.truthy c = false) :
      Passes (.failIf condition raised e) h h'

/-- Running a body comes to a call of `name` with the values `vs`, in the heap `g`. -/
inductive Body.Calls : Body → Heap → Prop
  | first {stmt : Stmt} {rest : Body} {h : Heap} (hfirst : stmt.first.Calls frame name vs g h) :
      Calls (stmt :: rest) h
  | raising {condition e : Expr} {raised : Raised} {rest : Body} {c : Value} {h h₁ : Heap}
      (hcondition : condition.eval frame h = some (.ok c, h₁)) (hc : h₁.truthy c = true)
      (he : e.Calls frame name vs g h₁) : Calls (.failIf condition raised e :: rest) h
  | later {stmt : Stmt} {rest : Body} {h h₁ : Heap} (hstmt : stmt.Passes frame h h₁)
      (hrest : Calls rest h₁) : Calls (stmt :: rest) h

end Waiting

variable {frame : Frame} {name : String} {vs : List Value}

theorem Expr.evalAll_of_error {before after : List Expr} {x : Expr} {ws : List Value}
    (hbefore : Expr.evalAll frame before h = some (.ok ws, h₁))
    (hx : x.eval frame h₁ = some (.error e, h')) :
    Expr.evalAll frame (before ++ x :: after) h = some (.error e, h') := by
  induction before generalizing h ws with
  | nil =>
    obtain ⟨-, rfl⟩ := Prod.mk.inj (Option.some.inj hbefore)
    rw [List.nil_append, evalAll, Run.bind_apply, hx]
  | cons y before ih =>
    rw [evalAll, Run.bind_apply] at hbefore
    rw [List.cons_append, evalAll, Run.bind_apply]
    split at hbefore
    · rename_i v h₂ hy
      rw [Run.bind_apply] at hbefore
      split at hbefore
      · rename_i us h₃ hrest
        obtain ⟨-, rfl⟩ := Prod.mk.inj (Option.some.inj hbefore)
        simp only [Run.bind_apply, ih hrest]
      · exact absurd hbefore nofun
      · exact absurd hbefore nofun
    · exact absurd hbefore nofun
    · exact absurd hbefore nofun

/-- A fault of the call comes out of the expression. -/
theorem Expr.eval_of_calls {x : Expr} (hx : x.Calls frame name vs g h)
    (hcall : frame.call name vs g = some (.error e, g')) :
    x.eval frame h = some (.error e, g') := by
  induction hx with
  | here harguments => rw [eval, Run.bind_apply, harguments]; exact hcall
  | argument hbefore _ ih => rw [eval, Run.bind_apply, evalAll_of_error hbefore ih]
  | operand hbefore _ ih => rw [eval, Run.bind_apply, evalAll_of_error hbefore ih]

/-- A statement fails with the expression that it evaluates first. -/
theorem Body.run_of_first {stmt : Stmt} {rest : Body}
    (hfirst : stmt.first.eval frame h = some (.error e, h')) :
    Body.run frame (stmt :: rest) h = some (.error e, h') := by
  cases stmt with
  | give x => exact hfirst
  | run x => rw [run, Run.bind_apply, show x.eval frame h = _ from hfirst]
  | fail raised x => rw [run, Run.bind_apply, show x.eval frame h = _ from hfirst]
  | failIf c raised x => rw [run, Run.bind_apply, show c.eval frame h = _ from hfirst]

theorem Body.run_of_passes {stmt : Stmt} {rest : Body} (hstmt : stmt.Passes frame h h₁) :
    Body.run frame (stmt :: rest) h = Body.run frame rest h₁ := by
  cases hstmt with
  | run hx => rw [run, Run.bind_apply, hx]
  | failIf hcondition hc =>
    rw [run, Run.bind_apply, hcondition]
    simp [Run.bind_apply, Run.heap, hc]

/-- **A fault of the call comes out of the body.** -/
theorem Body.run_of_calls {body : Body} (hbody : Body.Calls frame name vs g body h)
    (hcall : frame.call name vs g = some (.error e, g')) :
    Body.run frame body h = some (.error e, g') := by
  induction hbody with
  | first hfirst => exact run_of_first (Expr.eval_of_calls hfirst hcall)
  | raising hcondition hc hx =>
    rw [run, Run.bind_apply, hcondition]
    simp [Run.bind_apply, Run.heap, hc, Expr.eval_of_calls hx hcall]
  | later hstmt _ ih => rw [run_of_passes hstmt, ih]

/-! ## Stacks of calls -/

namespace Linkage

/-- A call by name comes to the body of the function `f`, which gets `natives` in the heap `h'`. -/
def Enters (link : Linkage) (engine : EngineId) (name : String) (arguments : List Value) (h : Heap)
    (f : Native) (natives : List Value) (h' : Heap) : Prop :=
  ∃ values h₁, link.Finds engine name arguments h f values h₁ ∧ f.Binds values h₁ natives h'

/-- A stack of calls, the first one at the head: the body of each function comes to the next call,
which goes through the engine of that function, and the body of the last one ends with the fault
`e` in the heap `h'`. -/
inductive Stack (link : Linkage) (e : Fault) (h' : Heap) :
    Nat → EngineId → String → List Value → Heap → List Native → Prop
  | last {depth : Nat} {engine : EngineId} {name : String} {arguments natives : List Value}
      {h h₁ : Heap} {f : Native} (henters : link.Enters engine name arguments h f natives h₁)
      (hbody : Body.run (link.frame depth f natives) f.body h₁ = some (.error e, h')) :
      Stack link e h' (depth + 1) engine name arguments h [f]
  | next {depth : Nat} {engine home : EngineId} {name callee : String}
      {arguments natives passed : List Value} {h h₁ h₂ : Heap} {f : Native} {fs : List Native}
      (henters : link.Enters engine name arguments h f natives h₁) (hhome : f.home = some home)
      (hbody : Body.Calls (link.frame depth f natives) callee passed h₂ f.body h₁)
      (hrest : Stack link e h' depth home callee passed h₂ fs) :
      Stack link e h' (depth + 1) engine name arguments h (f :: fs)

variable {link : Linkage} {depth : Nat} {engine : EngineId} {arguments natives : List Value}

/-- A fault that ends the body leaves the call, changed by the function. -/
theorem call_of_enters (henters : link.Enters engine name arguments h f natives h₁)
    (hbody : Body.run (link.frame depth f natives) f.body h₁ = some (.error e, h')) :
    link.call (depth + 1) engine name arguments h =
      some (.error (f.escape link.places e h'), h') := by
  obtain ⟨values, h₂, hfinds, hbinds⟩ := henters
  rw [call_of_finds hfinds]
  exact invoke_of_fails ⟨depth, natives, h₁, rfl, hbinds, hbody⟩

end Linkage

/-- What comes out of functions when a fault goes through them, the last function first. -/
def Fault.through (places : Precision) (h : Heap) (fs : List Native) (e : Fault) : Fault :=
  fs.foldr (fun f cause => f.escape places cause h) e

/-- **A fault leaves the first call through every function of the stack.** -/
theorem Linkage.Stack.call_eq {link : Linkage} {depth : Nat} {engine : EngineId}
    {arguments : List Value} {fs : List Native}
    (hstack : link.Stack e h' depth engine name arguments h fs) :
    link.call depth engine name arguments h =
      some (.error (e.through link.places h' fs), h') := by
  induction hstack with
  | last henters hbody => exact call_of_enters henters hbody
  | @next depth engine home name callee arguments natives passed h h₁ h₂ f fs henters hhome hbody
      hrest ih =>
    have hcall : (link.frame depth f natives).call callee passed h₂ =
        some (.error (e.through link.places h' fs), h') := by
      simp only [frame, answer, hhome]
      exact ih
    exact call_of_enters henters (Body.run_of_calls hbody hcall)

/-! ## Layers -/

namespace Fault

/-- The fault `outer` is `e` in one layer for each of the functions, the outermost first: a layer
has the name of its function, the fault inside it as its cause, and the text of that in its
message. -/
inductive Layered (h : Heap) (places : Precision) (e : Fault) : List Native → Fault → Prop
  | bare : Layered h places e [] e
  | layer {f : Native} {fs : List Native} {cause : Fault} {text : String}
      (hcause : Layered h places e fs cause) (htext : cause.message h places = .ok text) :
      Layered h places e (f :: fs) (f.layer cause text)

theorem Layered.eq_of_nil {h : Heap} {places : Precision} {e outer : Fault}
    (houter : Layered h places e [] outer) : outer = e := by
  cases houter
  rfl

/-- The functions of a stack that add a layer: those that may not fail, and the last one also if
the fault is no script error. -/
def wrapping (e : Fault) (callers : List Native) (f : Native) : List Native :=
  callers.filter (fun g => !g.fallible) ++ if f.Wraps e then [f] else []

/-- From here on only functions that may not fail add a layer: the fault is a script error, and it
has a message. -/
def Settled (h : Heap) (places : Precision) (e : Fault) : Prop :=
  e.isScriptError = true ∧ ∃ text, e.message h places = .ok text

variable {places : Precision} {callers fs : List Native} {cause outer : Fault} {text : String}

theorem settled_layer : (f.layer e text).Settled h places := ⟨rfl, _, rfl⟩

/-- What leaves the function of the last call. -/
theorem layered_escape (htext : e.message h places = .ok text) :
    e.Layered h places (if f.Wraps e then [f] else []) (f.escape places e h) ∧
      (f.escape places e h).Settled h places := by
  split
  · rename_i hwraps
    rw [Native.escape_of_wraps hwraps htext]
    exact ⟨.layer .bare htext, settled_layer⟩
  · rename_i hpass
    rw [Native.escape_of_not_wraps hpass]
    rw [Native.Wraps, Bool.not_eq_false, Bool.and_eq_true] at hpass
    exact ⟨.bare, hpass.1, text, htext⟩

/-- A script error gets a layer from every caller that may not fail. -/
theorem layered_through_callers (hcause : e.Layered h places fs cause)
    (hsettled : cause.Settled h places) :
    e.Layered h places (callers.filter (fun g => !g.fallible) ++ fs)
        (cause.through places h callers) ∧
      (cause.through places h callers).Settled h places := by
  induction callers with
  | nil => exact ⟨hcause, hsettled⟩
  | cons f callers ih =>
    obtain ⟨hlayered, hscript, text, htext⟩ := ih
    rw [through, List.foldr_cons, ← through]
    by_cases hfallible : f.fallible = true
    · have hpass : ¬ f.Wraps (cause.through places h callers) := by
        simp [Native.Wraps, hscript, hfallible]
      rw [Native.escape_of_not_wraps hpass, List.filter_cons_of_neg (by simp [hfallible])]
      exact ⟨hlayered, hscript, text, htext⟩
    · have hwraps : f.Wraps (cause.through places h callers) := by
        simp [Native.Wraps, hfallible]
      rw [Native.escape_of_wraps hwraps htext, List.filter_cons_of_pos (by simp [hfallible])]
      exact ⟨.layer hlayered htext, settled_layer⟩

theorem layered_through (htext : e.message h places = .ok text) :
    e.Layered h places (e.wrapping callers f) (e.through places h (callers ++ [f])) := by
  obtain ⟨hlast, hsettled⟩ := layered_escape (f := f) htext
  rw [through, List.foldr_append]
  exact (layered_through_callers hlast hsettled).1

/-- Functions that may fail add nothing to a script error. -/
theorem wrapping_eq_nil (he : e.isScriptError = true)
    (hfallible : ∀ g ∈ callers ++ [f], g.fallible = true) : e.wrapping callers f = [] := by
  have hcallers : callers.filter (fun g => !g.fallible) = [] := by
    rw [List.filter_eq_nil_iff]
    intro g hg
    simp [hfallible g (List.mem_append_left _ hg)]
  have hlast : ¬ f.Wraps e := by
    simp [Native.Wraps, he, hfallible f (List.mem_append_right _ List.mem_cons_self)]
  rw [wrapping, hcallers, if_neg hlast, List.append_nil]

end Fault

namespace Linkage

/-- **A fault comes out of a stack of calls in one layer for each function that may not fail**, and
one for the last function if it is no script error.  So a script error comes out of functions that
may all fail as it is. -/
theorem layered_of_stack {link : Linkage} {depth : Nat} {engine : EngineId} {arguments : List Value}
    {callers : List Native} {text : String}
    (hstack : link.Stack e h' depth engine name arguments h (callers ++ [f]))
    (htext : e.message h' link.places = .ok text) :
    ∃ outer, link.call depth engine name arguments h = some (.error outer, h') ∧
      e.Layered h' link.places (e.wrapping callers f) outer ∧
      (e.isScriptError = true → (∀ g ∈ callers ++ [f], g.fallible = true) → outer = e) := by
  have hlayered : e.Layered h' link.places (e.wrapping callers f)
      (e.through link.places h' (callers ++ [f])) := Fault.layered_through htext
  refine ⟨_, hstack.call_eq, hlayered, fun he hfallible => ?_⟩
  rw [Fault.wrapping_eq_nil he hfallible] at hlayered
  exact hlayered.eq_of_nil

/-- A function that raises a failure of the host, one that may fail and calls it, and one that may
not fail and calls that. -/
def raiser : Native :=
  ⟨"raiser", [], true, none, [.fail (.kind .value) (.constant (.string "empty"))], some 0⟩

def middle : Native := ⟨"middle", [], true, none, [.give (.call "raiser" [])], some 0⟩

def entry : Native :=
  ⟨"entry", [], false, none, [.run (.call "middle" []), .give (.argument 0)], some 0⟩

/-- An engine with these functions. -/
def threeDeep : Linkage where
  find _ name _ := [raiser, middle, entry].find? fun f => f.name == name
  kindName _ k := k.name
  places := .ok 10

theorem layered_threeDeep :
    let e : Fault := .raised .value (.string "empty")
    threeDeep.Stack e .empty 3 0 "entry" [] .empty ([entry, middle] ++ [raiser]) ∧
      e.wrapping [entry, middle] raiser = [entry, raiser] ∧
      ∃ outer, threeDeep.call 3 0 "entry" [] .empty = some (.error outer, .empty) ∧
        e.Layered .empty threeDeep.places [entry, raiser] outer := by
  intro e
  have hstack : threeDeep.Stack e .empty 3 0 "entry" [] .empty ([entry, middle] ++ [raiser]) :=
    .next ⟨[], .empty, ⟨rfl, rfl⟩, ⟨rfl, rfl⟩⟩ rfl (.first (.here rfl))
      (.next ⟨[], .empty, ⟨rfl, rfl⟩, ⟨rfl, rfl⟩⟩ rfl (.first (.here rfl))
        (.last ⟨[], .empty, ⟨rfl, rfl⟩, ⟨rfl, rfl⟩⟩ rfl))
  have hwrapping : e.wrapping [entry, middle] raiser = [entry, raiser] := rfl
  obtain ⟨outer, hcall, hlayered, -⟩ := layered_of_stack hstack rfl
  exact ⟨hstack, hwrapping, outer, hcall, hwrapping ▸ hlayered⟩

end Linkage
end ScriptHost
