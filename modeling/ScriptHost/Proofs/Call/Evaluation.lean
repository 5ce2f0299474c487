import ScriptHost.Proofs.Call.Operations
import ScriptHost.Call.Run

/-!
# Runs stay where their arguments are

A body reaches changeable values through its arguments, through values it makes and through
calls.  So whatever territory its arguments belong to, the whole run stays in it, with all
the calls it makes and all the bodies these run, and whether it ends with a result or with a
fault.

* `Run.Confined T Φ f r h`: every end of the computation `r` on `h` is a step that stays within
  `T` and gives known values, and every fault is in `Φ`; `f` says which addresses a result
  refers to.
* `Confined.bind` and one lemma for each way of making a `Run`.
* `Respects T Φ call`: on known arguments the function is confined.
* `Expr.confined_eval`, `Body.confined_run`: a body is confined if its calls are.
* `Native.Licensed T f`: if `f` takes a handle onto a container of its caller, every
  container of the territory may be given another payload.  This is the only demand that
  binding makes.
* `Linkage.serve`: a call after its arguments have been bound; `invoke_succ` splits a call
  into binding and serving.
* `Linkage.respects_invoke`, `Linkage.respects_serve`: by induction on how deep calls may be
  nested, a call stays where its arguments are.
-/

namespace ScriptHost

open Heap

/-- The addresses that the end of a computation refers to. -/
def endAddrs {α : Type} (f : α → List Addr) : Except Fault α → List Addr
  | .ok x => f x
  | .error e => e.addrs

/-- Faults that a body can raise on its own, and what becomes of a fault that escapes one. -/
structure Passing (Φ : Fault → Prop) : Prop where
  raised : ∀ kind argument, Φ (.raised kind argument)
  declared : ∀ payload wording, Φ (.declared payload wording)
  notFound : ∀ name kinds, Φ (.notFound name kinds)
  escaped : ∀ name cause wording, Φ cause → Φ (.escaped name cause wording)

/-- Every fault may come out. -/
def anyFault : Fault → Prop := fun _ => True

theorem passing_anyFault : Passing anyFault :=
  ⟨fun _ _ => trivial, fun _ _ => trivial, fun _ _ => trivial, fun _ _ _ _ => trivial⟩

namespace Run

variable {α β : Type} {T : Territory} {Φ : Fault → Prop} {f : α → List Addr}
  {g : β → List Addr} {h : Heap}

theorem bind_apply (r : Run α) (k : α → Run β) (h : Heap) :
    (r >>= k) h = match r h with
      | some (.ok x, h') => k x h'
      | some (.error e, h') => some (.error e, h')
      | none => none := by
  simp only [bind, ExceptT.bind, ExceptT.mk, StateT.bind, Option.bind]
  rcases r h with _ | ⟨_ | _, _⟩ <;> rfl

/-- The end of a computation is within the territory, and a fault is one that may come out. -/
structure EndsIn (T : Territory) (Φ : Fault → Prop) (f : α → List Addr) (h : Heap)
    (outcome : Except Fault α) (h' : Heap) : Prop where
  stays : Stays T h (endAddrs f outcome) h'
  fault : ∀ e, outcome = .error e → Φ e

/-- Every end of a computation is within the territory. -/
def Confined (T : Territory) (Φ : Fault → Prop) (f : α → List Addr) (r : Run α) (h : Heap) :
    Prop :=
  ∀ outcome h', r h = some (outcome, h') → EndsIn T Φ f h outcome h'

theorem confined_pure (hT : Within T h) {x : α} (hx : Knows T h (f x)) :
    Confined T Φ f (pure x) h := by
  rintro outcome h' ⟨⟩
  exact ⟨hT.stays hx, nofun⟩

theorem confined_stop (hT : Within T h) {e : Fault} (he : Knows T h e.addrs) (hΦ : Φ e) :
    Confined T Φ f (stop e) h := by
  rintro outcome h' ⟨⟩
  refine ⟨hT.stays he, ?_⟩
  rintro _ ⟨⟩
  exact hΦ

theorem confined_exhausted : Confined T Φ f exhausted h := by
  rintro outcome h' ⟨⟩

theorem confined_step {s : Heap → α × Heap} (hs : Stays T h (f (s h).1) (s h).2) :
    Confined T Φ f (step s) h := by
  rintro outcome h' ⟨⟩
  exact ⟨hs, nofun⟩

theorem confined_attempt (hT : Within T h) {s : Heap → Except Fault (Value × Heap)}
    (hok : ∀ v h', s h = .ok (v, h') → Stays T h v.addrs h')
    (herror : ∀ e, s h = .error e → Knows T h e.addrs ∧ Φ e) :
    Confined T Φ Value.addrs (attempt s) h := by
  intro outcome h' hrun
  rw [attempt] at hrun
  split at hrun
  · rename_i v h₁ heq
    obtain ⟨rfl, rfl⟩ := Prod.mk.inj (Option.some.inj hrun)
    exact ⟨hok v h₁ heq, nofun⟩
  · rename_i e heq
    obtain ⟨hknown, he⟩ := herror e heq
    exact confined_stop hT hknown he outcome h' hrun

/-- An operation on known values raises what a body can raise. -/
theorem confined_operation (hΦ : Passing Φ) (hT : Within T h) (places : Precision)
    (op : Operation) {vs : List Value} (hvs : Knows T h (Value.addrsAll vs)) :
    Confined T Φ Value.addrs (attempt (op.run places vs)) h := by
  have hop := Operation.confined_run hT places op hvs
  refine confined_attempt hT (fun v h' heq => ?_) fun e heq => ?_
  · rw [heq] at hop
    exact hop
  · rw [heq] at hop
    obtain ⟨kind, argument, rfl, hnil⟩ := hop
    rw [Fault.addrs, hnil]
    exact ⟨knows_nil T h, hΦ.raised kind argument⟩

theorem Confined.bind {r : Run α} {k : α → Run β} (hr : Confined T Φ f r h)
    (hk : ∀ x h', r h = some (.ok x, h') → Stays T h (f x) h' → Confined T Φ g (k x) h') :
    Confined T Φ g (r >>= k) h := by
  intro outcome h' hrun
  rw [bind_apply] at hrun
  split at hrun
  · rename_i x h₁ heq
    have hfirst := (hr _ _ heq).stays
    have hsecond := hk x h₁ heq hfirst outcome h' hrun
    exact ⟨hfirst.trans hsecond.stays, hsecond.fault⟩
  · rename_i e h₁ heq
    obtain ⟨rfl, rfl⟩ := Prod.mk.inj (Option.some.inj hrun)
    have hfirst := hr _ _ heq
    refine ⟨hfirst.stays, ?_⟩
    rintro _ ⟨⟩
    exact hfirst.fault e rfl
  · simp at hrun

theorem confined_heap_bind {k : Heap → Run α} (hk : Confined T Φ f (k h) h) :
    Confined T Φ f (heap >>= k) h := hk

theorem Confined.onFault {r : Run α} {c : Fault → Heap → Fault} (hr : Confined T Φ f r h)
    (hc : ∀ e h', (c e h').addrs ⊆ e.addrs) (hΦ : ∀ e h', Φ e → Φ (c e h')) :
    Confined T Φ f (r.onFault c) h := by
  intro outcome h' hrun
  rw [Run.onFault] at hrun
  split at hrun
  · rename_i e h₁ heq
    obtain ⟨rfl, rfl⟩ := Prod.mk.inj (Option.some.inj hrun)
    have hend := hr _ _ heq
    refine ⟨hend.stays.mono (hc e h₁), ?_⟩
    rintro _ ⟨⟩
    exact hΦ e h₁ (hend.fault e rfl)
  · exact hr _ _ hrun

theorem confined_contained (hT : Within T h) {v : Value} (hv : Knows T h v.addrs) :
    Confined T Φ Value.addrs (contained v) h := by
  refine confined_step ?_
  rw [Value.addrs_ref]
  exact hT.stays_contain hv

/-- On known arguments a function stays within the territory. -/
def Respects (T : Territory) (Φ : Fault → Prop) (call : List Value → Run Value) : Prop :=
  ∀ vs h, Within T h → Knows T h (Value.addrsAll vs) → Confined T Φ Value.addrs (call vs) h

end Run

variable {T : Territory} {Φ : Fault → Prop} {h : Heap}

/-! ## Bodies -/

variable {frame : Frame}

mutual

/-- An expression stays within a territory that its frame belongs to. -/
theorem Expr.confined_eval (hΦ : Passing Φ) (hcall : ∀ name, Run.Respects T Φ (frame.call name)) :
    ∀ (e : Expr) {h : Heap}, Within T h → Knows T h (Value.addrsAll frame.arguments) →
      Run.Confined T Φ Value.addrs (e.eval frame) h
  | .argument i, h, hT, hargs => by
    rw [eval]
    split
    · rename_i v hv
      exact Run.confined_pure hT (hargs.mono (Value.mem_addrsAll_of_mem (List.mem_of_getElem? hv)))
    · exact Run.confined_stop hT (by simpa using knows_nil T h) (hΦ.raised _ _)
  | .constant d, h, hT, _ => by
    rw [eval]
    exact Run.confined_step ((annexed_build d hT.closed).stays hT)
  | .apply op operands, h, hT, hargs => by
    rw [eval]
    refine (Expr.confined_evalAll hΦ hcall operands hT hargs).bind fun vs h' _ hvs => ?_
    exact Run.confined_operation hΦ hvs.within frame.places op hvs.knows
  | .call name arguments, h, hT, hargs => by
    rw [eval]
    refine (Expr.confined_evalAll hΦ hcall arguments hT hargs).bind fun vs h' _ hvs => ?_
    exact hcall name vs h' hvs.within hvs.knows

theorem Expr.confined_evalAll (hΦ : Passing Φ)
    (hcall : ∀ name, Run.Respects T Φ (frame.call name)) :
    ∀ (es : List Expr) {h : Heap}, Within T h → Knows T h (Value.addrsAll frame.arguments) →
      Run.Confined T Φ Value.addrsAll (Expr.evalAll frame es) h
  | [], h, hT, _ => by
    rw [evalAll]
    exact Run.confined_pure hT (knows_nil T h)
  | e :: rest, h, hT, hargs => by
    rw [evalAll]
    refine (Expr.confined_eval hΦ hcall e hT hargs).bind fun v h₁ _ hv => ?_
    have hlater := hargs.after hv.kept.size_le
    refine (Expr.confined_evalAll hΦ hcall rest hv.within hlater).bind fun vs h₂ _ hvs => ?_
    refine Run.confined_pure hvs.within ?_
    exact knows_append_iff.mpr ⟨hv.knows.after hvs.kept.size_le, hvs.knows⟩

end

theorem Raised.confined_throw (hΦ : Passing Φ) (places : Precision) (raised : Raised) {v : Value}
    (hT : Within T h) (hv : Knows T h v.addrs) :
    Run.Confined T Φ Value.addrs (raised.throw places v) h := by
  rw [Raised.throw.eq_def]
  split
  · exact Run.confined_stop hT hv (hΦ.raised _ _)
  · split
    · exact Run.confined_stop hT hv (hΦ.declared _ _)
    · refine Run.confined_heap_bind ?_
      split
      · exact Run.confined_stop hT hv (hΦ.declared _ _)
      · exact Run.confined_stop hT (by simpa using knows_nil T h) (hΦ.raised _ _)

/-- A body stays within a territory that its frame belongs to, if its calls do. -/
theorem Body.confined_run (hΦ : Passing Φ) (hcall : ∀ name, Run.Respects T Φ (frame.call name))
    (body : Body) (hT : Within T h) (hargs : Knows T h (Value.addrsAll frame.arguments)) :
    Run.Confined T Φ Value.addrs (Body.run frame body) h := by
  induction body generalizing h with
  | nil => exact Run.confined_pure hT (by simpa using knows_nil T h)
  | cons stmt rest ih =>
    cases stmt with
    | give e => exact Expr.confined_eval hΦ hcall e hT hargs
    | run e =>
      rw [Body.run]
      refine (Expr.confined_eval hΦ hcall e hT hargs).bind fun v h' _ hv => ?_
      exact ih hv.within (hargs.after hv.kept.size_le)
    | fail raised e =>
      rw [Body.run]
      refine (Expr.confined_eval hΦ hcall e hT hargs).bind fun v h' _ hv => ?_
      exact raised.confined_throw hΦ frame.places hv.within hv.knows
    | failIf condition raised e =>
      rw [Body.run]
      refine (Expr.confined_eval hΦ hcall condition hT hargs).bind fun c h₁ _ hc => ?_
      have hlater := hargs.after hc.kept.size_le
      refine Run.confined_heap_bind ?_
      split
      · refine (Expr.confined_eval hΦ hcall e hc.within hlater).bind fun v h₂ _ hv => ?_
        exact raised.confined_throw hΦ frame.places hv.within hv.knows
      · exact ih hc.within hlater

/-! ## Binding -/

/-- A function that takes a handle needs a territory in which every container may be given
another payload. -/
def Native.Licensed (T : Territory) (f : Native) : Prop :=
  ∀ p ∈ f.params, p.binding = .exclusive → ∀ a, T.slots a

theorem Param.stays_take (p : Param) {a : Addr} (hT : Within T h) (ha : Knows T h [a])
    (hslot : p.binding = .exclusive → T.slots a) :
    Stays T h (p.take a h).1.addrs (p.take a h).2 := by
  rw [Param.take.eq_def]
  split
  · rename_i hbinding
    rw [allocValue, Value.addrs_ref]
    refine hT.stays_alloc ha ?_
    rintro slot ⟨⟩
    exact hslot hbinding
  · split
    · exact hT.stays (by simpa using ha)
    · refine hT.stays ((Knows.children (ha a (by simp)).2 hT).mono ?_)
      exact fun _ => mem_childrenOf_of_payload
  · exact (by simpa using annexed_clone hT.closed a :
      Annexed h (Value.ref (h.clone a).1).addrs (h.clone a).2).stays hT
  · exact (annexed_tryCast hT.closed a p.kind).stays hT

theorem Param.bind_eq (function : String) (position : Nat) (p : Param) (v : Value) (h : Heap) :
    p.bind function position v h =
      if (h.contain v).2.isKind (h.contain v).1 p.kind then
        .ok (p.take (h.contain v).1 (h.contain v).2)
      else .error (.argumentKind function position p.kind
        ((h.contain v).2.kindOf ((h.contain v).2.payload (h.contain v).1))) := rfl

theorem Param.confined_bind (function : String) (position : Nat) (p : Param) {v : Value}
    (hT : Within T h) (hv : Knows T h v.addrs)
    (hslot : p.binding = .exclusive → ∀ a, T.slots a) :
    Run.Confined T anyFault Value.addrs (Run.attempt (p.bind function position v)) h := by
  have hcontain := hT.stays_contain hv
  refine Run.confined_attempt hT (fun n h' heq => ?_) fun e heq => ?_
  · rw [Param.bind_eq] at heq
    split at heq
    · have htake := p.stays_take hcontain.within hcontain.knows
        fun hexclusive => hslot hexclusive _
      rw [Except.ok.inj heq] at htake
      exact hcontain.trans htake
    · simp at heq
  · rw [Param.bind_eq] at heq
    split at heq
    · simp at heq
    · rw [← Except.error.inj heq]
      exact ⟨knows_nil T h, trivial⟩

theorem confined_bindAll (function : String) (position : Nat) {ps : List Param}
    {vs : List Value} (hslots : ∀ p ∈ ps, p.binding = .exclusive → ∀ a, T.slots a)
    (hT : Within T h) (hvs : Knows T h (Value.addrsAll vs)) :
    Run.Confined T anyFault Value.addrsAll (bindAll function position ps vs) h := by
  induction ps generalizing position vs h with
  | nil => exact Run.confined_pure hT (knows_nil T h)
  | cons p ps ih =>
    cases vs with
    | nil => exact Run.confined_pure hT (knows_nil T h)
    | cons v vs =>
      obtain ⟨hv, hvs⟩ := knows_append_iff.mp hvs
      obtain ⟨hp, hps⟩ := List.forall_mem_cons.mp hslots
      rw [bindAll]
      refine (p.confined_bind function position hT hv hp).bind fun n h₁ _ hn => ?_
      refine (ih (position + 1) hps hn.within (hvs.after hn.kept.size_le)).bind
        fun ns h₂ _ hns => ?_
      refine Run.confined_pure hns.within ?_
      exact knows_append_iff.mpr ⟨hn.knows.after hns.kept.size_le, hns.knows⟩

theorem confined_containAll (hT : Within T h) {vs : List Value}
    (hvs : Knows T h (Value.addrsAll vs)) :
    Run.Confined T Φ Value.addrsAll (containAll vs) h := by
  induction vs generalizing h with
  | nil => exact Run.confined_pure hT (knows_nil T h)
  | cons v vs ih =>
    obtain ⟨hv, hvs⟩ := knows_append_iff.mp hvs
    rw [containAll]
    refine (Run.confined_contained hT hv).bind fun c h₁ _ hc => ?_
    refine (ih hc.within (hvs.after hc.kept.size_le)).bind fun cs h₂ _ hcs => ?_
    refine Run.confined_pure hcs.within ?_
    exact knows_append_iff.mpr ⟨hc.knows.after hcs.kept.size_le, hcs.knows⟩

/-! ## Calls -/

namespace Linkage

variable (link : Linkage)

/-- The kinds by which a call finds its function. -/
def kindsOf (h : Heap) (values : List Value) : List Kind :=
  values.map fun v => h.kindOf (h.unwrap v)

/-- What answers the calls of a body: the engine that the function belongs to. -/
def answer (depth : Nat) (f : Native) (name : String) (vs : List Value) : Run Value :=
  match f.home with
  | some engine => link.callWith (link.invoke depth) engine name vs
  | none => Run.stop (Fault.worded .type "call")

/-- What a call does once its arguments have been bound. -/
def serve (depth : Nat) (f : Native) (natives : List Value) : Run Value := do
  let result ← (Body.run ⟨natives, link.places, link.answer depth f⟩ f.body).onFault
    (f.escape link.places)
  Run.contained result

/-- A call binds its arguments and serves what it has bound. -/
theorem invoke_succ (depth : Nat) (f : Native) (arguments : List Value) :
    link.invoke (depth + 1) f arguments =
      if arguments.length ≠ f.arity then
        Run.stop (.argumentCount f.name f.arity arguments.length)
      else bindAll f.name 1 f.params arguments >>= link.serve depth f := rfl

theorem escape_addrs (places : Precision) (f : Native) (e : Fault) (h : Heap) :
    (f.escape places e h).addrs ⊆ e.addrs := by
  rw [Native.escape]
  split
  · exact List.Subset.refl _
  · split
    · exact List.Subset.refl _
    · simp

theorem escape_passing (hΦ : Passing Φ) (places : Precision) (f : Native) (e : Fault) (h : Heap)
    (he : Φ e) : Φ (f.escape places e h) := by
  rw [Native.escape]
  split
  · exact he
  · split
    · exact hΦ.escaped _ _ _ he
    · exact hΦ.raised _ _

variable {link}

/-- A call by name is confined if the invocation of what it finds is. -/
theorem respects_callWith {invoke : Native → List Value → Run Value} {engine : EngineId}
    {name : String} (hΦ : Passing Φ)
    (hinvoke : ∀ f vs cs h h', Within T h → Knows T h (Value.addrsAll vs) →
      containAll vs h = some (.ok cs, h') → Stays T h (Value.addrsAll cs) h' →
        link.find engine name (kindsOf h' cs) = some f →
          Run.Confined T Φ Value.addrs (invoke f cs) h') :
    Run.Respects T Φ (link.callWith invoke engine name) := by
  intro vs h hT hvs
  rw [callWith]
  refine (confined_containAll hT hvs).bind fun cs h₁ hrun hcs => ?_
  refine Run.confined_heap_bind ?_
  dsimp only
  split
  · rename_i f hf
    exact hinvoke f vs cs h h₁ hT hvs hrun hcs hf
  · exact Run.confined_stop hcs.within (knows_nil T h₁) (hΦ.notFound _ _)

/-- A call by name runs what it finds on its arguments in containers. -/
theorem callWith_apply {invoke : Native → List Value → Run Value} {engine : EngineId}
    {name : String} {f : Native} {vs cs : List Value} {h h' : Heap}
    (hcs : containAll vs h = some (.ok cs, h'))
    (hf : link.find engine name (kindsOf h' cs) = some f) :
    link.callWith invoke engine name vs h = invoke f cs h' := by
  rw [callWith, Run.bind_apply, hcs]
  simp only [Run.bind_apply, Run.heap]
  rw [← kindsOf, hf]

/-- Serving a call stays within a territory, if the calls of the body do. -/
theorem respects_serve_of (hΦ : Passing Φ) {depth : Nat}
    (hcall : ∀ engine name, Run.Respects T Φ (link.callWith (link.invoke depth) engine name))
    (f : Native) : Run.Respects T Φ (link.serve depth f) := by
  have hanswer : ∀ name, Run.Respects T Φ (link.answer depth f name) := by
    intro name vs h hT hvs
    rw [answer]
    split
    · exact hcall _ name vs h hT hvs
    · exact Run.confined_stop hT (by simpa using knows_nil T h) (hΦ.raised _ _)
  intro vs h hT hvs
  have hbody : Run.Confined T Φ Value.addrs
      (Body.run ⟨vs, link.places, link.answer depth f⟩ f.body) h :=
    Body.confined_run hΦ hanswer f.body hT hvs
  have hescape := hbody.onFault (escape_addrs link.places f) (escape_passing hΦ link.places f)
  exact hescape.bind fun result h' _ hresult =>
    Run.confined_contained hresult.within hresult.knows

/-- Every function that a call can find is licensed. -/
def Licensed (T : Territory) (link : Linkage) : Prop :=
  ∀ engine name kinds f, link.find engine name kinds = some f → f.Licensed T

section Licensed

variable (hlink : link.Licensed T)
include hlink

/-- **A call stays where its arguments are**, however deep it nests. -/
theorem respects_invoke (depth : Nat) {f : Native} (hf : f.Licensed T) :
    Run.Respects T anyFault (link.invoke depth f) := by
  induction depth generalizing f with
  | zero => exact fun _ _ _ _ => Run.confined_exhausted
  | succ depth ih =>
    intro vs h hT hvs
    rw [invoke_succ]
    split
    · exact Run.confined_stop hT (knows_nil T h) trivial
    · refine (confined_bindAll f.name 1 hf hT hvs).bind fun ns h' _ hns => ?_
      refine respects_serve_of passing_anyFault (fun engine name => ?_) f ns h' hns.within hns.knows
      exact respects_callWith passing_anyFault fun g _ cs _ h' _ _ _ hcs hg =>
        ih (hlink _ _ _ _ hg) cs h' hcs.within hcs.knows

theorem respects_call (depth : Nat) (engine : EngineId) (name : String) :
    Run.Respects T anyFault (link.callWith (link.invoke depth) engine name) :=
  respects_callWith passing_anyFault fun _ _ cs _ h' _ _ _ hcs hg =>
    respects_invoke hlink depth (hlink _ _ _ _ hg) cs h' hcs.within hcs.knows

/-- **What a call does after binding stays where the bound values are**, whatever the function
itself takes. -/
theorem respects_serve (depth : Nat) (f : Native) :
    Run.Respects T anyFault (link.serve depth f) :=
  respects_serve_of passing_anyFault (respects_call hlink depth) f

end Licensed
end Linkage
end ScriptHost
