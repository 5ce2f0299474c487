import ScriptHost.Proofs.Call.Unwinding
import ScriptHost.Proofs.Heap.Flatness

/-!
# What holds all along a run

A run of a body is made of few kinds of steps: entering a constant, an operation on values, putting
an argument or a result into a container, and taking what the body gets out of one.  A property of
heaps that each of these keeps, on values of the heap, holds of whatever the run leaves, and of the
heap of every call that is made in between.

* `Heap.Invariant P`: each step keeps `P`.
* `Run.Keeps P r h`: whatever the computation `r` leaves of `h` has `P`; `Run.Upholds P call`: calls
  on values of a heap with `P` stay on values of the heap and keep `P`.
* `Expr.keeps_eval`, `Body.keeps_run`, `keeps_bindAll`, `keeps_containAll`: the parts of a call.
* `Linkage.upholds_invoke`, `Linkage.upholds_call`: by induction on how deep calls may be nested.
* `Linkage.Asks`: an invocation comes to a call by name, however deep; `Linkage.Asks.holds` says
  that `P` holds there.
-/

namespace ScriptHost

open Heap

/-- A property of heaps that every step of a run on values of the heap keeps. -/
structure Heap.Invariant (P : Heap → Prop) : Prop where
  closed : ∀ {h}, P h → h.Closed
  build : ∀ {h} (d : Datum), P h → P (h.build d).2
  operation : ∀ {h h' places op vs v}, P h → Knows .all h (Value.addrsAll vs) →
    Operation.run places op vs h = .ok (v, h') → P h'
  contain : ∀ {h} {v : Value}, P h → Knows .all h v.addrs → P (h.contain v).2
  tryCast : ∀ {h} (a : Addr) (k : Kind), P h → P (h.tryCast a k).2
  /-- A handle onto a container. -/
  handle : ∀ {h a}, P h → h.kindOf (.ref a) = .dynamic → P (h.alloc (.handle a)).2

variable {P : Heap → Prop} {h h' g : Heap} {frame : Frame}

namespace Heap.Invariant

variable (hP : Invariant P) (hh : P h)
include hP hh

theorem within : Within .all h := (hP.closed hh).within_all

theorem wrap {v : Value} (hv : Knows .all h v.addrs) : P (h.wrap v).2 := by
  have hknown : Knows .all h (Value.addrsAll [v]) := by simpa [Value.addrsAll] using hv
  have hrun : Operation.contain.run (.ok 0) [v] h = .ok (.ref (h.wrap v).1, (h.wrap v).2) := rfl
  exact hP.operation hh hknown hrun

theorem clone (a : Addr) : P (h.clone a).2 := by
  have hcast := hP.tryCast a .dynamic hh
  rw [tryCast_dynamic] at hcast
  exact hcast

/-- Taking what a body gets out of a container. -/
theorem take {a : Addr} (p : Param) (ha : h.kindOf (.ref a) = .dynamic) : P (p.take a h).2 := by
  rw [Param.take.eq_def]
  split
  · exact hP.handle hh ha
  · split
    · exact hh
    · exact hh
  · exact hP.clone hh a
  · exact hP.tryCast a p.kind hh

end Heap.Invariant

/-- **That no reference leads out of the heap is an invariant of runs.** -/
theorem Heap.invariant_closed : Invariant Closed where
  closed := id
  build d hclosed := (annexed_build d hclosed).closed
  operation {h h' places op vs v} hclosed hvs hrun := by
    have hconfined := Operation.confined_run hclosed.within_all places op hvs
    rw [hrun] at hconfined
    exact hconfined.within.closed
  contain hclosed hv := (hclosed.within_all.stays_contain hv).within.closed
  tryCast a k hclosed := (annexed_tryCast hclosed a k).closed
  handle {h a} hclosed ha := by
    refine hclosed.alloc fun b hb => ?_
    rw [List.mem_singleton.mp hb]
    exact lt_of_kindOf ha

namespace Run

variable {α β : Type} {f : α → List Addr}

/-- Whatever a computation leaves has the property. -/
def Keeps (P : Heap → Prop) (r : Run α) (h : Heap) : Prop :=
  ∀ outcome h', r h = some (outcome, h') → P h'

theorem keeps_pure (hh : P h) (x : α) : Keeps P (pure x) h := by
  rintro outcome h' ⟨⟩
  exact hh

theorem keeps_stop (hh : P h) (e : Fault) : Keeps P (stop e : Run α) h := by
  rintro outcome h' ⟨⟩
  exact hh

theorem keeps_step {s : Heap → α × Heap} (hs : P (s h).2) : Keeps P (step s) h := by
  rintro outcome h' ⟨⟩
  exact hs

theorem keeps_attempt {s : Heap → Except Fault (α × Heap)} (hh : P h)
    (hok : ∀ v h', s h = .ok (v, h') → P h') : Keeps P (attempt s) h := by
  intro outcome h' hrun
  rw [attempt] at hrun
  split at hrun
  · rename_i v h₁ heq
    obtain ⟨-, rfl⟩ := Prod.mk.inj (Option.some.inj hrun)
    exact hok v h₁ heq
  · obtain ⟨-, rfl⟩ := Prod.mk.inj (Option.some.inj hrun)
    exact hh

/-- What is computed first is of the heap that it leaves. -/
theorem Keeps.bind {r : Run α} {k : α → Run β} (hr : Keeps P r h)
    (hconfined : Confined .all anyFault f r h)
    (hk : ∀ x h', P h' → Stays .all h (f x) h' → Keeps P (k x) h') : Keeps P (r >>= k) h := by
  intro outcome h' hrun
  rw [bind_apply] at hrun
  split at hrun
  · rename_i x h₁ heq
    exact hk x h₁ (hr _ _ heq) (hconfined _ _ heq).stays outcome h' hrun
  · rename_i e h₁ heq
    obtain ⟨-, rfl⟩ := Prod.mk.inj (Option.some.inj hrun)
    exact hr _ _ heq
  · exact absurd hrun nofun

theorem Keeps.onFault {r : Run α} {c : Fault → Heap → Fault} (hr : Keeps P r h) :
    Keeps P (r.onFault c) h := by
  intro outcome h' hrun
  rw [Run.onFault] at hrun
  split at hrun
  · rename_i e h₁ heq
    obtain ⟨-, rfl⟩ := Prod.mk.inj (Option.some.inj hrun)
    exact hr _ _ heq
  · exact hr _ _ hrun

theorem keeps_heap_bind {k : Heap → Run α} (hk : Keeps P (k h) h) : Keeps P (heap >>= k) h := hk

theorem keeps_contained (hP : Heap.Invariant P) (hh : P h) {v : Value}
    (hv : Knows .all h v.addrs) : Keeps P (contained v) h :=
  keeps_step (hP.contain hh hv)

/-- Calls on values of the heap stay on values of the heap and keep the property. -/
structure Upholds (P : Heap → Prop) (call : List Value → Run Value) : Prop where
  respects : Respects .all anyFault call
  keeps : ∀ vs h, P h → Knows .all h (Value.addrsAll vs) → Keeps P (call vs) h

end Run

variable (hP : Heap.Invariant P)
include hP

/-! ## Bodies -/

mutual

theorem Expr.keeps_eval (hcall : ∀ name, Run.Upholds P (frame.call name)) :
    ∀ (e : Expr) {h : Heap}, P h → Knows .all h (Value.addrsAll frame.arguments) →
      Run.Keeps P (e.eval frame) h
  | .argument i, h, hh, _ => by
    rw [eval]
    split
    · exact Run.keeps_pure hh _
    · exact Run.keeps_stop hh _
  | .constant d, h, hh, _ => by
    rw [eval]
    exact Run.keeps_step (hP.build d hh)
  | .apply op operands, h, hh, hargs => by
    have hoperands := Expr.confined_evalAll passing_anyFault (fun name => (hcall name).respects)
      operands (hP.within hh) hargs
    rw [eval]
    refine (Expr.keeps_evalAll hcall operands hh hargs).bind hoperands fun vs h' hh' hvs => ?_
    exact Run.keeps_attempt hh' fun v h₁ hrun => hP.operation hh' hvs.knows hrun
  | .call name arguments, h, hh, hargs => by
    have harguments := Expr.confined_evalAll passing_anyFault (fun name => (hcall name).respects)
      arguments (hP.within hh) hargs
    rw [eval]
    refine (Expr.keeps_evalAll hcall arguments hh hargs).bind harguments fun vs h' hh' hvs => ?_
    exact (hcall name).keeps vs h' hh' hvs.knows

theorem Expr.keeps_evalAll (hcall : ∀ name, Run.Upholds P (frame.call name)) :
    ∀ (es : List Expr) {h : Heap}, P h → Knows .all h (Value.addrsAll frame.arguments) →
      Run.Keeps P (Expr.evalAll frame es) h
  | [], h, hh, _ => by
    rw [evalAll]
    exact Run.keeps_pure hh []
  | e :: rest, h, hh, hargs => by
    have hrespects := fun name => (hcall name).respects
    have hfirst := Expr.confined_eval passing_anyFault hrespects e (hP.within hh) hargs
    rw [evalAll]
    refine (Expr.keeps_eval hcall e hh hargs).bind hfirst fun v h₁ hh₁ hv => ?_
    have hlater := hargs.after hv.kept.size_le
    have hrest := Expr.confined_evalAll passing_anyFault hrespects rest (hP.within hh₁) hlater
    exact (Expr.keeps_evalAll hcall rest hh₁ hlater).bind hrest fun vs h₂ hh₂ _ =>
      Run.keeps_pure hh₂ _

end

omit hP in
theorem Raised.keeps_throw (places : Precision) (raised : Raised) (v : Value) (hh : P h) :
    Run.Keeps P (raised.throw places v) h := by
  rw [Raised.throw.eq_def]
  split
  · exact Run.keeps_stop hh _
  · split
    · exact Run.keeps_stop hh _
    · refine Run.keeps_heap_bind ?_
      split
      · exact Run.keeps_stop hh _
      · exact Run.keeps_stop hh _

theorem Body.keeps_run (hcall : ∀ name, Run.Upholds P (frame.call name)) (body : Body) (hh : P h)
    (hargs : Knows .all h (Value.addrsAll frame.arguments)) :
    Run.Keeps P (Body.run frame body) h := by
  have hexpr : ∀ (e : Expr) {h : Heap}, P h → Knows .all h (Value.addrsAll frame.arguments) →
      Run.Confined .all anyFault Value.addrs (e.eval frame) h := fun e _ hh hargs =>
    e.confined_eval passing_anyFault (fun name => (hcall name).respects) (hP.within hh) hargs
  induction body generalizing h with
  | nil => exact Run.keeps_pure hh _
  | cons stmt rest ih =>
    cases stmt with
    | give e => exact e.keeps_eval hP hcall hh hargs
    | run e =>
      rw [Body.run]
      exact (e.keeps_eval hP hcall hh hargs).bind (hexpr e hh hargs) fun v h₁ hh₁ hv =>
        ih hh₁ (hargs.after hv.kept.size_le)
    | fail raised e =>
      rw [Body.run]
      exact (e.keeps_eval hP hcall hh hargs).bind (hexpr e hh hargs) fun v h₁ hh₁ _ =>
        raised.keeps_throw frame.places v hh₁
    | failIf condition raised e =>
      rw [Body.run]
      refine (condition.keeps_eval hP hcall hh hargs).bind (hexpr condition hh hargs)
        fun c h₁ hh₁ hc => ?_
      have hlater := hargs.after hc.kept.size_le
      refine Run.keeps_heap_bind ?_
      split
      · exact (e.keeps_eval hP hcall hh₁ hlater).bind (hexpr e hh₁ hlater) fun v h₂ hh₂ _ =>
          raised.keeps_throw frame.places v hh₂
      · exact ih hh₁ hlater

/-! ## Binding -/

theorem Param.keeps_bind (function : String) (position : Nat) (p : Param) {v : Value} (hh : P h)
    (hv : Knows .all h v.addrs) : Run.Keeps P (Run.attempt (p.bind function position v)) h := by
  refine Run.keeps_attempt hh fun n h' heq => ?_
  obtain ⟨w, hw⟩ := Linkage.exists_get?_contain h v
  have hcontainer : (h.contain v).2.kindOf (.ref (h.contain v).1) = .dynamic := kindOf_ref hw
  have htake := hP.take (hP.contain hh hv) p hcontainer
  rw [Param.bind_eq] at heq
  split at heq
  · rw [Except.ok.inj heq] at htake
    exact htake
  · exact absurd heq nofun

theorem keeps_bindAll (function : String) (position : Nat) (ps : List Param) {vs : List Value}
    (hh : P h) (hvs : Knows .all h (Value.addrsAll vs)) :
    Run.Keeps P (bindAll function position ps vs) h := by
  have hslots : ∀ p : Param, p.binding = .exclusive → ∀ a, Territory.all.slots a :=
    fun _ _ _ => trivial
  induction ps generalizing position vs h with
  | nil => exact Run.keeps_pure hh _
  | cons p ps ih =>
    cases vs with
    | nil => exact Run.keeps_pure hh _
    | cons v vs =>
      obtain ⟨hv, hvs⟩ := knows_append_iff.mp hvs
      have hfirst := p.confined_bind function position (hP.within hh) hv (hslots p)
      rw [bindAll]
      refine (p.keeps_bind hP function position hh hv).bind hfirst fun n h₁ hh₁ hn => ?_
      have hlater := hvs.after hn.kept.size_le
      have hrest := confined_bindAll function (position + 1) (fun q (_ : q ∈ ps) => hslots q)
        (hP.within hh₁) hlater
      exact (ih (position + 1) hh₁ hlater).bind hrest fun ns h₂ hh₂ _ => Run.keeps_pure hh₂ _

theorem keeps_containAll {vs : List Value} (hh : P h) (hvs : Knows .all h (Value.addrsAll vs)) :
    Run.Keeps P (containAll vs) h := by
  induction vs generalizing h with
  | nil => exact Run.keeps_pure hh _
  | cons v vs ih =>
    obtain ⟨hv, hvs⟩ := knows_append_iff.mp hvs
    have hfirst : Run.Confined .all anyFault Value.addrs (Run.contained v) h :=
      Run.confined_contained (hP.within hh) hv
    rw [containAll]
    refine (Run.keeps_contained hP hh hv).bind hfirst fun c h₁ hh₁ hc => ?_
    have hlater := hvs.after hc.kept.size_le
    have hrest : Run.Confined .all anyFault Value.addrsAll (containAll vs) h₁ :=
      confined_containAll (hP.within hh₁) hlater
    exact (ih hh₁ hlater).bind hrest fun cs h₂ hh₂ _ => Run.keeps_pure hh₂ _

/-! ## Calls -/

namespace Linkage

variable {link : Linkage} {depth : Nat} {f : Native}

omit hP in
theorem licensed_all (link : Linkage) : link.Licensed .all := fun _ _ _ _ _ _ _ _ _ => trivial

/-- A call by name keeps the property if the invocation of whatever it finds does. -/
theorem upholds_callWith {engine : EngineId} {name : String}
    (hinvoke : ∀ f, Run.Upholds P (link.invoke depth f)) :
    Run.Upholds P (link.callWith (link.invoke depth) engine name) where
  respects := respects_call link.licensed_all depth engine name
  keeps vs h hh hvs := by
    have hcontained : Run.Confined .all anyFault Value.addrsAll (containAll vs) h :=
      confined_containAll (hP.within hh) hvs
    rw [callWith]
    refine (keeps_containAll hP hh hvs).bind hcontained fun cs h₁ hh₁ hcs => ?_
    refine Run.keeps_heap_bind ?_
    dsimp only
    split
    · exact (hinvoke _).keeps cs h₁ hh₁ hcs.knows
    · exact Run.keeps_stop hh₁ _

/-- The calls of a body keep the property if invocations do. -/
theorem upholds_answer (hinvoke : ∀ f, Run.Upholds P (link.invoke depth f)) (f : Native)
    (name : String) : Run.Upholds P (link.answer depth f name) := by
  have hcall : ∀ engine, Run.Upholds P (link.callWith (link.invoke depth) engine name) :=
    fun _ => upholds_callWith hP hinvoke
  refine ⟨fun vs h hT hvs => ?_, fun vs h hh hvs => ?_⟩
  · rw [answer]
    split
    · exact (hcall _).respects vs h hT hvs
    · exact Run.confined_stop hT (by simpa using knows_nil .all h) trivial
  · rw [answer]
    split
    · exact (hcall _).keeps vs h hh hvs
    · exact Run.keeps_stop hh _

/-- **An invocation keeps the property**, however deep it nests. -/
theorem upholds_invoke (depth : Nat) (f : Native) : Run.Upholds P (link.invoke depth f) := by
  have hlicensed : f.Licensed .all := fun _ _ _ _ => trivial
  refine ⟨respects_invoke link.licensed_all depth hlicensed, ?_⟩
  induction depth generalizing f with
  | zero => exact fun vs h _ _ _ _ hrun => absurd hrun nofun
  | succ depth ih =>
    have hinvoke : ∀ g, Run.Upholds P (link.invoke depth g) := fun g =>
      ⟨respects_invoke link.licensed_all depth fun _ _ _ _ => trivial, ih g fun _ _ _ _ => trivial⟩
    intro vs h hh hvs
    rw [invoke_succ]
    split
    · exact Run.keeps_stop hh _
    · have hbound := confined_bindAll f.name 1 hlicensed (hP.within hh) hvs
      refine (keeps_bindAll hP f.name 1 f.params hh hvs).bind hbound fun ns h₁ hh₁ hns => ?_
      have hanswer := upholds_answer hP hinvoke f
      have hbody : Run.Confined .all anyFault Value.addrs
          (Body.run (link.frame depth f ns) f.body) h₁ :=
        Body.confined_run passing_anyFault (fun name => (hanswer name).respects) f.body hns.within
          hns.knows
      have hkeeps : Run.Keeps P (Body.run (link.frame depth f ns) f.body) h₁ :=
        Body.keeps_run hP hanswer f.body hh₁ hns.knows
      rw [serve, ← frame]
      refine hkeeps.onFault.bind (hbody.onFault (escape_addrs link.places f)
        (escape_passing passing_anyFault link.places f)) fun result h₂ hh₂ hresult => ?_
      exact Run.keeps_contained hP hh₂ hresult.knows

/-- **A call by name keeps the property.** -/
theorem upholds_call (depth : Nat) (engine : EngineId) (name : String) :
    Run.Upholds P (link.call depth engine name) :=
  upholds_callWith hP (upholds_invoke hP depth)

end Linkage

/-! ## Calls in between -/

/-- A call by name, and the heap in which it is made. -/
structure Request where
  engine : EngineId
  name : String
  arguments : List Value
  heap : Heap

/-- A request in whose heap the property holds, on values of the heap. -/
structure Request.Upholds (P : Heap → Prop) (r : Request) : Prop where
  holds : P r.heap
  knows : Knows .all r.heap (Value.addrsAll r.arguments)

/-- Invoking a function, with so many calls that may be open at once, comes to a request: the body
of the function makes it, or the invocation of a function that a call of the body has found comes
to it. -/
inductive Linkage.Asks (link : Linkage) (r : Request) : Nat → Native → List Value → Heap → Prop
  | itself {depth : Nat} {f : Native} {values natives : List Value} {h h₁ : Heap}
      (hbinds : f.Binds values h natives h₁) (hhome : f.home = some r.engine)
      (hbody : Body.Calls (link.frame depth f natives) r.name r.arguments r.heap f.body h₁) :
      Asks link r (depth + 1) f values h
  | nested {depth : Nat} {f g : Native} {home : EngineId} {callee : String}
      {values natives passed contained : List Value} {h h₁ h₂ h₃ : Heap}
      (hbinds : f.Binds values h natives h₁) (hhome : f.home = some home)
      (hbody : Body.Calls (link.frame depth f natives) callee passed h₂ f.body h₁)
      (hfinds : link.Finds home callee passed h₂ g contained h₃)
      (hrest : Asks link r depth g contained h₃) : Asks link r (depth + 1) f values h

/-- Where evaluation of an expression comes to a call, the property holds. -/
theorem Expr.holds_of_calls (hcall : ∀ name, Run.Upholds P (frame.call name)) {e : Expr}
    {name : String} {vs : List Value} (hcalls : e.Calls frame name vs g h) (hh : P h)
    (hargs : Knows .all h (Value.addrsAll frame.arguments)) :
    P g ∧ Knows .all g (Value.addrsAll vs) := by
  have hbefore : ∀ {es : List Expr} {ws : List Value} {h h₁ : Heap}, P h →
      Knows .all h (Value.addrsAll frame.arguments) →
      Expr.evalAll frame es h = some (.ok ws, h₁) →
        P h₁ ∧ Stays .all h (Value.addrsAll ws) h₁ := fun {es} _ _ _ hh hargs hrun =>
    ⟨Expr.keeps_evalAll hP hcall es hh hargs _ _ hrun,
      (Expr.confined_evalAll passing_anyFault (fun name => (hcall name).respects) es
        (hP.within hh) hargs _ _ hrun).stays⟩
  induction hcalls with
  | here harguments =>
    obtain ⟨hg, hstays⟩ := hbefore hh hargs harguments
    exact ⟨hg, hstays.knows⟩
  | argument hrun _ ih =>
    obtain ⟨hh₁, hstays⟩ := hbefore hh hargs hrun
    exact ih hh₁ (hargs.after hstays.kept.size_le)
  | operand hrun _ ih =>
    obtain ⟨hh₁, hstays⟩ := hbefore hh hargs hrun
    exact ih hh₁ (hargs.after hstays.kept.size_le)

theorem Body.holds_of_calls (hcall : ∀ name, Run.Upholds P (frame.call name)) {body : Body}
    {name : String} {vs : List Value} (hcalls : Body.Calls frame name vs g body h) (hh : P h)
    (hargs : Knows .all h (Value.addrsAll frame.arguments)) :
    P g ∧ Knows .all g (Value.addrsAll vs) := by
  have hbefore : ∀ {e : Expr} {v : Value} {h h₁ : Heap}, P h →
      Knows .all h (Value.addrsAll frame.arguments) → e.eval frame h = some (.ok v, h₁) →
        P h₁ ∧ Knows .all h₁ (Value.addrsAll frame.arguments) := fun {e} _ _ _ hh hargs hrun =>
    ⟨Expr.keeps_eval hP hcall e hh hargs _ _ hrun,
      hargs.after (Expr.confined_eval passing_anyFault (fun name => (hcall name).respects) e
        (hP.within hh) hargs _ _ hrun).stays.kept.size_le⟩
  induction hcalls with
  | first hfirst => exact Expr.holds_of_calls hP hcall hfirst hh hargs
  | raising hcondition _ he =>
    obtain ⟨hh₁, hlater⟩ := hbefore hh hargs hcondition
    exact Expr.holds_of_calls hP hcall he hh₁ hlater
  | later hstmt _ ih =>
    cases hstmt with
    | run he =>
      obtain ⟨hh₁, hlater⟩ := hbefore hh hargs he
      exact ih hh₁ hlater
    | failIf hcondition _ =>
      obtain ⟨hh₁, hlater⟩ := hbefore hh hargs hcondition
      exact ih hh₁ hlater

namespace Linkage

variable {link : Linkage} {depth : Nat} {f : Native} {values : List Value}

theorem holds_of_binds {natives : List Value} (hbinds : f.Binds values h natives h') (hh : P h)
    (hvalues : Knows .all h (Value.addrsAll values)) :
    P h' ∧ Knows .all h' (Value.addrsAll natives) := by
  have hlicensed : f.Licensed .all := fun _ _ _ _ => trivial
  exact ⟨keeps_bindAll hP f.name 1 f.params hh hvalues _ _ hbinds.bound,
    (confined_bindAll f.name 1 hlicensed (hP.within hh) hvalues _ _ hbinds.bound).stays.knows⟩

theorem holds_of_contained {vs cs : List Value} (hrun : containAll vs h = some (.ok cs, h'))
    (hh : P h) (hvs : Knows .all h (Value.addrsAll vs)) :
    P h' ∧ Knows .all h' (Value.addrsAll cs) := by
  have hconfined : Run.Confined .all anyFault Value.addrsAll (containAll vs) h :=
    confined_containAll (hP.within hh) hvs
  exact ⟨keeps_containAll hP hh hvs _ _ hrun, (hconfined _ _ hrun).stays.knows⟩

/-- **The property holds in the heap of every call that an invocation comes to**, and the call is
made on values of the heap. -/
theorem Asks.upholds {r : Request} (hasks : link.Asks r depth f values h) (hh : P h)
    (hvalues : Knows .all h (Value.addrsAll values)) : r.Upholds P := by
  induction hasks with
  | itself hbinds _ hbody =>
    obtain ⟨hh₁, hnatives⟩ := holds_of_binds hP hbinds hh hvalues
    obtain ⟨hr, hknows⟩ := Body.holds_of_calls hP
      (upholds_answer hP (upholds_invoke hP _) _) hbody hh₁ hnatives
    exact ⟨hr, hknows⟩
  | nested hbinds _ hbody hfinds _ ih =>
    obtain ⟨hh₁, hnatives⟩ := holds_of_binds hP hbinds hh hvalues
    obtain ⟨hh₂, hpassed⟩ := Body.holds_of_calls hP
      (upholds_answer hP (upholds_invoke hP _) _) hbody hh₁ hnatives
    obtain ⟨hh₃, hcontained⟩ := holds_of_contained hP hfinds.contained hh₂ hpassed
    exact ih hh₃ hcontained

end Linkage
end ScriptHost
