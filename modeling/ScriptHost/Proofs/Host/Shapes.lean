import ScriptHost.Proofs.Call.Failure
import ScriptHost.Proofs.Call.Isolation
import ScriptHost.Proofs.Function.Shape
import ScriptHost.Proofs.Host.Packages

/-!
# What registrations promise about shapes

A host registers functions by routes that fix part of the shape: accessors are methods with so many
parameters, a registration into a table can fix the style, or the style and the number of
parameters.  What is stored keeps the promise, and so does every native function that is made with
a forced style, but for one case.

* `ShapeRequest.Obtains r s f`: what a forced style comes to, and `Host.obtains_forced`: every
  function that is made with a forced style, alone or as a registration.
* `Accessor.Promises a f`, `Host.keeps_shapes`: every native function is well-shaped, and what is
  stored as an accessor or with a fixed shape has that shape.
-/

namespace ScriptHost

open Heap

/-! ## Forced styles -/

/-- A forced style is obtained: a method has a receiver, and a function of the pure style has none
and gets copies only.  A first parameter without an annotation is a reference all the same. -/
structure ShapeRequest.Obtains (r : ShapeRequest) (s : CallStyle) (f : Native) : Prop where
  style : f.style = s ↔ ¬ (s = .pure ∧ r.LeavesFirst)
  method : s = .method →
    ∃ p ps, f.params = p :: ps ∧ (p.binding = .reference ∨ p.binding = .exclusive)
  pure : s = .pure → ¬ r.LeavesFirst →
    ∀ p ∈ f.params, p.binding = .value ∨ p.binding = .dynamic
  /-- Whatever the body gets reaches new cells only. -/
  copied : s = .pure → ¬ r.LeavesFirst → ∀ {h h' values natives}, h.Closed →
    (∀ v ∈ values, h.Holds v) → f.Binds values h natives h' →
      ∀ a, Reaches h' (Value.addrsAll natives) a → h.size ≤ a
  left : s = .pure → r.LeavesFirst →
    ∃ p ps k, f.params = p :: ps ∧ r.receiver = some k ∧ p.kind = k ∧ p.binding = .reference

namespace Binding

theorem isReceiver_iff {b : Binding} : b.isReceiver = true ↔ b = .reference ∨ b = .exclusive := by
  cases b <;> simp [isReceiver]

theorem not_isReceiver_iff {b : Binding} :
    b.isReceiver = false ↔ b = .value ∨ b = .dynamic := by
  cases b <;> simp [isReceiver]

end Binding

namespace Native

variable {r : ShapeRequest} {f : Native} {s : CallStyle}

/-- The values of a body reach new cells only, if its function has no receiver. -/
theorem le_of_pure {h h' : Heap} {values natives : List Value} {a : Addr}
    (hmade : ofHost r = .ok f) (hstyle : f.style = .pure) (hclosed : h.Closed)
    (hheld : ∀ v ∈ values, h.Holds v) (hbinds : f.Binds values h natives h')
    (ha : Reaches h' (Value.addrsAll natives) a) : h.size ≤ a := by
  rcases le_or_reaches_lent hclosed hheld hbinds.bound ha with hnew | hlent
  · exact hnew
  · rw [lent_of_pure hmade hstyle] at hlent
    exact (hlent.closed_under (P := fun _ => False) (fun _ hr => List.not_mem_nil hr)
      fun _ => False.elim).elim

theorem obtains_of_ofHost (hmade : ofHost r = .ok f) (hs : r.style = some s) : r.Obtains s f := by
  have hstyle := style_eq_iff hmade hs
  refine ⟨hstyle, ?_, ?_, ?_, ?_⟩
  · rintro rfl
    have hmethod : f.style = .method := hstyle.mpr fun hleaves => absurd hleaves.1 nofun
    obtain ⟨p, ps, hparams, hreceiver, -⟩ := exists_receiver_of_method hmade hmethod
    exact ⟨p, ps, hparams, Binding.isReceiver_iff.mp hreceiver⟩
  · rintro rfl hfirst p hp
    have hpure : f.style = .pure := hstyle.mpr fun hleaves => hfirst hleaves.2
    exact Binding.not_isReceiver_iff.mp (not_isReceiver_of_pure hmade hpure p hp)
  · rintro rfl hfirst h h' values natives hclosed hheld hbinds a ha
    have hpure : f.style = .pure := hstyle.mpr fun hleaves => hfirst hleaves.2
    exact le_of_pure hmade hpure hclosed hheld hbinds ha
  · rintro rfl hfirst
    obtain ⟨g, given, hints, ps, hyields⟩ := ofHost_eq_ok_iff.mp hmade
    obtain ⟨p, rest, k, rfl, hreceiver, hkind, hreference⟩ :=
      hyields.exists_reference_of_leavesFirst hfirst
    have hstyled := hyields.styled
    rw [hs] at hstyled
    generalize f.params = qs at hstyled ⊢
    cases hstyled with
    | pure _ => exact ⟨p, rest, k, rfl, hreceiver, hkind, hreference⟩

end Native

/-! ## Registrations -/

/-- What is asked for by a registration whose shape is free. -/
def Entry.request (e : Entry) (style : Option CallStyle) (fallible : Bool) (receiver : Option Kind)
    (limit : Except ConvertError Int) (home : Option EngineId) : ShapeRequest :=
  ⟨e.name, e.callable, givenTypes e.types, style, fallible, receiver, limit, home⟩

theorem Entry.toNative_of_free {e : Entry} {style : Option CallStyle} {fallible : Bool}
    {receiver : Option Kind} {limit : Except ConvertError Int} {home : Option EngineId}
    (hform : e.form = .free style fallible receiver) :
    e.toNative limit home = Native.ofHost (e.request style fallible receiver limit home) := by
  rw [toNative, hform]
  rfl

/-- A registration that fixes the shape makes a function of that shape. -/
theorem Entry.shape_of_toNative {e : Entry} {n : Nat} {style : CallStyle} {f : Native}
    {limit : Except ConvertError Int} {home : Option EngineId} (hform : e.form = .fixed n style)
    (hf : e.toNative limit home = .ok f) : f.style = style ∧ f.arity = n := by
  rw [toNative, hform] at hf
  obtain ⟨g, hmade, harity⟩ := Except.bind_eq_ok.mp hf
  obtain ⟨rfl, hcount⟩ := Native.withArity_eq_ok.mp harity
  have hobtains := Native.obtains_of_ofHost hmade rfl
  refine ⟨hobtains.style.mpr fun hleaves => ?_, hcount⟩
  -- No kind is supplied for the first parameter, so it cannot be left without an annotation.
  obtain ⟨_, _, _, -, hreceiver, -, -⟩ := hobtains.left hleaves.1 hleaves.2
  cases hreceiver

/-- The function has the name and the shape of an accessor. -/
structure Accessor.Promises (a : Accessor) (f : Native) : Prop where
  name : f.name = a.functionName
  style : f.style = .method
  arity : f.arity = a.arity

theorem Member.promises_of_toNative {m : Member} {a : Accessor} {f : Native} {site : Site}
    (hrole : m.role = .inl a) (hf : m.toNative site = .ok f) : a.Promises f := by
  rw [toNative, hrole] at hf
  obtain ⟨g, hmade, harity⟩ := Except.bind_eq_ok.mp hf
  obtain ⟨rfl, hcount⟩ := Native.withArity_eq_ok.mp harity
  have hobtains := Native.obtains_of_ofHost hmade rfl
  refine ⟨Native.name_of_ofHost hmade, hobtains.style.mpr fun hpure => ?_, hcount⟩
  cases hpure.1

namespace Act

variable {s s' : Host} {f : Native} {m : Member} {a : Accessor} {e : EngineId}
  {receiver : Option Kind} {verb : String}

/-- The function of an accessor keeps the promise, and it is made without changing the state. -/
theorem promises_of_makeMember (hrole : m.role = .inl a)
    (hmade : makeMember e verb receiver m s = (.ok f, s')) : a.Promises f ∧ s' = s := by
  rw [makeMember_apply] at hmade
  obtain ⟨hf, rfl⟩ := Prod.mk.inj hmade
  obtain ⟨_, -, hf⟩ := Except.bind_eq_ok.mp hf
  exact ⟨Member.promises_of_toNative hrole hf, rfl⟩

/-- An accessor is registered by registering a function that keeps the promise. -/
theorem exists_register_of_registerMember (hrole : m.role = .inl a)
    (hdone : registerMember e receiver m s = (.ok (), s')) :
    ∃ f, a.Promises f ∧ register (s.engine e).own f s = (.ok (), s') := by
  rw [registerMember, bind_eq_ok_iff] at hdone
  obtain ⟨f, t, hmade, hregister⟩ := hdone
  obtain ⟨hpromises, rfl⟩ := promises_of_makeMember hrole hmade
  exact ⟨f, hpromises, hregister⟩

/-- An accessor is collected by collecting a function that keeps the promise. -/
theorem exists_pending_of_addMember {b : BuilderId} (hrole : m.role = .inl a)
    (hdone : addMember b m s = (.ok (), s')) :
    ∃ state f, s.builders[b]? = some state ∧ a.Promises f ∧
      s' = s.setBuilder b { state with pending := state.pending ++ [f] } := by
  rcases addMember_cases b m s with ⟨x, hfailed⟩ | ⟨state, f, hstate, -, hmade, hadded⟩
  · exact absurd (hfailed.symm.trans hdone) nofun
  · refine ⟨state, f, hstate, (promises_of_makeMember hrole hmade).1, ?_⟩
    exact (Prod.mk.inj (hadded.symm.trans hdone)).2.symm

end Act

/-! ## What is kept -/

namespace Host

/-- A native function is made for a request, alone or as a registration into a table. -/
inductive Makes : ShapeRequest → Native → Prop where
  | alone {r : ShapeRequest} {f : Native} : Native.ofHost r = .ok f → Makes r f
  | entered {t : TableId} {home : Option EngineId} {e : Entry} {s s' : Host} {f : Native}
    {style : Option CallStyle} {fallible : Bool} {receiver : Option Kind} :
    e.form = .free style fallible receiver → Act.enter t home e s = (.ok f, s') →
      Makes (e.request style fallible receiver s.config.maxArity home) f

/-- **A forced style is obtained**, whether a function is made alone or as a registration into a
table. -/
theorem obtains_forced {r : ShapeRequest} {f : Native} {s : CallStyle} (hmakes : Makes r f)
    (hs : r.style = some s) : r.Obtains s f := by
  cases hmakes with
  | alone hmade => exact Native.obtains_of_ofHost hmade hs
  | entered hform hdone =>
    have hmade := (Act.enter_eq_ok_iff.mp hdone).1
    rw [Entry.toNative_of_free hform] at hmade
    exact Native.obtains_of_ofHost hmade hs

/-- A body that puts a number at the end of its argument. -/
def numberBody : Body := [.run (.apply .push [.argument 0, .constant (.scalar (.int 1))])]

/-- A host function that leaves its parameter without an annotation. -/
def numberFunction : HostFunction :=
  ⟨[⟨"items", none, .positional, false⟩], none, numberBody, .usual⟩

/-- A request for the pure style, with a kind for a parameter that is left without one. -/
def numberRequest : ShapeRequest where
  name := "number"
  callable := .function numberFunction
  types := none
  style := some .pure
  fallible := false
  receiver := some .array
  limit := .ok 20
  home := none

/-- A registration in the pure style that gives the type. -/
def numberEntry : Entry :=
  ⟨none, "number", .function numberFunction, [some (.kind .array)], .free (some .pure) false
    (some .array)⟩

/-- The parameter is borrowed where it is left without a type, and copied where one is given. -/
theorem obtains_forced_number :
    (∃ f, Makes numberRequest f ∧ f.style = .method ∧ numberRequest.Obtains .pure f) ∧
    ∃ f r, Makes r f ∧ r.style = some .pure ∧ f.style = .pure ∧ r.Obtains .pure f := by
  have halone : Native.ofHost numberRequest = .ok _ := rfl
  have henter : Act.enter 0 none numberEntry (Host.initial.after [.newTable none]) = (.ok _, _) :=
    rfl
  have hentered := Makes.entered (e := numberEntry) rfl henter
  exact ⟨⟨_, .alone halone, rfl, obtains_forced (.alone halone) rfl⟩,
    ⟨_, _, hentered, rfl, rfl, obtains_forced hentered rfl⟩⟩

/-- The pure style is asked for, and a method is obtained. -/
theorem not_obtained_pure :
    ¬ ∀ r f s, Native.ofHost r = .ok f → r.style = some s → f.style = s := by
  intro hall
  have hpure := hall numberRequest
    ⟨"number", [⟨"items", .array, .reference⟩], false, none, numberBody, none⟩ .pure rfl rfl
  exact absurd hpure nofun

/-- **Every native function is well-shaped, and what is stored has the shape that was promised.** -/
theorem keeps_shapes :
    (∀ r f, Native.ofHost r = .ok f → ∃ g, r.callable = .function g ∧ r.WellShaped g f) ∧
      (∀ e receiver m a s s', m.role = .inl a →
        Act.registerMember e receiver m s = (.ok (), s') →
          ∃ f, a.Promises f ∧ Act.register (s.engine e).own f s = (.ok (), s')) ∧
      (∀ b m a s s', m.role = .inl a → Act.addMember b m s = (.ok (), s') →
        ∃ state f, s.builders[b]? = some state ∧ a.Promises f ∧
          s' = s.setBuilder b { state with pending := state.pending ++ [f] }) ∧
      ∀ t home e n style f s s', e.form = .fixed n style → Act.enter t home e s = (.ok f, s') →
        f.style = style ∧ f.arity = n ∧ Act.register t f s = (.ok (), s') := by
  refine ⟨fun r f => Native.wellShaped_of_ofHost, ?_, ?_, ?_⟩
  · exact fun e receiver m a s s' => Act.exists_register_of_registerMember
  · exact fun b m a s s' => Act.exists_pending_of_addMember
  · intro t home e n style f s s' hform hdone
    obtain ⟨hmade, hregister⟩ := Act.enter_eq_ok_iff.mp hdone
    obtain ⟨hstyle, harity⟩ := Entry.shape_of_toNative hform hmade
    exact ⟨hstyle, harity, hregister⟩

/-- An accessor that reads a field of its receiver. -/
def reader : Member where
  role := .inl (.getter "x")
  fallible := false
  callable := .function
    ⟨[⟨"self", none, .positional, false⟩], none, [.give (.apply (.field "x") [.argument 0])],
      .usual⟩
  types := []

/-- An engine, and an open builder for points. -/
def drawing : Host :=
  Host.initial.after [.newEngine (some .all) false, .openBuilder 0 (.object "Point")]

/-- A function of three parameters, an accessor of an engine and of a builder, and a method with
one parameter. -/
theorem keeps_shapes_drawing :
    (Native.ofHost linkRequest = .ok linkNative ∧
      ∃ g, linkRequest.callable = .function g ∧ linkRequest.WellShaped g linkNative) ∧
    (∃ s', Act.registerMember 0 (some (.object "Point")) reader drawing = (.ok (), s') ∧
      ∃ f, (Accessor.getter "x").Promises f ∧
        Act.register (drawing.engine 0).own f drawing = (.ok (), s')) ∧
    (∃ s', Act.addMember 0 reader drawing = (.ok (), s') ∧
      ∃ state f, drawing.builders[0]? = some state ∧ (Accessor.getter "x").Promises f ∧
        s' = drawing.setBuilder 0 { state with pending := state.pending ++ [f] }) ∧
    ∃ f s', Act.enter 0 none { numberEntry with form := .fixed 1 .method } drawing = (.ok f, s') ∧
      f.style = .method ∧ f.arity = 1 ∧ Act.register 0 f drawing = (.ok (), s') := by
  obtain ⟨haccepted, hregistered, hcollected, hentered⟩ := keeps_shapes
  have hregister : Act.registerMember 0 (some (.object "Point")) reader drawing = (.ok (), _) := rfl
  have hadd : Act.addMember 0 reader drawing = (.ok (), _) := rfl
  have henter : Act.enter 0 none { numberEntry with form := .fixed 1 .method } drawing =
    (.ok _, _) := rfl
  exact ⟨⟨rfl, haccepted linkRequest linkNative rfl⟩,
    ⟨_, hregister, hregistered 0 _ reader (.getter "x") drawing _ rfl hregister⟩,
    ⟨_, hadd, hcollected 0 reader (.getter "x") drawing _ rfl hadd⟩,
    ⟨_, _, henter, hentered 0 none _ 1 .method _ drawing _ rfl henter⟩⟩

end Host
end ScriptHost
