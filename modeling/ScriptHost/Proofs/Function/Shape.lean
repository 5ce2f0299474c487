import ScriptHost.Proofs.Function.Hints
import ScriptHost.Proofs.Function.Receiver

/-!
# The shape of a native function

What the parameters of a native function are like, and which style it has, is settled when it is
made.  Binding relies on it at every call.

The style is not stored: it is read off the first parameter.  A style that is asked for is obtained
but for one case.  A first parameter that is left without an annotation becomes a reference of the
supplied kind, and asking for the pure style does not prevent it.

* `ShapeRequest.WellShaped r g f`: the parameters of `f` are the positional ones of `g`, not too
  many, and each has a kind that goes with its binding; `Native.wellShaped_of_ofHost`.
* `ShapeRequest.LeavesFirst r`: the first parameter is left without an annotation.
* `Native.style_eq_iff`: which forced style is obtained.
-/

namespace ScriptHost

/-! ## What a binding says about the annotation -/

namespace Param.Reads

variable {name : String} {receiver : Option Kind} {first : Bool} {hint : Option TypeHint}
  {p : Param}

theorem kind_of_dynamic (hreads : Reads name receiver first hint p)
    (hp : p.binding = .dynamic) : p.kind = .dynamic := by
  cases hreads with
  | dynamic _ _ => rfl
  | _ => exact absurd hp nofun

/-- A parameter by value has the kind of its annotation, which is known and no handle. -/
theorem exists_of_value (hreads : Reads name receiver first hint p) (hp : p.binding = .value) :
    ∃ a, hint = some a ∧ a.kindOf = .ok p.kind ∧ p.kind ≠ .dynamic ∧ p.kind ≠ .handle := by
  cases hreads with
  | value ha hk hdynamic => exact ⟨_, rfl, hk, hdynamic, TypeHint.ne_handle_of_kindOf ha hk⟩
  | _ => exact absurd hp nofun

/-- A reference comes from an annotation that is missing, and only from that. -/
theorem reference_iff (hreads : Reads name receiver first hint p) :
    p.binding = .reference ↔ hint = none := by
  cases hreads <;> simp

end Param.Reads

namespace ShapeRequest

variable {r : ShapeRequest} {g : HostFunction} {given : List HostParameter}
  {hints : List (String × TypeHint)} {ps : List Param} {f : Native}

namespace Yields

theorem names_eq (hyields : r.Yields g given hints ps f) :
    f.params.map (·.name) = (g.parameters.filter (·.isPositional)).map (·.name) := by
  rw [hyields.styled.map_name_eq, (forall_reads_of_params hyields.read).1,
    HostFunction.positional_eq_filter hyields.positional]

theorem arity_eq (hyields : r.Yields g given hints ps f) : f.arity = given.length := by
  have hlength := congrArg List.length hyields.names_eq
  rwa [List.length_map, List.length_map, ← HostFunction.positional_eq_filter hyields.positional]
    at hlength

/-- A parameter is read from its annotation, unless the style makes it a reference. -/
theorem reads_or_reference (hyields : r.Yields g given hints ps f) {i : Nat} {p : Param}
    (hp : f.params[i]? = some p) :
    Param.Reads p.name r.receiver (i == 0) (r.annotation? hints i p.name) p ∨
      p.binding = .reference := by
  obtain ⟨q, hq, -, -, heq | hreference⟩ := hyields.styled.getElem?_eq_some hp
  · have hreads := (forall_reads_of_params hyields.read).2 i q hq
    rw [Nat.zero_add] at hreads
    rw [heq]
    exact .inl hreads
  · exact .inr hreference

end Yields

/-! ## Well-shaped functions -/

/-- The parameters of `f` are those of `g` that arguments are counted by, and each has a kind that
goes with its binding. -/
structure WellShaped (r : ShapeRequest) (g : HostFunction) (f : Native) : Prop where
  names : f.params.map (·.name) = (g.parameters.filter (·.isPositional)).map (·.name)
  bounded : ∃ limit, r.limit = .ok limit ∧ (f.arity : Int) ≤ limit
  /-- Only the first parameter can be a receiver. -/
  receiver : ∀ p ∈ f.params.tail, p.binding.isReceiver = false
  dynamic : ∀ p ∈ f.params, p.binding = .dynamic → p.kind = .dynamic
  value : ∀ p ∈ f.params, p.binding = .value → p.kind ≠ .dynamic ∧ p.kind ≠ .handle
  /-- The kind of a parameter by value is that of its annotation, which is no union. -/
  annotated : ∃ hints, TypeHint.resolveTogether g.scope g.hints = .ok hints ∧
    ∀ i p, f.params[i]? = some p → p.binding = .value →
      ∃ a, r.annotation? hints i p.name = some a ∧ a.kindOf = .ok p.kind ∧
        ∀ named ms, a ≠ .union named ms

end ShapeRequest

open ShapeRequest

/-- A native function that is made of a host function is well-shaped. -/
theorem Native.wellShaped_of_ofHost {r : ShapeRequest} {f : Native} (hmade : ofHost r = .ok f) :
    ∃ g, r.callable = .function g ∧ r.WellShaped g f := by
  obtain ⟨g, given, hints, ps, hyields⟩ := ofHost_eq_ok_iff.mp hmade
  have hvalue : ∀ {i p}, f.params[i]? = some p → p.binding = .value → ∃ a,
      r.annotation? hints i p.name = some a ∧ a.kindOf = .ok p.kind ∧ p.kind ≠ .dynamic ∧
        p.kind ≠ .handle := by
    intro i p hp hbinding
    rcases hyields.reads_or_reference hp with hreads | hreference
    · exact hreads.exists_of_value hbinding
    · exact absurd (hbinding.symm.trans hreference) nofun
  refine ⟨g, hyields.callable, hyields.names_eq, ?_, not_isReceiver_of_mem_tail hmade, ?_, ?_, ?_⟩
  · obtain ⟨limit, hlimit, hle⟩ := le_limit_of_checkCount hyields.counted
    exact ⟨limit, hlimit, by rwa [hyields.arity_eq]⟩
  · intro p hp hbinding
    obtain ⟨i, hi⟩ := List.mem_iff_getElem?.mp hp
    rcases hyields.reads_or_reference hi with hreads | hreference
    · exact hreads.kind_of_dynamic hbinding
    · exact absurd (hbinding.symm.trans hreference) nofun
  · intro p hp hbinding
    obtain ⟨i, hi⟩ := List.mem_iff_getElem?.mp hp
    obtain ⟨a, -, -, hkind⟩ := hvalue hi hbinding
    exact hkind
  · refine ⟨hints, hyields.resolved, fun i p hp hbinding => ?_⟩
    obtain ⟨a, ha, hk, -⟩ := hvalue hp hbinding
    exact ⟨a, ha, hk, TypeHint.ne_union_of_kindOf hk⟩

/-! ## The style that is obtained -/

/-- The first parameter is left without an annotation. -/
def ShapeRequest.LeavesFirst (r : ShapeRequest) : Prop :=
  ∃ g p rest, r.callable = .function g ∧ g.parameters.filter (·.isPositional) = p :: rest ∧
    r.explicit? 0 = none ∧ g.hints.lookup p.name = none

namespace Native

variable {r : ShapeRequest} {f : Native} {s : CallStyle}

/-- A method has a receiver. -/
theorem style_eq_method_iff :
    f.style = .method ↔ ∃ p ps, f.params = p :: ps ∧ p.binding.isReceiver = true := by
  rw [style]
  split
  · rename_i p ps hparams
    rw [hparams]
    by_cases hp : p.binding.isReceiver <;> simp [hp]
  · rename_i hparams
    rw [hparams]
    simp

/-- The style of methods is always obtained: a first parameter that is no receiver is made one. -/
theorem style_of_styled_method {ps : List Param} (hstyled : Styled (some .method) ps f.params) :
    f.style = .method := by
  rw [style_eq_method_iff]
  generalize f.params = qs at hstyled
  cases hstyled with
  | method hp => exact ⟨_, _, rfl, hp⟩
  | borrowed _ => exact ⟨_, _, rfl, rfl⟩

end Native

namespace ShapeRequest.Yields

variable {r : ShapeRequest} {g : HostFunction} {given : List HostParameter}
  {hints : List (String × TypeHint)} {ps : List Param} {f : Native}

theorem annotation?_eq_none_iff (hyields : r.Yields g given hints ps f) {i : Nat} {name : String} :
    r.annotation? hints i name = none ↔ r.explicit? i = none ∧ g.hints.lookup name = none := by
  rw [annotation?, Option.or_eq_none_iff,
    TypeHint.lookup_resolveTogether_eq_none_iff hyields.resolved]

theorem leavesFirst_iff (hyields : r.Yields g given hints ps f) :
    r.LeavesFirst ↔ ∃ p rest, given = p :: rest ∧ r.annotation? hints 0 p.name = none := by
  have hgiven := HostFunction.positional_eq_filter hyields.positional
  constructor
  · rintro ⟨g', p, rest, hg', hfilter, hnone⟩
    obtain rfl := Callable.function.inj (hyields.callable.symm.trans hg')
    exact ⟨p, rest, hgiven.trans hfilter, hyields.annotation?_eq_none_iff.mpr hnone⟩
  · rintro ⟨p, rest, rfl, hnone⟩
    exact ⟨g, p, rest, hyields.callable, hgiven.symm, hyields.annotation?_eq_none_iff.mp hnone⟩

/-- A first parameter without an annotation is a reference of the supplied kind. -/
theorem exists_reference_of_leavesFirst (hyields : r.Yields g given hints ps f)
    (hfirst : r.LeavesFirst) :
    ∃ p rest k, ps = p :: rest ∧ r.receiver = some k ∧ p.kind = k ∧ p.binding = .reference := by
  obtain ⟨p, rest, hgiven, hnone⟩ := hyields.leavesFirst_iff.mp hfirst
  have hread := hyields.read
  rw [hgiven] at hread
  obtain ⟨q, qs, rfl, hreads, -⟩ := params_cons_eq_ok.mp hread
  rw [hnone] at hreads
  cases hreads with
  | bare hreceiver => exact ⟨_, qs, _, rfl, hreceiver, rfl, rfl⟩

/-- The pure style lets no handle through, so only a first parameter without an annotation is a
receiver. -/
theorem style_eq_method_iff_of_pure (hyields : r.Yields g given hints ps f)
    (hs : r.style = some .pure) : f.style = .method ↔ r.LeavesFirst := by
  have hstyled := hyields.styled
  rw [hs] at hstyled
  have hparams : f.params = ps ∧ ∀ p rest, ps = p :: rest → p.binding ≠ .exclusive := by
    generalize f.params = qs at hstyled
    cases hstyled with
    | pureNil => exact ⟨rfl, fun _ _ hnil => absurd hnil nofun⟩
    | pure hp =>
      refine ⟨rfl, fun q rest heq => ?_⟩
      obtain ⟨rfl, -⟩ := List.cons.inj heq
      exact hp
  rw [Native.style_eq_method_iff, hparams.1]
  constructor
  · rintro ⟨p, rest, hps, hreceiver⟩
    have hread := hyields.read
    cases hgiven : given with
    | nil =>
      rw [hgiven] at hread
      rw [← Except.ok.inj hread] at hps
      exact absurd hps nofun
    | cons q others =>
      rw [hgiven, hps] at hread
      obtain ⟨_, _, heq, hreads, -⟩ := params_cons_eq_ok.mp hread
      obtain ⟨rfl, -⟩ := List.cons.inj heq
      have hreference : p.binding = .reference := by
        cases hbinding : p.binding with
        | reference => rfl
        | exclusive => exact absurd hbinding (hparams.2 p rest hps)
        | _ =>
          rw [hbinding] at hreceiver
          exact absurd hreceiver nofun
      exact hyields.leavesFirst_iff.mpr ⟨q, others, hgiven, hreads.reference_iff.mp hreference⟩
  · intro hfirst
    obtain ⟨p, rest, k, hps, -, -, hreference⟩ := hyields.exists_reference_of_leavesFirst hfirst
    exact ⟨p, rest, hps, by rw [hreference]; rfl⟩

end ShapeRequest.Yields

namespace Native

variable {r : ShapeRequest} {f : Native} {s : CallStyle}

/-- **A forced style is obtained**, but for a first parameter that is left without an annotation:
that makes a method. -/
theorem style_eq_iff (hmade : ofHost r = .ok f) (hs : r.style = some s) :
    f.style = s ↔ ¬ (s = .pure ∧ r.LeavesFirst) := by
  obtain ⟨g, given, hints, ps, hyields⟩ := ofHost_eq_ok_iff.mp hmade
  cases s with
  | method => simp [style_of_styled_method (hs ▸ hyields.styled)]
  | pure =>
    rw [← hyields.style_eq_method_iff_of_pure hs]
    cases f.style <;> simp

end Native
end ScriptHost
