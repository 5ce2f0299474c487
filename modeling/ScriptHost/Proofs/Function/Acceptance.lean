import ScriptHost.Function.Shape

/-!
# How a host function is accepted

A host function becomes a native one in six steps: it is found to be a function, its positional
parameters are taken, they are counted, the annotations are resolved, each parameter is read from
its annotation, and the style is applied.  What a native function looks like is said by its steps,
so nothing that is proved of native functions opens the steps again.

* `ShapeRequest.Yields r g given hints ps f`: the steps, and `Native.ofHost_eq_ok_iff`: a request is
  granted just if there are such steps.
* `HostFunction.positional_eq_filter`: which parameters are taken.
* `Param.Reads name receiver first hint p`: what an annotation makes of a parameter, and
  `Param.ofHint_eq_ok_iff`.
* `ShapeRequest.forall_reads_of_params`: each parameter is read from the annotation of its position.
* `ShapeRequest.Styled style ps qs`: what a forced style does, and `applyStyle_eq_ok_iff`.
-/

namespace ScriptHost

theorem Except.bind_eq_ok {ε α β : Type} {x : Except ε α} {g : α → Except ε β} {y : β} :
    x >>= g = .ok y ↔ ∃ a, x = .ok a ∧ g a = .ok y := by
  cases x with
  | error e => exact ⟨nofun, fun ⟨_, hx, _⟩ => nomatch hx⟩
  | ok a =>
    constructor
    · exact fun hy => ⟨a, rfl, hy⟩
    · rintro ⟨_, ⟨rfl⟩, hy⟩
      exact hy

theorem Except.bind_eq_error {ε α β : Type} {x : Except ε α} {g : α → Except ε β} {e : ε} :
    x >>= g = .error e ↔ x = .error e ∨ ∃ a, x = .ok a ∧ g a = .error e := by
  cases x with
  | error e' =>
    constructor
    · exact fun he => .inl (by rw [Except.error.inj he])
    · rintro (he | ⟨_, hx, _⟩)
      · rw [Except.error.inj he]
        rfl
      · exact absurd hx nofun
  | ok a =>
    constructor
    · exact fun he => .inr ⟨a, rfl, he⟩
    · rintro (⟨⟨⟩⟩ | ⟨_, ⟨rfl⟩, he⟩)
      exact he

theorem Except.mapError_eq_ok {ε ε' α : Type} {x : Except ε α} {g : ε → ε'} {a : α} :
    x.mapError g = .ok a ↔ x = .ok a := by
  cases x with
  | error e => exact ⟨nofun, nofun⟩
  | ok b => exact ⟨fun h => by rw [Except.ok.inj h], fun h => by rw [Except.ok.inj h]; rfl⟩

theorem Except.map_eq_ok {ε α β : Type} {x : Except ε α} {g : α → β} {y : β} :
    x.map g = .ok y ↔ ∃ a, x = .ok a ∧ g a = y := by
  cases x with
  | error e => exact ⟨nofun, fun ⟨_, hx, _⟩ => nomatch hx⟩
  | ok a =>
    constructor
    · exact fun hy => ⟨a, rfl, Except.ok.inj hy⟩
    · rintro ⟨_, ⟨rfl⟩, rfl⟩
      rfl

/-- Whether arguments are counted by a parameter. -/
def HostParameter.isPositional (p : HostParameter) : Bool := p.form == .positional

/-- The parameters that are taken are the positional ones, in order. -/
theorem HostFunction.positional_eq_filter {ps given : List HostParameter}
    (hgiven : positional ps = .ok given) : given = ps.filter (·.isPositional) := by
  induction ps generalizing given with
  | nil => exact (Except.ok.inj hgiven).symm
  | cons p rest ih =>
    rw [positional] at hgiven
    split at hgiven <;> rename_i hform
    · obtain ⟨others, hothers, rfl⟩ := Except.map_eq_ok.mp hgiven
      rw [ih hothers, List.filter_cons_of_pos (by simp [HostParameter.isPositional, hform])]
    · exact absurd hgiven nofun
    · split at hgiven
      · rw [ih hgiven, List.filter_cons_of_neg (by simp [HostParameter.isPositional, hform])]
      · exact absurd hgiven nofun
    · rw [ih hgiven, List.filter_cons_of_neg (by simp [HostParameter.isPositional, hform])]

/-! ## One parameter -/

namespace TypeHint

theorem ne_handle_of_kindOf {a : TypeHint} {k : Kind} (ha : a.handle? = Option.none)
    (hk : a.kindOf = .ok k) : k ≠ .handle := by
  rintro rfl
  cases a with
  | kind k =>
    obtain rfl := Except.ok.inj hk
    simp [handle?] at ha
  | collection k parts =>
    obtain rfl := Except.ok.inj hk
    simp [handle?] at ha
  | receiver inner => simp [handle?] at ha
  | _ => simp [kindOf] at hk

theorem ne_union_of_kindOf {a : TypeHint} {k : Kind} (hk : a.kindOf = .ok k) (named : Bool)
    (ms : List TypeHint) : a ≠ .union named ms := by
  rintro rfl
  exact absurd hk nofun

end TypeHint

/-- What an annotation makes of a parameter of the given name, `true` for the first parameter.  The
kind of a receiver may be the one that is supplied for it. -/
inductive Param.Reads (name : String) (receiver : Option Kind) :
    Bool → Option TypeHint → Param → Prop where
  | value {first : Bool} {a : TypeHint} {k : Kind} : a.handle? = none → a.kindOf = .ok k →
      k ≠ .dynamic → Reads name receiver first (some a) ⟨name, k, .value⟩
  | dynamic {first : Bool} {a : TypeHint} : a.handle? = none → a.kindOf = .ok .dynamic →
      Reads name receiver first (some a) ⟨name, .dynamic, .dynamic⟩
  | bare {k : Kind} : receiver = some k → Reads name receiver true none ⟨name, k, .reference⟩
  | handle {a b : TypeHint} {k : Kind} : a.handle? = some (some b) → b.kindOf = .ok k →
      Reads name receiver true (some a) ⟨name, k, .exclusive⟩
  | bareHandle {a : TypeHint} {k : Kind} : a.handle? = some none → receiver = some k →
      Reads name receiver true (some a) ⟨name, k, .exclusive⟩

namespace Param

variable {name : String} {receiver : Option Kind} {first : Bool} {hint : Option TypeHint}
  {a : TypeHint} {p : Param} {k : Kind}

theorem kindOf_eq_ok_iff : kindOf a = .ok k ↔ a.kindOf = .ok k := by
  rw [kindOf]
  cases a.kindOf <;> simp

theorem ofReceiver_eq_ok_iff :
    ofReceiver name receiver = .ok p ↔ ∃ k, receiver = some k ∧ p = ⟨name, k, .exclusive⟩ := by
  cases receiver with
  | none => simp [ofReceiver]
  | some k => simp [ofReceiver, eq_comm]

theorem reads_byValue (ha : a.handle? = none) (hk : a.kindOf = .ok k) :
    Reads name receiver first (some a) (byValue name k) := by
  rw [byValue]
  split
  · rename_i hdynamic
    subst hdynamic
    exact .dynamic ha hk
  · rename_i hdynamic
    exact .value ha hk hdynamic

/-- **A parameter is made just as its annotation says.** -/
theorem ofHint_eq_ok_iff :
    ofHint first name hint receiver = .ok p ↔ Reads name receiver first hint p := by
  constructor
  · intro hp
    rw [ofHint.eq_def] at hp
    split at hp
    · split at hp
      · rw [← Except.ok.inj hp]
        exact .bare rfl
      · exact absurd hp nofun
    · rename_i a
      split at hp
      · rename_i inner hhandle
        split at hp
        · rename_i hfirst
          subst hfirst
          split at hp
          · obtain ⟨k, hk, rfl⟩ := Except.map_eq_ok.mp hp
            exact .handle hhandle (kindOf_eq_ok_iff.mp hk)
          · obtain ⟨k, hk, rfl⟩ := ofReceiver_eq_ok_iff.mp hp
            exact .bareHandle hhandle hk
        · exact absurd hp nofun
      · exact absurd hp nofun
      · rename_i _ hhandle
        obtain ⟨k, hk, rfl⟩ := Except.map_eq_ok.mp hp
        exact reads_byValue hhandle (kindOf_eq_ok_iff.mp hk)
  · intro hreads
    have hvalue : ∀ {first a k}, a.handle? = none → a.kindOf = .ok k →
        ofHint first name (some a) receiver = .ok (byValue name k) := by
      intro first a k ha hk
      rw [ofHint.eq_def]
      simp only [ha]
      split
      · exact absurd ‹none = some _› nofun
      · exact absurd hk nofun
      · exact Except.map_eq_ok.mpr ⟨k, kindOf_eq_ok_iff.mpr hk, rfl⟩
    cases hreads with
    | value ha hk hdynamic => rw [hvalue ha hk, byValue, if_neg hdynamic]
    | dynamic ha hk => rw [hvalue ha hk, byValue, if_pos rfl]
    | bare hreceiver =>
      rw [hreceiver]
      rfl
    | handle ha hk =>
      rw [ofHint.eq_def]
      simp only [ha, if_true]
      exact Except.map_eq_ok.mpr ⟨_, kindOf_eq_ok_iff.mpr hk, rfl⟩
    | bareHandle ha hreceiver =>
      rw [ofHint.eq_def]
      simp only [ha, if_true]
      exact ofReceiver_eq_ok_iff.mpr ⟨_, hreceiver, rfl⟩

namespace Reads

theorem name_eq (hreads : Reads name receiver first hint p) : p.name = name := by
  cases hreads <;> rfl

/-- Only the first parameter can be a receiver. -/
theorem first_of_isReceiver (hreads : Reads name receiver first hint p)
    (hp : p.binding.isReceiver = true) : first = true := by
  cases hreads with
  | value _ _ _ => exact absurd hp nofun
  | dynamic _ _ => exact absurd hp nofun
  | bare _ => rfl
  | handle _ _ => rfl
  | bareHandle _ _ => rfl

end Reads
end Param

/-! ## All parameters -/

namespace ShapeRequest

variable {r : ShapeRequest} {hints : List (String × TypeHint)} {qs ps : List Param}
  {given : List HostParameter} {style : Option CallStyle}

/-- The annotation that counts at a position: the explicit one, else that of the function. -/
def annotation? (r : ShapeRequest) (hints : List (String × TypeHint)) (i : Nat) (name : String) :
    Option TypeHint :=
  (r.explicit? i).or (hints.lookup name)

theorem params_cons_eq_ok {i : Nat} {p : HostParameter} {rest : List HostParameter} :
    r.params hints i (p :: rest) = .ok ps ↔ ∃ q qs, ps = q :: qs ∧
      Param.Reads p.name r.receiver (i == 0) (r.annotation? hints i p.name) q ∧
        r.params hints (i + 1) rest = .ok qs := by
  rw [params, Except.bind_eq_ok]
  constructor
  · rintro ⟨q, hq, hrest⟩
    obtain ⟨qs, hqs, ⟨rfl⟩⟩ := Except.bind_eq_ok.mp hrest
    exact ⟨q, qs, rfl, Param.ofHint_eq_ok_iff.mp hq, hqs⟩
  · rintro ⟨q, qs, rfl, hq, hqs⟩
    exact ⟨q, Param.ofHint_eq_ok_iff.mpr hq, Except.bind_eq_ok.mpr ⟨qs, hqs, rfl⟩⟩

/-- **Each parameter is read from the annotation of its position.** -/
theorem forall_reads_of_params {i : Nat} (hps : r.params hints i given = .ok ps) :
    ps.map (·.name) = given.map (·.name) ∧
      ∀ j q, ps[j]? = some q →
        Param.Reads q.name r.receiver (i + j == 0) (r.annotation? hints (i + j) q.name) q := by
  induction given generalizing i ps with
  | nil =>
    rw [← Except.ok.inj hps]
    exact ⟨rfl, fun j q hq => absurd hq nofun⟩
  | cons g rest ih =>
    obtain ⟨p, ps, rfl, hp, hps⟩ := params_cons_eq_ok.mp hps
    obtain ⟨hnames, hreads⟩ := ih hps
    refine ⟨by rw [List.map_cons, List.map_cons, hp.name_eq, hnames], fun j q hq => ?_⟩
    cases j with
    | zero =>
      obtain rfl := Option.some.inj hq
      rw [hp.name_eq]
      exact hp
    | succ j =>
      have hq := hreads j q hq
      rwa [show i + 1 + j = i + (j + 1) by omega] at hq

/-- What a forced style does to the parameters. -/
inductive Styled : Option CallStyle → List Param → List Param → Prop where
  | free {ps : List Param} : Styled none ps ps
  | pureNil : Styled (some .pure) [] []
  | pure {p : Param} {ps : List Param} : p.binding ≠ .exclusive →
      Styled (some .pure) (p :: ps) (p :: ps)
  | method {p : Param} {ps : List Param} : p.binding.isReceiver = true →
      Styled (some .method) (p :: ps) (p :: ps)
  | borrowed {p : Param} {ps : List Param} : p.binding.isReceiver = false →
      Styled (some .method) (p :: ps) ({ p with binding := .reference } :: ps)

theorem applyStyle_eq_ok_iff : applyStyle style ps = .ok qs ↔ Styled style ps qs := by
  constructor
  · intro hqs
    rw [applyStyle.eq_def] at hqs
    split at hqs
    · split at hqs
      · exact absurd hqs nofun
      · rw [← Except.ok.inj hqs]
        exact .pure ‹_›
    · split at hqs
      · rw [← Except.ok.inj hqs]
        exact .method ‹_›
      · rw [← Except.ok.inj hqs]
        exact .borrowed (Bool.eq_false_iff.mpr ‹_›)
    · exact absurd hqs nofun
    · rename_i hpure hmethod hnil
      rw [← Except.ok.inj hqs]
      rcases style with _ | _ | _
      · exact .free
      · cases ps with
        | nil => exact .pureNil
        | cons p ps => exact absurd rfl (hpure p ps rfl)
      · cases ps with
        | nil => exact absurd rfl (hnil rfl)
        | cons p ps => exact absurd rfl (hmethod p ps rfl)
  · intro hstyled
    cases hstyled with
    | free => rfl
    | pureNil => rfl
    | pure hp => exact if_neg hp
    | method hp => exact if_pos hp
    | borrowed hp => exact if_neg (Bool.eq_false_iff.mp hp)

namespace Styled

/-- A forced style leaves the other parameters. -/
theorem tail_eq (hstyled : Styled style ps qs) : qs.tail = ps.tail := by
  cases hstyled <;> rfl

/-- A forced style leaves the names and the kinds, and it makes no parameter by value. -/
theorem getElem?_eq_some (hstyled : Styled style ps qs) {i : Nat} {q : Param}
    (hq : qs[i]? = some q) : ∃ p, ps[i]? = some p ∧ q.name = p.name ∧ q.kind = p.kind ∧
      (q = p ∨ q.binding = .reference) := by
  cases hstyled with
  | borrowed _ =>
    cases i with
    | zero =>
      obtain rfl := Option.some.inj hq
      exact ⟨_, rfl, rfl, rfl, .inr rfl⟩
    | succ i => exact ⟨q, hq, rfl, rfl, .inl rfl⟩
  | _ => exact ⟨q, hq, rfl, rfl, .inl rfl⟩

theorem map_name_eq (hstyled : Styled style ps qs) : qs.map (·.name) = ps.map (·.name) := by
  cases hstyled <;> rfl

end Styled

/-! ## The steps -/

/-- The steps by which a request is granted. -/
structure Yields (r : ShapeRequest) (g : HostFunction) (given : List HostParameter)
    (hints : List (String × TypeHint)) (ps : List Param) (f : Native) : Prop where
  callable : r.callable = .function g
  positional : HostFunction.positional g.parameters = .ok given
  counted : r.checkCount given.length = .ok ()
  resolved : TypeHint.resolveTogether g.scope g.hints = .ok hints
  read : r.params hints 0 given = .ok ps
  styled : Styled r.style ps f.params
  eq : f = ⟨r.name, f.params, r.fallible, resultKind hints, g.body, r.home⟩

/-- The count of the parameters is within the limit. -/
theorem le_limit_of_checkCount {count : Nat} (hcount : r.checkCount count = .ok ()) :
    ∃ limit, r.limit = .ok limit ∧ (count : Int) ≤ limit := by
  have hlimit : checkCount.checkLimit r count = .ok () := by
    rw [checkCount] at hcount
    split at hcount
    · split at hcount
      · exact hcount
      · exact absurd hcount nofun
    · exact hcount
  rw [checkCount.checkLimit] at hlimit
  split at hlimit
  · exact absurd hlimit nofun
  · rename_i limit hr
    split at hlimit
    · exact absurd hlimit nofun
    · exact ⟨limit, hr, Int.not_lt.mp ‹_›⟩

end ShapeRequest

/-- **A request is granted just if all its steps go through.** -/
theorem Native.ofHost_eq_ok_iff {r : ShapeRequest} {f : Native} :
    ofHost r = .ok f ↔ ∃ g given hints ps, r.Yields g given hints ps f := by
  constructor
  · intro hmade
    rw [ofHost.eq_def] at hmade
    split at hmade
    · exact absurd hmade nofun
    · rename_i g hcallable
      obtain ⟨given, hgiven, hmade⟩ := Except.bind_eq_ok.mp hmade
      obtain ⟨⟨⟩, hcounted, hmade⟩ := Except.bind_eq_ok.mp hmade
      obtain ⟨hints, hhints, hmade⟩ := Except.bind_eq_ok.mp hmade
      obtain ⟨ps, hps, hmade⟩ := Except.bind_eq_ok.mp hmade
      obtain ⟨qs, hqs, hmade⟩ := Except.bind_eq_ok.mp hmade
      obtain rfl := Except.ok.inj hmade
      exact ⟨g, given, hints, ps, hcallable, Except.mapError_eq_ok.mp hgiven, hcounted,
        Except.mapError_eq_ok.mp (Except.mapError_eq_ok.mp hhints), Except.mapError_eq_ok.mp hps,
        ShapeRequest.applyStyle_eq_ok_iff.mp (Except.mapError_eq_ok.mp hqs), rfl⟩
  · rintro ⟨g, given, hints, ps, hcallable, hgiven, hcounted, hhints, hps, hqs, heq⟩
    rw [ofHost, hcallable, heq]
    refine Except.bind_eq_ok.mpr ⟨given, Except.mapError_eq_ok.mpr hgiven, ?_⟩
    refine Except.bind_eq_ok.mpr ⟨(), hcounted, ?_⟩
    refine Except.bind_eq_ok.mpr ⟨hints, Except.mapError_eq_ok.mpr
      (Except.mapError_eq_ok.mpr hhints), ?_⟩
    refine Except.bind_eq_ok.mpr ⟨ps, Except.mapError_eq_ok.mpr hps, ?_⟩
    exact Except.bind_eq_ok.mpr ⟨f.params, Except.mapError_eq_ok.mpr
      (ShapeRequest.applyStyle_eq_ok_iff.mpr hqs), rfl⟩

theorem Native.name_of_ofHost {r : ShapeRequest} {f : Native} (hf : ofHost r = .ok f) :
    f.name = r.name := by
  obtain ⟨g, given, hints, ps, hyields⟩ := ofHost_eq_ok_iff.mp hf
  rw [hyields.eq]

theorem Native.withArity_eq_ok {f g : Native} {n : Nat} {e : Nat → Nat → ShapeError} :
    f.withArity n e = .ok g ↔ f = g ∧ f.arity = n := by
  rw [withArity]
  by_cases h : f.arity = n <;> simp [h]

end ScriptHost
