import ScriptHost.Proofs.Call.Dispatch
import ScriptHost.Proofs.Call.Failure
import ScriptHost.Proofs.Heap.Flatness
import Mathlib.Data.Nat.Find

/-!
# Calls that are rejected

An invocation is rejected before its body runs: over the number of its arguments, or over the first
argument whose kind the parameter does not take.  The arguments before that one have been bound by
then, which has made copies and handles, but nothing that was there has changed.  A call by name
that finds no function is rejected in the same way.

* `Param.Takes`, `Misfit ps ks i p k`: position `i` is the first with a kind that its parameter
  does not take.
* `bindAll_cases`: binding goes through, or it fails over the first misfit.
* `Linkage.Rejects`, `Linkage.rejects_of_fitting`: when an invocation is rejected, with which
  failure, and what it leaves.
* `Linkage.Misses`, `Linkage.misses_of_fitting`: the same for calls by name.
-/

namespace ScriptHost

open Heap

variable {h h' g : Heap} {v : Value} {vs : List Value} {p : Param} {ps : List Param}
  {function : String} {position : Nat}

/-! ## The kinds of arguments -/

namespace Heap

/-- A value is the same without the container around it, when cells are added. -/
theorem Extends.unwrap (hext : Extends h g) (hv : h.Holds v) : g.unwrap v = h.unwrap v := by
  cases v with
  | ref a =>
    have ha : a < h.size := hv a (by simp)
    have hdynamic : g.dynamic? (.ref a) = h.dynamic? (.ref a) := by
      rw [dynamic?, dynamic?, hext.get?_eq a ha]
    rw [Heap.unwrap, Heap.unwrap, hdynamic]
    split
    · rename_i b hb
      obtain ⟨⟨rfl⟩, -⟩ := dynamic?_eq_some_iff.mp hb
      exact hext.payload ha
    · rfl
  | _ => rfl

theorem Extends.kindsOf (hext : Extends h g) (hclosed : h.Closed) (hvs : ∀ v ∈ vs, h.Holds v) :
    Linkage.kindsOf g vs = Linkage.kindsOf h vs := by
  refine List.map_congr_left fun v hv => ?_
  rw [hext.unwrap (hvs v hv), hext.kindOf (hclosed.holds_unwrap (hvs v hv))]

/-- The container of an argument has a payload of the kind of the argument. -/
theorem kindOf_payload_contain (hclosed : h.Closed) (hv : h.Holds v) :
    (h.contain v).2.kindOf ((h.contain v).2.payload (h.contain v).1) = h.kindOf (h.unwrap v) := by
  have hpayload : (h.contain v).2.payload (h.contain v).1 = h.unwrap v := by
    rw [payload, h.get?_contain v]
  rw [hpayload, (bound_contain hclosed hv).1.toExtends.kindOf (hclosed.holds_unwrap hv)]

end Heap

/-- Containers are looked for with the kinds of what is put into them. -/
theorem kindsOf_of_containAll {cs : List Value} (hclosed : h.Closed) (hvs : ∀ v ∈ vs, h.Holds v)
    (hcs : containAll vs h = some (.ok cs, h')) :
    Extends h h' ∧ Linkage.kindsOf h' cs = Linkage.kindsOf h vs := by
  induction vs generalizing h cs with
  | nil =>
    obtain ⟨⟨rfl⟩, rfl⟩ := Prod.mk.inj (Option.some.inj hcs)
    exact ⟨.refl h, rfl⟩
  | cons v vs ih =>
    obtain ⟨hv, hheld⟩ := List.forall_mem_cons.mp hvs
    have hbound := (bound_contain hclosed hv).1
    have hext := hbound.toExtends
    obtain ⟨cs', h₁, hrest⟩ := exists_containAll_eq_ok vs (h.contain v).2
    have hrun : containAll (v :: vs) h = some (.ok (.ref (h.contain v).1 :: cs'), h₁) := by
      rw [containAll, Run.bind_apply]
      simp only [Run.contained, Run.step, Run.bind_apply, hrest]
      rfl
    obtain ⟨⟨rfl⟩, rfl⟩ := Prod.mk.inj (Option.some.inj (hrun.symm.trans hcs))
    obtain ⟨hext', hkinds⟩ := ih hbound.closed (fun w hw => hext.holds (hheld w hw)) hrest
    refine ⟨hext.trans hext', ?_⟩
    have hcell := hext'.get?_eq_some (h.get?_contain v)
    have hfirst : h₁.kindOf (h₁.unwrap (.ref (h.contain v).1)) = h.kindOf (h.unwrap v) := by
      rw [unwrap_of_dynamic hcell, payload, hcell,
        (hext.trans hext').kindOf (hclosed.holds_unwrap hv)]
    rw [hext.kindsOf hclosed hheld] at hkinds
    exact congrArg₂ List.cons hfirst hkinds

/-! ## Misfits -/

/-- A parameter takes values of a kind: it takes every kind, or it is of just that one. -/
def Param.Takes (p : Param) (k : Kind) : Prop := p.kind = .dynamic ∨ p.kind = k

/-- Position `i` is the first with a kind that its parameter does not take. -/
structure Misfit (ps : List Param) (ks : List Kind) (i : Nat) (p : Param) (k : Kind) : Prop where
  param : ps[i]? = some p
  kind : ks[i]? = some k
  refused : ¬ p.Takes k
  before : ∀ j q l, j < i → ps[j]? = some q → ks[j]? = some l → q.Takes l

namespace Misfit

variable {ks : List Kind} {i j : Nat} {q : Param} {k l : Kind}

theorem zero (hp : ¬ p.Takes k) : Misfit (p :: ps) (k :: ks) 0 p k where
  param := rfl
  kind := rfl
  refused := hp
  before _ _ _ hj := absurd hj (Nat.not_lt_zero _)

theorem succ (hq : q.Takes l) (hmisfit : Misfit ps ks i p k) :
    Misfit (q :: ps) (l :: ks) (i + 1) p k where
  param := hmisfit.param
  kind := hmisfit.kind
  refused := hmisfit.refused
  before j r m hj hr hm := by
    cases j with
    | zero =>
      rw [← Option.some.inj hr, ← Option.some.inj hm]
      exact hq
    | succ j => exact hmisfit.before j r m (Nat.lt_of_succ_lt_succ hj) hr hm

theorem of_succ (hmisfit : Misfit (q :: ps) (l :: ks) (i + 1) p k) : Misfit ps ks i p k where
  param := hmisfit.param
  kind := hmisfit.kind
  refused := hmisfit.refused
  before j r m hj := hmisfit.before (j + 1) r m (Nat.succ_lt_succ hj)

/-- There is only one. -/
theorem unique (hi : Misfit ps ks i p k) (hj : Misfit ps ks j q l) : i = j ∧ p = q ∧ k = l := by
  have hij : i = j := by
    rcases Nat.lt_trichotomy i j with hlt | heq | hlt
    · exact absurd (hj.before i p k hlt hi.param hi.kind) hi.refused
    · exact heq
    · exact absurd (hi.before j q l hlt hj.param hj.kind) hj.refused
  subst hij
  exact ⟨rfl, Option.some.inj (hi.param.symm.trans hj.param),
    Option.some.inj (hi.kind.symm.trans hj.kind)⟩

/-- If some kind is not taken there is a first one. -/
theorem exists_iff : (∃ i p k, Misfit ps ks i p k) ↔
    ∃ (i : Nat) (p : Param) (k : Kind), ps[i]? = some p ∧ ks[i]? = some k ∧ ¬ p.Takes k := by
  constructor
  · rintro ⟨i, p, k, hmisfit⟩
    exact ⟨i, p, k, hmisfit.param, hmisfit.kind, hmisfit.refused⟩
  · intro hsome
    classical
    obtain ⟨p, k, hp, hk, hrefused⟩ := Nat.find_spec hsome
    refine ⟨Nat.find hsome, p, k, hp, hk, hrefused, fun j q l hj hq hl => ?_⟩
    by_contra hnot
    exact Nat.find_min hsome hj ⟨q, l, hq, hl, hnot⟩

end Misfit

/-! ## Binding -/

theorem Param.isKind_contain_iff (hclosed : h.Closed) (hv : h.Holds v) :
    (h.contain v).2.isKind (h.contain v).1 p.kind = true ↔ p.Takes (h.kindOf (h.unwrap v)) := by
  rw [isKind_iff, kindOf_payload_contain hclosed hv, Takes,
    eq_comm (a := p.kind) (b := h.kindOf _)]

/-- An argument of another kind is refused. -/
theorem Param.bind_of_not_takes (hclosed : h.Closed) (hv : h.Holds v)
    (hp : ¬ p.Takes (h.kindOf (h.unwrap v))) : p.bind function position v h =
      .error (.argumentKind function position p.kind (h.kindOf (h.unwrap v))) := by
  rw [bind_eq, if_neg fun hkind => hp ((isKind_contain_iff hclosed hv).mp hkind),
    kindOf_payload_contain hclosed hv]

theorem Param.exists_bind (p : Param) (function : String) (position : Nat) (hclosed : h.Closed)
    (hv : h.Holds v) (hp : p.Takes (h.kindOf (h.unwrap v))) :
    ∃ n h', p.bind function position v h = .ok (n, h') :=
  ⟨_, _, by rw [bind_eq, if_pos ((isKind_contain_iff hclosed hv).mpr hp)]⟩

/-- **Binding goes through, or it fails over the first misfit.** -/
theorem bindAll_cases (function : String) (position : Nat) (hclosed : h.Closed) (hvs : ∀ v ∈ vs, h.Holds v)
    (hlength : vs.length = ps.length) :
    (∃ natives h', bindAll function position ps vs h = some (.ok natives, h') ∧
      ∀ i p k, ¬ Misfit ps (Linkage.kindsOf h vs) i p k) ∨
    ∃ i p k h', Misfit ps (Linkage.kindsOf h vs) i p k ∧
      bindAll function position ps vs h =
        some (.error (.argumentKind function (position + i) p.kind k), h') := by
  induction ps generalizing position vs h with
  | nil => exact .inl ⟨[], h, rfl, fun i p k hmisfit => absurd hmisfit.param nofun⟩
  | cons p ps ih =>
    cases vs with
    | nil => exact absurd hlength nofun
    | cons v vs =>
      obtain ⟨hv, hheld⟩ := List.forall_mem_cons.mp hvs
      by_cases htakes : p.Takes (h.kindOf (h.unwrap v))
      · obtain ⟨n, h₁, hbind⟩ := p.exists_bind function position hclosed hv htakes
        have hbound := p.bound_bind hclosed hv hbind
        have hext := hbound.toExtends
        have hrest := ih (position + 1) hbound.closed
          (fun w hw => hext.holds (hheld w hw)) (Nat.succ.inj hlength)
        rw [hext.kindsOf hclosed hheld] at hrest
        rcases hrest with ⟨natives, h₂, hrun, hnone⟩ | ⟨i, q, k, h₂, hmisfit, hrun⟩
        · refine .inl ⟨n :: natives, h₂, ?_, fun i q k hmisfit => ?_⟩
          · rw [bindAll_cons_apply, hbind]
            simp only [hrun]
          · cases i with
            | zero =>
              obtain rfl := Option.some.inj hmisfit.param
              obtain rfl := Option.some.inj hmisfit.kind
              exact hmisfit.refused htakes
            | succ i => exact hnone i q k hmisfit.of_succ
        · refine .inr ⟨i + 1, q, k, h₂, hmisfit.succ htakes, ?_⟩
          rw [bindAll_cons_apply, hbind]
          simp only [hrun]
          rw [show position + 1 + i = position + (i + 1) by omega]
      · refine .inr ⟨0, p, _, h, .zero htakes, ?_⟩
        rw [bindAll_cons_apply, Param.bind_of_not_takes hclosed hv htakes]
        rfl

/-! ## Invocations -/

/-- A function refuses values with a failure before its body runs: whatever the body is, and
whatever answers its calls. -/
def Native.Refuses (f : Native) (vs : List Value) (h : Heap) (e : Fault) (h' : Heap) : Prop :=
  ∀ (link : Linkage) depth body,
    link.invoke (depth + 1) { f with body := body } vs h = some (.error e, h')

theorem Fault.Clean.not_isArgument {e : Fault} (he : e.Clean) : e.isArgument = false :=
  he e (by cases e <;> simp [chain])

namespace Linkage

variable {link : Linkage} {f : Native} {depth : Nat} {e : Fault} {engine : EngineId}
  {name : String}

theorem refuses_of_count (hcount : vs.length ≠ f.arity) (h : Heap) :
    f.Refuses vs h (.argumentCount f.name f.arity vs.length) h := by
  intro link depth body
  have hcount' : vs.length ≠ ({ f with body := body } : Native).arity := hcount
  rw [invoke_succ, if_pos hcount']
  rfl

theorem refuses_of_bindAll (hcount : vs.length = f.arity)
    (herror : bindAll f.name 1 f.params vs h = some (.error e, h')) : f.Refuses vs h e h' := by
  intro link depth body
  have hcount' : ¬ vs.length ≠ ({ f with body := body } : Native).arity := not_not.mpr hcount
  rw [invoke_succ, if_neg hcount', Run.bind_apply, herror]

/-- What comes after binding fails over no arguments. -/
theorem not_isArgument_of_bindAll (hlink : link.Fitting) (hclosed : h.Closed)
    (hvs : ∀ v ∈ vs, h.Holds v) {natives : List Value} (hcount : vs.length = f.arity)
    (hbind : bindAll f.name 1 f.params vs h = some (.ok natives, g))
    (herror : link.invoke (depth + 1) f vs h = some (.error e, h')) : e.isArgument = false := by
  obtain ⟨hext, hclosed', hbound⟩ := forall_bound_of_bindAll hclosed hvs hbind
  have hbinding : Stays .all h (Value.addrsAll natives) g :=
    stays_all hext.size_le hclosed' fun a ha => lt_of_mem_natives hbound ha
  rw [invoke_of_binds ⟨hcount, hbind⟩] at herror
  have hend := respects_serve_of Fault.passing_clean (respects_call_clean hlink depth) f natives g
    hbinding.within hbinding.knows _ _ herror
  exact (hend.fault e rfl).not_isArgument

/-- An invocation is rejected over the number of its arguments, or over the first that does not fit,
or else it is not rejected over its arguments. -/
theorem refuses_or_binds (hlink : link.Fitting) (hclosed : h.Closed) (hvs : ∀ v ∈ vs, h.Holds v)
    (f : Native) :
    (vs.length ≠ f.arity ∧ f.Refuses vs h (.argumentCount f.name f.arity vs.length) h) ∨
      (vs.length = f.arity ∧ ∃ i p k h', Misfit f.params (kindsOf h vs) i p k ∧ Extends h h' ∧
        f.Refuses vs h (.argumentKind f.name (i + 1) p.kind k) h') ∨
      vs.length = f.arity ∧ (∀ i p k, ¬ Misfit f.params (kindsOf h vs) i p k) ∧
        ∀ depth e h', link.invoke (depth + 1) f vs h = some (.error e, h') →
          e.isArgument = false := by
  by_cases hcount : vs.length = f.arity
  · rcases bindAll_cases f.name 1 hclosed hvs hcount with
      ⟨natives, g, hbind, hnone⟩ | ⟨i, p, k, g, hmisfit, hbind⟩
    · refine .inr (.inr ⟨hcount, hnone, fun depth e h' herror => ?_⟩)
      exact not_isArgument_of_bindAll hlink hclosed hvs hcount hbind herror
    · rw [Nat.add_comm 1 i] at hbind
      exact .inr (.inl ⟨hcount, i, p, k, g, hmisfit, (extends_of_bindAll_error hclosed hvs hbind).1,
        refuses_of_bindAll hcount hbind⟩)
  · exact .inl ⟨hcount, refuses_of_count hcount h⟩

/-- An invocation that is refused ends in one way. -/
theorem eq_of_refuses {e' : Fault} (hrefuses : f.Refuses vs h e g)
    (hrun : link.invoke (depth + 1) f vs h = some (.error e', h')) : e' = e ∧ h' = g := by
  obtain ⟨⟨rfl⟩, rfl⟩ := Prod.mk.inj
    (Option.some.inj (hrun.symm.trans (hrefuses link depth f.body)))
  exact ⟨rfl, rfl⟩

section Fitting

variable (hlink : link.Fitting) (hclosed : h.Closed) (hvs : ∀ v ∈ vs, h.Holds v)
include hlink hclosed hvs

theorem exists_argumentCount_iff (f : Native) (depth : Nat) {expected actual : Nat} :
    (∃ h', link.invoke (depth + 1) f vs h =
      some (.error (.argumentCount function expected actual), h')) ↔
        vs.length ≠ f.arity ∧ function = f.name ∧ expected = f.arity ∧ actual = vs.length := by
  rcases refuses_or_binds hlink hclosed hvs f with
    ⟨hcount, hrefuses⟩ | ⟨hcount, i, p, k, g, hmisfit, hext, hrefuses⟩ | ⟨hcount, hnone, hclean⟩
  · constructor
    · rintro ⟨h', hrun⟩
      obtain ⟨rfl, rfl, rfl⟩ := Fault.argumentCount.inj (eq_of_refuses hrefuses hrun).1
      exact ⟨hcount, rfl, rfl, rfl⟩
    · rintro ⟨-, rfl, rfl, rfl⟩
      exact ⟨h, hrefuses link depth f.body⟩
  · constructor
    · rintro ⟨h', hrun⟩
      exact absurd (eq_of_refuses hrefuses hrun).1 nofun
    · exact fun hlength => absurd hcount hlength.1
  · constructor
    · rintro ⟨h', hrun⟩
      exact absurd (hclean depth _ h' hrun) nofun
    · exact fun hlength => absurd hcount hlength.1

theorem exists_argumentKind_iff (f : Native) (depth : Nat) {expected actual : Kind} :
    (∃ h', link.invoke (depth + 1) f vs h =
      some (.error (.argumentKind function position expected actual), h')) ↔
        vs.length = f.arity ∧ function = f.name ∧ ∃ i p,
          Misfit f.params (kindsOf h vs) i p actual ∧ position = i + 1 ∧ expected = p.kind := by
  rcases refuses_or_binds hlink hclosed hvs f with
    ⟨hcount, hrefuses⟩ | ⟨hcount, i, p, k, g, hmisfit, hext, hrefuses⟩ | ⟨hcount, hnone, hclean⟩
  · constructor
    · rintro ⟨h', hrun⟩
      exact absurd (eq_of_refuses hrefuses hrun).1 nofun
    · exact fun hlength => absurd hlength.1 hcount
  · constructor
    · rintro ⟨h', hrun⟩
      obtain ⟨rfl, rfl, rfl, rfl⟩ := Fault.argumentKind.inj (eq_of_refuses hrefuses hrun).1
      exact ⟨hcount, rfl, i, p, hmisfit, rfl, rfl⟩
    · rintro ⟨-, rfl, j, q, hmisfit', rfl, rfl⟩
      obtain ⟨rfl, rfl, rfl⟩ := hmisfit.unique hmisfit'
      exact ⟨g, hrefuses link depth f.body⟩
  · constructor
    · rintro ⟨h', hrun⟩
      exact absurd (hclean depth _ h' hrun) nofun
    · rintro ⟨-, -, j, q, hmisfit, -⟩
      exact absurd hmisfit (hnone j q actual)

/-- A failure over arguments comes before the body, and nothing that was there has changed. -/
theorem extends_and_refuses (he : e.isArgument = true)
    (hrun : link.invoke (depth + 1) f vs h = some (.error e, h')) :
    Extends h h' ∧ f.Refuses vs h e h' := by
  rcases refuses_or_binds hlink hclosed hvs f with
    ⟨-, hrefuses⟩ | ⟨-, i, p, k, g, -, hext, hrefuses⟩ | ⟨-, -, hclean⟩
  · obtain ⟨rfl, rfl⟩ := eq_of_refuses hrefuses hrun
    exact ⟨.refl _, hrefuses⟩
  · obtain ⟨rfl, rfl⟩ := eq_of_refuses hrefuses hrun
    exact ⟨hext, hrefuses⟩
  · exact absurd (he.symm.trans (hclean depth e h' hrun)) nofun

end Fitting

/-- When an invocation is rejected over its arguments, with which failure, and what it leaves. -/
structure Rejects (link : Linkage) (f : Native) (vs : List Value) (h : Heap) : Prop where
  count : ∀ depth function expected actual,
    (∃ h', link.invoke (depth + 1) f vs h =
      some (.error (.argumentCount function expected actual), h')) ↔
        vs.length ≠ f.arity ∧ function = f.name ∧ expected = f.arity ∧ actual = vs.length
  kind : ∀ depth function position expected actual,
    (∃ h', link.invoke (depth + 1) f vs h =
      some (.error (.argumentKind function position expected actual), h')) ↔
        vs.length = f.arity ∧ function = f.name ∧ ∃ i p,
          Misfit f.params (kindsOf h vs) i p actual ∧ position = i + 1 ∧ expected = p.kind
  /-- There is a first misfit if any parameter does not take its argument. -/
  misfit : (∃ i p k, Misfit f.params (kindsOf h vs) i p k) ↔
    ∃ (i : Nat) (p : Param) (k : Kind), f.params[i]? = some p ∧ (kindsOf h vs)[i]? = some k ∧
      ¬ p.Takes k
  /-- The body has not run, and every cell is as it was. -/
  untouched : ∀ depth e h', e.isArgument = true →
    link.invoke (depth + 1) f vs h = some (.error e, h') → Extends h h' ∧ f.Refuses vs h e h'

/-- **A rejected invocation has no effect.** -/
theorem rejects_of_fitting (hlink : link.Fitting) (hclosed : h.Closed)
    (hvs : ∀ v ∈ vs, h.Holds v) (f : Native) : link.Rejects f vs h where
  count depth _ _ _ := exists_argumentCount_iff hlink hclosed hvs f depth
  kind depth _ _ _ _ := exists_argumentKind_iff hlink hclosed hvs f depth
  misfit := Misfit.exists_iff
  untouched _ _ _ := extends_and_refuses hlink hclosed hvs

/-! ## Calls by name -/

/-- A call by name that finds no function says so, whatever invocations would do, and leaves every
cell as it was.  No call by name is rejected over its arguments. -/
structure Misses (link : Linkage) (engine : EngineId) (name : String) (vs : List Value)
    (h : Heap) : Prop where
  notFound : link.find engine name (kindsOf h vs) = none → ∃ h', Extends h h' ∧
    ∀ invoke, link.callWith invoke engine name vs h =
      some (.error (.notFound name ((kindsOf h vs).map (link.kindName engine))), h')
  clean : ∀ depth e h', link.call depth engine name vs h = some (.error e, h') →
    e.isArgument = false

theorem exists_callWith_of_notFound (hclosed : h.Closed) (hvs : ∀ v ∈ vs, h.Holds v)
    (hnone : link.find engine name (kindsOf h vs) = none) : ∃ h', Extends h h' ∧
      ∀ invoke, link.callWith invoke engine name vs h =
        some (.error (.notFound name ((kindsOf h vs).map (link.kindName engine))), h') := by
  obtain ⟨cs, h', hcs⟩ := exists_containAll_eq_ok vs h
  obtain ⟨hext, hkinds⟩ := kindsOf_of_containAll hclosed hvs hcs
  refine ⟨h', hext, fun invoke => ?_⟩
  rw [callWith, Run.bind_apply, hcs]
  simp only [Run.bind_apply, Run.heap]
  rw [← kindsOf, hkinds, hnone]
  rfl

/-- **A call that finds no function has no effect.** -/
theorem misses_of_fitting (hlink : link.Fitting) (hclosed : h.Closed) (hvs : ∀ v ∈ vs, h.Holds v)
    (engine : EngineId) (name : String) : link.Misses engine name vs h where
  notFound := exists_callWith_of_notFound hclosed hvs
  clean depth e h' hrun :=
    ((dispatched_of_fitting hlink engine name hclosed hvs).clean depth e h' hrun).not_isArgument

end Linkage

end ScriptHost
