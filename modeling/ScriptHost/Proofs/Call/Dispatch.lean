import ScriptHost.Proofs.Call.Binding
import ScriptHost.Proofs.Table.Overloads

/-!
# A function that is found can be bound

A call looks for a function by the kinds of its arguments and binds the arguments afterwards,
and the two test the kinds in different ways.  They agree: if every function that is found
accepts the kinds it was looked for with, then each of its parameters takes its argument, and
the body gets values of just the kinds that are declared.

* `Param.Receives p h a h' n`: `n` is what parameter `p` is to get for the container at `a`.
* `exists_containAll`: arguments can be put into containers, and those that are one stay.
* `exists_bindAll`: containers of accepted kinds can be bound, each as its parameter declares.
* `Fault.chain`, `Fault.Clean`: no fault of the chain of causes is about arguments.
* `Linkage.Fitting`: whatever is found accepts the kinds of the call.
* `Linkage.respects_call_clean`: then no call, however deep it nests, fails over arguments.
* `Dispatched`, `Linkage.dispatched_of_fitting`: all of it for one call.
-/

namespace ScriptHost

open Heap

variable {h h' g : Heap} {a : Addr} {v n w : Value} {p : Param}

/-! ## What a parameter gets -/

/-- What a parameter is to get for the container at an address of the heap `h`; the heap is `h'`
when the body gets it. -/
def Param.Receives (p : Param) (h : Heap) (a : Addr) (h' : Heap) (n : Value) : Prop :=
  match p.binding with
  | .value => h'.kindOf n = p.kind ∧ ∃ g, Extends h g ∧ (g.tryCast a p.kind).1 = some n
  | .dynamic => ∃ b w, n = .ref b ∧ h.size ≤ b ∧ h'.get? b = some (.dynamic w)
  | .reference =>
    if p.kind = .dynamic then n = .ref a ∧ ∃ w, h'.get? a = some (.dynamic w)
    else n = h.payload a ∧ h'.kindOf n = p.kind
  | .exclusive => ∃ b, n = .ref b ∧ h'.get? b = some (.handle a)

/-- Cells that are added later do not matter. -/
theorem Param.Receives.later (hn : p.Receives h a g n) (hext : Extends g h') (hheld : g.Holds n) :
    p.Receives h a h' n := by
  rw [Receives.eq_def] at hn ⊢
  split at hn
  · exact ⟨(hext.kindOf hheld).trans hn.1, hn.2⟩
  · obtain ⟨b, w, rfl, hle, hw⟩ := hn
    exact ⟨b, w, rfl, hle, hext.get?_eq_some hw⟩
  · split at hn
    · rename_i hkind
      obtain ⟨rfl, w, hw⟩ := hn
      rw [if_pos hkind]
      exact ⟨rfl, w, hext.get?_eq_some hw⟩
    · rename_i hkind
      rw [if_neg hkind]
      exact ⟨hn.1, (hext.kindOf hheld).trans hn.2⟩
  · obtain ⟨b, rfl, hb⟩ := hn
    exact ⟨b, rfl, hext.get?_eq_some hb⟩

/-- Whether a container can be taken as a kind does not change when cells are added. -/
theorem Heap.Extends.isKind (hext : Extends h g) (hclosed : h.Closed) (ha : a < h.size)
    (k : Kind) : g.isKind a k = h.isKind a k := by
  rw [Heap.isKind, Heap.isKind, hext.payload ha, hext.kindOf (hclosed.holds_payload a)]

/-- A container of the declared kind gives what the parameter is to get. -/
theorem Param.receives_take (p : Param) (hclosed : h.Closed) (hext : Extends h g)
    (hclosed' : g.Closed) (hw : h.get? a = some (.dynamic w)) (hkind : h.isKind a p.kind) :
    p.Receives h a (p.take a g).2 (p.take a g).1 := by
  have ha := lt_of_get? hw
  rw [Receives.eq_def]
  split <;> rename_i hbinding
  · obtain ⟨n, hn, hkindOf⟩ := exists_tryCast hclosed' ((hext.isKind hclosed ha p.kind).trans hkind)
    simp only [Param.take, hbinding, hn, Option.getD_some]
    exact ⟨hkindOf, g, hext, hn⟩
  · obtain ⟨w', hw'⟩ := get?_clone g a
    simp only [Param.take, hbinding]
    refine ⟨_, w', rfl, ?_, hw'⟩
    have hadded := (annexed_clone hclosed' a).added _ (List.mem_singleton_self _)
    exact Nat.le_trans hext.size_le hadded.1
  · have hw' : g.get? a = some (.dynamic w) := by rw [hext.get?_eq a ha, hw]
    split
    · rename_i hdynamic
      simp only [Param.take, hbinding, if_pos hdynamic]
      exact ⟨trivial, w, hw'⟩
    · rename_i hdynamic
      simp only [Param.take, hbinding, if_neg hdynamic]
      refine ⟨hext.payload ha, ?_⟩
      rw [hext.payload ha, hext.kindOf (hclosed.holds_payload a)]
      exact (isKind_iff.mp hkind).resolve_left hdynamic
  · simp only [Param.take, hbinding, allocValue]
    exact ⟨_, rfl, get?_alloc_self g _⟩

/-! ## All arguments -/

/-- The cells at the addresses are containers. -/
def Heap.Containers (h : Heap) (as : List Addr) : Prop :=
  ∀ a ∈ as, ∃ w, h.get? a = some (.dynamic w)

/-- **Arguments can be put into containers**, and an argument that is one is passed as it is. -/
theorem exists_containAll {vs : List Value} (hclosed : h.Closed) (hvs : ∀ v ∈ vs, h.Holds v) :
    ∃ as h', containAll vs h = some (.ok (as.map .ref), h') ∧ Extends h h' ∧ h'.Closed ∧
      h'.Containers as ∧
      List.Forall₂ (fun v a => ∀ d w, v = .ref d → h.get? d = some (.dynamic w) → a = d) vs as := by
  induction vs generalizing h with
  | nil => exact ⟨[], h, rfl, .refl h, hclosed, fun _ ha => absurd ha List.not_mem_nil, .nil⟩
  | cons v vs ih =>
    obtain ⟨hbound, w, hw⟩ := bound_contain hclosed (hvs v List.mem_cons_self)
    have hext := hbound.toExtends
    obtain ⟨as, h', hrun, hext', hclosed', hcontainers, hsame⟩ := ih hbound.closed
      fun u hu => hext.holds (hvs u (List.mem_cons_of_mem _ hu))
    refine ⟨(h.contain v).1 :: as, h', ?_, hext.trans hext', hclosed', ?_, .cons ?_ ?_⟩
    · rw [containAll, Run.bind_apply]
      simp only [Run.contained, Run.step, Run.bind_apply, hrun]
      rfl
    · exact List.forall_mem_cons.mpr ⟨⟨w, hext'.get?_eq_some hw⟩, hcontainers⟩
    · rintro d u rfl hu
      rw [contain_of_dynamic hu]
    · exact hsame.imp fun u b hub d w' hu hw' => hub d w' hu (hext.get?_eq_some hw')

/-- **Containers of the declared kinds can be bound**, and every parameter gets what it is to
get. -/
theorem exists_bindAll {ps : List Param} {as : List Addr} (function : String) (position : Nat)
    (hclosed : h.Closed) (hcontainers : h.Containers as) (hext : Extends h g) (hg : g.Closed)
    (hkinds : List.Forall₂ (fun p a => h.isKind a p.kind = true) ps as) :
    ∃ natives h', bindAll function position ps (as.map .ref) g = some (.ok natives, h') ∧
      natives.length = ps.length ∧ Extends g h' ∧ h'.Closed ∧
      ∀ (i : Nat) (p : Param) (a : Addr) (n : Value), ps[i]? = some p → as[i]? = some a →
        natives[i]? = some n → p.Receives h a h' n := by
  induction hkinds generalizing position g with
  | nil => exact ⟨[], g, rfl, rfl, .refl g, hg, fun i p a n hp => absurd hp (by simp)⟩
  | @cons p a ps as hkind hrest ih =>
    obtain ⟨⟨w, hw⟩, hcontainers⟩ := List.forall_mem_cons.mp hcontainers
    have hw' : g.get? a = some (.dynamic w) := hext.get?_eq_some hw
    obtain ⟨n, g', htake⟩ : ∃ n g', p.take a g = (n, g') := ⟨_, _, rfl⟩
    have hbind : p.bind function position (.ref a) g = .ok (n, g') := by
      rw [Param.bind_eq, contain_of_dynamic hw',
        if_pos ((hext.isKind hclosed (lt_of_get? hw) p.kind).trans hkind), htake]
    have hreceive := p.receives_take hclosed hext hg hw hkind
    rw [htake] at hreceive
    have hbound := p.bound_bind hg (holds_ref hw') hbind
    obtain ⟨natives, h', hrun, hlength, hext', hclosed', hreceives⟩ := ih (position + 1)
      hcontainers (hext.trans hbound.toExtends) hbound.closed
    refine ⟨n :: natives, h', ?_, ?_, hbound.toExtends.trans hext', hclosed', ?_⟩
    · rw [List.map_cons, bindAll_cons_apply, hbind]
      simp only [hrun]
    · rw [List.length_cons, List.length_cons, hlength]
    · intro i q b m hq hb hm
      cases i with
      | zero =>
        rw [List.getElem?_cons_zero] at hq hb hm
        rw [← Option.some.inj hq, ← Option.some.inj hb, ← Option.some.inj hm]
        exact hreceive.later hext' hbound.holds
      | succ i => exact hreceives i q b m hq hb hm

/-! ## Faults about arguments -/

namespace Fault

/-- A fault with the causes behind it. -/
def chain : Fault → List Fault
  | .escaped function cause wording => .escaped function cause wording :: cause.chain
  | e => [e]

/-- Whether a fault is about the number or the kinds of arguments. -/
def isArgument : Fault → Bool
  | .argumentCount .. | .argumentKind .. => true
  | _ => false

/-- Neither the fault nor any cause of it is about arguments. -/
def Clean (e : Fault) : Prop := ∀ c ∈ e.chain, c.isArgument = false

theorem passing_clean : Passing Clean where
  raised _ _ _ hc := by rw [List.mem_singleton.mp hc]; rfl
  declared _ _ _ hc := by rw [List.mem_singleton.mp hc]; rfl
  notFound _ _ _ hc := by rw [List.mem_singleton.mp hc]; rfl
  escaped _ _ _ hcause c hc := by
    rcases List.mem_cons.mp hc with rfl | hc
    · rfl
    · exact hcause c hc

end Fault

/-! ## Calls -/

namespace Linkage

variable {link : Linkage} {engine : EngineId} {name : String} {f : Native} {as : List Addr}

/-- Whatever a call finds accepts the kinds it was looked for with. -/
def Fitting (link : Linkage) : Prop :=
  ∀ engine name kinds f, link.find engine name kinds = some f → f.Accepts kinds

/-- The containers are of the kinds that the parameters declare. -/
theorem forall_isKind_of_accepts (hcontainers : h.Containers as)
    (hf : f.Accepts (kindsOf h (as.map .ref))) :
    List.Forall₂ (fun p a => h.isKind a p.kind = true) f.params as := by
  rw [Native.Accepts, Native.kinds, kindsOf, List.map_map, List.forall₂_map_left_iff,
    List.forall₂_map_right_iff] at hf
  rw [List.forall₂_iff_get] at hf ⊢
  refine ⟨hf.1, fun i hi hi' => ?_⟩
  obtain ⟨w, hw⟩ := hcontainers _ (List.get_mem as ⟨i, hi'⟩)
  have hkind := hf.2 i hi hi'
  simp only [Function.comp, unwrap_of_dynamic hw] at hkind
  exact isKind_iff.mpr (hkind.imp id Eq.symm)

/-- A call of a function that is found comes down to serving what its parameters get. -/
theorem exists_serve (hclosed : h.Closed) (hcontainers : h.Containers as)
    (hf : f.Accepts (kindsOf h (as.map .ref))) :
    ∃ natives h', natives.length = f.arity ∧ h'.Closed ∧ Extends h h' ∧
      (∀ a ∈ Value.addrsAll natives, a < h'.size) ∧
      (∀ (i : Nat) (p : Param) (a : Addr) (n : Value), f.params[i]? = some p →
        as[i]? = some a → natives[i]? = some n → p.Receives h a h' n) ∧
      bindAll f.name 1 f.params (as.map .ref) h = some (.ok natives, h') ∧
      ∀ depth, link.invoke (depth + 1) f (as.map .ref) h = link.serve depth f natives h' := by
  have hkinds := forall_isKind_of_accepts hcontainers hf
  obtain ⟨natives, h', hbind, hlength, hext, hclosed', hreceives⟩ :=
    exists_bindAll f.name 1 hclosed hcontainers (.refl h) hclosed hkinds
  have hheld : ∀ v ∈ as.map Value.ref, h.Holds v := by
    intro v hv
    obtain ⟨a, ha, rfl⟩ := List.mem_map.mp hv
    obtain ⟨w, hw⟩ := hcontainers a ha
    exact holds_ref hw
  obtain ⟨-, -, hbound⟩ := forall_bound_of_bindAll hclosed hheld hbind
  refine ⟨natives, h', hlength, hclosed', hext, fun a ha => lt_of_mem_natives hbound ha,
    hreceives, hbind, fun depth => ?_⟩
  · have hcount : (as.map Value.ref).length = f.arity := by
      rw [List.length_map, ← hkinds.length_eq, Native.arity]
    rw [invoke_succ, if_neg (not_not.mpr hcount), Run.bind_apply, hbind]

/-- **No call fails over arguments**, neither itself nor in any call that its body makes. -/
theorem respects_call_clean (hlink : link.Fitting) (depth : Nat) (engine : EngineId)
    (name : String) :
    Run.Respects .all Fault.Clean (link.callWith (link.invoke depth) engine name) := by
  induction depth generalizing engine name with
  | zero =>
    exact respects_callWith Fault.passing_clean fun _ _ _ _ _ _ _ _ _ _ => Run.confined_exhausted
  | succ depth ih =>
    refine respects_callWith Fault.passing_clean fun f vs cs h h₁ hT hvs hcs hstay hf => ?_
    have hheld : ∀ v ∈ vs, h.Holds v := fun v hv a ha =>
      (hvs a (Value.mem_addrsAll_of_mem hv ha)).1
    obtain ⟨as, h₁', hrun, -, hclosed, hcontainers, -⟩ := exists_containAll hT.closed hheld
    obtain ⟨⟨rfl⟩, rfl⟩ := Prod.mk.inj (Option.some.inj (hcs.symm.trans hrun))
    obtain ⟨natives, h₂, -, hclosed₂, hext, hnatives, -, -, hserve⟩ :=
      exists_serve hclosed hcontainers (hlink _ _ _ _ hf)
    intro outcome h' hrun
    rw [hserve depth] at hrun
    have hbinding : Stays .all h₁ (Value.addrsAll natives) h₂ :=
      stays_all hext.size_le hclosed₂ hnatives
    have hend := respects_serve_of Fault.passing_clean ih f natives h₂ hbinding.within
      hbinding.knows outcome h' hrun
    exact ⟨hbinding.trans hend.stays, hend.fault⟩

end Linkage

/-- A call by name binds what it finds: its arguments are put into containers, which an argument
that is one stays, and every function found for the kinds of these gets at each position what its
parameter is to get.  And it never fails over arguments, however deep calls are nested. -/
structure Dispatched (link : Linkage) (engine : EngineId) (name : String)
    (arguments : List Value) (h : Heap) : Prop where
  binds : ∃ as h₁, containAll arguments h = some (.ok (as.map .ref), h₁) ∧
    List.Forall₂ (fun v a => ∀ d w, v = .ref d → h.get? d = some (.dynamic w) → a = d)
      arguments as ∧
    ∀ f, link.find engine name (Linkage.kindsOf h₁ (as.map .ref)) = some f →
      ∃ natives h₂, bindAll f.name 1 f.params (as.map .ref) h₁ = some (.ok natives, h₂) ∧
        natives.length = f.arity ∧ as.length = f.arity ∧
        (∀ (i : Nat) (p : Param) (a : Addr) (n : Value), f.params[i]? = some p →
          as[i]? = some a → natives[i]? = some n → p.Receives h₁ a h₂ n) ∧
        ∀ depth, link.call (depth + 1) engine name arguments h = link.serve depth f natives h₂
  clean : ∀ depth e h', link.call depth engine name arguments h = some (.error e, h') → e.Clean

/-- **Dispatch is sound for binding**, if whatever is found accepts the kinds of the call. -/
theorem Linkage.dispatched_of_fitting {link : Linkage} (hlink : link.Fitting) (engine : EngineId)
    (name : String) {arguments : List Value} (hclosed : h.Closed)
    (hheld : ∀ v ∈ arguments, h.Holds v) : Dispatched link engine name arguments h where
  binds := by
    obtain ⟨as, h₁, hrun, -, hclosed₁, hcontainers, hsame⟩ := exists_containAll hclosed hheld
    refine ⟨as, h₁, hrun, hsame, fun f hf => ?_⟩
    obtain ⟨natives, h₂, hlength, -, -, -, hreceives, hbind, hserve⟩ :=
      exists_serve hclosed₁ hcontainers (hlink _ _ _ _ hf)
    have hcount : as.length = f.arity :=
      (forall_isKind_of_accepts hcontainers (hlink _ _ _ _ hf)).length_eq.symm
    refine ⟨natives, h₂, hbind, hlength, hcount, hreceives, fun depth => ?_⟩
    rw [← hserve depth]
    exact callWith_apply hrun hf
  clean := by
    intro depth e h' hrun
    have hend := respects_call_clean hlink depth engine name arguments h hclosed.within_all
      (knows_all hheld) _ _ hrun
    exact hend.fault e rfl

end ScriptHost
