import ScriptHost.Proofs.Call.Evaluation
import Mathlib.Data.List.Forall2

/-!
# What a body can reach of its caller

Binding an argument makes the value that the body gets.  By value or as a container that is a
copy, so nothing of the caller is reached from it.  A receiver is lent: from the payload
itself, or from the handle onto the container, everything is reached that the caller's
argument reaches.

* `Binding.Lends b h v h' n`: what is reached from the value `n` that binding `b` makes of `v`.
* `Bound b h v h' n`: the heap has only grown and stayed closed, and `n` lends no more.
* `bound_contain`, `bound_take`, `bound_bind`: containers, casts, one argument.
* `exists_of_bindAll_cons`: how the arguments are bound one after another.
* `forall_bound_of_bindAll`: every argument is bound in the heap that all of them leave.
-/

namespace ScriptHost

open Heap

/-- What is reached from the value that a body gets for an argument: new cells only, or what
is reached from the argument, and then the new cells of a reference are containers. -/
def Binding.Lends (b : Binding) (h : Heap) (v : Value) (h' : Heap) (n : Value) : Prop :=
  ∀ a, Reaches h' n.addrs a →
    match b with
    | .value | .dynamic => h.size ≤ a
    | .reference => Reaches h v.addrs a ∨ h.size ≤ a ∧ ∃ w, h'.get? a = some (.dynamic w)
    | .exclusive => Reaches h v.addrs a ∨ h.size ≤ a

/-- The value `n` has been made of `v` by a binding, in a heap that has only grown. -/
structure Bound (b : Binding) (h : Heap) (v : Value) (h' : Heap) (n : Value) : Prop
    extends Extends h h' where
  closed : h'.Closed
  holds : h'.Holds n
  lends : b.Lends h v h' n

namespace Bound

variable {b : Binding} {h h₀ h₁ h₂ : Heap} {v n : Value} {a : Addr}

/-- Whatever is reached is new, or it is lent by a receiver. -/
theorem le_or_reaches (hbound : Bound b h v h₁ n) (ha : Reaches h₁ n.addrs a) :
    h.size ≤ a ∨ b.isReceiver = true ∧ Reaches h v.addrs a := by
  have hlends := hbound.lends a ha
  cases b with
  | value => exact Or.inl hlends
  | dynamic => exact Or.inl hlends
  | reference => exact hlends.elim (fun hv => Or.inr ⟨rfl, hv⟩) fun hnew => Or.inl hnew.1
  | exclusive => exact hlends.elim (fun hv => Or.inr ⟨rfl, hv⟩) Or.inl

/-- Cells that are added later are not reached. -/
theorem later (hbound : Bound b h v h₁ n) (hext : Extends h₁ h₂) (hclosed : h₂.Closed) :
    Bound b h v h₂ n where
  toExtends := hbound.toExtends.trans hext
  closed := hclosed
  holds := hext.holds hbound.holds
  lends a ha := by
    rw [hext.reaches_iff hbound.closed hbound.holds] at ha
    have hlends := hbound.lends a ha
    cases b with
    | reference =>
      rcases hlends with hv | ⟨hnew, w, hw⟩
      · exact Or.inl hv
      · exact Or.inr ⟨hnew, w, hext.get?_eq_some hw⟩
    | _ => exact hlends

/-- An argument that was there before other cells were added. -/
theorem earlier (hbound : Bound b h v h₁ n) (hext : Extends h₀ h) (hclosed : h₀.Closed)
    (hv : h₀.Holds v) : Bound b h₀ v h₁ n where
  toExtends := hext.trans hbound.toExtends
  closed := hbound.closed
  holds := hbound.holds
  lends a ha := by
    have hlends := hbound.lends a ha
    have hsize := hext.size_le
    cases b with
    | value => exact Nat.le_trans hsize hlends
    | dynamic => exact Nat.le_trans hsize hlends
    | reference =>
      rw [hext.reaches_iff hclosed hv] at hlends
      exact hlends.imp id fun hnew => ⟨Nat.le_trans hsize hnew.1, hnew.2⟩
    | exclusive =>
      rw [hext.reaches_iff hclosed hv] at hlends
      exact hlends.imp id (Nat.le_trans hsize)

end Bound

variable {h h' : Heap} {v n : Value} {a b : Addr}

/-! ## One argument -/

/-- From a new cell only the cell itself is new. -/
theorem Heap.reaches_alloc {c : Cell} (hclosed : h.Closed) (hc : ∀ a ∈ c.addrs, a < h.size)
    (hb : Reaches (h.alloc c).2 [h.size] b) : b = h.size ∨ Reaches h c.addrs b := by
  refine hb.closed_under (P := fun b => b = h.size ∨ Reaches h c.addrs b) ?_ ?_
  · intro r hr
    exact Or.inl (List.mem_singleton.mp hr)
  · rintro x (rfl | hx) y hy
    · rw [childrenOf_eq_of_get? (get?_alloc_self h c)] at hy
      exact Or.inr (.root hy)
    · have hlt := hx.lt hclosed hc
      rw [childrenOf_congr (get?_alloc_of_ne h c (Nat.ne_of_lt hlt))] at hy
      exact Or.inr (hx.step hy)

/-- The container for an argument: the argument itself, or a new one around it. -/
theorem bound_contain (hclosed : h.Closed) (hv : h.Holds v) :
    Bound .reference h v (h.contain v).2 (.ref (h.contain v).1) ∧
      ∃ w, (h.contain v).2.get? (h.contain v).1 = some (.dynamic w) := by
  rw [contain]
  split
  · rename_i d hd
    obtain ⟨rfl, hw⟩ := dynamic?_eq_some_iff.mp hd
    exact ⟨⟨.refl h, hclosed, hv, fun _ ha => Or.inl ha⟩, hw⟩
  · have hunwrap : ∀ a ∈ (h.unwrap v).addrs, a < h.size := fun a ha =>
      (reaches_of_mem_unwrap ha).lt hclosed hv
    have hnew : (h.wrap v).2.get? (h.wrap v).1 = some (.dynamic (h.unwrap v)) :=
      get?_alloc_self h _
    refine ⟨⟨extends_alloc h _, hclosed.alloc hunwrap, holds_ref hnew, fun a ha => ?_⟩, _, hnew⟩
    rw [Value.addrs_ref] at ha
    rcases reaches_alloc (c := .dynamic (h.unwrap v)) hclosed hunwrap ha with rfl | ha
    · exact Or.inr ⟨Nat.le_refl _, _, hnew⟩
    · exact Or.inl (ha.trans fun _ hr => reaches_of_mem_unwrap hr)

/-- What a body gets for a container. -/
theorem Param.bound_take (p : Param) (hbound : Bound .reference h v h' (.ref a)) :
    Bound p.binding h v (p.take a h').2 (p.take a h').1 := by
  have ha : ∀ b ∈ [a], b < h'.size := by simpa [Holds] using hbound.holds
  have hcopy : ∀ {n : Value} {h₂ : Heap}, Annexed h' n.addrs h₂ →
      ∀ x, Reaches h₂ n.addrs x → h.size ≤ x :=
    fun hnew x hx => Nat.le_trans hbound.size_le (hnew.le_of_reaches hx)
  cases hbinding : p.binding with
  | exclusive =>
    simp only [Param.take, hbinding, allocValue]
    refine ⟨hbound.toExtends.trans (extends_alloc _ _), hbound.closed.alloc ha, ?_, ?_⟩
    · exact holds_ref (get?_alloc_self h' _)
    · intro b hb
      rw [Value.addrs_ref] at hb
      rcases reaches_alloc (c := .handle a) hbound.closed ha hb with rfl | hb
      · exact Or.inr hbound.size_le
      · have hlends := hbound.lends b (by simpa [Cell.addrs] using hb)
        exact hlends.imp id And.left
  | reference =>
    simp only [Param.take, hbinding]
    split
    · exact hbound
    · refine ⟨hbound.toExtends, hbound.closed, hbound.closed.holds_payload a, fun b hb => ?_⟩
      have hroot : Reaches h' (Value.ref a).addrs a := .root (by simp)
      exact hbound.lends b (hb.trans fun r hr => hroot.step (mem_childrenOf_of_payload hr))
  | dynamic =>
    have hnew : Annexed h' (Value.ref (h'.clone a).1).addrs (h'.clone a).2 := by
      simpa using annexed_clone hbound.closed a
    simp only [Param.take, hbinding]
    exact ⟨hbound.toExtends.trans hnew.toExtends, hnew.closed, fun b hb => (hnew.added b hb).2,
      hcopy hnew⟩
  | value =>
    have hnew := annexed_tryCast hbound.closed a p.kind
    simp only [Param.take, hbinding]
    exact ⟨hbound.toExtends.trans hnew.toExtends, hnew.closed, fun b hb => (hnew.added b hb).2,
      hcopy hnew⟩

/-- An argument that is bound. -/
theorem Param.bound_bind {function : String} {position : Nat} {p : Param} (hclosed : h.Closed)
    (hv : h.Holds v) (hok : p.bind function position v h = .ok (n, h')) :
    Bound p.binding h v h' n := by
  rw [Param.bind_eq] at hok
  split at hok
  · have htake := p.bound_take (bound_contain hclosed hv).1
    rw [Except.ok.inj hok] at htake
    exact htake
  · simp at hok

/-! ## All arguments -/

variable {function : String} {position : Nat} {p : Param} {ps : List Param} {vs : List Value}

theorem bindAll_cons_apply (function : String) (position : Nat) (p : Param) (ps : List Param)
    (v : Value) (vs : List Value) (h : Heap) :
    bindAll function position (p :: ps) (v :: vs) h =
      match p.bind function position v h with
      | .ok (n, h₁) => match bindAll function (position + 1) ps vs h₁ with
        | some (.ok ns, h₂) => some (.ok (n :: ns), h₂)
        | some (.error e, h₂) => some (.error e, h₂)
        | none => none
      | .error e => some (.error e, h) := by
  rw [bindAll, Run.bind_apply, Run.attempt]
  cases hbind : p.bind function position v h with
  | error e => rfl
  | ok result =>
    obtain ⟨n, h₁⟩ := result
    simp only [Run.bind_apply]
    rcases bindAll function (position + 1) ps vs h₁ with _ | ⟨_ | _, _⟩ <;> rfl

/-- The first argument is bound, and then the others. -/
theorem exists_of_bindAll_cons {natives : List Value}
    (hok : bindAll function position (p :: ps) (v :: vs) h = some (.ok natives, h')) :
    ∃ n h₁ ns, natives = n :: ns ∧ p.bind function position v h = .ok (n, h₁) ∧
      bindAll function (position + 1) ps vs h₁ = some (.ok ns, h') := by
  rw [bindAll_cons_apply] at hok
  split at hok
  · rename_i n h₁ hn
    split at hok
    · rename_i ns h₂ hns
      obtain ⟨heq, rfl⟩ := Prod.mk.inj (Option.some.inj hok)
      exact ⟨n, h₁, ns, (Except.ok.inj heq).symm, hn, hns⟩
    · simp at hok
    · simp at hok
  · simp at hok

/-- **Every argument is bound in the heap that binding all of them leaves.** -/
theorem forall_bound_of_bindAll {natives : List Value} (hclosed : h.Closed)
    (hvs : ∀ v ∈ vs, h.Holds v)
    (hok : bindAll function position ps vs h = some (.ok natives, h')) :
    Extends h h' ∧ h'.Closed ∧
      List.Forall₂ (fun (pv : Param × Value) n => Bound pv.1.binding h pv.2 h' n)
        (ps.zip vs) natives := by
  induction ps generalizing position vs h natives with
  | nil =>
    obtain ⟨heq, rfl⟩ := Prod.mk.inj (Option.some.inj hok)
    rw [← Except.ok.inj heq]
    exact ⟨.refl h, hclosed, .nil⟩
  | cons p ps ih =>
    cases vs with
    | nil =>
      obtain ⟨heq, rfl⟩ := Prod.mk.inj (Option.some.inj hok)
      rw [← Except.ok.inj heq]
      exact ⟨.refl h, hclosed, .nil⟩
    | cons v vs =>
      obtain ⟨n, h₁, ns, rfl, hn, hns⟩ := exists_of_bindAll_cons hok
      have hbound := p.bound_bind hclosed (hvs v List.mem_cons_self) hn
      have hheld : ∀ w ∈ vs, h.Holds w := fun w hw => hvs w (List.mem_cons_of_mem _ hw)
      obtain ⟨hext, hclosed', hrest⟩ := ih hbound.closed
        (fun w hw => hbound.toExtends.holds (hheld w hw)) hns
      refine ⟨hbound.toExtends.trans hext, hclosed', .cons (hbound.later hext hclosed') ?_⟩
      rw [List.forall₂_iff_get] at hrest ⊢
      refine ⟨hrest.1, fun i hi hi' => ?_⟩
      refine (hrest.2 i hi hi').earlier hbound.toExtends hclosed (hheld _ ?_)
      exact (List.of_mem_zip (List.getElem_mem hi)).2

theorem exists_bound_of_mem {pvs : List (Param × Value)} {natives : List Value}
    (hbound : List.Forall₂ (fun (pv : Param × Value) n => Bound pv.1.binding h pv.2 h' n)
      pvs natives) (hn : n ∈ natives) : ∃ pv ∈ pvs, Bound pv.1.binding h pv.2 h' n := by
  induction hbound with
  | nil => exact absurd hn List.not_mem_nil
  | cons hfirst _ ih =>
    rcases List.mem_cons.mp hn with rfl | hn
    · exact ⟨_, List.mem_cons_self, hfirst⟩
    · obtain ⟨pv, hpv, hbound⟩ := ih hn
      exact ⟨pv, List.mem_cons_of_mem _ hpv, hbound⟩

theorem lt_of_mem_natives {pvs : List (Param × Value)} {natives : List Value}
    (hbound : List.Forall₂ (fun (pv : Param × Value) n => Bound pv.1.binding h pv.2 h' n)
      pvs natives) (ha : a ∈ Value.addrsAll natives) : a < h'.size := by
  obtain ⟨n, hn, ha⟩ := Value.mem_addrsAll_iff.mp ha
  obtain ⟨pv, -, hn⟩ := exists_bound_of_mem hbound hn
  exact hn.holds a ha

/-- Binding that fails has only added cells, and the fault refers to none. -/
theorem extends_of_bindAll_error {e : Fault} (hclosed : h.Closed) (hvs : ∀ v ∈ vs, h.Holds v)
    (herror : bindAll function position ps vs h = some (.error e, h')) :
    Extends h h' ∧ h'.Closed ∧ e.addrs = [] := by
  induction ps generalizing position vs h with
  | nil => exact absurd herror nofun
  | cons p ps ih =>
    cases vs with
    | nil => exact absurd herror nofun
    | cons v vs =>
      rw [bindAll_cons_apply] at herror
      split at herror
      · rename_i n h₁ hn
        have hbound := p.bound_bind hclosed (hvs v List.mem_cons_self) hn
        split at herror
        · exact absurd herror nofun
        · rename_i e' h₂ hns
          obtain ⟨⟨rfl⟩, rfl⟩ := Prod.mk.inj (Option.some.inj herror)
          have hheld : ∀ w ∈ vs, h₁.Holds w := fun w hw =>
            hbound.toExtends.holds (hvs w (List.mem_cons_of_mem _ hw))
          obtain ⟨hext, hrest⟩ := ih hbound.closed hheld hns
          exact ⟨hbound.toExtends.trans hext, hrest⟩
        · exact absurd herror nofun
      · rename_i e' hn
        obtain ⟨⟨rfl⟩, rfl⟩ := Prod.mk.inj (Option.some.inj herror)
        rw [Param.bind_eq] at hn
        split at hn
        · simp at hn
        · rw [← Except.error.inj hn]
          exact ⟨.refl h, hclosed, rfl⟩

end ScriptHost
