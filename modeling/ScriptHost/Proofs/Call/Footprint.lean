import ScriptHost.Proofs.Call.Binding

/-!
# The footprint of a call

What a call can change and what it can give away, for every function, every engine and every
body.  The receivers among the parameters borrow the arguments they are bound to; all others
get copies.  So the call works on what the borrowed arguments reach and on new cells.

* `Native.lent`: the addresses of the arguments that a function borrows.
* `Linkage.invoke_cases`: a call is refused, and then it has only added cells, or its
  arguments are bound and it is served.
* `Footprint`, `Linkage.exists_footprint`: the part of the heap that a call has worked on.
  `Footprint.get?_eq` says what stays, `Footprint.lent_or_le` what can be reached afterwards
  from the result, from a fault or from the borrowed arguments, and `Footprint.not_shares`
  that values which share nothing with the borrowed ones come to share nothing.
* `Linkage.payload_of_reference`: a container keeps the payload that a body borrows.
* `Linkage.payload_of_withoutExclusive`: without handles no container gets another payload.

Each result on calls is the confinement of `Linkage.serve` to a territory chosen for it; for
the first two it is made of what is reached from given addresses (`Linkage.stays_serve`).
-/

namespace ScriptHost

open Heap

/-- The addresses of the arguments that a function borrows. -/
def Native.lent (f : Native) (arguments : List Value) : List Addr :=
  Value.addrsAll (((f.params.zip arguments).filter fun pv => pv.1.binding.isReceiver).map (·.2))

variable {f : Native} {arguments natives : List Value} {h h' h₁ : Heap} {a b : Addr}
  {link : Linkage} {depth : Nat} {outcome : Except Fault Value}

/-- A receiver borrows its argument. -/
theorem Native.reaches_lent {pv : Param × Value} (hpv : pv ∈ f.params.zip arguments)
    (hreceiver : pv.1.binding.isReceiver = true) (ha : Reaches h pv.2.addrs a) :
    Reaches h (f.lent arguments) a := by
  refine ha.mono (Value.mem_addrsAll_of_mem ?_)
  exact List.mem_map.mpr ⟨pv, List.mem_filter.mpr ⟨hpv, hreceiver⟩, rfl⟩

theorem Native.lt_of_mem_lent (hheld : ∀ v ∈ arguments, h.Holds v)
    (ha : a ∈ f.lent arguments) : a < h.size := by
  obtain ⟨v, hv, ha⟩ := Value.mem_addrsAll_iff.mp ha
  obtain ⟨pv, hpv, rfl⟩ := List.mem_map.mp hv
  exact hheld pv.2 (List.of_mem_zip (List.mem_filter.mp hpv).1).2 a ha

/-! ## Calls -/

namespace Linkage

/-- A call is refused before its body runs, or its arguments are bound and it is served. -/
theorem invoke_cases (hclosed : h.Closed) (hheld : ∀ v ∈ arguments, h.Holds v)
    (hrun : link.invoke depth f arguments h = some (outcome, h')) :
    (∃ e, outcome = .error e ∧ e.addrs = [] ∧ Extends h h' ∧ h'.Closed) ∨
      ∃ n natives h₁, depth = n + 1 ∧
        bindAll f.name 1 f.params arguments h = some (.ok natives, h₁) ∧
        link.serve n f natives h₁ = some (outcome, h') := by
  cases depth with
  | zero => exact absurd hrun nofun
  | succ n =>
    rw [invoke_succ] at hrun
    split at hrun
    · obtain ⟨rfl, rfl⟩ := Prod.mk.inj (Option.some.inj hrun)
      exact Or.inl ⟨_, rfl, rfl, .refl h, hclosed⟩
    · rw [Run.bind_apply] at hrun
      split at hrun
      · rename_i natives h₁ hbind
        exact Or.inr ⟨n, natives, h₁, rfl, hbind, hrun⟩
      · rename_i e h₁ hbind
        obtain ⟨rfl, rfl⟩ := Prod.mk.inj (Option.some.inj hrun)
        obtain ⟨hext, hclosed', hnil⟩ := extends_of_bindAll_error hclosed hheld hbind
        exact Or.inl ⟨e, rfl, hnil, hext, hclosed'⟩
      · simp at hrun

end Linkage

/-- From the values of a body everything new is reached, and what its function borrows. -/
theorem le_or_reaches_lent (hclosed : h.Closed) (hheld : ∀ v ∈ arguments, h.Holds v)
    (hbind : bindAll f.name 1 f.params arguments h = some (.ok natives, h₁))
    (ha : Reaches h₁ (Value.addrsAll natives) a) :
    h.size ≤ a ∨ Reaches h (f.lent arguments) a := by
  obtain ⟨-, -, hbound⟩ := forall_bound_of_bindAll hclosed hheld hbind
  obtain ⟨n, hn, ha⟩ := reaches_addrsAll_iff.mp ha
  obtain ⟨pv, hpv, hn⟩ := exists_bound_of_mem hbound hn
  exact (hn.le_or_reaches ha).imp id fun hlent => Native.reaches_lent hpv hlent.1 hlent.2

/-! ## The territory of a call -/

/-- New cells and what is reached from given addresses. -/
def Heap.Territory.from (h : Heap) (roots : List Addr) (slots : Addr → Prop) : Territory where
  inside a := h.size ≤ a ∨ Reaches h roots a
  slots := slots

theorem Heap.Closed.within_from {roots : List Addr} {slots : Addr → Prop} (hclosed : h.Closed)
    (hslots : ∀ a, h.size ≤ a → slots a)
    (hhandles : ∀ a slot, Reaches h roots a → h.get? a = some (.handle slot) → slots slot) :
    Within (.from h roots slots) h := by
  refine ⟨hclosed, fun a ha => ⟨Or.inl ha, hslots a ha⟩, ?_, ?_⟩
  · rintro a (ha | ha) b hb
    · obtain ⟨c, hc, -⟩ := mem_childrenOf_iff.mp hb
      exact absurd (lt_of_get? hc) (Nat.not_lt.mpr ha)
    · exact Or.inr (ha.step hb)
  · rintro a slot (ha | ha) hc
    · exact absurd (lt_of_get? hc) (Nat.not_lt.mpr ha)
    · exact hhandles a slot ha hc

theorem Heap.knows_from {roots : List Addr} {slots : Addr → Prop}
    (hroots : ∀ r ∈ roots, r < h.size) : Knows (.from h roots slots) h roots :=
  fun r hr => ⟨hroots r hr, Or.inr (.root hr)⟩

/-- A call that has bound its arguments stays within new cells and what is reached from
addresses that are or lead to what was bound. -/
theorem Linkage.stays_serve {roots : List Addr} (hclosed : h.Closed)
    (hroots : ∀ r ∈ roots, r < h.size) (hsub : Value.addrsAll natives ⊆ roots)
    (hserve : link.serve depth f natives h = some (outcome, h')) :
    Stays (.from h roots fun _ => True) h (endAddrs Value.addrs outcome) h' := by
  have hT : Within (.from h roots fun _ => True) h :=
    hclosed.within_from (fun _ _ => trivial) fun _ _ _ _ => trivial
  have hlink : link.Licensed (.from h roots fun _ => True) := fun _ _ _ _ _ _ _ _ _ => trivial
  have hknown : Knows (.from h roots fun _ => True) h (Value.addrsAll natives) :=
    (knows_from hroots).mono hsub
  exact (respects_serve hlink depth f natives h hT hknown outcome h' hserve).stays

/-- A part of the heap after a call that holds all the call has worked on: what was borrowed
and some of the new cells.  Nothing leads out of it, and what is not in it has stayed. -/
structure Footprint (h : Heap) (lent : List Addr) (outcome : Except Fault Value) (h' : Heap)
    (inside : Addr → Prop) : Prop where
  size_le : h.size ≤ h'.size
  outside : ∀ a, a < h.size → ¬ inside a → h'.get? a = h.get? a
  lent_or_new : ∀ a, inside a → Reaches h lent a ∨ h.size ≤ a
  roots : ∀ a ∈ lent ++ endAddrs Value.addrs outcome, inside a
  children : ∀ a, inside a → ∀ b ∈ h'.childrenOf a, inside b

/-- **Every call works on what it borrows and on new cells.** -/
theorem Linkage.exists_footprint (hclosed : h.Closed) (hheld : ∀ v ∈ arguments, h.Holds v)
    (hrun : link.invoke depth f arguments h = some (outcome, h')) :
    ∃ inside, Footprint h (f.lent arguments) outcome h' inside := by
  have hroots : ∀ r ∈ f.lent arguments, r < h.size := fun r hr =>
    Native.lt_of_mem_lent hheld hr
  rcases invoke_cases hclosed hheld hrun with
    ⟨e, rfl, hnil, hext, -⟩ | ⟨n, natives, h₁, -, hbind, hserve⟩
  · refine ⟨Reaches h (f.lent arguments), hext.size_le, fun a ha _ => hext.get?_eq a ha,
      fun a ha => Or.inl ha, fun a ha => ?_, fun a ha b hb => ?_⟩
    · rw [endAddrs, hnil, List.append_nil] at ha
      exact .root ha
    · rw [childrenOf_congr (hext.get?_eq a (ha.lt hclosed hroots))] at hb
      exact ha.step hb
  · obtain ⟨hext, hclosed₁, hbound⟩ := forall_bound_of_bindAll hclosed hheld hbind
    -- the territory: what the body starts from, and what the caller keeps of what it lends
    let roots := Value.addrsAll natives ++ f.lent arguments
    have hheld₁ : ∀ r ∈ roots, r < h₁.size := by
      intro r hr
      rcases List.mem_append.mp hr with hr | hr
      · exact lt_of_mem_natives hbound hr
      · exact Nat.lt_of_lt_of_le (hroots r hr) hext.size_le
    have hend := stays_serve hclosed₁ hheld₁ (List.subset_append_left _ _) hserve
    refine ⟨_, Nat.le_trans hext.size_le hend.kept.size_le, ?_, ?_, ?_,
      hend.within.children⟩
    · intro a ha hout
      rw [hend.kept.outside a hout, hext.get?_eq a ha]
    · rintro a (ha | ha)
      · exact Or.inr (Nat.le_trans hext.size_le ha)
      · rcases reaches_append_iff.mp ha with ha | ha
        · exact (le_or_reaches_lent hclosed hheld hbind ha).symm
        · exact Or.inl ((hext.reaches_iff hclosed hroots).mp ha)
    · intro a ha
      rcases List.mem_append.mp ha with ha | ha
      · exact Or.inr (.root (List.mem_append_right _ ha))
      · exact (hend.knows a ha).2

namespace Footprint

variable {lent : List Addr} {v w : Value} {inside : Addr → Prop}
  (hfoot : Footprint h lent outcome h' inside)
include hfoot

/-- A cell that is not reached from borrowed arguments stays. -/
theorem get?_eq (ha : a < h.size) (hlent : ¬ Reaches h lent a) : h'.get? a = h.get? a := by
  refine hfoot.outside a ha fun hin => ?_
  exact (hfoot.lent_or_new a hin).elim hlent fun hle => Nat.not_lt.mpr hle ha

/-- What is reached after the call was reached from borrowed arguments, or is new. -/
theorem lent_or_le (ha : Reaches h' (lent ++ endAddrs Value.addrs outcome) a) :
    Reaches h lent a ∨ h.size ≤ a :=
  hfoot.lent_or_new a (ha.closed_under hfoot.roots hfoot.children)

/-- **What shared nothing with the borrowed arguments shares nothing new.** -/
theorem not_shares (hclosed : h.Closed) (hv : h.Holds v) (hw : h.Holds w)
    (hapart : ∀ a, Reaches h lent a → ¬ Reaches h w.addrs a) (hvw : ¬ h.Shares v w) :
    ¬ h'.Shares v w := by
  rintro ⟨a, hva, hwa⟩
  have hw' : ∀ b, Reaches h w.addrs b → h'.get? b = h.get? b := fun b hb =>
    hfoot.get?_eq (hb.lt hclosed hw) fun hlent => hapart b hlent hb
  rw [Reaches.congr hw'] at hwa
  -- a path from the other value is an old one up to where it enters the footprint
  have hpath : Reaches h v.addrs a ∨ inside a := by
    refine hva.closed_under (P := fun a => Reaches h v.addrs a ∨ inside a)
      (fun r hr => Or.inl (.root hr)) ?_
    intro x hx y hy
    by_cases hin : inside x
    · exact Or.inr (hfoot.children x hin y hy)
    · have hx := hx.resolve_right hin
      rw [childrenOf_congr (hfoot.outside x (hx.lt hclosed hv) hin)] at hy
      exact Or.inl (hx.step hy)
  rcases hpath with hva | hin
  · exact hvw ⟨a, hva, hwa⟩
  · rcases hfoot.lent_or_new a hin with hlent | hle
    · exact hapart a hlent hwa
    · exact Nat.not_lt.mpr hle (hwa.lt hclosed hw)

end Footprint

/-! ## Payloads of containers -/

/-- A reference to the payload of a container is the payload itself. -/
theorem Param.eq_of_bind_reference {function : String} {position : Nat} {p : Param} {d : Addr}
    {w n : Value} (hreference : p.binding = .reference) (hkind : p.kind ≠ .dynamic)
    (hw : h.get? d = some (.dynamic w))
    (hok : p.bind function position (.ref d) h = .ok (n, h')) : w = n ∧ h = h' := by
  have hpayload : h.payload d = w := by rw [payload, hw]
  rw [Param.bind_eq, contain_of_dynamic hw] at hok
  split at hok
  · simp only [Param.take, hreference, if_neg hkind, hpayload] at hok
    exact Prod.mk.inj (Except.ok.inj hok)
  · cases hok

/-- From the copies that are made of arguments without a receiver nothing old is reached. -/
theorem le_of_reaches_copies {function : String} {position : Nat} {ps : List Param}
    {vs : List Value} (hclosed : h.Closed) (hheld : ∀ v ∈ vs, h.Holds v)
    (hcopies : ∀ p ∈ ps, p.binding.isReceiver = false)
    (hbind : bindAll function position ps vs h = some (.ok natives, h₁))
    (ha : Reaches h₁ (Value.addrsAll natives) a) : h.size ≤ a := by
  obtain ⟨-, -, hbound⟩ := forall_bound_of_bindAll hclosed hheld hbind
  obtain ⟨n, hn, ha⟩ := reaches_addrsAll_iff.mp ha
  obtain ⟨pv, hpv, hn⟩ := exists_bound_of_mem hbound hn
  rcases hn.le_or_reaches ha with hle | ⟨hreceiver, -⟩
  · exact hle
  · rw [hcopies pv.1 (List.of_mem_zip hpv).1] at hreceiver
    simp at hreceiver

/-- If a function takes no handle and borrows none, every handle that its body can reach is a
copy, and so leads to a copy. -/
theorem le_slot_of_reaches_handle {slot : Addr} (hclosed : h.Closed)
    (hheld : ∀ v ∈ arguments, h.Holds v)
    (hbind : bindAll f.name 1 f.params arguments h = some (.ok natives, h₁))
    (hnone : ∀ p ∈ f.params, p.binding ≠ .exclusive)
    (hhandle : ∀ b slot, Reaches h (f.lent arguments) b → h.get? b ≠ some (.handle slot))
    (hb : Reaches h₁ (Value.addrsAll natives) b) (hget : h₁.get? b = some (.handle slot)) :
    h.size ≤ slot := by
  obtain ⟨hext, -, hbound⟩ := forall_bound_of_bindAll hclosed hheld hbind
  obtain ⟨v, hv, hb⟩ := reaches_addrsAll_iff.mp hb
  obtain ⟨pv, hpv, hv⟩ := exists_bound_of_mem hbound hv
  have hslot : Reaches h₁ v.addrs slot :=
    hb.step (mem_childrenOf_iff.mpr ⟨_, hget, List.mem_singleton_self slot⟩)
  have hlends := hv.lends b hb
  cases hbinding : pv.1.binding with
  | value | dynamic =>
    rcases hv.le_or_reaches hslot with hle | ⟨hreceiver, -⟩
    · exact hle
    · rw [hbinding] at hreceiver
      exact absurd hreceiver nofun
  | exclusive => exact absurd hbinding (hnone pv.1 (List.of_mem_zip hpv).1)
  | reference =>
    rw [hbinding] at hlends
    rcases hlends with hb | ⟨-, u, hu⟩
    · have hargument := hheld pv.2 (List.of_mem_zip hpv).2
      rw [hext.get?_eq b (hb.lt hclosed hargument)] at hget
      have hreceiver : pv.1.binding.isReceiver = true := by rw [hbinding]; rfl
      exact absurd hget (hhandle b slot (Native.reaches_lent hpv hreceiver hb))
    · rw [hu] at hget
      simp at hget

namespace Linkage

/-- **A container keeps the payload that a body borrows without it**, unless the payload leads
back to it. -/
theorem payload_of_reference {p : Param} {ps : List Param} {d : Addr} {w : Value}
    {rest : List Value} (hclosed : h.Closed) (hheld : ∀ v ∈ Value.ref d :: rest, h.Holds v)
    (hparams : f.params = p :: ps) (hreference : p.binding = .reference)
    (hkind : p.kind ≠ .dynamic) (hothers : ∀ q ∈ ps, q.binding.isReceiver = false)
    (hw : h.get? d = some (.dynamic w)) (hacyclic : ¬ Reaches h w.addrs d)
    (hrun : link.invoke depth f (.ref d :: rest) h = some (outcome, h')) :
    h'.get? d = some (.dynamic w) := by
  have hd := lt_of_get? hw
  rcases invoke_cases hclosed hheld hrun with
    ⟨e, -, -, hext, -⟩ | ⟨n, natives, h₁, -, hbind, hserve⟩
  · exact hext.get?_eq_some hw
  · rw [hparams] at hbind
    obtain ⟨v, g, ns, rfl, hv, hns⟩ := exists_of_bindAll_cons hbind
    -- the body gets the payload itself, and binding it has added nothing
    obtain ⟨rfl, rfl⟩ := Param.eq_of_bind_reference hreference hkind hw hv
    have hrest : ∀ v ∈ rest, h.Holds v := fun v hv => hheld v (List.mem_cons_of_mem _ hv)
    obtain ⟨hext, hclosed₁, hbound⟩ := forall_bound_of_bindAll hclosed hrest hns
    have hpayload : h.Holds w := by
      have hchildren : h.childrenOf d = w.addrs := childrenOf_eq_of_get? hw
      exact fun a ha => hclosed d a (hchildren ▸ ha)
    have hroots : ∀ r ∈ w.addrs ++ Value.addrsAll ns, r < h₁.size := by
      intro r hr
      rcases List.mem_append.mp hr with hr | hr
      · exact hext.holds hpayload r hr
      · exact lt_of_mem_natives hbound hr
    have hend := stays_serve hclosed₁ hroots (List.Subset.refl _) hserve
    have hout : ¬ (h₁.size ≤ d ∨ Reaches h₁ (w.addrs ++ Value.addrsAll ns) d) := by
      rintro (hle | hreach)
      · exact Nat.not_lt.mpr hle (Nat.lt_of_lt_of_le hd hext.size_le)
      · rcases reaches_append_iff.mp hreach with hreach | hreach
        · exact hacyclic ((hext.reaches_iff hclosed hpayload).mp hreach)
        · have hle := le_of_reaches_copies hclosed hrest hothers hns hreach
          exact Nat.not_lt.mpr hle hd
    rw [hend.kept.outside d hout, hext.get?_eq_some hw]

/-- The same engines without the functions that take a handle. -/
def withoutExclusive (link : Linkage) : Linkage where
  find engine name kinds := (link.find engine name kinds).filter fun f =>
    f.params.all fun p => p.binding ≠ .exclusive
  kindName := link.kindName
  places := link.places

theorem licensed_withoutExclusive (link : Linkage) (T : Territory) :
    link.withoutExclusive.Licensed T := by
  intro engine name kinds f hf p hp hexclusive
  have hall := (Option.filter_eq_some_iff.mp hf).2
  have hp := List.all_eq_true.mp hall p hp
  exact absurd hexclusive (by simpa using hp)

/-- **Without handles no container gets another payload**: if a function takes none, there is
none in what it borrows, and its call makes do without functions that take one. -/
theorem payload_of_withoutExclusive {w : Value} (hclosed : h.Closed)
    (hheld : ∀ v ∈ arguments, h.Holds v)
    (hnone : ∀ p ∈ f.params, p.binding ≠ .exclusive)
    (hhandle : ∀ b slot, Reaches h (f.lent arguments) b → h.get? b ≠ some (.handle slot))
    (hrun : link.withoutExclusive.invoke depth f arguments h = some (outcome, h'))
    (hw : h.get? a = some (.dynamic w)) : h'.get? a = some (.dynamic w) := by
  rcases invoke_cases hclosed hheld hrun with
    ⟨e, -, -, hext, -⟩ | ⟨n, natives, h₁, -, hbind, hserve⟩
  · exact hext.get?_eq_some hw
  · obtain ⟨hext, hclosed₁, hbound⟩ := forall_bound_of_bindAll hclosed hheld hbind
    let T : Territory := .from h₁ (Value.addrsAll natives) fun x => h.size ≤ x
    have hhandles : ∀ b slot, Reaches h₁ (Value.addrsAll natives) b →
        h₁.get? b = some (.handle slot) → h.size ≤ slot := fun b slot hb hget =>
      le_slot_of_reaches_handle hclosed hheld hbind hnone hhandle hb hget
    have hT : Within T h₁ :=
      hclosed₁.within_from (fun x hx => Nat.le_trans hext.size_le hx) hhandles
    have hknown : Knows T h₁ (Value.addrsAll natives) :=
      knows_from fun _ hr => lt_of_mem_natives hbound hr
    have hend := (respects_serve (licensed_withoutExclusive link T) n f natives h₁ hT hknown
      outcome h' hserve).stays
    exact hend.kept.payload a w (Nat.not_le.mpr (lt_of_get? hw)) (hext.get?_eq_some hw)

end Linkage
end ScriptHost
