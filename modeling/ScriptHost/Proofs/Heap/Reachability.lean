import ScriptHost.Value.Copy

/-!
# Cells and what is reached from them

The heap as a graph: what an address holds after a cell is added or replaced, and which
addresses are reached from given ones.

* `Value.mem_addrsAll_iff`: what a list of values refers to, value by value.
* `get?_alloc`, `get?_set`: the cells after the two ways of changing a heap.
* `Extends`: a heap that has the cells of another one unchanged.
* `Closed`: no reference leads out of the heap.
* `Reaches.closed_under`: what holds of the roots and passes along references holds of all
  that is reached.  Every other fact about reachability follows from it.
* `Reaches.congr`: a heap with the same cells under all that is reached reaches the same.
* `mem_reachable_iff`: the breadth-first search finds exactly what is reached.
* `Shares`, `Acyclic`: values that have a cell in common, and values without cycles; both are
  decided by the search.

The search is complete because a round that does not end it lowers the number of addresses
not seen, of which there are no more than cells.
-/

namespace ScriptHost

/-! ## What values refer to -/

theorem Value.mem_addrsAll_iff {vs : List Value} {a : Addr} :
    a ∈ Value.addrsAll vs ↔ ∃ v ∈ vs, a ∈ v.addrs := by
  induction vs with
  | nil => simp [Value.addrsAll]
  | cons v rest ih => simp [Value.addrsAll, ih]

theorem Value.addrsAll_append (vs ws : List Value) :
    Value.addrsAll (vs ++ ws) = Value.addrsAll vs ++ Value.addrsAll ws := by
  induction vs with
  | nil => rfl
  | cons v rest ih => rw [List.cons_append, addrsAll, addrsAll, ih, List.append_assoc]

@[simp] theorem Value.addrs_scalar (s : Scalar) : (Value.scalar s).addrs = [] := by
  simp [Value.addrs]

@[simp] theorem Value.addrs_undefined (single : Bool) (m : Nat) :
    (Value.undefined single m).addrs = [] := by
  simp [Value.addrs]

@[simp] theorem Value.addrs_ref (a : Addr) : (Value.ref a).addrs = [a] := by
  simp [Value.addrs]

@[simp] theorem Value.addrs_tuple (items : List Value) :
    (Value.tuple items).addrs = Value.addrsAll items := by
  rw [Value.addrs]

@[simp] theorem Value.addrs_unit : Value.unit.addrs = [] := Value.addrs_scalar _

@[simp] theorem Value.addrs_string (s : String) : (Value.string s).addrs = [] :=
  Value.addrs_scalar _

namespace Heap

variable {h h' h'' : Heap} {a b : Addr} {c : Cell} {v w : Value} {roots : List Addr}

/-! ## Adding and replacing cells -/

theorem lt_of_get? (hc : h.get? a = some c) : a < h.size :=
  (Array.getElem?_eq_some_iff.mp hc).1

/-- A container is one of the cells. -/
theorem lt_of_kindOf (ha : h.kindOf (.ref a) = .dynamic) : a < h.size := by
  rw [kindOf] at ha
  split at ha
  · rename_i c hc
    exact lt_of_get? hc
  · exact absurd ha nofun

theorem exists_get? (ha : a < h.size) : ∃ c, h.get? a = some c :=
  ⟨_, Array.getElem?_eq_getElem ha⟩

@[simp] theorem size_alloc (h : Heap) (c : Cell) : (h.alloc c).2.size = h.size + 1 := by
  simp [alloc, size]

theorem get?_alloc (h : Heap) (c : Cell) (a : Addr) :
    (h.alloc c).2.get? a = if a = h.size then some c else h.get? a :=
  Array.getElem?_push

@[simp] theorem get?_alloc_self (h : Heap) (c : Cell) : (h.alloc c).2.get? h.size = some c := by
  rw [get?_alloc, if_pos rfl]

theorem get?_alloc_of_ne (h : Heap) (c : Cell) (ha : a ≠ h.size) :
    (h.alloc c).2.get? a = h.get? a := by
  rw [get?_alloc, if_neg ha]

@[simp] theorem size_set (h : Heap) (a : Addr) (c : Cell) : (h.set a c).size = h.size := by
  simp [set, size]

theorem get?_set_self (ha : a < h.size) (c : Cell) : (h.set a c).get? a = some c := by
  simp only [set, get?, size] at *
  rw [Array.getElem?_setIfInBounds_self_of_lt ha]

theorem get?_set_of_ne (h : Heap) (c : Cell) (hb : b ≠ a) : (h.set a c).get? b = h.get? b := by
  simp only [set, get?]
  exact Array.getElem?_setIfInBounds_ne hb.symm

/-! ## References -/

theorem mem_childrenOf_iff : b ∈ h.childrenOf a ↔ ∃ c, h.get? a = some c ∧ b ∈ c.addrs := by
  rw [childrenOf]
  cases h.get? a with
  | none => simp
  | some c => simp

theorem childrenOf_eq_of_get? (hc : h.get? a = some c) : h.childrenOf a = c.addrs := by
  rw [childrenOf, hc]

theorem childrenOf_congr (heq : h'.get? a = h.get? a) : h'.childrenOf a = h.childrenOf a := by
  rw [childrenOf, childrenOf, heq]

/-- A container refers to what its payload refers to. -/
theorem mem_childrenOf_of_payload (hb : b ∈ (h.payload a).addrs) : b ∈ h.childrenOf a := by
  rw [payload] at hb
  rw [childrenOf]
  cases hc : h.get? a with
  | none => simp [hc] at hb
  | some c => cases c <;> simp_all [Cell.addrs]

theorem dynamic?_eq_some_iff :
    h.dynamic? v = some a ↔ v = .ref a ∧ ∃ w, h.get? a = some (.dynamic w) := by
  cases v with
  | ref b =>
    rw [dynamic?]
    split
    · rename_i w hw
      constructor
      · rintro ⟨rfl⟩
        exact ⟨rfl, w, hw⟩
      · rintro ⟨⟨rfl⟩, -⟩
        rfl
    · rename_i hne
      constructor
      · exact nofun
      · rintro ⟨⟨rfl⟩, w, hw⟩
        exact absurd hw (hne w)
  | _ => simp [dynamic?]

/-- A container is put into no other one. -/
theorem contain_of_dynamic (hw : h.get? a = some (.dynamic w)) : h.contain (.ref a) = (a, h) := by
  rw [contain, dynamic?_eq_some_iff.mpr ⟨rfl, w, hw⟩]

theorem unwrap_of_dynamic (hw : h.get? a = some (.dynamic w)) :
    h.unwrap (.ref a) = h.payload a := by
  rw [unwrap, dynamic?_eq_some_iff.mpr ⟨rfl, w, hw⟩]

/-- The container that a value is put into holds the value without the container around it. -/
theorem get?_contain (h : Heap) (v : Value) :
    (h.contain v).2.get? (h.contain v).1 = some (.dynamic (h.unwrap v)) := by
  rw [contain, unwrap]
  split
  · rename_i b hb
    obtain ⟨-, w, hw⟩ := dynamic?_eq_some_iff.mp hb
    rw [payload, hw]
  · rename_i hnone
    rw [wrap, unwrap, hnone]
    exact get?_alloc_self h _

/-- No reference leads out of the heap. -/
def Closed (h : Heap) : Prop := ∀ a, ∀ b ∈ h.childrenOf a, b < h.size

/-- The heap has every cell that a value refers to. -/
def Holds (h : Heap) (v : Value) : Prop := ∀ a ∈ v.addrs, a < h.size

theorem holds_ref (hc : h.get? a = some c) : h.Holds (.ref a) := by
  intro b hb
  rw [Value.addrs_ref] at hb
  rw [List.mem_singleton.mp hb]
  exact lt_of_get? hc

theorem closed_empty : Closed empty := by
  intro a b hb
  simp [childrenOf, get?, empty] at hb

theorem Closed.holds_payload (hclosed : h.Closed) (a : Addr) : h.Holds (h.payload a) :=
  fun b hb => hclosed a b (mem_childrenOf_of_payload hb)

/-- The cells of a heap are those of another one, and perhaps more. -/
structure Extends (h h' : Heap) : Prop where
  size_le : h.size ≤ h'.size
  get?_eq : ∀ a, a < h.size → h'.get? a = h.get? a

theorem Extends.refl (h : Heap) : Extends h h := ⟨Nat.le_refl _, fun _ _ => rfl⟩

theorem Extends.trans (h₁ : Extends h h') (h₂ : Extends h' h'') : Extends h h'' where
  size_le := Nat.le_trans h₁.size_le h₂.size_le
  get?_eq a ha := by rw [h₂.get?_eq a (Nat.lt_of_lt_of_le ha h₁.size_le), h₁.get?_eq a ha]

/-- A cell that was there is still there. -/
theorem Extends.get?_eq_some (hext : Extends h h') (hc : h.get? a = some c) :
    h'.get? a = some c := by
  rw [hext.get?_eq a (lt_of_get? hc), hc]

theorem extends_alloc (h : Heap) (c : Cell) : Extends h (h.alloc c).2 where
  size_le := by simp
  get?_eq _ ha := get?_alloc_of_ne h c (Nat.ne_of_lt ha)

theorem Extends.holds (hext : Extends h h') (hv : h.Holds v) : h'.Holds v :=
  fun a ha => Nat.lt_of_lt_of_le (hv a ha) hext.size_le

theorem Extends.payload (hext : Extends h h') (ha : a < h.size) :
    h'.payload a = h.payload a := by
  rw [Heap.payload, Heap.payload, hext.get?_eq a ha]

/-- The kind of a value stays when cells are added. -/
theorem Extends.kindOf (hext : Extends h h') (hv : h.Holds v) : h'.kindOf v = h.kindOf v := by
  cases v with
  | ref a => rw [Heap.kindOf, Heap.kindOf, hext.get?_eq a (hv a (by simp))]
  | _ => rfl

theorem Closed.alloc (hclosed : h.Closed) (hc : ∀ a ∈ c.addrs, a < h.size) :
    (h.alloc c).2.Closed := by
  intro a b hb
  rw [size_alloc]
  by_cases ha : a = h.size
  · rw [ha, childrenOf_eq_of_get? (get?_alloc_self h c)] at hb
    exact Nat.lt_succ_of_lt (hc b hb)
  · rw [childrenOf_congr (get?_alloc_of_ne h c ha)] at hb
    exact Nat.lt_succ_of_lt (hclosed a b hb)

/-! ## Reachability -/

/-- What holds of the roots and passes along references holds of all that is reached. -/
theorem Reaches.closed_under {P : Addr → Prop} (hroots : ∀ r ∈ roots, P r)
    (hstep : ∀ a, P a → ∀ b ∈ h.childrenOf a, P b) (ha : Reaches h roots a) : P a := by
  induction ha with
  | root hr => exact hroots _ hr
  | step _ hb ih => exact hstep _ ih _ hb

theorem Reaches.trans {roots' : List Addr} (ha : Reaches h roots a)
    (hroots : ∀ r ∈ roots, Reaches h roots' r) : Reaches h roots' a :=
  ha.closed_under hroots fun _ ha _ hb => ha.step hb

theorem Reaches.mono {roots' : List Addr} (hsub : roots ⊆ roots') (ha : Reaches h roots a) :
    Reaches h roots' a :=
  ha.trans fun _ hr => Reaches.root (hsub hr)

theorem reaches_append_iff {roots' : List Addr} :
    Reaches h (roots ++ roots') a ↔ Reaches h roots a ∨ Reaches h roots' a := by
  constructor
  · refine Reaches.closed_under (P := fun a => Reaches h roots a ∨ Reaches h roots' a) ?_ ?_
    · intro r hr
      exact (List.mem_append.mp hr).imp .root .root
    · rintro a (ha | ha) b hb
      · exact Or.inl (ha.step hb)
      · exact Or.inr (ha.step hb)
  · rintro (ha | ha)
    · exact ha.mono (List.subset_append_left _ _)
    · exact ha.mono (List.subset_append_right _ _)

/-- What is reached from values is reached from one of them. -/
theorem reaches_addrsAll_iff {vs : List Value} :
    Reaches h (Value.addrsAll vs) a ↔ ∃ v ∈ vs, Reaches h v.addrs a := by
  constructor
  · refine Reaches.closed_under (P := fun a => ∃ v ∈ vs, Reaches h v.addrs a) ?_ ?_
    · intro r hr
      obtain ⟨v, hv, hr⟩ := Value.mem_addrsAll_iff.mp hr
      exact ⟨v, hv, .root hr⟩
    · rintro a ⟨v, hv, ha⟩ b hb
      exact ⟨v, hv, ha.step hb⟩
  · rintro ⟨v, hv, ha⟩
    exact ha.mono fun r hr => Value.mem_addrsAll_iff.mpr ⟨v, hv, hr⟩

/-- A closed heap reaches nothing outside of itself. -/
theorem Reaches.lt (ha : Reaches h roots a) (hclosed : h.Closed)
    (hroots : ∀ r ∈ roots, r < h.size) : a < h.size :=
  ha.closed_under (P := fun a => a < h.size) hroots fun a _ => hclosed a

/-- A heap with the same cells under all that is reached reaches the same. -/
theorem Reaches.congr (heq : ∀ a, Reaches h roots a → h'.get? a = h.get? a) :
    Reaches h' roots a ↔ Reaches h roots a := by
  constructor
  · refine Reaches.closed_under (fun _ => .root) ?_
    intro a ha b hb
    rw [childrenOf_congr (heq a ha)] at hb
    exact ha.step hb
  · intro ha
    induction ha with
    | root hr => exact .root hr
    | step hb hc ih =>
      rw [← childrenOf_congr (heq _ hb)] at hc
      exact ih.step hc

/-- Added cells do not change what is reached from cells that were there. -/
theorem Extends.reaches_iff (hext : Extends h h') (hclosed : h.Closed)
    (hroots : ∀ r ∈ roots, r < h.size) : Reaches h' roots a ↔ Reaches h roots a :=
  Reaches.congr fun _ hb => hext.get?_eq _ (hb.lt hclosed hroots)

/-! ## The search -/

/-- What a round of the search adds to the addresses seen before. -/
def frontier (h : Heap) (seen : List Addr) : List Addr :=
  ((seen.flatMap h.childrenOf).filter fun a => !seen.contains a).eraseDups

theorem mem_frontier_iff {seen : List Addr} :
    b ∈ h.frontier seen ↔ (∃ a ∈ seen, b ∈ h.childrenOf a) ∧ b ∉ seen := by
  simp [frontier, List.mem_eraseDups]

theorem grow_succ (h : Heap) (n : Nat) (seen : List Addr) :
    h.grow (n + 1) seen =
      if (h.frontier seen).isEmpty then seen else h.grow n (seen ++ h.frontier seen) := rfl

theorem subset_grow (h : Heap) (n : Nat) (seen : List Addr) : seen ⊆ h.grow n seen := by
  induction n generalizing seen with
  | zero => exact List.Subset.refl _
  | succ n ih =>
    rw [grow_succ]
    split
    · exact List.Subset.refl _
    · exact List.Subset.trans (List.subset_append_left _ _) (ih _)

/-- The search finds nothing that is not reached. -/
theorem grow_sound (n : Nat) {seen : List Addr} (hseen : ∀ b ∈ seen, Reaches h roots b) :
    ∀ a ∈ h.grow n seen, Reaches h roots a := by
  induction n generalizing seen with
  | zero => exact hseen
  | succ n ih =>
    rw [grow_succ]
    split
    · exact hseen
    · refine ih fun b hb => ?_
      rcases List.mem_append.mp hb with hb | hb
      · exact hseen b hb
      · obtain ⟨⟨c, hc, hbc⟩, -⟩ := mem_frontier_iff.mp hb
        exact (hseen c hc).step hbc

/-- The addresses of the heap that have not been seen. -/
def unseen (h : Heap) (seen : List Addr) : List Addr :=
  (List.range h.size).filter fun a => !seen.contains a

theorem mem_unseen_iff {seen : List Addr} : a ∈ h.unseen seen ↔ a < h.size ∧ a ∉ seen := by
  simp [unseen]

/-- Seeing an address of the heap for the first time leaves fewer of them. -/
theorem unseen_lt {seen fresh : List Addr} (hb : b ∈ fresh) (hlt : b < h.size)
    (hnew : b ∉ seen) : (h.unseen (seen ++ fresh)).length < (h.unseen seen).length := by
  have hfilter : h.unseen (seen ++ fresh) =
      (h.unseen seen).filter fun a => !fresh.contains a := by
    simp [unseen, List.filter_filter, Bool.and_comm]
  rw [hfilter, List.length_filter_lt_length_iff_exists]
  exact ⟨b, mem_unseen_iff.mpr ⟨hlt, hnew⟩, by simpa using hb⟩

/-- With as many rounds as there are unseen addresses, nothing is left to be found. -/
theorem grow_closed (hclosed : h.Closed) (n : Nat) {seen : List Addr}
    (hn : (h.unseen seen).length ≤ n) :
    ∀ a ∈ h.grow n seen, ∀ b ∈ h.childrenOf a, b ∈ h.grow n seen := by
  induction n generalizing seen with
  | zero =>
    intro a _ b hb
    have hnil : h.unseen seen = [] := List.eq_nil_of_length_eq_zero (Nat.le_zero.mp hn)
    by_cases hmem : b ∈ seen
    · exact hmem
    · have hb : b ∈ h.unseen seen := mem_unseen_iff.mpr ⟨hclosed a b hb, hmem⟩
      rw [hnil] at hb
      exact absurd hb List.not_mem_nil
  | succ n ih =>
    rw [grow_succ]
    split
    · rename_i hempty
      intro a ha b hb
      by_cases hmem : b ∈ seen
      · exact hmem
      · have hb : b ∈ h.frontier seen := mem_frontier_iff.mpr ⟨⟨a, ha, hb⟩, hmem⟩
        rw [List.isEmpty_iff.mp hempty] at hb
        exact absurd hb List.not_mem_nil
    · rename_i hne
      obtain ⟨b, hb⟩ := List.exists_mem_of_ne_nil _ (mt List.isEmpty_iff.mpr hne)
      obtain ⟨⟨a, -, hab⟩, hnew⟩ := mem_frontier_iff.mp hb
      have hless := unseen_lt hb (hclosed a b hab) hnew
      exact ih (by omega)

/-- **The search finds exactly what is reached.** -/
theorem mem_reachable_iff (hclosed : h.Closed) : a ∈ h.reachable roots ↔ Reaches h roots a := by
  rw [reachable]
  constructor
  · refine grow_sound h.size ?_ a
    intro b hb
    exact .root (List.mem_eraseDups.mp hb)
  · refine Reaches.closed_under ?_ ?_
    · intro r hr
      exact subset_grow h h.size _ (List.mem_eraseDups.mpr hr)
    · have hn : (h.unseen roots.eraseDups).length ≤ h.size :=
        Nat.le_trans (List.length_filter_le _ _) (by simp)
      exact grow_closed hclosed h.size hn

/-! ## Sharing and cycles -/

/-- Some cell is reached from both values. -/
def Shares (h : Heap) (v w : Value) : Prop := ∃ a, Reaches h v.addrs a ∧ Reaches h w.addrs a

theorem Shares.symm (hshares : h.Shares v w) : h.Shares w v := by
  obtain ⟨a, hv, hw⟩ := hshares
  exact ⟨a, hw, hv⟩

/-- No cell that is reached from the value leads back to itself. -/
def Acyclic (h : Heap) (v : Value) : Prop :=
  ∀ a, Reaches h v.addrs a → ¬ Reaches h (h.childrenOf a) a

theorem closed_iff : h.Closed ↔ ∀ a, a < h.size → ∀ b ∈ h.childrenOf a, b < h.size := by
  refine ⟨fun hclosed a _ => hclosed a, fun hall a b hb => ?_⟩
  obtain ⟨c, hc, -⟩ := mem_childrenOf_iff.mp hb
  exact hall a (lt_of_get? hc) b hb

instance : Decidable h.Closed := decidable_of_iff _ closed_iff.symm

instance : Decidable (h.Holds v) := inferInstanceAs (Decidable (∀ a ∈ v.addrs, a < h.size))

theorem shares_iff (hclosed : h.Closed) :
    h.Shares v w ↔ ∃ a ∈ h.reachable v.addrs, a ∈ h.reachable w.addrs := by
  constructor
  · rintro ⟨a, hv, hw⟩
    exact ⟨a, (mem_reachable_iff hclosed).mpr hv, (mem_reachable_iff hclosed).mpr hw⟩
  · rintro ⟨a, hv, hw⟩
    exact ⟨a, (mem_reachable_iff hclosed).mp hv, (mem_reachable_iff hclosed).mp hw⟩

theorem acyclic_iff (hclosed : h.Closed) :
    h.Acyclic v ↔ ∀ a ∈ h.reachable v.addrs, a ∉ h.reachable (h.childrenOf a) := by
  constructor
  · intro hv a ha hback
    exact hv a ((mem_reachable_iff hclosed).mp ha) ((mem_reachable_iff hclosed).mp hback)
  · intro hv a ha hback
    exact hv a ((mem_reachable_iff hclosed).mpr ha) ((mem_reachable_iff hclosed).mpr hback)

end Heap
end ScriptHost
