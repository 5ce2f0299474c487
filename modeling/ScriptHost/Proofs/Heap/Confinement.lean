import ScriptHost.Proofs.Heap.Copying

/-!
# Staying within a part of the heap

A body can only change what it can reach.  To say this for every body at once, a part of the
heap is fixed before the call: a `Territory` says which addresses are inside of it, and which
containers may be given another payload.  Both are predicates on addresses that do not change
while the heap does; addresses that are not in use yet belong to every territory.

* `Within T h`: no reference leads from inside to outside, and a handle that is inside leads
  to a container that may be given another payload.
* `Kept T h h'`: the cells outside are as they were, and so are the containers that may not
  be given another payload.
* `Knows T h as`: the addresses are of cells inside.
* `Stays T h as h'`: one step from `h` to `h'` that gives values with the addresses `as`.
  `Stays.append` puts steps together, and there is one lemma for each kind of step:
  `Annexed.stays` for new values, `Within.stays_alloc` for a new cell around known values,
  `Within.stays_set` for a change of a cell, and lemmas for containers that are made of them.
-/

namespace ScriptHost
namespace Heap

/-- A part of the heap, and the containers whose payload may be replaced. -/
structure Territory where
  inside : Addr → Prop
  slots : Addr → Prop

/-- All of the heap, with nothing that may not be changed. -/
def Territory.all : Territory := ⟨fun _ => True, fun _ => True⟩

/-- Nothing leads out of the territory. -/
structure Within (T : Territory) (h : Heap) : Prop where
  closed : h.Closed
  fresh : ∀ a, h.size ≤ a → T.inside a ∧ T.slots a
  children : ∀ a, T.inside a → ∀ b ∈ h.childrenOf a, T.inside b
  handles : ∀ a slot, T.inside a → h.get? a = some (.handle slot) → T.slots slot

/-- What is not of the territory is unchanged. -/
structure Kept (T : Territory) (h h' : Heap) : Prop where
  size_le : h.size ≤ h'.size
  outside : ∀ a, ¬ T.inside a → h'.get? a = h.get? a
  payload : ∀ a v, ¬ T.slots a → h.get? a = some (.dynamic v) → h'.get? a = some (.dynamic v)

/-- The addresses are of cells in the territory. -/
def Knows (T : Territory) (h : Heap) (as : List Addr) : Prop := ∀ a ∈ as, a < h.size ∧ T.inside a

/-- A step that stays within the territory and gives values with these addresses. -/
structure Stays (T : Territory) (h : Heap) (as : List Addr) (h' : Heap) : Prop where
  within : Within T h'
  kept : Kept T h h'
  knows : Knows T h' as

variable {T : Territory} {h h₁ h₂ : Heap} {a b : Addr} {c : Cell} {v w : Value}
  {as bs : List Addr}

theorem Closed.within_all (hclosed : h.Closed) : Within .all h :=
  ⟨hclosed, fun _ _ => ⟨trivial, trivial⟩, fun _ _ _ _ => trivial, fun _ _ _ _ => trivial⟩

theorem Kept.refl (T : Territory) (h : Heap) : Kept T h h :=
  ⟨Nat.le_refl _, fun _ _ => rfl, fun _ _ _ => id⟩

theorem Kept.trans (h₀₁ : Kept T h h₁) (h₁₂ : Kept T h₁ h₂) : Kept T h h₂ where
  size_le := Nat.le_trans h₀₁.size_le h₁₂.size_le
  outside a ha := by rw [h₁₂.outside a ha, h₀₁.outside a ha]
  payload a v ha hv := h₁₂.payload a v ha (h₀₁.payload a v ha hv)

theorem knows_nil (T : Territory) (h : Heap) : Knows T h [] := fun _ ha =>
  absurd ha List.not_mem_nil

theorem knows_append_iff : Knows T h (as ++ bs) ↔ Knows T h as ∧ Knows T h bs :=
  List.forall_mem_append

theorem Knows.mono (has : Knows T h as) (hsub : bs ⊆ as) : Knows T h bs :=
  fun b hb => has b (hsub hb)

theorem Knows.after (has : Knows T h as) (hle : h.size ≤ h₁.size) : Knows T h₁ as :=
  fun a ha => ⟨Nat.lt_of_lt_of_le (has a ha).1 hle, (has a ha).2⟩

/-- What is reached from inside is inside. -/
theorem Knows.reaches (has : Knows T h as) (hT : Within T h) (hb : Reaches h as b) :
    b < h.size ∧ T.inside b :=
  hb.closed_under (P := fun b => b < h.size ∧ T.inside b) has
    fun a ha b hb => ⟨hT.closed a b hb, hT.children a ha.2 b hb⟩

theorem Knows.children (ha : T.inside a) (hT : Within T h) : Knows T h (h.childrenOf a) :=
  fun b hb => ⟨hT.closed a b hb, hT.children a ha b hb⟩

/-- Values of the heap belong to the whole of it. -/
theorem knows_all {vs : List Value} (hvs : ∀ v ∈ vs, h.Holds v) :
    Knows .all h (Value.addrsAll vs) := by
  intro a ha
  obtain ⟨v, hv, ha⟩ := Value.mem_addrsAll_iff.mp ha
  exact ⟨hvs v hv a ha, trivial⟩

/-! ## Steps -/

/-- Where all of the heap may be changed, only its size and its references count. -/
theorem stays_all (hle : h.size ≤ h₁.size) (hclosed : h₁.Closed) (has : ∀ a ∈ as, a < h₁.size) :
    Stays .all h as h₁ :=
  ⟨hclosed.within_all, ⟨hle, fun _ ha => absurd trivial ha, fun _ _ ha => absurd trivial ha⟩,
    fun a ha => ⟨has a ha, trivial⟩⟩

theorem Within.stays (hT : Within T h) (has : Knows T h as) : Stays T h as h :=
  ⟨hT, .refl T h, has⟩

theorem Stays.mono (hstep : Stays T h as h₁) (hsub : bs ⊆ as) : Stays T h bs h₁ :=
  ⟨hstep.within, hstep.kept, hstep.knows.mono hsub⟩

/-- Steps one after another give the values of all of them. -/
theorem Stays.append (hfirst : Stays T h as h₁) (hsecond : Stays T h₁ bs h₂) :
    Stays T h (as ++ bs) h₂ where
  within := hsecond.within
  kept := hfirst.kept.trans hsecond.kept
  knows := knows_append_iff.mpr
    ⟨hfirst.knows.after hsecond.kept.size_le, hsecond.knows⟩

theorem Stays.trans (hfirst : Stays T h as h₁) (hsecond : Stays T h₁ bs h₂) : Stays T h bs h₂ :=
  (hfirst.append hsecond).mono (List.subset_append_right _ _)

/-- New values belong to every territory. -/
theorem Annexed.stays (hnew : Annexed h as h₁) (hT : Within T h) : Stays T h as h₁ where
  within := by
    refine ⟨hnew.closed, fun a ha => hT.fresh a (Nat.le_trans hnew.size_le ha), ?_, ?_⟩
    · intro a ha b hb
      by_cases hlt : a < h.size
      · rw [childrenOf_congr (hnew.get?_eq a hlt)] at hb
        exact hT.children a ha b hb
      · exact (hT.fresh b (hnew.apart a (Nat.not_lt.mp hlt) b hb)).1
    · intro a slot ha hc
      by_cases hlt : a < h.size
      · exact hT.handles a slot ha (hnew.get?_eq a hlt ▸ hc)
      · have hslot : slot ∈ h₁.childrenOf a :=
          mem_childrenOf_iff.mpr ⟨_, hc, List.mem_singleton_self slot⟩
        exact (hT.fresh slot (hnew.apart a (Nat.not_lt.mp hlt) slot hslot)).2
  kept := by
    refine ⟨hnew.size_le, ?_, ?_⟩
    · intro a ha
      by_cases hlt : a < h.size
      · exact hnew.get?_eq a hlt
      · exact absurd (hT.fresh a (Nat.not_lt.mp hlt)).1 ha
    · intro a v _ hv
      exact hnew.get?_eq_some hv
  knows a ha := ⟨(hnew.added a ha).2, (hT.fresh a (hnew.added a ha).1).1⟩

/-- A new cell around known values. -/
theorem Within.stays_alloc (hT : Within T h) (hc : Knows T h c.addrs)
    (hslot : ∀ slot, c = .handle slot → T.slots slot) : Stays T h [h.size] (h.alloc c).2 where
  within := by
    refine ⟨hT.closed.alloc fun a ha => (hc a ha).1, ?_, ?_, ?_⟩
    · intro a ha
      rw [size_alloc] at ha
      exact hT.fresh a (Nat.le_of_succ_le ha)
    · intro a ha b hb
      by_cases heq : a = h.size
      · rw [heq, childrenOf_eq_of_get? (get?_alloc_self h c)] at hb
        exact (hc b hb).2
      · rw [childrenOf_congr (get?_alloc_of_ne h c heq)] at hb
        exact hT.children a ha b hb
    · intro a slot ha hget
      by_cases heq : a = h.size
      · rw [heq, get?_alloc_self] at hget
        exact hslot slot (Option.some.inj hget)
      · rw [get?_alloc_of_ne h c heq] at hget
        exact hT.handles a slot ha hget
  kept := by
    refine ⟨by simp, ?_, ?_⟩
    · intro a ha
      refine get?_alloc_of_ne h c fun heq => ha ?_
      exact (hT.fresh a (Nat.le_of_eq heq.symm)).1
    · intro a v _ hv
      rw [get?_alloc_of_ne h c (Nat.ne_of_lt (lt_of_get? hv)), hv]
  knows a ha := by
    rw [List.mem_singleton.mp ha, size_alloc]
    exact ⟨Nat.lt_succ_self _, (hT.fresh _ (Nat.le_refl _)).1⟩

/-- Another cell in place of one that is inside and is not a container, or may be given
another payload. -/
theorem Within.stays_set (hT : Within T h) (ha : T.inside a) (hc : Knows T h c.addrs)
    (hslot : ∀ slot, c = .handle slot → T.slots slot)
    (hpayload : ∀ v, h.get? a = some (.dynamic v) → T.slots a) : Stays T h [] (h.set a c) where
  within := by
    have hget : ∀ x d, (h.set a c).get? x = some d → x = a ∧ d = c ∨ h.get? x = some d := by
      intro x d hx
      by_cases heq : x = a
      · subst heq
        have hlt : x < h.size := size_set h x c ▸ lt_of_get? hx
        rw [get?_set_self hlt] at hx
        exact Or.inl ⟨rfl, (Option.some.inj hx).symm⟩
      · rw [get?_set_of_ne h c heq] at hx
        exact Or.inr hx
    have hchild : ∀ x b, b ∈ (h.set a c).childrenOf x → b ∈ c.addrs ∨ b ∈ h.childrenOf x := by
      intro x b hb
      obtain ⟨d, hd, hbd⟩ := mem_childrenOf_iff.mp hb
      rcases hget x d hd with ⟨-, heq⟩ | hd
      · exact Or.inl (heq ▸ hbd)
      · exact Or.inr (mem_childrenOf_iff.mpr ⟨d, hd, hbd⟩)
    refine ⟨?_, ?_, ?_, ?_⟩
    · intro x b hb
      rw [size_set]
      exact (hchild x b hb).elim (fun hb => (hc b hb).1) (hT.closed x b)
    · intro x hx
      rw [size_set] at hx
      exact hT.fresh x hx
    · intro x hx b hb
      exact (hchild x b hb).elim (fun hb => (hc b hb).2) (hT.children x hx b)
    · intro x slot hx hd
      rcases hget x _ hd with ⟨-, rfl⟩ | hd
      · exact hslot slot rfl
      · exact hT.handles x slot hx hd
  kept := by
    refine ⟨by simp, ?_, ?_⟩
    · rintro x hx
      exact get?_set_of_ne h c fun heq => hx (heq ▸ ha)
    · intro x v hx hv
      have hne : x ≠ a := by
        rintro rfl
        exact hx (hpayload v hv)
      rw [get?_set_of_ne h c hne, hv]
  knows := knows_nil T _

/-! ## Containers -/

theorem Knows.unwrap (hv : Knows T h v.addrs) (hT : Within T h) :
    Knows T h (h.unwrap v).addrs :=
  fun _ hb => hv.reaches hT (reaches_of_mem_unwrap hb)

theorem Within.stays_wrap (hT : Within T h) (hv : Knows T h v.addrs) :
    Stays T h [(h.wrap v).1] (h.wrap v).2 :=
  hT.stays_alloc (hv.unwrap hT) fun _ => nofun

theorem Within.stays_contain (hT : Within T h) (hv : Knows T h v.addrs) :
    Stays T h [(h.contain v).1] (h.contain v).2 := by
  rw [contain]
  split
  · rename_i a ha
    have hroot : [a] ⊆ v.addrs := by simp [(dynamic?_eq_some_iff.mp ha).1]
    exact hT.stays (hv.mono hroot)
  · exact hT.stays_wrap hv

theorem Within.stays_replace (hT : Within T h) (ha : T.inside a) (hslot : T.slots a)
    (hv : Knows T h v.addrs) : Stays T h [] (h.replace a v) :=
  hT.stays_set ha (hv.unwrap hT) (fun _ => nofun) fun _ _ => hslot

end Heap
end ScriptHost
