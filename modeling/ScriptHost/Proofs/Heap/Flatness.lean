import ScriptHost.Proofs.Heap.Confinement

/-!
# Containers are not nested

A container is made around a value that is taken out of its own container first, and is given
another payload in the same way.  So no payload is a container, as long as nothing else makes one of
it: a cell keeps its kind when it is changed, a handle always leads to a container, and a copy of a
value is of the same kind as the value.

* `Heap.Fits`: what is asked of a single cell.
* `Heap.Flat`: a closed heap of such cells.
* `Heap.KeepsKinds`: no cell gets another kind; `KeepsKinds.flat` concludes that only the cells that
  are new or changed have to be looked at.
* `Flat.alloc`, `Flat.set_of_closed`, `Flat.copy`: one lemma for each kind of step.
* `Flat.wrap`, `Flat.contain`, `Flat.replace`, `Flat.clone`, `Flat.tryCast`, `Flat.build`: what is
  made of these steps.
-/

namespace ScriptHost
namespace Heap

variable {h h' : Heap} {a : Addr} {c d : Cell} {v : Value}

/-- The cell may stand in the heap: the payload of a container is no container, and a handle leads
to one. -/
def Fits (h : Heap) : Cell → Prop
  | .dynamic v => h.kindOf v ≠ .dynamic
  | .handle slot => h.kindOf (.ref slot) = .dynamic
  | _ => True

/-- No reference leads out of the heap, no payload is a container, and every handle leads to
one. -/
structure Flat (h : Heap) : Prop where
  closed : h.Closed
  fits : ∀ a c, h.get? a = some c → h.Fits c

theorem flat_empty : Flat empty where
  closed := closed_empty
  fits a c hc := absurd hc (by simp [get?, empty])

instance : Decidable (h.Fits c) :=
  match c with
  | .dynamic v => inferInstanceAs (Decidable (h.kindOf v ≠ .dynamic))
  | .handle slot => inferInstanceAs (Decidable (h.kindOf (.ref slot) = .dynamic))
  | .array _ | .map _ | .object .. => isTrue trivial

theorem flat_iff : h.Flat ↔ h.Closed ∧ ∀ a, a < h.size → ∀ c ∈ h.get? a, h.Fits c :=
  ⟨fun hflat => ⟨hflat.closed, fun a _ c hc => hflat.fits a c hc⟩,
    fun ⟨hclosed, hfits⟩ => ⟨hclosed, fun a c hc => hfits a (lt_of_get? hc) c hc⟩⟩

instance : Decidable h.Flat := decidable_of_iff _ flat_iff.symm

/-! ## Kinds of payloads -/

theorem kindOf_ref (hc : h.get? a = some c) : h.kindOf (.ref a) = c.kind := by
  rw [kindOf, hc]

theorem kind_eq_dynamic_iff : c.kind = .dynamic ↔ ∃ v, c = .dynamic v := by
  cases c <;> simp [Cell.kind]

theorem scalar_kind_ne (s : Scalar) : s.kind ≠ .dynamic := by
  cases s <;> exact nofun

/-- The containers are the values of that kind. -/
theorem kindOf_eq_dynamic_iff : h.kindOf v = .dynamic ↔ ∃ a, h.dynamic? v = some a := by
  cases v with
  | ref a =>
    simp only [dynamic?_eq_some_iff]
    rw [kindOf]
    cases hc : h.get? a with
    | none => simp [hc]
    | some c =>
      simp only [kind_eq_dynamic_iff]
      constructor
      · rintro ⟨w, rfl⟩
        exact ⟨a, rfl, w, hc⟩
      · rintro ⟨b, ⟨rfl⟩, w, hw⟩
        exact ⟨w, Option.some.inj (hc.symm.trans hw)⟩
  | scalar s => simp [kindOf, dynamic?, scalar_kind_ne s]
  | undefined single m => cases single <;> simp [kindOf, dynamic?]
  | tuple items => simp [kindOf, dynamic?]

/-- There is nothing to take a value out of that is no container. -/
theorem unwrap_of_kindOf_ne (hk : h.kindOf v ≠ .dynamic) : h.unwrap v = v := by
  rw [unwrap]
  cases ha : h.dynamic? v with
  | none => rfl
  | some a => exact absurd (kindOf_eq_dynamic_iff.mpr ⟨a, ha⟩) hk

/-- **No payload is a container.** -/
theorem Flat.kindOf_payload (hflat : h.Flat) (a : Addr) : h.kindOf (h.payload a) ≠ .dynamic := by
  rw [payload]
  split
  · rename_i v hv
    exact hflat.fits a _ hv
  · show Kind.unit ≠ .dynamic
    decide

/-- So a value without the container around it is no container. -/
theorem Flat.kindOf_unwrap (hflat : h.Flat) (v : Value) : h.kindOf (h.unwrap v) ≠ .dynamic := by
  rw [unwrap]
  split
  · exact hflat.kindOf_payload _
  · rename_i hnone
    intro hdynamic
    obtain ⟨a, ha⟩ := kindOf_eq_dynamic_iff.mp hdynamic
    exact absurd (hnone.symm.trans ha) (Option.some_ne_none a).symm

theorem Closed.holds_unwrap (hclosed : h.Closed) (hv : h.Holds v) : h.Holds (h.unwrap v) :=
  fun _ hb => (reaches_of_mem_unwrap hb).lt hclosed hv

/-! ## Steps -/

/-- No cell is taken away or gets another kind. -/
structure KeepsKinds (h h' : Heap) : Prop where
  size_le : h.size ≤ h'.size
  kindOf_ref : ∀ a, a < h.size → h'.kindOf (.ref a) = h.kindOf (.ref a)

theorem Extends.keepsKinds (hext : Extends h h') : h.KeepsKinds h' where
  size_le := hext.size_le
  kindOf_ref a ha := hext.kindOf fun b hb => by simp_all

theorem keepsKinds_set (hd : h.get? a = some d) (hkind : c.kind = d.kind) :
    h.KeepsKinds (h.set a c) where
  size_le := Nat.le_of_eq (size_set h a c).symm
  kindOf_ref b _ := by
    by_cases hba : b = a
    · rw [hba, Heap.kindOf_ref (get?_set_self (lt_of_get? hd) c), Heap.kindOf_ref hd, hkind]
    · rw [kindOf, kindOf, get?_set_of_ne h c hba]

namespace KeepsKinds

theorem kindOf (hkinds : h.KeepsKinds h') (hv : h.Holds v) : h'.kindOf v = h.kindOf v := by
  cases v with
  | ref a => exact hkinds.kindOf_ref a (hv a (by simp))
  | _ => rfl

/-- A cell that fits goes on to fit. -/
theorem fits (hkinds : h.KeepsKinds h') (hheld : ∀ b ∈ c.addrs, b < h.size) (hc : h.Fits c) :
    h'.Fits c := by
  cases c with
  | dynamic v =>
    rw [Fits, hkinds.kindOf hheld]
    exact hc
  | handle slot =>
    rw [Fits, hkinds.kindOf_ref slot (hheld slot (by simp [Cell.addrs]))]
    exact hc
  | _ => trivial

/-- Only the cells that are new or changed have to be looked at. -/
theorem flat (hkinds : h.KeepsKinds h') (hflat : h.Flat) (hclosed : h'.Closed)
    (hnew : ∀ a c, h'.get? a = some c → h.get? a = some c ∨ h'.Fits c) : h'.Flat where
  closed := hclosed
  fits a c hc := by
    rcases hnew a c hc with hold | hfits
    · refine hkinds.fits (fun b hb => ?_) (hflat.fits a c hold)
      exact hflat.closed a b (mem_childrenOf_iff.mpr ⟨c, hold, hb⟩)
    · exact hfits

end KeepsKinds

namespace Flat

variable (hflat : h.Flat)
include hflat

theorem mark (single : Bool) : (h.mark single).2.Flat where
  closed := (annexed_mark hflat.closed single).closed
  fits a c hc := by
    have hext : Extends h (h.mark single).2 := (annexed_mark hflat.closed single).toExtends
    refine hext.keepsKinds.fits (fun b hb => ?_) (hflat.fits a c hc)
    exact hflat.closed a b (mem_childrenOf_iff.mpr ⟨c, hc, hb⟩)

/-- A new cell that fits into the heap with it. -/
theorem alloc_of_closed (hclosed : (h.alloc c).2.Closed) (hc : (h.alloc c).2.Fits c) :
    (h.alloc c).2.Flat := by
  refine (extends_alloc h c).keepsKinds.flat hflat hclosed fun a d hd => ?_
  rw [get?_alloc] at hd
  split at hd
  · rw [← Option.some.inj hd]
    exact .inr hc
  · exact .inl hd

theorem alloc (hheld : ∀ b ∈ c.addrs, b < h.size) (hc : h.Fits c) : (h.alloc c).2.Flat :=
  hflat.alloc_of_closed (hflat.closed.alloc hheld) ((extends_alloc h c).keepsKinds.fits hheld hc)

/-- Another cell of the same kind that fits into the heap with it. -/
theorem set_of_closed (hd : h.get? a = some d) (hkind : c.kind = d.kind)
    (hclosed : (h.set a c).Closed) (hc : (h.set a c).Fits c) : (h.set a c).Flat := by
  refine (keepsKinds_set hd hkind).flat hflat hclosed fun b e he => ?_
  by_cases hba : b = a
  · rw [hba, get?_set_self (lt_of_get? hd)] at he
    exact .inr (Option.some.inj he ▸ hc)
  · rw [get?_set_of_ne h c hba] at he
    exact .inl he

/-- The parts of a copy have the kinds of the parts that are copied, so a copied cell fits where the
cell fits. -/
theorem copy (hv : h.Holds v) : (h.copy v).2.Flat := by
  have hnew := annexed_copy hflat.closed hv
  refine hnew.toExtends.keepsKinds.flat hflat hnew.closed fun a c hc => ?_
  by_cases ha : a < h.size
  · rw [hnew.get?_eq a ha] at hc
    exact .inl hc
  · obtain ⟨i, rfl⟩ := Nat.exists_eq_add_of_le (Nat.not_lt.mp ha)
    rw [get?_copy, Option.map_eq_some_iff] at hc
    obtain ⟨source, hi, rfl⟩ := hc
    have hsource := (mem_reachable_iff hflat.closed).mp (List.mem_of_getElem? hi)
    obtain ⟨d, hd⟩ := exists_get? (hsource.lt hflat.closed hv)
    have hparts : ∀ b ∈ d.addrs, b ∈ h.reachable v.addrs ∧ b < h.size := by
      intro b hb
      have hchild := mem_childrenOf_iff.mpr ⟨d, hd, hb⟩
      exact ⟨(mem_reachable_iff hflat.closed).mpr (hsource.step hchild),
        hflat.closed source b hchild⟩
    have hfits := hflat.fits source d hd
    rw [hd, Option.getD_some]
    refine .inr ?_
    cases d with
    | dynamic w => exact fun hdynamic => hfits ((kindOf_rename hparts).symm.trans hdynamic)
    | handle slot =>
      have hslot : ∀ b ∈ (Value.ref slot).addrs, b ∈ h.reachable v.addrs ∧ b < h.size := by
        rw [Value.addrs_ref]
        exact hparts
      exact (kindOf_rename hslot).trans hfits
    | _ => trivial

/-! ## Containers, casts and data -/

theorem wrap (hv : h.Holds v) : (h.wrap v).2.Flat :=
  hflat.alloc (c := .dynamic (h.unwrap v)) (hflat.closed.holds_unwrap hv) (hflat.kindOf_unwrap v)

theorem contain (hv : h.Holds v) : (h.contain v).2.Flat := by
  rw [Heap.contain]
  split
  · exact hflat
  · exact hflat.wrap hv

/-- The container that a handle leads to is given another payload. -/
theorem replace (ha : h.kindOf (.ref a) = .dynamic) (hv : h.Holds v) : (h.replace a v).Flat := by
  obtain ⟨b, hb⟩ := kindOf_eq_dynamic_iff.mp ha
  obtain ⟨⟨rfl⟩, w, hw⟩ := dynamic?_eq_some_iff.mp hb
  have hknown : Knows .all h v.addrs := fun b hb => ⟨hv b hb, trivial⟩
  have hstays := hflat.closed.within_all.stays_replace (a := a) trivial trivial hknown
  refine hflat.set_of_closed hw rfl hstays.within.closed ?_
  have hkinds := keepsKinds_set (c := .dynamic (h.unwrap v)) hw rfl
  exact hkinds.fits (hflat.closed.holds_unwrap hv) (hflat.kindOf_unwrap v)

theorem clone (a : Addr) : (h.clone a).2.Flat := by
  have hpayload := hflat.closed.holds_payload a
  have hnew := annexed_copy hflat.closed hpayload
  exact (hflat.copy hpayload).wrap fun b hb => (hnew.added b hb).2

theorem tryCast (a : Addr) (k : Kind) : (h.tryCast a k).2.Flat := by
  by_cases hk : k = .dynamic
  · rw [hk, tryCast_dynamic]
    exact hflat.clone a
  · by_cases hpayload : h.kindOf (h.payload a) = k
    · rw [tryCast_of_kindOf hk hpayload]
      exact hflat.copy (hflat.closed.holds_payload a)
    · rw [tryCast_of_kindOf_ne hk hpayload]
      exact hflat

theorem buildScalar (s : Scalar) : (h.buildScalar s).2.Flat := by
  rw [Heap.buildScalar.eq_def]
  split
  · exact hflat.mark false
  · exact hflat.mark true
  · exact hflat

/-- A handle onto a container. -/
theorem allocHandle (ha : h.kindOf (.ref a) = .dynamic) : (h.alloc (.handle a)).2.Flat := by
  refine hflat.alloc (fun b hb => ?_) ha
  rw [List.mem_singleton.mp hb]
  exact lt_of_kindOf ha

end Flat

mutual

theorem Flat.build : ∀ (d : Datum) {h : Heap}, h.Flat → (h.build d).2.Flat
  | .scalar s, _, hflat => by
    rw [Heap.build]
    exact hflat.buildScalar s
  | .array items, _, hflat => by
    have hitems := annexed_buildAll items hflat.closed
    exact (Flat.buildAll items hflat).alloc (fun b hb => (hitems.added b hb).2) trivial
  | .map entries, _, hflat => by
    have hentries := annexed_buildEntries entries hflat.closed
    exact (Flat.buildEntries entries hflat).alloc (fun b hb => (hentries.added b hb).2) trivial
  | .tuple items, _, hflat => Flat.buildAll items hflat
  | .object cls fields, _, hflat => by
    have hfields := annexed_buildFields fields hflat.closed
    exact (Flat.buildFields fields hflat).alloc (fun b hb => (hfields.added b hb).2) trivial
  | .dynamic d, _, hflat => by
    have hpayload := annexed_build d hflat.closed
    exact (Flat.build d hflat).wrap fun b hb => (hpayload.added b hb).2
  | .handle d, _, hflat => by
    have hpayload := annexed_build d hflat.closed
    refine ((Flat.build d hflat).wrap fun b hb => (hpayload.added b hb).2).allocHandle ?_
    exact kindOf_ref (get?_alloc_self _ _)

theorem Flat.buildAll : ∀ (ds : List Datum) {h : Heap}, h.Flat → (h.buildAll ds).2.Flat
  | [], _, hflat => hflat
  | d :: rest, _, hflat => Flat.buildAll rest (Flat.build d hflat)

theorem Flat.buildEntries :
    ∀ (es : List (Datum × Datum)) {h : Heap}, h.Flat → (h.buildEntries es).2.Flat
  | [], _, hflat => hflat
  | (key, value) :: rest, _, hflat =>
    Flat.buildEntries rest (Flat.build value (Flat.build key hflat))

theorem Flat.buildFields :
    ∀ (fs : List (String × Datum)) {h : Heap}, h.Flat → (h.buildFields fs).2.Flat
  | [], _, hflat => hflat
  | (_, value) :: rest, _, hflat => Flat.buildFields rest (Flat.build value hflat)

end

end Heap
end ScriptHost
