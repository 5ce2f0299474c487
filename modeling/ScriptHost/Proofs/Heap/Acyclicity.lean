import Mathlib.Data.Fintype.EquivFin
import ScriptHost.Proofs.Heap.Flatness
import ScriptHost.Proofs.Heap.Reading

/-!
# A value without cycles has a datum

Reading fails at an address only if it fails at one that is followed from there.  In a heap in
which every handle leads to a container this is the only way to fail, so a failure would go on
for ever; and there is no way on for ever from a value without cycles, since only finitely many
cells are reached from it.

* `Flat.isSome_readStep`: a cell is read if all that it follows is.
* `Acyclic.wellFounded`: among the addresses reached from a value without cycles, following
  references ends.
* `Flat.exists_read?`: so such a value has a datum.
-/

namespace ScriptHost
namespace Heap

variable {h : Heap} {f : Addr → Option Datum} {a b : Addr} {v : Value}

/-! ## One step -/

/-- A cell is read if all that it follows is: a handle leads to a container. -/
theorem Flat.isSome_readStep (hflat : h.Flat) (ha : a < h.size)
    (hall : ∀ b ∈ h.followed a, (f b).isSome) : (h.readStep f a).isSome := by
  obtain ⟨c, hc⟩ := exists_get? ha
  rw [followed, hc] at hall
  rw [readStep, hc]
  cases c with
  | array items => exact Option.isSome_map.trans ((isSome_readAll_iff items).mpr hall)
  | map entries => exact Option.isSome_map.trans (isSome_readEntries_iff.mpr hall)
  | object cls fields => exact Option.isSome_map.trans (isSome_readFields_iff.mpr hall)
  | dynamic v => exact Option.isSome_map.trans ((isSome_readWith_iff v).mpr hall)
  | handle slot =>
    obtain ⟨b, hb⟩ := kindOf_eq_dynamic_iff.mp (hflat.fits a _ hc)
    obtain ⟨⟨rfl⟩, w, hw⟩ := dynamic?_eq_some_iff.mp hb
    simp only [payload, hw] at hall ⊢
    exact Option.isSome_map.trans ((isSome_readWith_iff w).mpr hall)

/-! ## All steps -/

/-- Following references from a value without cycles comes to an end. -/
theorem Acyclic.wellFounded (hacyclic : h.Acyclic v) (hclosed : h.Closed) (hv : h.Holds v) :
    WellFounded fun b a : {a // Reaches h v.addrs a} => Reaches h (h.childrenOf a) b := by
  have hfinite : Finite {a // Reaches h v.addrs a} := by
    refine Finite.of_injective (fun a => (⟨a, a.2.lt hclosed hv⟩ : Fin h.size)) fun a b hab => ?_
    exact Subtype.ext (Fin.mk.inj hab)
  have htrans : IsTrans {a // Reaches h v.addrs a} fun b a => Reaches h (h.childrenOf a) b :=
    ⟨fun _ _ _ hcb hba => hcb.trans fun _ hr => hba.step hr⟩
  have hirrefl : Std.Irrefl fun b a : {a // Reaches h v.addrs a} => Reaches h (h.childrenOf a) b :=
    ⟨fun a => hacyclic a a.2⟩
  exact Finite.wellFounded_of_trans_of_irrefl _

/-- **A value without cycles has a datum.** -/
theorem Flat.exists_read? (hflat : h.Flat) (hv : h.Holds v) (hacyclic : h.Acyclic v) :
    ∃ d, h.read? v = some d := by
  have hread : ∀ a : {a // Reaches h v.addrs a}, (h.readCell h.size a).isSome := by
    intro a
    induction a using (hacyclic.wellFounded hflat.closed hv).induction with
    | _ a ih =>
      rw [← readCell_of_size_le (Nat.le_succ _), readCell_succ]
      refine hflat.isSome_readStep (a.2.lt hflat.closed hv) fun b hb => ?_
      exact ih ⟨b, a.2.followed hb⟩ (reaches_of_mem_followed hb)
  exact Option.isSome_iff_exists.mp ((isSome_readWith_iff v).mpr fun a ha => hread ⟨a, .root ha⟩)

end Heap
end ScriptHost
