import ScriptHost.Proofs.Call.Invariants
import ScriptHost.Proofs.Heap.Flatness

/-!
# Runs do not nest containers

An operation of a body makes an array, makes a container around a value, gives another payload to
the container that a handle leads to, changes a cell that is neither a container nor a handle, or
leaves the heap as it is.  None of this puts a container into another one, and neither does anything
else that a run is made of, so a run on a flat heap stays on flat heaps.

* `Operation.Changes`, `Operation.changes_run`: what an operation does to the heap.
* `Heap.invariant_flat`: flatness is an invariant of runs.
* `Linkage.dynamic_notMem_kindsOf`: on a flat heap no call looks for a function that takes a
  container.
-/

namespace ScriptHost

open Heap

variable {h h' : Heap} {a : Addr} {c d : Cell} {v w : Value} {vs : List Value}

namespace Operation

/-- What an operation on values does to the heap. -/
inductive Changes (vs : List Value) (h : Heap) : Heap → Prop
  | none : Changes vs h h
  | collects (items : List Value) : Changes vs h (h.allocValue (.array items)).2
  | wraps {v : Value} (hv : v ∈ vs) : Changes vs h (h.wrap v).2
  | assigns {a slot : Addr} {v : Value} (ha : h.get? a = some (.handle slot)) (hv : v ∈ vs) :
      Changes vs h (h.replace slot v)
  /-- An array, a map or an object gets other parts. -/
  | changes {a : Addr} {c d : Cell} (ha : h.get? a = some c) (hkind : d.kind = c.kind)
      (hcontainer : ∀ v, c ≠ .dynamic v) (hhandle : ∀ slot, c ≠ .handle slot) :
      Changes vs h (h.set a d)

/-- What an operation that gives a value does to the heap. -/
def Leaves (vs : List Value) (h : Heap) : Except Fault (Value × Heap) → Prop
  | .ok (_, h') => Changes vs h h'
  | .error _ => True

theorem leaves_unfit {op : Operation} : Leaves vs h op.unfit := trivial

theorem leaves_set (hc : h.cell? v = some (a, c)) (hkind : d.kind = c.kind)
    (hcontainer : ∀ v, c ≠ .dynamic v) (hhandle : ∀ slot, c ≠ .handle slot) :
    Leaves vs h (.ok (.unit, h.set a d)) :=
  .changes (cell?_eq_some_iff.mp hc).2 hkind hcontainer hhandle

theorem leaves_getItem (v key : Value) : Leaves vs h (getItem h v key) := by
  rw [getItem.eq_def]
  split
  · split
    · exact .none
    · trivial
  · split
    · exact .none
    · trivial
  · exact leaves_unfit

theorem leaves_putItem (v key new : Value) : Leaves vs h (putItem h v key new) := by
  rw [putItem.eq_def]
  split
  · rename_i hc
    split
    · exact leaves_set hc rfl (by simp) (by simp)
    · trivial
  · rename_i hc
    exact leaves_set hc rfl (by simp) (by simp)
  · exact leaves_unfit

theorem leaves_sum (v w : Value) : Leaves vs h (sum h v w) := by
  rw [sum.eq_def]
  split
  · exact .none
  · exact .none
  · exact .collects _
  · exact leaves_unfit

theorem leaves_onIntegers (op : Operation) (v w : Value) (f : Int → Int → Except Fault Int) :
    Leaves vs h (onIntegers op h v w f) := by
  rw [onIntegers.eq_def]
  split
  · rename_i m n _ _
    cases f m n with
    | ok k => exact .none
    | error e => trivial
  · exact leaves_unfit

theorem leaves_compare (op : Operation) (v w : Value) (onInt : Int → Int → Bool)
    (onText : String → String → Bool) : Leaves vs h (compare op h v w onInt onText) := by
  rw [compare.eq_def]
  split
  · exact .none
  · exact .none
  · exact leaves_unfit

/-- **An operation makes at most one change.** -/
theorem leaves_run (places : Precision) (op : Operation) (vs : List Value) (h : Heap) :
    Leaves vs h (op.run places vs h) := by
  rw [run.eq_def]
  split
  · -- payload
    split
    · exact .none
    · exact .none
    · exact leaves_unfit
  · -- contain
    exact .wraps (by simp)
  · -- kindName
    split
    · exact .none
    · exact leaves_unfit
  · -- passing
    split
    · exact .none
    · exact .none
    · exact .none
  · -- text
    split
    · exact .none
    · trivial
  · -- collect
    exact .collects _
  · -- length
    split
    · exact .none
    · exact leaves_unfit
  · -- field
    split
    · split
      · exact .none
      · exact leaves_unfit
    · exact leaves_unfit
  · exact leaves_getItem _ _
  · exact leaves_sum _ _
  · exact leaves_onIntegers _ _ _ _
  · exact leaves_onIntegers _ _ _ _
  · exact leaves_compare _ _ _ _ _
  · exact leaves_compare _ _ _ _ _
  · -- assign
    split
    · rename_i hc
      exact .assigns (cell?_eq_some_iff.mp hc).2 (by simp)
    · exact leaves_unfit
  · -- push
    split
    · rename_i hc
      exact leaves_set hc rfl (by simp) (by simp)
    · exact leaves_unfit
  · exact leaves_putItem _ _ _
  · -- setField
    split
    · rename_i hc
      exact leaves_set hc rfl (by simp) (by simp)
    · exact leaves_unfit
  · exact leaves_unfit

end Operation

/-- A change of a flat heap that stays closed leaves a flat heap. -/
theorem Operation.Changes.flat (hchange : Changes vs h h') (hflat : h.Flat) (hclosed : h'.Closed)
    (hvs : ∀ v ∈ vs, h.Holds v) : h'.Flat := by
  cases hchange with
  | none => exact hflat
  | collects items => exact hflat.alloc_of_closed hclosed trivial
  | wraps hv => exact hflat.wrap (hvs _ hv)
  | assigns ha hv => exact hflat.replace (hflat.fits _ _ ha) (hvs _ hv)
  | @changes a c d ha hkind hcontainer hhandle =>
    refine hflat.set_of_closed ha hkind hclosed ?_
    cases c with
    | dynamic v => exact absurd rfl (hcontainer v)
    | handle slot => exact absurd rfl (hhandle slot)
    | _ => cases d <;> trivial

/-- **Flatness is an invariant of runs.** -/
theorem Heap.invariant_flat : Heap.Invariant Flat where
  closed hflat := hflat.closed
  build d hflat := hflat.build d
  operation {h h' places op vs v} hflat hvs hrun := by
    have hchange := Operation.leaves_run places op vs h
    have hconfined := Operation.confined_run hflat.closed.within_all places op hvs
    rw [hrun] at hchange hconfined
    refine hchange.flat hflat hconfined.within.closed fun u hu b hb => ?_
    exact (hvs b (Value.mem_addrsAll_of_mem hu hb)).1
  contain hflat hv := hflat.contain fun b hb => (hv b hb).1
  tryCast a k hflat := hflat.tryCast a k
  handle hflat ha := hflat.allocHandle ha

/-- **On a flat heap no call looks for a function that takes a container.** -/
theorem Linkage.dynamic_notMem_kindsOf (hflat : h.Flat) (vs : List Value) :
    Kind.dynamic ∉ kindsOf h vs := by
  intro hmem
  obtain ⟨v, -, hv⟩ := List.mem_map.mp hmem
  exact hflat.kindOf_unwrap v hv

end ScriptHost
