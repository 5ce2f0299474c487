import ScriptHost.Proofs.Heap.Flatness
import ScriptHost.Proofs.Heap.Reading

/-!
# A copy is the same graph on new cells

A copy is made by renaming: the cells that a value reaches are written once more, with every
address moved.  What makes it a faithful copy is said of the renaming alone.  It sends no two of
the addresses reached to one, so cells are shared in the copy just where they are shared in the
original, and the cell at the new address is the old one with its parts renamed, so kinds,
scalars and the order of items are those of the original.

* `Mirrors r h roots h'`: the renaming `r` takes what is reached from `roots` in `h` to new
  cells of `h'` with the same contents.
* `Mirrors.reaches_iff`: so it takes what is reached from `roots` to all that is reached from
  the renamed roots.
* `Mirrors.kindOf_rename`, `Mirrors.read?_rename`: renamed values have the same kinds and read
  as the same data.
* `mirrors_copy`, `mirrors_clone`: copies of values, and of containers with their payloads.
-/

namespace ScriptHost
namespace Heap

variable {h h' h'' : Heap} {r : Renaming} {f : Addr → Option Datum} {roots : List Addr}
  {a b : Addr} {c : Cell} {v : Value}

/-! ## Reading what is renamed -/

mutual

theorem readWith_rename (f : Addr → Option Datum) (r : Renaming) :
    ∀ v : Value, readWith f (v.rename r) = readWith (fun a => f (r.addr a)) v
  | .scalar s => rfl
  | .undefined true m => rfl
  | .undefined false m => rfl
  | .tuple items => by rw [Value.rename, readWith, readWith, readAll_renameAll f r items]
  | .ref a => rfl

theorem readAll_renameAll (f : Addr → Option Datum) (r : Renaming) :
    ∀ vs : List Value, readAll f (Value.renameAll r vs) = readAll (fun a => f (r.addr a)) vs
  | [] => rfl
  | v :: rest => by
    rw [Value.renameAll, readAll, readAll, readWith_rename f r v, readAll_renameAll f r rest]

end

theorem readEntries_rename (f : Addr → Option Datum) (r : Renaming)
    (entries : List (Value × Value)) :
    readEntries f (entries.map fun (k, v) => (k.rename r, v.rename r)) =
      readEntries (fun a => f (r.addr a)) entries := by
  induction entries with
  | nil => rfl
  | cons entry rest ih =>
    rw [List.map_cons, readEntries_cons, readEntries_cons, ih, readWith_rename, readWith_rename]

theorem readFields_rename (f : Addr → Option Datum) (r : Renaming)
    (fields : List (String × Value)) :
    readFields f (fields.map fun (name, v) => (name, v.rename r)) =
      readFields (fun a => f (r.addr a)) fields := by
  induction fields with
  | nil => rfl
  | cons field rest ih =>
    rw [List.map_cons, readFields_cons, readFields_cons, ih, readWith_rename]

/-- A step of reading at a renamed cell reads what the cell refers to where it has been moved. -/
theorem readStep_rename (hget : h'.get? (r.addr a) = (h.get? a).map (Cell.rename r))
    (hslot : ∀ slot, h.get? a = some (.handle slot) →
      h'.get? (r.addr slot) = (h.get? slot).map (Cell.rename r)) :
    h'.readStep f (r.addr a) = h.readStep (fun b => f (r.addr b)) a := by
  rw [readStep, readStep, hget]
  cases hc : h.get? a with
  | none => rfl
  | some c =>
    cases c with
    | array items => exact congrArg (Option.map Datum.array) (readAll_renameAll f r items)
    | map entries => exact congrArg (Option.map Datum.map) (readEntries_rename f r entries)
    | object cls fields =>
      exact congrArg (Option.map (Datum.object cls)) (readFields_rename f r fields)
    | dynamic v => exact congrArg (Option.map Datum.dynamic) (readWith_rename f r v)
    | handle slot =>
      simp only [Option.map_some, Cell.rename, hslot slot hc]
      cases hd : h.get? slot with
      | none => rfl
      | some d =>
        cases d with
        | dynamic v => exact congrArg (Option.map Datum.handle) (readWith_rename f r v)
        | _ => rfl

/-! ## Renamed parts of a heap -/

/-- What is reached from the roots is found again where the renaming takes it, in new cells and
with new marks. -/
structure Mirrors (r : Renaming) (h : Heap) (roots : List Addr) (h' : Heap) : Prop where
  /-- A cell has the contents of the original. -/
  get?_eq : ∀ a, Reaches h roots a → h'.get? (r.addr a) = (h.get? a).map (Cell.rename r)
  /-- What was not shared is not shared now. -/
  addr_inj : ∀ a b, Reaches h roots a → Reaches h roots b → r.addr a = r.addr b → a = b
  le_addr : ∀ a, Reaches h roots a → h.size ≤ r.addr a
  mark_inj : ∀ m n, r.mark m = r.mark n → m = n
  le_mark : ∀ m, h.marks ≤ r.mark m

namespace Mirrors

variable (hmirrors : Mirrors r h roots h')
include hmirrors

theorem childrenOf_eq (ha : Reaches h roots a) :
    h'.childrenOf (r.addr a) = (h.childrenOf a).map r.addr := by
  rw [childrenOf, childrenOf, hmirrors.get?_eq a ha]
  cases h.get? a with
  | none => rfl
  | some c => exact Cell.addrs_rename r c

/-- **What is reached from the renamed roots is what is reached from the roots, renamed.** -/
theorem reaches_iff :
    Reaches h' (roots.map r.addr) b ↔ ∃ a, Reaches h roots a ∧ r.addr a = b := by
  constructor
  · refine Reaches.closed_under (P := fun b => ∃ a, Reaches h roots a ∧ r.addr a = b) ?_ ?_
    · intro x hx
      obtain ⟨a, ha, rfl⟩ := List.mem_map.mp hx
      exact ⟨a, .root ha, rfl⟩
    · rintro _ ⟨a, ha, rfl⟩ y hy
      rw [hmirrors.childrenOf_eq ha] at hy
      obtain ⟨b, hb, rfl⟩ := List.mem_map.mp hy
      exact ⟨b, ha.step hb, rfl⟩
  · rintro ⟨a, ha, rfl⟩
    induction ha with
    | root hr => exact .root (List.mem_map_of_mem hr)
    | @step a b ha hb ih =>
      refine ih.step ?_
      rw [hmirrors.childrenOf_eq ha]
      exact List.mem_map_of_mem hb

/-- A renamed value is of the same kind. -/
theorem kindOf_rename (hv : v.addrs ⊆ roots) : h'.kindOf (v.rename r) = h.kindOf v := by
  cases v with
  | ref a =>
    have ha : Reaches h roots a := .root (hv (by simp))
    rw [Value.rename, kindOf, kindOf, hmirrors.get?_eq a ha]
    cases h.get? a with
    | none => rfl
    | some c => exact Cell.kind_rename r c
  | undefined single m => cases single <;> rfl
  | _ => rfl

theorem readCell_addr (n : Nat) (ha : Reaches h roots a) :
    h'.readCell n (r.addr a) = h.readCell n a := by
  induction n generalizing a with
  | zero => rfl
  | succ n ih =>
    rw [readCell_succ, readCell_succ, readStep_rename (hmirrors.get?_eq a ha)]
    · exact readStep_congr rfl (fun _ _ => rfl) fun b hb => ih (ha.followed hb)
    · intro slot hslot
      refine hmirrors.get?_eq slot (ha.step ?_)
      exact mem_childrenOf_iff.mpr ⟨_, hslot, List.mem_singleton_self slot⟩

/-- **A renamed value reads as the same datum.** -/
theorem read?_rename (hle : h.size ≤ h'.size) (hv : v.addrs ⊆ roots) :
    h'.read? (v.rename r) = h.read? v := by
  rw [read?, read?, readWith_rename]
  refine readWith_congr v fun a ha => ?_
  rw [hmirrors.readCell_addr _ (.root (hv ha)), readCell_of_size_le hle]

/-- Cells that are added later leave it so. -/
theorem after (hclosed : h.Closed) (hroots : ∀ a ∈ roots, a < h.size) (hext : Extends h' h'') :
    Mirrors r h roots h'' where
  get?_eq a ha := by
    obtain ⟨c, hc⟩ := exists_get? (ha.lt hclosed hroots)
    have hget := hmirrors.get?_eq a ha
    rw [hc, Option.map_some] at hget
    rw [hext.get?_eq_some hget, hc, Option.map_some]
  addr_inj := hmirrors.addr_inj
  le_addr := hmirrors.le_addr
  mark_inj := hmirrors.mark_inj
  le_mark := hmirrors.le_mark

end Mirrors

/-! ## Copies -/

/-- **A copy mirrors the value that is copied.** -/
theorem mirrors_copy (hclosed : h.Closed) (hv : h.Holds v) :
    Mirrors (h.moving (h.reachable v.addrs)) h v.addrs (h.copy v).2 where
  get?_eq a ha := by
    obtain ⟨i, hi, heq⟩ := moving_addr_of_mem h ((mem_reachable_iff hclosed).mpr ha)
    obtain ⟨c, hc⟩ := exists_get? (ha.lt hclosed hv)
    rw [heq, get?_copy, hi, Option.map_some, hc, Option.getD_some, Option.map_some]
  addr_inj a b ha hb hab := by
    obtain ⟨i, hi, heqa⟩ := moving_addr_of_mem h ((mem_reachable_iff hclosed).mpr ha)
    obtain ⟨j, hj, heqb⟩ := moving_addr_of_mem h ((mem_reachable_iff hclosed).mpr hb)
    -- both stand at one place of the list of what is reached
    have hij : i = j := Nat.add_left_cancel (heqa.symm.trans (hab.trans heqb))
    rw [hij] at hi
    exact Option.some.inj (hi.symm.trans hj)
  le_addr a ha := by
    obtain ⟨i, -, heq⟩ := moving_addr_of_mem h ((mem_reachable_iff hclosed).mpr ha)
    rw [heq]
    exact Nat.le_add_right _ _
  mark_inj _ _ := Nat.add_left_cancel
  le_mark _ := Nat.le_add_right _ _

/-- A copied container owns the copy of the payload: nothing has to be taken out of it. -/
theorem Flat.get?_clone (hflat : h.Flat) (a : Addr) :
    (h.clone a).2.get? (h.clone a).1 = some (.dynamic (h.copy (h.payload a)).1) := by
  have hclone : h.clone a = (h.copy (h.payload a)).2.wrap (h.copy (h.payload a)).1 := rfl
  have hkind := kindOf_copy (hflat.closed.holds_payload a)
  have hne := hkind.symm ▸ hflat.kindOf_payload a
  rw [hclone, Heap.wrap, unwrap_of_kindOf_ne hne]
  exact get?_alloc_self _ _

theorem mirrors_clone (hclosed : h.Closed) (a : Addr) :
    Mirrors (h.moving (h.reachable (h.payload a).addrs)) h (h.payload a).addrs (h.clone a).2 :=
  (mirrors_copy hclosed (hclosed.holds_payload a)).after hclosed (hclosed.holds_payload a)
    (extends_alloc _ _)

end Heap
end ScriptHost
