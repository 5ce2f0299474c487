import ScriptHost.Proofs.Table.Replay
import ScriptHost.Proofs.Table.Overloads

/-!
# Merging tables

To merge a table into another is to enter its functions there in the order in which they stand.
Since a table holds one function for each key, what a merge leaves can be said key by key, and since
it depends on names, kinds and last functions only (`Alike`), merges compose like the concatenation
of histories.

* `get?`: the function of a key, and `get?_enteredInto`: the functions that are entered decide about
  their keys, the table about the others.
* `find?_of_get?`: this is the function that a call with arguments of just these kinds runs.
* `enteredInto_assoc`: merging is associative, with the order of names and of overloads included.
* `insert_of_mem_entered`, `enteredInto_of_subset`: functions that the table holds change nothing.
-/

namespace ScriptHost
namespace Table

variable {t u : Table} {ws vs : List Native} {k : Key}

/-! ## The function of a key -/

/-- The function that is registered under a key. -/
def get? (t : Table) (k : Key) : Option Native := t.functions.find? fun f => f.key == k

theorem key_of_get? {f : Native} (h : t.get? k = some f) : f.key = k := by
  simpa using List.find?_some h

theorem get?_eq_some_iff (ht : t.functions = entered ws) {f : Native} :
    t.get? k = some f ↔ Latest ws f ∧ f.key = k := by
  constructor
  · intro h
    have hmem : f ∈ entered ws := ht ▸ List.mem_of_find?_eq_some h
    exact ⟨mem_entered_iff.mp hmem, key_of_get? h⟩
  · rintro ⟨hf, hk⟩
    -- the key is found, and it has one last function only
    have hfound : (t.get? k).isSome := by
      rw [get?, List.find?_isSome]
      exact ⟨f, ht ▸ mem_entered_iff.mpr hf, beq_iff_eq.mpr hk⟩
    obtain ⟨g, hg⟩ := Option.isSome_iff_exists.mp hfound
    have hgmem : g ∈ entered ws := ht ▸ List.mem_of_find?_eq_some hg
    have hsame := hf.unique (mem_entered_iff.mp hgmem) (hk.trans (key_of_get? hg).symm)
    rw [hg, hsame]

theorem get?_isSome_iff (ht : t.functions = entered ws) :
    (t.get? k).isSome ↔ k ∈ ws.map Native.key := by
  rw [get?, List.find?_isSome, ← mem_key_entered_iff, ← ht, List.mem_map]
  simp only [beq_iff_eq]

/-- **The functions that are entered decide about the keys that they have, the table about the
others.** -/
theorem get?_enteredInto {t' : Table} (ht : t.functions = entered ws)
    (hu : u.functions = entered vs) (ht' : t'.functions = enteredInto t.functions u.functions)
    (k : Key) : t'.get? k = (u.get? k).or (t.get? k) := by
  have hhistory : t'.functions = entered (ws ++ u.functions) := by
    rw [ht', ht, enteredInto_entered]
  have hlatest : ∀ f, Latest u.functions f ↔ Latest vs f := hu ▸ (alike_entered vs).latest
  have hkeys : ∀ l, l ∈ u.functions.map Native.key ↔ (u.get? l).isSome := fun l => by
    rw [get?_isSome_iff hu, hu, mem_key_entered_iff]
  refine Option.ext fun f => ?_
  rw [get?_eq_some_iff hhistory, latest_append_iff, Option.or_eq_some_iff, get?_eq_some_iff ht,
    get?_eq_some_iff hu, hlatest, hkeys]
  constructor
  · rintro ⟨hf | ⟨hnew, hf⟩, rfl⟩
    · exact Or.inl ⟨hf, rfl⟩
    · exact Or.inr ⟨Option.not_isSome_iff_eq_none.mp hnew, hf, rfl⟩
  · rintro (⟨hf, rfl⟩ | ⟨hnew, hf, rfl⟩)
    · exact ⟨Or.inl hf, rfl⟩
    · exact ⟨Or.inr ⟨Option.not_isSome_iff_eq_none.mpr hnew, hf⟩, rfl⟩

/-- Among the overloads of its name, the function of a key is found by its kinds. -/
theorem get?_eq_find?_overloads (t : Table) (k : Key) :
    t.get? k = (t.overloads k.name).find? fun f => f.kinds == k.kinds := by
  have hkey : ∀ f : Native, (f.key == k) = (f.name == k.name && f.kinds == k.kinds) := by
    intro f
    rw [Bool.eq_iff_iff, Bool.and_eq_true, beq_iff_eq, beq_iff_eq, beq_iff_eq]
    exact ⟨fun h => h ▸ ⟨rfl, rfl⟩, fun ⟨hname, hkinds⟩ => by rw [Native.key, hname, hkinds]⟩
  simp only [get?, overloads, List.find?_filter, hkey, Bool.decide_and, Bool.decide_eq_true]

/-- A call whose arguments have just the kinds of a key runs the function of the key. -/
theorem find?_of_get? {f : Native} (h : t.get? k = some f) : t.find? k.name k.kinds = some f := by
  rw [get?_eq_find?_overloads] at h
  rw [find?, h]

/-! ## Merges after one another -/

/-- What histories are followed by does not matter as long as it is the same. -/
theorem Alike.append_right (h : Alike ws vs) (as : List Native) :
    Alike (ws ++ as) (vs ++ as) where
  names := by
    rw [List.map_append, List.map_append]
    exact eraseDups_append_congr_left h.names _
  kinds name := by
    rw [List.filter_append, List.filter_append, List.map_append, List.map_append]
    exact eraseDups_append_congr_left (h.kinds name) _
  latest f := by
    rw [latest_append_iff, latest_append_iff, h.latest f]

/-- **Merging is associative**: functions may be merged into what is then merged into a table, or
one after the other into the table itself. -/
theorem enteredInto_assoc (ws vs fs : List Native) :
    enteredInto (enteredInto (entered ws) (entered vs)) fs =
      enteredInto (entered ws) (enteredInto (entered vs) fs) := by
  have hfirst : Alike (entered vs ++ fs) (vs ++ fs) := (alike_entered vs).append_right fs
  have hmerged : Alike (entered (vs ++ fs)) (vs ++ fs) := alike_entered (vs ++ fs)
  rw [enteredInto_entered vs fs, ← enteredInto_append]
  exact (hfirst.trans hmerged.symm).enteredInto_eq ws

/-! ## Functions that are there -/

/-- Entering a function that a table holds changes nothing. -/
theorem insert_of_mem_entered {f : Native} (hf : f ∈ entered ws) :
    insert f (entered ws) = entered ws := by
  have hlatest := mem_entered_iff.mp hf
  rw [insert_of_mem (List.mem_map_of_mem hlatest.mem)]
  refine (List.map_congr_left fun g hg => ?_).trans (List.map_id _)
  rw [id]
  split
  · rename_i hk
    exact hlatest.unique (mem_entered_iff.mp hg) hk.symm
  · rfl

theorem enteredInto_of_subset {fs : List Native} (h : ∀ f ∈ fs, f ∈ entered ws) :
    enteredInto (entered ws) fs = entered ws := by
  induction fs with
  | nil => rfl
  | cons f rest ih =>
    obtain ⟨hf, hrest⟩ := List.forall_mem_cons.mp h
    rw [enteredInto, List.foldl_cons, insert_of_mem_entered hf]
    exact ih hrest

end Table
end ScriptHost
