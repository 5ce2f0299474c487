import ScriptHost.Proofs.Table.Contents

/-!
# The keys of a table

A table lists its names, the overloads of each name, and its keys.  All three lists come out of one
rule: what is entered for the first time goes to the end of its list, and what is entered again
changes no list at all.  On a history that is `List.eraseDups`, which keeps the first occurrence of
everything, so the rule is stated with it.

* `eraseDups_name_entered`: the names, `map_kinds_block`: the overloads of a name.
* `nodup_key_entered`, `mem_key_entered_iff`: each key that was entered stands in the table once.
* `mem_entered_iff`: what stands there is the last function that was entered under its key.
* `insert_of_mem`: entering a key again replaces its function and moves nothing.
* `pairwise_precedes_entered`: names stand in the order of their first entry, and so do the
  overloads of a name, but not all functions.

The lemmas on `List.eraseDups` come first.  What matters of it here is that it commutes with
filtering, and so with what a list begins with.
-/

namespace ScriptHost
namespace Table

/-! ## First occurrences -/

section EraseDups
variable {α : Type} [BEq α] [LawfulBEq α]

theorem eraseDups_of_nodup {xs : List α} (h : xs.Nodup) : xs.eraseDups = xs := by
  induction xs using List.reverseRecOn with
  | nil => rfl
  | append_singleton xs x ih =>
    obtain ⟨hxs, -, hx⟩ := List.nodup_append.mp h
    rw [eraseDups_concat, if_neg fun hmem => hx x hmem x List.mem_cons_self rfl, ih hxs]

theorem eraseDups_filter (p : α → Bool) (xs : List α) :
    (xs.filter p).eraseDups = xs.eraseDups.filter p := by
  induction xs using List.reverseRecOn with
  | nil => rfl
  | append_singleton xs x ih =>
    rw [List.filter_append, eraseDups_concat]
    cases hx : p x with
    | true =>
      rw [List.filter_singleton, hx]
      simp only [cond_true, eraseDups_concat, List.mem_filter, hx, and_true, ih]
      split <;> simp [hx]
    | false =>
      rw [List.filter_singleton, hx]
      simp only [cond_false, List.append_nil, ih]
      split <;> simp [hx]

/-- What a list begins with decides about what follows only through what occurs there. -/
theorem eraseDups_append_congr (as : List α) {bs cs : List α} (h : bs.eraseDups = cs.eraseDups) :
    (as ++ bs).eraseDups = (as ++ cs).eraseDups := by
  rw [List.eraseDups_append, List.eraseDups_append, List.removeAll, List.removeAll,
    eraseDups_filter, eraseDups_filter, h]

/-- … and what follows stays the same for beginnings in which the same occurs in the same order. -/
theorem eraseDups_append_congr_left {as bs : List α} (h : as.eraseDups = bs.eraseDups)
    (cs : List α) : (as ++ cs).eraseDups = (bs ++ cs).eraseDups := by
  have hmem : ∀ x, x ∈ as ↔ x ∈ bs := fun x => by
    rw [← List.mem_eraseDups, h, List.mem_eraseDups]
  have hnew : cs.removeAll as = cs.removeAll bs := by
    refine List.filter_congr fun x _ => ?_
    simp [hmem]
  rw [List.eraseDups_append, List.eraseDups_append, h, hnew]

theorem eraseDups_append_self (xs : List α) : (xs ++ xs).eraseDups = xs.eraseDups := by
  have hnone : xs.removeAll xs = [] := by simp [List.removeAll]
  rw [List.eraseDups_append, hnone, List.eraseDups_nil, List.append_nil]

end EraseDups

/-- At some point of a list the one had occurred and the other had not. -/
def OccursFirst {α : Type} (xs : List α) (a b : α) : Prop :=
  ∃ before after, xs = before ++ after ∧ a ∈ before ∧ b ∉ before

/-- First occurrences stand in the order in which they occur. -/
theorem pairwise_eraseDups {α : Type} [BEq α] [LawfulBEq α] (xs : List α) :
    xs.eraseDups.Pairwise (OccursFirst xs) := by
  induction xs using List.reverseRecOn with
  | nil => exact List.Pairwise.nil
  | append_singleton xs x ih =>
    have hold : xs.eraseDups.Pairwise (OccursFirst (xs ++ [x])) := by
      refine ih.imp fun {a b} h => ?_
      obtain ⟨before, after, rfl, ha, hb⟩ := h
      exact ⟨before, after ++ [x], List.append_assoc _ _ _, ha, hb⟩
    rw [eraseDups_concat]
    split
    · exact hold
    · rename_i hx
      refine List.pairwise_append.mpr ⟨hold, List.pairwise_singleton _ _, fun a ha b hb => ?_⟩
      rw [List.mem_singleton.mp hb]
      exact ⟨xs, [x], rfl, List.mem_eraseDups.mp ha, hx⟩

/-! ## Names -/

/-- Grouped by name, the functions give each name once. -/
theorem eraseDups_map_flatMap {names : List String} {group : String → List Native}
    (hnodup : names.Nodup) (hne : ∀ n ∈ names, group n ≠ [])
    (hgroup : ∀ n, ∀ f ∈ group n, f.name = n) :
    ((names.flatMap group).map (·.name)).eraseDups = names := by
  induction names with
  | nil => rfl
  | cons n rest ih =>
    obtain ⟨hn, hrest⟩ := List.nodup_cons.mp hnodup
    have hsame : ∀ m ∈ (group n).map (·.name), m = n := by
      intro m hm
      obtain ⟨f, hf, rfl⟩ := List.mem_map.mp hm
      exact hgroup n f hf
    have hhead : ((group n).map (·.name)).eraseDups = [n] := by
      cases hcons : (group n).map (·.name) with
      | nil => exact absurd (List.map_eq_nil_iff.mp hcons) (hne n List.mem_cons_self)
      | cons m ms =>
        rw [hcons] at hsame
        have hm : m = n := hsame m List.mem_cons_self
        have hms : ms.filter (fun b => !b == m) = [] := by
          refine List.filter_eq_nil_iff.mpr fun b hb => ?_
          rw [hsame b (List.mem_cons_of_mem _ hb), hm]
          simp
        rw [List.eraseDups_cons, hms, hm]
        rfl
    have htail : ((rest.flatMap group).map (·.name)).removeAll ((group n).map (·.name)) =
        (rest.flatMap group).map (·.name) := by
      refine List.filter_eq_self.mpr fun m hm => ?_
      obtain ⟨f, hf, rfl⟩ := List.mem_map.mp hm
      obtain ⟨k, hk, hfk⟩ := List.mem_flatMap.mp hf
      have hfn : f.name ∉ (group n).map (·.name) := fun h => by
        rw [hgroup k f hfk] at h
        exact hn (hsame k h ▸ hk)
      simpa using hfn
    rw [List.flatMap_cons, List.map_append, List.eraseDups_append, hhead, htail,
      ih hrest fun m hm => hne m (List.mem_cons_of_mem _ hm)]
    rfl

/-- The names of a table stand in the order in which they were first entered. -/
theorem eraseDups_name_entered (ws : List Native) :
    ((entered ws).map (·.name)).eraseDups = (ws.map (·.name)).eraseDups := by
  rw [entered_eq_flatMap_block]
  refine eraseDups_map_flatMap (nodup_eraseDups _) (fun n hn h => ?_)
    fun _ _ => name_eq_of_mem_block
  exact block_eq_nil_iff.mp h (List.mem_eraseDups.mp hn)

/-! ## Overloads of a name -/

/-- The kinds under a name stand in the order in which they were first entered. -/
theorem map_kinds_block (ws : List Native) (name : String) :
    (block ws name).map Native.kinds =
      ((ws.filter fun f => f.name == name).map Native.kinds).eraseDups := by
  induction ws using List.reverseRecOn with
  | nil => rfl
  | append_singleton ws f ih =>
    rw [List.filter_append, List.map_append]
    by_cases hf : f.name = name
    · subst hf
      rw [block_concat_self, map_kinds_amend, ih, List.filter_singleton, beq_self_eq_true,
        cond_true, List.map_singleton, eraseDups_concat]
      simp only [List.mem_eraseDups]
    · rw [block_concat_of_ne _ hf, ih, List.filter_singleton, beq_eq_false_iff_ne.mpr hf]
      simp

/-- Among overloads with distinct kinds, entering a function of kinds that are there replaces that
one and leaves the others in their places. -/
theorem amend_of_mem {f : Native} {fs : List Native} (hfs : (fs.map Native.kinds).Nodup)
    (hf : f.kinds ∈ fs.map Native.kinds) :
    amend f fs = fs.map fun g => if g.kinds = f.kinds then f else g := by
  induction fs with
  | nil => exact absurd hf List.not_mem_nil
  | cons g rest ih =>
    rw [List.map_cons, List.nodup_cons] at hfs
    rw [amend, List.map_cons]
    by_cases hg : g.kinds = f.kinds
    · have hrest : ∀ x ∈ rest, ¬ x.kinds = f.kinds := fun x hx hxf =>
        hfs.1 (hg.trans hxf.symm ▸ List.mem_map_of_mem hx)
      rw [if_pos hg, if_pos hg]
      congr 1
      exact (List.map_id rest).symm.trans
        (List.map_congr_left fun x hx => (if_neg (hrest x hx)).symm)
    · have hmem : f.kinds ∈ rest.map Native.kinds := by
        rw [List.map_cons] at hf
        exact (List.mem_cons.mp hf).resolve_left fun h => hg h.symm
      rw [if_neg hg, if_neg hg, ih hfs.2 hmem]

/-! ## Keys -/

theorem mem_entered_iff {ws : List Native} {f : Native} : f ∈ entered ws ↔ Latest ws f := by
  rw [entered_eq_flatMap_block, List.mem_flatMap]
  constructor
  · rintro ⟨n, -, hf⟩
    exact (mem_block_iff.mp hf).2
  · intro hf
    exact ⟨f.name, List.mem_eraseDups.mpr (List.mem_map_of_mem hf.mem), mem_block_iff.mpr ⟨rfl, hf⟩⟩

/-- No key stands in a table twice. -/
theorem nodup_key_entered (ws : List Native) : ((entered ws).map Native.key).Nodup := by
  rw [entered_eq_flatMap_block, List.map_flatMap, List.nodup_flatMap]
  refine ⟨fun n _ => ?_, ?_⟩
  · rw [map_key_block]
    exact (nodup_kinds_block ws n).map fun _ _ h => (Key.mk.inj h).2
  · refine (nodup_eraseDups _).imp fun {m n} hmn k hm hn => hmn ?_
    obtain ⟨f, hf, rfl⟩ := List.mem_map.mp hm
    obtain ⟨g, hg, hgf⟩ := List.mem_map.mp hn
    rw [← name_eq_of_mem_block hf, ← name_eq_of_mem_block hg, (key_eq_iff.mp hgf).1]

theorem mem_key_entered_iff {ws : List Native} {k : Key} :
    k ∈ (entered ws).map Native.key ↔ k ∈ ws.map Native.key := by
  constructor
  · intro h
    obtain ⟨f, hf, rfl⟩ := List.mem_map.mp h
    exact List.mem_map_of_mem (mem_entered_iff.mp hf).mem
  · intro h
    obtain ⟨g, hg, rfl⟩ := List.mem_map.mp h
    obtain ⟨f, hf, hfg⟩ := exists_latest hg
    exact hfg ▸ List.mem_map_of_mem (mem_entered_iff.mpr hf)

theorem contains_eq_true_iff {t : Table} {key : Key} : t.contains key = true ↔ key ∈ t.keys := by
  simp [contains, keys, List.any_eq_true]

/-- **Entering a key again replaces its function and moves nothing.** -/
theorem insert_of_mem {ws : List Native} {f : Native} (hf : f.key ∈ ws.map Native.key) :
    insert f (entered ws) = (entered ws).map fun g => if g.key = f.key then f else g := by
  have hname : f.name ∈ ws.map (·.name) := by
    obtain ⟨g, hg, hgf⟩ := List.mem_map.mp hf
    exact (key_eq_iff.mp hgf).1 ▸ List.mem_map_of_mem hg
  rw [← entered_concat, entered_eq_flatMap_block, entered_eq_flatMap_block ws, List.map_flatMap,
    List.map_append, List.map_singleton, eraseDups_concat, if_pos hname]
  refine List.flatMap_congr fun n _ => ?_
  by_cases hn : f.name = n
  · subst hn
    have hkinds : f.kinds ∈ (block ws f.name).map Native.kinds := by
      obtain ⟨g, hg, hgf⟩ := List.mem_map.mp (mem_key_entered_iff.mpr hf)
      obtain ⟨hgname, hgkinds⟩ := key_eq_iff.mp hgf
      exact hgkinds ▸ List.mem_map_of_mem (mem_block_iff.mpr ⟨hgname, mem_entered_iff.mp hg⟩)
    rw [block_concat_self, amend_of_mem (nodup_kinds_block ws f.name) hkinds]
    refine List.map_congr_left fun g hg => ?_
    simp only [key_eq_iff, name_eq_of_mem_block hg, true_and]
  · rw [block_concat_of_ne _ hn]
    refine (List.map_id _).symm.trans (List.map_congr_left fun g hg => (if_neg fun h => hn ?_).symm)
    rw [← (key_eq_iff.mp h).1, name_eq_of_mem_block hg]

/-! ## Order -/

/-- Of two overloads of one name, the key of the one was entered earlier; of two names, the one was
entered earlier, under whatever key. -/
def Precedes (ws : List Native) (f g : Native) : Prop :=
  if f.name = g.name then Earlier ws f.key g.key else OccursFirst (ws.map (·.name)) f.name g.name

/-- **The functions of a table stand in the order of their names, and in that of their keys under
each name.** -/
theorem pairwise_precedes_entered (ws : List Native) : (entered ws).Pairwise (Precedes ws) := by
  rw [entered_eq_flatMap_block, List.pairwise_flatMap]
  refine ⟨fun n _ => ?_, ?_⟩
  · refine (pairwise_earlier_block ws n).imp_of_mem fun {f g} hf hg h => ?_
    rwa [Precedes, if_pos ((name_eq_of_mem_block hf).trans (name_eq_of_mem_block hg).symm)]
  · have hnames := (nodup_eraseDups (ws.map (·.name))).and (pairwise_eraseDups (ws.map (·.name)))
    refine hnames.imp fun {m n} h f hf g hg => ?_
    obtain ⟨hne, hfirst⟩ := h
    rw [Precedes, name_eq_of_mem_block hf, name_eq_of_mem_block hg, if_neg hne]
    exact hfirst

end Table
end ScriptHost
