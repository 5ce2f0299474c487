import ScriptHost.Proofs.Table.Keys

/-!
# Replaying a history and copying a table

A history can be brought into a table in two ways.  One may *replay* it, entering its functions one
after another, those included that a later one of the same key replaces.  Or one may *copy* the
table that it has filled: this holds one function for each key, the overloads of a name side by
side, so another number of functions is entered in another order.

Both leave the same table, whatever was in it before.  The reason is that a table depends on three
things of its history only, and these are the same for a history and for what it leaves:

* the names in the order of their first occurrence,
* under each name the kinds in the order of their first occurrence,
* under each key the last function.

Histories that agree in all three are `Alike`.  Alike histories leave one and the same table
(`Alike.entered_eq`) and stay alike behind a common beginning (`Alike.append_left`), and a history
is like the functions that it leaves (`alike_entered`) and like itself repeated
(`alike_append_self`).
-/

namespace ScriptHost
namespace Table

/-! ## The last function under a key, in two histories in a row -/

theorem mem_map_key_iff {ws : List Native} {k : Key} :
    k ∈ ws.map Native.key ↔ ∃ f, Latest ws f ∧ f.key = k := by
  constructor
  · intro h
    obtain ⟨g, hg, rfl⟩ := List.mem_map.mp h
    exact exists_latest hg
  · rintro ⟨f, hf, rfl⟩
    exact List.mem_map_of_mem hf.mem

/-- The later history decides about the keys that it has, the earlier one about the others. -/
theorem latest_append_iff {as bs : List Native} {f : Native} :
    Latest (as ++ bs) f ↔ Latest bs f ∨ (f.key ∉ bs.map Native.key ∧ Latest as f) := by
  induction bs using List.reverseRecOn with
  | nil => simp [not_latest_nil]
  | append_singleton bs g ih =>
    rw [← List.append_assoc, latest_concat_iff, latest_concat_iff, ih, List.map_append,
      List.map_singleton, List.mem_append, List.mem_singleton, not_or]
    constructor
    · rintro (rfl | ⟨hf | ⟨hnew, hf⟩, hk⟩)
      · exact Or.inl (Or.inl rfl)
      · exact Or.inl (Or.inr ⟨hf, hk⟩)
      · exact Or.inr ⟨⟨hnew, hk⟩, hf⟩
    · rintro ((rfl | ⟨hf, hk⟩) | ⟨⟨hnew, hk⟩, hf⟩)
      · exact Or.inl rfl
      · exact Or.inr ⟨Or.inl hf, hk⟩
      · exact Or.inr ⟨Or.inr ⟨hnew, hf⟩, hk⟩

/-- Where no key occurs twice, every function is the last one under its key. -/
theorem latest_iff_mem_of_nodup {ws : List Native} (h : (ws.map Native.key).Nodup) {f : Native} :
    Latest ws f ↔ f ∈ ws := by
  constructor
  · exact Latest.mem
  · intro hf
    obtain ⟨before, after, rfl⟩ := List.append_of_mem hf
    rw [List.map_append, List.map_cons] at h
    have hafter := (List.nodup_cons.mp (List.nodup_append.mp h).2.1).1
    exact ⟨before, after, rfl, fun g hg hgf => hafter (hgf ▸ List.mem_map_of_mem hg)⟩

/-! ## Histories that leave the same table -/

/-- Two histories agree in all that a table depends on. -/
structure Alike (ws vs : List Native) : Prop where
  names : (ws.map (·.name)).eraseDups = (vs.map (·.name)).eraseDups
  kinds : ∀ name, ((ws.filter fun f => f.name == name).map Native.kinds).eraseDups =
    ((vs.filter fun f => f.name == name).map Native.kinds).eraseDups
  latest : ∀ f, Latest ws f ↔ Latest vs f

theorem Alike.refl (ws : List Native) : Alike ws ws := ⟨rfl, fun _ => rfl, fun _ => Iff.rfl⟩

theorem Alike.symm {ws vs : List Native} (h : Alike ws vs) : Alike vs ws :=
  ⟨h.names.symm, fun name => (h.kinds name).symm, fun f => (h.latest f).symm⟩

theorem Alike.trans {us ws vs : List Native} (h : Alike us ws) (h' : Alike ws vs) : Alike us vs :=
  ⟨h.names.trans h'.names, fun name => (h.kinds name).trans (h'.kinds name),
    fun f => (h.latest f).trans (h'.latest f)⟩

theorem Alike.mem_map_key_iff {ws vs : List Native} (h : Alike ws vs) {k : Key} :
    k ∈ ws.map Native.key ↔ k ∈ vs.map Native.key := by
  rw [Table.mem_map_key_iff, Table.mem_map_key_iff]
  exact exists_congr fun f => and_congr_left fun _ => h.latest f

/-- Lists with the same members are equal if their members have distinct labels and the labels stand
in the same order. -/
theorem eq_of_map_eq {α β : Type} {label : α → β} {xs ys : List α}
    (hmap : xs.map label = ys.map label) (hnodup : (xs.map label).Nodup)
    (hmem : ∀ x, x ∈ xs ↔ x ∈ ys) : xs = ys := by
  induction xs generalizing ys with
  | nil => exact (List.map_eq_nil_iff.mp hmap.symm).symm
  | cons x xs ih =>
    cases ys with
    | nil => exact absurd hmap (List.cons_ne_nil _ _)
    | cons y ys =>
      obtain ⟨hlabel, hrest⟩ := List.cons.inj hmap
      obtain ⟨hx, hxs⟩ := List.nodup_cons.mp hnodup
      have hy : label y ∉ ys.map label := hlabel ▸ hrest ▸ hx
      have hxy : x = y := by
        rcases List.mem_cons.mp ((hmem x).mp List.mem_cons_self) with h | h
        · exact h
        · exact absurd (hlabel ▸ List.mem_map_of_mem h) hy
      subst hxy
      have htail : ∀ z, z ∈ xs ↔ z ∈ ys := by
        intro z
        have hz := hmem z
        rw [List.mem_cons, List.mem_cons] at hz
        constructor
        · intro hzs
          refine (hz.mp (Or.inr hzs)).resolve_left fun heq => hx ?_
          exact heq ▸ List.mem_map_of_mem hzs
        · intro hzs
          refine (hz.mpr (Or.inr hzs)).resolve_left fun heq => hy ?_
          exact heq ▸ List.mem_map_of_mem hzs
      rw [ih hrest hxs htail]

theorem Alike.block_eq {ws vs : List Native} (h : Alike ws vs) (name : String) :
    block ws name = block vs name := by
  refine eq_of_map_eq ?_ (nodup_kinds_block ws name) fun f => ?_
  · rw [map_kinds_block, map_kinds_block, h.kinds name]
  · rw [mem_block_iff, mem_block_iff, h.latest f]

/-- **Alike histories leave the same table.** -/
theorem Alike.entered_eq {ws vs : List Native} (h : Alike ws vs) : entered ws = entered vs := by
  rw [entered_eq_flatMap_block, entered_eq_flatMap_block, h.names]
  exact List.flatMap_congr fun name _ => h.block_eq name

theorem Alike.append_left {ws vs : List Native} (as : List Native) (h : Alike ws vs) :
    Alike (as ++ ws) (as ++ vs) where
  names := by
    rw [List.map_append, List.map_append]
    exact eraseDups_append_congr _ h.names
  kinds name := by
    rw [List.filter_append, List.filter_append, List.map_append, List.map_append]
    exact eraseDups_append_congr _ (h.kinds name)
  latest f := by
    rw [latest_append_iff, latest_append_iff, h.latest f, h.mem_map_key_iff]

/-- **A history is like what it leaves.** -/
theorem alike_entered (ws : List Native) : Alike (entered ws) ws where
  names := eraseDups_name_entered ws
  kinds name := by
    rw [filter_entered, ← map_kinds_block, eraseDups_of_nodup (nodup_kinds_block ws name)]
  latest f := by
    rw [latest_iff_mem_of_nodup (nodup_key_entered ws), mem_entered_iff]

/-- **A history is like itself repeated.** -/
theorem alike_append_self (ws : List Native) : Alike (ws ++ ws) ws where
  names := by rw [List.map_append, eraseDups_append_self]
  kinds name := by rw [List.filter_append, List.map_append, eraseDups_append_self]
  latest f := by
    rw [latest_append_iff]
    constructor
    · rintro (hf | ⟨-, hf⟩)
      · exact hf
      · exact hf
    · exact Or.inl

/-! ## Filling a table -/

/-- The functions of a table after others have been entered in order. -/
def enteredInto (fs ws : List Native) : List Native := ws.foldl (fun gs f => insert f gs) fs

theorem enteredInto_append (fs ws vs : List Native) :
    enteredInto fs (ws ++ vs) = enteredInto (enteredInto fs ws) vs :=
  List.foldl_append

theorem enteredInto_entered (vs ws : List Native) :
    enteredInto (entered vs) ws = entered (vs ++ ws) :=
  (enteredInto_append [] vs ws).symm

/-- Alike histories fill a table alike, whatever it holds. -/
theorem Alike.enteredInto_eq {ws ws' : List Native} (h : Alike ws ws') (vs : List Native) :
    enteredInto (entered vs) ws = enteredInto (entered vs) ws' := by
  rw [enteredInto_entered, enteredInto_entered]
  exact (h.append_left vs).entered_eq

/-- After one of two alike histories, the other changes nothing more. -/
theorem Alike.enteredInto_again {ws ws' : List Native} (h : Alike ws ws') (vs : List Native) :
    enteredInto (enteredInto (entered vs) ws) ws' = enteredInto (entered vs) ws := by
  have hrepeated : entered (vs ++ (ws ++ ws)) = entered (vs ++ ws) :=
    ((alike_append_self ws).append_left vs).entered_eq
  rw [enteredInto_entered, ← h.enteredInto_eq, enteredInto_entered, List.append_assoc, hrepeated]

/-! ## What a table looks at

Where a function goes depends on its key alone, so a change of functions that keeps their keys may
be made before they are entered or after. -/

section Keeping
variable {φ : Native → Native} (hkey : ∀ f, (φ f).key = f.key)
include hkey

theorem insertOverload_map (f : Native) (fs : List Native) :
    insertOverload (φ f) (fs.map φ) = (insertOverload f fs).map φ := by
  induction fs with
  | nil => rfl
  | cons g rest ih =>
    obtain ⟨hfname, hfkinds⟩ := key_eq_iff.mp (hkey f)
    obtain ⟨hgname, hgkinds⟩ := key_eq_iff.mp (hkey g)
    rw [List.map_cons, insertOverload, insertOverload, hfname, hgname, hfkinds, hgkinds, ih]
    split_ifs <;> rfl

theorem insert_map (f : Native) (fs : List Native) :
    insert (φ f) (fs.map φ) = (insert f fs).map φ := by
  induction fs with
  | nil => rfl
  | cons g rest ih =>
    have hfname := (key_eq_iff.mp (hkey f)).1
    have hgname := (key_eq_iff.mp (hkey g)).1
    rw [List.map_cons, insert, insert, hfname, hgname, ih, ← List.map_cons,
      insertOverload_map hkey]
    split_ifs <;> rfl

theorem enteredInto_map (fs ws : List Native) :
    enteredInto (fs.map φ) (ws.map φ) = (enteredInto fs ws).map φ := by
  induction ws generalizing fs with
  | nil => rfl
  | cons f rest ih =>
    rw [List.map_cons, enteredInto, List.foldl_cons, insert_map hkey]
    exact ih (insert f fs)

end Keeping

end Table
end ScriptHost
