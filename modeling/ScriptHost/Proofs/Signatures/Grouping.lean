import ScriptHost.Proofs.Table.Directory
import ScriptHost.Signatures

/-!
# Groups of exported signatures

What is exported about the functions of several tables stands in groups, one for each title.  Each
table comes sorted by signature into the group of its title, behind the tables of that title that
were mentioned before it.  So a group is sorted if its title is that of one table, and else only if
the tables themselves stand in order, which nobody sees to.

* `Table.sorted_perm`, `pairwise_sorted`, `filter_sorted`: sorting loses no function, and functions
  of one signature stay in the order of the table; `map_signature_sorted`: to sort the functions by
  their signatures is to sort the signatures.
* `Signatures.ofTables_eq`: the groups in terms of the tables alone.
* `Increasing`, `increasing_describe_iff`: when descriptions are sorted by signature.
* `Signatures.increasing_gathered_iff`: which groups are sorted.
* `Signatures.not_increasing_ofTables`: tables that share a title need not have a sorted group.
-/

namespace ScriptHost

/-! ## The functions of one table -/

namespace Table

/-- Sorting loses no function and adds none. -/
theorem sorted_perm (t : Table) : t.sorted.Perm t.functions := List.mergeSort_perm _ _

theorem signature_le_trans (f g h : Native) (hfg : decide (f.signature ≤ g.signature) = true)
    (hgh : decide (g.signature ≤ h.signature) = true) :
    decide (f.signature ≤ h.signature) = true :=
  decide_eq_true (String.le_trans (of_decide_eq_true hfg) (of_decide_eq_true hgh))

theorem signature_le_total (f g : Native) :
    (decide (f.signature ≤ g.signature) || decide (g.signature ≤ f.signature)) = true := by
  rw [Bool.or_eq_true, decide_eq_true_iff, decide_eq_true_iff]
  exact String.le_total _ _

theorem pairwise_sorted (t : Table) : t.sorted.Pairwise fun f g => f.signature ≤ g.signature :=
  (List.pairwise_mergeSort signature_le_trans signature_le_total t.functions).imp of_decide_eq_true

/-- **Sorting the functions by signature sorts the signatures.** -/
theorem map_signature_sorted (t : Table) : t.sorted.map Native.signature = t.signatures :=
  List.map_mergeSort fun _ _ _ _ => rfl

/-- **Functions of one signature stay in the order of the table.** -/
theorem filter_sorted (t : Table) (text : String) :
    (t.sorted.filter fun f => f.signature == text) =
      t.functions.filter fun f => f.signature == text := by
  set same := t.functions.filter fun f => f.signature == text with hsame
  have htext : ∀ f ∈ same, f.signature = text := fun f hf => by
    simpa using (List.mem_filter.mp hf).2
  have hpair : same.Pairwise fun f g => decide (f.signature ≤ g.signature) = true := by
    refine List.pairwise_of_forall_mem_list fun f hf g hg => decide_eq_true ?_
    have heq : f.signature = g.signature := (htext f hf).trans (htext g hg).symm
    exact heq ▸ String.le_refl f.signature
  -- what is in order already is kept in its order by the sort
  have hsub : same.Sublist t.sorted :=
    List.sublist_mergeSort signature_le_trans signature_le_total hpair List.filter_sublist
  have hfilter := hsub.filter fun f => f.signature == text
  rw [hsame, List.filter_filter] at hfilter
  simp only [Bool.and_self] at hfilter
  have hlength := (t.sorted_perm.filter fun f => f.signature == text).length_eq
  exact (hfilter.eq_of_length hlength.symm).symm

/-- What holds of the functions of a table in their order holds of the sorted ones as far as their
signatures are the same. -/
theorem pairwise_sorted_of_signature_eq {t : Table} {R : Native → Native → Prop}
    (h : t.functions.Pairwise R) :
    t.sorted.Pairwise fun f g => f.signature = g.signature → R f g := by
  refine List.pairwise_iff_forall_sublist.mpr fun {f g} hsub heq => ?_
  have hsame : [f, g].filter (fun x => x.signature == g.signature) = [f, g] := by simp [heq]
  have hfilter := hsub.filter fun x => x.signature == g.signature
  rw [filter_sorted, hsame] at hfilter
  exact List.pairwise_iff_forall_sublist.mp h (hfilter.trans List.filter_sublist)

end Table

/-! ## Descriptions -/

/-- The signature that a description gives. -/
def Datum.describedSignature? : Datum → Option String
  | .map entries => match find? entries "signature" with
    | some (.scalar (.string text)) => some text
    | _ => none
  | _ => none

theorem Native.describedSignature?_describe (f : Native) :
    f.describe.describedSignature? = some f.signature := rfl

theorem map_describedSignature? (fs : List Native) :
    (fs.map Native.describe).map Datum.describedSignature? =
      (fs.map Native.signature).map some := by
  rw [List.map_map, List.map_map]
  exact List.map_congr_left fun f _ => f.describedSignature?_describe

/-- The descriptions stand in the order of their signatures. -/
def Increasing (ds : List Datum) : Prop :=
  ∃ texts : List String, ds.map Datum.describedSignature? = texts.map some ∧ texts.Pairwise (· ≤ ·)

theorem increasing_describe_iff {fs : List Native} :
    Increasing (fs.map Native.describe) ↔ fs.Pairwise fun f g => f.signature ≤ g.signature := by
  rw [Increasing, map_describedSignature?, ← List.pairwise_map]
  constructor
  · rintro ⟨texts, htexts, hpair⟩
    rwa [List.map_injective_iff.mpr (fun _ _ => Option.some.inj) htexts]
  · exact fun h => ⟨_, rfl, h⟩

/-! ## The groups of several tables -/

namespace Signatures

/-- The functions of the tables of one title, table by table. -/
def gathered (tables : List Table) (title : String) : List Native :=
  (tables.filter fun t => t.title == title).flatMap Table.sorted

theorem gathered_concat_of_ne {tables : List Table} {t : Table} {title : String}
    (h : title ≠ t.title) : gathered (tables ++ [t]) title = gathered tables title := by
  simp [gathered, Ne.symm h]

theorem gathered_concat_self (tables : List Table) (t : Table) :
    gathered (tables ++ [t]) t.title = gathered tables t.title ++ t.sorted := by
  simp [gathered]

theorem gathered_eq_nil {tables : List Table} {title : String}
    (h : title ∉ tables.map Table.title) : gathered tables title = [] := by
  have hnone : (tables.filter fun t => t.title == title) = [] := by
    refine List.filter_eq_nil_iff.mpr fun t ht heq => h ?_
    rw [← beq_iff_eq.mp heq]
    exact List.mem_map_of_mem ht
  rw [gathered, hnone, List.flatMap_nil]

/-- To extend a group is to change what is found under its title. -/
theorem extend_eq_change (title : String) (functions : List Native) (groups : Signatures) :
    extend title functions groups =
      Directory.change title (fun old => old.getD [] ++ functions) groups := by
  induction groups with
  | nil => rfl
  | cons g rest ih =>
    obtain ⟨t, fs⟩ := g
    rw [extend, Directory.change, ih]
    rfl

/-- **The groups of tables**: the titles in the order in which they are first mentioned, and under
each the functions of its tables. -/
theorem ofTables_eq (tables : List Table) :
    ofTables tables = (tables.map Table.title).eraseDups.map fun title =>
      (title, gathered tables title) := by
  induction tables using List.reverseRecOn with
  | nil => rfl
  | append_singleton tables t ih =>
    rw [ofTables] at ih
    rw [ofTables, List.foldl_append, List.foldl_cons, List.foldl_nil, ih, extend_eq_change,
      Directory.change_map _ _ _ (Table.nodup_eraseDups _), List.map_append, List.map_singleton,
      Table.eraseDups_concat, if_congr List.mem_eraseDups rfl rfl]
    have hvalue : ∀ title : String,
        (if title = t.title then (some (gathered tables title)).getD [] ++ t.sorted
          else gathered tables title) = gathered (tables ++ [t]) title := by
      intro title
      split
      · rename_i h
        rw [h, gathered_concat_self, Option.getD_some]
      · rename_i h
        rw [gathered_concat_of_ne h]
    simp only [hvalue]
    split
    · rw [List.append_nil]
    · rename_i hnew
      rw [List.map_append, List.map_singleton, gathered_concat_self, gathered_eq_nil hnew]
      rfl

/-- The functions under the title of one table alone are those of the table. -/
theorem gathered_of_nodup {tables : List Table} (h : (tables.map Table.title).Nodup) {t : Table}
    (ht : t ∈ tables) : gathered tables t.title = t.sorted := by
  have hone : (tables.filter fun u => u.title == t.title) = [t] := by
    induction tables with
    | nil => exact absurd ht List.not_mem_nil
    | cons u rest ih =>
      obtain ⟨hu, hrest⟩ := List.nodup_cons.mp h
      rcases List.mem_cons.mp ht with rfl | ht
      · have hnone : (rest.filter fun u => u.title == t.title) = [] :=
          List.filter_eq_nil_iff.mpr fun u hmem heq =>
            hu (beq_iff_eq.mp heq ▸ List.mem_map_of_mem hmem)
        rw [List.filter_cons_of_pos (by simp), hnone]
      · have hne : u.title ≠ t.title := fun heq => hu (heq ▸ List.mem_map_of_mem ht)
        rw [List.filter_cons_of_neg (by simpa using hne), ih hrest ht]
  rw [gathered, hone, List.flatMap_singleton]

/-- Tables of different titles have a group each, in the given order. -/
theorem ofTables_of_nodup {tables : List Table} (h : (tables.map Table.title).Nodup) :
    ofTables tables = tables.map fun t => (t.title, t.sorted) := by
  rw [ofTables_eq, Table.eraseDups_of_nodup h, List.map_map]
  exact List.map_congr_left fun t ht => by rw [Function.comp_apply, gathered_of_nodup h ht]

/-! ## Which groups are sorted -/

/-- **A group is sorted exactly when its tables stand in order**: no function of a table has a
greater signature than one of a later table of the same title.  The groups are all there is in the
export. -/
theorem increasing_gathered_iff (tables : List Table) :
    (ofTables tables).toDatum = .map [(.string modulesKey,
      .map ((tables.map Table.title).eraseDups.map fun title =>
        (.string title, .array ((gathered tables title).map Native.describe))))] ∧
    ∀ title, Increasing ((gathered tables title).map Native.describe) ↔
      (tables.filter fun t => t.title == title).Pairwise fun t u =>
        ∀ f ∈ t.functions, ∀ g ∈ u.functions, f.signature ≤ g.signature := by
  constructor
  · rw [toDatum, ofTables_eq, List.map_map]
    rfl
  · intro title
    rw [increasing_describe_iff, gathered, List.pairwise_flatMap,
      and_iff_right fun t _ => t.pairwise_sorted]
    simp only [(Table.sorted_perm _).mem_iff]

/-- A table of one function without parameters. -/
def library (name : String) : Table := ⟨some "library", [⟨name, [], true, none, [], none⟩], false⟩

/-- Of two tables of one title, the later one can have the lesser signature. -/
theorem not_increasing_ofTables : ¬ ∀ (tables : List Table), ∀ group ∈ ofTables tables,
    Increasing (group.2.map Native.describe) := by
  intro h
  have hgroups : ofTables [library "second", library "first"] =
      [("library", (library "second").functions ++ (library "first").functions)] := by
    simp [ofTables, library, Table.title, Table.sorted, extend]
  have hsorted := h [library "second", library "first"]
  rw [hgroups] at hsorted
  have hpair := increasing_describe_iff.mp (hsorted _ List.mem_cons_self)
  have hle : "second()" ≤ "first()" := (List.pairwise_cons.mp hpair).1 _ List.mem_cons_self
  exact absurd hle (by decide)

end Signatures
end ScriptHost
