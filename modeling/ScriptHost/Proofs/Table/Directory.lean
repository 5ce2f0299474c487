import ScriptHost.Proofs.Table.Keys

/-!
# A table as a dictionary of dictionaries

One may think of a table as a dictionary that gives for each name a dictionary, and that one for the
kinds of the parameters a function.  A function is written by looking its name up, making an empty
dictionary where there is none, and setting the entry for its kinds there.  `Directory.write` does
just this, and knows nothing of the one list in which a table keeps its functions.

* `Table.directory`: the dictionary that can be read off a table.
* `foldl_write`: writing the functions of a history one after another makes the dictionary of the
  table that the history leaves.
* `WellKept`, `wellKept_of_entered`: what follows for the table.  Each function is filed under its
  own name and kinds, no name is without overloads, names, keys and functions are listed in one and
  the same order, that in which they were first written, and under each key stands what was written
  last.
-/

namespace ScriptHost

/-- Overloads by kinds, by name, each in the order in which it was first written. -/
abbrev Directory := List (String × List (List Kind × Native))

/-- Changes what a dictionary gives for a key; a new key comes last. -/
def Directory.change {α β : Type} [DecidableEq α] (key : α) (f : Option β → β) :
    List (α × β) → List (α × β)
  | [] => [(key, f none)]
  | (k, v) :: rest => if k = key then (k, f (some v)) :: rest else (k, v) :: change key f rest

/-- Writes a function under its name and the kinds of its parameters. -/
def Directory.write (d : Directory) (f : Native) : Directory :=
  change f.name (fun overloads => change f.kinds (fun _ => f) (overloads.getD [])) d

/-- The dictionary of a table. -/
def Table.directory (t : Table) : Directory :=
  t.names.map fun name => (name, (t.overloads name).map fun f => (f.kinds, f))

namespace Directory

/-- Changing an entry of a dictionary that is given key by key. -/
theorem change_map {α β : Type} [DecidableEq α] (key : α) (f : Option β → β) (value : α → β)
    {keys : List α} (hkeys : keys.Nodup) :
    change key f (keys.map fun k => (k, value k)) =
      (keys.map fun k => (k, if k = key then f (some (value k)) else value k)) ++
        if key ∈ keys then [] else [(key, f none)] := by
  induction keys with
  | nil => rfl
  | cons k rest ih =>
    obtain ⟨hk, hrest⟩ := List.nodup_cons.mp hkeys
    rw [List.map_cons, List.map_cons, change]
    by_cases heq : k = key
    · subst heq
      have hsame : (rest.map fun j => (j, if j = k then f (some (value j)) else value j)) =
          rest.map fun j => (j, value j) :=
        List.map_congr_left fun j hj => by rw [if_neg fun h : j = k => hk (h ▸ hj)]
      rw [if_pos rfl, if_pos rfl, if_pos List.mem_cons_self, hsame, List.append_nil]
    · have hmem : key ∈ k :: rest ↔ key ∈ rest :=
        ⟨fun h => (List.mem_cons.mp h).resolve_left (Ne.symm heq), List.mem_cons_of_mem k⟩
      rw [if_neg heq, if_neg heq, ih hrest, List.cons_append, if_congr hmem rfl rfl]

/-- Setting the entry for its kinds is entering a function among the overloads of its name. -/
theorem change_kinds (f : Native) (fs : List Native) :
    change f.kinds (fun _ => f) (fs.map fun g => (g.kinds, g)) =
      (Table.amend f fs).map fun g => (g.kinds, g) := by
  induction fs with
  | nil => rfl
  | cons g rest ih =>
    rw [List.map_cons, change, Table.amend]
    by_cases hg : g.kinds = f.kinds
    · rw [if_pos hg, if_pos hg, List.map_cons, hg]
    · rw [if_neg hg, if_neg hg, List.map_cons, ih]

/-- **Writing a history makes the overloads of each name**, the names in the order in which they
were first written. -/
theorem foldl_write (ws : List Native) :
    ws.foldl write [] = (ws.map (·.name)).eraseDups.map fun name =>
      (name, (Table.block ws name).map fun f => (f.kinds, f)) := by
  induction ws using List.reverseRecOn with
  | nil => rfl
  | append_singleton ws f ih =>
    rw [List.foldl_append, List.foldl_cons, List.foldl_nil, ih, write,
      change_map _ _ _ (Table.nodup_eraseDups _), List.map_append, List.map_singleton,
      Table.eraseDups_concat, if_congr List.mem_eraseDups rfl rfl]
    have hvalue : ∀ name : String,
        (if name = f.name then change f.kinds (fun _ => f)
            ((some ((Table.block ws name).map fun g => (g.kinds, g))).getD [])
          else (Table.block ws name).map fun g => (g.kinds, g)) =
          (Table.block (ws ++ [f]) name).map fun g => (g.kinds, g) := by
      intro name
      by_cases hname : name = f.name
      · subst hname
        rw [if_pos rfl, Option.getD_some, change_kinds, Table.block_concat_self]
      · rw [if_neg hname, Table.block_concat_of_ne _ (Ne.symm hname)]
    simp only [hvalue]
    split
    · rw [List.append_nil]
    · rename_i hnew
      -- the first function of its name has a block of its own
      rw [List.map_append, List.map_singleton, Table.block_concat_self,
        Table.block_eq_nil_iff.mpr hnew]
      rfl

end Directory

namespace Table

variable {t : Table} {ws : List Native}

theorem names_of_entered (ht : t.functions = entered ws) :
    t.names = (ws.map (·.name)).eraseDups := by
  rw [names, ht, eraseDups_name_entered]

theorem overloads_of_entered (ht : t.functions = entered ws) (name : String) :
    t.overloads name = block ws name := by
  rw [overloads, ht, filter_entered]

/-- **The dictionary of a table is what writing its history makes.** -/
theorem directory_of_entered (ht : t.functions = entered ws) :
    t.directory = ws.foldl Directory.write [] := by
  rw [directory, names_of_entered ht, Directory.foldl_write]
  exact List.map_congr_left fun name _ => by rw [overloads_of_entered ht]

/-- The table is in order, and it holds what is left of writing the functions `ws` one after
another. -/
structure WellKept (t : Table) (ws : List Native) : Prop where
  /-- The table is the dictionary of dictionaries that writing makes. -/
  directory : t.directory = ws.foldl Directory.write []
  /-- Each function is filed under its own name and kinds. -/
  filed : ∀ p ∈ t.directory, ∀ q ∈ p.2, q.2.name = p.1 ∧ q.2.kinds = q.1
  /-- No name is without overloads. -/
  inhabited : ∀ p ∈ t.directory, p.2 ≠ []
  /-- Names, keys and functions are those of the dictionary, in its order. -/
  names_eq : t.names = t.directory.map Prod.fst
  keys_eq : t.keys = t.directory.flatMap fun p => p.2.map fun q => ⟨p.1, q.1⟩
  functions_eq : t.functions = t.directory.flatMap fun p => p.2.map Prod.snd
  /-- The keys are those of the functions, in their order, and no key is there twice. -/
  keys_functions : t.keys = t.functions.map Native.key
  nodup : t.keys.Nodup
  size_eq : t.size = t.keys.length
  /-- Names stand in the order in which they were first written, overloads of a name likewise. -/
  names_order : t.names = (ws.map (·.name)).eraseDups
  overloads_order : ∀ name, (t.overloads name).map Native.kinds =
    ((ws.filter fun f => f.name == name).map Native.kinds).eraseDups
  /-- Writing a key again replaces its function and moves nothing. -/
  replaced : ∀ f, t.contains f.key = true →
    insert f t.functions = t.functions.map fun g => if g.key = f.key then f else g
  /-- The keys are those that were written. -/
  contains_iff : ∀ k, t.contains k = true ↔ ∃ f ∈ ws, f.key = k
  /-- Under each key stands the last function that was written. -/
  mem_iff : ∀ f, f ∈ t.functions ↔ Latest ws f

/-- **A table that was filled by a history is well kept.** -/
theorem wellKept_of_entered (ht : t.functions = entered ws) : t.WellKept ws where
  directory := directory_of_entered ht
  filed := by
    intro p hp q hq
    obtain ⟨name, -, rfl⟩ := List.mem_map.mp hp
    obtain ⟨f, hf, rfl⟩ := List.mem_map.mp hq
    exact ⟨by simpa using (List.mem_filter.mp hf).2, rfl⟩
  inhabited := by
    intro p hp
    obtain ⟨name, hname, rfl⟩ := List.mem_map.mp hp
    rw [names_of_entered ht, List.mem_eraseDups] at hname
    rw [overloads_of_entered ht]
    exact fun h => block_eq_nil_iff.mp (List.map_eq_nil_iff.mp h) hname
  names_eq := by
    rw [Table.directory, List.map_map]
    exact (List.map_id _).symm
  keys_eq := by
    rw [Table.directory, List.flatMap_map, keys, ht, names_of_entered ht,
      entered_eq_flatMap_block, List.map_flatMap]
    refine List.flatMap_congr fun name _ => ?_
    rw [overloads_of_entered ht, map_key_block, List.map_map, List.map_map]
    rfl
  functions_eq := by
    rw [Table.directory, List.flatMap_map, names_of_entered ht, ht, entered_eq_flatMap_block]
    refine List.flatMap_congr fun name _ => ?_
    rw [overloads_of_entered ht, List.map_map]
    exact (List.map_id _).symm
  keys_functions := rfl
  nodup := by
    rw [keys, ht]
    exact nodup_key_entered ws
  size_eq := by rw [size, keys, List.length_map]
  names_order := names_of_entered ht
  overloads_order name := by rw [overloads_of_entered ht, map_kinds_block]
  replaced f hf := by
    rw [contains_eq_true_iff, keys, ht, mem_key_entered_iff] at hf
    rw [ht, insert_of_mem hf]
  contains_iff k := by
    rw [contains_eq_true_iff, keys, ht, mem_key_entered_iff, List.mem_map]
  mem_iff f := by rw [ht, mem_entered_iff]

end Table
end ScriptHost
