import ScriptHost.Files
import ScriptHost.Proofs.Yaml.Documents
import ScriptHost.Signatures.Reading

/-!
# Signature files are read back

What is exported about functions is read back from the text that is written for it, and from a file
that holds the text.  The names come from the host and can be any strings, so this has two
conditions, which the writer of YAML does not meet for every string.

* `Exportable`: a table whose strings come through.  None of them is written in single quotes with a
  next line in it, and no title that is short enough to stand in front of its colon is longer than a
  reader allows once its characters are escaped.
* `legible_toDatum`: the descriptions of the functions of such tables are data that are read back.
* `Signatures.read_write_ofTables`: they are read back from a text and from a file.
-/

namespace ScriptHost

open Yaml

/-! ## What is exported -/

/-- A function all of whose strings come through. -/
structure Native.Exportable (f : Native) : Prop where
  name : KeepsNextLine f.name.toList
  signature : KeepsNextLine f.signature.toList
  params : ∀ p ∈ f.params, KeepsNextLine p.name.toList ∧ KeepsNextLine p.kind.name.toList
  result : ∀ k ∈ f.result, KeepsNextLine k.name.toList

/-- A table whose title and functions come through. -/
structure Table.Exportable (t : Table) : Prop where
  title : LegibleKey (.string t.title)
  functions (f : Native) (hf : f ∈ t.functions) : f.Exportable

/-! ## Descriptions -/

theorem keepsNextLine_binding (b : Binding) : KeepsNextLine b.name.toList := by
  cases b <;> decide

theorem keepsNextLine_style (s : CallStyle) : KeepsNextLine s.name.toList := by
  cases s <;> decide

/-- The keys of descriptions. -/
def fieldNames : List String :=
  ["modules", "name", "params", "type", "binding", "style", "fallible", "signature", "return"]

theorem legibleKey_fieldName {key : String} (h : key ∈ fieldNames) : LegibleKey (.string key) := by
  have hall : ∀ key ∈ fieldNames,
      Style.isPlain key.toList = true ∧ key.toList.length ≤ 1024 := by decide
  exact legibleKey_of_isPlain (hall key h).1 (hall key h).2

/-- A record under different keys. -/
theorem legible_record {n : Nat} {fields : List (String × Datum)}
    (hkeys : ∀ key ∈ fields.map (·.1), LegibleKey (.string key))
    (hdistinct : (fields.map (·.1)).Nodup)
    (hvalues : ∀ field ∈ fields, Legible n field.2) :
    Legible (n + 1) (.map (fields.map fun (key, value) => (.string key, value))) := by
  refine .map ?_ ?_ ?_
  · intro e he
    obtain ⟨⟨key, value⟩, hfield, rfl⟩ := List.mem_map.mp he
    exact hkeys key (List.mem_map_of_mem hfield)
  · have hmap : (fields.map fun (key, value) => (Datum.string key, value)).map (·.1) =
        (fields.map (·.1)).map Datum.string := by
      simp [List.map_map, Function.comp_def]
    rw [hmap]
    refine List.Pairwise.map Datum.string (fun s t hne h => hne ?_) hdistinct
    simpa [Datum.string] using h
  · intro e he
    obtain ⟨⟨key, value⟩, hfield, rfl⟩ := List.mem_map.mp he
    exact hvalues (key, value) hfield

/-- A description under keys of its own. -/
theorem legible_description {n : Nat} {fields : List (String × Datum)} (keys : List String)
    (hfields : fields.map (·.1) = keys) (hkeys : ∀ key ∈ keys, key ∈ fieldNames)
    (hdistinct : keys.Nodup) (hvalues : ∀ field ∈ fields, Legible n field.2) :
    Legible (n + 1) (.map (fields.map fun (key, value) => (.string key, value))) := by
  subst hfields
  exact legible_record (fun key hkey => legibleKey_fieldName (hkeys key hkey)) hdistinct hvalues

theorem legible_param {p : Param} (hname : KeepsNextLine p.name.toList)
    (hkind : KeepsNextLine p.kind.name.toList) : Legible 1 p.describe := by
  have hvalues : ∀ field ∈ [("name", Datum.string p.name), ("type", .string p.kind.name),
      ("binding", .string p.binding.name)], Legible 0 field.2 := by
    simp only [List.forall_mem_cons]
    exact ⟨.string hname, .string hkind, .string (keepsNextLine_binding p.binding), nofun⟩
  exact legible_description ["name", "type", "binding"] rfl (by decide) (by decide) hvalues

theorem legible_params {f : Native} (h : f.Exportable) :
    Legible 2 (.array (f.params.map Param.describe)) := by
  refine .array fun d hd => ?_
  obtain ⟨p, hp, rfl⟩ := List.mem_map.mp hd
  exact legible_param (h.params p hp).1 (h.params p hp).2

theorem legible_function {f : Native} (h : f.Exportable) : Legible 3 f.describe := by
  have hstyle := keepsNextLine_style f.style
  cases hresult : f.result with
  | none =>
    have hvalues : ∀ field ∈ [("name", Datum.string f.name),
        ("params", .array (f.params.map Param.describe)), ("style", .string f.style.name),
        ("fallible", .bool f.fallible), ("signature", .string f.signature)], Legible 2 field.2 := by
      simp only [List.forall_mem_cons]
      exact ⟨.string h.name, legible_params h, .string hstyle, .bool f.fallible,
        .string h.signature, nofun⟩
    rw [Native.describe, hresult]
    exact legible_description ["name", "params", "style", "fallible", "signature"] rfl (by decide)
      (by decide) hvalues
  | some k =>
    have hvalues : ∀ field ∈ [("name", Datum.string f.name),
        ("params", .array (f.params.map Param.describe)), ("style", .string f.style.name),
        ("fallible", .bool f.fallible), ("signature", .string f.signature),
        ("return", .string k.name)], Legible 2 field.2 := by
      simp only [List.forall_mem_cons]
      exact ⟨.string h.name, legible_params h, .string hstyle, .bool f.fallible,
        .string h.signature, .string (h.result k hresult), nofun⟩
    rw [Native.describe, hresult]
    exact legible_description ["name", "params", "style", "fallible", "signature", "return"] rfl
      (by decide) (by decide) hvalues

/-- What is written to a file is read from it. -/
theorem Files.read?_write {files files' : Files} {path text : String}
    (h : files.write path text = .ok files') : files'.read? path = .ok (some text) := by
  simp only [Files.write] at h
  split at h
  · exact absurd h nofun
  · split at h
    · exact absurd h nofun
    · split at h
      · exact absurd h nofun
      · have hfound : files'.find? (files'.absolute path) = some text := by
          rw [← Except.ok.inj h]
          exact List.lookup_cons_self
        rw [Files.read?, hfound]

/-! ## Groups -/

namespace Signatures

/-- Groups whose titles differ, and of which each title and each function comes through. -/
structure Exportable (groups : Signatures) : Prop where
  distinct : (groups.map (·.1)).Nodup
  titles : ∀ title ∈ groups.map (·.1), LegibleKey (.string title)
  functions : ∀ g ∈ groups, ∀ f ∈ g.2, f.Exportable

variable {groups : Signatures} {title : String} {functions : List Native}

/-- A new title is mentioned at the end. -/
theorem map_extend (title : String) (functions : List Native) (groups : Signatures) :
    (extend title functions groups).map (·.1) =
      if title ∈ groups.map (·.1) then groups.map (·.1) else groups.map (·.1) ++ [title] := by
  induction groups with
  | nil => rfl
  | cons g rest ih =>
    obtain ⟨t, fs⟩ := g
    rw [extend]
    by_cases h : t = title
    · simp [h]
    · have h' : title ≠ t := fun h' => h h'.symm
      simp only [if_neg h, List.map_cons, ih, List.mem_cons, h', false_or]
      split <;> rfl

/-- The functions of extended groups are those of the groups and the new ones. -/
theorem forall_mem_extend {p : Native → Prop} (hgroups : ∀ g ∈ groups, ∀ f ∈ g.2, p f)
    (hfunctions : ∀ f ∈ functions, p f) : ∀ g ∈ extend title functions groups, ∀ f ∈ g.2, p f := by
  induction groups with
  | nil =>
    intro g hg
    rw [extend, List.mem_singleton] at hg
    exact hg ▸ hfunctions
  | cons old rest ih =>
    obtain ⟨t, fs⟩ := old
    have hold : ∀ f ∈ fs, p f := hgroups (t, fs) List.mem_cons_self
    have hrest : ∀ g ∈ rest, ∀ f ∈ g.2, p f := fun g hg => hgroups g (List.mem_cons_of_mem _ hg)
    rw [extend]
    split
    · refine List.forall_mem_cons.mpr ⟨fun f hf => ?_, hrest⟩
      exact (List.mem_append.mp hf).elim (hold f) (hfunctions f)
    · exact List.forall_mem_cons.mpr ⟨hold, ih hrest⟩

theorem Exportable.extend (h : Exportable groups) (htitle : LegibleKey (.string title))
    (hfunctions : ∀ f ∈ functions, f.Exportable) :
    Exportable (extend title functions groups) where
  distinct := by
    rw [map_extend]
    split
    · exact h.distinct
    · rename_i hnew
      refine List.nodup_append.mpr ⟨h.distinct, by simp, fun s hs t ht => ?_⟩
      rw [List.mem_singleton.mp ht]
      rintro rfl
      exact hnew hs
  titles := by
    rw [map_extend]
    split
    · exact h.titles
    · intro t ht
      rcases List.mem_append.mp ht with hold | hnew
      · exact h.titles t hold
      · exact List.mem_singleton.mp hnew ▸ htitle
  functions := forall_mem_extend h.functions hfunctions

/-- The groups of tables that come through come through. -/
theorem exportable_ofTables {tables : List Table} (h : ∀ t ∈ tables, t.Exportable) :
    Exportable (ofTables tables) := by
  have hfold (groups : Signatures) (hgroups : Exportable groups) :
      Exportable
        (tables.foldl (fun groups t => Signatures.extend t.title t.sorted groups) groups) := by
    induction tables generalizing groups with
    | nil => exact hgroups
    | cons t rest ih =>
      obtain ⟨htitle, hfunctions⟩ := h t List.mem_cons_self
      have hextend : Exportable (Signatures.extend t.title t.sorted groups) :=
        hgroups.extend htitle fun f hf => hfunctions f (List.mem_mergeSort.mp hf)
      exact ih (fun t ht => h t (List.mem_cons_of_mem _ ht)) _ hextend
  exact hfold [] ⟨List.nodup_nil, nofun, nofun⟩

/-- The descriptions of the functions under each title. -/
def described (groups : Signatures) : List (String × Datum) :=
  groups.map fun (title, functions) => (title, .array (functions.map Native.describe))

/-- The descriptions of such groups are data that are read back. -/
theorem Exportable.legible (h : Exportable groups) : Legible 6 groups.toDatum := by
  have hkeys : groups.described.map (·.1) = groups.map (·.1) := List.map_map
  have htitles :
      Legible 5 (.map (groups.described.map fun (key, value) => (.string key, value))) := by
    refine legible_record ?_ ?_ ?_
    · rw [hkeys]
      exact h.titles
    · rw [hkeys]
      exact h.distinct
    · intro field hfield
      obtain ⟨⟨title, fs⟩, hg, rfl⟩ := List.mem_map.mp hfield
      refine .array fun d hd => ?_
      obtain ⟨f, hf, rfl⟩ := List.mem_map.mp hd
      exact legible_function (h.functions (title, fs) hg f hf)
  have hvalues : ∀ field ∈ [(modulesKey, Datum.map
      (groups.described.map fun (key, value) => (.string key, value)))], Legible 5 field.2 := by
    simp only [List.forall_mem_cons]
    exact ⟨htitles, nofun⟩
  have hrecord := legible_description [modulesKey] rfl (by decide) (by decide) hvalues
  rw [described, List.map_map] at hrecord
  exact hrecord

/-! ## Texts and files -/

/-- The groups of a description are found under their key. -/
theorem complete_toDatum (groups : Datum) (hgroups : ∃ entries, groups = .map entries) :
    complete [(.string modulesKey, groups)] = .ok (.map [(.string modulesKey, groups)]) := by
  obtain ⟨entries, rfl⟩ := hgroups
  rfl

/-- The descriptions of such groups are read back from their text. -/
theorem Exportable.read_write (h : Exportable groups) : read groups.write = .ok groups.toDatum := by
  have hread : Yaml.read? groups.write = some groups.toDatum :=
    read?_write (List.cons_ne_nil _ _) h.legible (by decide)
  rw [read, hread]
  exact complete_toDatum _ ⟨_, rfl⟩

/-- **Exported signatures are read back**, from their text and from a file that it is written to, if
all strings of their tables come through: the same groups in the same order. -/
theorem read_write_ofTables {tables : List Table} (h : ∀ t ∈ tables, t.Exportable) :
    read (ofTables tables).write = .ok (ofTables tables).toDatum ∧
      ∀ files path files', Files.write files path (ofTables tables).write = .ok files' →
        ∃ text, files'.read? path = .ok (some text) ∧
          read text = .ok (ofTables tables).toDatum := by
  have hread := (exportable_ofTables h).read_write
  exact ⟨hread, fun files path files' hwrite => ⟨_, Files.read?_write hwrite, hread⟩⟩

/-- A function without parameters and without a known result, under a name. -/
def actionNamed (name : String) : Native := ⟨name, [], false, none, [], none⟩

/-- A table of one such function, under a title. -/
def tableTitled (title name : String) : Table := ⟨some title, [actionNamed name], false⟩

/-- A reserved word, marks, breaks, blanks and characters that are escaped come through. -/
theorem read_write_ofTables_marked :
    (∀ t ∈ [tableTitled "off" "- if: #1\n", tableTitled " \u2028? " "'\t\x07'"], t.Exportable) ∧
      read (ofTables [tableTitled "off" "- if: #1\n", tableTitled " \u2028? " "'\t\x07'"]).write =
        .ok (ofTables
          [tableTitled "off" "- if: #1\n", tableTitled " \u2028? " "'\t\x07'"]).toDatum := by
  have h : ∀ t ∈ [tableTitled "off" "- if: #1\n", tableTitled " \u2028? " "'\t\x07'"],
      t.Exportable := by
    simp only [List.forall_mem_cons]
    refine ⟨⟨⟨⟨"off", rfl, by decide⟩, by decide⟩, ?_⟩,
      ⟨⟨⟨" \u2028? ", rfl, by decide⟩, by decide⟩, ?_⟩, nofun⟩
    · intro f hf
      rw [List.mem_singleton.mp hf]
      exact ⟨by decide, by decide, nofun, nofun⟩
    · intro f hf
      rw [List.mem_singleton.mp hf]
      exact ⟨by decide, by decide, nofun, nofun⟩
  exact ⟨h, (read_write_ofTables h).1⟩

/-- What is written for a name with a next line: in single quotes it stands for itself. -/
def nextLineText : String := "modules:\n  m:\n  - name: 'a\u0085      b'\n    params: []\n" ++
  "    style: pure\n    fallible: false\n    signature: 'a\u0085      b()'\n"

theorem write_nextLine : write (ofTables [tableTitled "m" "a\u0085b"]) = nextLineText := by
  have hgroups : ofTables [tableTitled "m" "a\u0085b"] = [("m", [actionNamed "a\u0085b"])] := by
    simp [ofTables, tableTitled, Table.title, Table.sorted, extend]
  rw [hgroups]
  decide +kernel

/-- Signatures with such a name are not read back: the next line is read as a blank. -/
theorem not_read_write_ofTables : read (ofTables [tableTitled "m" "a\u0085b"]).write ≠
    .ok (ofTables [tableTitled "m" "a\u0085b"]).toDatum := by
  -- what is read is written without the next line
  have hread : (read nextLineText).toOption.map Yaml.write ≠ some nextLineText := by decide +kernel
  rw [write_nextLine]
  intro h
  rw [h] at hread
  exact hread (congrArg some write_nextLine)

end Signatures

end ScriptHost
