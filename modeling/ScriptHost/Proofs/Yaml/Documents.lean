import ScriptHost.Proofs.Yaml.Blocks
import ScriptHost.Proofs.Yaml.Characters

/-!
# Documents are read back

Data made of strings, truth values, sequences and mappings are read back from their text, as long as
no nested collection comes near the width of a line.

* `Legible`: data that are read back.
* `Legible.reads`: such a datum is read back wherever it stands in another one.
* `read?_write`: a mapping of such data is read back from its document.
-/

namespace ScriptHost
namespace Yaml

/-! ## Entries under different keys -/

theorem sameKey_string (s t : String) : Datum.sameKey (.string s) (.string t) = (s == t) := rfl

/-- A new key is entered at the end. -/
theorem enter_eq_append {done : List (Datum × Datum)} {s : String}
    (h : ∀ e ∈ done, ∃ t, e.1 = .string t ∧ t ≠ s) (value : Datum) :
    Datum.enter done (.string s) value = done ++ [(.string s, value)] := by
  have hnone : (done.any fun entry => entry.1.sameKey (.string s)) = false := by
    refine List.any_eq_false.mpr fun e he => ?_
    obtain ⟨t, ht, hne⟩ := h e he
    rw [ht, sameKey_string]
    simpa using hne
  rw [Datum.enter, hnone, if_neg Bool.false_ne_true]

theorem foldl_enter (entries done : List (Datum × Datum))
    (hkeys : ∀ e ∈ done ++ entries, ∃ s, e.1 = .string s)
    (hdistinct : ((done ++ entries).map (·.1)).Nodup) :
    entries.foldl (fun done entry => Datum.enter done entry.1 entry.2) done = done ++ entries := by
  induction entries generalizing done with
  | nil => exact (List.append_nil done).symm
  | cons entry rest ih =>
    obtain ⟨key, value⟩ := entry
    obtain ⟨s, rfl⟩ : ∃ s, key = .string s := hkeys (key, value) (by simp)
    have hnew (e : Datum × Datum) (he : e ∈ done) : ∃ t, e.1 = .string t ∧ t ≠ s := by
      obtain ⟨t, ht⟩ := hkeys e (List.mem_append_left _ he)
      refine ⟨t, ht, ?_⟩
      rintro rfl
      rw [List.map_append, List.nodup_append] at hdistinct
      exact hdistinct.2.2 e.1 (List.mem_map_of_mem he) (.string t) (by simp) ht
    have hassoc : done ++ (.string s, value) :: rest = (done ++ [(.string s, value)]) ++ rest := by
      simp
    rw [hassoc] at hkeys hdistinct
    rw [List.foldl_cons, enter_eq_append hnew, ih _ hkeys hdistinct, hassoc]

/-- Entries under different strings are a map as they are. -/
theorem ofEntries_eq {entries : List (Datum × Datum)} (hkeys : ∀ e ∈ entries, ∃ s, e.1 = .string s)
    (hdistinct : (entries.map (·.1)).Nodup) : Datum.ofEntries entries = .map entries := by
  rw [Datum.ofEntries, foldl_enter entries [] hkeys hdistinct, List.nil_append]

theorem Node.EntriesDenote.mapping {nodes : List (Node × Node)} {entries : List (Datum × Datum)}
    (h : Node.EntriesDenote nodes entries) (hkeys : ∀ e ∈ entries, ∃ s, e.1 = .string s)
    (hdistinct : (entries.map (·.1)).Nodup) : (Node.mapping nodes).Denotes (.map entries) := by
  intro known
  rw [Node.datumWith?, h known]
  simp [ofEntries_eq hkeys hdistinct]

/-! ## Data that are read back -/

/-- A key that is read back: a string whose text is not too long where its colon stands behind
it. -/
structure LegibleKey (key : Datum) : Prop where
  exists_string : ∃ s, key = .string s ∧ KeepsNextLine s.toList
  short : ∀ text ∈ simpleKey? 0 key, text.length ≤ 1024

/-- A key has the same text in every column. -/
theorem simpleKey?_column (c c' : Nat) (s : String) :
    simpleKey? c (.string s) = simpleKey? c' (.string s) := by
  have htext : stringText ⟨false, 0⟩ true c s.toList = stringText ⟨false, 0⟩ true c' s.toList :=
    stringText_column rfl true c c' s.toList
  simp only [simpleKey?, Datum.string, scalarText, htext]

/-- A short text without a mark is such a key. -/
theorem legibleKey_of_isPlain {s : String} (hs : Style.isPlain s.toList = true)
    (hlength : s.toList.length ≤ 1024) : LegibleKey (.string s) where
  exists_string := by
    refine ⟨s, rfl, fun _ c hc hnext => ?_⟩
    simp only [Style.isPlain, Bool.and_eq_true, Bool.not_eq_true', List.any_eq_false] at hs
    exact hs.1.1.1.1.2 c hc (by simp [isBreak, hnext])
  short text htext := by
    rw [simpleKey?_string htext, stringText, if_pos hs, plainBody_eq rfl]
    exact hlength

/-- Data that are read back, with so many levels of collections at most. -/
inductive Legible : Nat → Datum → Prop
  | string {n : Nat} {s : String} (hs : KeepsNextLine s.toList) : Legible n (.string s)
  | bool {n : Nat} (b : Bool) : Legible n (.bool b)
  | array {n : Nat} {items : List Datum} (hitems : ∀ d ∈ items, Legible n d) :
      Legible (n + 1) (.array items)
  | map {n : Nat} {entries : List (Datum × Datum)} (hkeys : ∀ e ∈ entries, LegibleKey e.1)
      (hdistinct : (entries.map (·.1)).Nodup) (hvalues : ∀ e ∈ entries, Legible n e.2) :
      Legible (n + 1) (.map entries)

/-! ## How they are written -/

section Writing

variable (c place₀ : Nat) (s : Scalar) (item : Datum) (items : List Datum) (entry : Datum × Datum)
  (entries : List (Datum × Datum))

theorem insideText_scalar : insideText c (.scalar s) =
    scalarText ⟨true, c + step⟩ false (c + step) s ++ ['\n'] := by
  rw [insideText.eq_def]

theorem insideText_array : insideText c (.array (item :: items)) =
    itemsText (c + step) (item :: items) := by
  rw [insideText.eq_def]

theorem insideText_map : insideText c (.map (entry :: entries)) =
    entriesText (c + step) (entry :: entries) := by
  rw [insideText.eq_def]

theorem insideText_empty_array : insideText c (.array []) = ['[', ']', '\n'] := by
  rw [insideText.eq_def]

theorem insideText_empty_map : insideText c (.map []) = ['\x7b', '\x7d', '\n'] := by
  rw [insideText.eq_def]

theorem besideText_scalar : besideText c place₀ (.scalar s) =
    ' ' :: (scalarText ⟨true, c + step⟩ false (place₀ + 1) s ++ ['\n']) := by
  rw [besideText.eq_def]

theorem besideText_array : besideText c place₀ (.array (item :: items)) =
    '\n' :: (margin c ++ itemsText c (item :: items)) := by
  rw [besideText.eq_def]

theorem besideText_map : besideText c place₀ (.map (entry :: entries)) =
    '\n' :: (margin (c + step) ++ entriesText (c + step) (entry :: entries)) := by
  rw [besideText.eq_def]

theorem besideText_empty_array : besideText c place₀ (.array []) = [' ', '[', ']', '\n'] := by
  rw [besideText.eq_def]

theorem besideText_empty_map : besideText c place₀ (.map []) = [' ', '\x7b', '\x7d', '\n'] := by
  rw [besideText.eq_def]

end Writing

/-! ## Nodes in one line -/

variable {c line column n : Nat} {outer : Int} {fresh aside : Bool} {text tail : List Char}
  {start : Cursor} {l : Layout}

theorem skip_space (h : StartsInline text) (line column : Nat) :
    (⟨' ' :: text, line, column⟩ : Cursor).skip = ⟨text, line, column + 1⟩ := by
  rw [Cursor.skip, Cursor.skipFrom_space, h.skipFrom]

/-- A scalar behind a blank is read back. -/
theorem blockNode_scalarText (hl : l.Suits c false) {s : Scalar} (hs : IsPlainValue s)
    (htail : Below (c + 1) tail) (hcolumn : c ≤ column) (column₀ line n : Nat) :
    ∃ node place, blockNode (n + 2) c fresh aside
        ⟨' ' :: (scalarText l false column₀ s ++ '\n' :: tail), line, column⟩ = some (node, place) ∧
      node.Denotes (.scalar s) ∧ Arrives tail place := by
  have hstart := startsInline_scalarText (l := l) hs column₀ ('\n' :: tail)
  obtain ⟨node, place, hread, hnode, hplace⟩ := inlineNode_scalarText hl hs htail
    (Nat.le_succ_of_le hcolumn) n column₀ line
  exact ⟨node, place, blockNode_inline (skip_space hstart line column) (Nat.succ_pos column) hstart
    hread hplace.isSimpleKey_eq, hnode, hplace.next⟩

theorem exists_eq_add_two (hn : 1 < n) : ∃ m, n = m + 2 := ⟨n - 2, by omega⟩

theorem reads_scalar {s : Scalar} (hs : IsPlainValue s) (hc : c + 2 < bestWidth) :
    ReadsInside c (.scalar s) ∧ ReadsBeside c (.scalar s) := by
  have hl : Layout.Suits c ⟨true, c + step⟩ false := .value (by simp [step]) hc (by simp [step])
  constructor
  · intro aside tail line n htail hn
    obtain ⟨m, rfl⟩ := exists_eq_add_two (Nat.lt_of_le_of_lt (Nat.le_add_left 1 _) hn)
    rw [insideText_scalar, List.append_assoc, List.singleton_append]
    exact blockNode_scalarText hl hs htail (Nat.le_succ c) _ line m
  · intro place₀ tail line column n hcolumn htail hn
    obtain ⟨m, rfl⟩ := exists_eq_add_two (Nat.lt_of_le_of_lt (Nat.le_add_left 1 _) hn)
    rw [besideText_scalar, List.cons_append, List.append_assoc, List.singleton_append]
    exact blockNode_scalarText hl hs htail.below hcolumn _ line m

/-- An empty sequence is read back. -/
theorem blockNode_emptyArray (tail : List Char) (line column n : Nat) :
    ∃ node place, blockNode (n + 3) outer fresh aside
        ⟨' ' :: '[' :: ']' :: '\n' :: tail, line, column⟩ = some (node, place) ∧
      node.Denotes (.array []) ∧ Arrives tail place := by
  have hstart : StartsInline ('[' :: ']' :: '\n' :: tail) :=
    .mk ⟨by decide, by decide, by decide⟩ (by decide) (by simp)
  have hread : inlineNode (n + 2) false outer ⟨'[' :: ']' :: '\n' :: tail, line, column + 1⟩ =
      some (.sequence [], ⟨'\n' :: tail, line, column + 3⟩) := rfl
  have hplace := settles_newline tail line line (column + 3)
  exact ⟨_, _, blockNode_inline (skip_space hstart line column) (Nat.succ_pos column) hstart hread
    hplace.isSimpleKey_eq, fun _ => rfl, hplace.next⟩

/-- An empty mapping is read back. -/
theorem blockNode_emptyMap (tail : List Char) (line column n : Nat) :
    ∃ node place, blockNode (n + 3) outer fresh aside
        ⟨' ' :: '\x7b' :: '\x7d' :: '\n' :: tail, line, column⟩ = some (node, place) ∧
      node.Denotes (.map []) ∧ Arrives tail place := by
  have hstart : StartsInline ('\x7b' :: '\x7d' :: '\n' :: tail) :=
    .mk ⟨by decide, by decide, by decide⟩ (by decide) (by simp)
  have hread : inlineNode (n + 2) false outer ⟨'\x7b' :: '\x7d' :: '\n' :: tail, line, column + 1⟩ =
      some (.mapping [], ⟨'\n' :: tail, line, column + 3⟩) := rfl
  have hplace := settles_newline tail line line (column + 3)
  exact ⟨_, _, blockNode_inline (skip_space hstart line column) (Nat.succ_pos column) hstart hread
    hplace.isSimpleKey_eq, fun _ => rfl, hplace.next⟩

/-! ## Collections -/

/-- A sequence with items is read back where it starts. -/
theorem blockNode_itemsText {items : List Datum} (hne : items ≠ [])
    (hitems : ∀ d ∈ items, ReadsInside c d) (htail : Ends c tail)
    (hskip : start.skip = ⟨itemsText c items ++ tail, line, c⟩)
    (hplace : line = start.line ∧ fresh = true ∨
      line ≠ start.line ∧ aside = true ∧ (c : Int) = outer)
    (hn : 4 * (itemsText c items).length + 1 < n) :
    ∃ node place, blockNode n outer fresh aside start = some (node, place) ∧
      node.Denotes (.array items) ∧ Arrives tail place := by
  obtain ⟨m, rfl⟩ : ∃ m, n = m + 1 := ⟨n - 1, by omega⟩
  obtain ⟨nodes, place, hread, hnodes, harrives⟩ := blockItems_itemsText hne hitems htail line m
    (by omega)
  cases items with
  | nil => exact absurd rfl hne
  | cons item items =>
    rw [itemsText_cons_append] at hskip hread
    refine ⟨.sequence nodes, place, ?_, hnodes.sequence, harrives⟩
    rw [blockNode_item hskip hplace, hread]
    rfl

theorem reads_array {items : List Datum} (hhere : ∀ d ∈ items, ReadsInside c d)
    (hdeeper : ∀ d ∈ items, ReadsInside (c + step) d) :
    ReadsInside c (.array items) ∧ ReadsBeside c (.array items) := by
  constructor
  · intro aside tail line n htail hn
    cases items with
    | nil =>
      rw [insideText_empty_array] at hn ⊢
      obtain ⟨m, rfl⟩ : ∃ m, n = m + 3 := ⟨n - 3, by simp at hn; omega⟩
      exact blockNode_emptyArray tail line (c + 1) m
    | cons item items =>
      rw [insideText_array] at hn ⊢
      have hends : Ends (c + step) tail := (htail.mono (by simp [step])).ends
      have hskip :
          (⟨' ' :: (itemsText (c + step) (item :: items) ++ tail), line, c + 1⟩ : Cursor).skip =
          ⟨itemsText (c + step) (item :: items) ++ tail, line, c + step⟩ := by
        rw [itemsText_cons_append, Cursor.skip, Cursor.skipFrom_space,
          Cursor.skipFrom_token ⟨by decide, by decide, by decide⟩]
        rfl
      exact blockNode_itemsText (List.cons_ne_nil item items) hdeeper hends hskip (.inl ⟨rfl, rfl⟩)
        hn
  · intro place₀ tail line column n _ htail hn
    cases items with
    | nil =>
      rw [besideText_empty_array] at hn ⊢
      obtain ⟨m, rfl⟩ : ∃ m, n = m + 3 := ⟨n - 3, by simp at hn; omega⟩
      exact blockNode_emptyArray tail line column m
    | cons item items =>
      rw [besideText_array] at hn ⊢
      simp only [List.length_cons, List.length_append] at hn
      have hskip : (⟨'\n' :: (margin c ++ itemsText c (item :: items)) ++ tail, line, column⟩ :
          Cursor).skip = ⟨itemsText c (item :: items) ++ tail, line + 1, c⟩ := by
        rw [List.cons_append, List.append_assoc, itemsText_cons_append, Cursor.skip,
          Cursor.skipFrom_newline, Cursor.skipFrom_margin,
          Cursor.skipFrom_token ⟨by decide, by decide, by decide⟩, Nat.zero_add]
      exact blockNode_itemsText (List.cons_ne_nil item items) hhere htail hskip
        (.inr ⟨Nat.succ_ne_self line, rfl, rfl⟩) (by omega)

/-- A mapping starts with its first key, of whichever form. -/
theorem blockNode_entryText {key : Datum} (hkey : ReadsKey c key) (value : Datum) {rest : List Char}
    (hskip : start.skip = ⟨entryText c key value ++ rest, line, c⟩)
    (hfresh : fresh = true ∨ line ≠ start.line) (houter : outer < c) (n : Nat) :
    blockNode (n + 2) outer fresh aside start = (do
      let (entries, place) ← blockEntries (n + 1) c ⟨entryText c key value ++ rest, line, c⟩
      some (.mapping entries, place)) := by
  have hstarts := startsEntry_entryText hkey.exists_string c value rest
  obtain ⟨s, rfl⟩ := hkey.exists_string
  rw [entryText] at hskip hstarts ⊢
  split at hskip
  · rename_i text hs
    have hinline := startsInline_simpleKey hs
      (':' :: (besideText c (c + text.length + 1) value ++ rest))
    obtain ⟨node, column', hread, -, -, hsimple⟩ := inlineNode_simpleKey hs (hkey.short text hs)
      (endsWord_besideText c (c + text.length + 1) value rest) (Int.le_of_lt houter) n line
    have hstart : (fresh || decide (line ≠ start.line)) = true := by simpa using hfresh
    have hend := hstarts.atEnd line c
    simp only [hs, List.append_assoc, List.cons_append] at hskip hend ⊢
    rw [blockNode_eq hskip hinline hend fun _ => houter, hread]
    simp only [Option.bind_eq_bind, Option.bind_some, skipSpaces_colon, hsimple, hstart,
      Bool.and_self, if_true]
  · rename_i hs
    simp only [List.append_assoc, List.cons_append] at hskip ⊢
    exact blockNode_ask hskip hfresh fun _ => houter

/-- A mapping with entries is read back where it starts. -/
theorem blockNode_entriesText {entries : List (Datum × Datum)} (hne : entries ≠ [])
    (hkeys : ∀ e ∈ entries, ReadsKey c e.1) (hdistinct : (entries.map (·.1)).Nodup)
    (hvalues : ∀ e ∈ entries, ReadsInside c e.2 ∧ ReadsBeside c e.2) (htail : Below c tail)
    (hskip : start.skip = ⟨entriesText c entries ++ tail, line, c⟩)
    (hfresh : fresh = true ∨ line ≠ start.line) (houter : outer < c)
    (hn : 4 * (entriesText c entries).length + 1 < n) :
    ∃ node place, blockNode n outer fresh aside start = some (node, place) ∧
      node.Denotes (.map entries) ∧ Arrives tail place := by
  obtain ⟨m, rfl⟩ : ∃ m, n = m + 2 := ⟨n - 2, by omega⟩
  obtain ⟨nodes, place, hread, hnodes, harrives⟩ := blockEntries_entriesText hne hkeys hvalues htail
    line (m + 1) (by omega)
  have hstrings (e : Datum × Datum) (he : e ∈ entries) : ∃ s, e.1 = .string s :=
    (hkeys e he).exists_string
  refine ⟨.mapping nodes, place, ?_, hnodes.mapping hstrings hdistinct, harrives⟩
  cases entries with
  | nil => exact absurd rfl hne
  | cons entry rest =>
    obtain ⟨key, value⟩ := entry
    have hkey : ReadsKey c key := hkeys _ List.mem_cons_self
    obtain ⟨s, rfl⟩ := hkey.exists_string
    rw [entriesText_cons_append] at hskip hread
    rw [blockNode_entryText hkey value hskip hfresh houter, hread]
    rfl

theorem reads_map {entries : List (Datum × Datum)} (hkeys : ∀ e ∈ entries, ReadsKey (c + step) e.1)
    (hdistinct : (entries.map (·.1)).Nodup)
    (hvalues : ∀ e ∈ entries, ReadsInside (c + step) e.2 ∧ ReadsBeside (c + step) e.2) :
    ReadsInside c (.map entries) ∧ ReadsBeside c (.map entries) := by
  have houter : (c : Int) < (c + step : Nat) :=
    Int.ofNat_lt.mpr (Nat.lt_add_of_pos_right (by decide))
  constructor
  · intro aside tail line n htail hn
    cases entries with
    | nil =>
      rw [insideText_empty_map] at hn ⊢
      obtain ⟨m, rfl⟩ : ∃ m, n = m + 3 := ⟨n - 3, by simp at hn; omega⟩
      exact blockNode_emptyMap tail line (c + 1) m
    | cons entry rest =>
      rw [insideText_map] at hn ⊢
      have hbelow : Below (c + step) tail := htail.mono (by simp [step])
      have hstart : StartsEntry (entriesText (c + step) (entry :: rest) ++ tail) :=
        startsEntry_entriesText (hkeys entry List.mem_cons_self).exists_string (c + step) tail
      have hskip :
          (⟨' ' :: (entriesText (c + step) (entry :: rest) ++ tail), line, c + 1⟩ : Cursor).skip =
          ⟨entriesText (c + step) (entry :: rest) ++ tail, line, c + step⟩ := by
        obtain ⟨x, more, htext, hx⟩ := hstart.exists_cons
        rw [htext, Cursor.skip, Cursor.skipFrom_space, Cursor.skipFrom_token hx]
        rfl
      exact blockNode_entriesText (List.cons_ne_nil entry rest) hkeys hdistinct hvalues hbelow hskip
        (.inl rfl) houter hn
  · intro place₀ tail line column n _ htail hn
    cases entries with
    | nil =>
      rw [besideText_empty_map] at hn ⊢
      obtain ⟨m, rfl⟩ : ∃ m, n = m + 3 := ⟨n - 3, by simp at hn; omega⟩
      exact blockNode_emptyMap tail line column m
    | cons entry rest =>
      rw [besideText_map] at hn ⊢
      simp only [List.length_cons, List.length_append] at hn
      have hbelow : Below (c + step) tail := htail.below.mono (by simp [step])
      have hstart : StartsEntry (entriesText (c + step) (entry :: rest) ++ tail) :=
        startsEntry_entriesText (hkeys entry List.mem_cons_self).exists_string (c + step) tail
      have hskip : (⟨'\n' :: (margin (c + step) ++ entriesText (c + step) (entry :: rest)) ++ tail,
          line, column⟩ : Cursor).skip =
          ⟨entriesText (c + step) (entry :: rest) ++ tail, line + 1, c + step⟩ := by
        rw [List.cons_append, List.append_assoc, Cursor.skip, Cursor.skipFrom_newline,
          hstart.skipFrom_margin]
      exact blockNode_entriesText (List.cons_ne_nil entry rest) hkeys hdistinct hvalues hbelow hskip
        (.inr (Nat.succ_ne_self line)) houter (by omega)

/-! ## Whole data -/

/-- A key is read back as a string, wherever it stands. -/
theorem LegibleKey.reads {key : Datum} (h : LegibleKey key) (hc : c + 2 < bestWidth) :
    ReadsKey c key where
  exists_string := by
    obtain ⟨s, hs, -⟩ := h.exists_string
    exact ⟨s, hs⟩
  short text htext := by
    obtain ⟨s, rfl, -⟩ := h.exists_string
    exact h.short text ((simpleKey?_column 0 c s).trans htext)
  inside := by
    obtain ⟨s, rfl, -⟩ := h.exists_string
    exact (reads_scalar (.string s) hc).1

/-- **Legible data are read back wherever they stand**, if their collections all start in front of
the width of a line. -/
theorem Legible.reads {levels : Nat} {d : Datum} (h : Legible levels d) (c : Nat)
    (hc : c + 2 * levels + 2 < bestWidth) : ReadsInside c d ∧ ReadsBeside c d := by
  induction h generalizing c with
  | @string n s _ => exact reads_scalar (.string s) (by omega)
  | @bool n b => exact reads_scalar (.bool b) (by omega)
  | array _ ih =>
    exact reads_array (fun d hd => (ih d hd c (by omega)).1)
      (fun d hd => (ih d hd (c + step) (by simp [step]; omega)).1)
  | map hkeys hdistinct _ ih =>
    exact reads_map (fun e he => (hkeys e he).reads (by simp [step]; omega)) hdistinct
      (fun e he => ih e he (c + step) (by simp [step]; omega))

/-! ## Whole documents -/

theorem allKept_scriptBool (b : Bool) : AllKept (scriptBool b) := by
  intro c hc
  have hascii : ((scriptBool b).all fun c => decide (0x20 ≤ c.toNat ∧ c.toNat ≤ 0x7e)) = true := by
    cases b <;> decide
  exact isKept_of_ascii (of_decide_eq_true (List.all_eq_true.mp hascii c hc))

theorem allKept_scalar {s : Scalar} (h : ∀ l column₀, AllKept (scalarText l false column₀ s)) :
    AllKept (insideText c (.scalar s)) ∧ ∀ place₀, AllKept (besideText c place₀ (.scalar s)) := by
  refine ⟨?_, fun place₀ => ?_⟩
  · rw [insideText_scalar]
    exact .append (h _ _) (.cons isKept_newline .nil)
  · rw [besideText_scalar]
    exact .cons isKept_space (.append (h _ _) (.cons isKept_newline .nil))

theorem allKept_string {s : String} (hs : KeepsNextLine s.toList) :
    AllKept (insideText c (.string s)) ∧ ∀ place₀, AllKept (besideText c place₀ (.string s)) :=
  allKept_scalar fun _ column₀ => allKept_stringText hs false column₀

theorem allKept_itemsText {items : List Datum} (h : ∀ d ∈ items, AllKept (insideText c d)) :
    AllKept (itemsText c items) := by
  induction items with
  | nil =>
    rw [itemsText.eq_def]
    exact .nil
  | cons item rest ih =>
    have hmore := ih fun d hd => h d (List.mem_cons_of_mem item hd)
    rw [itemsText_cons]
    refine .cons (isKept_of_ascii (by decide)) (.cons isKept_space
      (.append (h item List.mem_cons_self) ?_))
    rw [nextItems]
    split
    · exact .nil
    · exact .append (allKept_margin c) hmore

theorem allKept_entryText {key value : Datum} (hkey : LegibleKey key)
    (hinside : AllKept (insideText c key)) (hvalue : AllKept (insideText c value))
    (hbeside : ∀ place₀, AllKept (besideText c place₀ value)) :
    AllKept (entryText c key value) := by
  have hcolon : IsKept ':' := isKept_of_ascii (by decide)
  have hask : IsKept '?' := isKept_of_ascii (by decide)
  obtain ⟨s, rfl, hs⟩ := hkey.exists_string
  rw [entryText]
  split
  · rename_i text htext
    rw [simpleKey?_string htext]
    exact .append (allKept_stringText hs true c) (.cons hcolon (hbeside _))
  · exact .cons hask (.cons isKept_space (.append hinside (.append (allKept_margin c)
      (.cons hcolon (.cons isKept_space hvalue)))))

theorem allKept_entriesText {entries : List (Datum × Datum)}
    (h : ∀ e ∈ entries, AllKept (entryText c e.1 e.2)) : AllKept (entriesText c entries) := by
  induction entries with
  | nil =>
    rw [entriesText.eq_def]
    exact .nil
  | cons entry rest ih =>
    obtain ⟨key, value⟩ := entry
    have hmore := ih fun e he => h e (List.mem_cons_of_mem _ he)
    rw [entriesText_cons]
    refine .append (h (key, value) List.mem_cons_self) ?_
    rw [nextEntries]
    split
    · exact .nil
    · exact .append (allKept_margin c) hmore

theorem allKept_array {items : List Datum} (h : ∀ c, AllKept (itemsText c items)) :
    AllKept (insideText c (.array items)) ∧
      ∀ place₀, AllKept (besideText c place₀ (.array items)) := by
  have hempty : AllKept ['[', ']', '\n'] := .cons (isKept_of_ascii (by decide))
    (.cons (isKept_of_ascii (by decide)) (.cons isKept_newline .nil))
  cases items with
  | nil =>
    refine ⟨?_, fun place₀ => ?_⟩
    · rwa [insideText_empty_array]
    · rw [besideText_empty_array]
      exact .cons isKept_space hempty
  | cons item rest =>
    refine ⟨?_, fun place₀ => ?_⟩
    · rw [insideText_array]
      exact h _
    · rw [besideText_array]
      exact .cons isKept_newline (.append (allKept_margin c) (h c))

theorem allKept_map {entries : List (Datum × Datum)} (h : ∀ c, AllKept (entriesText c entries)) :
    AllKept (insideText c (.map entries)) ∧
      ∀ place₀, AllKept (besideText c place₀ (.map entries)) := by
  have hempty : AllKept ['\x7b', '\x7d', '\n'] := .cons (isKept_of_ascii (by decide))
    (.cons (isKept_of_ascii (by decide)) (.cons isKept_newline .nil))
  cases entries with
  | nil =>
    refine ⟨?_, fun place₀ => ?_⟩
    · rwa [insideText_empty_map]
    · rw [besideText_empty_map]
      exact .cons isKept_space hempty
  | cons entry rest =>
    refine ⟨?_, fun place₀ => ?_⟩
    · rw [insideText_map]
      exact h _
    · rw [besideText_map]
      exact .cons isKept_newline (.append (allKept_margin _) (h _))

/-- All of the text of a key comes through. -/
theorem LegibleKey.allKept {key : Datum} (h : LegibleKey key) (c : Nat) :
    AllKept (insideText c key) := by
  obtain ⟨s, rfl, hs⟩ := h.exists_string
  exact (allKept_string hs).1

/-- **All of the text of legible data comes through.** -/
theorem Legible.allKept {levels : Nat} {d : Datum} (h : Legible levels d) (c : Nat) :
    AllKept (insideText c d) ∧ ∀ place₀, AllKept (besideText c place₀ d) := by
  induction h generalizing c with
  | string hs => exact allKept_string hs
  | bool b => exact allKept_scalar fun _ _ => allKept_scriptBool b
  | array _ ih => exact allKept_array fun c => allKept_itemsText fun d hd => (ih d hd c).1
  | map hkeys _ _ ih =>
    exact allKept_map fun c => allKept_entriesText fun e he =>
      allKept_entryText (hkeys e he) ((hkeys e he).allKept c) (ih e he c).1 (ih e he c).2

theorem StartsEntry.head?_ne_percent (h : StartsEntry text) : text.head? ≠ some '%' := by
  rcases h.head with hinline | ⟨rest, rfl⟩
  · cases hinline with
    | mk _ hmark _ =>
      intro hhead
      rw [Option.some.inj hhead] at hmark
      exact absurd hmark (by decide)
  · exact nofun

/-- There are no directives before a document that starts with something else. -/
theorem skipDirectives_eq {cur : Cursor} (h : cur.rest.head? ≠ some '%') (n : Nat) :
    skipDirectives n cur = cur := by
  cases n with
  | zero => rfl
  | succ n =>
    have hnone : (cur.rest.head? == some '%') = false := beq_false_of_ne h
    rw [skipDirectives, hnone, Bool.and_false, if_neg Bool.false_ne_true]

/-- A document of one node is read. -/
theorem parse?_eq_some {node : Node} {place : Cursor} (hkept : AllKept text)
    (hstart : StartsEntry text)
    (hread : blockNode (8 * (text.length + 2)) (-1) true false ⟨text, 0, 0⟩ = some (node, place))
    (hplace : Arrives [] place) : parse? text = some node := by
  obtain ⟨line, hend⟩ := hplace
  have hdirectives (n : Nat) : skipDirectives n ⟨text, 0, 0⟩ = ⟨text, 0, 0⟩ :=
    skipDirectives_eq hstart.head?_ne_percent n
  have hstream : endsStream (8 * (text.length + 2)) place.skip = true := by
    rw [hend, Nat.mul_add]
    rfl
  have hbyte : (text.head? == some '\ufeff') = false := by
    refine beq_false_of_ne fun h => ?_
    exact (hkept _ (List.mem_of_mem_head? h)).ne_mark rfl
  have hfirst : (Cursor.start text).skip = ⟨text, 0, 0⟩ := by
    obtain ⟨x, rest, rfl, hx⟩ := hstart.exists_cons
    exact Cursor.skipFrom_token hx
  have hempty : text.isEmpty = false := by
    obtain ⟨x, rest, rfl, -⟩ := hstart.exists_cons
    rfl
  simp only [parse?, hbyte, Bool.false_eq_true, if_false, unifyBreaks_eq hkept,
    all_isReadable hkept, Bool.not_true, hfirst, hdirectives, hstart.mark, Bool.and_false, ne_eq,
    not_true_eq_false, decide_false, Bool.false_and, Bool.not_false, hempty, hread,
    Option.bind_eq_bind, Option.bind_some, hstream, if_true]

/-- **A mapping of legible data is read back from its document.** -/
theorem read?_write {levels : Nat} {entries : List (Datum × Datum)} (hne : entries ≠ [])
    (h : Legible levels (.map entries)) (hlevels : 2 * levels < bestWidth) :
    read? (write (.map entries)) = some (.map entries) := by
  obtain ⟨entry, rest, rfl⟩ := List.exists_cons_of_ne_nil hne
  have hwrite : (write (.map (entry :: rest))).toList = entriesText 0 (entry :: rest) := by
    simp [write]
  cases h with
  | @map n _ hkeys hdistinct hvalues =>
    have hreadKeys (e : Datum × Datum) (he : e ∈ entry :: rest) : ReadsKey 0 e.1 :=
      (hkeys e he).reads (by decide)
    have hreadValues (e : Datum × Datum) (he : e ∈ entry :: rest) :
        ReadsInside 0 e.2 ∧ ReadsBeside 0 e.2 :=
      (hvalues e he).reads 0 (by omega)
    have hkept : AllKept (entriesText 0 (entry :: rest)) := allKept_entriesText fun e he =>
      have hvalue := (hvalues e he).allKept 0
      allKept_entryText (hkeys e he) ((hkeys e he).allKept 0) hvalue.1 hvalue.2
    have hstart : StartsEntry (entriesText 0 (entry :: rest) ++ []) :=
      startsEntry_entriesText (hreadKeys entry List.mem_cons_self).exists_string 0 []
    rw [List.append_nil] at hstart
    have hskip : (⟨entriesText 0 (entry :: rest), 0, 0⟩ : Cursor).skip =
        ⟨entriesText 0 (entry :: rest) ++ [], 0, 0⟩ := by
      obtain ⟨x, more, htext, hx⟩ := hstart.exists_cons
      rw [htext, List.append_nil]
      exact Cursor.skipFrom_token hx
    obtain ⟨node, place, hread, hnode, hplace⟩ : ∃ node place,
        blockNode (8 * ((entriesText 0 (entry :: rest)).length + 2)) (-1) true false
          ⟨entriesText 0 (entry :: rest), 0, 0⟩ = some (node, place) ∧
        node.Denotes (.map (entry :: rest)) ∧ Arrives [] place :=
      blockNode_entriesText hne hreadKeys hdistinct hreadValues .nil hskip (.inl rfl) (by decide)
        (by omega)
    rw [read?, hwrite, parse?_eq_some hkept hstart hread hplace, Option.bind_some, Node.datum?,
      hnode []]
    rfl

end Yaml
end ScriptHost
