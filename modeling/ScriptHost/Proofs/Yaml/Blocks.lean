import ScriptHost.Proofs.Yaml.Scalars

/-!
# Collections are read back

A collection in block style stands at a column, and is over where the text goes on to the left of
it.  The reader finds its items and entries one after another, each of them by the indicator or the
key that it starts with.  That an item or an entry is read back rests on its parts only, which
`ReadsInside` and `ReadsBeside` say for the two places where a part can stand.

The number of steps that the reader is allowed goes down with each level, and the lengths of the
texts bound it.

* `blockNode_eq`, `blockNode_item`, `blockNode_ask`: what a node is, by what stands where it starts.
* `ReadsInside`, `ReadsBeside`: a datum behind an indicator, and behind the colon of a simple key,
  is read back whatever follows.
* `blockItems_itemsText`: the items of a sequence are read back.
* `blockEntry_entryText`, `blockEntries_entriesText`: so are the entries of a mapping.
-/

namespace ScriptHost
namespace Yaml

variable {c line column n : Nat} {outer : Int} {fresh aside : Bool} {text tail rest : List Char}
  {start cur place : Cursor} {node : Node}

/-! ## What starts at a place -/

theorem StartsInline.ne_nil (h : StartsInline text) : text ≠ [] := by
  cases h
  exact List.cons_ne_nil _ _

theorem StartsInline.skipFrom (h : StartsInline text) (line column : Nat) :
    Cursor.skipFrom false line column text = ⟨text, line, column⟩ := by
  cases h with
  | mk hx _ _ => exact Cursor.skipFrom_token hx

theorem StartsInline.atIndicator_dash (h : StartsInline text) :
    (⟨text, line, column⟩ : Cursor).atIndicator '-' = false := by
  cases h with
  | @mk x rest hx hmark hjoined =>
    by_cases hdash : x = '-'
    · simp [Cursor.atIndicator, hjoined (.inl hdash)]
    · simp [Cursor.atIndicator, hdash]

theorem StartsInline.atIndicator_ask (h : StartsInline text) :
    (⟨text, line, column⟩ : Cursor).atIndicator '?' = false := by
  cases h with
  | @mk x rest hx hmark hjoined =>
    by_cases hask : x = '?'
    · simp [Cursor.atIndicator, hjoined (.inr hask)]
    · simp [Cursor.atIndicator, hask]

/-- Nothing is said in front of such a node. -/
theorem StartsInline.read? (h : StartsInline text) (n line column : Nat) :
    Properties.read? n .none ⟨text, line, column⟩ = some (.none, ⟨text, line, column⟩) := by
  cases h with
  | @mk x rest hx hmark hjoined =>
    have hanchor : x ≠ '&' := by
      rintro rfl
      exact absurd hmark (by decide)
    have htag : x ≠ '!' := by
      rintro rfl
      exact absurd hmark (by decide)
    cases n with
    | zero => rfl
    | succ n =>
      rw [Properties.read?]
      split
      · rename_i heq
        exact absurd (List.cons.inj heq).1 hanchor
      · rename_i heq
        exact absurd (List.cons.inj heq).1 htag
      · rfl

/-- A document goes on where a text stands that starts no mark between documents, or none at the
head of a line. -/
theorem atEnd_eq (hne : text ≠ []) (h : column = 0 → startsMark text = false) :
    (⟨text, line, column⟩ : Cursor).atEnd = false := by
  have hempty : text.isEmpty = false := by simpa using hne
  cases column with
  | zero => simp [Cursor.atEnd, hempty, h rfl]
  | succ k => simp [Cursor.atEnd, hempty]

/-! ## Nodes -/

@[simp] theorem Properties.none_anchor : Properties.none.anchor = .none := rfl

@[simp] theorem Properties.none_tag : Properties.none.tag = .none := rfl

@[simp] theorem Properties.attach_none (node : Node) : Properties.none.attach node = node := rfl

/-- Where nothing else starts, a node in one line is read, and a mapping if it is the first key. -/
theorem blockNode_eq (hskip : start.skip = ⟨text, line, column⟩) (htext : StartsInline text)
    (hend : (⟨text, line, column⟩ : Cursor).atEnd = false)
    (hmoved : line ≠ start.line → outer < column) :
    blockNode (n + 1) outer fresh aside start = (do
      let (node, place) ← inlineNode n false outer ⟨text, line, column⟩
      if (fresh || decide (line ≠ start.line)) &&
          isSimpleKey false ⟨text, line, column⟩ place.skipSpaces then
        let (entries, place) ← blockEntries n column ⟨text, line, column⟩
        some (.mapping entries, place)
      else some (node, place)) := by
  have hprop := htext.read? 2 line column
  have hdeep : (decide (line ≠ start.line) && decide ((column : Int) ≤ outer)) = false := by
    by_cases h : line = start.line
    · simp [h]
    · have hlt := hmoved h
      simp [h]
      omega
  simp only [blockNode, hskip, hend, hdeep, Bool.false_eq_true, if_false, htext.atIndicator_dash,
    htext.atIndicator_ask]
  simp only [hprop, Option.bind_eq_bind, Option.bind_some, Properties.none_anchor,
    Properties.none_tag, Option.isSome_none, Bool.or_self, Bool.false_and, Bool.false_eq_true,
    if_false, Properties.attach_none]
  cases htext with
  | mk _ hmark _ =>
    split
    · rename_i heq
      rw [(List.cons.inj heq).1] at hmark
      exact absurd hmark (by decide)
    · rename_i heq
      rw [(List.cons.inj heq).1] at hmark
      exact absurd hmark (by decide)
    · rfl

/-- A scalar, or a collection in brackets, is read as what it is, unless it is a key. -/
theorem blockNode_inline (hskip : start.skip = ⟨text, start.line, column⟩)
    (hcolumn : 0 < column) (htext : StartsInline text)
    (hread : inlineNode n false outer ⟨text, start.line, column⟩ = some (node, place))
    (hkey : isSimpleKey false ⟨text, start.line, column⟩ place.skipSpaces = false) :
    blockNode (n + 1) outer fresh aside start = some (node, place) := by
  have hend : (⟨text, start.line, column⟩ : Cursor).atEnd = false :=
    atEnd_eq htext.ne_nil fun h => absurd h (Nat.ne_of_gt hcolumn)
  rw [blockNode_eq hskip htext hend fun h => absurd rfl h, hread]
  simp [hkey]

theorem startsMark_item (rest : List Char) : startsMark ('-' :: ' ' :: rest) = false := by
  simp [startsMark, Style.isMarkLike, List.isPrefixOf]

/-- A sequence is read inside its surroundings, or at their column if they are aside. -/
theorem blockNode_item (hskip : start.skip = ⟨'-' :: ' ' :: rest, line, column⟩)
    (hplace : line = start.line ∧ fresh = true ∨
      line ≠ start.line ∧ aside = true ∧ (column : Int) = outer) :
    blockNode (n + 1) outer fresh aside start = (do
      let (items, place) ← blockItems n column ⟨'-' :: ' ' :: rest, line, column⟩
      some (.sequence items, place)) := by
  have hend : (⟨'-' :: ' ' :: rest, line, column⟩ : Cursor).atEnd = false :=
    atEnd_eq (List.cons_ne_nil _ _) fun _ => startsMark_item rest
  have hitem : (⟨'-' :: ' ' :: rest, line, column⟩ : Cursor).atIndicator '-' = true := rfl
  rcases hplace with ⟨hline, hfresh⟩ | ⟨hline, haside, hcolumn⟩
  · have hstill : (decide (line ≠ start.line) && decide ((column : Int) ≤ outer)) = false := by
      simp [hline]
    simp only [blockNode, hskip, hend, hstill, hitem, hfresh, Bool.false_eq_true, if_false,
      Bool.true_or, if_true]
  · have hmoved : (decide (line ≠ start.line) && decide ((column : Int) ≤ outer)) = true := by
      simp [hline, hcolumn]
    have hhere : (aside && decide ((column : Int) = outer) && true) = true := by
      simp [haside, hcolumn]
    simp only [blockNode, hskip, hend, hmoved, hitem, hhere, Bool.false_eq_true, if_false, if_true]

/-- A mapping is read from an explicit key on. -/
theorem blockNode_ask (hskip : start.skip = ⟨'?' :: ' ' :: rest, line, column⟩)
    (hfresh : fresh = true ∨ line ≠ start.line) (hmoved : line ≠ start.line → outer < column) :
    blockNode (n + 1) outer fresh aside start = (do
      let (entries, place) ← blockEntries n column ⟨'?' :: ' ' :: rest, line, column⟩
      some (.mapping entries, place)) := by
  have hend : (⟨'?' :: ' ' :: rest, line, column⟩ : Cursor).atEnd = false :=
    atEnd_eq (List.cons_ne_nil _ _) fun _ => startsMark_of_head (by decide) (by decide)
  have hdash : (⟨'?' :: ' ' :: rest, line, column⟩ : Cursor).atIndicator '-' = false := rfl
  have hask : (⟨'?' :: ' ' :: rest, line, column⟩ : Cursor).atIndicator '?' = true := rfl
  have hdeep : (decide (line ≠ start.line) && decide ((column : Int) ≤ outer)) = false := by
    by_cases h : line = start.line
    · simp [h]
    · have hlt := hmoved h
      simp [h]
      omega
  have hstart : (fresh || decide (line ≠ start.line)) = true := by simpa using hfresh
  simp only [blockNode, hskip, hend, hdeep, hdash, hask, hstart, Bool.false_eq_true, if_false,
    if_true]

/-! ## Sequences -/

/-- What nodes denote when there are no aliases in them. -/
def Node.AllDenote (nodes : List Node) (items : List Datum) : Prop :=
  ∀ known, Node.dataWith? known nodes = some (items, known)

theorem Node.AllDenote.nil : Node.AllDenote [] [] := fun _ => rfl

theorem Node.AllDenote.cons {n : Node} {d : Datum} {nodes : List Node} {items : List Datum}
    (h : n.Denotes d) (hs : Node.AllDenote nodes items) :
    Node.AllDenote (n :: nodes) (d :: items) := by
  intro known
  rw [Node.dataWith?, h known]
  simp [hs known]

theorem Node.AllDenote.sequence {nodes : List Node} {items : List Datum}
    (h : Node.AllDenote nodes items) : (Node.sequence nodes).Denotes (.array items) := by
  intro known
  rw [Node.datumWith?, h known]
  rfl

/-- From a place behind a node, the next token is that of a text in a new line. -/
def Arrives (tail : List Char) (place : Cursor) : Prop :=
  ∃ line, place.skip = Cursor.skipFrom false line 0 tail

/-- A datum behind an indicator at a column is read back. -/
def ReadsInside (c : Nat) (d : Datum) : Prop :=
  ∀ aside tail line n, Below (c + 1) tail → 4 * (insideText c d).length + 1 < n →
    ∃ node place, blockNode n c true aside ⟨' ' :: (insideText c d ++ tail), line, c + 1⟩ =
        some (node, place) ∧
      node.Denotes d ∧ Arrives tail place

/-- The items behind the first one stand in lines of their own. -/
abbrev nextItems (c : Nat) (items : List Datum) : List Char :=
  if items.isEmpty then [] else margin c ++ itemsText c items

theorem itemsText_cons (c : Nat) (item : Datum) (rest : List Datum) :
    itemsText c (item :: rest) = '-' :: ' ' :: (insideText c item ++ nextItems c rest) := by
  simp only [itemsText, nextItems]

theorem itemsText_cons_append (c : Nat) (item : Datum) (rest : List Datum) (tail : List Char) :
    itemsText c (item :: rest) ++ tail =
      '-' :: ' ' :: (insideText c item ++ (nextItems c rest ++ tail)) := by
  rw [itemsText_cons, List.cons_append, List.cons_append, List.append_assoc]

theorem nextItems_cons_append (c : Nat) (item : Datum) (rest : List Datum) (tail : List Char) :
    nextItems c (item :: rest) ++ tail = margin c ++ (itemsText c (item :: rest) ++ tail) :=
  List.append_assoc _ _ _

/-- The next item stands at the column of the one before. -/
theorem skipFrom_nextItems (c line : Nat) (item : Datum) (rest : List Datum) (tail : List Char) :
    Cursor.skipFrom false line 0 (nextItems c (item :: rest) ++ tail) =
      ⟨itemsText c (item :: rest) ++ tail, line, c⟩ := by
  rw [nextItems_cons_append, Cursor.skipFrom_margin, itemsText_cons_append, Nat.zero_add,
    Cursor.skipFrom_token ⟨by decide, by decide, by decide⟩]

/-- What follows an item starts at its column at most. -/
theorem below_nextItems (htail : Ends c tail) (rest : List Datum) :
    Below (c + 1) (nextItems c rest ++ tail) := by
  cases rest with
  | nil => exact htail.below
  | cons item rest =>
    rw [nextItems_cons_append, itemsText_cons_append]
    exact .line (Nat.lt_succ_self c) ⟨by decide, by decide, by decide⟩ fun _ => startsMark_item _

/-- Behind the last item, no other one starts at the column. -/
theorem Ends.starts_no_item (h : Ends c tail) (line : Nat) :
    (!(Cursor.skipFrom false line 0 tail).atEnd &&
      (Cursor.skipFrom false line 0 tail).column == c &&
      (Cursor.skipFrom false line 0 tail).atIndicator '-') = false := by
  by_cases hcolumn : (Cursor.skipFrom false line 0 tail).column = c
  · rw [h.item line hcolumn, Bool.and_false]
  · rw [beq_false_of_ne hcolumn, Bool.and_false, Bool.false_and]

/-- **The items of a sequence are read back.** -/
theorem blockItems_itemsText {items : List Datum} (hne : items ≠ [])
    (hitems : ∀ d ∈ items, ReadsInside c d) (htail : Ends c tail) (line n : Nat)
    (hn : 4 * (itemsText c items).length < n) :
    ∃ nodes place, blockItems n c ⟨itemsText c items ++ tail, line, c⟩ = some (nodes, place) ∧
      Node.AllDenote nodes items ∧ Arrives tail place := by
  induction items generalizing line n with
  | nil => exact absurd rfl hne
  | cons item rest ih =>
    have hlength : (itemsText c (item :: rest)).length =
        (insideText c item).length + (nextItems c rest).length + 2 := by
      rw [itemsText_cons]
      simp only [List.length_cons, List.length_append]
    obtain ⟨m, rfl⟩ : ∃ m, n = m + 1 := ⟨n - 1, by omega⟩
    obtain ⟨node, place, hread, hdenotes, line', hskip⟩ := hitems item List.mem_cons_self false
      (nextItems c rest ++ tail) line m (below_nextItems htail rest) (by omega)
    have hnext : (⟨'-' :: ' ' :: (insideText c item ++ (nextItems c rest ++ tail)), line, c⟩ :
        Cursor).next = ⟨' ' :: (insideText c item ++ (nextItems c rest ++ tail)), line, c + 1⟩ :=
      rfl
    rw [itemsText_cons_append, blockItems, hnext, hread]
    simp only [Option.bind_eq_bind, Option.bind_some, hskip]
    cases rest with
    | nil =>
      have htext : nextItems c [] ++ tail = tail := rfl
      rw [htext, htail.starts_no_item]
      exact ⟨[node], _, rfl, Node.AllDenote.cons hdenotes .nil, line', Cursor.skip_skipFrom _ _ _ _⟩
    | cons next rest =>
      have hend : (⟨itemsText c (next :: rest) ++ tail, line', c⟩ : Cursor).atEnd = false := by
        rw [itemsText_cons_append]
        exact atEnd_eq (List.cons_ne_nil _ _) fun _ => startsMark_item _
      have hitem :
          (⟨itemsText c (next :: rest) ++ tail, line', c⟩ : Cursor).atIndicator '-' = true := by
        rw [itemsText_cons_append]
        rfl
      have hnextlen : (nextItems c (next :: rest)).length =
          c + (itemsText c (next :: rest)).length := by simp [nextItems, margin]
      obtain ⟨nodes, place', hmore, hdenote, hplace⟩ := ih (List.cons_ne_nil next rest)
        (fun d hd => hitems d (List.mem_cons_of_mem item hd)) line' m (by omega)
      rw [skipFrom_nextItems, hend, hitem, hmore]
      refine ⟨node :: nodes, place', ?_, .cons hdenotes hdenote, hplace⟩
      simp

/-! ## Mappings -/

/-- A datum behind the colon of a simple key at a column is read back. -/
def ReadsBeside (c : Nat) (d : Datum) : Prop :=
  ∀ place₀ tail line column n, c ≤ column → Ends c tail →
    4 * (besideText c place₀ d).length + 1 < n →
    ∃ node place, blockNode n c false true ⟨besideText c place₀ d ++ tail, line, column⟩ =
        some (node, place) ∧
      node.Denotes d ∧ Arrives tail place

/-- A key at a column that is read back: a string, not too long where its colon stands behind it. -/
structure ReadsKey (c : Nat) (key : Datum) : Prop where
  exists_string : ∃ s, key = .string s
  short : ∀ text, simpleKey? c key = some text → text.length ≤ 1024
  inside : ReadsInside c key

/-- The text of an entry. -/
abbrev entryText (c : Nat) (key value : Datum) : List Char :=
  match simpleKey? c key with
  | some text => text ++ ':' :: besideText c (c + text.length + 1) value
  | none =>
    '?' :: ' ' :: (insideText c key ++ (margin c ++ ':' :: ' ' :: insideText c value))

/-- The entries behind the first one stand in lines of their own. -/
abbrev nextEntries (c : Nat) (entries : List (Datum × Datum)) : List Char :=
  if entries.isEmpty then [] else margin c ++ entriesText c entries

theorem entriesText_cons (c : Nat) (key value : Datum) (rest : List (Datum × Datum)) :
    entriesText c ((key, value) :: rest) = entryText c key value ++ nextEntries c rest := by
  cases hkey : simpleKey? c key <;> simp only [entriesText, entryText, nextEntries, hkey]

theorem entriesText_cons_append (c : Nat) (key value : Datum) (rest : List (Datum × Datum))
    (tail : List Char) : entriesText c ((key, value) :: rest) ++ tail =
      entryText c key value ++ (nextEntries c rest ++ tail) := by
  rw [entriesText_cons, List.append_assoc]

/-- The text of a simple key is that of its string. -/
theorem simpleKey?_string {s : String} (h : simpleKey? c (.string s) = some text) :
    text = stringText ⟨false, 0⟩ true c s.toList := by
  simp only [simpleKey?, Datum.string, Scalar.text?] at h
  split at h
  · exact absurd h nofun
  · exact (Option.some.inj h).symm

theorem length_entryText_pos (c : Nat) (key value : Datum) :
    0 < (entryText c key value).length := by
  rw [entryText]
  split
  all_goals
    simp only [List.length_append, List.length_cons]
    omega

/-- A text that an entry starts. -/
structure StartsEntry (text : List Char) : Prop where
  head : StartsInline text ∨ ∃ rest, text = '?' :: ' ' :: rest
  mark : startsMark text = false

theorem startsEntry_entryText {key : Datum} (hkey : ∃ s, key = .string s) (c : Nat) (value : Datum)
    (tail : List Char) : StartsEntry (entryText c key value ++ tail) := by
  obtain ⟨s, rfl⟩ := hkey
  rw [entryText]
  split
  · rename_i text hs
    rw [simpleKey?_string hs, List.append_assoc, List.cons_append]
    exact ⟨.inl (startsInline_stringText true c s.toList _), startsMark_key true c s.toList _⟩
  · exact ⟨.inr ⟨_, rfl⟩, startsMark_of_head (by decide) (by decide)⟩

theorem startsEntry_entriesText {entry : Datum × Datum} {rest : List (Datum × Datum)}
    (hkey : ∃ s, entry.1 = .string s) (c : Nat) (tail : List Char) :
    StartsEntry (entriesText c (entry :: rest) ++ tail) := by
  obtain ⟨key, value⟩ := entry
  rw [entriesText_cons_append]
  exact startsEntry_entryText hkey c value _

namespace StartsEntry

theorem exists_cons (h : StartsEntry text) : ∃ x rest, text = x :: rest ∧ IsToken x := by
  rcases h.head with hinline | ⟨rest, rfl⟩
  · cases hinline with
    | mk hx _ _ => exact ⟨_, _, rfl, hx⟩
  · exact ⟨'?', ' ' :: rest, rfl, by decide, by decide, by decide⟩

theorem atIndicator_dash (h : StartsEntry text) :
    (⟨text, line, column⟩ : Cursor).atIndicator '-' = false := by
  rcases h.head with hinline | ⟨rest, rfl⟩
  · exact hinline.atIndicator_dash
  · rfl

theorem atEnd (h : StartsEntry text) (line column : Nat) :
    (⟨text, line, column⟩ : Cursor).atEnd = false := by
  obtain ⟨x, rest, rfl, -⟩ := h.exists_cons
  exact atEnd_eq (List.cons_ne_nil x rest) fun _ => h.mark

theorem skipFrom_margin (h : StartsEntry text) (c line : Nat) :
    Cursor.skipFrom false line 0 (margin c ++ text) = ⟨text, line, c⟩ := by
  obtain ⟨x, rest, rfl, hx⟩ := h.exists_cons
  rw [Cursor.skipFrom_margin, Nat.zero_add, Cursor.skipFrom_token hx]

/-- The next entry ends what stands at its column, unless it is a further item. -/
theorem ends (h : StartsEntry text) (c : Nat) : Ends c (margin c ++ text) where
  below := by
    obtain ⟨x, rest, rfl, hx⟩ := h.exists_cons
    exact .line (Nat.lt_succ_self c) hx fun _ => h.mark
  item line _ := by
    rw [h.skipFrom_margin]
    exact h.atIndicator_dash

end StartsEntry

theorem endsWord_besideText (c place₀ : Nat) (d : Datum) (tail : List Char) :
    endsWord (besideText c place₀ d ++ tail) = true := by
  rw [besideText.eq_def]
  split <;> rfl

/-- A simple key is read up to its colon, and known as one. -/
theorem inlineNode_simpleKey {s : String} (hs : simpleKey? c (.string s) = some text)
    (hshort : text.length ≤ 1024) (hrest : endsWord rest = true) (hcolumn : outer ≤ column)
    (n line : Nat) :
    ∃ key column', inlineNode (n + 1) false outer ⟨text ++ ':' :: rest, line, column⟩ =
        some (key, ⟨':' :: rest, line, column'⟩) ∧
      key.Denotes (.string s) ∧ column ≤ column' ∧
      isSimpleKey false ⟨text ++ ':' :: rest, line, column⟩ ⟨':' :: rest, line, column'⟩ =
        true := by
  obtain ⟨key, column', hread, hkey, hle⟩ := inlineNode_key hrest hcolumn n c line s.toList
  rw [← simpleKey?_string hs] at hread
  have hdenotes := hkey.denotes
  rw [String.ofList_toList] at hdenotes
  refine ⟨key, column', hread, hdenotes, hle, ?_⟩
  simp only [isSimpleKey, hrest, List.length_append, List.length_cons, beq_self_eq_true,
    Bool.false_or, Bool.and_true, Bool.true_and, decide_eq_true_eq]
  omega

theorem startsInline_simpleKey {s : String} (hs : simpleKey? c (.string s) = some text)
    (rest : List Char) : StartsInline (text ++ rest) := by
  rw [simpleKey?_string hs]
  exact startsInline_stringText true c s.toList rest

theorem skipSpaces_colon (rest : List Char) (line column : Nat) :
    (⟨':' :: rest, line, column⟩ : Cursor).skipSpaces = ⟨':' :: rest, line, column⟩ := rfl

/-- An entry with a simple key is read back. -/
theorem blockEntry_simple {s : String} {value : Datum} (hs : simpleKey? c (.string s) = some text)
    (hshort : text.length ≤ 1024) (hvalue : ReadsBeside c value) (htail : Ends c tail)
    (place₀ line n : Nat) (hn : 4 * (besideText c place₀ value).length + 1 < n) :
    ∃ key node place, blockEntry (n + 1) c
        ⟨text ++ ':' :: (besideText c place₀ value ++ tail), line, c⟩ = some ((key, node), place) ∧
      key.Denotes (.string s) ∧ node.Denotes value ∧ Arrives tail place := by
  obtain ⟨m, rfl⟩ : ∃ m, n = m + 1 := ⟨n - 1, by omega⟩
  have hword := endsWord_besideText c place₀ value tail
  obtain ⟨key, column, hread, hkey, hcolumn, hsimple⟩ := inlineNode_simpleKey hs hshort hword
    (Int.le_refl c) m line
  have hstart := startsInline_simpleKey hs (':' :: (besideText c place₀ value ++ tail))
  have hnext : (⟨':' :: (besideText c place₀ value ++ tail), line, column⟩ : Cursor).next =
      ⟨besideText c place₀ value ++ tail, line, column + 1⟩ := rfl
  obtain ⟨node, place, hmore, hnode, hplace⟩ := hvalue place₀ tail line (column + 1) (m + 1)
    (by omega) htail hn
  refine ⟨key, node, place, ?_, hkey, hnode, hplace⟩
  rw [blockEntry]
  simp only [hstart.atIndicator_ask, hstart.read?, hread, skipSpaces_colon, hsimple, hnext, hmore,
    Option.bind_eq_bind, Option.bind_some, Properties.attach_none, Bool.false_eq_true, if_false,
    if_true]

/-- An entry with an explicit key is read back. -/
theorem blockEntry_explicit {key value : Datum} (hkey : ReadsInside c key)
    (hvalue : ReadsInside c value) (htail : Below (c + 1) tail) (line n : Nat)
    (hnkey : 4 * (insideText c key).length + 1 < n)
    (hnvalue : 4 * (insideText c value).length + 1 < n) :
    ∃ keyNode node place, blockEntry (n + 1) c ⟨'?' :: ' ' :: (insideText c key ++
        (margin c ++ ':' :: ' ' :: (insideText c value ++ tail))), line, c⟩ =
        some ((keyNode, node), place) ∧
      keyNode.Denotes key ∧ node.Denotes value ∧ Arrives tail place := by
  have hcolon : Below (c + 1) (margin c ++ ':' :: ' ' :: (insideText c value ++ tail)) :=
    .line (Nat.lt_succ_self c) ⟨by decide, by decide, by decide⟩
      fun _ => startsMark_of_head (by decide) (by decide)
  obtain ⟨keyNode, place₁, hread, hdenotes, line', hskip⟩ := hkey true _ line n hcolon hnkey
  obtain ⟨node, place, hmore, hnode, hplace⟩ := hvalue true tail line' n htail hnvalue
  rw [Cursor.skipFrom_margin, Nat.zero_add,
    Cursor.skipFrom_token ⟨by decide, by decide, by decide⟩] at hskip
  refine ⟨keyNode, node, place, ?_, hdenotes, hnode, hplace⟩
  have hask : (⟨'?' :: ' ' :: (insideText c key ++ (margin c ++ ':' :: ' ' ::
      (insideText c value ++ tail))), line, c⟩ : Cursor).atIndicator '?' = true := rfl
  have hend : (⟨':' :: ' ' :: (insideText c value ++ tail), line', c⟩ : Cursor).atEnd = false :=
    atEnd_eq (List.cons_ne_nil _ _) fun _ => startsMark_of_head (by decide) (by decide)
  have hindicator :
      (⟨':' :: ' ' :: (insideText c value ++ tail), line', c⟩ : Cursor).atIndicator ':' = true :=
    rfl
  have hnextKey : (⟨'?' :: ' ' :: (insideText c key ++ (margin c ++ ':' :: ' ' ::
      (insideText c value ++ tail))), line, c⟩ : Cursor).next = ⟨' ' :: (insideText c key ++
        (margin c ++ ':' :: ' ' :: (insideText c value ++ tail))), line, c + 1⟩ := rfl
  have hnextValue : (⟨':' :: ' ' :: (insideText c value ++ tail), line', c⟩ : Cursor).next =
      ⟨' ' :: (insideText c value ++ tail), line', c + 1⟩ := rfl
  rw [blockEntry, if_pos hask, hnextKey, hread]
  simp only [Option.bind_eq_bind, Option.bind_some, hskip, hend, hindicator, hnextValue, hmore,
    Bool.not_false, beq_self_eq_true, Bool.and_self, if_true]

/-- **An entry of a mapping is read back.** -/
theorem blockEntry_entryText {key value : Datum} (hkey : ReadsKey c key)
    (hinside : ReadsInside c value) (hbeside : ReadsBeside c value) (htail : Ends c tail)
    (line n : Nat) (hn : 4 * (entryText c key value).length ≤ n) :
    ∃ keyNode node place, blockEntry n c ⟨entryText c key value ++ tail, line, c⟩ =
        some ((keyNode, node), place) ∧
      keyNode.Denotes key ∧ node.Denotes value ∧ Arrives tail place := by
  obtain ⟨s, rfl⟩ := hkey.exists_string
  rw [entryText] at hn ⊢
  split at hn
  · rename_i text hs
    simp only [List.length_append, List.length_cons] at hn
    obtain ⟨m, rfl⟩ : ∃ m, n = m + 1 := ⟨n - 1, by omega⟩
    simp only [List.append_assoc, List.cons_append]
    exact blockEntry_simple hs (hkey.short text hs) hbeside htail _ line m (by omega)
  · simp only [List.length_append, List.length_cons] at hn
    obtain ⟨m, rfl⟩ : ∃ m, n = m + 1 := ⟨n - 1, by omega⟩
    simp only [List.append_assoc, List.cons_append]
    exact blockEntry_explicit hkey.inside hinside htail.below line m (by omega) (by omega)

/-- What entries denote when there are no aliases in them. -/
def Node.EntriesDenote (nodes : List (Node × Node)) (entries : List (Datum × Datum)) : Prop :=
  ∀ known, Node.entriesWith? known nodes = some ([], entries, known)

theorem Node.EntriesDenote.nil : Node.EntriesDenote [] [] := fun _ => rfl

theorem Node.EntriesDenote.cons {keyNode node : Node} {s : String} {value : Datum}
    {nodes : List (Node × Node)} {entries : List (Datum × Datum)}
    (hkey : keyNode.Denotes (.string s)) (hvalue : node.Denotes value)
    (h : Node.EntriesDenote nodes entries) :
    Node.EntriesDenote ((keyNode, node) :: nodes) ((.string s, value) :: entries) := by
  intro known
  have hscalar : isKey (.string s) = true := rfl
  rw [Node.entriesWith?, hkey.isMerge_eq, hkey.isValueMark_eq]
  simp [hkey known, hvalue known, h known, hscalar]

/-- Behind the last entry, no other one starts at the column. -/
theorem Below.starts_no_entry (h : Below c tail) (line : Nat) :
    (!(Cursor.skipFrom false line 0 tail).atEnd &&
      (Cursor.skipFrom false line 0 tail).column == c &&
      !(Cursor.skipFrom false line 0 tail).atIndicator '-') = false := by
  rcases h.place line with hend | hlt
  · simp [Cursor.atEnd, hend]
  · rw [beq_false_of_ne (Nat.ne_of_lt hlt), Bool.and_false, Bool.false_and]

/-- **The entries of a mapping are read back.** -/
theorem blockEntries_entriesText {entries : List (Datum × Datum)} (hne : entries ≠ [])
    (hkeys : ∀ e ∈ entries, ReadsKey c e.1)
    (hvalues : ∀ e ∈ entries, ReadsInside c e.2 ∧ ReadsBeside c e.2) (htail : Below c tail)
    (line n : Nat) (hn : 4 * (entriesText c entries).length < n) :
    ∃ nodes place, blockEntries n c ⟨entriesText c entries ++ tail, line, c⟩ = some (nodes, place) ∧
      Node.EntriesDenote nodes entries ∧ Arrives tail place := by
  induction entries generalizing line n with
  | nil => exact absurd rfl hne
  | cons entry rest ih =>
    obtain ⟨key, value⟩ := entry
    have hkey : ReadsKey c key := hkeys _ List.mem_cons_self
    obtain ⟨hinside, hbeside⟩ : ReadsInside c value ∧ ReadsBeside c value :=
      hvalues _ List.mem_cons_self
    have hpos := length_entryText_pos c key value
    obtain ⟨s, rfl⟩ := hkey.exists_string
    have hlength : (entriesText c ((.string s, value) :: rest)).length =
        (entryText c (.string s) value).length + (nextEntries c rest).length := by
      rw [entriesText_cons, List.length_append]
    obtain ⟨m, rfl⟩ : ∃ m, n = m + 1 := ⟨n - 1, by omega⟩
    cases rest with
    | nil =>
      obtain ⟨keyNode, node, place, hread, hkeyNode, hnode, line', hskip⟩ :=
        blockEntry_entryText hkey hinside hbeside htail.ends line m (by omega)
      have htext : nextEntries c [] ++ tail = tail := rfl
      rw [entriesText_cons_append, htext, blockEntries, hread]
      simp only [Option.bind_eq_bind, Option.bind_some, hskip, htail.starts_no_entry,
        Bool.false_eq_true, if_false]
      exact ⟨_, _, rfl, .cons hkeyNode hnode .nil, line', Cursor.skip_skipFrom _ _ _ _⟩
    | cons next rest =>
      have hstart : StartsEntry (entriesText c (next :: rest) ++ tail) := startsEntry_entriesText
        (hkeys next (List.mem_cons_of_mem _ List.mem_cons_self)).exists_string c tail
      have htext : nextEntries c (next :: rest) ++ tail =
          margin c ++ (entriesText c (next :: rest) ++ tail) := List.append_assoc _ _ _
      have hnextlen : (nextEntries c (next :: rest)).length =
          c + (entriesText c (next :: rest)).length := by simp [nextEntries, margin]
      obtain ⟨keyNode, node, place, hread, hkeyNode, hnode, line', hskip⟩ :=
        blockEntry_entryText hkey hinside hbeside (hstart.ends c) line m (by omega)
      obtain ⟨nodes, place', hmore, hdenote, hplace⟩ := ih (List.cons_ne_nil next rest)
        (fun e he => hkeys e (List.mem_cons_of_mem _ he))
        (fun e he => hvalues e (List.mem_cons_of_mem _ he)) line' m (by omega)
      rw [entriesText_cons_append, htext, blockEntries, hread]
      simp only [Option.bind_eq_bind, Option.bind_some, hskip, hstart.skipFrom_margin, hstart.atEnd,
        hstart.atIndicator_dash, hmore, Bool.not_false, beq_self_eq_true, Bool.and_self, if_true]
      exact ⟨_, place', rfl, .cons hkeyNode hnode hdenote, hplace⟩

end Yaml
end ScriptHost
