import ScriptHost.Proofs.Yaml.Quoted
import ScriptHost.Proofs.Yaml.Words

/-!
# Strings are read back

Whatever style its writer chooses for a string, the reader finds a scalar there that denotes the
string.  A key is closed by its colon and any other scalar by the end of its line.

* `StartsInline`: a text that no mark of the block style starts.
* `Node.IsString`: a scalar that denotes a string, also as a key.
* `startsInline_stringText`, `inlineNode_stringText`: what the reader finds where a string is
  written.
* `inlineNode_scriptBool`: and where a truth value is.
-/

namespace ScriptHost
namespace Yaml

/-! ## Where a scalar starts -/

/-- The marks that lead to a node in block style or stand in front of a node. -/
def blockMarks : List Char := ['&', '!', '|', '>', '%']

/-- A text whose first token is a scalar or a collection in brackets. -/
inductive StartsInline : List Char → Prop
  | mk {x : Char} {rest : List Char} (hx : IsToken x) (hmark : x ∉ blockMarks)
      (hjoined : x = '-' ∨ x = '?' → endsWord rest = false) : StartsInline (x :: rest)

variable {x : Char} {t more rest : List Char} {l : Layout} {indent outer : Int}
  {line column : Nat}

theorem isToken_of_not_isSeparator (hx : isSeparator x = false) (hhash : x ≠ '#') : IsToken x :=
  ⟨isBreak_of_not_isSeparator hx, hhash, ne_space_of_not_isSeparator hx⟩

/-- The colon behind a key does not complete a mark between documents. -/
theorem isMarkLike_append_colon (ht : Style.isMarkLike t = false) (rest : List Char) :
    Style.isMarkLike (t ++ ':' :: rest) = false := by
  match t, ht with
  | [], _ => rfl
  | [a], _ => simp [Style.isMarkLike, List.isPrefixOf]
  | [a, b], _ => simp [Style.isMarkLike, List.isPrefixOf]
  | a :: b :: c :: t, ht => simpa [Style.isMarkLike, List.isPrefixOf] using ht

/-! ## Plain texts -/

/-- The first character of a plain text, and what follows it. -/
structure PlainHead (t : List Char) (x : Char) (rest : List Char) : Prop where
  eq : t = x :: rest
  solid : isSeparator x = false
  unmarked : x ∉ Style.leadingMarks
  /-- An indicator at the head has no separator behind it. -/
  joined : x = '-' ∨ x = '?' ∨ x = ':' → ∃ d more, rest = d :: more ∧ isSeparator d = false

theorem exists_plainHead (ht : Style.isPlain t = true) : ∃ x rest, PlainHead t x rest := by
  obtain ⟨x, rest, rfl, hx⟩ := (words_of_isPlain ht).exists_cons
  simp only [Style.isPlain, Bool.and_eq_true, Bool.not_eq_true'] at ht
  obtain ⟨⟨-, hhead⟩, hinner⟩ := ht
  refine ⟨x, rest, rfl, hx, ?_, ?_⟩
  · cases rest with
    | nil =>
      simp only [Style.hasLeadingMark, Bool.or_eq_false_iff] at hhead
      simpa using hhead.1.1
    | cons d more =>
      simp only [Style.hasLeadingMark, Bool.or_eq_false_iff] at hhead
      simpa using hhead.1
  · intro hmark
    cases rest with
    | nil =>
      rcases hmark with rfl | rfl | rfl
      · exact absurd hhead (by decide)
      · exact absurd hhead (by decide)
      · exact absurd hinner (by decide)
    | cons d more =>
      refine ⟨d, more, rfl, ?_⟩
      rcases hmark with rfl | rfl | rfl
      · simpa [Style.hasLeadingMark, Style.leadingMarks] using hhead
      · simpa [Style.hasLeadingMark, Style.leadingMarks] using hhead
      · exact (hasInnerMark_cons hinner).2.1 rfl

/-- The word behind an indicator is joined to it. -/
theorem PlainHead.exists_plainBody (h : PlainHead t x rest) (before : Option Char) (column₀ : Nat) :
    ∃ body, plainBody l before column₀ t = x :: body ∧
      (x = '-' ∨ x = '?' ∨ x = ':' → ∀ more, endsWord (body ++ more) = false) := by
  refine ⟨plainBody l (some x) (column₀ + 1) rest, ?_, fun hx more => ?_⟩
  · rw [h.eq, plainBody, beq_false_of_ne (ne_space_of_not_isSeparator h.solid), Bool.false_and,
      if_neg Bool.false_ne_true]
  · obtain ⟨d, t', rfl, hd⟩ := h.joined hx
    rw [plainBody, beq_false_of_ne (ne_space_of_not_isSeparator hd), Bool.false_and,
      if_neg Bool.false_ne_true]
    exact hd

theorem startsPlain_cons (hx : isSeparator x = false) (hmark : x ∉ Style.leadingMarks)
    (hjoined : x = '-' ∨ x = '?' ∨ x = ':' → endsWord rest = false) :
    startsPlain false (x :: rest) = true := by
  by_cases hindicator : x = '-' ∨ x = '?' ∨ x = ':'
  · have hword := hjoined hindicator
    rcases hindicator with rfl | rfl | rfl <;> simp [startsPlain, hword]
  · obtain ⟨hdash, hask, hcolon⟩ : x ≠ '-' ∧ x ≠ '?' ∧ x ≠ ':' := by
      simpa only [not_or] using hindicator
    simp [startsPlain, hx, hmark, hdash, hask, hcolon]

theorem startsInline_cons (hx : isSeparator x = false) (hmark : x ∉ Style.leadingMarks)
    (hjoined : x = '-' ∨ x = '?' ∨ x = ':' → endsWord rest = false) : StartsInline (x :: rest) := by
  refine .mk (isToken_of_not_isSeparator hx ?_) ?_ fun h => hjoined (h.imp_right .inl)
  · rintro rfl
    exact absurd hmark (by decide)
  · intro hblock
    have hleading : blockMarks ⊆ Style.leadingMarks := by simp [blockMarks, Style.leadingMarks]
    exact hmark (hleading hblock)

/-- Where nothing else starts, a scalar without quotes is read. -/
theorem inlineNode_plain (hmark : x ∉ Style.leadingMarks)
    (hstart : startsPlain false (x :: rest) = true) (n : Nat) {text : List Char} {place : Cursor}
    (hread : plainFrom false (outer + 1) ((x :: rest).length + 1) ⟨x :: rest, line, column⟩ =
      (text, place)) :
    inlineNode (n + 1) false outer ⟨x :: rest, line, column⟩ =
      some (.scalar false text, place) := by
  rw [inlineNode]
  split
  all_goals
    rename_i heq
    try
      obtain ⟨rfl, -⟩ := List.cons.inj heq
      exact absurd hmark (by decide)
  rw [if_pos hstart, hread]

theorem length_le_plainBody (before : Option Char) (column₀ : Nat) (t : List Char) :
    t.length ≤ (plainBody l before column₀ t).length := by
  induction t generalizing before column₀ with
  | nil => exact Nat.zero_le _
  | cons c t ih =>
    rw [plainBody]
    split
    · have hmore := ih (some c) l.indent
      simp only [List.length_cons, List.length_append]
      omega
    · have hmore := ih (some c) (column₀ + 1)
      simp only [List.length_cons]
      omega

/-- A plain text is read as a scalar without quotes. -/
theorem inlineNode_words (ht : Words t) (hhead : PlainHead t x rest) {after : Nat → Nat → Cursor}
    (hclose : ClosesPlain (outer + 1) more after) (hl : l.Reaches (outer + 1))
    (hcolumn : outer ≤ column) (n column₀ line : Nat) :
    ∃ line' column',
      inlineNode (n + 1) false outer ⟨plainBody l none column₀ t ++ more, line, column⟩ =
        some (.scalar false t, after line' column') ∧
      Advances (l.folds = false) line column line' column' := by
  obtain ⟨body, hbody, hjoined⟩ := hhead.exists_plainBody (l := l) none column₀
  have hlength := length_le_plainBody (l := l) none column₀ t
  obtain ⟨line', column', hread, hadv⟩ := plainFrom_words ht hclose hl none column₀
    ((plainBody l none column₀ t ++ more).length + 1) line column
    (by rw [List.length_append]; omega) (by omega)
  rw [hbody, List.cons_append] at hread ⊢
  have hstart := startsPlain_cons hhead.solid hhead.unmarked fun h => hjoined h more
  exact ⟨line', column', inlineNode_plain hhead.unmarked hstart n hread, hadv⟩

/-! ## Strings -/

/-- A scalar that denotes a string. -/
inductive Node.IsString (t : List Char) : Node → Prop
  | quoted : IsString t (.scalar true t)
  | plain (ht : Plain.tag t = .str) : IsString t (.scalar false t)

/-- A layout for what is written inside surroundings: that of a key, or one with a margin. -/
inductive Layout.Suits (outer : Int) : Layout → Bool → Prop
  | key : Suits outer ⟨false, 0⟩ true
  | value {l : Layout} {isKey : Bool} (hpos : 0 < l.indent) (hwidth : l.indent < bestWidth)
      (hreach : outer + 1 ≤ l.indent) : Suits outer l isKey

namespace Layout.Suits

variable {isKey : Bool}

theorem reaches (h : l.Suits outer isKey) : l.Reaches (outer + 1) := by
  intro hfolds
  cases h with
  | key => exact absurd hfolds Bool.false_ne_true
  | value hpos _ hreach => exact ⟨hpos, hreach⟩

theorem margins (h : l.Suits outer isKey) (ht : (isKey && t.any isBreak) = false) :
    l.Margins t := by
  intro hlines
  cases h with
  | key =>
    have hnone : t.any isBreak = false := ht
    simp [hnone] at hlines
  | value hpos _ _ => exact hpos

theorem fits (h : l.Suits outer isKey) : l.Fits := by
  intro hfolds
  cases h with
  | key => exact absurd hfolds Bool.false_ne_true
  | value hpos hwidth _ => exact ⟨hpos, hwidth⟩

end Layout.Suits

/-- A text between quotes is read from its opening quote on. -/
theorem quoted?_eq_some {double : Bool} {q : Char} {place : Cursor} (hq : isBreak q = false)
    (h : Quoted double (.blanks []) ⟨rest, line, column + 1⟩ t place) :
    quoted? double ⟨q :: rest, line, column⟩ = some (t, place) := by
  have hnext : (⟨q :: rest, line, column⟩ : Cursor).next = ⟨rest, line, column + 1⟩ := by
    simp [Cursor.next, hq]
  rw [quoted?, hnext]
  exact h _ (by simp only [List.length_cons]; omega)

theorem inlineNode_single {place : Cursor} (n : Nat)
    (h : Quoted false (.blanks []) ⟨rest, line, column + 1⟩ t place) :
    inlineNode (n + 1) false outer ⟨'\'' :: rest, line, column⟩ = some (.scalar true t, place) := by
  rw [inlineNode, quoted?_eq_some (by decide) h]
  rfl

theorem inlineNode_double {place : Cursor} (n : Nat)
    (h : Quoted true (.blanks []) ⟨rest, line, column + 1⟩ t place) :
    inlineNode (n + 1) false outer ⟨'"' :: rest, line, column⟩ = some (.scalar true t, place) := by
  rw [inlineNode, quoted?_eq_some (by decide) h]
  rfl

/-- **A string is read back**, whatever style is chosen for it. -/
theorem inlineNode_stringText {isKey : Bool} (hl : l.Suits outer isKey) {after : Nat → Nat → Cursor}
    (hclose : ClosesPlain (outer + 1) more after) (hmore : more.head? ≠ some '\'')
    (hcolumn : outer ≤ column) (n column₀ line : Nat) (t : List Char) :
    ∃ node place line' column',
      inlineNode (n + 1) false outer ⟨stringText l isKey column₀ t ++ more, line, column⟩ =
        some (node, place) ∧
      node.IsString t ∧ (place = ⟨more, line', column'⟩ ∨ place = after line' column') ∧
      Advances (l.folds = false ∧ isKey = true) line column line' column' := by
  rw [stringText]
  split
  · rename_i hplain
    obtain ⟨x, rest, hhead⟩ := exists_plainHead hplain
    obtain ⟨line', column', hread, hadv⟩ := inlineNode_words (words_of_isPlain hplain) hhead hclose
      hl.reaches hcolumn n column₀ line
    have htag : Plain.tag t = .str := by
      simp only [Style.isPlain, Bool.and_eq_true, beq_iff_eq] at hplain
      exact hplain.1.1.1.1.1.1
    exact ⟨_, _, line', column', hread, .plain htag, .inr rfl, hadv.imp And.left⟩
  · split
    · rename_i hsingle
      simp only [Style.isSingle, Bool.and_eq_true, Bool.not_eq_true'] at hsingle
      obtain ⟨⟨hplain, hpairs⟩, hlines⟩ := hsingle
      have htab (c : Char) (hc : c ∈ t) : c ≠ '\t' := by
        rintro rfl
        exact absurd (List.all_eq_true.mp hplain '\t' hc) (by decide)
      obtain ⟨line', column', hread, hadv⟩ := readsSingle (hl.margins hlines) htab hpairs hmore
        none (.blanks []) (.clear rfl) (column₀ + 1) line (column + 1)
      have hstraight :
          l.folds = false ∧ isKey = true → l.folds = false ∧ t.any isBreak = false := by
        rintro ⟨hfolds, rfl⟩
        exact ⟨hfolds, hlines⟩
      rw [List.cons_append, List.append_assoc, List.singleton_append]
      exact ⟨_, _, line', column', inlineNode_single n hread, .quoted, .inl rfl,
        (Advances.along (by omega)).trans (hadv.imp hstraight)⟩
    · obtain ⟨line', column', hread, hadv⟩ := (readsDouble_and_marked hl.fits t more).1
        (.blanks []) .blanks true true (column₀ + 1) line (column + 1)
      rw [List.cons_append, List.append_assoc, List.singleton_append]
      exact ⟨_, _, line', column', inlineNode_double n hread, .quoted, .inl rfl,
        (Advances.along (by omega)).trans (hadv.imp And.left)⟩

/-- Where a string is written, a scalar starts. -/
theorem startsInline_stringText (isKey : Bool) (column₀ : Nat) (t more : List Char) :
    StartsInline (stringText l isKey column₀ t ++ more) := by
  rw [stringText]
  split
  · rename_i hplain
    obtain ⟨x, rest, hhead⟩ := exists_plainHead hplain
    obtain ⟨body, hbody, hjoined⟩ := hhead.exists_plainBody (l := l) none column₀
    rw [hbody]
    exact startsInline_cons hhead.solid hhead.unmarked fun h => hjoined h more
  · split
    · exact .mk ⟨by decide, by decide, by decide⟩ (by decide) (by simp)
    · exact .mk ⟨by decide, by decide, by decide⟩ (by decide) (by simp)

/-- A text that is not folded is written as it is. -/
theorem plainBody_eq (hl : l.folds = false) (before : Option Char) (column₀ : Nat) (t : List Char) :
    plainBody l before column₀ t = t := by
  induction t generalizing before column₀ with
  | nil => rfl
  | cons c t ih =>
    have hkeep : l.breaksAt column₀ before t = false := by simp [Layout.breaksAt, hl]
    rw [plainBody, hkeep, Bool.and_false, if_neg Bool.false_ne_true, ih]

/-! ### Texts that are not folded -/

theorem singleBody_column (hl : l.folds = false) (before : Option Char) (c c' : Nat)
    (t : List Char) :
    singleBody l before c t = singleBody l before c' t := by
  induction t generalizing before c c' with
  | nil => rfl
  | cons d t ih =>
    have hkeep (c : Nat) : l.breaksAt c before t = false := by simp [Layout.breaksAt, hl]
    rw [singleBody, singleBody, hkeep, hkeep, ih (some d) (c + 2) (c' + 2),
      ih (some d) (c + 1) (c' + 1)]

theorem doubleBody_column (hl : l.folds = false) (first fresh : Bool) (c c' : Nat) (t : List Char) :
    doubleBody l first fresh c t = doubleBody l first fresh c' t := by
  induction t generalizing first fresh c c' with
  | nil => rfl
  | cons d t ih =>
    rw [doubleBody, doubleBody]
    simp only [hl, Bool.false_and, Bool.false_eq_true, if_false]
    rw [ih false false (c + 1) (c' + 1),
      ih false true (c + (escapeText d).length) (c' + (escapeText d).length)]

/-- The text of a key is the same in every column. -/
theorem stringText_column (hl : l.folds = false) (isKey : Bool) (c c' : Nat) (t : List Char) :
    stringText l isKey c t = stringText l isKey c' t := by
  rw [stringText, stringText, plainBody_eq hl, plainBody_eq hl,
    singleBody_column hl none (c + 1) (c' + 1), doubleBody_column hl true true (c + 1) (c' + 1)]

/-- A key does not start like a mark between documents. -/
theorem startsMark_key (isKey : Bool) (column₀ : Nat) (t rest : List Char) :
    startsMark (stringText ⟨false, 0⟩ isKey column₀ t ++ ':' :: rest) = false := by
  rw [stringText]
  split
  · rename_i hplain
    have hmark : Style.isMarkLike t = false := by
      simp only [Style.isPlain, Bool.and_eq_true, Bool.not_eq_true'] at hplain
      exact hplain.1.1.2
    rw [plainBody_eq rfl, startsMark, isMarkLike_append_colon hmark, Bool.false_and]
  · split
    · exact startsMark_of_head (by decide) (by decide)
    · exact startsMark_of_head (by decide) (by decide)

/-! ## What scalars denote -/

/-- What a node denotes when there are no aliases in it. -/
def Node.Denotes (n : Node) (d : Datum) : Prop := ∀ known, n.datumWith? known = some (d, known)

theorem Node.IsString.denotes {n : Node} (h : n.IsString t) :
    n.Denotes (.string (String.ofList t)) := by
  intro known
  cases h with
  | quoted => rfl
  | plain ht => simp [Node.datumWith?, Plain.datum?, ht]

/-- What denotes something is neither of the two marks with a meaning of their own. -/
theorem Node.Denotes.isMerge_eq {n : Node} {d : Datum} (h : n.Denotes d) : n.isMerge = false := by
  cases n with
  | scalar quoted text =>
    cases quoted with
    | true => rfl
    | false =>
      have hvalue := h []
      cases htag : Plain.tag text <;>
        simp_all [Node.datumWith?, Plain.datum?, Node.isMerge]
  | _ => rfl

theorem Node.Denotes.isValueMark_eq {n : Node} {d : Datum} (h : n.Denotes d) :
    n.isValueMark = false := by
  cases n with
  | scalar quoted text =>
    cases quoted with
    | true => rfl
    | false =>
      have hvalue := h []
      cases htag : Plain.tag text <;>
        simp_all [Node.datumWith?, Plain.datum?, Node.isValueMark]
  | _ => rfl

/-! ## Keys and values -/

/-- A simple key is read up to its colon. -/
theorem inlineNode_key (hrest : endsWord rest = true) (hcolumn : outer ≤ column)
    (n column₀ line : Nat) (t : List Char) :
    ∃ node column', inlineNode (n + 1) false outer
        ⟨stringText ⟨false, 0⟩ true column₀ t ++ ':' :: rest, line, column⟩ =
        some (node, ⟨':' :: rest, line, column'⟩) ∧
      node.IsString t ∧ column ≤ column' := by
  obtain ⟨node, place, line', column', hread, hnode, hplace, hadv⟩ := inlineNode_stringText
    .key (closesPlain_colon hrest) (by simp) hcolumn n column₀ line t
  have hsame : place = ⟨':' :: rest, line', column'⟩ := hplace.elim id id
  obtain ⟨hline, hle⟩ := hadv.stays ⟨rfl, rfl⟩
  rw [hline] at hsame
  exact ⟨node, column', hsame ▸ hread, hnode, hle⟩

/-- The scalars that are read back here: strings and truth values. -/
inductive IsPlainValue : Scalar → Prop
  | string (s : String) : IsPlainValue (.string s)
  | bool (b : Bool) : IsPlainValue (.bool b)

/-- A place behind a node whose last line ends: the next token is that of the following text, and no
colon stands behind the node in its own line. -/
structure Settles (tail : List Char) (line : Nat) (place : Cursor) : Prop where
  next : ∃ line', place.skip = Cursor.skipFrom false line' 0 tail
  colon : place.rest = '\n' :: tail ∨ line < place.line

theorem Below.line_eq {c : Nat} {tail : List Char} (h : Below c tail) (line : Nat) :
    (Cursor.skipFrom false line 0 tail).line = line := by
  cases h with
  | nil => rfl
  | line hm hx hmark => rw [Cursor.skipFrom_margin, Cursor.skipFrom_token hx]

theorem settles_newline (tail : List Char) (line line' column' : Nat) :
    Settles tail line ⟨'\n' :: tail, line', column'⟩ where
  next := ⟨line' + 1, rfl⟩
  colon := .inl rfl

theorem settles_skipFrom {c line line' : Nat} {tail : List Char} (htail : Below c tail)
    (hle : line ≤ line') : Settles tail line (Cursor.skipFrom false (line' + 1) 0 tail) where
  next := ⟨line' + 1, Cursor.skip_skipFrom false (line' + 1) 0 tail⟩
  colon := .inr (by rw [htail.line_eq]; omega)

/-- What is settled is no simple key. -/
theorem Settles.isSimpleKey_eq {tail : List Char} {start place : Cursor}
    (h : Settles tail start.line place) : isSimpleKey false start place.skipSpaces = false := by
  rcases h.colon with hrest | hline
  · have hhead : place.skipSpaces.rest = '\n' :: tail := by
      rw [Cursor.skipSpaces, hrest]
      simp [Cursor.advance, hrest]
    simp [isSimpleKey, hhead]
  · have hne : start.line ≠ place.skipSpaces.line := Nat.ne_of_lt hline
    simp [isSimpleKey, hne]

theorem exists_plainHead_scriptBool (b : Bool) : ∃ x rest, PlainHead (scriptBool b) x rest := by
  cases b with
  | false => exact ⟨'f', ['a', 'l', 's', 'e'], rfl, by decide, by decide, by simp⟩
  | true => exact ⟨'t', ['r', 'u', 'e'], rfl, by decide, by decide, by simp⟩

theorem startsInline_scalarText {s : Scalar} (hs : IsPlainValue s) (column₀ : Nat)
    (more : List Char) :
    StartsInline (scalarText l false column₀ s ++ more) := by
  cases hs with
  | string s => exact startsInline_stringText false column₀ s.toList more
  | bool b =>
    obtain ⟨x, rest, hhead⟩ := exists_plainHead_scriptBool b
    show StartsInline (scriptBool b ++ more)
    rw [hhead.eq]
    refine startsInline_cons hhead.solid hhead.unmarked fun hx => ?_
    obtain ⟨d, rest', rfl, hd⟩ := hhead.joined hx
    exact hd

/-- A truth value is written as a word, and read as one. -/
theorem inlineNode_scriptBool (b : Bool) {after : Nat → Nat → Cursor}
    (hclose : ClosesPlain (outer + 1) more after) (hcolumn : outer ≤ column) (n line : Nat) :
    ∃ node line' column', inlineNode (n + 1) false outer ⟨scriptBool b ++ more, line, column⟩ =
        some (node, after line' column') ∧ node.Denotes (.bool b) ∧ line ≤ line' := by
  have hword : IsWord (scriptBool b) := by
    have hsolid : ((scriptBool b).all fun c => !isSeparator c) = true := by cases b <;> decide
    refine ⟨?_, fun c hc => ?_, ?_⟩
    · cases b <;> decide
    · simpa using List.all_eq_true.mp hsolid c hc
    · cases b <;> decide
  obtain ⟨x, rest, hhead⟩ := exists_plainHead_scriptBool b
  have hreaches : Layout.Reaches ⟨false, 0⟩ (outer + 1) := fun h => absurd h Bool.false_ne_true
  obtain ⟨line', column', hread, hadv⟩ := inlineNode_words (.last hword) hhead hclose hreaches
    hcolumn n 0 line
  rw [plainBody_eq rfl] at hread
  refine ⟨_, line', column', hread, fun known => ?_, hadv.line_le⟩
  have hvalue : Plain.datum? (scriptBool b) = some (.bool b) := by cases b <;> rfl
  rw [Node.datumWith?, hvalue]
  rfl

/-- **A scalar is read back** at the end of a line. -/
theorem inlineNode_scalarText {c : Nat} (hl : l.Suits c false) {s : Scalar} (hs : IsPlainValue s)
    {tail : List Char} (htail : Below (c + 1) tail) (hcolumn : c ≤ column) (n column₀ line : Nat) :
    ∃ node place, inlineNode (n + 1) false c
        ⟨scalarText l false column₀ s ++ '\n' :: tail, line, column⟩ = some (node, place) ∧
      node.Denotes (.scalar s) ∧ Settles tail line place := by
  have hclose := closesPlain_newline htail (Nat.succ_pos c)
  have hle : (c : Int) ≤ column := Int.ofNat_le.mpr hcolumn
  cases hs with
  | string s =>
    obtain ⟨node, place, line', column', hread, hnode, hplace, hadv⟩ := inlineNode_stringText
      hl hclose (by simp) hle n column₀ line s.toList
    have hdenotes := hnode.denotes
    rw [String.ofList_toList] at hdenotes
    refine ⟨node, place, hread, hdenotes, ?_⟩
    rcases hplace with rfl | rfl
    · exact settles_newline tail line line' column'
    · exact settles_skipFrom htail hadv.line_le
  | bool b =>
    obtain ⟨node, line', column', hread, hdenotes, hle⟩ := inlineNode_scriptBool b hclose hle n
      line
    exact ⟨node, _, hread, hdenotes, settles_skipFrom htail hle⟩

end Yaml
end ScriptHost
