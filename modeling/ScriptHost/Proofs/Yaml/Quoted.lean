import ScriptHost.Proofs.Yaml.Escapes
import ScriptHost.Proofs.Yaml.Places

/-!
# Scalars in quotes are read back

Between quotes the reader keeps the blanks and line ends since the last other character in a gap,
and puts what the gap counts as in front of the next character.  `Quoted` says what comes of a text
from such a state on, and has one lemma for each thing that a writer puts between quotes.

What the reader holds depends on what has been written last.  `Pending` and `Held` list the states
that a writer of single and of double quotes can leave, and a text is read back from each of them.

* `Quoted`: the outcome of reading between quotes.
* `Pending`, `readsSingle`: a text in single quotes is read back, if its further lines have a
  margin.
* `Held`, `readsDouble_and_marked`: a text in double quotes is read back, if its further lines also
  start in front of the width of a line.  Otherwise a backslash in front of a blank could itself
  come to stand in front of a line end.
-/

namespace ScriptHost
namespace Yaml

/-- With an allowance for every character, reading from a place between quotes gives a text and the
place behind the closing quote. -/
def Quoted (double : Bool) (gap : Gap) (cur : Cursor) (text : List Char) (place : Cursor) : Prop :=
  ∀ n, cur.rest.length < n → quotedFrom double n gap cur = some (text, place)

namespace Quoted

variable {double : Bool} {gap : Gap} {line column : Nat} {rest text t : List Char} {place : Cursor}

/-! ## Steps of the reader -/

theorem blank (h : Quoted double (gap.blank ' ') ⟨rest, line, column + 1⟩ text place) :
    Quoted double gap ⟨' ' :: rest, line, column⟩ text place := by
  intro n hn
  obtain ⟨m, rfl⟩ : ∃ m, n = m + 1 := ⟨n - 1, by omega⟩
  have hread := h m (by simpa using hn)
  simp [quotedFrom, Cursor.next, isBreak, hread]

theorem newline {c : Char} (hc : isBreak c = true) (hmark : startsMark rest = false)
    (h : Quoted double (gap.newline c) ⟨rest, line + 1, 0⟩ text place) :
    Quoted double gap ⟨c :: rest, line, column⟩ text place := by
  intro n hn
  obtain ⟨m, rfl⟩ : ∃ m, n = m + 1 := ⟨n - 1, by omega⟩
  have hread := h m (by simpa using hn)
  have hspace : c ≠ ' ' := by
    rintro rfl
    exact absurd hc (by decide)
  have htab : c ≠ '\t' := by
    rintro rfl
    exact absurd hc (by decide)
  simp [quotedFrom, Cursor.next, hc, hspace, htab, hmark, hread]

/-- A margin at the start of a line does not count. -/
theorem margin {first : Option Char} {more : List Char} (k : Nat)
    (h : Quoted double (.broken first more) ⟨rest, line, column + k⟩ text place) :
    Quoted double (.broken first more) ⟨Yaml.margin k ++ rest, line, column⟩ text place := by
  induction k generalizing column with
  | zero => exact h
  | succ k ih =>
    rw [margin_succ, List.cons_append]
    refine blank (ih ?_)
    rwa [Nat.add_assoc, Nat.add_comm 1 k]

/-- A character that stands for itself. -/
structure IsLiteral (double : Bool) (c : Char) : Prop where
  ne_space : c ≠ ' '
  ne_tab : c ≠ '\t'
  break_eq : isBreak c = false
  ne_quote : c = '\'' → double = true
  ne_double : double = true → c ≠ '"' ∧ c ≠ '\\'

theorem literal {c : Char} (hc : IsLiteral double c)
    (h : Quoted double (.blanks []) ⟨rest, line, column + 1⟩ t place) :
    Quoted double gap ⟨c :: rest, line, column⟩ (gap.text ++ c :: t) place := by
  intro n hn
  obtain ⟨m, rfl⟩ : ∃ m, n = m + 1 := ⟨n - 1, by omega⟩
  have hread := h m (by simpa using hn)
  obtain ⟨hspace, htab, hbreak, hquote, hdouble⟩ := hc
  have hsingle : (c == '\'' && !double) = false := by
    cases double <;> simp_all
  have hend : (c == '"' && double) = false := by
    cases double <;> simp_all
  have hslash : (c == '\\' && double) = false := by
    cases double <;> simp_all
  simp [quotedFrom, Cursor.advance, hspace, htab, hbreak, hsingle, hend, hslash, hread]

/-- A single quote is written twice. -/
theorem doubled (h : Quoted false (.blanks []) ⟨rest, line, column + 2⟩ t place) :
    Quoted false gap ⟨'\'' :: '\'' :: rest, line, column⟩ (gap.text ++ '\'' :: t) place := by
  intro n hn
  obtain ⟨m, rfl⟩ : ∃ m, n = m + 1 := ⟨n - 1, by omega⟩
  have hread := h m (by simp at hn ⊢; omega)
  simp [quotedFrom, Cursor.advance, isBreak, hread]

theorem closeSingle (hrest : rest.head? ≠ some '\'') :
    Quoted false gap ⟨'\'' :: rest, line, column⟩ gap.text ⟨rest, line, column + 1⟩ := by
  intro n hn
  obtain ⟨m, rfl⟩ : ∃ m, n = m + 1 := ⟨n - 1, by omega⟩
  simp [quotedFrom, Cursor.next, isBreak, hrest]

theorem closeDouble :
    Quoted true gap ⟨'"' :: rest, line, column⟩ gap.text ⟨rest, line, column + 1⟩ := by
  intro n hn
  obtain ⟨m, rfl⟩ : ∃ m, n = m + 1 := ⟨n - 1, by omega⟩
  simp [quotedFrom, Cursor.next, isBreak]

/-- An escape stands for its character. -/
theorem escape {e : List Char} {c : Char} (he : IsEscape e c)
    (h : Quoted true (.blanks []) ⟨rest, line, column + e.length⟩ t place) :
    Quoted true gap ⟨e ++ rest, line, column⟩ (gap.text ++ c :: t) place := by
  intro n hn
  obtain ⟨m, rfl⟩ : ∃ m, n = m + 1 := ⟨n - 1, by omega⟩
  have hslash : isBreak '\\' = false := by decide
  have hlength : rest.length < m := by cases he <;> simp at hn <;> omega
  have hread := h m hlength
  cases he with
  | letter hletter hbreak =>
    have hread' : quotedFrom true m (.blanks []) ⟨rest, line, column + 2⟩ = some (t, place) := hread
    simp [quotedFrom, Cursor.advance, hslash, hbreak, hletter, hread']
  | @code e c digits hletter hbreak hwidth hcode =>
    have hdigits : (digits ++ rest).take digits.length = digits := List.take_left' rfl
    have hdrop : (digits ++ rest).drop digits.length = rest := List.drop_left' rfl
    have hplace : (⟨'\\' :: e :: (digits ++ rest), line, column⟩ : Cursor).advance
        (2 + digits.length) = ⟨rest, line, column + (digits.length + 1 + 1)⟩ := by
      rw [Cursor.advance, Nat.add_comm 2]
      simp [hdrop]
    have hread' : quotedFrom true m (.blanks []) ⟨rest, line, column + (digits.length + 1 + 1)⟩ =
        some (t, place) := hread
    simp [quotedFrom, hslash, hbreak, hletter, hwidth, hdigits, hcode, hplace, hread']

/-- A line end behind a backslash does not count. -/
theorem continued (hmark : startsMark rest = false)
    (h : Quoted true (.broken none []) ⟨rest, line + 1, 0⟩ t place) :
    Quoted true gap ⟨'\\' :: '\n' :: rest, line, column⟩ (gap.text ++ t) place := by
  intro n hn
  obtain ⟨m, rfl⟩ : ∃ m, n = m + 1 := ⟨n - 1, by omega⟩
  have hread := h m (by simp at hn ⊢; omega)
  simp [quotedFrom, Cursor.next, isBreak, hmark, hread]

end Quoted

/-! ## Single quotes -/

/-- The pairs of neighbours that a text in single quotes is not allowed to have. -/
abbrev isSoftBreak (c d : Char) : Bool := (isBreak c && d == ' ') || (c == ' ' && isBreak d)

/-- In single quotes, what the reader holds between what the writer has written last and the rest of
the text. -/
inductive Pending : Option Char → Gap → List Char → Prop
  /-- Behind the opening quote or a character that stands for itself. -/
  | clear {before : Option Char} {t : List Char}
      (hbefore : (before.map isBreak).getD false = false) :
      Pending before (.blanks []) t
  /-- Behind blanks. -/
  | blanks {b t : List Char} (ht : ∀ c ∈ t.head?, isBreak c = false) :
      Pending (some ' ') (.blanks b) t
  /-- Behind a blank that is written as a line end. -/
  | folded {t : List Char} (ht : ∀ c ∈ t.head?, isBreak c = false ∧ c ≠ ' ') :
      Pending (some ' ') (.broken (some '\n') []) t
  /-- Behind line ends, of which the first one is doubled. -/
  | lines {c f : Char} {more t : List Char} (hc : isBreak c = true) (hf : f ≠ '\n' ∨ more ≠ [])
      (ht : ∀ d ∈ t.head?, d ≠ ' ') : Pending (some c) (.broken (some f) more) t

/-- A text has a margin for its further lines, if there are any. -/
def Layout.Margins (l : Layout) (t : List Char) : Prop :=
  l.folds = true ∨ t.any isBreak = true → 0 < l.indent

section Single

variable {l : Layout} {before : Option Char} {gap : Gap} {c : Char} {t rest : List Char}

theorem Layout.Margins.tail (hl : l.Margins (c :: t)) : l.Margins t := by
  intro h
  refine hl (h.imp_right fun hany => ?_)
  rw [List.any_cons, hany, Bool.or_true]

theorem anyNeighbours_cons {p : Char → Char → Bool} (h : anyNeighbours p (c :: t) = false) :
    anyNeighbours p t = false ∧ ∀ d ∈ t.head?, p c d = false := by
  cases t with
  | nil => exact ⟨rfl, nofun⟩
  | cons d t =>
    rw [anyNeighbours, Bool.or_eq_false_iff] at h
    exact ⟨h.2, fun b hb => (Option.some.inj hb) ▸ h.1⟩

theorem isBreak_space : isBreak ' ' = false := by decide

/-- The first of several line ends is written twice. -/
abbrev doubledBreak (before : Option Char) (c : Char) : List Char :=
  if !(before.map isBreak).getD false && c == '\n' then ['\n'] else []

/-- A line end of the text is read back. -/
theorem Pending.newline (h : Pending before gap (c :: t)) (hc : isBreak c = true)
    (ht : ∀ d ∈ t.head?, d ≠ ' ') :
    ∃ f more k, (Gap.broken (some f) more).text = gap.text ++ [c] ∧
      Pending (some c) (.broken (some f) more) t ∧
      ∀ tail line column text place, startsMark tail = false →
        Quoted false (.broken (some f) more) ⟨tail, line + k, 0⟩ text place →
        Quoted false gap ⟨doubledBreak before c ++ c :: tail, line, column⟩ text place := by
  cases h with
  | clear hbefore =>
    by_cases hfeed : c = '\n'
    · subst hfeed
      refine ⟨'\n', ['\n'], 2, rfl, .lines hc (.inr (by simp)) ht, ?_⟩
      intro tail line column text place hmark h
      have hmark' : startsMark ('\n' :: tail) = false := startsMark_of_head (by decide) (by decide)
      simp only [doubledBreak, hbefore, Bool.not_false, beq_self_eq_true, Bool.and_self, if_true,
        List.singleton_append]
      exact .newline hc hmark' (.newline hc hmark h)
    · refine ⟨c, [], 1, by simp [Gap.text, hfeed], .lines hc (.inl hfeed) ht, ?_⟩
      intro tail line column text place hmark h
      simp only [doubledBreak, beq_false_of_ne hfeed, Bool.and_false, Bool.false_eq_true, if_false,
        List.nil_append]
      exact .newline hc hmark h
  | blanks hnone => exact absurd hc (by simp [hnone c rfl])
  | folded hnone => exact absurd hc (by simp [(hnone c rfl).1])
  | @lines b f more _ hb hf _ =>
    refine ⟨f, more ++ [c], 1, ?_, .lines hc (.inr (by simp)) ht, ?_⟩
    · by_cases hfeed : f = '\n'
      · have hmore : more ≠ [] := hf.resolve_left (not_not_intro hfeed)
        simp [Gap.text, hfeed, hmore]
      · simp [Gap.text, hfeed]
    · intro tail line column text place hmark h
      simp only [doubledBreak, Option.map_some, hb, Option.getD_some, Bool.not_true, Bool.false_and,
        Bool.false_eq_true, if_false, List.nil_append]
      exact .newline hc hmark h

/-- A blank of the text that is written as it is. -/
theorem Pending.blank (h : Pending before gap (' ' :: t)) (ht : ∀ d ∈ t.head?, isBreak d = false) :
    (gap.blank ' ').text = gap.text ++ [' '] ∧ Pending (some ' ') (gap.blank ' ') t := by
  cases h with
  | clear _ => exact ⟨rfl, .blanks ht⟩
  | blanks _ => exact ⟨rfl, .blanks ht⟩
  | folded hnone => exact absurd rfl (hnone ' ' rfl).2
  | lines _ _ hnone => exact absurd rfl (hnone ' ' rfl)

/-- The reader holds nothing where a blank can be written as a line end. -/
theorem Pending.eq_of_fold (h : Pending before gap (' ' :: t)) (hbefore : before ≠ some ' ') :
    gap = .blanks [] := by
  cases h with
  | clear _ => rfl
  | blanks _ => exact absurd rfl hbefore
  | folded _ => exact absurd rfl hbefore
  | lines _ _ hnone => exact absurd rfl (hnone ' ' rfl)

/-- The margin of a line stands behind the last of several line ends. -/
abbrev lastMargin (indent : Nat) (after : List Char) : List Char :=
  if !(after.head?.map isBreak).getD false then margin indent else []

/-- Behind a line end, another one is written as it is. -/
theorem startsMark_singleBody {d : Char} (hc : isBreak c = true) (hd : isBreak d = true)
    (column : Nat) : startsMark (singleBody l (some c) column (d :: t) ++ rest) = false := by
  rw [singleBody, if_pos hd, brokenLine]
  simp only [Option.map_some, hc, Option.getD_some, Bool.not_true, Bool.false_and,
    Bool.false_eq_true, if_false, List.nil_append, List.cons_append]
  refine startsMark_of_head ?_ ?_
  · rintro rfl
    exact absurd hd (by decide)
  · rintro rfl
    exact absurd hd (by decide)

/-- What is written behind a line end starts no mark between documents. -/
theorem startsMark_lastMargin (hc : isBreak c = true) (hpos : 0 < l.indent) (column : Nat)
    (t rest : List Char) :
    startsMark (lastMargin l.indent t ++ (singleBody l (some c) column t ++ rest)) = false := by
  rw [lastMargin]
  split
  · exact startsMark_margin hpos _
  · rename_i hlast
    cases t with
    | nil => simp at hlast
    | cons d t =>
      have hd : isBreak d = true := by simpa using hlast
      exact startsMark_singleBody hc hd column

theorem Quoted.lastMargin {double : Bool} {f : Char} {more text tail : List Char} {place : Cursor}
    {indent line : Nat} (h : Quoted double (.broken (some f) more)
      ⟨tail, line, (Yaml.lastMargin indent t).length⟩ text place) :
    Quoted double (.broken (some f) more) ⟨Yaml.lastMargin indent t ++ tail, line, 0⟩ text
      place := by
  rw [Yaml.lastMargin] at h ⊢
  split
  · rename_i hlast
    rw [if_pos hlast] at h
    refine .margin indent ?_
    simpa [Yaml.margin] using h
  · rename_i hlast
    rw [if_neg hlast] at h
    exact h

/-- From every state that the writer can leave, the rest of a text in single quotes is read back. -/
def ReadsSingle (l : Layout) (rest t : List Char) : Prop :=
  ∀ before gap, Pending before gap t → ∀ column₀ line column, ∃ line' column',
    Quoted false gap ⟨singleBody l before column₀ t ++ '\'' :: rest, line, column⟩ (gap.text ++ t)
      ⟨rest, line', column'⟩ ∧
    Advances (l.folds = false ∧ t.any isBreak = false) line column line' column'

theorem ReadsSingle.lineEnd (ih : ReadsSingle l rest t) (hc : isBreak c = true)
    (hpos : 0 < l.indent) (ht : ∀ d ∈ t.head?, d ≠ ' ') (h : Pending before gap (c :: t))
    (line column : Nat) :
    ∃ line' column', Quoted false gap ⟨brokenLine l.indent before c t ++
        (singleBody l (some c) l.indent t ++ '\'' :: rest), line, column⟩ (gap.text ++ c :: t)
        ⟨rest, line', column'⟩ ∧
      Advances (l.folds = false ∧ (c :: t).any isBreak = false) line column line' column' := by
  obtain ⟨f, more, k, htext, hpend, hread⟩ := h.newline hc ht
  have hmark := startsMark_lastMargin hc hpos l.indent t ('\'' :: rest)
  obtain ⟨line', column', hmore, hadv⟩ := ih _ _ hpend l.indent (line + k)
    (lastMargin l.indent t).length
  rw [htext, List.append_assoc, List.singleton_append] at hmore
  have hfar := hread _ line column _ _ hmark (.lastMargin hmore)
  have hwrite : brokenLine l.indent before c t =
      doubledBreak before c ++ c :: lastMargin l.indent t := rfl
  have hle := hadv.line_le
  rw [hwrite, List.append_assoc, List.cons_append]
  exact ⟨line', column', hfar, .across (by simp [hc]) (by omega)⟩

theorem ReadsSingle.fold (ih : ReadsSingle l rest t) (hfolds : l.folds = true) (hpos : 0 < l.indent)
    (ht : ∀ d ∈ t.head?, isBreak d = false ∧ d ≠ ' ') (line column : Nat) :
    ∃ line' column', Quoted false (.blanks []) ⟨'\n' :: (margin l.indent ++
        (singleBody l (some ' ') l.indent t ++ '\'' :: rest)), line, column⟩ (' ' :: t)
        ⟨rest, line', column'⟩ ∧
      Advances (l.folds = false ∧ (' ' :: t).any isBreak = false) line column line' column' := by
  have hmark := startsMark_margin hpos (singleBody l (some ' ') l.indent t ++ '\'' :: rest)
  obtain ⟨line', column', hread, hadv⟩ := ih _ _ (.folded ht) l.indent (line + 1) (0 + l.indent)
  have hle := hadv.line_le
  exact ⟨line', column', .newline (by decide) hmark (.margin l.indent hread),
    .across (by simp [hfolds]) (by omega)⟩

/-- A quote is written twice. -/
theorem ReadsSingle.doubled (ih : ReadsSingle l rest t) (column₀ line column : Nat) :
    ∃ line' column', Quoted false gap
        ⟨'\'' :: '\'' :: (singleBody l (some '\'') column₀ t ++ '\'' :: rest), line, column⟩
        (gap.text ++ '\'' :: t) ⟨rest, line', column'⟩ ∧
      Advances (l.folds = false ∧ ('\'' :: t).any isBreak = false) line column line' column' := by
  have hclear : Pending (some '\'') (.blanks []) t := .clear (by decide)
  obtain ⟨line', column', hread, hadv⟩ := ih _ _ hclear column₀ line (column + 2)
  exact ⟨line', column', .doubled hread, (Advances.along (by omega)).trans hadv⟩

/-- Any other character stands for itself. -/
theorem ReadsSingle.step (ih : ReadsSingle l rest t) (hbreak : isBreak c = false) (htab : c ≠ '\t')
    (hquote : c ≠ '\'') (hsoft : c = ' ' → ∀ d ∈ t.head?, isBreak d = false)
    (h : Pending before gap (c :: t)) (column₀ line column : Nat) :
    ∃ line' column', Quoted false gap
        ⟨c :: (singleBody l (some c) column₀ t ++ '\'' :: rest), line, column⟩ (gap.text ++ c :: t)
        ⟨rest, line', column'⟩ ∧
      Advances (l.folds = false ∧ (c :: t).any isBreak = false) line column line' column' := by
  have hany : (l.folds = false ∧ (c :: t).any isBreak = false) →
      l.folds = false ∧ t.any isBreak = false := by
    simp [hbreak]
  by_cases hspace : c = ' '
  · subst hspace
    obtain ⟨htext, hpend⟩ := h.blank (hsoft rfl)
    obtain ⟨line', column', hread, hadv⟩ := ih _ _ hpend column₀ line (column + 1)
    rw [htext, List.append_assoc, List.singleton_append] at hread
    exact ⟨line', column', .blank hread, (Advances.along (by omega)).trans (hadv.imp hany)⟩
  · have hclear : Pending (some c) (.blanks []) t := .clear (by simp [hbreak])
    have hlit : Quoted.IsLiteral false c := ⟨hspace, htab, hbreak, fun h => absurd h hquote, nofun⟩
    obtain ⟨line', column', hread, hadv⟩ := ih _ _ hclear column₀ line (column + 1)
    exact ⟨line', column', .literal hlit hread, (Advances.along (by omega)).trans (hadv.imp hany)⟩

/-- **A text in single quotes is read back**, up to the quote that closes it. -/
theorem readsSingle (hl : l.Margins t) (htab : ∀ c ∈ t, c ≠ '\t')
    (hpairs : anyNeighbours isSoftBreak t = false) (hrest : rest.head? ≠ some '\'') :
    ReadsSingle l rest t := by
  induction t with
  | nil =>
    intro before gap _ column₀ line column
    rw [List.append_nil]
    exact ⟨line, column + 1, .closeSingle hrest, .along (Nat.le_succ column)⟩
  | cons c t ih =>
    intro before gap h column₀ line column
    obtain ⟨hpairs', hpair⟩ := anyNeighbours_cons hpairs
    have ih := ih hl.tail (fun d hd => htab d (List.mem_cons_of_mem c hd)) hpairs'
    rw [singleBody]
    split
    · rename_i hc
      have hpos : 0 < l.indent := hl (.inr (by rw [List.any_cons, hc, Bool.true_or]))
      have hhead (d : Char) (hd : d ∈ t.head?) : d ≠ ' ' := by
        rintro rfl
        exact absurd (hpair ' ' hd) (by simp [isSoftBreak, hc])
      rw [List.append_assoc]
      exact ih.lineEnd hc hpos hhead h line column
    · rename_i hc
      have hbreak : isBreak c = false := by simpa using hc
      have hsoft (hspace : c = ' ') (d : Char) (hd : d ∈ t.head?) : isBreak d = false := by
        have hd' := hpair d hd
        simpa [isSoftBreak, hspace, isBreak_space] using hd'
      split
      · rename_i hquote
        obtain rfl : c = '\'' := by simpa using hquote
        exact ih.doubled (column₀ + 2) line column
      · rename_i hquote
        split
        · rename_i hfold
          simp only [Layout.breaksAt, Bool.and_eq_true, beq_iff_eq, decide_eq_true_eq] at hfold
          obtain ⟨rfl, ⟨⟨⟨⟨⟨hfolds, -⟩, -⟩, hbefore⟩, -⟩, hspace⟩⟩ := hfold
          have hhead (d : Char) (hd : d ∈ t.head?) : isBreak d = false ∧ d ≠ ' ' := by
            refine ⟨hsoft rfl d hd, ?_⟩
            rintro rfl
            exact hspace hd
          rw [h.eq_of_fold hbefore, List.cons_append, List.append_assoc]
          exact ih.fold hfolds (hl (.inl hfolds)) hhead line column
        · have hother : c ≠ '\'' := by simpa using hquote
          exact ih.step hbreak (htab c List.mem_cons_self) hother hsoft h (column₀ + 1) line column

end Single

/-! ## Double quotes -/

section Double

variable {l : Layout} {gap : Gap} {c : Char} {t rest : List Char}

/-- In double quotes, what the reader holds in front of the rest of a text: blanks, or nothing
behind a line end that does not count. -/
inductive Held : Gap → List Char → Prop
  | blanks {b t : List Char} : Held (.blanks b) t
  | continued {t : List Char} (ht : ∀ d ∈ t.head?, d ≠ ' ') : Held (.broken none []) t

/-- The further lines of a text have a margin, and do not start beyond the width. -/
def Layout.Fits (l : Layout) : Prop := l.folds = true → 0 < l.indent ∧ l.indent < bestWidth

/-- From every state that the writer can leave, the rest of a text in double quotes is read back. -/
def ReadsDouble (l : Layout) (rest t : List Char) : Prop :=
  ∀ gap, Held gap t → ∀ first fresh column₀ line column, ∃ line' column',
    Quoted true gap ⟨doubleBody l first fresh column₀ t ++ '"' :: rest, line, column⟩
      (gap.text ++ t) ⟨rest, line', column'⟩ ∧
    Advances (l.folds = false) line column line' column'

/-- The backslash in front of a text that goes on with a blank in a new line. -/
abbrev blankMark (t : List Char) : List Char := if t.head? == some ' ' then ['\\'] else []

/-- So it is at the start of a line, where a blank has a mark. -/
def ReadsMarked (l : Layout) (rest t : List Char) : Prop :=
  ∀ line column, ∃ line' column',
    Quoted true (.broken none []) ⟨blankMark t ++ (doubleBody l false true
      (l.indent + (blankMark t).length) t ++ '"' :: rest), line, column⟩ t ⟨rest, line', column'⟩ ∧
    line ≤ line'

theorem isEscape_blank : IsEscape ['\\', ' '] ' ' := .letter rfl (by decide)

theorem isLiteral_of_isQuotable (hc : isQuotable c = true) (hspace : c ≠ ' ') :
    Quoted.IsLiteral true c := by
  simp only [isQuotable, Bool.and_eq_true, Bool.or_eq_true, decide_eq_true_eq] at hc
  obtain ⟨⟨hquote, hslash⟩, hrange⟩ := hc
  refine ⟨hspace, ?_, ?_, fun _ => rfl, fun _ => ⟨hquote, hslash⟩⟩
  · rintro rfl
    exact absurd hrange (by decide)
  · have hfeed : c ≠ '\n' := by
      rintro rfl
      exact absurd hrange (by decide)
    simp only [isBreak, beq_false_of_ne hfeed, Bool.false_or, Bool.or_eq_false_iff,
      beq_eq_false_iff_ne]
    omega

/-- Behind a line end that does not count, a text is read back unless it starts with a blank. -/
theorem ReadsDouble.marked (h : ReadsDouble l rest (c :: t)) (hc : c ≠ ' ') :
    ReadsMarked l rest (c :: t) := by
  intro line column
  have hheld : Held (.broken none []) (c :: t) := .continued fun d hd => (Option.some.inj hd) ▸ hc
  have hmark : blankMark (c :: t) = [] := by simp [hc]
  obtain ⟨line', column', hread, hadv⟩ := h _ hheld false true l.indent line column
  rw [hmark]
  exact ⟨line', column', hread, hadv.line_le⟩

/-- A blank with a mark is read back, since its line has not come to the width. -/
theorem ReadsDouble.marked_blank (h : ReadsDouble l rest t) (hl : l.indent < bestWidth) :
    ReadsMarked l rest (' ' :: t) := by
  intro line column
  have hmark : blankMark (' ' :: t) = ['\\'] := rfl
  have hquotable : isQuotable ' ' = true := by decide
  obtain ⟨line', column', hread, hadv⟩ :=
    h _ (.blanks (b := [])) false false (l.indent + 1 + 1) line (column + 2)
  have hshort : ¬ bestWidth < l.indent + 1 := by omega
  have hwrite : doubleBody l false true (l.indent + 1) (' ' :: t) =
      ' ' :: doubleBody l false false (l.indent + 1 + 1) t := by
    rw [doubleBody]
    simp [hquotable, hshort]
  have hfar : Quoted true (.broken none []) ⟨['\\', ' '] ++ (doubleBody l false false
      (l.indent + 1 + 1) t ++ '"' :: rest), line, column⟩ (' ' :: t) ⟨rest, line', column'⟩ :=
    .escape isEscape_blank hread
  rw [hmark, List.length_singleton, hwrite]
  exact ⟨line', column', hfar, hadv.line_le⟩

/-- A line may end in front of a character that stands for itself. -/
theorem ReadsDouble.fold (h : ReadsDouble l rest t) (hfolds : l.folds = true) (hpos : 0 < l.indent)
    (hc : isQuotable c = true) (column₀ line column : Nat) :
    ∃ line' column', Quoted true gap ⟨'\\' :: '\n' :: (margin l.indent ++
        (blankMark (c :: t) ++ c :: (doubleBody l false false column₀ t ++ '"' :: rest))), line,
        column⟩ (gap.text ++ c :: t) ⟨rest, line', column'⟩ ∧
      Advances (l.folds = false) line column line' column' := by
  have hmark := startsMark_margin hpos
    (blankMark (c :: t) ++ c :: (doubleBody l false false column₀ t ++ '"' :: rest))
  by_cases hspace : c = ' '
  · subst hspace
    obtain ⟨line', column', hread, hadv⟩ := h _ (.blanks (b := [])) false false column₀ (line + 1)
      (0 + l.indent + 2)
    have hfar : Quoted true (.broken none []) ⟨['\\', ' '] ++ (doubleBody l false false column₀ t ++
        '"' :: rest), line + 1, 0 + l.indent⟩ (' ' :: t) ⟨rest, line', column'⟩ :=
      .escape isEscape_blank hread
    have hle := hadv.line_le
    exact ⟨line', column', .continued hmark (.margin l.indent hfar),
      .across (by simp [hfolds]) (by omega)⟩
  · obtain ⟨line', column', hread, hadv⟩ := h _ (.blanks (b := [])) false false column₀ (line + 1)
      (0 + l.indent + 1)
    have hfar : Quoted true (.broken none []) ⟨c :: (doubleBody l false false column₀ t ++
        '"' :: rest), line + 1, 0 + l.indent⟩ (c :: t) ⟨rest, line', column'⟩ :=
      .literal (isLiteral_of_isQuotable hc hspace) hread
    have hnone : blankMark (c :: t) = [] := by simp [hspace]
    have hle := hadv.line_le
    rw [hnone] at hmark ⊢
    exact ⟨line', column', .continued hmark (.margin l.indent hfar),
      .across (by simp [hfolds]) (by omega)⟩

/-- A line may end behind an escape. -/
theorem ReadsMarked.fold (h : ReadsMarked l rest t) (hfolds : l.folds = true) (hpos : 0 < l.indent)
    (line column : Nat) :
    ∃ line' column', Quoted true gap ⟨escapeText c ++ '\\' :: '\n' :: (margin l.indent ++
        (blankMark t ++
          (doubleBody l false true (l.indent + (blankMark t).length) t ++ '"' :: rest))),
        line, column⟩ (gap.text ++ c :: t) ⟨rest, line', column'⟩ ∧
      Advances (l.folds = false) line column line' column' := by
  have hmark := startsMark_margin hpos (blankMark t ++
    (doubleBody l false true (l.indent + (blankMark t).length) t ++ '"' :: rest))
  obtain ⟨line', column', hread, hle⟩ := h (line + 1) (0 + l.indent)
  exact ⟨line', column',
    .escape (isEscape_escapeText c) (.continued hmark (.margin l.indent hread)),
    .across (by simp [hfolds]) (by omega)⟩

/-- A character that stands for itself is read back, and a blank is held. -/
theorem ReadsDouble.step (h : ReadsDouble l rest t) (hc : isQuotable c = true)
    (hheld : Held gap (c :: t)) (column₀ line column : Nat) :
    ∃ line' column', Quoted true gap
        ⟨c :: (doubleBody l false false column₀ t ++ '"' :: rest), line, column⟩
        (gap.text ++ c :: t) ⟨rest, line', column'⟩ ∧
      Advances (l.folds = false) line column line' column' := by
  by_cases hspace : c = ' '
  · subst hspace
    cases hheld with
    | @blanks b =>
      obtain ⟨line', column', hread, hadv⟩ :=
        h _ (.blanks (b := b ++ [' '])) false false column₀ line (column + 1)
      have htext : (Gap.blanks (b ++ [' '])).text ++ t = (Gap.blanks b).text ++ ' ' :: t := by
        simp [Gap.text]
      rw [htext] at hread
      exact ⟨line', column', .blank hread, (Advances.along (by omega)).trans hadv⟩
    | continued hnone => exact absurd rfl (hnone ' ' rfl)
  · obtain ⟨line', column', hread, hadv⟩ :=
      h _ (.blanks (b := [])) false false column₀ line (column + 1)
    exact ⟨line', column', .literal (isLiteral_of_isQuotable hc hspace) hread,
      (Advances.along (by omega)).trans hadv⟩

/-- Behind an escape that its line goes on after, the rest is read back. -/
theorem ReadsDouble.step_escape (h : ReadsDouble l rest t) (column₀ line column : Nat) :
    ∃ line' column', Quoted true gap
        ⟨escapeText c ++ (doubleBody l false true column₀ t ++ '"' :: rest), line, column⟩
        (gap.text ++ c :: t) ⟨rest, line', column'⟩ ∧
      Advances (l.folds = false) line column line' column' := by
  obtain ⟨line', column', hread, hadv⟩ := h _ (.blanks (b := [])) false true column₀ line
    (column + (escapeText c).length)
  exact ⟨line', column', .escape (isEscape_escapeText c) hread,
    (Advances.along (by omega)).trans hadv⟩

/-- **A text in double quotes is read back**, up to the quote that closes it, and so it is behind a
line end that does not count. -/
theorem readsDouble_and_marked (hl : l.Fits) (t rest : List Char) :
    ReadsDouble l rest t ∧ (l.folds = true → ReadsMarked l rest t) := by
  induction t with
  | nil =>
    refine ⟨fun gap _ first fresh column₀ line column => ?_, fun _ line column => ?_⟩
    · rw [List.append_nil]
      exact ⟨line, column + 1, .closeDouble, .along (Nat.le_succ column)⟩
    · exact ⟨line, column + 1, .closeDouble, Nat.le_refl line⟩
  | cons c t ih =>
    obtain ⟨hreads, hmarked⟩ := ih
    have hcons : ReadsDouble l rest (c :: t) := by
      intro gap hheld first fresh column₀ line column
      rw [doubleBody]
      split
      · rename_i hc
        split
        · rename_i hfold
          have hfolds : l.folds = true := by
            simp only [Bool.and_eq_true] at hfold
            exact hfold.1.1.1.1
          have hmark : (if c == ' ' then ['\\'] else []) = blankMark (c :: t) := rfl
          simp only [List.cons_append, List.append_assoc, hmark]
          exact hreads.fold hfolds (hl hfolds).1 hc _ line column
        · exact hreads.step hc hheld _ line column
      · dsimp only
        split
        · rename_i hfold
          have hfolds : l.folds = true := by
            simp only [Bool.and_eq_true] at hfold
            exact hfold.1.1.1
          simp only [List.cons_append, List.append_assoc]
          exact (hmarked hfolds).fold hfolds (hl hfolds).1 line column
        · rw [List.append_assoc]
          exact hreads.step_escape _ line column
    refine ⟨hcons, fun hfolds => ?_⟩
    by_cases hspace : c = ' '
    · rw [hspace]
      exact hreads.marked_blank (hl hfolds).2
    · exact hcons.marked hspace

end Double

end Yaml
end ScriptHost
