import ScriptHost.Proofs.Yaml.Places

/-!
# Scalars without quotes are read back

A scalar without quotes consists of words with blanks between them, and its writer may end a line
where a single blank stands.  The reader takes one word after another, and counts a line end with
the margin behind it as one blank.  So both go through the text word by word, and `Words` describes
a text that way.

* `Words`: words divided by blanks, none of which would end the scalar.
* `plainBody_word`, `plainBody_gap`: how a word and the blanks behind it are written.
* `word_append`, `gapFrom_gap`: how they are read.
* `ClosesPlain`: what can stand behind the last word.
* `plainFrom_words`: reading gives the text back.
* `words_of_isPlain`: every string that is written without quotes is such a text.
-/

namespace ScriptHost
namespace Yaml

/-! ## Words -/

/-- A word: no character divides it, and it does not end in a colon. -/
structure IsWord (w : List Char) : Prop where
  ne_nil : w ≠ []
  solid : ∀ c ∈ w, isSeparator c = false
  colon : w.getLast? ≠ some ':'

/-- Words divided by blanks, none of which starts like a comment. -/
inductive Words : List Char → Prop
  | last {w : List Char} (hw : IsWord w) : Words w
  | more {w t : List Char} {k : Nat} (hw : IsWord w) (hhash : t.head? ≠ some '#') (ht : Words t) :
      Words (w ++ (margin (k + 1) ++ t))

variable {w t more : List Char} {l : Layout} {line column : Nat} {indent : Int}

theorem IsWord.tail {c d : Char} (hw : IsWord (c :: d :: w)) : IsWord (d :: w) where
  ne_nil := List.cons_ne_nil d w
  solid b hb := hw.solid b (List.mem_cons_of_mem c hb)
  colon := by simpa using hw.colon

theorem IsWord.exists_cons (hw : IsWord w) : ∃ c rest, w = c :: rest ∧ isSeparator c = false := by
  cases w with
  | nil => exact absurd rfl hw.ne_nil
  | cons c rest => exact ⟨c, rest, rfl, hw.solid c List.mem_cons_self⟩

theorem Words.exists_cons (ht : Words t) : ∃ c rest, t = c :: rest ∧ isSeparator c = false := by
  cases ht with
  | last hw => exact hw.exists_cons
  | more hw _ _ =>
    obtain ⟨c, rest, rfl, hc⟩ := hw.exists_cons
    exact ⟨c, _, rfl, hc⟩

/-! ## Writing -/

/-- A word is written as it is. -/
theorem plainBody_word (hw : ∀ c ∈ w, c ≠ ' ') (before : Option Char) (column : Nat)
    (rest : List Char) :
    plainBody l before column (w ++ rest) =
      w ++ plainBody l (w.getLast?.or before) (column + w.length) rest := by
  induction w generalizing before column with
  | nil => rfl
  | cons c w ih =>
    have hc : (c == ' ') = false := by simpa using hw c List.mem_cons_self
    have hrest := ih (fun d hd => hw d (List.mem_cons_of_mem c hd)) (some c) (column + 1)
    have hlast : (c :: w).getLast?.or before = w.getLast?.or (some c) := by
      rw [List.getLast?_cons]
      cases w.getLast? <;> rfl
    rw [List.cons_append, plainBody, hc, Bool.false_and, if_neg Bool.false_ne_true, hrest, hlast,
      List.length_cons, List.cons_append, Nat.add_assoc, Nat.add_comm 1 w.length]

/-- Behind a blank, no blank is folded. -/
theorem plainBody_blanks (k column : Nat) (rest : List Char) :
    plainBody l (some ' ') column (margin k ++ rest) =
      margin k ++ plainBody l (some ' ') (column + k) rest := by
  induction k generalizing column with
  | zero => rfl
  | succ k ih =>
    have hkeep : l.breaksAt column (some ' ') (margin k ++ rest) = false := by
      simp [Layout.breaksAt]
    rw [margin_succ, List.cons_append, plainBody, hkeep, Bool.and_false, if_neg Bool.false_ne_true,
      ih, List.cons_append, Nat.add_assoc, Nat.add_comm 1 k]

/-- How the blanks between two words are written: as they are, or a single one as a line end with
the margin of the next line. -/
inductive WritesGap (l : Layout) : Nat → List Char → Prop
  | blanks (k : Nat) : WritesGap l k (margin (k + 1))
  | folded (hfolds : l.folds = true) : WritesGap l 0 ('\n' :: margin l.indent)

/-- The blanks between two words. -/
theorem plainBody_gap {c : Char} (k column : Nat) (t : List Char) :
    ∃ gap column', WritesGap l k gap ∧ plainBody l (some c) column (margin (k + 1) ++ t) =
      gap ++ plainBody l (some ' ') column' t := by
  rw [margin_succ, List.cons_append, plainBody]
  split
  · rename_i hfold
    cases k with
    | zero =>
      refine ⟨'\n' :: margin l.indent, l.indent, .folded ?_, rfl⟩
      simp only [Layout.breaksAt, Bool.and_eq_true] at hfold
      exact hfold.2.1.1.1.1.1
    | succ k =>
      -- another blank follows
      simp [Layout.breaksAt, margin_succ] at hfold
  · rw [plainBody_blanks]
    exact ⟨margin (k + 1), _, .blanks k, rfl⟩

/-! ## Reading -/

/-- A word is read up to what follows it. -/
theorem word_append (hw : IsWord w) (hmore : word false more = ([], more)) :
    word false (w ++ more) = (w, more) := by
  induction w with
  | nil => exact absurd rfl hw.ne_nil
  | cons c w ih =>
    have hc := hw.solid c List.mem_cons_self
    have hgo : word false (w ++ more) = (w, more) ∧
        (c == ':' && endsKey false (w ++ more)) = false := by
      cases w with
      | nil =>
        refine ⟨hmore, ?_⟩
        have hcolon : c ≠ ':' := by simpa using hw.colon
        simp [hcolon]
      | cons d w =>
        refine ⟨ih hw.tail, ?_⟩
        have hd := hw.solid d (List.mem_cons_of_mem c List.mem_cons_self)
        simp [endsKey, hd]
    rw [List.cons_append, word, hc, hgo.2, hgo.1]
    simp

theorem gapFrom_blanks (b : List Char) (k line column : Nat) (rest : List Char) :
    gapFrom (.blanks b) line column (margin k ++ rest) =
      gapFrom (.blanks (b ++ margin k)) line (column + k) rest := by
  induction k generalizing b column with
  | zero => simp [margin]
  | succ k ih =>
    have hblank : Gap.blank ' ' (.blanks b) = .blanks (b ++ [' ']) := rfl
    rw [margin_succ, List.cons_append, gapFrom, if_pos (by decide), hblank, ih, Nat.add_assoc,
      Nat.add_comm 1 k, List.append_assoc, List.singleton_append]

theorem gapFrom_broken (first : Option Char) (breaks : List Char) (k line column : Nat)
    (rest : List Char) :
    gapFrom (.broken first breaks) line column (margin k ++ rest) =
      gapFrom (.broken first breaks) line (column + k) rest := by
  induction k generalizing column with
  | zero => rfl
  | succ k ih =>
    have hblank : Gap.blank ' ' (.broken first breaks) = .broken first breaks := rfl
    rw [margin_succ, List.cons_append, gapFrom, if_pos (by decide), hblank, ih, Nat.add_assoc,
      Nat.add_comm 1 k]

theorem gapFrom_token {x : Char} (hspace : x ≠ ' ') (hbreak : isBreak x = false) (gap : Gap)
    (rest : List Char) :
    gapFrom gap line column (x :: rest) = some (gap, ⟨x :: rest, line, column⟩) := by
  simp [gapFrom, hspace, hbreak]

/-- Further lines of a scalar have a margin, which reaches a column. -/
def Layout.Reaches (l : Layout) (indent : Int) : Prop :=
  l.folds = true → 0 < l.indent ∧ indent ≤ l.indent

/-- The blanks between two words are read back, up to the column of the next word. -/
theorem gapFrom_gap {k : Nat} {gap : List Char} (hgap : WritesGap l k gap) (hl : l.Reaches indent)
    {x : Char} (hx : isSeparator x = false) (rest : List Char) (line column : Nat)
    (hcolumn : indent ≤ column + 1) :
    ∃ g line' column', gapFrom (.blanks []) line column (gap ++ x :: rest) =
        some (g, ⟨x :: rest, line', column'⟩) ∧
      g.text = margin (k + 1) ∧ indent ≤ (column' : Int) ∧
      Advances (l.folds = false) line column line' column' := by
  have htoken (g : Gap) (line column : Nat) :
      gapFrom g line column (x :: rest) = some (g, ⟨x :: rest, line, column⟩) :=
    gapFrom_token (ne_space_of_not_isSeparator hx) (isBreak_of_not_isSeparator hx) g rest
  cases hgap with
  | blanks =>
    refine ⟨.blanks (margin (k + 1)), line, column + (k + 1), ?_, rfl, by omega, .along (by omega)⟩
    rw [gapFrom_blanks, htoken, List.nil_append]
  | folded hfolds =>
    obtain ⟨hpos, hreach⟩ := hl hfolds
    refine ⟨.broken (some '\n') [], line + 1, l.indent, ?_, rfl, hreach,
      .across (by simp [hfolds]) (by omega)⟩
    have hmark := startsMark_margin hpos (x :: rest)
    have hnewline : Gap.newline '\n' (.blanks []) = .broken (some '\n') [] := rfl
    rw [List.cons_append, gapFrom, if_neg (by decide), if_pos (by decide), hmark,
      if_neg Bool.false_ne_true, hnewline, gapFrom_broken, Nat.zero_add, htoken]

/-! ## The end of a scalar -/

/-- A text closes a scalar without quotes whose further lines have to reach a column; `after` is the
place where reading goes on. -/
structure ClosesPlain (indent : Int) (more : List Char) (after : Nat → Nat → Cursor) : Prop where
  word_eq : word false more = ([], more)
  gap (line column : Nat) :
    ∃ g, gapFrom (.blanks []) line column more = some (g, after line column) ∧
    (g.text = [] ∨ ((after line column).column : Int) < indent)

/-- A colon before a separator closes a key. -/
theorem closesPlain_colon {rest : List Char} (hrest : endsWord rest = true) :
    ClosesPlain indent (':' :: rest) fun line column => ⟨':' :: rest, line, column⟩ where
  word_eq := by
    have hkey : endsKey false rest = true := by
      cases rest with
      | nil => rfl
      | cons c rest =>
        have hc : isSeparator c = true := hrest
        simp [endsKey, hc]
    simp [word, hkey]
  gap line column := ⟨.blanks [], gapFrom_token (by decide) (by decide) _ _, .inl rfl⟩

/-- A line end closes a scalar if the next line starts further to the left. -/
theorem closesPlain_newline {c : Nat} {tail : List Char} (htail : Below c tail) (hc : 0 < c) :
    ClosesPlain c ('\n' :: tail) fun line _ => Cursor.skipFrom false (line + 1) 0 tail where
  word_eq := by simp [word, isSeparator, isBreak]
  gap line column := by
    have hnewline : Gap.newline '\n' (.blanks []) = .broken (some '\n') [] := rfl
    refine ⟨.broken (some '\n') [], ?_, .inr ?_⟩
    · rw [gapFrom, if_neg (by decide), if_pos (by decide), htail.startsMark_eq,
        if_neg Bool.false_ne_true, hnewline]
      cases htail with
      | nil => rfl
      | line hm hx hmark =>
        rw [gapFrom_broken, gapFrom_token hx.ne_space hx.break_eq, Cursor.skipFrom_margin,
          Cursor.skipFrom_token hx]
    · cases htail with
      | nil => exact Int.ofNat_lt.mpr hc
      | line hm hx hmark =>
        rw [Cursor.skipFrom_margin, Cursor.skipFrom_token hx, Nat.zero_add]
        exact Int.ofNat_lt.mpr hm

/-! ## Whole texts -/

theorem word_gap {k : Nat} {gap : List Char} (hgap : WritesGap l k gap) (rest : List Char) :
    word false (gap ++ rest) = ([], gap ++ rest) := by
  cases hgap with
  | blanks => simp [margin_succ, word, isSeparator]
  | folded => simp [word, isSeparator, isBreak]

/-- The last word is read up to what closes the scalar. -/
theorem plainFrom_last (hw : IsWord w) {after : Nat → Nat → Cursor}
    (hclose : ClosesPlain indent more after) (n line column : Nat) :
    plainFrom false indent (n + 1) ⟨w ++ more, line, column⟩ =
      (w, after line (column + w.length)) := by
  obtain ⟨gap, hgap, hstop⟩ := hclose.gap line (column + w.length)
  have hword : w.isEmpty = false := by simpa using hw.ne_nil
  have hstops : (gap.text.isEmpty || (after line (column + w.length)).rest.head? == some '#' ||
      (!false && decide (((after line (column + w.length)).column : Int) < indent))) = true := by
    rcases hstop with htext | hleft
    · simp [htext]
    · simp [hleft]
  simp only [plainFrom, word_append hw hclose.word_eq, hword, Bool.false_eq_true, if_false, hgap]
  rw [if_pos hstops]

/-- A word with a further one behind it is read, and the rest after it. -/
theorem plainFrom_more (hw : IsWord w) {k : Nat} {gap : List Char} (hgap : WritesGap l k gap)
    (hl : l.Reaches indent) {x : Char} (hx : isSeparator x = false) (hhash : x ≠ '#')
    (rest : List Char) (n line column : Nat) (hcolumn : indent ≤ column + 1) :
    ∃ line' column' : Nat, indent ≤ column' ∧ Advances (l.folds = false) line column line' column' ∧
      ∀ text place, text ≠ [] →
        plainFrom false indent n ⟨x :: rest, line', column'⟩ = (text, place) →
        plainFrom false indent (n + 1) ⟨w ++ (gap ++ x :: rest), line, column⟩ =
          (w ++ (margin (k + 1) ++ text), place) := by
  obtain ⟨g, line', column', hread, htext, hreach, hline⟩ :=
    gapFrom_gap hgap hl hx rest line (column + w.length) (by push_cast; omega)
  refine ⟨line', column', hreach, (Advances.along (by omega)).trans hline,
    fun text place hne hrec => ?_⟩
  have hword : w.isEmpty = false := by simpa using hw.ne_nil
  have hmore : text.isEmpty = false := by simpa using hne
  have hgo : (g.text.isEmpty || (x :: rest).head? == some '#' ||
      (!false && decide ((column' : Int) < indent))) = false := by
    simp [htext, margin_succ, hhash, Int.not_lt.mpr hreach]
  simp only [plainFrom, word_append hw (word_gap hgap (x :: rest)), hword, Bool.false_eq_true,
    if_false, hread]
  rw [if_neg (by rw [hgo]; exact Bool.false_ne_true), hrec, htext]
  simp only [hmore, Bool.false_eq_true, if_false]

/-- **A scalar without quotes is read back**, up to what closes it.  Its first line stands at the
column that further lines have to reach, or just to the left of it, as a key does. -/
theorem plainFrom_words (ht : Words t) {after : Nat → Nat → Cursor}
    (hclose : ClosesPlain indent more after) (hl : l.Reaches indent)
    (before : Option Char) (column₀ n line column : Nat) (hn : t.length ≤ n)
    (hcolumn : indent ≤ column + 1) :
    ∃ line' column', plainFrom false indent n ⟨plainBody l before column₀ t ++ more, line, column⟩ =
      (t, after line' column') ∧ Advances (l.folds = false) line column line' column' := by
  induction ht generalizing before column₀ n line column with
  | @last w hw =>
    have hwrite := plainBody_word (l := l) (fun c hc => ne_space_of_not_isSeparator (hw.solid c hc))
      before column₀ []
    have hpos := List.length_pos_iff.mpr hw.ne_nil
    obtain ⟨m, rfl⟩ : ∃ m, n = m + 1 := ⟨n - 1, by omega⟩
    rw [List.append_nil, plainBody, List.append_nil] at hwrite
    rw [hwrite]
    exact ⟨line, _, plainFrom_last hw hclose m line column, .along (Nat.le_add_right _ _)⟩
  | @more w t k hw hhash ht ih =>
    have hwrite := plainBody_word (l := l) (fun c hc => ne_space_of_not_isSeparator (hw.solid c hc))
      before column₀ (margin (k + 1) ++ t)
    have hpos := List.length_pos_iff.mpr hw.ne_nil
    have hlength : (w ++ (margin (k + 1) ++ t)).length = w.length + (k + 1 + t.length) := by
      simp [margin]
    obtain ⟨m, rfl⟩ : ∃ m, n = m + 1 := ⟨n - 1, by omega⟩
    obtain ⟨d, hd⟩ : ∃ d, w.getLast?.or before = some d := by
      cases h : w.getLast? with
      | none => exact absurd (List.getLast?_eq_none_iff.mp h) hw.ne_nil
      | some d => exact ⟨d, rfl⟩
    obtain ⟨gap, column₁, hgap, hrest⟩ := plainBody_gap (l := l) (c := d) k (column₀ + w.length) t
    obtain ⟨x, t', rfl, hx⟩ := ht.exists_cons
    -- the next word is written with its first character in front
    obtain ⟨body, hbody⟩ : ∃ body, plainBody l (some ' ') column₁ (x :: t') = x :: body := by
      rw [plainBody, beq_false_of_ne (ne_space_of_not_isSeparator hx), Bool.false_and,
        if_neg Bool.false_ne_true]
      exact ⟨_, rfl⟩
    obtain ⟨line₁, column₂, hreach, hline, hstep⟩ := plainFrom_more hw hgap hl hx
      (by simpa using hhash) (body ++ more) m line column hcolumn
    obtain ⟨line', column', hrec, hline'⟩ := ih (some ' ') column₁ m line₁ column₂ (by omega)
      (by omega)
    rw [hbody, List.cons_append] at hrec
    refine ⟨line', column', ?_, hline.trans hline'⟩
    have hread := hstep _ _ (List.cons_ne_nil x t') hrec
    rw [hwrite, hd, hrest, hbody]
    simpa only [List.append_assoc, List.cons_append] using hread

/-! ## The texts that are written without quotes -/

theorem IsWord.cons {c : Char} (hw : IsWord w) (hc : isSeparator c = false) : IsWord (c :: w) where
  ne_nil := List.cons_ne_nil c w
  solid d hd := (List.mem_cons.mp hd).elim (fun h => h ▸ hc) (hw.solid d)
  colon := by
    obtain ⟨d, w', rfl, -⟩ := hw.exists_cons
    simpa using hw.colon

theorem IsWord.singleton {c : Char} (hc : isSeparator c = false) (hcolon : c ≠ ':') :
    IsWord [c] where
  ne_nil := List.cons_ne_nil c []
  solid d hd := (List.mem_singleton.mp hd) ▸ hc
  colon := by simpa using hcolon

/-- A further character in front lengthens the first word. -/
theorem Words.cons {c : Char} (ht : Words t) (hc : isSeparator c = false) : Words (c :: t) := by
  cases ht with
  | last hw => exact .last (hw.cons hc)
  | more hw hhash ht => exact .more (hw.cons hc) hhash ht

/-- The marks inside a text are those of its tail, and what its first two characters make. -/
theorem hasInnerMark_cons {c d : Char} (h : Style.hasInnerMark (c :: d :: t) = false) :
    Style.hasInnerMark (d :: t) = false ∧ (c = ':' → isSeparator d = false) ∧
      (isSeparator c = true → d ≠ '#') := by
  simp only [Style.hasInnerMark, List.getLast?_cons_cons, anyNeighbours, Bool.or_eq_false_iff,
    Bool.and_eq_false_iff, beq_eq_false_iff_ne] at h ⊢
  obtain ⟨hlast, ⟨hcolon, hhash⟩, hmore⟩ := h
  refine ⟨⟨hlast, hmore⟩, fun hc => ?_, fun hc => ?_⟩
  · exact hcolon.resolve_left (not_not_intro hc)
  · exact hhash.resolve_left (by simp [hc])

/-- A text without other separators than blanks, and without a mark that would end it, consists of
words, with blanks in front at most. -/
theorem words_of_no_mark (hne : t ≠ []) (hsep : ∀ c ∈ t, isSeparator c = true → c = ' ')
    (hlast : t.getLast? ≠ some ' ') (hmark : Style.hasInnerMark t = false) :
    ∃ k u, t = margin k ++ u ∧ Words u ∧ (0 < k → u.head? ≠ some '#') := by
  induction t with
  | nil => exact absurd rfl hne
  | cons c t ih =>
    cases t with
    | nil =>
      have hblank : c ≠ ' ' := by simpa using hlast
      have hc : isSeparator c = false :=
        Bool.eq_false_iff.mpr fun h => hblank (hsep c List.mem_cons_self h)
      have hcolon : c ≠ ':' := by
        rintro rfl
        exact absurd hmark (by decide)
      exact ⟨0, [c], rfl, .last (.singleton hc hcolon), nofun⟩
    | cons d t =>
      obtain ⟨hmark', hcolon, hhash⟩ := hasInnerMark_cons hmark
      obtain ⟨k, u, hu, hwords, hstart⟩ := ih (List.cons_ne_nil d t)
        (fun b hb => hsep b (List.mem_cons_of_mem c hb)) (by simpa using hlast) hmark'
      cases hc : isSeparator c with
      | true =>
        refine ⟨k + 1, u, ?_, hwords, fun _ => ?_⟩
        · rw [hsep c List.mem_cons_self hc, margin_succ, List.cons_append, hu]
        · cases k with
          | zero =>
            have hd : u = d :: t := by simpa [margin] using hu.symm
            simpa [hd] using hhash hc
          | succ k => exact hstart (Nat.succ_pos k)
      | false =>
        refine ⟨0, c :: d :: t, rfl, ?_, nofun⟩
        cases k with
        | zero =>
          have hd : u = d :: t := by simpa [margin] using hu.symm
          exact (hd ▸ hwords).cons hc
        | succ k =>
          have hd : d = ' ' := by simpa [margin_succ] using (List.cons.inj hu).1
          have hword : IsWord [c] := .singleton hc fun h => by
            have hsolid := hcolon h
            rw [hd] at hsolid
            exact absurd hsolid (by decide)
          rw [hu]
          exact .more hword (hstart (Nat.succ_pos k)) hwords

/-- What is plain has a character, has no other separators than blanks, and none outside. -/
theorem words_of_isPlain (ht : Style.isPlain t = true) : Words t := by
  simp only [Style.isPlain, Style.hasOuterBlank, Bool.and_eq_true, Bool.not_eq_true',
    Bool.or_eq_false_iff, beq_eq_false_iff_ne, List.all_eq_true, List.any_eq_false] at ht
  obtain ⟨⟨⟨⟨⟨⟨htag, hplain⟩, hbreak⟩, hhead, hlast⟩, -⟩, -⟩, hmark⟩ := ht
  have hne : t ≠ [] := by
    rintro rfl
    exact absurd htag (by decide)
  have hsep (c : Char) (hc : c ∈ t) (h : isSeparator c = true) : c = ' ' := by
    have hall := hplain c hc
    have hnone := hbreak c hc
    simp only [isSeparator, hnone, Bool.or_eq_true, beq_iff_eq, Bool.or_false] at h
    rcases h with ((rfl | rfl) | rfl) | rfl
    · rfl
    all_goals exact absurd hall (by decide)
  obtain ⟨k, u, hu, hwords, -⟩ := words_of_no_mark hne hsep hlast hmark
  cases k with
  | zero =>
    have hu' : t = u := hu
    exact hu' ▸ hwords
  | succ k =>
    rw [hu, margin_succ] at hhead
    exact absurd rfl hhead

end Yaml
end ScriptHost
