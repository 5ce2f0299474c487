import ScriptHost.Yaml.Reader
import ScriptHost.Yaml.Writer

/-!
# Where a node ends

A node in block style ends with its line, and what follows is told apart by the column at which it
starts.  So what is read of a node depends on the rest of the text only through the place of the
next token, and of that only the column counts.

* `Cursor.skipFrom_margin`, `Cursor.skipFrom_token`, `Cursor.skip_skipFrom`: the place of the next
  token.
* `Advances`: how far a node reaches.
* `Below c tail`: the text goes on at a column to the left of `c`, or not at all.
* `Ends c tail`: it goes on at `c` at most, and with no further item of a sequence there.
-/

namespace ScriptHost
namespace Yaml

/-! ## Characters -/

theorem isSeparator_of_isBreak {c : Char} (hc : isBreak c = true) : isSeparator c = true := by
  rw [isSeparator, hc, Bool.or_true]

theorem isBreak_of_not_isSeparator {c : Char} (hc : isSeparator c = false) : isBreak c = false := by
  cases hbreak : isBreak c with
  | false => rfl
  | true => exact absurd (isSeparator_of_isBreak hbreak) (by simp [hc])

theorem ne_space_of_not_isSeparator {c : Char} (hc : isSeparator c = false) : c ≠ ' ' := by
  rintro rfl
  exact absurd hc (by decide)

/-! ## The next token -/

/-- A character that is skipped neither as a blank nor as a line end nor with a comment. -/
structure IsToken (x : Char) : Prop where
  break_eq : isBreak x = false
  ne_hash : x ≠ '#'
  ne_space : x ≠ ' '

theorem margin_succ (n : Nat) : margin (n + 1) = ' ' :: margin n := rfl

namespace Cursor

variable {line column : Nat} {x : Char} {rest : List Char}

theorem skipFrom_space (line column : Nat) (rest : List Char) :
    skipFrom false line column (' ' :: rest) = skipFrom false line (column + 1) rest := rfl

theorem skipFrom_newline (line column : Nat) (rest : List Char) :
    skipFrom false line column ('\n' :: rest) = skipFrom false (line + 1) 0 rest := rfl

theorem skipFrom_margin (n line column : Nat) (rest : List Char) :
    skipFrom false line column (margin n ++ rest) = skipFrom false line (column + n) rest := by
  induction n generalizing column with
  | zero => rfl
  | succ n ih =>
    rw [margin_succ, List.cons_append, skipFrom_space, ih, Nat.add_assoc, Nat.add_comm 1 n]

theorem skipFrom_token (hx : IsToken x) :
    skipFrom false line column (x :: rest) = ⟨x :: rest, line, column⟩ := by
  simp [skipFrom, hx.break_eq, hx.ne_hash, hx.ne_space]

/-- The place of the next token is found once. -/
theorem skip_skipFrom (comment : Bool) (line column : Nat) (text : List Char) :
    (skipFrom comment line column text).skip = skipFrom comment line column text := by
  induction text generalizing comment line column with
  | nil => rfl
  | cons c rest ih =>
    rw [skipFrom]
    split
    · exact ih false (line + 1) 0
    · rename_i hbreak
      split
      · exact ih true line (column + 1)
      · rename_i hhash
        split
        · exact ih false line (column + 1)
        · rename_i hspace
          rw [Bool.or_eq_true, not_or] at hhash
          refine skipFrom_token ⟨?_, ?_, ?_⟩
          · simpa using hbreak
          · simpa using hhash.2
          · simpa using hspace

end Cursor

/-- A later place, in the same line if the text between has no line end. -/
structure Advances (straight : Prop) (line column line' column' : Nat) : Prop where
  line_le : line ≤ line'
  stays (h : straight) : line' = line ∧ column ≤ column'

namespace Advances

variable {straight : Prop} {line column line' column' line₁ column₁ : Nat}

theorem along (h : column ≤ column') : Advances straight line column line column' :=
  ⟨Nat.le_refl line, fun _ => ⟨rfl, h⟩⟩

theorem across (hstraight : ¬ straight) (h : line ≤ line') :
    Advances straight line column line' column' :=
  ⟨h, fun hs => absurd hs hstraight⟩

theorem trans (h : Advances straight line column line₁ column₁)
    (h' : Advances straight line₁ column₁ line' column') :
    Advances straight line column line' column' where
  line_le := Nat.le_trans h.line_le h'.line_le
  stays hs := ⟨(h'.stays hs).1.trans (h.stays hs).1, Nat.le_trans (h.stays hs).2 (h'.stays hs).2⟩

theorem imp {straight' : Prop} (h : Advances straight line column line' column')
    (himp : straight' → straight) : Advances straight' line column line' column' :=
  ⟨h.line_le, fun hs => h.stays (himp hs)⟩

end Advances

/-! ## What follows a node -/

theorem startsMark_of_head {x : Char} {rest : List Char} (hdash : x ≠ '-') (hpoint : x ≠ '.') :
    startsMark (x :: rest) = false := by
  simp [startsMark, Style.isMarkLike, hdash.symm, hpoint.symm]

theorem startsMark_margin {n : Nat} (hn : 0 < n) (rest : List Char) :
    startsMark (margin n ++ rest) = false := by
  obtain ⟨m, rfl⟩ := Nat.exists_eq_succ_of_ne_zero (Nat.ne_of_gt hn)
  exact startsMark_of_head (by decide) (by decide)

/-- The text goes on at a column to the left of a given one, or it ends. -/
inductive Below (c : Nat) : List Char → Prop
  | nil : Below c []
  | line {m : Nat} {x : Char} {rest : List Char} (hm : m < c) (hx : IsToken x)
      (hmark : m = 0 → startsMark (x :: rest) = false) : Below c (margin m ++ x :: rest)

namespace Below

variable {c d : Nat} {tail : List Char}

theorem mono (h : Below c tail) (hle : c ≤ d) : Below d tail := by
  cases h with
  | nil => exact .nil
  | line hm hx hmark => exact .line (Nat.lt_of_lt_of_le hm hle) hx hmark

theorem startsMark_eq (h : Below c tail) : startsMark tail = false := by
  cases h with
  | nil => rfl
  | @line m x rest hm hx hmark =>
    cases m with
    | zero => exact hmark rfl
    | succ m => exact startsMark_margin (Nat.succ_pos m) _

/-- The next token, if there is one, stands to the left. -/
theorem place (h : Below c tail) (line : Nat) :
    (Cursor.skipFrom false line 0 tail).rest = [] ∨
      (Cursor.skipFrom false line 0 tail).column < c := by
  cases h with
  | nil => exact .inl rfl
  | @line m x rest hm hx hmark =>
    rw [Cursor.skipFrom_margin, Nat.zero_add, Cursor.skipFrom_token hx]
    exact .inr hm

end Below

/-- The text goes on at a column at most, and not with an item of a sequence there. -/
structure Ends (c : Nat) (tail : List Char) : Prop where
  below : Below (c + 1) tail
  item (line : Nat) : (Cursor.skipFrom false line 0 tail).column = c →
    (Cursor.skipFrom false line 0 tail).atIndicator '-' = false

theorem Below.ends {c : Nat} {tail : List Char} (h : Below c tail) : Ends c tail where
  below := h.mono (Nat.le_succ c)
  item line hcolumn := by
    rcases h.place line with hend | hlt
    · rw [Cursor.atIndicator, hend]
    · exact absurd hcolumn (Nat.ne_of_lt hlt)

end Yaml
end ScriptHost
