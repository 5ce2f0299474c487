import ScriptHost.Proofs.Text.Escaping
import ScriptHost.Proofs.Yaml.Places

/-!
# Which characters are written

Before anything else, the reader brings the line ends of a text into one form, and refuses a text
with characters that it does not know.  What is written comes through unchanged, except for one
character: the next line, which counts as a line end and stands for itself in single quotes.

* `IsKept`: a character that comes through unchanged.
* `KeepsNextLine`: a string that is not written with a next line in single quotes.
* `allKept_stringText`: whatever style is chosen for such a string, all of its text comes through.
* `unifyBreaks_eq`: so does a text of such characters.
-/

namespace ScriptHost
namespace Yaml

/-- A character that the reader takes as it is, wherever it stands. -/
structure IsKept (c : Char) : Prop where
  readable : isReadable c = true
  ne_return : c ≠ '\r'
  ne_nextLine : c.toNat ≠ 0x85
  ne_mark : c.toNat ≠ 0xfeff

/-- A text that the reader takes as it is. -/
def AllKept (text : List Char) : Prop := ∀ c ∈ text, IsKept c

variable {c : Char} {text rest t : List Char} {l : Layout}

theorem AllKept.nil : AllKept [] := nofun

theorem AllKept.cons (hc : IsKept c) (h : AllKept text) : AllKept (c :: text) :=
  List.forall_mem_cons.mpr ⟨hc, h⟩

theorem AllKept.append (h : AllKept text) (hrest : AllKept rest) : AllKept (text ++ rest) := by
  intro c hc
  exact (List.mem_append.mp hc).elim (h c) (hrest c)

theorem allKept_cons : AllKept (c :: text) ↔ IsKept c ∧ AllKept text := List.forall_mem_cons

/-- A character between the blank and the tilde. -/
theorem isKept_of_ascii (h : 0x20 ≤ c.toNat ∧ c.toNat ≤ 0x7e) : IsKept c := by
  refine ⟨?_, ?_, by omega, by omega⟩
  · simp [isReadable, h.1, h.2]
  · rintro rfl
    exact absurd h.1 (by decide)

theorem isKept_newline : IsKept '\n' := ⟨by decide, by decide, by decide, by decide⟩

theorem isKept_space : IsKept ' ' := isKept_of_ascii (by decide)

theorem allKept_margin (n : Nat) : AllKept (margin n) := by
  intro c hc
  rw [List.eq_of_mem_replicate hc]
  exact isKept_space

/-! ## Scalars -/

/-- A string that does not lose a next line: none of it is written in single quotes. -/
def KeepsNextLine (t : List Char) : Prop := Style.isSingle t = true → ∀ c ∈ t, c.toNat ≠ 0x85

instance (t : List Char) : Decidable (KeepsNextLine t) :=
  decidable_of_iff (Style.isSingle t = true → (t.all fun c => c.toNat != 0x85) = true)
    (by simp [KeepsNextLine])

/-- A character that can stand unescaped comes through, unless it is the next line. -/
theorem isKept_of_isPlainChar (hc : isPlainChar c = true) (hnext : c.toNat ≠ 0x85) : IsKept c := by
  have hreturn : c ≠ '\r' := by
    rintro rfl
    exact absurd hc (by decide)
  simp only [isPlainChar, Bool.or_eq_true, Bool.and_eq_true, beq_iff_eq, decide_eq_true_eq] at hc
  refine ⟨?_, hreturn, hnext, ?_⟩
  · simp only [isReadable, Bool.or_eq_true, Bool.and_eq_true, beq_iff_eq, decide_eq_true_eq]
    rcases hc with ((hc | hc) | hc) | hc
    · exact .inl (.inl (.inl (.inl (.inr hc))))
    · exact .inl (.inl (.inr hc))
    · exact .inl (.inr hc)
    · exact .inr ⟨⟨hc.1.1.1.1, hc.1.2⟩, hc.2⟩
  · rcases hc with ((rfl | hc) | hc) | hc
    · decide
    · omega
    · omega
    · exact hc.1.1.2

theorem isKept_of_isQuotable (hc : isQuotable c = true) : IsKept c := by
  have hreturn : c ≠ '\r' := by
    rintro rfl
    exact absurd hc (by decide)
  simp only [isQuotable, Bool.or_eq_true, Bool.and_eq_true, decide_eq_true_eq] at hc
  obtain ⟨-, hc⟩ := hc
  refine ⟨?_, hreturn, by omega, by omega⟩
  simp only [isReadable, Bool.or_eq_true, Bool.and_eq_true, beq_iff_eq, decide_eq_true_eq]
  omega

theorem allKept_plainBody (ht : AllKept t) (before : Option Char) (column : Nat) :
    AllKept (plainBody l before column t) := by
  induction t generalizing before column with
  | nil => exact .nil
  | cons c t ih =>
    obtain ⟨hc, ht⟩ := allKept_cons.mp ht
    rw [plainBody]
    split
    · exact .cons isKept_newline (.append (allKept_margin l.indent) (ih ht _ _))
    · exact .cons hc (ih ht _ _)

theorem allKept_brokenLine (hc : IsKept c) (indent : Nat) (before : Option Char)
    (after : List Char) :
    AllKept (brokenLine indent before c after) := by
  simp only [brokenLine]
  refine .append ?_ (.cons hc ?_)
  · split
    · exact .cons isKept_newline .nil
    · exact .nil
  · split
    · exact allKept_margin indent
    · exact .nil

theorem allKept_singleBody (ht : AllKept t) (before : Option Char) (column : Nat) :
    AllKept (singleBody l before column t) := by
  have hquote : IsKept '\'' := isKept_of_ascii (by decide)
  induction t generalizing before column with
  | nil => exact .nil
  | cons c t ih =>
    obtain ⟨hc, ht⟩ := allKept_cons.mp ht
    rw [singleBody]
    split
    · exact .append (allKept_brokenLine hc _ _ _) (ih ht _ _)
    · split
      · exact .cons hquote (.cons hquote (ih ht _ _))
      · split
        · exact .cons isKept_newline (.append (allKept_margin l.indent) (ih ht _ _))
        · exact .cons hc (ih ht _ _)

theorem allKept_upperHex (width n : Nat) : AllKept (upperHex width n) := by
  have hdigit : ∀ d < 16, 0x20 ≤ (Nat.digitChar d).toUpper.toNat ∧
      (Nat.digitChar d).toUpper.toNat ≤ 0x7e := by decide
  intro c hc
  obtain ⟨b, hb, rfl⟩ := List.mem_map.mp hc
  rcases List.mem_append.mp hb with hzero | hmore
  · rw [List.eq_of_mem_replicate hzero]
    exact isKept_of_ascii (by decide)
  · obtain ⟨d, hd, rfl⟩ := Text.exists_digitChar_of_mem n b hmore
    exact isKept_of_ascii (hdigit d hd)

theorem isKept_of_escapeLetter? {e : Char} (h : escapeLetter? c = some e) : IsKept e := by
  rw [escapeLetter?.eq_def] at h
  split at h <;> cases h <;> exact isKept_of_ascii (by decide)

theorem allKept_escapeText (c : Char) : AllKept (escapeText c) := by
  have hslash : IsKept '\\' := isKept_of_ascii (by decide)
  have hcode {e : Char} (he : 0x20 ≤ e.toNat ∧ e.toNat ≤ 0x7e) (width : Nat) :
      AllKept ('\\' :: e :: upperHex width c.toNat) :=
    .cons hslash (.cons (isKept_of_ascii he) (allKept_upperHex width c.toNat))
  rw [escapeText]
  split
  · rename_i e he
    exact .cons hslash (.cons (isKept_of_escapeLetter? he) .nil)
  · split
    · exact hcode (by decide) 2
    · split
      · exact hcode (by decide) 4
      · exact hcode (by decide) 8

theorem allKept_doubleBody (first fresh : Bool) (column : Nat) (t : List Char) :
    AllKept (doubleBody l first fresh column t) := by
  have hslash : IsKept '\\' := isKept_of_ascii (by decide)
  have hmark (p : Prop) [Decidable p] : AllKept (if p then ['\\'] else []) := by
    split
    · exact .cons hslash .nil
    · exact .nil
  have hfold {text : List Char} (h : AllKept text) :
      AllKept ('\\' :: '\n' :: (margin l.indent ++ text)) :=
    .cons hslash (.cons isKept_newline (.append (allKept_margin l.indent) h))
  induction t generalizing first fresh column with
  | nil => exact .nil
  | cons c t ih =>
    rw [doubleBody]
    split
    · rename_i hc
      have hkept := isKept_of_isQuotable hc
      split
      · exact hfold (.append (hmark _) (.cons hkept (ih _ _ _)))
      · exact .cons hkept (ih _ _ _)
    · dsimp only
      split
      · exact .append (allKept_escapeText c) (hfold (.append (hmark _) (ih _ _ _)))
      · exact .append (allKept_escapeText c) (ih _ _ _)

/-- **All of the text of a string comes through**, whatever style is chosen for it. -/
theorem allKept_stringText (ht : KeepsNextLine t) (isKey : Bool) (column : Nat) :
    AllKept (stringText l isKey column t) := by
  have hquote : IsKept '\'' := isKept_of_ascii (by decide)
  have hdouble : IsKept '"' := isKept_of_ascii (by decide)
  rw [stringText]
  split
  · rename_i hplain
    simp only [Style.isPlain, Bool.and_eq_true, Bool.not_eq_true', List.all_eq_true,
      List.any_eq_false] at hplain
    refine allKept_plainBody (fun c hc => ?_) none column
    have hbreak := hplain.1.1.1.1.2 c hc
    refine isKept_of_isPlainChar (hplain.1.1.1.1.1.2 c hc) fun hnext => hbreak ?_
    simp [isBreak, hnext]
  · split
    · rename_i hsingle
      simp only [Bool.and_eq_true] at hsingle
      have hall : t.all isPlainChar = true := by
        have hstyle := hsingle.1
        simp only [Style.isSingle, Bool.and_eq_true] at hstyle
        exact hstyle.1
      have hkept : AllKept t := fun c hc =>
        isKept_of_isPlainChar (List.all_eq_true.mp hall c hc) (ht hsingle.1 c hc)
      exact .cons hquote (.append (allKept_singleBody hkept none _) (.cons hquote .nil))
    · exact .cons hdouble (.append (allKept_doubleBody true true _ t) (.cons hdouble .nil))

/-! ## Whole texts -/

/-- The line ends of such a text are in one form already. -/
theorem unifyBreaks_eq (h : AllKept text) : unifyBreaks text = text := by
  induction text with
  | nil => rfl
  | cons c text ih =>
    obtain ⟨hc, htext⟩ := allKept_cons.mp h
    have hsame : (c == '\r' || c.toNat == 0x85) = false := by
      simp [hc.ne_return, hc.ne_nextLine]
    rw [unifyBreaks]
    · rw [hsame, if_neg Bool.false_ne_true, ih htext]
    · intro rest hreturn
      exact absurd hreturn hc.ne_return

theorem all_isReadable (h : AllKept text) : text.all isReadable = true :=
  List.all_eq_true.mpr fun c hc => (h c hc).readable

end Yaml
end ScriptHost
