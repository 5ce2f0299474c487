import ScriptHost.Proofs.Number.Reading

/-!
# Positional notation of numbers

The text of a number has an exponent where the number is large or small, and otherwise a point, with
a zero behind it if the number is whole.  A display shows the same number without the exponent and
without that zero.  It writes the magnitude anew, but might as well edit the text: move the point,
and then take off what ends in a point and a zero.

* `Decimal.IsPositional`: the shape of positional notation.
* `Decimal.Normal`, `normal_normalize`: magnitudes whose coefficient does not end in zero; those
  never end in a point and a zero (`not_pointZero_positional`), so that nothing else is taken off.
* `Decimal.displayForm`: the text as it is edited, `displayForm_write`: the edit writes the
  magnitude of the text in positional notation.
* `Decimal.denoted?`: the number that a text stands for, `denoted?_write` and `denoted?_positional`:
  it is the same in either notation.
-/

namespace ScriptHost
namespace Decimal

open Floating

/-! ## Positional notation -/

/-- A sign or none, digits, and a point and further digits or nothing. -/
def IsPositional (text : List Char) : Prop :=
  ∃ neg whole tail, text = signText neg ++ (whole ++ tail) ∧ AllDigits whole ∧ whole ≠ [] ∧
    (tail = [] ∨ ∃ fraction, tail = '.' :: fraction ∧ AllDigits fraction ∧ fraction ≠ [])

theorem not_mem_of_allDigits {text : List Char} (h : AllDigits text) {c : Char}
    (hc : c.isDigit = false) : c ∉ text := fun hmem => by
  rw [h c hmem] at hc
  cases hc

theorem not_mem_signText (neg : Bool) {c : Char} (hc : c ≠ '-') : c ∉ signText neg := by
  cases neg with
  | true => exact fun h => hc (List.mem_singleton.mp h)
  | false => exact List.not_mem_nil

/-- Positional notation has no exponent. -/
theorem IsPositional.not_mem_e {text : List Char} (h : IsPositional text) : 'e' ∉ text := by
  obtain ⟨neg, whole, tail, rfl, hwhole, -, htail⟩ := h
  rw [List.mem_append, List.mem_append, not_or, not_or]
  refine ⟨not_mem_signText neg (by decide), not_mem_of_allDigits hwhole rfl, ?_⟩
  rcases htail with rfl | ⟨fraction, rfl, hfraction, -⟩
  · exact List.not_mem_nil
  · rw [List.mem_cons, not_or]
    exact ⟨by decide, not_mem_of_allDigits hfraction rfl⟩

theorem positional_of_nonneg {d : Decimal} (h : 0 ≤ d.exponent) :
    d.positional = digits (d.coefficient * 10 ^ d.exponent.toNat) := by
  rw [positional, if_pos h, Nat.pow_eq]

/-- The digits after the point are as many as the exponent says, so there is one at least. -/
theorem exists_positional_eq_ne_nil {d : Decimal} (h : d.exponent < 0) :
    ∃ whole fraction, d.positional = whole ++ '.' :: fraction ∧ AllDigits whole ∧ whole ≠ [] ∧
      AllDigits fraction ∧ fraction ≠ [] ∧ ofDigits (whole ++ fraction) = d.coefficient := by
  obtain ⟨whole, fraction, htext, hwhole, hne, hfraction, hvalue, hexponent⟩ :=
    exists_positional_eq h
  refine ⟨whole, fraction, htext, hwhole, hne, hfraction, ?_, hvalue⟩
  rintro rfl
  rw [hexponent, List.length_nil] at h
  exact absurd h (by decide)

/-- **A magnitude and its sign are written in positional notation.** -/
theorem isPositional_positional (neg : Bool) (d : Decimal) :
    IsPositional (signText neg ++ d.positional) := by
  rcases lt_or_ge d.exponent 0 with h | h
  · obtain ⟨whole, fraction, htext, hwhole, hne, hfraction, hfne, -⟩ :=
      exists_positional_eq_ne_nil h
    exact ⟨neg, whole, _, by rw [htext], hwhole, hne, .inr ⟨fraction, rfl, hfraction, hfne⟩⟩
  · rw [positional_of_nonneg h]
    exact ⟨neg, _, [], by rw [List.append_nil], allDigits_digits _, digits_ne_nil _, .inl rfl⟩

/-! ## Normal magnitudes -/

/-- The coefficient does not end in zero, unless the magnitude is zero itself. -/
def Normal (d : Decimal) : Prop := d.coefficient % 10 ≠ 0 ∨ d = ⟨0, 0⟩

theorem ofDigits_concat (text : List Char) (c : Char) :
    ofDigits (text ++ [c]) = 10 * ofDigits text + (c.toNat - 48) := by
  rw [ofDigits, List.foldl_append]
  rfl

/-- A digit at the end of a text is the last one of its number. -/
theorem ofDigits_concat_mod (text : List Char) {c : Char} (hc : c.isDigit = true) :
    ofDigits (text ++ [c]) % 10 = c.toNat - 48 := by
  have hbounds := Char.isDigit_iff_toNat.mp hc
  change 48 ≤ c.toNat ∧ c.toNat ≤ 57 at hbounds
  rw [ofDigits_concat]
  omega

/-- What is left of digits without the zeros at their end does not end in zero. -/
theorem ofDigits_dropWhile_mod_ne_zero {text : List Char} (h : AllDigits text)
    (hne : text.reverse.dropWhile (· == '0') ≠ []) :
    ofDigits (text.reverse.dropWhile (· == '0')).reverse % 10 ≠ 0 := by
  obtain ⟨last, front, hcons⟩ := List.exists_cons_of_ne_nil hne
  -- the digit that ends the search for zeros is not a zero
  have hzero : ¬ (last == '0') = true := by
    have hhead := List.head?_dropWhile_not (· == '0') text.reverse
    rw [hcons] at hhead
    simpa using hhead
  have hlast : last.isDigit = true := by
    have hmem : last ∈ text.reverse.dropWhile (· == '0') := hcons ▸ List.mem_cons_self
    exact h last (List.mem_reverse.mp ((List.dropWhile_sublist _).subset hmem))
  have hbounds := Char.isDigit_iff_toNat.mp hlast
  change 48 ≤ last.toNat ∧ last.toNat ≤ 57 at hbounds
  have hcode : last.toNat ≠ 48 := fun heq => hzero (beq_iff_eq.mpr (Char.toNat_inj.mp heq))
  rw [hcons, List.reverse_cons, ofDigits_concat_mod _ hlast]
  omega

/-- **The coefficient of a normalized magnitude does not end in zero.** -/
theorem normal_normalize (d : Decimal) : d.normalize.Normal := by
  by_cases hzero : d.coefficient = 0
  · exact .inr (by rw [normalize, if_pos hzero])
  · rw [normalize_of_ne_zero hzero]
    refine .inl (ofDigits_dropWhile_mod_ne_zero (allDigits_digits _) fun hnil => hzero ?_)
    have hm := eq_mul_pow d.coefficient
    rw [hnil] at hm
    exact hm.trans (Nat.zero_mul _)

theorem normal_shortest (F : Format) (rank : Nat) : (F.shortest rank).Normal := by
  rw [Format.shortest]
  split
  · exact .inr rfl
  · exact normal_normalize _

/-- What ends a whole number in its own text. -/
def pointZero : List Char := ['.', '0']

/-- A normal magnitude does not end in a point and a zero: a zero at the end of its digits after the
point would end its coefficient. -/
theorem not_pointZero_positional (neg : Bool) {d : Decimal} (h : d.Normal) :
    ¬ pointZero <:+ signText neg ++ d.positional := by
  intro hsuffix
  rcases lt_or_ge d.exponent 0 with hneg | hpos
  · obtain ⟨whole, fraction, htext, -, -, -, hne, hvalue⟩ := exists_positional_eq_ne_nil hneg
    obtain ⟨front, last, rfl⟩ := (List.eq_nil_or_concat fraction).resolve_left hne
    rw [htext, List.concat_eq_append, ← List.cons_append, ← List.append_assoc,
      ← List.append_assoc] at hsuffix
    obtain ⟨before, hbefore⟩ := hsuffix
    have hlast : last = '0' := by
      have hsplit := (List.append_inj' ((List.append_assoc before ['.'] ['0']).trans hbefore) rfl).2
      exact (List.singleton_inj.mp hsplit).symm
    rw [List.concat_eq_append, ← List.append_assoc, hlast] at hvalue
    rcases h with hmod | rfl
    · exact hmod (hvalue ▸ ofDigits_concat_mod _ rfl)
    · exact absurd hneg (by decide)
  · have hpoint : '.' ∈ signText neg ++ d.positional := hsuffix.subset List.mem_cons_self
    rw [positional_of_nonneg hpos, List.mem_append] at hpoint
    exact hpoint.elim (not_mem_signText neg (by decide))
      (not_mem_of_allDigits (allDigits_digits _) rfl)

/-! ## The text edited -/

/-- The text of a number with its exponent written out: the point is moved past the digits, or past
zeros where there are no more digits. -/
def expandExponent (text : List Char) : List Char :=
  if 'e' ∈ text then
    match read? (readSign text).2 with
    | some d => signText (readSign text).1 ++ d.positional
    | none => text
  else text

/-- The text of a number without a point and a zero that end it. -/
def dropPointZero (text : List Char) : List Char :=
  if pointZero <:+ text then text.take (text.length - 2) else text

/-- The text of a number as it is displayed. -/
def displayForm (text : List Char) : List Char := dropPointZero (expandExponent text)

theorem expandExponent_of_not_mem {text : List Char} (h : 'e' ∉ text) :
    expandExponent text = text := if_neg h

theorem dropPointZero_of_not_suffix {text : List Char} (h : ¬ pointZero <:+ text) :
    dropPointZero text = text := if_neg h

theorem dropPointZero_append (text : List Char) : dropPointZero (text ++ pointZero) = text := by
  rw [dropPointZero, if_pos (List.suffix_append _ _), List.length_append]
  exact List.take_left

theorem mem_scientific (style : NumberStyle) (d : Decimal) : 'e' ∈ style.scientific d := by
  rw [NumberStyle.scientific, NumberStyle.exponentText]
  exact List.mem_append_right _ List.mem_cons_self

/-- An exponent is written out to positional notation. -/
theorem expandExponent_scientific (neg : Bool) (style : NumberStyle) (d : Decimal) :
    expandExponent (signText neg ++ style.scientific d) = signText neg ++ d.positional := by
  rw [expandExponent, if_pos (List.mem_append_right _ (mem_scientific style d)),
    readSign_signed neg (style.written_scientific d)]
  simp only [style.read?_scientific d]

/-- **The edit writes a normal magnitude in positional notation**, whether its text has an exponent,
a zero after the point, or other digits there. -/
theorem displayForm_write (neg : Bool) {d : Decimal} (h : d.Normal) :
    displayForm (signText neg ++ NumberStyle.standard.write d) = signText neg ++ d.positional := by
  have hplain := (isPositional_positional neg d).not_mem_e
  have hend := not_pointZero_positional neg h
  rw [displayForm, NumberStyle.write]
  split
  · rw [expandExponent_scientific, dropPointZero_of_not_suffix hend]
  · split
    · have hnot : 'e' ∉ (signText neg ++ d.positional) ++ pointZero := by
        rw [List.mem_append, not_or]
        exact ⟨hplain, by decide⟩
      change dropPointZero (expandExponent (signText neg ++ (d.positional ++ pointZero))) = _
      rw [← List.append_assoc, expandExponent_of_not_mem hnot, dropPointZero_append]
    · rw [expandExponent_of_not_mem hplain, dropPointZero_of_not_suffix hend]

/-! ## The number that a text stands for -/

/-- The number that a text stands for, if it is a sign or none and a magnitude. -/
def denoted? (text : List Char) : Option ℚ :=
  (read? (readSign text).2).map fun d => if (readSign text).1 then -d.value else d.value

theorem denoted?_signed (neg : Bool) {body : List Char} (h : Written body) {d : Decimal}
    (hread : read? body = some d) :
    denoted? (signText neg ++ body) = some (if neg then -d.value else d.value) := by
  rw [denoted?, readSign_signed neg h, hread]
  rfl

/-- A text with an exponent or with a point stands for its magnitude … -/
theorem denoted?_write (neg : Bool) (d : Decimal) :
    denoted? (signText neg ++ NumberStyle.standard.write d) =
      some (if neg then -d.value else d.value) := by
  obtain ⟨d', hread, hvalue⟩ := NumberStyle.exists_read?_write d
  rw [denoted?_signed neg (NumberStyle.written_write d) hread, hvalue]

/-- … and so does one in positional notation. -/
theorem denoted?_positional (neg : Bool) (d : Decimal) :
    denoted? (signText neg ++ d.positional) = some (if neg then -d.value else d.value) := by
  obtain ⟨d', hread, hvalue⟩ := exists_read?_positional d
  rw [denoted?_signed neg (written_positional d) hread, hvalue]

end Decimal
end ScriptHost
