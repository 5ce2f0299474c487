import ScriptHost.Number.Decimal
import Mathlib.Algebra.Order.Field.Basic
import Mathlib.Data.List.TakeDrop
import Mathlib.Data.List.TakeWhile
import Mathlib.Data.Rat.Cast.Order
import Mathlib.Tactic

/-!
# Decimal texts and their values

A decimal stands for a rational number, `Decimal.value`.  Whatever is written can be read, and what
is read has the value of what was written; the decimal itself comes back unless it was written with
more digits than it has.

* `Decimal.normalize_of_ne_zero`, `Decimal.value_normalize`: the zeros at the end of a coefficient
  become part of the exponent, and the value is the same.
* `Decimal.le_value`, `Decimal.value_lt`: where the first digit stands.
* `Decimal.read?_whole`, `Decimal.read?_point`: what is read from digits with and without a point.
* `Decimal.exists_read?_positional`, `NumberStyle.exists_read?_write`: the value comes back.
* `Decimal.written_positional`, `NumberStyle.written_write`: the characters that are used.
-/

namespace ScriptHost
namespace Decimal

/-! ## The digits of a number -/

/-- Nothing but digits. -/
def AllDigits (text : List Char) : Prop := ∀ c ∈ text, c.isDigit = true

theorem AllDigits.append {text more : List Char} (h : AllDigits text) (h' : AllDigits more) :
    AllDigits (text ++ more) := by
  intro c hc
  rcases List.mem_append.mp hc with hc | hc
  exacts [h c hc, h' c hc]

theorem AllDigits.of_cons {first : Char} {rest : List Char} (h : AllDigits (first :: rest)) :
    AllDigits [first] ∧ AllDigits rest := by
  refine ⟨fun c hc => ?_, fun c hc => h c (List.mem_cons_of_mem first hc)⟩
  rw [List.mem_singleton.mp hc]
  exact h first List.mem_cons_self

theorem allDigits_nil : AllDigits [] := fun _ hc => absurd hc List.not_mem_nil

theorem allDigits_digits (n : Nat) : AllDigits (digits n) := fun _ hc =>
  Nat.isDigit_of_mem_toDigits (by decide) (by decide) hc

theorem allDigits_zeros (n : Nat) : AllDigits (List.replicate n '0') := by
  intro c hc
  rw [List.eq_of_mem_replicate hc]
  rfl

theorem digits_ne_nil (n : Nat) : digits n ≠ [] := Nat.toDigits_ne_nil

@[simp] theorem ofDigits_digits (n : Nat) : ofDigits (digits n) = n :=
  Nat.ofDigitChars_ten_toDigits

theorem ofDigits_zeros_append (n : Nat) (text : List Char) :
    ofDigits (List.replicate n '0' ++ text) = ofDigits text := by
  have hzeros : Nat.ofDigitChars 10 (List.replicate n '0') 0 = 0 := by
    rw [Nat.ofDigitChars_replicate_zero, Nat.mul_zero]
  calc ofDigits (List.replicate n '0' ++ text)
      = Nat.ofDigitChars 10 text (Nat.ofDigitChars 10 (List.replicate n '0') 0) :=
        Nat.ofDigitChars_append 0
    _ = ofDigits text := by rw [hzeros]; rfl

theorem ofDigits_append_zeros (text : List Char) (n : Nat) :
    ofDigits (text ++ List.replicate n '0') = 10 ^ n * ofDigits text := by
  calc ofDigits (text ++ List.replicate n '0')
      = Nat.ofDigitChars 10 (List.replicate n '0') (ofDigits text) := Nat.ofDigitChars_append 0
    _ = 10 ^ n * ofDigits text := Nat.ofDigitChars_replicate_zero

theorem lt_pow_length (n : Nat) : n < 10 ^ (digits n).length :=
  (Nat.length_toDigits_le_iff (by decide) Nat.length_toDigits_pos).mp le_rfl

theorem pow_length_le {n : Nat} (hn : n ≠ 0) : 10 ^ ((digits n).length - 1) ≤ n := by
  rcases Nat.eq_zero_or_pos ((digits n).length - 1) with hzero | hpos
  · rw [hzero, Nat.pow_zero]
    exact Nat.one_le_iff_ne_zero.mpr hn
  · by_contra hlt
    have hle := (Nat.length_toDigits_le_iff (b := 10) (by decide) hpos).mpr (Nat.lt_of_not_le hlt)
    change (digits n).length ≤ _ at hle
    omega

/-! ## Values -/

/-- The number that a decimal stands for. -/
def value (d : Decimal) : ℚ := d.coefficient * 10 ^ d.exponent

theorem value_nonneg (d : Decimal) : 0 ≤ d.value := by
  rw [value]
  positivity

theorem value_pos {d : Decimal} (h : d.coefficient ≠ 0) : 0 < d.value := by
  have hpos : (0 : ℚ) < d.coefficient := by exact_mod_cast Nat.pos_of_ne_zero h
  rw [value]
  positivity

/-- The first digit of a coefficient shows how large it is. -/
theorem leading_add_one (d : Decimal) :
    d.leading + 1 = d.exponent + ((digits d.coefficient).length : Nat) := by
  have hpos : 0 < (digits d.coefficient).length := Nat.length_toDigits_pos
  rw [leading]
  omega

/-- **A magnitude is not less than the power of ten of its first digit …** -/
theorem le_value {d : Decimal} (h : d.coefficient ≠ 0) : (10 : ℚ) ^ d.leading ≤ d.value := by
  have hle : (10 : ℚ) ^ ((digits d.coefficient).length - 1) ≤ d.coefficient := by
    exact_mod_cast pow_length_le h
  rw [leading, zpow_add₀ (by norm_num), mul_comm, zpow_natCast, value]
  gcongr

/-- **… and less than the next one.** -/
theorem value_lt (d : Decimal) : d.value < (10 : ℚ) ^ (d.leading + 1) := by
  have hlt : (d.coefficient : ℚ) < 10 ^ (digits d.coefficient).length := by
    exact_mod_cast lt_pow_length d.coefficient
  rw [leading_add_one, zpow_add₀ (by norm_num), mul_comm, zpow_natCast, value]
  gcongr

theorem value_of_nonneg {d : Decimal} (h : 0 ≤ d.exponent) :
    d.value = (d.coefficient * 10 ^ d.exponent.toNat : Nat) := by
  obtain ⟨e, he⟩ := Int.eq_ofNat_of_zero_le h
  rw [value, he, Int.toNat_natCast, zpow_natCast]
  push_cast
  rfl

/-- The digits of a number end in the zeros that are counted from their end. -/
theorem digits_eq_append_zeros (n : Nat) :
    digits n = ((digits n).reverse.dropWhile (· == '0')).reverse ++
      List.replicate ((digits n).reverse.takeWhile (· == '0')).length '0' := by
  set zeros := (digits n).reverse.takeWhile (· == '0') with hzeros
  have hzero : ∀ c ∈ zeros, c = '0' := fun c hc => by
    have hbeq := List.mem_takeWhile_imp hc
    exact eq_of_beq hbeq
  have hall : zeros = List.replicate zeros.length '0' := List.eq_replicate_iff.mpr ⟨rfl, hzero⟩
  calc digits n
      = (zeros ++ (digits n).reverse.dropWhile (· == '0')).reverse := by
        rw [hzeros, List.takeWhile_append_dropWhile, List.reverse_reverse]
    _ = ((digits n).reverse.dropWhile (· == '0')).reverse ++ zeros.reverse := List.reverse_append
    _ = _ := by
        nth_rewrite 1 [hall]
        rw [List.reverse_replicate]

/-- The zeros at the end of the digits are those of the number. -/
theorem eq_mul_pow (n : Nat) :
    n = ofDigits ((digits n).reverse.dropWhile (· == '0')).reverse *
      10 ^ ((digits n).reverse.takeWhile (· == '0')).length := by
  rw [Nat.mul_comm, ← ofDigits_append_zeros, ← digits_eq_append_zeros, ofDigits_digits]

/-- A magnitude other than zero is normalized to its digits without the zeros at their end. -/
theorem normalize_of_ne_zero {d : Decimal} (h : d.coefficient ≠ 0) :
    d.normalize = ⟨ofDigits ((digits d.coefficient).reverse.dropWhile (· == '0')).reverse,
      d.exponent + ((digits d.coefficient).reverse.takeWhile (· == '0')).length⟩ := by
  have hdiv := Nat.div_eq_of_eq_mul_left (Nat.pow_pos (by decide)) (eq_mul_pow d.coefficient)
  rw [normalize, if_neg h, ← hdiv]
  rfl

/-- A coefficient that does not end in zero does not change the value. -/
theorem value_normalize (d : Decimal) : d.normalize.value = d.value := by
  by_cases hzero : d.coefficient = 0
  · rw [normalize, if_pos hzero, value, value, hzero]
    norm_num
  · have hm := eq_mul_pow d.coefficient
    rw [normalize_of_ne_zero hzero, value, value]
    set m := ofDigits ((digits d.coefficient).reverse.dropWhile (· == '0')).reverse
    set zeros := ((digits d.coefficient).reverse.takeWhile (· == '0')).length
    have hcast : (d.coefficient : ℚ) = m * 10 ^ zeros := by exact_mod_cast hm
    rw [hcast, zpow_add₀ (by norm_num), zpow_natCast]
    ring

/-! ## Reading digits with and without a point -/

theorem readDigits?_eq {text : List Char} (h : AllDigits text) (hne : text ≠ []) :
    readDigits? text = some text := by
  induction text with
  | nil => exact absurd rfl hne
  | cons c rest ih =>
    have hc : c.isDigit = true := h c List.mem_cons_self
    rw [readDigits?.eq_def]
    cases rest with
    | nil => simp [hc]
    | cons d more =>
      have hrest : AllDigits (d :: more) := fun e he => h e (List.mem_cons_of_mem c he)
      have hd : d ≠ '_' := by
        rintro rfl
        exact absurd (hrest '_' List.mem_cons_self) (by decide)
      simp [hc, ih hrest (List.cons_ne_nil d more)]

theorem readBlock?_eq {text : List Char} (h : AllDigits text) : readBlock? text = some text := by
  cases text with
  | nil => rfl
  | cons c rest => exact readDigits?_eq h (List.cons_ne_nil c rest)

/-- What may follow the digits of a magnitude: nothing or an exponent. -/
def AtMark (rest : List Char) : Prop := ∀ c ∈ rest.head?, c = 'e'

theorem atMark_nil : AtMark [] := by
  intro c hc
  simp at hc

/-- A block of digits goes on to the first character that cannot stand in it. -/
theorem span_allDigits {text rest : List Char} (h : AllDigits text)
    (hrest : ∀ c ∈ rest.head?, (c.isDigit || c == '_') = false) :
    (text ++ rest).span (fun c => c.isDigit || c == '_') = (text, rest) := by
  have hin : ∀ c ∈ text, (c.isDigit || c == '_') = true := fun c hc => by
    rw [h c hc, Bool.true_or]
  rw [List.span_eq_takeWhile_dropWhile, List.takeWhile_append_of_pos hin,
    List.dropWhile_append_of_pos hin]
  cases rest with
  | nil => simp
  | cons c more =>
    have hc : (c.isDigit || c == '_') = false := hrest c rfl
    rw [List.takeWhile_cons_of_neg (by simp [hc]), List.dropWhile_cons_of_neg (by simp [hc]),
      List.append_nil]

theorem span_allDigits_mark {text rest : List Char} (h : AllDigits text) (hrest : AtMark rest) :
    (text ++ rest).span (fun c => c.isDigit || c == '_') = (text, rest) := by
  refine span_allDigits h fun c hc => ?_
  rw [hrest c hc]
  rfl

/-- The parts of a magnitude make up its decimal. -/
theorem assembled {whole fraction : List Char} (h : AllDigits whole) (hne : whole ≠ [])
    (h' : AllDigits fraction) (rest : List Char) :
    (if (whole.isEmpty && fraction.isEmpty) = true then none
      else do
        let high ← readBlock? whole
        let low ← readBlock? fraction
        let exponent ← readExponent? rest
        some (⟨ofDigits (high ++ low), exponent - low.length⟩ : Decimal)) =
      (readExponent? rest).map fun e => ⟨ofDigits (whole ++ fraction), e - fraction.length⟩ := by
  have hempty : whole.isEmpty = false := by simpa using hne
  rw [hempty, readBlock?_eq h, readBlock?_eq h', Bool.false_and, if_neg Bool.false_ne_true]
  cases readExponent? rest <;> rfl

/-- Digits with a point. -/
theorem read?_point {whole fraction rest : List Char} (h : AllDigits whole) (hne : whole ≠ [])
    (h' : AllDigits fraction) (hrest : AtMark rest) :
    read? (whole ++ '.' :: (fraction ++ rest)) =
      (readExponent? rest).map fun e => ⟨ofDigits (whole ++ fraction), e - fraction.length⟩ := by
  have hpoint : ∀ c ∈ ('.' :: (fraction ++ rest)).head?, (c.isDigit || c == '_') = false := by
    rintro c ⟨rfl⟩
    rfl
  rw [read?, span_allDigits h hpoint]
  simp only [span_allDigits_mark h' hrest]
  exact assembled h hne h' rest

/-- Digits without a point. -/
theorem read?_whole {whole rest : List Char} (h : AllDigits whole) (hne : whole ≠ [])
    (hrest : AtMark rest) :
    read? (whole ++ rest) = (readExponent? rest).map fun e => ⟨ofDigits whole, e⟩ := by
  have hparts := assembled h hne allDigits_nil rest
  simp only [List.append_nil, List.length_nil, Nat.cast_zero, sub_zero] at hparts
  rw [read?, span_allDigits_mark h hrest, ← hparts]
  cases rest with
  | nil => rfl
  | cons c more =>
    obtain rfl : c = 'e' := hrest c rfl
    rfl

end Decimal

namespace NumberStyle

open Decimal

/-- An exponent comes back, whatever the number of its digits. -/
theorem readExponent?_exponentText (style : NumberStyle) (n : Int) :
    readExponent? (style.exponentText n) = some n := by
  set zeros := List.replicate (style.exponentDigits - (digits n.natAbs).length) '0' with hzeros
  have hread : readDigits? (zeros ++ digits n.natAbs) = some (zeros ++ digits n.natAbs) :=
    readDigits?_eq ((allDigits_zeros _).append (allDigits_digits _))
      (List.append_ne_nil_of_right_ne_nil _ (digits_ne_nil _))
  have hvalue : ofDigits (zeros ++ digits n.natAbs) = n.natAbs := by
    rw [hzeros, ofDigits_zeros_append, ofDigits_digits]
  rw [exponentText, ← hzeros]
  rcases lt_or_ge n 0 with hn | hn
  · have hneg : -(n.natAbs : Int) = n := by omega
    rw [if_pos hn]
    simp only [readExponent?, readSign, hread, hvalue, hneg, Option.map_some, beq_self_eq_true,
      Bool.true_or, if_true]
  · have hpos : (n.natAbs : Int) = n := by omega
    rw [if_neg (not_lt.mpr hn)]
    simp only [readExponent?, readSign, hread, hvalue, hpos, Option.map_some, beq_self_eq_true,
      Bool.true_or, if_true, Bool.false_eq_true, if_false]

theorem atMark_exponentText (style : NumberStyle) (n : Int) : AtMark (style.exponentText n) := by
  rintro c ⟨rfl⟩
  rfl

/-- **A magnitude with an exponent comes back as it was.** -/
theorem read?_scientific (style : NumberStyle) (d : Decimal) :
    read? (style.scientific d) = some d := by
  have hdigits := allDigits_digits d.coefficient
  have hvalue := ofDigits_digits d.coefficient
  have hleading := d.leading_add_one
  rw [scientific]
  rcases htext : digits d.coefficient with _ | ⟨first, _ | ⟨second, more⟩⟩
  · exact absurd htext (digits_ne_nil d.coefficient)
  · rw [htext] at hdigits hvalue hleading
    rw [read?_whole hdigits (List.cons_ne_nil _ _) (style.atMark_exponentText _),
      readExponent?_exponentText, Option.map_some, hvalue]
    have hexponent : d.leading = d.exponent := by
      rw [List.length_singleton] at hleading
      omega
    rw [hexponent]
  · rw [htext] at hdigits hvalue hleading
    have hread := read?_point hdigits.of_cons.1 (List.cons_ne_nil _ _) hdigits.of_cons.2
      (style.atMark_exponentText d.leading)
    rw [readExponent?_exponentText, Option.map_some, List.singleton_append, List.singleton_append,
      hvalue] at hread
    have hexponent : d.leading - ((second :: more).length : Nat) = d.exponent := by
      rw [List.length_cons] at hleading
      omega
    rw [hexponent] at hread
    exact hread

end NumberStyle

namespace Decimal

/-- A magnitude that has digits after its point is split between two of its digits. -/
theorem exists_positional_eq {d : Decimal} (h : d.exponent < 0) :
    ∃ whole fraction, d.positional = whole ++ '.' :: fraction ∧ AllDigits whole ∧ whole ≠ [] ∧
      AllDigits fraction ∧ ofDigits (whole ++ fraction) = d.coefficient ∧
      d.exponent = -(fraction.length : Int) := by
  obtain ⟨places, hplaces⟩ := Int.exists_eq_neg_ofNat h.le
  rw [positional, if_neg (not_le.mpr h)]
  simp only [hplaces, neg_neg, Int.toNat_natCast]
  set padded := List.replicate (places + 1 - (digits d.coefficient).length) '0' ++
    digits d.coefficient with hpadded
  have hdigits : AllDigits padded := (allDigits_zeros _).append (allDigits_digits _)
  have hlength : places < padded.length := by
    rw [hpadded, List.length_append, List.length_replicate]
    omega
  have hdropped : (padded.drop (padded.length - places)).length = places := by
    rw [List.length_drop]
    omega
  refine ⟨_, _, rfl, fun c hc => hdigits c (List.mem_of_mem_take hc), ?_,
    fun c hc => hdigits c (List.mem_of_mem_drop hc), ?_, by rw [hdropped]⟩
  · refine List.ne_nil_of_length_pos ?_
    rw [List.length_take]
    omega
  · rw [List.take_append_drop, hpadded, ofDigits_zeros_append, ofDigits_digits]

/-- The text of a magnitude that has digits after its point comes back as it was. -/
theorem read?_positional_of_neg {d : Decimal} (h : d.exponent < 0) :
    read? d.positional = some d := by
  obtain ⟨whole, fraction, htext, hwhole, hne, hfraction, hvalue, hexponent⟩ :=
    exists_positional_eq h
  have hread := read?_point hwhole hne hfraction atMark_nil
  rw [List.append_nil, readExponent?, Option.map_some, hvalue, zero_sub, ← hexponent] at hread
  rw [htext, hread]

/-- A whole number comes back with its zeros. -/
theorem read?_positional_of_nonneg {d : Decimal} (h : 0 ≤ d.exponent) :
    read? d.positional = some ⟨d.coefficient * 10 ^ d.exponent.toNat, 0⟩ := by
  have hread := read?_whole (allDigits_digits (d.coefficient * 10 ^ d.exponent.toNat))
    (digits_ne_nil _) atMark_nil
  rw [List.append_nil, readExponent?, Option.map_some, ofDigits_digits] at hread
  rw [positional, if_pos h]
  exact hread

/-- **The value of a magnitude comes back from positional notation.** -/
theorem exists_read?_positional (d : Decimal) :
    ∃ d', read? d.positional = some d' ∧ d'.value = d.value := by
  rcases lt_or_ge d.exponent 0 with h | h
  · exact ⟨d, read?_positional_of_neg h, rfl⟩
  · refine ⟨_, read?_positional_of_nonneg h, ?_⟩
    rw [value_of_nonneg h, value_of_nonneg le_rfl]
    simp

end Decimal

namespace NumberStyle

open Decimal

/-- **The value of a magnitude comes back from its text.** -/
theorem exists_read?_write (d : Decimal) :
    ∃ d', read? (standard.write d) = some d' ∧ d'.value = d.value := by
  rw [write]
  split
  · exact ⟨d, standard.read?_scientific d, rfl⟩
  · split
    · rename_i h
      have hread := read?_point (allDigits_digits (d.coefficient * 10 ^ d.exponent.toNat))
        (digits_ne_nil _) (allDigits_zeros 1) atMark_nil
      rw [readExponent?, Option.map_some, ofDigits_append_zeros, ofDigits_digits] at hread
      rw [positional, if_pos h]
      refine ⟨_, hread, ?_⟩
      rw [value_of_nonneg h, value, List.length_replicate]
      push_cast
      rw [zpow_neg_one]
      ring
    · exact exists_read?_positional d

end NumberStyle

/-! ## The characters of a text -/

namespace Decimal

/-- A digit, or one of the few other characters that a magnitude is written with. -/
def InNumber (c : Char) : Prop := c.isDigit = true ∨ c ∈ ['.', 'e', '+', '-']

/-- A text that begins with a digit and has no other characters than those of a number. -/
structure Written (text : List Char) : Prop where
  head : ∀ c ∈ text.head?, c.isDigit = true
  all : ∀ c ∈ text, InNumber c

/-- Digits and what follows them. -/
theorem AllDigits.written {whole : List Char} (h : AllDigits whole) (hne : whole ≠ [])
    {rest : List Char} (hrest : ∀ c ∈ rest, InNumber c) : Written (whole ++ rest) where
  head c hc := by
    rw [List.head?_append_of_ne_nil _ hne] at hc
    exact h c (List.mem_of_mem_head? hc)
  all c hc := (List.mem_append.mp hc).elim (fun hc => .inl (h c hc)) (hrest c)

/-- A point and digits after it. -/
theorem AllDigits.inNumber_point {fraction : List Char} (h : AllDigits fraction) {rest : List Char}
    (hrest : ∀ c ∈ rest, InNumber c) : ∀ c ∈ '.' :: (fraction ++ rest), InNumber c := by
  intro c hc
  rcases List.mem_cons.mp hc with rfl | hc
  · exact .inr List.mem_cons_self
  · exact (List.mem_append.mp hc).elim (fun hc => .inl (h c hc)) (hrest c)

theorem inNumber_nil : ∀ c ∈ [], InNumber c := fun _ hc => absurd hc List.not_mem_nil

theorem written_positional (d : Decimal) : Written d.positional := by
  rcases lt_or_ge d.exponent 0 with h | h
  · obtain ⟨whole, fraction, htext, hwhole, hne, hfraction, -, -⟩ := exists_positional_eq h
    rw [htext, ← List.append_nil fraction]
    exact hwhole.written hne (hfraction.inNumber_point inNumber_nil)
  · rw [positional, if_pos h, ← List.append_nil (digits _)]
    exact (allDigits_digits _).written (digits_ne_nil _) inNumber_nil

end Decimal

namespace NumberStyle

open Decimal

theorem inNumber_exponentText (style : NumberStyle) (n : Int) :
    ∀ c ∈ style.exponentText n, InNumber c := by
  have hdigits : AllDigits (List.replicate (style.exponentDigits - (digits n.natAbs).length) '0' ++
      digits n.natAbs) := (allDigits_zeros _).append (allDigits_digits _)
  intro c hc
  rw [exponentText, List.mem_cons, List.mem_cons] at hc
  rcases hc with rfl | rfl | hc
  · exact .inr (by decide)
  · split
    exacts [.inr (by decide), .inr (by decide)]
  · exact .inl (hdigits c hc)

theorem written_scientific (style : NumberStyle) (d : Decimal) : Written (style.scientific d) := by
  have hdigits := allDigits_digits d.coefficient
  have hexponent := style.inNumber_exponentText d.leading
  rw [scientific]
  rcases htext : digits d.coefficient with _ | ⟨first, _ | ⟨second, more⟩⟩
  · exact absurd htext (digits_ne_nil d.coefficient)
  · rw [htext] at hdigits
    exact hdigits.written (List.cons_ne_nil _ _) hexponent
  · rw [htext] at hdigits
    exact hdigits.of_cons.1.written (List.cons_ne_nil _ _)
      (hdigits.of_cons.2.inNumber_point hexponent)

theorem written_write (d : Decimal) : Written (standard.write d) := by
  rw [write]
  split
  · exact standard.written_scientific d
  · split
    · rename_i h
      rw [positional, if_pos h]
      exact (allDigits_digits _).written (digits_ne_nil _)
        ((allDigits_zeros 1).inNumber_point inNumber_nil)
    · exact written_positional d

end NumberStyle
end ScriptHost
