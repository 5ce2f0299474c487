import ScriptHost.Number.Reading
import ScriptHost.Proofs.Number.Shortest
import Mathlib.Tactic

/-!
# Numbers come back from their texts

The text of a double, exact or in positional notation, is read as that double.  What was read is the
double nearest to the value of the text; a text with digits has no blanks, is not taken for a word,
and a magnitude far outside of the format is rounded like any other.

* `Format.value_finiteCount`: what the first magnitude is that a format does not have.
* `Floating.ofDecimal_eq`: reading a decimal rounds its value, however large or small it is.
* `readDouble?_signed`: what is read from a sign and the text of a magnitude.
* `Floating.readDouble?_text`, `Floating.readDouble?_positionalText`: doubles come back.
-/

namespace ScriptHost

/-! ## Rounding outside of the format -/

namespace Format

variable {F : Format}

/-- The formats that have more than one bit for a fraction, and one at least for an exponent. -/
structure Proper (F : Format) : Prop where
  fraction : 2 ≤ F.fractionBits
  exponent : 0 < F.exponentBits

theorem double_proper : double.Proper := ⟨by decide, by decide⟩

theorem single_proper : single.Proper := ⟨by decide, by decide⟩

theorem Proper.unitScale_eq (h : F.Proper) :
    F.unitScale + 2 = 2 ^ (F.exponentBits - 1) + F.fractionBits := by
  have hpos := Nat.two_pow_pos (F.exponentBits - 1)
  have hfraction := h.fraction
  rw [unitScale, Nat.pow_eq]
  omega

/-- The first magnitude that a format does not have. -/
theorem Proper.value_finiteCount (h : F.Proper) :
    F.value F.finiteCount = 2 ^ 2 ^ (F.exponentBits - 1) := by
  obtain ⟨e, he⟩ := Nat.exists_eq_succ_of_ne_zero h.exponent.ne'
  have hscale := h.unitScale_eq
  have hpos := Nat.two_pow_pos e
  have hcount : F.finiteCount = (2 * 2 ^ e - 2 + 1) * 2 ^ F.fractionBits + 0 := by
    rw [finiteCount, he, Nat.pow_eq, Nat.pow_eq, Nat.pow_succ, Nat.add_zero]
    congr 1
    omega
  rw [he, Nat.succ_sub_one] at hscale ⊢
  rw [value, hcount, F.units_add (Nat.zero_le _), Nat.add_zero, ← Nat.pow_add, Nat.cast_pow,
    Nat.cast_ofNat, div_eq_iff (by positivity), ← pow_add]
  congr 1
  omega

/-- A magnitude that is far less than the unit is rounded to zero. -/
theorem Proper.nearest_eq_zero (h : F.Proper) {v : ℚ} (hv : 0 ≤ v)
    (hlt : v < 10 ^ (-(F.unitScale : Int))) : F.nearest v = 0 := by
  have hscale := h.unitScale_eq
  have hpos := Nat.two_pow_pos (F.exponentBits - 1)
  have hfraction := h.fraction
  obtain ⟨n, hn⟩ : ∃ n, F.unitScale = n + 1 := ⟨F.unitScale - 1, by omega⟩
  have hpow : (2 : ℚ) * 2 ^ F.unitScale ≤ 10 ^ F.unitScale := by
    have hle : (2 : ℚ) ^ n ≤ 10 ^ n := by gcongr; norm_num
    have hone : (0 : ℚ) < 2 ^ n := by positivity
    rw [hn, pow_succ, pow_succ]
    linarith
  have hunit : F.value 1 = 1 / 2 ^ F.unitScale := by
    have hblock : 1 < 2 ^ F.fractionBits := Nat.one_lt_two_pow (by omega)
    rw [value, F.units_of_lt hblock, Nat.cast_one]
  rw [zpow_neg, zpow_natCast, ← one_div, lt_div_iff₀ (by positivity)] at hlt
  by_contra hne
  have hone : F.value 1 ≤ F.value (F.nearest v) :=
    F.strictMono_value.monotone (Nat.one_le_iff_ne_zero.mpr hne)
  have hnearest := F.abs_value_nearest_sub_le hv 0
  rw [F.value_zero, zero_sub, abs_neg, abs_of_nonneg hv, abs_le] at hnearest
  have hunit : 1 / 2 ^ F.unitScale ≤ 2 * v := by
    rw [← hunit]
    linarith
  rw [div_le_iff₀ (by positivity)] at hunit
  have hgrow := mul_le_mul_of_nonneg_left hpow hv
  linarith

/-- A magnitude that is far greater than all of a format is rounded to none of it. -/
theorem Proper.finiteCount_le_nearest (h : F.Proper) {v : ℚ}
    (hle : 10 ^ ((F.unitScale : Int) + 1) ≤ v) : F.finiteCount ≤ F.nearest v := by
  have hscale := h.unitScale_eq
  have hfraction := h.fraction
  have hpow : (2 : ℚ) ^ 2 ^ (F.exponentBits - 1) ≤ 10 ^ (F.unitScale + 1) :=
    calc (2 : ℚ) ^ 2 ^ (F.exponentBits - 1)
        ≤ 2 ^ (F.unitScale + 1) := pow_le_pow_right₀ (by norm_num) (by omega)
      _ ≤ 10 ^ (F.unitScale + 1) := by gcongr; norm_num
  have hcast : (10 : ℚ) ^ ((F.unitScale : Int) + 1) = 10 ^ (F.unitScale + 1) := by
    exact_mod_cast zpow_natCast (10 : ℚ) (F.unitScale + 1)
  rw [hcast] at hle
  refine F.le_nearest (le_trans (by positivity) hle) ?_
  rw [h.value_finiteCount]
  exact hpow.trans hle

end Format

namespace Floating

variable {F : Format}

theorem ofRank_of_lt (neg : Bool) {rank : Nat} (h : rank < F.finiteCount) :
    ofRank F neg rank = .finite neg ⟨rank, h⟩ := dif_pos h

theorem ofRank_of_ge (neg : Bool) {rank : Nat} (h : F.finiteCount ≤ rank) :
    ofRank F neg rank = .infinite neg := dif_neg (Nat.not_lt_of_le h)

theorem ofRank_rank (neg : Bool) (rank : Fin F.finiteCount) :
    ofRank F neg rank = .finite neg rank := ofRank_of_lt neg rank.isLt

/-- **Reading a decimal rounds its value, also where the powers of ten are not looked at.** -/
theorem ofDecimal_eq (h : F.Proper) (neg : Bool) (d : Decimal) :
    ofDecimal F neg d = ofRank F neg (F.nearest d.value) := by
  rw [ofDecimal]
  split
  · rename_i hsmall
    rcases hsmall with hzero | hsmall
    · have hvalue : d.value = F.value 0 := by
        rw [Decimal.value, hzero, Nat.cast_zero, zero_mul, F.value_zero]
      rw [hvalue, F.nearest_value]
    · have hlt : d.value < 10 ^ (-(F.unitScale : Int)) :=
        d.value_lt.trans_le (zpow_le_zpow_right₀ (by norm_num) (by omega))
      rw [h.nearest_eq_zero d.value_nonneg hlt]
  · rename_i hsmall
    rw [not_or] at hsmall
    split
    · rename_i hlarge
      have hle : (10 : ℚ) ^ ((F.unitScale : Int) + 1) ≤ d.value :=
        (zpow_le_zpow_right₀ (by norm_num) (by omega)).trans (Decimal.le_value hsmall.1)
      rw [ofRank_of_ge neg (h.finiteCount_le_nearest hle)]
    · rw [F.rankOfDecimal_eq]

end Floating

/-! ## Reading a text with digits -/

namespace Decimal

/-- The characters of a number are in ASCII, behind the blanks. -/
theorem InNumber.toNat_bounds {c : Char} (h : InNumber c) : 43 ≤ c.toNat ∧ c.toNat < 128 := by
  rcases h with hdigit | hother
  · have hbounds := Char.isDigit_iff_toNat.mp hdigit
    change 48 ≤ c.toNat ∧ c.toNat ≤ 57 at hbounds
    omega
  · simp only [List.mem_cons, List.not_mem_nil, or_false] at hother
    rcases hother with rfl | rfl | rfl | rfl <;> decide

theorem InNumber.not_blank {c : Char} (h : InNumber c) : Text.isAsciiBlank c = false := by
  have hbounds := h.toNat_bounds
  have hspace : c ≠ ' ' := by
    rintro rfl
    exact absurd hbounds.1 (by decide)
  rw [Text.isAsciiBlank, beq_eq_false_iff_ne.mpr hspace, Bool.false_or, Bool.and_eq_false_iff]
  exact .inr (decide_eq_false (by omega))

/-- A written magnitude does not begin with a sign or a letter. -/
theorem Written.head?_ne {text : List Char} (h : Written text) {c : Char}
    (hc : c.isDigit = false) : text.head? ≠ some c := by
  intro hhead
  rw [h.head c hhead] at hc
  cases hc

end Decimal

open Decimal

/-- What has no blanks is not trimmed. -/
theorem trimBlanks_eq {text : List Char} (h : ∀ c ∈ text, Text.isAsciiBlank c = false) :
    Text.trimBlanks text = text := by
  have hkept {l : List Char} (hl : ∀ c ∈ l, Text.isAsciiBlank c = false) :
      l.dropWhile Text.isAsciiBlank = l := by
    refine List.dropWhile_eq_self_iff.mpr fun hlength => ?_
    rw [hl _ (List.getElem_mem hlength)]
    exact Bool.false_ne_true
  rw [Text.trimBlanks, hkept h, hkept fun c hc => h c (List.mem_reverse.mp hc),
    List.reverse_reverse]

/-- The sign of a number is taken off. -/
theorem readSign_signed (neg : Bool) {body : List Char} (h : Written body) :
    readSign (Floating.signText neg ++ body) = (neg, body) := by
  cases neg with
  | true => rfl
  | false =>
    change readSign body = (false, body)
    rw [readSign.eq_def]
    split
    · exact absurd rfl (h.head?_ne (c := '-') rfl)
    · exact absurd rfl (h.head?_ne (c := '+') rfl)
    · rfl

/-- A digit is its own small letter. -/
theorem toLower_of_isDigit {c : Char} (h : c.isDigit = true) : c.toLower = c := by
  have hbounds := Char.isDigit_iff_toNat.mp h
  refine dif_neg fun hupper => ?_
  have hle : 65 ≤ c.toNat := UInt32.le_iff_toNat_le.mp hupper.1
  exact absurd (hle.trans hbounds.2) (by decide)

/-- A text with digits is not a word. -/
theorem readNamed?_eq_none (neg : Bool) {body : List Char} (h : Written body) :
    readNamed? (body.map Char.toLower) neg = none := by
  have hne {word : List Char} {c : Char} (hword : word.head? = some c) (hc : c.isDigit = false) :
      body.map Char.toLower ≠ word := by
    rintro rfl
    rw [List.head?_map, Option.map_eq_some_iff] at hword
    obtain ⟨d, hd, rfl⟩ := hword
    rw [toLower_of_isDigit (h.head d hd), h.head d hd] at hc
    cases hc
  rw [readNamed?, if_neg (not_or.mpr ⟨hne rfl rfl, hne rfl rfl⟩), if_neg (hne rfl rfl)]

theorem inNumber_signed (neg : Bool) {body : List Char} (h : Written body) :
    ∀ c ∈ Floating.signText neg ++ body, InNumber c := by
  intro c hc
  rcases List.mem_append.mp hc with hsign | hbody
  · cases neg with
    | true =>
      rw [List.mem_singleton.mp hsign]
      exact .inr (by decide)
    | false => exact absurd hsign List.not_mem_nil
  · exact h.all c hbody

/-- **What is read from a sign and the text of a magnitude is the magnitude with that sign.** -/
theorem readDouble?_signed (neg : Bool) {body : List Char} (h : Written body)
    {d : Decimal} (hread : read? body = some d) :
    readDouble? (Floating.signText neg ++ body) =
      some (.ofRank .double neg (Format.double.nearest d.value)) := by
  have hchars := inNumber_signed neg h
  have hascii : (Floating.signText neg ++ body).all (·.toNat < 128) = true :=
    List.all_eq_true.mpr fun c hc => decide_eq_true (hchars c hc).toNat_bounds.2
  rw [readDouble?, Text.plainNumber?_ascii _ hascii]
  simp only [Option.bind_eq_bind, Option.bind_some,
    trimBlanks_eq fun c hc => (hchars c hc).not_blank, readSign_signed neg h,
    readNamed?_eq_none neg h, hread, Option.map_some,
    Floating.ofDecimal_eq Format.double_proper]
  rfl

namespace Floating

/-- **A double comes back from its exact text.** -/
theorem readDouble?_text (x : Double) : readDouble? x.text = some x := by
  cases x with
  | nan => rfl
  | infinite neg => cases neg <;> rfl
  | finite neg rank =>
    obtain ⟨d, hread, hvalue⟩ := NumberStyle.exists_read?_write (Format.double.shortest rank)
    rw [text, readDouble?_signed neg (NumberStyle.written_write _) hread, hvalue,
      Format.nearest_value_shortest, ofRank_rank]

/-- **A double comes back from its text in positional notation.** -/
theorem readDouble?_positionalText (x : Double) : readDouble? x.positionalText = some x := by
  cases x with
  | nan => rfl
  | infinite neg => cases neg <;> rfl
  | finite neg rank =>
    obtain ⟨d, hread, hvalue⟩ := exists_read?_positional (Format.double.shortest rank)
    rw [positionalText, readDouble?_signed neg (written_positional _) hread, hvalue,
      Format.nearest_value_shortest, ofRank_rank]

end Floating
end ScriptHost
