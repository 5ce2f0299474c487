import ScriptHost.Proofs.Number.Digits
import ScriptHost.Value.Text
import Mathlib.Tactic

/-!
# The texts of single-precision numbers

A finite number of single precision is shown with as few digits as bring it back, in its debug form
and in its display form alike, and either text reads as the same number again.  Near the end of the
range this fails: there the roundings to one, two and three digits are other numbers, the rounding
to four digits is out of range, and what is tried first is what stops the search.

* `Datum.toSingle_string`: reading a text goes through the double that it stands for.
* `Datum.debug_single`, `Datum.display_single`: the forms are texts of the double that is shown.
* `Datum.single_forms`: which numbers have texts, and what these texts are.
* `Datum.not_all_singles_shown`: the greatest number has none.
-/

namespace ScriptHost
namespace Datum

open Floating

/-- A form is a text that reads as the number. -/
def ComesBack (x : Single) (form : Except ConvertError (List Char)) : Prop :=
  ∃ text, form = .ok text ∧ (Datum.scalar (.string (String.ofList text))).toSingle = .ok x

/-- A text is the sign and a magnitude of the given value. -/
def Denotes (text : List Char) (neg : Bool) (v : ℚ) : Prop :=
  ∃ body d, text = signText neg ++ body ∧ Decimal.read? body = some d ∧ d.value = v

/-- A text is read as the double that it stands for, and that is made single. -/
theorem toSingle_string {text : List Char} {y : Double} {x : Single}
    (hread : readDouble? text = some y) (hsingle : y.toSingle? = some x) :
    (Datum.scalar (.string (String.ofList text))).toSingle = .ok x := by
  have hdouble : (Scalar.string (String.ofList text)).toDouble = .ok y := by
    rw [Scalar.toDouble, Scalar.text?]
    simp only [String.toList_ofList, hread]
  rw [toSingle, toDouble, hdouble]
  show singleOf y = .ok x
  rw [singleOf, hsingle]

/-! ## Numbers that are shown -/

section Shown

variable {x : Single} (places : Precision)

/-- The debug form is the exact text of the double that is shown … -/
theorem debug_single {neg : Bool} {rank : Fin Format.double.finiteCount}
    (h : x.shownSingle? = some (.finite neg rank)) :
    (Datum.scalar (.single x)).debug = .ok (Floating.finite neg rank).text := by
  rw [debug, Scalar.debug, shownSingle, h]
  rfl

/-- … and the display form its text in positional notation. -/
theorem display_single {neg : Bool} {rank : Fin Format.double.finiteCount}
    (h : x.shownSingle? = some (.finite neg rank)) :
    (Datum.scalar (.single x)).display places = .ok (Floating.finite neg rank).positionalText := by
  rw [display, Scalar.display, Scalar.displayFloat, Scalar.displayedNumber, shownSingle, h]
  rfl

/-- A number for which no double is shown has neither form. -/
theorem forms_of_not_shown (h : x.shownSingle? = none) :
    (Datum.scalar (.single x)).debug = .error .singleTooLarge ∧
      (Datum.scalar (.single x)).display places = .error .singleTooLarge := by
  constructor
  · rw [debug, Scalar.debug, shownSingle, h]
    rfl
  · rw [display, Scalar.display, Scalar.displayFloat, Scalar.displayedNumber, shownSingle, h]
    rfl

end Shown

/-- The exact text of a double denotes its shortest decimal. -/
theorem denotes_text {neg : Bool} {rank : Fin Format.double.finiteCount} :
    Denotes (Floating.finite neg rank).text neg (Format.double.shortest rank).value := by
  obtain ⟨d, hread, hvalue⟩ := NumberStyle.exists_read?_write (Format.double.shortest rank)
  exact ⟨_, d, rfl, hread, hvalue⟩

/-- **Below the threshold both forms of a finite number come back, and the debug form denotes the
first rounding that does; from the threshold on neither is there.** -/
theorem single_forms (neg : Bool) (rank : Fin Format.single.finiteCount) (places : Precision) :
    (Format.single.value rank < 34025 * 10 ^ 34 →
      ComesBack (.finite neg rank) (Datum.scalar (.single (.finite neg rank))).debug ∧
      ComesBack (.finite neg rank) ((Datum.scalar (.single (.finite neg rank))).display places) ∧
      ∃ digits text, digits ≤ 9 ∧
        IsLeast {n | 0 < n ∧ (roundedSingle neg rank n).toSingle? = some (.finite neg rank)}
          digits ∧
        (Datum.scalar (.single (.finite neg rank))).debug = .ok text ∧
        Denotes text neg (Format.single.roundToDigits rank digits).value) ∧
    (34025 * 10 ^ 34 ≤ Format.single.value rank →
      (Datum.scalar (.single (.finite neg rank))).debug = .error .singleTooLarge ∧
      (Datum.scalar (.single (.finite neg rank))).display places = .error .singleTooLarge) := by
  refine ⟨fun hlt => ?_, fun hge => forms_of_not_shown places (shownSingle?_eq_none neg rank hge)⟩
  obtain ⟨digits, hhigh, hleast, hshown⟩ := exists_shownSingle? neg rank hlt
  obtain ⟨htrial, heq⟩ := roundedSingle_eq rank.isLt neg digits
  have hback := hleast.1.2
  rw [heq] at hshown hback
  refine ⟨⟨_, debug_single hshown, toSingle_string (readDouble?_text _) hback⟩,
    ⟨_, display_single places hshown, toSingle_string (readDouble?_positionalText _) hback⟩,
    digits, _, hhigh, hleast, debug_single hshown, ?_⟩
  rw [← Format.value_shortest_trial hhigh]
  exact denotes_text

/-- The rank of the single-precision number nearest to one tenth. -/
def tenth : Fin Format.single.finiteCount := ⟨1036831949, by decide⟩

/-- The rank of the greatest finite number of single precision. -/
def greatest : Fin Format.single.finiteCount := ⟨2139095039, by decide⟩

theorem threshold_le_greatest : 34025 * 10 ^ 34 ≤ Format.single.value greatest :=
  (Format.threshold_lt_value (by decide)).le

theorem single_forms_tenth_greatest :
    (Format.single.value tenth < 34025 * 10 ^ 34 ∧
      ComesBack (.finite false tenth) (Datum.scalar (.single (.finite false tenth))).debug ∧
      ComesBack (.finite false tenth)
        ((Datum.scalar (.single (.finite false tenth))).display (.ok 10))) ∧
    34025 * 10 ^ 34 ≤ Format.single.value greatest ∧
      (Datum.scalar (.single (.finite false greatest))).debug = .error .singleTooLarge ∧
      (Datum.scalar (.single (.finite false greatest))).display (.ok 10) =
        .error .singleTooLarge := by
  have htenth : Format.single.value tenth < 34025 * 10 ^ 34 :=
    Format.value_lt_threshold (by decide)
  obtain ⟨hdebug, hdisplay, -⟩ := (single_forms false tenth (.ok 10)).1 htenth
  exact ⟨⟨htenth, hdebug, hdisplay⟩, threshold_le_greatest,
    (single_forms false greatest (.ok 10)).2 threshold_le_greatest⟩

/-- One digit brings one tenth back. -/
example : (Floating.finite false tenth).shownSingle? = some (.ofDecimal .double false ⟨1, -1⟩) := by
  decide +kernel

/-- The greatest number has neither form. -/
theorem not_all_singles_shown :
    ¬ ∀ (neg : Bool) (rank : Fin Format.single.finiteCount) (places : Precision),
      ComesBack (.finite neg rank) (Datum.scalar (.single (.finite neg rank))).debug ∧
      ComesBack (.finite neg rank)
        ((Datum.scalar (.single (.finite neg rank))).display places) := by
  intro hall
  obtain ⟨⟨text, htext, -⟩, -⟩ := hall false greatest (.ok 10)
  have hnone := shownSingle?_eq_none false greatest threshold_le_greatest
  rw [(forms_of_not_shown (.ok 10) hnone).1] at htext
  cases htext

end Datum
end ScriptHost
