import ScriptHost.Proofs.Number.Digits
import ScriptHost.Proofs.Number.Positional
import ScriptHost.Value.Text
import Mathlib.Tactic

/-!
# The display form of numbers

A number of either precision is displayed in positional notation, however large or small it is, and
what is displayed is the number that its formatted text stands for.  Both texts are those of one
double: the number as it is shown, rounded to the places of a precision or to the digits that bring
a number of single precision back.

* `Scalar.exists_displayedNumber_eq`: this double is finite.
* `Datum.formatFloat_eq`, `Datum.display_eq`: the texts are the two texts of that double.
* `Floating.positionalText_eq`: the one text is the other one edited.
* `Datum.display_of_formatFloat`: the notation of the display form, and what it stands for.
-/

namespace ScriptHost

open Floating Decimal

/-- The text of a double in positional notation is its text with the exponent written out and
without a zero that makes a whole number. -/
theorem Floating.positionalText_eq (neg : Bool) (rank : Fin Format.double.finiteCount) :
    (Floating.finite neg rank).positionalText = displayForm (Floating.finite neg rank).text :=
  (displayForm_write neg (normal_shortest Format.double rank)).symm

namespace Scalar

/-- Whether a scalar is a finite number of double or of single precision. -/
def isFiniteFloat : Scalar → Bool
  | .float x => x.isFinite
  | .single x => x.isFinite
  | _ => false

theorem exists_eq_finite {F : Format} {x : Floating F} (h : x.isFinite = true) :
    ∃ neg rank, x = .finite neg rank := by
  cases x with
  | finite neg rank => exact ⟨neg, rank, rfl⟩
  | nan => exact absurd h Bool.false_ne_true
  | infinite neg => exact absurd h Bool.false_ne_true

/-- Zero is finite. -/
theorem isFinite_ofRank_zero (neg : Bool) : (ofRank .double neg 0).isFinite = true := by
  rw [ofRank_of_lt neg (by decide : 0 < Format.double.finiteCount)]
  rfl

/-- What a finite number is rounded to is finite, if it is rounded at all. -/
theorem isFinite_roundPlaces? {x y : Double} {places : Int} (hx : x.isFinite = true)
    (h : x.roundPlaces? places = some y) : y.isFinite = true := by
  obtain ⟨neg, rank, rfl⟩ := exists_eq_finite hx
  rw [roundPlaces?] at h
  split at h
  · exact Option.some.inj h ▸ hx
  · split at h
    · exact Option.some.inj h ▸ isFinite_ofRank_zero neg
    · simp only [Option.ite_none_right_eq_some, Option.some.injEq] at h
      exact h.2 ▸ h.1

/-- The number that is shown for a finite double is finite. -/
theorem isFinite_displayed {x y : Double} {places : Int} (hx : x.isFinite = true)
    (h : displayed places x = .ok y) : y.isFinite = true := by
  rw [displayed] at h
  cases hround : x.roundPlaces? places with
  | none =>
    rw [hround] at h
    cases h
  | some z =>
    rw [hround] at h
    rw [← Except.ok.inj h]
    split
    · exact isFinite_roundPlaces? hx hround
    · exact hx

/-- The double that is shown for a finite number of single precision is finite. -/
theorem isFinite_shownSingle {x : Single} {y : Double} (hx : x.isFinite = true)
    (h : shownSingle x = .ok y) : y.isFinite = true := by
  obtain ⟨neg, rank, rfl⟩ := exists_eq_finite hx
  rw [shownSingle] at h
  rcases lt_or_ge (Format.single.value rank) (34025 * 10 ^ 34) with hlt | hge
  · obtain ⟨digits, -, -, hshown⟩ := exists_shownSingle? neg rank hlt
    obtain ⟨htrial, heq⟩ := roundedSingle_eq rank.isLt neg digits
    rw [hshown, heq] at h
    rw [← Except.ok.inj h]
    rfl
  · rw [shownSingle?_eq_none neg rank hge] at h
    cases h

/-- **The number that is shown for a finite number is finite.** -/
theorem exists_displayedNumber_eq {s : Scalar} (hs : s.isFiniteFloat = true) {places : Precision}
    {y : Double} (h : s.displayedNumber places = .ok y) : ∃ neg rank, y = .finite neg rank := by
  refine exists_eq_finite ?_
  cases s with
  | float x =>
    have hx : x.isFinite = true := hs
    have hnumber : (Scalar.float x).displayedNumber places =
        (if x.isFinite then places >>= fun n => displayed n x else .ok x) := rfl
    rw [hnumber, if_pos hx] at h
    cases places with
    | error e => cases h
    | ok n => exact isFinite_displayed hx h
  | single x => exact isFinite_shownSingle hs h
  | _ => exact absurd hs Bool.false_ne_true

end Scalar

namespace Datum

variable {s : Scalar} {places : Precision} {neg : Bool} {rank : Fin Format.double.finiteCount}

/-- The formatted text is the text of the number that is shown … -/
theorem formatFloat_eq (h : s.displayedNumber places = .ok (.finite neg rank)) :
    (Datum.scalar s).formatFloat places = .ok (Floating.finite neg rank).text := by
  rw [formatFloat, Scalar.formatFloat, h]
  rfl

/-- … and the display form is its text in positional notation. -/
theorem display_eq (hs : s.isFiniteFloat = true)
    (h : s.displayedNumber places = .ok (.finite neg rank)) :
    (Datum.scalar s).display places = .ok (Floating.finite neg rank).positionalText := by
  have hdisplay : (Datum.scalar s).display places = s.displayFloat places := by
    cases s with
    | float x => rfl
    | single x => rfl
    | _ => exact absurd hs Bool.false_ne_true
  rw [hdisplay, Scalar.displayFloat, h]
  rfl

/-- **Finite numbers are displayed in positional notation.**  Whenever such a number has a text, it
has a display form, which is that text with its exponent written out and without a point and a zero
that end it.  The form has no exponent, does not end in a point and a zero, and stands for the same
number as the text. -/
theorem display_of_formatFloat (s : Scalar) (hs : s.isFiniteFloat = true) (places : Precision)
    (text : List Char) (h : (Datum.scalar s).formatFloat places = .ok text) :
    ∃ shown, (Datum.scalar s).display places = .ok shown ∧ shown = displayForm text ∧
      IsPositional shown ∧ 'e' ∉ shown ∧ ¬ ['.', '0'] <:+ shown ∧
      ∃ q, denoted? text = some q ∧ denoted? shown = some q := by
  cases hnumber : s.displayedNumber places with
  | error e =>
    rw [formatFloat, Scalar.formatFloat, hnumber] at h
    cases h
  | ok y =>
    obtain ⟨neg, rank, rfl⟩ := Scalar.exists_displayedNumber_eq hs hnumber
    rw [formatFloat_eq hnumber] at h
    have hpositional := isPositional_positional neg (Format.double.shortest rank)
    rw [← Except.ok.inj h]
    exact ⟨_, display_eq hs hnumber, Floating.positionalText_eq neg rank, hpositional,
      hpositional.not_mem_e, not_pointZero_positional neg (normal_shortest Format.double rank), _,
      denoted?_write neg _, denoted?_positional neg _⟩

/-- Twenty-five billionths. -/
def billionths : Scalar := .float (.ofDecimal .double false ⟨25, -9⟩)

/-- Minus a hundred quintillions, of single precision. -/
def quintillions : Scalar := .single (.ofDecimal .single true ⟨1, 20⟩)

theorem display_of_formatFloat_small_large :
    (billionths.isFiniteFloat = true ∧
      (Datum.scalar billionths).formatFloat (.ok 10) = .ok "2.5e-08".toList ∧
      (Datum.scalar billionths).display (.ok 10) = .ok "0.000000025".toList ∧
      ∃ q, denoted? "2.5e-08".toList = some q ∧ denoted? "0.000000025".toList = some q) ∧
    (quintillions.isFiniteFloat = true ∧
      (Datum.scalar quintillions).formatFloat (.ok 10) = .ok "-1e+20".toList ∧
      (Datum.scalar quintillions).display (.ok 10) = .ok "-100000000000000000000".toList ∧
      ∃ q, denoted? "-1e+20".toList = some q ∧
        denoted? "-100000000000000000000".toList = some q) := by
  have hsmall : billionths.isFiniteFloat = true := by decide +kernel
  have hlarge : quintillions.isFiniteFloat = true := by decide +kernel
  have htext : (Datum.scalar billionths).formatFloat (.ok 10) = .ok "2.5e-08".toList := by
    decide +kernel
  have htext' : (Datum.scalar quintillions).formatFloat (.ok 10) = .ok "-1e+20".toList := by
    decide +kernel
  obtain ⟨shown, hdisplay, hshown, -, -, -, hq⟩ := display_of_formatFloat _ hsmall _ _ htext
  obtain ⟨shown', hdisplay', hshown', -, -, -, hq'⟩ := display_of_formatFloat _ hlarge _ _ htext'
  have hform : displayForm "2.5e-08".toList = "0.000000025".toList := by decide +kernel
  have hform' : displayForm "-1e+20".toList = "-100000000000000000000".toList := by decide +kernel
  rw [hform] at hshown
  rw [hform'] at hshown'
  subst hshown hshown'
  exact ⟨⟨hsmall, htext, hdisplay, hq⟩, hlarge, htext', hdisplay', hq'⟩

end Datum
end ScriptHost
