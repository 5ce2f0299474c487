import ScriptHost.Proofs.Number.Reading
import Mathlib.Tactic

/-!
# The digits of single-precision numbers

A number of single precision is written with the digits of the first rounding to one, two, up to
nine digits that reads back.  A rounding goes through a double on its way back, and the search ends
where one is out of range.

* `Format.back_nine`: nine digits are enough.
* `Format.back_lt_finiteCount`: below `34025 * 10 ^ 34` no rounding is out of range …
* `Format.back_ne`, `Format.finiteCount_le_back_four`: … and from there on the roundings to one, two
  and three digits do not read back, and the one to four digits is out of range.
* `Format.value_shortest_trial`: the double of a rounding has the digits of the rounding.
* `Floating.exists_shownSingle?`, `Floating.shownSingle?_eq_none`: what the search finds.
-/

namespace ScriptHost
namespace Format

/-- The double that a number of single precision is rounded to digits as. -/
def trial (rank digits : Nat) : Nat := double.nearest (single.roundToDigits rank digits).value

/-- What such a rounding reads back as. -/
def back (rank digits : Nat) : Nat := single.nearest (double.value (trial rank digits))

theorem value_double_add {k : Nat} (hk : k ≤ 2 ^ 52) (e : Nat) :
    double.value ((e + 1) * 2 ^ 52 + k) = (2 ^ 52 + k) * 2 ^ ((e : Int) - 1074) :=
  double.value_add hk e

theorem value_single_add {k : Nat} (hk : k ≤ 2 ^ 23) (e : Nat) :
    single.value ((e + 1) * 2 ^ 23 + k) = (2 ^ 23 + k) * 2 ^ ((e : Int) - 149) :=
  single.value_add hk e

section Trial

variable {rank : Nat}

/-! ## The doubles that are tried -/

theorem value_lt_of_lt_finiteCount (h : rank < single.finiteCount) :
    single.value rank < 2 ^ 128 := by
  have hlt := single.strictMono_value h
  rwa [single_proper.value_finiteCount] at hlt

theorem leading_lt_of_lt_finiteCount (hrank : 0 < rank) (h : rank < single.finiteCount) :
    single.leading (single.units rank) < 39 :=
  single.leading_lt hrank ((value_lt_of_lt_finiteCount h).trans (by norm_num))

theorem zpow_le_value (hrank : 0 < rank) : 2 ^ (-149 : Int) ≤ single.value rank := by
  have hunits : (1 : ℚ) ≤ single.units rank := by exact_mod_cast single.units_pos hrank
  have hscale : single.unitScale = 149 := rfl
  rw [value, hscale, zpow_neg, ← one_div]
  exact div_le_div_of_nonneg_right hunits (by positivity)

/-- The roundings of single-precision numbers are in the range of doubles, far from its ends. -/
theorem two_pow_le_trial (hrank : 0 < rank) (digits : Nat) : 2 ^ 52 ≤ trial rank digits := by
  have hvalue : double.value (2 ^ 52) = 2 ^ (-1022 : Int) := by
    have hadd := value_double_add (Nat.zero_le _) 0
    rw [Nat.zero_add, Nat.one_mul, Nat.add_zero, Nat.cast_zero, add_zero] at hadd
    rw [hadd, ← zpow_natCast, ← zpow_add₀ two_ne_zero]
    rfl
  have hsmall : (2 : ℚ) ^ (-1022 : Int) ≤ 2 ^ (-149 : Int) / 10 := by
    have hle : (2 : ℚ) ^ (-1022 : Int) ≤ 2 ^ (-153 : Int) :=
      zpow_le_zpow_right₀ one_le_two (by norm_num)
    exact hle.trans (by norm_num)
  have hle := single.le_value_roundToDigits hrank digits
  have hlt := single.value_lt_zpow rank
  rw [zpow_add₀ (by norm_num), zpow_one] at hlt
  refine double.le_nearest (Decimal.value_nonneg _) ?_
  rw [hvalue]
  refine hsmall.trans ((div_le_iff₀ (by norm_num)).mpr ?_)
  calc (2 : ℚ) ^ (-149 : Int)
      ≤ 10 ^ single.leading (single.units rank) * 10 := (zpow_le_value hrank).trans hlt.le
    _ ≤ (single.roundToDigits rank digits).value * 10 :=
        mul_le_mul_of_nonneg_right hle (by norm_num)

theorem trial_lt_finiteCount (hrank : 0 < rank) (h : rank < single.finiteCount) (digits : Nat) :
    trial rank digits < double.finiteCount := by
  have hvalue : double.value (1201 * 2 ^ 52) = 2 ^ (178 : Int) := by
    have hadd := value_double_add (Nat.zero_le _) 1200
    rw [Nat.add_zero, Nat.cast_zero, add_zero] at hadd
    rw [hadd, ← zpow_natCast, ← zpow_add₀ two_ne_zero]
    rfl
  have htop : (single.roundToDigits rank digits).value ≤ double.value (1201 * 2 ^ 52) :=
    calc (single.roundToDigits rank digits).value
        ≤ 10 ^ (single.leading (single.units rank) + 1) := single.value_roundToDigits_le rank digits
      _ ≤ 10 ^ (39 : Int) :=
          zpow_le_zpow_right₀ (by norm_num) (leading_lt_of_lt_finiteCount hrank h)
      _ ≤ double.value (1201 * 2 ^ 52) := by
          rw [hvalue]
          norm_num
  exact Nat.lt_of_le_of_lt (double.nearest_le (Decimal.value_nonneg _) htop) (by decide)

/-- A rounding is hardly changed when it becomes a double. -/
theorem abs_value_trial_sub_le (hrank : 0 < rank) (digits : Nat) :
    |double.value (trial rank digits) - (single.roundToDigits rank digits).value| ≤
      double.value (trial rank digits) / 2 ^ 53 :=
  double.abs_value_nearest_sub_le_div (Decimal.value_nonneg _) (two_pow_le_trial hrank digits)

/-! ## Nine digits -/

/-- **A rounding to nine digits reads back.** -/
theorem back_nine (hrank : 0 < rank) : back rank 9 = rank := by
  set step : ℚ := 10 ^ (single.leading (single.units rank) - (9 - 1 : Nat)) with hstep
  have hsteps : step * 10 ^ 8 ≤ single.value rank := by
    have hle := single.zpow_leading_le hrank
    rw [zpow_eq_mul_zpow _ (9 - 1), ← hstep] at hle
    push_cast at hle
    linarith
  have hround := single.abs_value_roundAt_sub_le rank
    (single.leading (single.units rank) - (9 - 1 : Nat))
  have htrial := abs_value_trial_sub_le hrank 9
  have hnonneg := double.value_nonneg (trial rank 9)
  have hpos := single.value_pos hrank
  rw [← roundToDigits_eq, ← hstep] at hround
  refine single.nearest_eq_of_near hnonneg ?_
  have hbits : single.fractionBits = 23 := rfl
  have htriangle := abs_sub_le (double.value (trial rank 9)) (single.roundToDigits rank 9).value
    (single.value rank)
  have htop : double.value (trial rank 9) ≤ 2 * single.value rank := by
    rw [abs_le] at hround htrial
    linarith
  rw [hbits]
  norm_num
  linarith

/-! ## The range of single precision -/

theorem value_greatest : single.value (single.finiteCount - 1) = (2 ^ 24 - 1) * 2 ^ 104 := by
  have hadd := value_single_add (k := 2 ^ 23 - 1) (by decide) 253
  have hcount : (253 + 1) * 2 ^ 23 + (2 ^ 23 - 1) = single.finiteCount - 1 := by decide
  rw [hcount] at hadd
  rw [hadd]
  norm_num

/-- A rounding to something less than the greatest magnitude is in the range … -/
theorem back_lt_of_value_le {digits : Nat} (hrank : 0 < rank)
    (h : (single.roundToDigits rank digits).value ≤ 34025 * 10 ^ 34) :
    back rank digits < single.finiteCount := by
  have htrial := abs_value_trial_sub_le hrank digits
  rw [abs_le] at htrial
  have hle : double.value (trial rank digits) ≤ single.value (single.finiteCount - 1) := by
    rw [value_greatest]
    norm_num at htrial ⊢
    linarith
  exact Nat.lt_of_le_of_lt (single.nearest_le (double.value_nonneg _) hle) (by decide)

/-- … and one to something beyond the first magnitude that is missing is not. -/
theorem finiteCount_le_back_of_le_value {digits : Nat} (hrank : 0 < rank)
    (h : 3403 * 10 ^ 35 ≤ (single.roundToDigits rank digits).value) :
    single.finiteCount ≤ back rank digits := by
  have htrial := abs_value_trial_sub_le hrank digits
  rw [abs_le] at htrial
  refine single.le_nearest (double.value_nonneg _) ?_
  rw [single_proper.value_finiteCount]
  have hbits : single.exponentBits = 8 := rfl
  rw [hbits]
  norm_num at htrial ⊢
  linarith

theorem leading_eq_of_le (hrank : 0 < rank) (h : rank < single.finiteCount)
    (hle : 10 ^ 38 ≤ single.value rank) : single.leading (single.units rank) = 38 := by
  have hle := single.le_leading (x := 38) (le_trans (by norm_num) hle)
  have hlt := leading_lt_of_lt_finiteCount hrank h
  omega

/-- With thirty-nine digits before the point, the rounding to nine digits and all coarser ones are
whole multiples of the same power of ten, and err by half a step at most. -/
theorem exists_roundToDigits_eq {digits : Nat}
    (hlead : single.leading (single.units rank) = 38) (hlow : 0 < digits) (hhigh : digits ≤ 9) :
    ∃ m : Nat, (single.roundToDigits rank digits).value = (m * 10 ^ (9 - digits) : Nat) * 10 ^ 30 ∧
      (∀ c : Nat, single.value rank < c * 10 ^ 30 →
        2 * (m * 10 ^ (9 - digits)) < 2 * c + 10 ^ (9 - digits)) ∧
      ∀ c : Nat, (c : ℚ) * 10 ^ 30 < single.value rank →
        2 * c < 2 * (m * 10 ^ (9 - digits)) + 10 ^ (9 - digits) := by
  set x := single.leading (single.units rank) - (digits - 1 : Nat) with hx
  have hstep : (10 : ℚ) ^ x = (10 ^ (9 - digits) : Nat) * 10 ^ 30 := by
    have hexponent : x - ((9 - digits : Nat) : Int) = (30 : Nat) := by omega
    rw [zpow_eq_mul_zpow x (9 - digits), hexponent, zpow_natCast]
  have hvalue : (single.roundAt rank x).value =
      ((single.roundAt rank x).coefficient * 10 ^ (9 - digits) : Nat) * 10 ^ 30 := by
    rw [value_roundAt, hstep]
    push_cast
    ring
  have hround := single.abs_value_roundAt_sub_le rank x
  rw [hstep, hvalue, abs_le] at hround
  rw [roundToDigits_eq, ← hx]
  refine ⟨(single.roundAt rank x).coefficient, hvalue, ?_⟩
  generalize (single.roundAt rank x).coefficient * 10 ^ (9 - digits) = n at hround ⊢
  generalize 10 ^ (9 - digits) = p at hround ⊢
  constructor
  · intro c hc
    have hcast : (2 * n : ℚ) < 2 * c + p := by linarith
    exact_mod_cast hcast
  · intro c hc
    have hcast : (2 * c : ℚ) < 2 * n + p := by linarith
    exact_mod_cast hcast

/-- **Below the threshold no rounding is out of range.** -/
theorem back_lt_finiteCount (hrank : 0 < rank) (h : rank < single.finiteCount)
    (hlt : single.value rank < 34025 * 10 ^ 34) {digits : Nat} (hlow : 0 < digits)
    (hhigh : digits ≤ 9) : back rank digits < single.finiteCount := by
  refine back_lt_of_value_le hrank ?_
  rcases lt_or_ge (single.value rank) (10 ^ 38) with hsmall | hlarge
  · -- the power of ten above is in the range
    have hlead := single.leading_lt (x := 38) hrank (hsmall.trans_eq (by norm_num))
    calc (single.roundToDigits rank digits).value
        ≤ 10 ^ (single.leading (single.units rank) + 1) := single.value_roundToDigits_le rank digits
      _ ≤ 10 ^ (38 : Int) := zpow_le_zpow_right₀ (by norm_num) hlead
      _ ≤ 34025 * 10 ^ 34 := by norm_num
  · -- the threshold lies between two roundings, nearer to the lesser one
    obtain ⟨m, hvalue, hbelow, -⟩ :=
      exists_roundToDigits_eq (leading_eq_of_le hrank h hlarge) hlow hhigh
    have hbound := hbelow 340250000 (hlt.trans_eq (by norm_num))
    have hle : m * 10 ^ (9 - digits) ≤ 340250000 := by
      interval_cases digits <;> omega
    have hcast : ((m * 10 ^ (9 - digits) : Nat) : ℚ) ≤ 340250000 := by exact_mod_cast hle
    rw [hvalue]
    linarith

/-- The threshold lies between two magnitudes. -/
theorem value_lt_threshold (h : rank < 2139093445) : single.value rank < 34025 * 10 ^ 34 := by
  have hle : rank ≤ (253 + 1) * 2 ^ 23 + 8387012 := by omega
  refine (single.strictMono_value.monotone hle).trans_lt ?_
  rw [value_single_add (by decide)]
  norm_num

theorem threshold_lt_value (h : 2139093445 ≤ rank) : 34025 * 10 ^ 34 < single.value rank := by
  have hle : (253 + 1) * 2 ^ 23 + 8387013 ≤ rank := by omega
  refine lt_of_lt_of_le ?_ (single.strictMono_value.monotone hle)
  rw [value_single_add (by decide)]
  norm_num

section Above

variable (hrank : 0 < rank) (h : rank < single.finiteCount)
  (hge : 34025 * 10 ^ 34 ≤ single.value rank)
include hrank h hge

theorem leading_eq_of_threshold_le : single.leading (single.units rank) = 38 :=
  leading_eq_of_le hrank h (le_trans (by norm_num) hge)

/-- From the threshold on, fewer than four digits are rounded to something less … -/
theorem value_roundToDigits_le_of_lt_four {digits : Nat} (hlow : 0 < digits) (hhigh : digits < 4) :
    (single.roundToDigits rank digits).value ≤ 34 * 10 ^ 37 := by
  obtain ⟨m, hvalue, hbelow, -⟩ :=
    exists_roundToDigits_eq (leading_eq_of_threshold_le hrank h hge) hlow (by omega)
  have hbound := hbelow 340282367 ((value_lt_of_lt_finiteCount h).trans (by norm_num))
  have hle : m * 10 ^ (9 - digits) ≤ 340000000 := by
    interval_cases digits <;> omega
  have hcast : ((m * 10 ^ (9 - digits) : Nat) : ℚ) ≤ 340000000 := by exact_mod_cast hle
  rw [hvalue]
  linarith

/-- … and four digits to something beyond the range. -/
theorem le_value_roundToDigits_four : 3403 * 10 ^ 35 ≤ (single.roundToDigits rank 4).value := by
  obtain ⟨m, hvalue, -, habove⟩ :=
    exists_roundToDigits_eq (leading_eq_of_threshold_le hrank h hge) (by decide : 0 < 4) (by decide)
  have hgt : 34025 * 10 ^ 34 < single.value rank := by
    refine threshold_lt_value (Nat.le_of_not_lt fun hbelow => ?_)
    exact absurd hge (value_lt_threshold hbelow).not_ge
  have hbound := habove 340250000 (lt_of_eq_of_lt (by norm_num) hgt)
  have hle : 340300000 ≤ m * 10 ^ (9 - 4) := by omega
  have hcast : (340300000 : ℚ) ≤ (m * 10 ^ (9 - 4) : Nat) := by exact_mod_cast hle
  rw [hvalue]
  linarith

/-- **The roundings to one, two and three digits do not read back …** -/
theorem back_ne {digits : Nat} (hlow : 0 < digits) (hhigh : digits < 4) :
    back rank digits ≠ rank := by
  intro hback
  have hle := value_roundToDigits_le_of_lt_four hrank h hge hlow hhigh
  have htrial := abs_value_trial_sub_le hrank digits
  have hblock : 2 ^ single.fractionBits ≤ back rank digits := by
    rw [hback]
    by_contra hlt
    have hscale : single.unitScale = 149 := rfl
    have hcast : (rank : ℚ) < 2 ^ 23 := by exact_mod_cast Nat.lt_of_not_le hlt
    rw [value, single.units_of_lt (Nat.lt_of_not_le hlt), hscale, le_div_iff₀ (by norm_num)] at hge
    exact absurd (hge.trans_lt hcast) (by norm_num)
  have hclose := single.abs_value_nearest_sub_le_div (double.value_nonneg _) hblock
  have hbits : single.fractionBits = 23 := rfl
  rw [← back, hback, hbits, abs_le] at hclose
  rw [abs_le] at htrial
  norm_num at hclose htrial
  linarith

/-- **… and the one to four digits is out of range.** -/
theorem finiteCount_le_back_four : single.finiteCount ≤ back rank 4 :=
  finiteCount_le_back_of_le_value hrank (le_value_roundToDigits_four hrank h hge)

end Above

end Trial

/-! ## Zero -/

theorem value_roundToDigits_zero (digits : Nat) : (single.roundToDigits 0 digits).value = 0 := by
  have hzero (x : Int) : single.value 0 ≤ (0 : Nat) * 10 ^ x := by
    rw [single.value_zero, Nat.cast_zero, zero_mul]
  have hle := single.value_roundAt_le (hzero (single.leading (single.units 0) - (digits - 1 : Nat)))
  rw [Nat.cast_zero, zero_mul, ← roundToDigits_eq] at hle
  exact le_antisymm hle (Decimal.value_nonneg _)

theorem trial_zero (digits : Nat) : trial 0 digits = 0 := by
  rw [trial, value_roundToDigits_zero, ← double.value_zero, double.nearest_value]

theorem back_zero (digits : Nat) : back 0 digits = 0 := by
  rw [back, trial_zero, double.value_zero, ← single.value_zero, single.nearest_value]

/-! ## The shortest text of a rounding -/

/-- **A double that a rounding to few digits is read as has the digits of that rounding.** -/
theorem value_shortest_trial {rank digits : Nat} (hhigh : digits ≤ 9) :
    (double.shortest (trial rank digits)).value = (single.roundToDigits rank digits).value := by
  rcases Nat.eq_zero_or_pos rank with rfl | hrank
  · rw [trial_zero, value_roundToDigits_zero, shortest, if_pos rfl, Decimal.value, Nat.cast_zero,
      zero_mul]
  · have hbits : double.fractionBits = 52 := rfl
    refine double.value_shortest (k := 9) rfl (two_pow_le_trial hrank digits) (by decide)
      (by rw [hbits]; norm_num) ?_
    -- the first digit moves by one place at most
    have htrial := abs_value_trial_sub_le hrank digits
    have hle := single.value_roundToDigits_le rank digits
    have hlt : double.value (trial rank digits) <
        10 ^ (single.leading (single.units rank) + 1 + 1) := by
      have hten : (0 : ℚ) < 10 ^ (single.leading (single.units rank) + 1) := by positivity
      rw [zpow_add₀ (by norm_num) (single.leading (single.units rank) + 1), zpow_one]
      rw [abs_le] at htrial
      norm_num at htrial
      linarith
    have hpos := Nat.lt_of_lt_of_le (Nat.two_pow_pos 52) (two_pow_le_trial hrank digits)
    have hlead := double.leading_lt hpos hlt
    rw [exponent_roundToDigits]
    omega

end Format

namespace Floating

open Format

/-! ## Between the formats -/

theorem convert_finite {F : Format} (G : Format) (neg : Bool) (rank : Fin F.finiteCount) :
    (finite neg rank).convert G = ofRank G neg (G.nearest (F.value rank)) := by
  rw [convert, ofUnits, Nat.pow_eq, Nat.pow_eq]
  congr 1
  refine G.rankNearest_eq_nearest (Nat.two_pow_pos _) ?_
  rw [value]
  push_cast
  ring

theorem toSingle?_of_lt {neg : Bool} {rank : Fin double.finiteCount} {rank' : Nat}
    (hread : single.nearest (double.value rank) = rank') (h : rank' < single.finiteCount) :
    (finite neg rank).toSingle? = some (.finite neg ⟨rank', h⟩) := by
  rw [toSingle?, convert_finite, hread, ofRank_of_lt neg h]
  exact if_neg Bool.false_ne_true

theorem toSingle?_of_ge {neg : Bool} {rank : Fin double.finiteCount}
    (h : single.finiteCount ≤ single.nearest (double.value rank)) :
    (finite neg rank).toSingle? = none := by
  rw [toSingle?, convert_finite, ofRank_of_ge neg h]
  exact if_pos rfl

/-! ## The search for the digits -/

section Rounded

variable {rank : Nat} (h : rank < single.finiteCount) (neg : Bool) (digits : Nat)
include h

theorem roundedSingle_eq : ∃ hlt : trial rank digits < double.finiteCount,
    roundedSingle neg rank digits = .finite neg ⟨trial rank digits, hlt⟩ := by
  have hlt : trial rank digits < double.finiteCount := by
    rcases Nat.eq_zero_or_pos rank with rfl | hrank
    · rw [trial_zero]
      decide
    · exact trial_lt_finiteCount hrank h digits
  refine ⟨hlt, ?_⟩
  rw [roundedSingle, ofDecimal_eq double_proper]
  exact ofRank_of_lt neg hlt

theorem toSingle?_rounded_of_lt (hback : back rank digits < single.finiteCount) :
    (roundedSingle neg rank digits).toSingle? = some (.finite neg ⟨back rank digits, hback⟩) := by
  obtain ⟨hlt, heq⟩ := roundedSingle_eq h neg digits
  rw [heq]
  refine toSingle?_of_lt ?_ hback
  rw [back]

theorem toSingle?_rounded_of_ge (hback : single.finiteCount ≤ back rank digits) :
    (roundedSingle neg rank digits).toSingle? = none := by
  obtain ⟨hlt, heq⟩ := roundedSingle_eq h neg digits
  rw [back] at hback
  rw [heq]
  exact toSingle?_of_ge hback

end Rounded

/-- A rounding reads back as the number that was rounded. -/
theorem toSingle?_rounded_eq_some_iff (neg : Bool) (rank : Fin single.finiteCount) (digits : Nat) :
    (roundedSingle neg rank digits).toSingle? = some (.finite neg rank) ↔
      back rank digits = rank := by
  rcases Nat.lt_or_ge (back rank digits) single.finiteCount with hlt | hge
  · rw [toSingle?_rounded_of_lt rank.isLt neg digits hlt, Option.some_inj, Floating.finite.injEq,
      Fin.ext_iff]
    exact and_iff_right rfl
  · rw [toSingle?_rounded_of_ge rank.isLt neg digits hge]
    constructor
    · intro heq
      cases heq
    · intro heq
      exact absurd (hge.trans_eq heq) (Nat.not_le_of_lt rank.isLt)

section Search

variable {tried : Nat → Double} {target : Single}

/-- What is read back of a rounding decides how the search goes on. -/
theorem shownFrom?_succ (tried : Nat → Double) (target : Single) (digits left : Nat) :
    shownFrom? tried target digits (left + 1) =
      (tried digits).toSingle?.bind fun y => if y = target ∨ left = 0 then some (tried digits)
        else shownFrom? tried target (digits + 1) left := by
  rw [shownFrom?]
  cases (tried digits).toSingle? <;> rfl

/-- The search goes past the roundings that read back as other numbers. -/
theorem shownFrom?_add {skip left digits : Nat} (hleft : 0 < left)
    (hskip : ∀ e, digits ≤ e → e < digits + skip →
      ∃ y, (tried e).toSingle? = some y ∧ y ≠ target) :
    shownFrom? tried target digits (skip + left) =
      shownFrom? tried target (digits + skip) left := by
  induction skip generalizing digits with
  | zero => rw [Nat.zero_add, Nat.add_zero]
  | succ skip ih =>
    obtain ⟨y, hy, hne⟩ := hskip digits le_rfl (by omega)
    have hmore : ¬ (y = target ∨ skip + left = 0) := not_or.mpr ⟨hne, by omega⟩
    have hdigits : digits + 1 + skip = digits + (skip + 1) := by omega
    rw [Nat.succ_add, shownFrom?_succ, hy, Option.bind_some, if_neg hmore,
      ih fun e hlow hhigh => hskip e (by omega) (by omega), hdigits]

end Search

section Shown

variable (neg : Bool) (rank : Fin single.finiteCount)

theorem shownSingle?_of_pos (hrank : 0 < rank.val) : shownSingle? (.finite neg rank) =
    shownFrom? (roundedSingle neg rank) (.finite neg rank) 1 9 := by
  rw [shownSingle?, if_neg hrank.ne']

/-- A rounding that is in the range but reads back as another number is passed. -/
theorem exists_toSingle?_ne {digits : Nat} (hlt : back rank digits < single.finiteCount)
    (hne : back rank digits ≠ rank) : ∃ y : Single,
      (roundedSingle neg rank digits).toSingle? = some y ∧ y ≠ .finite neg rank := by
  refine ⟨_, toSingle?_rounded_of_lt rank.isLt neg digits hlt, fun heq => hne ?_⟩
  rw [Floating.finite.injEq, Fin.ext_iff] at heq
  exact heq.2

/-- **A number below the threshold is shown as its first rounding that reads back.** -/
theorem exists_shownSingle? (hlt : single.value rank < 34025 * 10 ^ 34) :
    ∃ digits, digits ≤ 9 ∧ IsLeast {d | 0 < d ∧ (roundedSingle neg rank d).toSingle? =
      some (.finite neg rank)} digits ∧
      shownSingle? (.finite neg rank) = some (roundedSingle neg rank digits) := by
  have hnine : back rank 9 = rank := by
    rcases Nat.eq_zero_or_pos rank.val with hzero | hpos
    · rw [hzero, back_zero]
    · exact back_nine hpos
  have hreads : ∃ d, 0 < d ∧ back rank d = rank := ⟨9, by decide, hnine⟩
  obtain ⟨digits, ⟨hlow, hback⟩, hleast⟩ : ∃ digits, (0 < digits ∧ back rank digits = rank) ∧
      ∀ e, 0 < e → back rank e = rank → digits ≤ e :=
    ⟨Nat.find hreads, Nat.find_spec hreads, fun e he heq => Nat.find_min' hreads ⟨he, heq⟩⟩
  have hhigh : digits ≤ 9 := hleast 9 (by decide) hnine
  have hread := (toSingle?_rounded_eq_some_iff neg rank digits).mpr hback
  refine ⟨digits, hhigh, ⟨⟨hlow, hread⟩, fun e he =>
    hleast e he.1 ((toSingle?_rounded_eq_some_iff neg rank e).mp he.2)⟩, ?_⟩
  rcases Nat.eq_zero_or_pos rank.val with hzero | hpos
  · obtain ⟨htrial, heq⟩ := roundedSingle_eq rank.isLt neg digits
    rw [shownSingle?, if_pos hzero, heq, ← ofRank_of_lt neg htrial, hzero, trial_zero]
  · have hpassed : ∀ e, 1 ≤ e → e < 1 + (digits - 1) → ∃ y : Single,
        (roundedSingle neg rank e).toSingle? = some y ∧ y ≠ .finite neg rank := by
      intro e hone hless
      exact exists_toSingle?_ne neg rank
        (back_lt_finiteCount hpos rank.isLt hlt hone (by omega))
        fun heq => absurd (hleast e hone heq) (by omega)
    have hsplit : 9 = digits - 1 + (9 - digits + 1) := by omega
    have hfirst : 1 + (digits - 1) = digits := by omega
    rw [shownSingle?_of_pos neg rank hpos, hsplit, shownFrom?_add (Nat.succ_pos _) hpassed, hfirst,
      shownFrom?_succ, hread, Option.bind_some, if_pos (.inl rfl)]

/-- **From the threshold on there is nothing to show.** -/
theorem shownSingle?_eq_none (hge : 34025 * 10 ^ 34 ≤ single.value rank) :
    shownSingle? (.finite neg rank) = none := by
  have hpos : 0 < rank.val := by
    refine Nat.pos_of_ne_zero fun hzero => ?_
    rw [hzero, single.value_zero] at hge
    exact absurd hge (by norm_num)
  have hpassed : ∀ e, 1 ≤ e → e < 1 + 3 → ∃ y : Single,
      (roundedSingle neg rank e).toSingle? = some y ∧ y ≠ .finite neg rank := by
    intro e hlow hless
    have hle := value_roundToDigits_le_of_lt_four hpos rank.isLt hge hlow hless
    exact exists_toSingle?_ne neg rank (back_lt_of_value_le hpos (hle.trans (by norm_num)))
      (back_ne hpos rank.isLt hge hlow hless)
  have hstop := finiteCount_le_back_four hpos rank.isLt hge
  rw [shownSingle?_of_pos neg rank hpos, shownFrom?_add (by decide : 0 < 6) hpassed,
    shownFrom?_succ, toSingle?_rounded_of_ge rank.isLt neg 4 hstop, Option.bind_none]

end Shown

end Floating
end ScriptHost
