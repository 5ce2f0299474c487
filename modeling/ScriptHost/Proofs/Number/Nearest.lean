import ScriptHost.Number.Shortest
import Mathlib.Data.Rat.Floor
import Mathlib.Tactic

/-!
# Rounding to a binary format

The magnitudes of a format are rational numbers, one for each rank, and they grow with it.  How far
the next one is depends on the rank only through the stretch that it is in, so the gaps can be
compared with the magnitude itself.  `Format.nearest` takes any rational number to a rank, and no
other magnitude is nearer.

* `Format.value`, `Format.units_succ`, `Format.value_le_mul_abs_sub`: magnitudes and their gaps.
* `Format.abs_units_rankNearest_sub_le`: rounding finds a magnitude than which none is nearer.
* `Format.rankNearest_eq_nearest`: only the quotient matters, so it is a function of the rational.
* `Format.nearest_le`, `Format.le_nearest`, `Format.nearest_eq_of_near`: it is monotone, and it
  finds a magnitude that is near enough.
* `Format.abs_value_nearest_sub_le_div`: it errs by half a gap at most.
-/

namespace ScriptHost

/-! ## Rounding a quotient -/

theorem roundDiv_mul_mul {k : Nat} (hk : 0 < k) (num den : Nat) :
    roundDiv (k * num) (k * den) = roundDiv num den := by
  have hless (a b : Nat) : 2 * (k * a) < k * b ↔ 2 * a < b := by
    rw [Nat.mul_left_comm, Nat.mul_lt_mul_left hk]
  have hmore (a b : Nat) : k * b < 2 * (k * a) ↔ b < 2 * a := by
    rw [Nat.mul_left_comm, Nat.mul_lt_mul_left hk]
  simp only [roundDiv, Nat.mul_div_mul_left _ _ hk, Nat.mul_mod_mul_left, hless, hmore]

theorem roundDiv_eq_or (num den : Nat) :
    roundDiv num den = num / den ∨ roundDiv num den = num / den + 1 := by
  rw [roundDiv]
  split
  · exact .inl rfl
  · split
    · exact .inr rfl
    · rcases Nat.mod_two_eq_zero_or_one (num / den) with hmod | hmod
      · exact .inl (by rw [hmod, Nat.add_zero])
      · exact .inr (by rw [hmod])

/-- Rounding a quotient errs by one half at most. -/
theorem abs_roundDiv_sub_le {den : Nat} (hden : 0 < den) (num : Nat) :
    |(roundDiv num den : ℚ) - num / den| ≤ 1 / 2 := by
  have hsplit : (den : ℚ) * (num / den : Nat) + (num % den : Nat) = num := by
    exact_mod_cast Nat.div_add_mod num den
  have hpos : (0 : ℚ) < den := by exact_mod_cast hden
  have hquotient : (num : ℚ) / den = (num / den : Nat) + (num % den : Nat) / den := by
    rw [← hsplit]
    field_simp
  have hrest : ((num % den : Nat) : ℚ) / den * (2 * den) = 2 * (num % den : Nat) := by field_simp
  have hnonneg : (0 : ℚ) ≤ ((num % den : Nat) : ℚ) / den := by positivity
  rw [hquotient, abs_le, roundDiv]
  split
  · rename_i h
    have h : (2 : ℚ) * (num % den : Nat) < den := by exact_mod_cast h
    constructor <;> nlinarith
  · split
    · rename_i h
      have h : (den : ℚ) < 2 * (num % den : Nat) := by exact_mod_cast h
      have hlt : ((num % den : Nat) : ℚ) < den := by exact_mod_cast Nat.mod_lt num hden
      push_cast
      constructor <;> nlinarith
    · have htie : (2 : ℚ) * (num % den : Nat) = den := by exact_mod_cast (by omega)
      have hhalf : ((num % den : Nat) : ℚ) / den = 1 / 2 := by
        rw [div_eq_div_iff hpos.ne' two_ne_zero]
        linarith
      have hodd : num / den % 2 < 2 := Nat.mod_lt _ two_pos
      rw [hhalf]
      interval_cases num / den % 2 <;> push_cast <;> constructor <;> linarith

theorem roundDiv_le {num den n : Nat} (hden : 0 < den) (h : (num : ℚ) / den ≤ n) :
    roundDiv num den ≤ n := by
  have hround := (abs_le.mp (abs_roundDiv_sub_le hden num)).2
  have hlt : (roundDiv num den : ℚ) < (n + 1 : Nat) := by
    push_cast
    linarith
  exact Nat.le_of_lt_succ (by exact_mod_cast hlt)

theorem le_roundDiv {num den n : Nat} (hden : 0 < den) (h : (n : ℚ) ≤ num / den) :
    n ≤ roundDiv num den := by
  have hround := (abs_le.mp (abs_roundDiv_sub_le hden num)).1
  have hlt : (n : ℚ) < (roundDiv num den + 1 : Nat) := by
    push_cast
    linarith
  exact Nat.le_of_lt_succ (by exact_mod_cast hlt)

namespace Format

variable (F : Format)

/-! ## Magnitudes and their gaps -/

/-- Below the second stretch the units are the ranks. -/
theorem units_of_lt {rank : Nat} (h : rank < 2 ^ F.fractionBits) : F.units rank = rank := by
  rw [units, Nat.pow_eq]
  exact if_pos h

/-- Where a rank stands in its stretch; its end is the beginning of the next. -/
theorem units_add {k : Nat} (hk : k ≤ 2 ^ F.fractionBits) (e : Nat) :
    F.units ((e + 1) * 2 ^ F.fractionBits + k) = (2 ^ F.fractionBits + k) * 2 ^ e := by
  have hpos : 0 < 2 ^ F.fractionBits := Nat.two_pow_pos _
  generalize hblock : 2 ^ F.fractionBits = block at hk hpos
  have hstretch (d j : Nat) (hj : j < block) :
      F.units ((d + 1) * block + j) = (block + j) * 2 ^ d := by
    have hge : ¬ (d + 1) * block + j < block := by
      rw [Nat.add_mul, Nat.one_mul]
      omega
    have hdiv : ((d + 1) * block + j) / block = d + 1 := by
      rw [Nat.mul_comm, Nat.mul_add_div hpos, Nat.div_eq_of_lt hj, Nat.add_zero]
    have hmod : ((d + 1) * block + j) % block = j := by
      rw [Nat.mul_comm, Nat.mul_add_mod, Nat.mod_eq_of_lt hj]
    rw [units, Nat.pow_eq, hblock]
    simp only [if_neg hge, hdiv, hmod, Nat.add_sub_cancel, Nat.pow_eq]
  rcases Nat.lt_or_eq_of_le hk with hlt | rfl
  · exact hstretch e k hlt
  · have hend : (e + 1) * k + k = (e + 1 + 1) * k + 0 := by ring
    rw [hend, hstretch (e + 1) 0 hpos, Nat.pow_succ]
    ring

/-- Every rank stands in the first stretch or in a later one. -/
theorem rank_cases (rank : Nat) : rank < 2 ^ F.fractionBits ∨
    ∃ e k, k < 2 ^ F.fractionBits ∧ rank = (e + 1) * 2 ^ F.fractionBits + k := by
  have hpos : 0 < 2 ^ F.fractionBits := Nat.two_pow_pos _
  generalize 2 ^ F.fractionBits = block at hpos
  by_cases h : rank < block
  · exact .inl h
  · refine .inr ⟨rank / block - 1, rank % block, Nat.mod_lt _ hpos, ?_⟩
    have hdiv : 1 ≤ rank / block := (Nat.one_le_div_iff hpos).mpr (Nat.le_of_not_lt h)
    rw [Nat.sub_add_cancel hdiv, Nat.mul_comm, Nat.div_add_mod]

/-- How many units the next magnitude holds more. -/
def gap (rank : Nat) : Nat := 2 ^ (rank / 2 ^ F.fractionBits - 1)

theorem gap_pos (rank : Nat) : 0 < F.gap rank := Nat.two_pow_pos _

theorem gap_of_lt {rank : Nat} (h : rank < 2 ^ F.fractionBits) : F.gap rank = 1 := by
  rw [gap, Nat.div_eq_of_lt h]
  rfl

theorem gap_add {k : Nat} (hk : k < 2 ^ F.fractionBits) (e : Nat) :
    F.gap ((e + 1) * 2 ^ F.fractionBits + k) = 2 ^ e := by
  rw [gap, Nat.mul_comm, Nat.mul_add_div (Nat.two_pow_pos _), Nat.div_eq_of_lt hk, Nat.add_zero,
    Nat.add_sub_cancel]

theorem units_succ (rank : Nat) : F.units (rank + 1) = F.units rank + F.gap rank := by
  rcases F.rank_cases rank with h | ⟨e, k, hk, rfl⟩
  · rw [F.units_of_lt h, F.gap_of_lt h]
    rcases Nat.lt_or_eq_of_le (Nat.succ_le_of_lt h) with hlt | heq
    · exact F.units_of_lt hlt
    · have hfirst := F.units_add (Nat.zero_le _) 0
      simp only [Nat.zero_add, Nat.one_mul, Nat.add_zero, Nat.pow_zero, Nat.mul_one, ← heq]
        at hfirst
      exact hfirst
  · have hsucc : k + 1 ≤ 2 ^ F.fractionBits := hk
    rw [Nat.add_assoc, F.units_add hsucc, F.units_add hk.le, F.gap_add hk]
    ring

/-- **Magnitudes grow with their rank.** -/
theorem strictMono_units : StrictMono F.units :=
  strictMono_nat_of_lt_succ fun rank => by
    rw [units_succ]
    exact Nat.lt_add_of_pos_right (F.gap_pos rank)

/-- A magnitude is small against the gap behind it. -/
theorem units_succ_le_mul_gap (rank : Nat) :
    F.units (rank + 1) ≤ 2 ^ (F.fractionBits + 1) * F.gap rank := by
  rw [units_succ, Nat.pow_succ, Nat.mul_two]
  rcases F.rank_cases rank with h | ⟨e, k, hk, rfl⟩
  · rw [F.units_of_lt h, F.gap_of_lt h]
    omega
  · rw [F.units_add hk.le, F.gap_add hk, ← Nat.succ_mul]
    exact Nat.mul_le_mul_right _ (by omega)

/-- **No other magnitude is nearer than the gaps allow.** -/
theorem units_le_mul_abs_sub {rank other : Nat} (h : other ≠ rank) :
    (F.units rank : ℚ) ≤ 2 ^ (F.fractionBits + 1) * |(F.units other : ℚ) - F.units rank| := by
  have hscale : (0 : ℚ) < 2 ^ (F.fractionBits + 1) := by positivity
  rcases Nat.lt_or_gt_of_ne h with hlt | hgt
  · -- the magnitude before this one is nearer than any other below
    obtain ⟨before, rfl⟩ : ∃ before, rank = before + 1 := ⟨rank - 1, by omega⟩
    have hle : F.units other ≤ F.units before := F.strictMono_units.monotone (by omega)
    have hgap : (F.units (before + 1) : ℚ) ≤ 2 ^ (F.fractionBits + 1) * F.gap before := by
      exact_mod_cast F.units_succ_le_mul_gap before
    have hfar : (F.gap before : ℚ) ≤ |(F.units other : ℚ) - F.units (before + 1)| := by
      rw [abs_sub_comm, F.units_succ]
      refine le_trans ?_ (le_abs_self _)
      push_cast
      have hle : (F.units other : ℚ) ≤ F.units before := by exact_mod_cast hle
      linarith
    exact hgap.trans (mul_le_mul_of_nonneg_left hfar hscale.le)
  · have hle : F.units (rank + 1) ≤ F.units other := F.strictMono_units.monotone hgt
    have hgap : (F.units (rank + 1) : ℚ) ≤ 2 ^ (F.fractionBits + 1) * F.gap rank := by
      exact_mod_cast F.units_succ_le_mul_gap rank
    have hsucc : (F.units (rank + 1) : ℚ) = F.units rank + F.gap rank := by
      exact_mod_cast F.units_succ rank
    have hfar : (F.gap rank : ℚ) ≤ |(F.units other : ℚ) - F.units rank| := by
      refine le_trans ?_ (le_abs_self _)
      have hle : (F.units (rank + 1) : ℚ) ≤ F.units other := by exact_mod_cast hle
      linarith
    have hnonneg : (0 : ℚ) ≤ F.gap rank := by positivity
    linarith [mul_le_mul_of_nonneg_left hfar hscale.le]

/-! ## The nearest magnitude -/

/-- How far a quotient is scaled down until its whole part has no more than the bits of a
fraction and one. -/
def shift (num den : Nat) : Nat := (num / den).log2 - F.fractionBits

theorem rankNearest_eq (num den : Nat) : F.rankNearest num den =
    F.shift num den * 2 ^ F.fractionBits + roundDiv num (den * 2 ^ F.shift num den) := rfl

/-- A quotient lies in the stretch that its shift leads to … -/
theorem lt_of_shift (num : Nat) {den : Nat} (hden : 0 < den) :
    (num : ℚ) / den < 2 ^ (F.fractionBits + 1) * 2 ^ F.shift num den := by
  have hlt : num / den < 2 ^ (F.fractionBits + 1 + F.shift num den) := by
    refine Nat.lt_of_lt_of_le Nat.lt_log2_self (Nat.pow_le_pow_right two_pos ?_)
    rw [shift]
    omega
  rw [← pow_add, div_lt_iff₀ (by exact_mod_cast hden)]
  exact_mod_cast (Nat.div_lt_iff_lt_mul hden).mp hlt

/-- … and not before it, unless that is the first. -/
theorem le_of_shift {num den : Nat} (hden : 0 < den) (hshift : 0 < F.shift num den) :
    (2 : ℚ) ^ F.fractionBits * 2 ^ F.shift num den ≤ num / den := by
  have hpos : (0 : ℚ) < den := by exact_mod_cast hden
  rw [shift] at hshift
  have hne : num / den ≠ 0 := by
    intro hzero
    rw [hzero, Nat.log2_zero] at hshift
    omega
  have hle : 2 ^ (F.fractionBits + F.shift num den) ≤ num / den := by
    rw [shift, Nat.add_sub_cancel' (by omega)]
    exact Nat.log2_self_le hne
  rw [← pow_add, le_div_iff₀ hpos]
  exact_mod_cast (Nat.le_div_iff_mul_le hden).mp hle

section Rounding

variable (num : Nat) {den : Nat} (hden : 0 < den)
include hden

/-- The quotient in the stretch is rounded to a whole number. -/
theorem abs_roundDiv_shift_sub_le :
    |(roundDiv num (den * 2 ^ F.shift num den) : ℚ) - num / den / 2 ^ F.shift num den| ≤ 1 / 2 := by
  have hround := abs_roundDiv_sub_le (Nat.mul_pos hden (Nat.two_pow_pos (F.shift num den))) num
  push_cast at hround
  rwa [← div_div] at hround

theorem roundDiv_shift_le :
    roundDiv num (den * 2 ^ F.shift num den) ≤ 2 ^ (F.fractionBits + 1) := by
  refine roundDiv_le (Nat.mul_pos hden (Nat.two_pow_pos _)) ?_
  push_cast
  rw [← div_div, div_le_iff₀ (by positivity)]
  exact (F.lt_of_shift num hden).le

theorem le_roundDiv_shift (hshift : 0 < F.shift num den) :
    2 ^ F.fractionBits ≤ roundDiv num (den * 2 ^ F.shift num den) := by
  refine le_roundDiv (Nat.mul_pos hden (Nat.two_pow_pos _)) ?_
  push_cast
  rw [← div_div, le_div_iff₀ (by positivity)]
  exact F.le_of_shift hden hshift

/-- The nearest rank has a whole number of steps of its stretch for a magnitude. -/
theorem units_rankNearest : F.units (F.rankNearest num den) =
    roundDiv num (den * 2 ^ F.shift num den) * 2 ^ F.shift num den := by
  have hle := F.roundDiv_shift_le num hden
  have hge := F.le_roundDiv_shift num hden
  rw [rankNearest_eq]
  generalize roundDiv num (den * 2 ^ F.shift num den) = m at hle hge
  rw [Nat.pow_succ] at hle
  rcases Nat.eq_zero_or_pos (F.shift num den) with hzero | hpos
  · rw [hzero, Nat.zero_mul, Nat.zero_add, Nat.pow_zero, Nat.mul_one]
    by_cases hm : m < 2 ^ F.fractionBits
    · exact F.units_of_lt hm
    · obtain ⟨k, rfl⟩ := Nat.exists_eq_add_of_le (Nat.le_of_not_lt hm)
      have hk := F.units_add (k := k) (by omega) 0
      rwa [Nat.zero_add, Nat.one_mul, Nat.pow_zero, Nat.mul_one] at hk
  · obtain ⟨k, rfl⟩ := Nat.exists_eq_add_of_le (hge hpos)
    obtain ⟨e, he⟩ := Nat.exists_eq_add_of_lt hpos
    rw [Nat.zero_add] at he
    have hk := F.units_add (k := k) (by omega) (e + 1)
    rw [he, ← Nat.add_assoc, ← Nat.succ_mul]
    exact hk

/-- Rounding errs by half a step at most … -/
theorem abs_units_rankNearest_sub_le_half :
    |(F.units (F.rankNearest num den) : ℚ) - num / den| ≤ 2 ^ F.shift num den / 2 := by
  have hround := F.abs_roundDiv_shift_sub_le num hden
  have hscale : (0 : ℚ) < 2 ^ F.shift num den := by positivity
  rw [F.units_rankNearest num hden]
  push_cast
  calc |(roundDiv num (den * 2 ^ F.shift num den) : ℚ) * 2 ^ F.shift num den - num / den|
      = |(roundDiv num (den * 2 ^ F.shift num den) : ℚ) - num / den / 2 ^ F.shift num den| *
          2 ^ F.shift num den := by
        rw [← abs_of_pos hscale, ← abs_mul, abs_of_pos hscale, sub_mul,
          div_mul_cancel₀ _ hscale.ne']
    _ ≤ 1 / 2 * 2 ^ F.shift num den := mul_le_mul_of_nonneg_right hround hscale.le
    _ = 2 ^ F.shift num den / 2 := by ring

/-- … and what has left the first stretch holds many steps. -/
theorem pow_mul_pow_shift_le_units (h : 2 ^ F.fractionBits ≤ F.rankNearest num den) :
    2 ^ F.fractionBits * 2 ^ F.shift num den ≤ F.units (F.rankNearest num den) := by
  rw [F.units_rankNearest num hden]
  refine Nat.mul_le_mul_right _ ?_
  rcases Nat.eq_zero_or_pos (F.shift num den) with hzero | hpos
  · rwa [rankNearest_eq, hzero, Nat.zero_mul, Nat.zero_add, ← hzero] at h
  · exact F.le_roundDiv_shift num hden hpos

/-- No whole number of steps is nearer. -/
theorem abs_units_rankNearest_sub_le_mul (j : Nat) :
    |(F.units (F.rankNearest num den) : ℚ) - num / den| ≤
      |(j : ℚ) * 2 ^ F.shift num den - num / den| := by
  have hround := F.abs_units_rankNearest_sub_le_half num hden
  have hscale : (0 : ℚ) < 2 ^ F.shift num den := by positivity
  rw [F.units_rankNearest num hden] at hround ⊢
  push_cast at hround ⊢
  generalize roundDiv num (den * 2 ^ F.shift num den) = m at hround ⊢
  rcases eq_or_ne j m with rfl | hne
  · exact le_rfl
  · -- another one is a whole step away from the nearest
    have hstep : (1 : ℚ) ≤ |(j : ℚ) - m| := by
      have hint : (1 : ℤ) ≤ |(j : ℤ) - m| :=
        Int.one_le_abs (sub_ne_zero.mpr (by exact_mod_cast hne))
      exact_mod_cast hint
    have hfar : (2 : ℚ) ^ F.shift num den ≤
        |(j : ℚ) * 2 ^ F.shift num den - m * 2 ^ F.shift num den| := by
      rw [← sub_mul, abs_mul, abs_of_pos hscale]
      exact le_mul_of_one_le_left hscale.le hstep
    have htriangle := abs_sub_le ((j : ℚ) * 2 ^ F.shift num den) (num / den)
      (m * 2 ^ F.shift num den)
    rw [abs_sub_comm (num / den : ℚ)] at htriangle
    linarith

/-- **No magnitude is nearer to a quotient than the one that it is rounded to.** -/
theorem abs_units_rankNearest_sub_le (other : Nat) :
    |(F.units (F.rankNearest num den) : ℚ) - num / den| ≤ |(F.units other : ℚ) - num / den| := by
  rcases Nat.eq_zero_or_pos (F.shift num den) with hzero | hpos
  · have hsteps := F.abs_units_rankNearest_sub_le_mul num hden (F.units other)
    rwa [hzero, pow_zero, mul_one] at hsteps
  · obtain ⟨e, he⟩ := Nat.exists_eq_add_of_lt hpos
    rw [Nat.zero_add] at he
    by_cases hother : (e + 1 + 1) * 2 ^ F.fractionBits ≤ other
    · -- the steps of later stretches are made of those of this one
      rcases F.rank_cases other with hlt | ⟨d, k, hk, rfl⟩
      · have hone : 2 ^ F.fractionBits ≤ (e + 1 + 1) * 2 ^ F.fractionBits :=
          Nat.le_mul_of_pos_left _ (Nat.succ_pos _)
        omega
      · have hd : e + 1 ≤ d := by
          by_contra hlt
          have hle : d + 1 + 1 ≤ e + 1 + 1 := by omega
          have hmul := Nat.mul_le_mul_right (2 ^ F.fractionBits) hle
          rw [Nat.succ_mul (d + 1)] at hmul
          omega
        have hsteps := F.abs_units_rankNearest_sub_le_mul num hden
          ((2 ^ F.fractionBits + k) * 2 ^ (d - (e + 1)))
        have hunits : ((2 ^ F.fractionBits + k) * 2 ^ (d - (e + 1)) : Nat) * 2 ^ F.shift num den =
            F.units ((d + 1) * 2 ^ F.fractionBits + k) := by
          rw [F.units_add hk.le, he, Nat.mul_assoc, ← Nat.pow_add, Nat.sub_add_cancel hd]
        rw [← hunits]
        push_cast at hsteps ⊢
        exact hsteps
    · -- what comes before the stretch is further away than its beginning
      have hfirst := F.units_add (Nat.zero_le _) (e + 1)
      simp only [Nat.add_zero, ← he] at hfirst
      have hbelow : F.units other ≤ 2 ^ F.fractionBits * 2 ^ F.shift num den := by
        rw [← hfirst, he]
        exact F.strictMono_units.monotone (by omega)
      have hstart := F.le_of_shift hden hpos
      have hsteps := F.abs_units_rankNearest_sub_le_mul num hden (2 ^ F.fractionBits)
      have hbelow : (F.units other : ℚ) ≤ 2 ^ F.fractionBits * 2 ^ F.shift num den := by
        exact_mod_cast hbelow
      push_cast at hsteps
      have hbefore : (2 : ℚ) ^ F.fractionBits * 2 ^ F.shift num den - num / den ≤ 0 := by linarith
      rw [abs_of_nonpos hbefore] at hsteps
      rw [abs_of_nonpos (by linarith : (F.units other : ℚ) - num / den ≤ 0)]
      linarith

end Rounding

/-! ## Rounding rational numbers -/

theorem rankNearest_mul_mul {k : Nat} (hk : 0 < k) (num den : Nat) :
    F.rankNearest (k * num) (k * den) = F.rankNearest num den := by
  have hshift : F.shift (k * num) (k * den) = F.shift num den := by
    rw [shift, shift, Nat.mul_div_mul_left _ _ hk]
  rw [rankNearest_eq, rankNearest_eq, hshift, Nat.mul_assoc, roundDiv_mul_mul hk]

/-- The magnitude of a rank. -/
def value (rank : Nat) : ℚ := F.units rank / 2 ^ F.unitScale

/-- The rank nearest to a magnitude, a tie going to the even rank. -/
def nearest (v : ℚ) : Nat :=
  F.rankNearest (v * 2 ^ F.unitScale).num.natAbs (v * 2 ^ F.unitScale).den

/-- **Only the quotient matters.** -/
theorem rankNearest_eq_nearest {num den : Nat} (hden : 0 < den) {v : ℚ}
    (hv : (num : ℚ) / den = v * 2 ^ F.unitScale) : F.rankNearest num den = F.nearest v := by
  rw [nearest, ← hv]
  set q : ℚ := num / den with hq
  have hnonneg : 0 ≤ q.num := Rat.num_nonneg.mpr (by positivity)
  have hcross : q.den * num = den * q.num.natAbs := by
    have hpos : (0 : ℚ) < den := by exact_mod_cast hden
    have heq : (q.num : ℚ) / q.den = num / den := by rw [Rat.num_div_den]
    rw [div_eq_div_iff (by exact_mod_cast q.den_nz) hpos.ne'] at heq
    have habs : ((q.num.natAbs : Nat) : ℚ) = q.num := by
      rw [Nat.cast_natAbs, abs_of_nonneg hnonneg]
    have hcast : ((q.den * num : Nat) : ℚ) = (den * q.num.natAbs : Nat) := by
      push_cast
      rw [habs]
      linarith
    exact_mod_cast hcast
  rw [← F.rankNearest_mul_mul q.den_pos, hcross, Nat.mul_comm q.den den,
    F.rankNearest_mul_mul hden]

theorem value_nonneg (rank : Nat) : 0 ≤ F.value rank := by
  rw [value]
  positivity

/-- Magnitudes beyond the first stretch are a few bits times a power of two. -/
theorem value_add {k : Nat} (hk : k ≤ 2 ^ F.fractionBits) (e : Nat) :
    F.value ((e + 1) * 2 ^ F.fractionBits + k) =
      (2 ^ F.fractionBits + k) * 2 ^ ((e : Int) - F.unitScale) := by
  rw [value, F.units_add hk, zpow_sub₀ two_ne_zero, zpow_natCast, zpow_natCast]
  push_cast
  rw [mul_div_assoc]

theorem units_eq (rank : Nat) : (F.units rank : ℚ) = F.value rank * 2 ^ F.unitScale := by
  rw [value, div_mul_cancel₀ _ (by positivity)]

theorem strictMono_value : StrictMono F.value := by
  intro rank other h
  rw [value, value]
  have hunits : (F.units rank : ℚ) < F.units other := by exact_mod_cast F.strictMono_units h
  gcongr

theorem value_zero : F.value 0 = 0 := by
  rw [value, F.units_of_lt (Nat.two_pow_pos _), Nat.cast_zero, zero_div]

theorem value_pos {rank : Nat} (h : 0 < rank) : 0 < F.value rank := by
  rw [← F.value_zero]
  exact F.strictMono_value h

/-- **No other magnitude is nearer than the gaps allow.** -/
theorem value_le_mul_abs_sub {rank other : Nat} (h : other ≠ rank) :
    F.value rank ≤ 2 ^ (F.fractionBits + 1) * |F.value other - F.value rank| := by
  have hscale : (0 : ℚ) < 2 ^ F.unitScale := by positivity
  have hunits := F.units_le_mul_abs_sub h
  rw [units_eq, units_eq, ← sub_mul, abs_mul, abs_of_pos hscale, ← mul_assoc] at hunits
  exact le_of_mul_le_mul_right hunits hscale

section Nearest

variable {v : ℚ} (hv : 0 ≤ v)
include hv

/-- A magnitude as a quotient of units. -/
theorem natAbs_num_div_den : ((v * 2 ^ F.unitScale).num.natAbs : ℚ) / (v * 2 ^ F.unitScale).den =
    v * 2 ^ F.unitScale := by
  have hnonneg : 0 ≤ (v * 2 ^ F.unitScale).num := Rat.num_nonneg.mpr (by positivity)
  rw [Nat.cast_natAbs, abs_of_nonneg hnonneg]
  exact Rat.num_div_den _

/-- **No magnitude is nearer to a number than the one that it is rounded to.** -/
theorem abs_value_nearest_sub_le (other : Nat) :
    |F.value (F.nearest v) - v| ≤ |F.value other - v| := by
  have hscale : (0 : ℚ) < 2 ^ F.unitScale := by positivity
  have hunits := F.abs_units_rankNearest_sub_le (v * 2 ^ F.unitScale).num.natAbs
    (v * 2 ^ F.unitScale).den_pos other
  rw [← nearest, F.natAbs_num_div_den hv, units_eq, units_eq, ← sub_mul, ← sub_mul, abs_mul,
    abs_mul, abs_of_pos hscale] at hunits
  exact le_of_mul_le_mul_right hunits hscale

/-- Rounding errs by half a gap at most, and the gaps are small against what has left the first
stretch. -/
theorem abs_value_nearest_sub_le_div (h : 2 ^ F.fractionBits ≤ F.nearest v) :
    |F.value (F.nearest v) - v| ≤ F.value (F.nearest v) / 2 ^ (F.fractionBits + 1) := by
  have hscale : (0 : ℚ) < 2 ^ F.unitScale := by positivity
  have hden := (v * 2 ^ F.unitScale).den_pos
  have hhalf := F.abs_units_rankNearest_sub_le_half (v * 2 ^ F.unitScale).num.natAbs hden
  have hsteps : ((2 ^ F.fractionBits * 2 ^ F.shift (v * 2 ^ F.unitScale).num.natAbs
      (v * 2 ^ F.unitScale).den : Nat) : ℚ) ≤ F.units (F.nearest v) :=
    Nat.cast_le.mpr (F.pow_mul_pow_shift_le_units _ hden h)
  push_cast at hsteps
  rw [← nearest, F.natAbs_num_div_den hv, units_eq, ← sub_mul, abs_mul, abs_of_pos hscale] at hhalf
  rw [units_eq] at hsteps
  refine le_of_mul_le_mul_right (hhalf.trans ?_) hscale
  rw [pow_succ, div_mul_eq_mul_div, le_div_iff₀ (by positivity)]
  linarith

/-- A number that is not greater than a magnitude is not rounded to a greater one. -/
theorem nearest_le {rank : Nat} (h : v ≤ F.value rank) : F.nearest v ≤ rank := by
  by_contra hlt
  have hgreater := F.strictMono_value (Nat.lt_of_not_le hlt)
  have hnearest := F.abs_value_nearest_sub_le hv rank
  rw [abs_of_nonneg (by linarith), abs_of_nonneg (by linarith)] at hnearest
  linarith

/-- A number that is not less than a magnitude is not rounded to a lesser one. -/
theorem le_nearest {rank : Nat} (h : F.value rank ≤ v) : rank ≤ F.nearest v := by
  by_contra hlt
  have hless := F.strictMono_value (Nat.lt_of_not_le hlt)
  have hnearest := F.abs_value_nearest_sub_le hv rank
  rw [abs_of_nonpos (by linarith), abs_of_nonpos (by linarith)] at hnearest
  linarith

/-- **A number that is near to a magnitude against its gaps is rounded to it.** -/
theorem nearest_eq_of_near {rank : Nat}
    (h : 2 ^ (F.fractionBits + 2) * |v - F.value rank| < F.value rank) : F.nearest v = rank := by
  by_contra hne
  have hgap := F.value_le_mul_abs_sub hne
  have hnearest := F.abs_value_nearest_sub_le hv rank
  rw [abs_sub_comm (F.value rank)] at hnearest
  have htriangle := abs_sub_le (F.value (F.nearest v)) v (F.value rank)
  have hfar : F.value rank ≤ 2 ^ (F.fractionBits + 1) * (2 * |v - F.value rank|) := by
    refine hgap.trans (mul_le_mul_of_nonneg_left ?_ (by positivity))
    linarith
  rw [pow_succ] at h
  linarith

end Nearest

/-- A magnitude is not changed by rounding. -/
theorem nearest_value (rank : Nat) : F.nearest (F.value rank) = rank :=
  Nat.le_antisymm (F.nearest_le (F.value_nonneg rank) le_rfl)
    (F.le_nearest (F.value_nonneg rank) le_rfl)

end Format
end ScriptHost
