import ScriptHost.Proofs.Number.Decimal
import ScriptHost.Proofs.Number.Nearest
import Mathlib.Tactic

/-!
# Between magnitudes and decimals

Reading a decimal, writing a magnitude and rounding one to a number of digits, in terms of the
rational numbers that decimals and ranks stand for.

* `Format.rankOfDecimal_eq`: reading takes the nearest rank to the value.
* `Format.zpow_leading_le`, `Format.value_lt_zpow`: where the first digit of a magnitude stands.
* `Format.abs_value_roundAt_sub_le`: rounding to a power of ten errs by half a step at most.
* `Format.nearest_value_shortest`: the shortest decimal reads back.
* `Format.value_shortest`: a decimal with few digits is the shortest of what it is read as.
-/

namespace ScriptHost
namespace Format

variable (F : Format)

/-! ## Reading a decimal -/

/-- **Only the value of a decimal matters for the rank that it is read as.** -/
theorem rankOfDecimal_eq (d : Decimal) : F.rankOfDecimal d = F.nearest d.value := by
  rw [rankOfDecimal]
  rcases lt_or_ge d.exponent 0 with h | h
  · obtain ⟨places, hplaces⟩ := Int.exists_eq_neg_ofNat h.le
    rw [if_neg (not_le.mpr h)]
    refine F.rankNearest_eq_nearest (Nat.pow_pos (by decide)) ?_
    rw [Decimal.value, hplaces, neg_neg, Int.toNat_natCast, zpow_neg, zpow_natCast, Nat.pow_eq]
    push_cast
    ring
  · rw [if_pos h]
    refine F.rankNearest_eq_nearest Nat.one_pos ?_
    rw [Decimal.value_of_nonneg h, Nat.pow_eq, Nat.pow_eq]
    push_cast
    ring

theorem value_exact (rank : Nat) : (F.exact rank).value = F.value rank := by
  have hpow : (5 : ℚ) ^ F.unitScale * 2 ^ F.unitScale = 10 ^ F.unitScale := by
    rw [← mul_pow]
    norm_num
  rw [exact, Decimal.value, value, zpow_neg, zpow_natCast, Nat.pow_eq, ← hpow]
  push_cast
  field_simp

/-! ## A magnitude on a decimal grid -/

/-- The denominator of a scaled magnitude is not zero, … -/
theorem scaled_pos (units : Nat) (x : Int) : 0 < (F.scaled units x).2 := by
  have hscale : 0 < Nat.pow 2 F.unitScale := Nat.two_pow_pos _
  rw [scaled]
  split
  · exact Nat.mul_pos hscale (Nat.pow_pos (by decide))
  · exact hscale

/-- … and the quotient is the magnitude in steps of the power of ten. -/
theorem scaled_eq (rank : Nat) (x : Int) :
    ((F.scaled (F.units rank) x).1 : ℚ) / (F.scaled (F.units rank) x).2 =
      F.value rank / 10 ^ x := by
  rw [scaled, value]
  rcases lt_or_ge x 0 with h | h
  · obtain ⟨places, rfl⟩ := Int.exists_eq_neg_ofNat h.le
    rw [if_neg (not_le.mpr h), neg_neg, Int.toNat_natCast, zpow_neg, zpow_natCast, Nat.pow_eq,
      Nat.pow_eq]
    push_cast
    field_simp
  · obtain ⟨n, rfl⟩ := Int.eq_ofNat_of_zero_le h
    rw [if_pos h, Int.toNat_natCast, zpow_natCast, Nat.pow_eq, Nat.pow_eq]
    push_cast
    rw [div_div]

/-- A magnitude rounded to whole steps of a power of ten. -/
def roundAt (rank : Nat) (x : Int) : Decimal :=
  ⟨roundDiv (F.scaled (F.units rank) x).1 (F.scaled (F.units rank) x).2, x⟩

theorem value_roundAt (rank : Nat) (x : Int) :
    (F.roundAt rank x).value = (F.roundAt rank x).coefficient * 10 ^ x := rfl

/-- Rounding errs by half a step at most. -/
theorem abs_value_roundAt_sub_le (rank : Nat) (x : Int) :
    |(F.roundAt rank x).value - F.value rank| ≤ 10 ^ x / 2 := by
  have hround := abs_roundDiv_sub_le (F.scaled_pos (F.units rank) x) (F.scaled (F.units rank) x).1
  have hstep : (0 : ℚ) < 10 ^ x := by positivity
  rw [scaled_eq] at hround
  have hmul := mul_le_mul_of_nonneg_right hround hstep.le
  rw [← abs_of_pos hstep, ← abs_mul, abs_of_pos hstep, sub_mul, div_mul_cancel₀ _ hstep.ne'] at hmul
  rw [Decimal.value, roundAt]
  linarith

/-- Rounding does not go below a whole number of steps … -/
theorem le_value_roundAt {rank n : Nat} {x : Int} (h : (n : ℚ) * 10 ^ x ≤ F.value rank) :
    (n : ℚ) * 10 ^ x ≤ (F.roundAt rank x).value := by
  have hstep : (0 : ℚ) < 10 ^ x := by positivity
  have hle : n ≤ roundDiv (F.scaled (F.units rank) x).1 (F.scaled (F.units rank) x).2 := by
    refine le_roundDiv (F.scaled_pos _ x) ?_
    rwa [scaled_eq, le_div_iff₀ hstep]
  rw [Decimal.value, roundAt]
  exact mul_le_mul_of_nonneg_right (by exact_mod_cast hle) hstep.le

/-- … nor above one. -/
theorem value_roundAt_le {rank n : Nat} {x : Int} (h : F.value rank ≤ n * 10 ^ x) :
    (F.roundAt rank x).value ≤ n * 10 ^ x := by
  have hstep : (0 : ℚ) < 10 ^ x := by positivity
  have hle : roundDiv (F.scaled (F.units rank) x).1 (F.scaled (F.units rank) x).2 ≤ n := by
    refine roundDiv_le (F.scaled_pos _ x) ?_
    rwa [scaled_eq, div_le_iff₀ hstep]
  rw [Decimal.value, roundAt]
  exact mul_le_mul_of_nonneg_right (by exact_mod_cast hle) hstep.le

/-! ## The first digit of a magnitude -/

/-- The digits of a magnitude down to a place where it has one. -/
theorem leading_eq (units : Nat) : F.leading units = Decimal.leading
    ⟨units * 10 ^ F.unitScale / 2 ^ F.unitScale, -(F.unitScale : Int)⟩ := by
  have hlength : 0 < (Decimal.digits (units * 10 ^ F.unitScale / 2 ^ F.unitScale)).length :=
    Nat.length_toDigits_pos
  rw [leading, Decimal.leading]
  simp only [Nat.pow_eq]
  omega

theorem units_pos {rank : Nat} (h : 0 < rank) : 0 < F.units rank :=
  (F.units_of_lt (Nat.two_pow_pos F.fractionBits)).symm.trans_lt (F.strictMono_units h)

/-- **A magnitude is not less than the power of ten of its first digit …** -/
theorem zpow_leading_le {rank : Nat} (h : 0 < rank) :
    (10 : ℚ) ^ F.leading (F.units rank) ≤ F.value rank := by
  have hle : 2 ^ F.unitScale ≤ F.units rank * 10 ^ F.unitScale :=
    (Nat.pow_le_pow_left (by decide) _).trans (Nat.le_mul_of_pos_left _ (F.units_pos h))
  have hne : F.units rank * 10 ^ F.unitScale / 2 ^ F.unitScale ≠ 0 :=
    (Nat.div_pos hle (Nat.two_pow_pos _)).ne'
  have hdiv : ((F.units rank * 10 ^ F.unitScale / 2 ^ F.unitScale : Nat) : ℚ) ≤
      F.units rank * 10 ^ F.unitScale / 2 ^ F.unitScale := by
    refine Nat.cast_div_le.trans_eq ?_
    push_cast
    rfl
  rw [leading_eq]
  refine (Decimal.le_value hne).trans ?_
  rw [Decimal.value, zpow_neg, zpow_natCast, ← div_eq_mul_inv, div_le_iff₀ (by positivity), value,
    div_mul_eq_mul_div]
  exact hdiv

/-- **… and less than the next one.** -/
theorem value_lt_zpow (rank : Nat) : F.value rank < (10 : ℚ) ^ (F.leading (F.units rank) + 1) := by
  set n := F.units rank * 10 ^ F.unitScale / 2 ^ F.unitScale with hn
  have hlt : F.units rank * 10 ^ F.unitScale <
      10 ^ (Decimal.digits n).length * 2 ^ F.unitScale := by
    rw [← Nat.div_lt_iff_lt_mul (Nat.two_pow_pos _)]
    exact Decimal.lt_pow_length n
  have hcast : (F.units rank : ℚ) * 10 ^ F.unitScale <
      10 ^ (Decimal.digits n).length * 2 ^ F.unitScale := by exact_mod_cast hlt
  rw [leading_eq, Decimal.leading_add_one, ← hn, zpow_add₀ (by norm_num), zpow_neg, zpow_natCast,
    zpow_natCast, value, div_lt_iff₀ (by positivity), inv_mul_eq_div, div_mul_eq_mul_div,
    lt_div_iff₀ (by positivity)]
  exact hcast

theorem leading_lt {rank : Nat} (h : 0 < rank) {x : Int} (hlt : F.value rank < 10 ^ x) :
    F.leading (F.units rank) < x :=
  (zpow_lt_zpow_iff_right₀ (by norm_num)).mp ((F.zpow_leading_le h).trans_lt hlt)

theorem le_leading {rank : Nat} {x : Int} (hle : 10 ^ x ≤ F.value rank) :
    x ≤ F.leading (F.units rank) :=
  Int.lt_add_one_iff.mp
    ((zpow_lt_zpow_iff_right₀ (by norm_num)).mp (hle.trans_lt (F.value_lt_zpow rank)))

/-! ## Rounding to digits -/

theorem roundToDigits_eq (rank digits : Nat) : F.roundToDigits rank digits =
    F.roundAt rank (F.leading (F.units rank) - (digits - 1 : Nat)) := rfl

theorem exponent_roundToDigits (rank digits : Nat) : (F.roundToDigits rank digits).exponent =
    F.leading (F.units rank) - (digits - 1 : Nat) := rfl

/-- A power of ten is a whole number of steps of a lesser one. -/
theorem zpow_eq_mul_zpow (x : Int) (n : Nat) :
    (10 : ℚ) ^ x = (10 ^ n : Nat) * 10 ^ (x - n) := by
  push_cast
  rw [← zpow_natCast, ← zpow_add₀ (by norm_num)]
  congr 1
  omega

/-- Rounding does not leave the powers of ten around a magnitude. -/
theorem le_value_roundToDigits {rank : Nat} (h : 0 < rank) (digits : Nat) :
    (10 : ℚ) ^ F.leading (F.units rank) ≤ (F.roundToDigits rank digits).value := by
  have hsteps := zpow_eq_mul_zpow (F.leading (F.units rank)) (digits - 1)
  rw [roundToDigits_eq, hsteps]
  refine F.le_value_roundAt ?_
  rw [← hsteps]
  exact F.zpow_leading_le h

theorem value_roundToDigits_le (rank digits : Nat) :
    (F.roundToDigits rank digits).value ≤ (10 : ℚ) ^ (F.leading (F.units rank) + 1) := by
  have hsteps := zpow_eq_mul_zpow (F.leading (F.units rank) + 1) (digits - 1 + 1)
  have hexponent : F.leading (F.units rank) + 1 - ((digits - 1 + 1 : Nat) : Int) =
      F.leading (F.units rank) - (digits - 1 : Nat) := by omega
  rw [hexponent] at hsteps
  rw [roundToDigits_eq, hsteps]
  refine F.value_roundAt_le ?_
  rw [← hsteps]
  exact (F.value_lt_zpow rank).le

/-! ## The shortest decimal -/

/-- The neighbours of a magnitude are the two multiples of the power of ten around it. -/
theorem exists_neighbours_eq (rank : Nat) (x : Int) : ∃ floor : Nat,
    (floor : ℚ) * 10 ^ x ≤ F.value rank ∧ F.value rank < (floor + 1) * 10 ^ x ∧
      ∀ d, d ∈ F.neighbours rank x ↔ d = ⟨floor, x⟩ ∨ d = ⟨floor + 1, x⟩ := by
  have hstep : (0 : ℚ) < 10 ^ x := by positivity
  have hden := F.scaled_pos (F.units rank) x
  have hquotient := F.scaled_eq rank x
  refine ⟨(F.scaled (F.units rank) x).1 / (F.scaled (F.units rank) x).2, ?_, ?_, fun d => ?_⟩
  · rw [← le_div_iff₀ hstep, ← hquotient]
    exact Nat.cast_div_le
  · have hlt : (F.scaled (F.units rank) x).1 < ((F.scaled (F.units rank) x).1 /
        (F.scaled (F.units rank) x).2 + 1) * (F.scaled (F.units rank) x).2 := by
      rw [Nat.succ_mul]
      exact Nat.lt_div_mul_add hden
    rw [← div_lt_iff₀ hstep, ← hquotient, div_lt_iff₀ (by exact_mod_cast hden)]
    exact_mod_cast hlt
  · rw [neighbours]
    rcases roundDiv_eq_or (F.scaled (F.units rank) x).1 (F.scaled (F.units rank) x).2 with h | h
    · simp [h]
    · simp [h, or_comm]

/-- A search from zero finds something not after any hit. -/
theorem exists_findSome?_range {α : Type} {f : Nat → Option α} {n k : Nat} (hk : k < n)
    (hit : (f k).isSome) :
    ∃ i ≤ k, ∃ a, f i = some a ∧ (List.range n).findSome? f = some a := by
  obtain ⟨a, ha⟩ := Option.isSome_iff_exists.mp
    (List.findSome?_isSome_iff.mpr ⟨k, List.mem_range.mpr hk, hit⟩)
  obtain ⟨before, i, after, hrange, hi, hnone⟩ := List.findSome?_eq_some_iff.mp ha
  refine ⟨i, ?_, a, hi, ha⟩
  have hmem : k ∈ before ++ i :: after := hrange ▸ List.mem_range.mpr hk
  have hsorted : (before ++ i :: after).Pairwise (· < ·) := hrange ▸ List.pairwise_lt_range
  rcases List.mem_append.mp hmem with hbefore | hfrom
  · rw [hnone k hbefore] at hit
    exact absurd hit Bool.false_ne_true
  · rcases List.mem_cons.mp hfrom with rfl | hafter
    · exact le_rfl
    · exact (List.rel_of_pairwise_cons (List.pairwise_append.mp hsorted).2.1 hafter).le

/-- If some neighbour on one of the grids reads back, the shortest decimal is one on that grid or a
coarser one. -/
theorem exists_mem_neighbours {rank k : Nat} (h : 0 < rank) (hk : k < 17) {d : Decimal}
    (hd : d ∈ F.neighbours rank (F.leading (F.units rank) - k)) (hread : F.nearest d.value = rank) :
    ∃ i ≤ k, ∃ c ∈ F.neighbours rank (F.leading (F.units rank) - i),
      F.nearest c.value = rank ∧ (F.shortest rank).value = c.value := by
  have hit : ((F.neighbours rank (F.leading (F.units rank) - k)).find?
      fun d => F.rankOfDecimal d == rank).isSome := by
    rw [List.find?_isSome]
    exact ⟨d, hd, by rw [rankOfDecimal_eq, hread, beq_self_eq_true]⟩
  obtain ⟨i, hi, c, hc, hfound⟩ := exists_findSome?_range
    (f := fun i : Nat => (F.neighbours rank (F.leading (F.units rank) - i)).find?
      fun d => F.rankOfDecimal d == rank) hk hit
  refine ⟨i, hi, c, List.mem_of_find?_eq_some hc, ?_, ?_⟩
  · rw [← rankOfDecimal_eq]
    exact eq_of_beq (List.find?_some (p := fun d => F.rankOfDecimal d == rank) hc)
  · rw [shortest, if_neg h.ne']
    simp only [Decimal.value_normalize]
    rw [hfound, Option.getD_some]

/-- What is written reads back. -/
theorem nearest_value_shortest (rank : Nat) : F.nearest (F.shortest rank).value = rank := by
  rw [shortest]
  split
  · rename_i hzero
    rw [hzero, Decimal.value, Nat.cast_zero, zero_mul, ← F.value_zero]
    exact F.nearest_value 0
  · simp only [Decimal.value_normalize]
    generalize hfound : List.findSome? _ _ = found
    cases found with
    | none =>
      rw [Option.getD_none, value_exact]
      exact F.nearest_value rank
    | some c =>
      obtain ⟨i, -, hi⟩ := List.exists_of_findSome?_eq_some hfound
      have hbeq := List.find?_some hi
      rw [Option.getD_some, ← rankOfDecimal_eq]
      exact eq_of_beq hbeq

/-! ## Few digits are enough -/

/-- A whole number of steps of a power of ten. -/
def OnGrid (x : Int) (v : ℚ) : Prop := ∃ n : Nat, v = n * 10 ^ x

theorem onGrid_value {d : Decimal} {x : Int} (h : x ≤ d.exponent) : OnGrid x d.value := by
  obtain ⟨n, hn⟩ := Int.le.dest h
  refine ⟨d.coefficient * 10 ^ n, ?_⟩
  rw [Decimal.value, zpow_eq_mul_zpow d.exponent n, ← hn, add_sub_cancel_right]
  push_cast
  ring

/-- Two of them are the same if they are less than a step apart. -/
theorem OnGrid.eq_of_abs_sub_lt {x : Int} {v w : ℚ} (hv : OnGrid x v) (hw : OnGrid x w)
    (h : |v - w| < 10 ^ x) : v = w := by
  obtain ⟨m, rfl⟩ := hv
  obtain ⟨n, rfl⟩ := hw
  have hstep : (0 : ℚ) < 10 ^ x := by positivity
  rw [← sub_mul, abs_mul, abs_of_pos hstep, mul_lt_iff_lt_one_left hstep] at h
  have hlt : |(m : ℤ) - n| < 1 := by exact_mod_cast h
  have heq : (m : ℤ) = n := by
    rw [Int.abs_lt_one_iff] at hlt
    omega
  obtain rfl : m = n := by exact_mod_cast heq
  rfl

/-- A multiple of a power of ten that is less than a step away is a neighbour. -/
theorem OnGrid.exists_mem_neighbours {x : Int} {v : ℚ} (hv : OnGrid x v) {rank : Nat}
    (h : |v - F.value rank| < 10 ^ x) : ∃ d ∈ F.neighbours rank x, d.value = v := by
  obtain ⟨n, rfl⟩ := hv
  obtain ⟨floor, hle, hlt, hmem⟩ := F.exists_neighbours_eq rank x
  have hstep : (0 : ℚ) < 10 ^ x := by positivity
  rw [abs_lt] at h
  have hlow : (floor : ℚ) < n + 1 := lt_of_mul_lt_mul_right (by linarith) hstep.le
  have hhigh : (n : ℚ) < floor + 2 := lt_of_mul_lt_mul_right (by linarith) hstep.le
  have hlow : floor < n + 1 := by exact_mod_cast hlow
  have hhigh : n < floor + 2 := by exact_mod_cast hhigh
  refine ⟨⟨n, x⟩, (hmem _).mpr ?_, rfl⟩
  rcases Nat.lt_or_ge floor n with hfloor | hfloor
  · obtain rfl : n = floor + 1 := by omega
    exact .inr rfl
  · obtain rfl : n = floor := by omega
    exact .inl rfl

/-- What is read as a rank is within half a step of its magnitude, on a grid with few digits. -/
theorem abs_sub_value_lt {rank k : Nat} (hrank : 2 ^ F.fractionBits ≤ rank)
    (hfew : 10 ^ (k + 1) ≤ 2 ^ F.fractionBits) {v : ℚ} (hv : 0 ≤ v) (hread : F.nearest v = rank) :
    |v - F.value rank| < 10 ^ (F.leading (F.units rank) - k) / 2 := by
  have hbound := F.abs_value_nearest_sub_le_div hv (hrank.trans_eq hread.symm)
  rw [hread, abs_sub_comm, le_div_iff₀ (by positivity), pow_succ] at hbound
  have hlt := F.value_lt_zpow rank
  have hexponent : F.leading (F.units rank) + 1 - ((k + 1 : Nat) : Int) =
      F.leading (F.units rank) - k := by omega
  rw [zpow_eq_mul_zpow _ (k + 1), hexponent] at hlt
  have hfew : ((10 ^ (k + 1) : Nat) : ℚ) ≤ 2 ^ F.fractionBits := by exact_mod_cast hfew
  refine lt_of_mul_lt_mul_right ?_ (by positivity : (0 : ℚ) ≤ 2 ^ F.fractionBits)
  calc |v - F.value rank| * 2 ^ F.fractionBits
      ≤ F.value rank / 2 := by linarith
    _ < (10 ^ (k + 1) : Nat) * 10 ^ (F.leading (F.units rank) - k) / 2 := by linarith
    _ ≤ 2 ^ F.fractionBits * 10 ^ (F.leading (F.units rank) - k) / 2 := by gcongr
    _ = 10 ^ (F.leading (F.units rank) - k) / 2 * 2 ^ F.fractionBits := by ring

/-- **A decimal with few digits is the shortest of the magnitude that it is read as.** -/
theorem value_shortest {rank k : Nat} {d : Decimal} (hread : F.nearest d.value = rank)
    (hrank : 2 ^ F.fractionBits ≤ rank) (hk : k < 17) (hfew : 10 ^ (k + 1) ≤ 2 ^ F.fractionBits)
    (hexponent : F.leading (F.units rank) - k ≤ d.exponent) :
    (F.shortest rank).value = d.value := by
  set x := F.leading (F.units rank) - k with hx
  have hstep : (0 : ℚ) < 10 ^ x := by positivity
  have hd := F.abs_sub_value_lt hrank hfew d.value_nonneg hread
  -- it is a neighbour on its own grid, so the search ends there at the latest
  obtain ⟨d', hmem, hvalue⟩ := (onGrid_value hexponent).exists_mem_neighbours F
    (hd.trans (half_lt_self hstep))
  obtain ⟨i, hi, c, hc, hcread, hshortest⟩ := F.exists_mem_neighbours
    (Nat.lt_of_lt_of_le (Nat.two_pow_pos _) hrank) hk hmem (by rw [hvalue, hread])
  have hcoarser : x ≤ F.leading (F.units rank) - i := by omega
  have hcgrid : OnGrid x c.value := by
    obtain ⟨floor, -, -, hneighbours⟩ := F.exists_neighbours_eq rank (F.leading (F.units rank) - i)
    rcases (hneighbours c).mp hc with rfl | rfl
    exacts [onGrid_value hcoarser, onGrid_value hcoarser]
  rw [hshortest]
  refine hcgrid.eq_of_abs_sub_lt (onGrid_value hexponent) ?_
  calc |c.value - d.value|
      ≤ |c.value - F.value rank| + |F.value rank - d.value| := abs_sub_le _ _ _
    _ < 10 ^ x / 2 + 10 ^ x / 2 := by
        rw [abs_sub_comm (F.value rank)]
        exact add_lt_add (F.abs_sub_value_lt hrank hfew c.value_nonneg hcread) hd
    _ = 10 ^ x := add_halves _

end Format
end ScriptHost
