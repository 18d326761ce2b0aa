import Mathlib.Algebra.Order.AbsoluteValue.Basic
import FilterQuery.Proofs.RationalRounding

namespace FilterQuery

open Text

/-!
# How many digits are needed

A decimal is read as a magnitude when it is close enough to it, and how close is a matter
of the precision alone: the step from one magnitude to the next is at least a fixed
fraction of either.  The two decimals of a length that are neighbours of a magnitude are
within one place of it.  With enough digits the place is smaller than the step, so that
both neighbours are read back, and the search for a shortest decimal ends there at the
latest.

Only the narrow format is treated.  What is said of it is used where its numbers go
through their decimals, and for this the number of digits matters.
-/

namespace BinaryFormat

/-! ## Steps between magnitudes -/

/-- The step to the next magnitude, against the magnitudes on either side. -/
theorem exists_step (format : BinaryFormat) (ordinal : Nat) :
    ∃ step, format.units (ordinal + 1) = format.units ordinal + step ∧
      format.units (ordinal + 1) ≤ 2 * format.binade * step ∧
      (format.binade ≤ ordinal → format.binade * step ≤ format.units ordinal) := by
  rcases format.subnormal_or_normal ordinal with small | ⟨exponent, place, inside, rfl⟩
  · rw [format.units_of_lt small, format.units_subnormal_succ small]
    exact ⟨1, rfl, by omega, fun large => absurd small (Nat.not_lt.mpr large)⟩
  · rw [format.units_normal exponent inside, format.units_normal_succ exponent inside]
    refine ⟨2 ^ exponent, Nat.succ_mul _ _, Nat.mul_le_mul_right _ (by omega), fun _ => ?_⟩
    exact Nat.mul_le_mul_right _ (Nat.le_add_right _ _)

/-- A count of units that is close to a magnitude is rounded to it. -/
theorem rounded_eq_of_close (format : BinaryFormat) {count : ℚ} {ordinal : Nat} (nonneg : 0 ≤ count)
    (positive : 0 < ordinal)
    (close : |count - format.units ordinal| * (4 * format.binade) < format.units ordinal) :
    format.rounded count = ordinal := by
  have scale : (0 : ℚ) < 2 * format.binade :=
    mul_pos two_pos (Nat.cast_pos.mpr format.binade_pos)
  rcases format.exists_step ordinal with ⟨above, nextUnits, nextStep, _⟩
  rcases format.exists_step (ordinal - 1) with ⟨below, units, step, _⟩
  rw [Nat.sub_add_cancel positive] at units step
  have within (gap : Nat) (large : (format.units ordinal : ℚ) ≤ 2 * format.binade * gap) :
      2 * |count - format.units ordinal| < gap := by
    rw [← mul_lt_mul_iff_right₀ scale]
    calc 2 * format.binade * (2 * |count - format.units ordinal|)
        = |count - format.units ordinal| * (4 * format.binade) := by ring
      _ < format.units ordinal := close
      _ ≤ 2 * format.binade * gap := large
  have fromBelow := within below (by exact_mod_cast step)
  have fromAbove := within above (by
    exact_mod_cast (Nat.le_add_right _ above).trans (nextUnits ▸ nextStep))
  have atLeast := neg_abs_le (count - format.units ordinal)
  have atMost := le_abs_self (count - format.units ordinal)
  have unitsBelow : (format.units ordinal : ℚ) = format.units (ordinal - 1) + below := by
    exact_mod_cast units
  have unitsAbove : (format.units (ordinal + 1) : ℚ) = format.units ordinal + above := by
    exact_mod_cast nextUnits
  exact format.rounded_eq_of_lt nonneg (by linarith) (by linarith)

/-! ## The neighbours of a quotient -/

theorem quotientPower_spec {numerator denominator : Nat} (positive : 0 < numerator)
    (defined : 0 < denominator) :
    (10 : ℚ) ^ quotientPower numerator denominator ≤ numerator / denominator ∧
      (numerator / denominator : ℚ) < 10 ^ (quotientPower numerator denominator + 1) := by
  have scale : (0 : ℚ) < denominator := Nat.cast_pos.mpr defined
  rw [le_div_iff₀ scale, div_lt_iff₀ scale, quotientPower]
  split
  next whole =>
    rcases numeral_bounds (Nat.ne_of_gt (Nat.div_pos whole defined)) with ⟨lower, upper⟩
    have several := length_numeral_pos (numerator / denominator)
    rw [Nat.le_div_iff_mul_le defined] at lower
    rw [Nat.div_lt_iff_lt_mul defined] at upper
    rw [show ((numeral (numerator / denominator)).length : Int) - 1 =
      (((numeral (numerator / denominator)).length - 1 : Nat) : Int) by omega]
    rw [show (((numeral (numerator / denominator)).length - 1 : Nat) : Int) + 1 =
      ((numeral (numerator / denominator)).length : Int) by omega, zpow_natCast, zpow_natCast]
    exact ⟨by exact_mod_cast lower, by exact_mod_cast upper⟩
  next small =>
    have part : numerator ≤ denominator - 1 := by omega
    rcases numeral_bounds (Nat.ne_of_gt (Nat.div_pos part positive)) with ⟨lower, upper⟩
    have several := length_numeral_pos ((denominator - 1) / numerator)
    rw [Nat.le_div_iff_mul_le positive] at lower
    rw [Nat.div_lt_iff_lt_mul positive] at upper
    generalize (numeral ((denominator - 1) / numerator)).length = length at *
    rw [show -(length : Int) + 1 = -((length - 1 : Nat) : Int) by omega, zpow_neg, zpow_neg,
      zpow_natCast, zpow_natCast, inv_mul_le_iff₀ (by positivity), lt_inv_mul_iff₀ (by positivity)]
    have atMost : denominator ≤ 10 ^ length * numerator := by omega
    have below : 10 ^ (length - 1) * numerator < denominator := by omega
    exact ⟨by exact_mod_cast atMost, by exact_mod_cast below⟩

/-- A quotient of whole numbers, counted in places of a power of ten and rounded down. -/
theorem floor_places (scale : Int) (numerator denominator : Nat) :
    ⌊(numerator / denominator : ℚ) / 10 ^ scale⌋₊ =
      if 0 ≤ scale then numerator / (denominator * 10 ^ scale.toNat)
      else numerator * 10 ^ (-scale).toNat / denominator := by
  split
  next whole =>
    rcases Int.eq_ofNat_of_zero_le whole with ⟨power, rfl⟩
    rw [Int.toNat_natCast, zpow_natCast, div_div, ← Nat.floor_div_eq_div (K := ℚ)]
    push_cast
    rfl
  next fractional =>
    rcases Int.eq_ofNat_of_zero_le (show 0 ≤ -scale by omega) with ⟨power, negated⟩
    rw [negated, show scale = -(power : Int) by omega, Int.toNat_natCast, zpow_neg, zpow_natCast,
      div_inv_eq_mul, div_mul_eq_mul_div, ← Nat.floor_div_eq_div (K := ℚ)]
    push_cast
    rfl

/-- The neighbours of a quotient are the whole numbers of places on either side of it. -/
theorem mem_neighbours {tie : DecimalTie} {count numerator denominator : Nat} {candidate : Decimal}
    (member : candidate ∈ neighbours tie count numerator denominator) :
    ∃ lower : Nat,
      lower = ⌊(numerator / denominator : ℚ) /
        10 ^ (quotientPower numerator denominator - count + 1)⌋₊ ∧
      (candidate = ⟨lower, quotientPower numerator denominator - count + 1⟩ ∨
        candidate = if lower + 1 = 10 ^ count then ⟨1, quotientPower numerator denominator + 1⟩
          else ⟨lower + 1, quotientPower numerator denominator - count + 1⟩) := by
  simp only [neighbours] at member
  rw [floor_places]
  generalize quotientPower numerator denominator - count + 1 = scale at member ⊢
  generalize quotientPower numerator denominator = power at member ⊢
  refine ⟨_, rfl, ?_⟩
  split
  next whole =>
    simp only [if_pos whole] at member
    generalize numerator / (denominator * 10 ^ scale.toNat) = lower at member ⊢
    grind
  next fractional =>
    simp only [if_neg fractional] at member
    generalize numerator * 10 ^ (-scale).toNat / denominator = lower at member ⊢
    grind

/-- So many places make the next power of ten. -/
theorem ten_pow_mul_place (count : Nat) (power : Int) :
    (10 : ℚ) ^ count * 10 ^ (power - count + 1) = 10 ^ (power + 1) := by
  rw [← zpow_natCast, ← zpow_add₀ (by norm_num)]
  congr 1
  omega

theorem floor_place_spec {quotient : ℚ} {power : Int} {count lower : Nat} (nonneg : 0 ≤ quotient)
    (most : quotient < 10 ^ (power + 1))
    (floor : lower = ⌊quotient / 10 ^ (power - count + 1)⌋₊) :
    lower * 10 ^ (power - count + 1) ≤ quotient ∧
      quotient < (lower + 1) * 10 ^ (power - count + 1) ∧ lower < 10 ^ count := by
  have place : (0 : ℚ) < 10 ^ (power - count + 1) := by positivity
  have below : lower * 10 ^ (power - count + 1) ≤ quotient := by
    rw [← le_div_iff₀ place, floor]
    exact Nat.floor_le (div_nonneg nonneg place.le)
  have above : quotient < (lower + 1) * 10 ^ (power - count + 1) := by
    rw [← div_lt_iff₀ place, floor]
    exact Nat.lt_floor_add_one _
  rw [← ten_pow_mul_place count] at most
  exact ⟨below, above, by exact_mod_cast lt_of_mul_lt_mul_right (below.trans_lt most) place.le⟩

/-- A neighbour has at most as many digits as were asked for, and is within one place of the
quotient. -/
theorem neighbours_spec {tie : DecimalTie} {count numerator denominator : Nat}
    {candidate : Decimal} (positive : 0 < numerator) (defined : 0 < denominator) (some : 0 < count)
    (member : candidate ∈ neighbours tie count numerator denominator) :
    candidate.coefficient < 10 ^ count ∧
      |candidate.magnitude - numerator / denominator| * 10 ^ (count - 1) ≤
        numerator / denominator := by
  rcases quotientPower_spec positive defined with ⟨least, most⟩
  rcases mem_neighbours member with ⟨lower, floor, either⟩
  have nonneg : (0 : ℚ) ≤ numerator / denominator := by positivity
  rcases floor_place_spec nonneg most floor with ⟨below, above, few⟩
  generalize quotientPower numerator denominator = power at *
  generalize (numerator / denominator : ℚ) = quotient at *
  have near (found : |candidate.magnitude - quotient| ≤ 10 ^ (power - count + 1)) :
      |candidate.magnitude - quotient| * 10 ^ (count - 1) ≤ quotient :=
    calc |candidate.magnitude - quotient| * 10 ^ (count - 1)
        ≤ 10 ^ (power - count + 1) * 10 ^ (count - 1) :=
          mul_le_mul_of_nonneg_right found (by positivity)
      _ = 10 ^ power := by
          rw [← zpow_natCast, ← zpow_add₀ (by norm_num)]
          congr 1
          omega
      _ ≤ quotient := least
  rcases either with rfl | same
  · refine ⟨few, near ?_⟩
    rw [Decimal.magnitude, abs_le]
    constructor <;> linarith
  · -- One more place can carry into a digit more, which is written as a single digit.
    have value : candidate.magnitude = (lower + 1) * 10 ^ (power - count + 1) := by
      rw [same]
      split
      next carried =>
        rw [Decimal.magnitude, Nat.cast_one, one_mul, ← ten_pow_mul_place count]
        congr 1
        exact_mod_cast carried.symm
      next =>
        rw [Decimal.magnitude, Nat.cast_add, Nat.cast_one]
    refine ⟨?_, near ?_⟩
    · rw [same]
      split
      next => exact Nat.one_lt_pow (Nat.ne_of_gt some) (by decide)
      next notCarried => exact Nat.lt_of_le_of_ne few notCarried
    · rw [value, abs_le]
      constructor <;> linarith

theorem exists_mem_neighbours (tie : DecimalTie) (count numerator denominator : Nat) :
    ∃ candidate, candidate ∈ neighbours tie count numerator denominator := by
  apply List.exists_mem_of_ne_nil
  simp only [neighbours]
  grind

/-! ## Nine digits for the narrow format -/

/-- What is neither below half a unit nor far beyond the finite magnitudes is within reach. -/
theorem withinReach_of_units {decimal : Decimal}
    (least : 1 ≤ 2 * (decimal.magnitude * 2 ^ single.unitPower))
    (most : decimal.magnitude * 2 ^ single.unitPower < 2 * single.units single.infinity) :
    decimal.WithinReach := by
  have small : 2 * 2 ^ single.unitPower ≤ 10 ^ decimalReach := by decide +kernel
  have large : 2 * single.units single.infinity ≤
      10 ^ (decimalReach + 1) * 2 ^ single.unitPower := by decide +kernel
  apply Decimal.withinReach_of_magnitude
  · have small : (2 * 2 ^ single.unitPower : ℚ) ≤ 10 ^ decimalReach := by exact_mod_cast small
    rw [zpow_neg, zpow_natCast, inv_le_iff_one_le_mul₀ (by positivity)]
    calc (1 : ℚ) ≤ decimal.magnitude * (2 * 2 ^ single.unitPower) := by linarith
      _ ≤ decimal.magnitude * 10 ^ decimalReach :=
        mul_le_mul_of_nonneg_left small decimal.magnitude_nonneg
  · generalize decimalReach + 1 = beyond at large ⊢
    have large : (2 * single.units single.infinity : ℚ) ≤ 10 ^ beyond * 2 ^ single.unitPower := by
      exact_mod_cast large
    exact lt_of_mul_lt_mul_right (most.trans_le large) (by positivity)

/-- Every neighbour of nine digits is read back. -/
theorem ordinalOf_of_mem_neighbours {tie : DecimalTie} {ordinal : Nat} {candidate : Decimal}
    (positive : 0 < ordinal) (finite : ordinal < single.infinity)
    (member : candidate ∈ neighbours tie 9 (single.units ordinal) (2 ^ single.unitPower)) :
    single.ordinalOf candidate = ordinal := by
  have least : 1 ≤ single.units ordinal :=
    Nat.lt_of_le_of_lt (Nat.zero_le _) (single.units_strictMono positive)
  have most : single.units ordinal < single.units single.infinity :=
    single.units_strictMono finite
  have close := (neighbours_spec least (by decide) (by decide) member).2
  push_cast at close
  have unit : (0 : ℚ) < 2 ^ single.unitPower := by positivity
  -- The same distance, in units.
  have scaled : |candidate.magnitude * 2 ^ single.unitPower - single.units ordinal| * 10 ^ 8 ≤
      single.units ordinal := by
    rw [← mul_le_mul_iff_left₀ unit, div_mul_cancel₀ _ unit.ne', mul_right_comm,
      ← abs_of_pos unit, ← abs_mul, abs_of_pos unit, sub_mul, div_mul_cancel₀ _ unit.ne'] at close
    exact close
  have leastUnits : (1 : ℚ) ≤ single.units ordinal := by exact_mod_cast least
  have mostUnits : (single.units ordinal : ℚ) < single.units single.infinity := by
    exact_mod_cast most
  have reach : candidate.WithinReach := by
    have atLeast := neg_abs_le (candidate.magnitude * 2 ^ single.unitPower - single.units ordinal)
    have atMost := le_abs_self (candidate.magnitude * 2 ^ single.unitPower - single.units ordinal)
    exact withinReach_of_units (by linarith) (by linarith)
  rw [single.ordinalOf_eq_rounded reach]
  apply single.rounded_eq_of_close (mul_nonneg candidate.magnitude_nonneg unit.le) positive
  have digits : (8 * single.binade : ℚ) ≤ 10 ^ 8 := by
    exact_mod_cast (show 8 * single.binade ≤ 10 ^ 8 by decide +kernel)
  have precise := (mul_le_mul_of_nonneg_left digits (abs_nonneg _)).trans scaled
  linarith

theorem coefficient_shortest_lt (tie : DecimalTie) {ordinal : Nat} (positive : 0 < ordinal)
    (finite : ordinal < single.infinity) :
    (single.shortest tie ordinal).coefficient < 10 ^ 9 := by
  have units : 0 < single.units ordinal :=
    Nat.lt_of_le_of_lt (Nat.zero_le _) (single.units_strictMono positive)
  rw [shortest, if_neg (Nat.ne_of_gt positive)]
  simp only
  -- The search is over at nine digits, before the rest of its range.
  rw [show List.range maxDigits = List.range 9 ++ (List.range maxDigits).drop 9 by decide,
    List.findSome?_append]
  cases search : (List.range 9).findSome? _ with
  | none =>
      have unread := List.findSome?_eq_none_iff.mp search 8 (by decide)
      rcases exists_mem_neighbours tie 9 (single.units ordinal) (2 ^ single.unitPower) with
        ⟨candidate, member⟩
      have refused := List.find?_eq_none.mp unread candidate member
      exact absurd (decide_eq_true (ordinalOf_of_mem_neighbours positive finite member)) refused
  | some found =>
      rcases List.exists_of_findSome?_eq_some search with ⟨fewer, inside, taken⟩
      have member := List.mem_of_find?_eq_some taken
      have short := (neighbours_spec units (by decide) (Nat.succ_pos fewer) member).1
      exact Nat.lt_of_lt_of_le short
        (Nat.pow_le_pow_right (by decide) (List.mem_range.mp inside))

end BinaryFormat

end FilterQuery
