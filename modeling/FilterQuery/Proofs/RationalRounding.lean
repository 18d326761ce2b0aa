import Mathlib.Algebra.Order.Field.Power
import Mathlib.Algebra.Order.Floor.Semifield
import Mathlib.Data.Rat.Floor
import Mathlib.Tactic.Linarith
import Mathlib.Tactic.Positivity
import FilterQuery.Proofs.Rounding

namespace FilterQuery

open Text

/-!
# Rounding as a function of a rational number

Reading a decimal rounds a quotient of two whole numbers, and the same decimal can be
given by many quotients.  Here the quotient is one rational count of units.  The ordinal
that is found depends on that count alone, and it is characterised by two inequalities:
the count lies between the midpoints on either side of the ordinal's magnitude.  Strict
inequalities leave no other ordinal, and nothing about ties is needed to use them.

The shortcuts for decimals of very large and very small leading powers are kept apart.
Where an ordinal is positive and finite none of them was taken, and the condition for
this does not mention the format.
-/

/-- The number that a decimal stands for. -/
def Decimal.magnitude (decimal : Decimal) : ℚ :=
  decimal.coefficient * 10 ^ decimal.exponent

namespace BinaryFormat

variable (format : BinaryFormat)

/-- The ordinal nearest to a rational count of units; of two that are equally near, the
even one. -/
def rounded (count : ℚ) : Nat :=
  let below := format.floorOrdinal ⌊count⌋₊
  let middle : ℚ := format.units below + format.units (below + 1)
  if 2 * count < middle then below
  else if middle < 2 * count then below + 1
  else if below % 2 = 0 then below else below + 1

/-- A count of units lies between the midpoints around an ordinal. -/
structure Nearest (count : ℚ) (ordinal : Nat) : Prop where
  lower : (format.units (ordinal - 1) + format.units ordinal : ℚ) ≤ 2 * count
  upper : 2 * count ≤ format.units ordinal + format.units (ordinal + 1)

theorem nearestOrdinal_eq_rounded (numerator : Nat) {denominator : Nat}
    (positive : 0 < denominator) :
    format.nearestOrdinal numerator denominator = format.rounded (numerator / denominator) := by
  have scale : (0 : ℚ) < denominator := Nat.cast_pos.mpr positive
  have below : ∀ middle : Nat,
      2 * numerator < middle * denominator ↔ 2 * ((numerator : ℚ) / denominator) < middle := by
    intro middle
    rw [← mul_div_assoc, div_lt_iff₀ scale]
    exact_mod_cast Iff.rfl
  have above : ∀ middle : Nat,
      middle * denominator < 2 * numerator ↔ (middle : ℚ) < 2 * ((numerator : ℚ) / denominator) := by
    intro middle
    rw [← mul_div_assoc, lt_div_iff₀ scale]
    exact_mod_cast Iff.rfl
  simp only [nearestOrdinal, rounded, Nat.floor_div_eq_div, below, above, Nat.cast_add]

theorem units_le {first second : Nat} (atMost : first ≤ second) :
    (format.units first : ℚ) ≤ format.units second :=
  Nat.cast_le.mpr (format.units_strictMono.monotone atMost)

/-- A count is rounded to an ordinal between whose midpoints it lies. -/
theorem nearest_rounded {count : ℚ} (nonneg : 0 ≤ count) :
    format.Nearest count (format.rounded count) := by
  rcases format.floorOrdinal_spec ⌊count⌋₊ with ⟨atMost, beyond⟩
  have lower : (format.units (format.floorOrdinal ⌊count⌋₊) : ℚ) ≤ count :=
    (Nat.cast_le.mpr atMost).trans (Nat.floor_le nonneg)
  have upper : count < format.units (format.floorOrdinal ⌊count⌋₊ + 1) :=
    (Nat.lt_floor_add_one count).trans_le (by exact_mod_cast beyond)
  have before := format.units_le (Nat.sub_le (format.floorOrdinal ⌊count⌋₊) 1)
  have behind := format.units_le (Nat.le_succ (format.floorOrdinal ⌊count⌋₊ + 1))
  have atBelow (near : 2 * count ≤ format.units (format.floorOrdinal ⌊count⌋₊) +
      format.units (format.floorOrdinal ⌊count⌋₊ + 1)) :
      format.Nearest count (format.floorOrdinal ⌊count⌋₊) :=
    ⟨by linarith, near⟩
  have atAbove (near : (format.units (format.floorOrdinal ⌊count⌋₊) +
      format.units (format.floorOrdinal ⌊count⌋₊ + 1) : ℚ) ≤ 2 * count) :
      format.Nearest count (format.floorOrdinal ⌊count⌋₊ + 1) :=
    ⟨near, by linarith⟩
  simp only [rounded]
  split
  next less => exact atBelow less.le
  next notLess =>
    split
    next => exact atAbove (not_lt.mp notLess)
    next notMore =>
      split
      next => exact atBelow (not_lt.mp notMore)
      next => exact atAbove (not_lt.mp notLess)

/-- No other ordinal is found if a count lies strictly between the midpoints. -/
theorem rounded_eq_of_lt {count : ℚ} {ordinal : Nat} (nonneg : 0 ≤ count)
    (lower : (format.units (ordinal - 1) + format.units ordinal : ℚ) < 2 * count)
    (upper : 2 * count < format.units ordinal + format.units (ordinal + 1)) :
    format.rounded count = ordinal := by
  have nearest := format.nearest_rounded nonneg
  generalize format.rounded count = found at nearest
  rcases Nat.lt_trichotomy found ordinal with before | same | behind
  · have first := format.units_le (show found ≤ ordinal - 1 by omega)
    have second := format.units_le (show found + 1 ≤ ordinal by omega)
    linarith [nearest.upper]
  · exact same
  · have first := format.units_le (show ordinal ≤ found - 1 by omega)
    have second := format.units_le (show ordinal + 1 ≤ found by omega)
    linarith [nearest.lower]

end BinaryFormat

/-! ## Decimals within reach -/

theorem Text.numeral_bounds {value : Nat} (nonzero : value ≠ 0) :
    10 ^ ((numeral value).length - 1) ≤ value ∧ value < 10 ^ (numeral value).length := by
  refine ⟨?_, (length_numeral_le_iff (length_numeral_pos value)).mp (Nat.le_refl _)⟩
  rcases Nat.eq_zero_or_pos ((numeral value).length - 1) with single | several
  · rw [single, Nat.pow_zero]
    exact Nat.pos_of_ne_zero nonzero
  · rw [← Nat.not_lt, ← length_numeral_le_iff several]
    omega

namespace Decimal

variable {decimal : Decimal}

theorem magnitude_nonneg (decimal : Decimal) : 0 ≤ decimal.magnitude := by
  unfold magnitude
  positivity

/-- The power of the first digit bounds a decimal from both sides. -/
theorem leadingPower_spec (nonzero : decimal.coefficient ≠ 0) :
    10 ^ decimal.leadingPower ≤ decimal.magnitude ∧
      decimal.magnitude < 10 ^ (decimal.leadingPower + 1) := by
  rcases numeral_bounds nonzero with ⟨lower, upper⟩
  have positive := length_numeral_pos decimal.coefficient
  have scale : (0 : ℚ) < 10 ^ decimal.exponent := by positivity
  have power : decimal.leadingPower =
      (((numeral decimal.coefficient).length - 1 : Nat) : Int) + decimal.exponent := by
    rw [leadingPower]
    omega
  have next : decimal.leadingPower + 1 =
      ((numeral decimal.coefficient).length : Int) + decimal.exponent := by
    rw [leadingPower]
    omega
  constructor
  · rw [power, zpow_add₀ (by norm_num), zpow_natCast, magnitude]
    exact mul_le_mul_of_nonneg_right (by exact_mod_cast lower) scale.le
  · rw [next, zpow_add₀ (by norm_num), zpow_natCast, magnitude]
    exact mul_lt_mul_of_pos_right (by exact_mod_cast upper) scale

/-- A decimal that is rounded without a shortcut, in any format. -/
structure WithinReach (decimal : Decimal) : Prop where
  nonzero : decimal.coefficient ≠ 0
  least : -(BinaryFormat.decimalReach : Int) ≤ decimal.leadingPower
  most : decimal.leadingPower ≤ BinaryFormat.decimalReach

theorem withinReach_of_magnitude
    (least : (10 : ℚ) ^ (-(BinaryFormat.decimalReach : Int)) ≤ decimal.magnitude)
    (most : decimal.magnitude < 10 ^ (BinaryFormat.decimalReach + 1)) : decimal.WithinReach := by
  have nonzero : decimal.coefficient ≠ 0 := by
    intro zero
    rw [magnitude, zero, Nat.cast_zero, zero_mul] at least
    exact absurd least (not_le.mpr (by positivity))
  rcases leadingPower_spec nonzero with ⟨lower, upper⟩
  have below := (zpow_lt_zpow_iff_right₀ (by norm_num)).mp (least.trans_lt upper)
  rw [← zpow_natCast] at most
  have above := (zpow_lt_zpow_iff_right₀ (by norm_num)).mp (lower.trans_lt most)
  push_cast at above
  exact ⟨nonzero, by omega, by omega⟩

theorem withinReach_of_ordinalOf {format : BinaryFormat}
    (positive : 0 < format.ordinalOf decimal)
    (finite : format.ordinalOf decimal < format.infinity) : decimal.WithinReach := by
  rw [BinaryFormat.ordinalOf] at positive finite
  split at positive
  next => exact absurd positive (Nat.lt_irrefl 0)
  next nonzero =>
    rw [if_neg nonzero] at finite
    split at positive
    next large =>
      rw [if_pos large] at finite
      exact absurd finite (Nat.lt_irrefl _)
    next notLarge =>
      split at positive
      next => exact absurd positive (Nat.lt_irrefl 0)
      next notSmall => exact ⟨nonzero, Int.not_lt.mp notSmall, Int.not_lt.mp notLarge⟩

end Decimal

/-- Within reach the ordinal of a decimal is a matter of its magnitude. -/
theorem BinaryFormat.ordinalOf_eq_rounded (format : BinaryFormat) {decimal : Decimal}
    (reach : decimal.WithinReach) :
    format.ordinalOf decimal = format.rounded (decimal.magnitude * 2 ^ format.unitPower) := by
  rw [ordinalOf, if_neg reach.nonzero, if_neg (Int.not_lt.mpr reach.most),
    if_neg (Int.not_lt.mpr reach.least)]
  by_cases whole : 0 ≤ decimal.exponent
  · simp only [if_pos whole]
    rw [nearestOrdinal_eq_rounded format _ Nat.one_pos, Decimal.magnitude]
    congr 1
    rcases Int.eq_ofNat_of_zero_le whole with ⟨power, same⟩
    rw [same, Int.toNat_natCast, zpow_natCast]
    push_cast
    ring
  · simp only [if_neg whole]
    rw [nearestOrdinal_eq_rounded format _ (Nat.pow_pos (by decide)), Decimal.magnitude]
    congr 1
    rcases Int.eq_ofNat_of_zero_le (show 0 ≤ -decimal.exponent by omega) with ⟨power, same⟩
    rw [show decimal.exponent = -(power : Int) by omega, Int.neg_neg, Int.toNat_natCast,
      zpow_neg, zpow_natCast, div_eq_mul_inv]
    push_cast
    ring

end FilterQuery
