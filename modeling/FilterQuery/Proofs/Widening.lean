import FilterQuery.Proofs.ShortDigits

namespace FilterQuery

/-!
# Widening through the shortest decimal

A narrow number becomes a wide one by way of its shortest decimal, which is not an exact
conversion.  It nevertheless keeps different numbers apart.  Two decimals of nine digits
that differ at all differ by a nine-digit place, and beyond the subnormal magnitudes the
wide format has a finer step than that.  Their wide numbers can be equal only if the
decimals are, and a decimal is read as one narrow number.

The wide numbers are finite and beyond the subnormal ones because the narrow numbers are
finite and not zero.  How precise the wide format is matters, and not only that it is
wider: each of its binades has to have more magnitudes than there are decimals of nine
digits.
-/

namespace Decimal

theorem magnitude_eq_places (decimal : Decimal) {scale : Int} (smaller : scale ≤ decimal.exponent) :
    decimal.magnitude =
      ((decimal.coefficient * 10 ^ (decimal.exponent - scale).toNat : Nat) : ℚ) * 10 ^ scale := by
  rcases Int.eq_ofNat_of_zero_le (Int.sub_nonneg.mpr smaller) with ⟨power, difference⟩
  rw [magnitude, difference, Int.toNat_natCast, show decimal.exponent = power + scale by omega,
    zpow_add₀ (by norm_num), zpow_natCast]
  push_cast
  ring

/-- Two different decimals of few digits are not close together. -/
theorem magnitude_lt_of_digits {digits : Nat} {first second : Decimal}
    (fewFirst : first.coefficient < 10 ^ digits) (fewSecond : second.coefficient < 10 ^ digits)
    (less : first.magnitude < second.magnitude) :
    first.magnitude < 10 ^ digits * (second.magnitude - first.magnitude) := by
  -- Both are whole numbers of the smaller of their places, so that place is between them.
  have apart {scale : Int} (belowFirst : scale ≤ first.exponent)
      (belowSecond : scale ≤ second.exponent) :
      (10 : ℚ) ^ scale ≤ second.magnitude - first.magnitude := by
    have place : (0 : ℚ) < 10 ^ scale := by positivity
    rw [first.magnitude_eq_places belowFirst, second.magnitude_eq_places belowSecond] at less ⊢
    have fewer := Nat.cast_lt.mp (lt_of_mul_lt_mul_right less place.le)
    rw [← sub_mul]
    apply le_mul_of_one_le_left place.le
    rw [le_sub_iff_add_le']
    exact_mod_cast fewer
  have below {decimal : Decimal} (few : decimal.coefficient < 10 ^ digits)
      (near : (10 : ℚ) ^ decimal.exponent ≤ second.magnitude - first.magnitude) :
      decimal.magnitude < 10 ^ digits * (second.magnitude - first.magnitude) :=
    calc decimal.magnitude
        < 10 ^ digits * 10 ^ decimal.exponent :=
          mul_lt_mul_of_pos_right (by exact_mod_cast few) (by positivity)
      _ ≤ 10 ^ digits * (second.magnitude - first.magnitude) :=
          mul_le_mul_of_nonneg_left near (by positivity)
  rcases Int.le_total first.exponent second.exponent with firstSmaller | secondSmaller
  · exact below fewFirst (apart (Int.le_refl _) firstSmaller)
  · exact less.trans (below fewSecond (apart secondSmaller (Int.le_refl _)))

end Decimal

namespace BinaryFormat

/-- Beyond the first binade, what rounds to an ordinal is not spread far. -/
theorem spread_le {format : BinaryFormat} {ordinal : Nat} {lesser greater : ℚ}
    (large : format.binade < ordinal) (nearLesser : format.Nearest lesser ordinal)
    (nearGreater : format.Nearest greater ordinal) :
    format.binade * (greater - lesser) ≤ lesser := by
  rcases format.exists_step ordinal with ⟨above, unitsAbove, _, stepAbove⟩
  rcases format.exists_step (ordinal - 1) with ⟨below, unitsBelow, _, stepBelow⟩
  rw [Nat.sub_add_cancel (Nat.zero_lt_of_lt large)] at unitsBelow
  have nextUnits : (format.units (ordinal + 1) : ℚ) = format.units ordinal + above := by
    exact_mod_cast unitsAbove
  have units : (format.units ordinal : ℚ) = format.units (ordinal - 1) + below := by
    exact_mod_cast unitsBelow
  have smallAbove : (format.binade * above : ℚ) ≤ format.units ordinal := by
    exact_mod_cast stepAbove large.le
  have smallBelow : (format.binade * below : ℚ) ≤ format.units (ordinal - 1) := by
    exact_mod_cast stepBelow (by omega)
  -- Both counts are between the same two midpoints, half a step on either side.
  have spread : 2 * (greater - lesser) ≤ above + below := by
    linarith [nearLesser.lower, nearGreater.upper]
  have scale : (0 : ℚ) ≤ format.binade := Nat.cast_nonneg _
  have scaled := mul_le_mul_of_nonneg_left spread scale
  linarith [nearLesser.lower]

/-- A format that is more precise than some digits keeps decimals of so many digits apart. -/
theorem magnitude_le_of_rounded_eq {format : BinaryFormat} {digits : Nat} {first second : Decimal}
    (precise : 10 ^ digits ≤ format.binade)
    (fewFirst : first.coefficient < 10 ^ digits) (fewSecond : second.coefficient < 10 ^ digits)
    (large : format.binade < format.rounded (first.magnitude * 2 ^ format.unitPower))
    (same : format.rounded (first.magnitude * 2 ^ format.unitPower) =
      format.rounded (second.magnitude * 2 ^ format.unitPower)) :
    second.magnitude ≤ first.magnitude := by
  by_contra greater
  have less := not_le.mp greater
  have unit : (0 : ℚ) < 2 ^ format.unitPower := by positivity
  have nearFirst := format.nearest_rounded (mul_nonneg first.magnitude_nonneg unit.le)
  have nearSecond := format.nearest_rounded (mul_nonneg second.magnitude_nonneg unit.le)
  rw [← same] at nearSecond
  have spread := spread_le large nearFirst nearSecond
  rw [← sub_mul, ← mul_assoc] at spread
  -- Too close for the format, and too far apart for the digits.
  have close := le_of_mul_le_mul_right spread unit
  have apart := Decimal.magnitude_lt_of_digits fewFirst fewSecond less
  have finer : (10 ^ digits : ℚ) ≤ format.binade := by exact_mod_cast precise
  have coarse := mul_le_mul_of_nonneg_right finer (sub_nonneg.mpr less.le)
  linarith

/-! ## From the narrow format to the wide one -/

/-- The wide ordinal of the shortest decimal of a narrow one. -/
def widened (ordinal : Nat) : Nat :=
  double.ordinalOf (single.shortest .upper ordinal)

theorem widened_zero : widened 0 = 0 :=
  rfl

/-- How many wide units there are in a narrow one. -/
def unitFactor : Nat :=
  2 ^ (double.unitPower - single.unitPower)

theorem count_double_eq (magnitude : ℚ) :
    magnitude * 2 ^ double.unitPower = magnitude * 2 ^ single.unitPower * unitFactor := by
  have powers : double.unitPower = single.unitPower + (double.unitPower - single.unitPower) :=
    (Nat.add_sub_of_le (by decide)).symm
  rw [unitFactor, Nat.cast_pow, Nat.cast_ofNat, mul_assoc, ← pow_add, ← powers]

theorem binade_lt_rounded {magnitude : ℚ} (nonneg : 0 ≤ magnitude)
    (positive : 0 < single.rounded (magnitude * 2 ^ single.unitPower)) :
    double.binade < double.rounded (magnitude * 2 ^ double.unitPower) := by
  have unit : (0 : ℚ) ≤ 2 ^ single.unitPower := by positivity
  have factor : (0 : ℚ) ≤ unitFactor := Nat.cast_nonneg _
  rw [count_double_eq]
  have count := mul_nonneg nonneg unit
  generalize magnitude * 2 ^ single.unitPower = narrow at *
  have half : 1 ≤ 2 * narrow := by
    have least : (1 : ℚ) ≤ single.units (single.rounded narrow) := by
      exact_mod_cast single.units_strictMono positive
    have before : (0 : ℚ) ≤ single.units (single.rounded narrow - 1) := Nat.cast_nonneg _
    linarith [(single.nearest_rounded count).lower]
  by_contra notBeyond
  have subnormal := Nat.not_lt.mp notBeyond
  have few : double.units double.binade + double.units (double.binade + 1) < unitFactor := by
    decide +kernel
  have small : (double.units double.binade + double.units (double.binade + 1) : ℚ) < unitFactor := by
    exact_mod_cast few
  apply absurd small
  rw [not_lt]
  calc (unitFactor : ℚ) ≤ 2 * narrow * unitFactor := le_mul_of_one_le_left factor half
    _ = 2 * (narrow * unitFactor) := mul_assoc _ _ _
    _ ≤ double.units (double.rounded (narrow * unitFactor)) +
          double.units (double.rounded (narrow * unitFactor) + 1) :=
        (double.nearest_rounded (mul_nonneg count factor)).upper
    _ ≤ double.units double.binade + double.units (double.binade + 1) :=
        add_le_add (double.units_le subnormal) (double.units_le (Nat.add_le_add_right subnormal 1))

theorem rounded_lt_infinity {magnitude : ℚ} (nonneg : 0 ≤ magnitude)
    (finite : single.rounded (magnitude * 2 ^ single.unitPower) < single.infinity) :
    double.rounded (magnitude * 2 ^ double.unitPower) < double.infinity := by
  have unit : (0 : ℚ) ≤ 2 ^ single.unitPower := by positivity
  have factor : (0 : ℚ) ≤ unitFactor := Nat.cast_nonneg _
  rw [count_double_eq]
  have count := mul_nonneg nonneg unit
  generalize magnitude * 2 ^ single.unitPower = narrow at *
  have bounded : 2 * narrow ≤ 2 * single.units single.infinity := by
    have first := single.units_le finite.le
    have second := single.units_le (Nat.add_one_le_iff.mpr finite)
    linarith [(single.nearest_rounded count).upper]
  by_contra notFinite
  have atLeast := double.units_le (Nat.not_lt.mp notFinite)
  have room : 2 * single.units single.infinity * unitFactor < double.units double.infinity := by
    decide +kernel
  have large : (2 * single.units single.infinity * unitFactor : ℚ) <
      double.units double.infinity := by
    exact_mod_cast room
  apply absurd large
  rw [not_lt]
  calc (double.units double.infinity : ℚ)
      ≤ double.units (double.rounded (narrow * unitFactor)) := atLeast
    _ ≤ double.units (double.rounded (narrow * unitFactor) - 1) +
          double.units (double.rounded (narrow * unitFactor)) :=
        le_add_of_nonneg_left (Nat.cast_nonneg _)
    _ ≤ 2 * (narrow * unitFactor) := (double.nearest_rounded (mul_nonneg count factor)).lower
    _ = 2 * narrow * unitFactor := (mul_assoc _ _ _).symm
    _ ≤ 2 * single.units single.infinity * unitFactor := mul_le_mul_of_nonneg_right bounded factor

/-- The shortest decimal of a narrow magnitude, as both formats round it. -/
theorem rounded_shortest {ordinal : Nat} (positive : 0 < ordinal)
    (finite : ordinal < single.infinity) :
    single.rounded ((single.shortest .upper ordinal).magnitude * 2 ^ single.unitPower) = ordinal ∧
      widened ordinal =
        double.rounded ((single.shortest .upper ordinal).magnitude * 2 ^ double.unitPower) := by
  have read := ordinalOf_shortest single_withinReach .upper finite
  have reach : (single.shortest .upper ordinal).WithinReach :=
    Decimal.withinReach_of_ordinalOf (by rw [read]; exact positive) (by rw [read]; exact finite)
  rw [← single.ordinalOf_eq_rounded reach, ← double.ordinalOf_eq_rounded reach]
  exact ⟨read, rfl⟩

theorem binade_lt_widened {ordinal : Nat} (positive : 0 < ordinal)
    (finite : ordinal < single.infinity) : double.binade < widened ordinal := by
  rcases rounded_shortest positive finite with ⟨narrow, wide⟩
  rw [wide]
  exact binade_lt_rounded (Decimal.magnitude_nonneg _) (by rw [narrow]; exact positive)

theorem widened_lt_infinity {ordinal : Nat} (finite : ordinal < single.infinity) :
    widened ordinal < double.infinity := by
  rcases Nat.eq_zero_or_pos ordinal with rfl | positive
  · rw [widened_zero]
    decide
  · rcases rounded_shortest positive finite with ⟨narrow, wide⟩
    rw [wide]
    exact rounded_lt_infinity (Decimal.magnitude_nonneg _) (by rw [narrow]; exact finite)

theorem widened_eq_zero_iff {ordinal : Nat} (finite : ordinal < single.infinity) :
    widened ordinal = 0 ↔ ordinal = 0 := by
  constructor
  · intro zero
    by_contra nonzero
    have large := binade_lt_widened (Nat.pos_of_ne_zero nonzero) finite
    rw [zero] at large
    exact Nat.not_lt_zero _ large
  · rintro rfl
    exact widened_zero

/-- Different narrow magnitudes are widened to different ones. -/
theorem eq_of_widened_eq {first second : Nat} (finiteFirst : first < single.infinity)
    (finiteSecond : second < single.infinity) (same : widened first = widened second) :
    first = second := by
  rcases Nat.eq_zero_or_pos first with rfl | positiveFirst
  · exact ((widened_eq_zero_iff finiteSecond).mp (same.symm.trans widened_zero)).symm
  rcases Nat.eq_zero_or_pos second with rfl | positiveSecond
  · exact (widened_eq_zero_iff finiteFirst).mp (same.trans widened_zero)
  have largeFirst := binade_lt_widened positiveFirst finiteFirst
  have largeSecond := binade_lt_widened positiveSecond finiteSecond
  rcases rounded_shortest positiveFirst finiteFirst with ⟨narrowFirst, wideFirst⟩
  rcases rounded_shortest positiveSecond finiteSecond with ⟨narrowSecond, wideSecond⟩
  rw [wideFirst] at largeFirst
  rw [wideSecond] at largeSecond
  rw [wideFirst, wideSecond] at same
  have precise : 10 ^ 9 ≤ double.binade := by decide
  have fewFirst := coefficient_shortest_lt .upper positiveFirst finiteFirst
  have fewSecond := coefficient_shortest_lt .upper positiveSecond finiteSecond
  have magnitude := le_antisymm
    (magnitude_le_of_rounded_eq precise fewSecond fewFirst largeSecond same.symm)
    (magnitude_le_of_rounded_eq precise fewFirst fewSecond largeFirst same)
  rw [← narrowFirst, magnitude, narrowSecond]

end BinaryFormat

namespace Binary

open BinaryFormat

theorem widenDecimally_finite (negative : Bool) (ordinal : Fin single.infinity) :
    (finite negative ordinal).widenDecimally =
      finite negative ⟨widened ordinal, widened_lt_infinity ordinal.isLt⟩ :=
  dif_pos (widened_lt_infinity ordinal.isLt)

/-- Widening neither makes nor loses finite numbers. -/
theorem isFinite_widenDecimally (number : Binary single) :
    number.widenDecimally.isFinite = number.isFinite := by
  cases number with
  | finite negative ordinal => rw [widenDecimally_finite, isFinite, isFinite]
  | infinite negative => rfl
  | nan => rfl

/-- Two narrow numbers are equal exactly if their wide numbers are. -/
theorem same_widenDecimally (first second : Binary single) :
    first.widenDecimally.same second.widenDecimally = first.same second := by
  cases first with
  | nan => rfl
  | infinite negative =>
      cases second with
      | finite negative' ordinal' => rw [widenDecimally_finite]; rfl
      | infinite negative' => rfl
      | nan => rfl
  | finite negative ordinal =>
      rw [widenDecimally_finite]
      cases second with
      | infinite negative' => rfl
      | nan => rfl
      | finite negative' ordinal' =>
          rw [widenDecimally_finite, same, same, Bool.eq_iff_iff]
          have ordinals : widened ordinal = widened ordinal' ↔ ordinal = ordinal' :=
            ⟨fun equal => Fin.ext (eq_of_widened_eq ordinal.isLt ordinal'.isLt equal),
              fun equal => by rw [equal]⟩
          simp only [Bool.and_eq_true, Bool.or_eq_true, beq_iff_eq, Fin.mk.injEq, ordinals,
            widened_eq_zero_iff ordinal.isLt]

end Binary

end FilterQuery
