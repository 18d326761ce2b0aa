import Mathlib.Order.Monotone.Basic
import FilterQuery.Binary.Shortest
import FilterQuery.Proofs.Digits

namespace FilterQuery

open Text

/-!
# Rounding on ordinals

The step from one magnitude to the next is the power of two of their binade.  From this
the magnitudes increase with their ordinals, and `floorOrdinal` finds the two neighbours
between which a count of units lies.  A count that is a magnitude is therefore its own
nearest neighbour, in whatever multiple numerator and denominator are given.

A shortest decimal is taken because it reads back, so nothing about the search for it is
used here.  Only where no candidate was found does an argument remain: the exact decimal
is inside `decimalReach`, and rounding it does nothing.
-/

namespace BinaryFormat

variable (format : BinaryFormat)

/-! ## The sequence of magnitudes -/

theorem binade_pos : 0 < format.binade :=
  Nat.two_pow_pos _

theorem units_of_lt {ordinal : Nat} (small : ordinal < format.binade) :
    format.units ordinal = ordinal :=
  if_pos small

/-- An ordinal beyond the subnormal ones, by its binade and its place there. -/
theorem units_normal (exponent : Nat) {place : Nat} (inside : place < format.binade) :
    format.units ((exponent + 1) * format.binade + place) =
      (format.binade + place) * 2 ^ exponent := by
  have split : ((exponent + 1) * format.binade + place) / format.binade = exponent + 1 := by
    rw [Nat.mul_comm, Nat.mul_add_div format.binade_pos, Nat.div_eq_of_lt inside, Nat.add_zero]
  have rest : ((exponent + 1) * format.binade + place) % format.binade = place := by
    rw [Nat.mul_comm, Nat.mul_add_mod, Nat.mod_eq_of_lt inside]
  have large : ¬(exponent + 1) * format.binade + place < format.binade := by
    rw [Nat.succ_mul]
    omega
  rw [units, if_neg large, split, rest, Nat.add_sub_cancel]

/-- Every ordinal is subnormal or has a binade and a place in it. -/
theorem subnormal_or_normal (ordinal : Nat) :
    ordinal < format.binade ∨
      ∃ exponent place, place < format.binade ∧
        ordinal = (exponent + 1) * format.binade + place := by
  rcases Nat.lt_or_ge ordinal format.binade with small | large
  · exact .inl small
  · refine .inr ⟨ordinal / format.binade - 1, ordinal % format.binade,
      Nat.mod_lt _ format.binade_pos, ?_⟩
    rw [Nat.sub_add_cancel (Nat.div_pos large format.binade_pos), Nat.mul_comm]
    exact (Nat.div_add_mod ordinal format.binade).symm

theorem units_binade_start (exponent : Nat) :
    format.units ((exponent + 1) * format.binade) = format.binade * 2 ^ exponent :=
  format.units_normal exponent format.binade_pos

/-- From a normal magnitude to the next it is one step of the binade, also at its end. -/
theorem units_normal_succ (exponent : Nat) {place : Nat} (inside : place < format.binade) :
    format.units ((exponent + 1) * format.binade + place + 1) =
      (format.binade + place + 1) * 2 ^ exponent := by
  rcases Nat.lt_or_eq_of_le (Nat.succ_le_of_lt inside) with within | last
  · exact format.units_normal exponent within
  · have next : (exponent + 1) * format.binade + place + 1 =
        (exponent + 1 + 1) * format.binade := by
      rw [Nat.succ_mul (exponent + 1), Nat.add_assoc, show place + 1 = format.binade from last]
    rw [next, units_binade_start, Nat.add_assoc, show place + 1 = format.binade from last,
      ← Nat.mul_two, Nat.mul_assoc, ← Nat.pow_succ']

theorem units_subnormal_succ {ordinal : Nat} (small : ordinal < format.binade) :
    format.units (ordinal + 1) = ordinal + 1 := by
  rcases Nat.lt_or_eq_of_le (Nat.succ_le_of_lt small) with within | last
  · exact format.units_of_lt within
  · rw [show ordinal + 1 = (0 + 1) * format.binade by rw [Nat.zero_add, Nat.one_mul]; exact last,
      units_binade_start, Nat.zero_add, Nat.one_mul, Nat.pow_zero, Nat.mul_one]

/-- Magnitudes increase with their ordinals. -/
theorem units_strictMono : StrictMono format.units := by
  apply strictMono_nat_of_lt_succ
  intro ordinal
  rcases format.subnormal_or_normal ordinal with small | ⟨exponent, place, inside, rfl⟩
  · rw [format.units_of_lt small, format.units_subnormal_succ small]
    exact Nat.lt_succ_self _
  · rw [format.units_normal exponent inside, format.units_normal_succ exponent inside]
    exact Nat.mul_lt_mul_of_pos_right (Nat.lt_succ_self _) (Nat.two_pow_pos _)

/-! ## The magnitude below a count of units -/

/-- A count of units lies between the magnitude found for it and the next one. -/
theorem floorOrdinal_spec (count : Nat) :
    format.units (format.floorOrdinal count) ≤ count ∧
      count < format.units (format.floorOrdinal count + 1) := by
  rw [floorOrdinal]
  split
  next small =>
    rw [format.units_of_lt small, format.units_subnormal_succ small]
    exact ⟨Nat.le_refl _, Nat.lt_succ_self _⟩
  next large =>
    have large : format.binade ≤ count := Nat.not_lt.mp large
    have nonzero : count ≠ 0 := Nat.ne_of_gt (Nat.lt_of_lt_of_le format.binade_pos large)
    -- The shift leaves as many bits as a significand has, so the quotient is one.
    have bits : format.precision - 1 ≤ count.log2 := (Nat.le_log2 nonzero).mpr large
    have length : format.precision - 1 + (count.log2 - (format.precision - 1)) = count.log2 :=
      Nat.add_sub_cancel' bits
    have atLeast : format.binade ≤ count / 2 ^ (count.log2 - (format.precision - 1)) := by
      rw [Nat.le_div_iff_mul_le (Nat.two_pow_pos _), binade, ← Nat.pow_add, length]
      exact Nat.log2_self_le nonzero
    have below : count / 2 ^ (count.log2 - (format.precision - 1)) < 2 * format.binade := by
      rw [Nat.div_lt_iff_lt_mul (Nat.two_pow_pos _), binade, Nat.mul_assoc, ← Nat.pow_add, length,
        ← Nat.pow_succ']
      exact Nat.lt_log2_self
    generalize count.log2 - (format.precision - 1) = shift at atLeast below
    rcases Nat.exists_eq_add_of_le atLeast with ⟨place, found⟩
    have inside : place < format.binade := by omega
    have ordinal : shift * format.binade + count / 2 ^ shift =
        (shift + 1) * format.binade + place := by
      rw [found, Nat.succ_mul, Nat.add_assoc]
    show format.units (shift * format.binade + count / 2 ^ shift) ≤ count ∧
      count < format.units (shift * format.binade + count / 2 ^ shift + 1)
    rw [ordinal, format.units_normal shift inside, format.units_normal_succ shift inside, ← found]
    refine ⟨Nat.div_mul_le_self _ _, ?_⟩
    rw [← Nat.div_lt_iff_lt_mul (Nat.two_pow_pos _)]
    exact Nat.lt_succ_self _

/-- A magnitude is found from its own count of units. -/
theorem floorOrdinal_units (ordinal : Nat) :
    format.floorOrdinal (format.units ordinal) = ordinal := by
  rcases format.floorOrdinal_spec (format.units ordinal) with ⟨lower, upper⟩
  have atMost := format.units_strictMono.le_iff_le.mp lower
  have below := format.units_strictMono.lt_iff_lt.mp upper
  omega

/-- Rounding a magnitude does nothing. -/
theorem nearestOrdinal_units (ordinal : Nat) {denominator : Nat} (positive : 0 < denominator) :
    format.nearestOrdinal (format.units ordinal * denominator) denominator = ordinal := by
  have above : 2 * (format.units ordinal * denominator) <
      (format.units ordinal + format.units (ordinal + 1)) * denominator := by
    rw [Nat.two_mul, ← Nat.add_mul]
    apply Nat.mul_lt_mul_of_pos_right _ positive
    exact Nat.add_lt_add_left (format.units_strictMono (Nat.lt_succ_self ordinal)) _
  simp only [nearestOrdinal, Nat.mul_div_cancel _ positive, floorOrdinal_units, if_pos above]

/-! ## Shortest decimals -/

/-- The exact decimals of all finite magnitudes have leading powers inside the reach of
`ordinalOf`. -/
structure WithinReach : Prop where
  largest : format.units format.infinity * 5 ^ format.unitPower <
    10 ^ (decimalReach + 1 + format.unitPower)
  least : 10 ^ (format.unitPower - decimalReach) ≤ 5 ^ format.unitPower

theorem single_withinReach : single.WithinReach :=
  ⟨by decide +kernel, by decide +kernel⟩

theorem double_withinReach : double.WithinReach :=
  ⟨by decide +kernel, by decide +kernel⟩

@[simp]
theorem exactDecimal_coefficient (ordinal : Nat) :
    (format.exactDecimal ordinal).coefficient = format.units ordinal * 5 ^ format.unitPower :=
  rfl

@[simp]
theorem exactDecimal_exponent (ordinal : Nat) :
    (format.exactDecimal ordinal).exponent = -(format.unitPower : Int) :=
  rfl

variable {format}

theorem leadingPower_exactDecimal (reach : format.WithinReach) {ordinal : Nat}
    (positive : 0 < ordinal) (finite : ordinal < format.infinity) :
    (format.exactDecimal ordinal).leadingPower ≤ decimalReach ∧
      -(decimalReach : Int) ≤ (format.exactDecimal ordinal).leadingPower := by
  have nonzero : 1 ≤ format.units ordinal :=
    Nat.succ_le_of_lt (Nat.lt_of_le_of_lt (Nat.zero_le _) (format.units_strictMono positive))
  have upper : (numeral (format.exactDecimal ordinal).coefficient).length ≤
      decimalReach + 1 + format.unitPower := by
    rw [length_numeral_le_iff (by omega)]
    refine Nat.lt_of_le_of_lt (Nat.mul_le_mul_right _ ?_) reach.largest
    exact Nat.le_of_lt (format.units_strictMono finite)
  have lower : format.unitPower - decimalReach <
      (numeral (format.exactDecimal ordinal).coefficient).length := by
    rcases Nat.eq_zero_or_pos (format.unitPower - decimalReach) with none | some
    · rw [none]
      exact length_numeral_pos _
    · rw [← Nat.not_le, length_numeral_le_iff some, Nat.not_lt]
      exact Nat.le_trans reach.least (Nat.le_mul_of_pos_left _ nonzero)
  rw [Decimal.leadingPower, exactDecimal_exponent]
  omega

/-- The exact decimal of a magnitude is read as that magnitude. -/
theorem ordinalOf_exactDecimal (reach : format.WithinReach) {ordinal : Nat}
    (positive : 0 < ordinal) (finite : ordinal < format.infinity) :
    format.ordinalOf (format.exactDecimal ordinal) = ordinal := by
  rcases leadingPower_exactDecimal reach positive finite with ⟨upper, lower⟩
  have nonzero : (format.exactDecimal ordinal).coefficient ≠ 0 := by
    have someUnits := format.units_strictMono positive
    have powers : 0 < 5 ^ format.unitPower := Nat.pow_pos (by decide)
    exact Nat.mul_ne_zero (by omega) (Nat.ne_of_gt powers)
  rw [ordinalOf, if_neg nonzero, if_neg (Int.not_lt.mpr upper), if_neg (Int.not_lt.mpr lower)]
  simp only [exactDecimal_coefficient, exactDecimal_exponent, Nat.mul_assoc, ← Nat.mul_pow,
    Int.neg_neg, Int.toNat_natCast]
  split
  next none =>
    have none : format.unitPower = 0 := by omega
    simp only [none]
    exact format.nearestOrdinal_units ordinal Nat.one_pos
  next => exact format.nearestOrdinal_units ordinal (Nat.pow_pos (by decide))

/-- The shortest decimal of a finite magnitude is read as that magnitude. -/
theorem ordinalOf_shortest (reach : format.WithinReach) (tie : DecimalTie) {ordinal : Nat}
    (finite : ordinal < format.infinity) :
    format.ordinalOf (format.shortest tie ordinal) = ordinal := by
  rw [shortest]
  split
  next zero =>
    rw [zero]
    rfl
  next nonzero =>
    simp only
    cases search : (List.range maxDigits).findSome? _ with
    | none => exact ordinalOf_exactDecimal reach (Nat.pos_of_ne_zero nonzero) finite
    | some found =>
        rcases List.exists_of_findSome?_eq_some search with ⟨fewer, _, candidate⟩
        have readsBack := List.find?_some candidate
        exact of_decide_eq_true readsBack

end BinaryFormat

end FilterQuery
