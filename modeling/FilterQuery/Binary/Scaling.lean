import FilterQuery.Binary

namespace FilterQuery

/-!
# Scaling with rounding

Some notations do not ask for the number nearest to a decimal.  They take the
digits as a whole number, round it, and scale it by a power of ten in steps, each
of them rounded again.  The result is near the decimal and not always nearest to
it.  This is kept apart from `Binary.ofDecimal`, which rounds once.

A single step is exact up to its one rounding, as the operands are whole numbers
of units.
-/

namespace BinaryFormat

variable (format : BinaryFormat)

/-- The ordinal nearest to a whole number. -/
def ofWhole (value : Nat) : Nat :=
  format.nearestOrdinal (value * 2 ^ format.unitPower) 1

/-- The ordinal nearest to the product of two magnitudes. -/
def product (ordinal factor : Nat) : Nat :=
  format.nearestOrdinal (format.units ordinal * format.units factor) (2 ^ format.unitPower)

/-- The ordinal nearest to the quotient of two magnitudes. -/
def quotient (ordinal divisor : Nat) : Nat :=
  format.nearestOrdinal (format.units ordinal * 2 ^ format.unitPower) (format.units divisor)

/-- The ordinal nearest to a power of ten. -/
def powerOfTen (power : Nat) : Nat :=
  format.ordinalOf ⟨1, power⟩

/-- The largest power of ten that a step can scale by. -/
def largestStep : Nat := 308

/-- Scale a magnitude by a power of ten.  Numbers too large for the format are
refused, and numbers too small for it become zero. -/
def scaled? (ordinal : Nat) (power : Int) : Option Nat :=
  if power.natAbs ≤ largestStep then
    if 0 ≤ power then
      let result := format.product ordinal (format.powerOfTen power.natAbs)
      if result < format.infinity then some result else none
    else some (format.quotient ordinal (format.powerOfTen power.natAbs))
  else if ordinal = 0 then some 0
  else if 0 ≤ power then none
  else scaled? (format.quotient ordinal (format.powerOfTen largestStep)) (power + largestStep)
termination_by power.natAbs
decreasing_by
  have positive : 0 < largestStep := by decide
  omega

end BinaryFormat

end FilterQuery
