import FilterQuery.Decimal

namespace FilterQuery

open Text

/-!
# Binary floating point numbers

A finite magnitude of a binary format is given by its *ordinal*, its place in
the increasing sequence of all magnitudes of the format.  Zero has ordinal zero
and the least subnormal has ordinal one.  The ordinal is also the number that
the exponent and fraction fields spell when they are read as one word.

Ordinals make two conditions disappear.  Every ordinal below the limit of the
format is a number, so that a significand need not be kept normal beside its
exponent.  The neighbours of a magnitude are the neighbouring ordinals, and the
significand is even exactly if the ordinal is, so that rounding can be stated on
ordinals alone.

All magnitudes are multiples of the least one, the *unit*.  Comparing a decimal
with a magnitude is therefore a comparison of whole numbers, and no step of
reading a number is inexact except the one rounding that it asks for.
-/

/-- An interchange format: the bits of its significand with the leading one,
the power of two that divides one to give the unit, and the number of exponents
that finite numbers use. -/
structure BinaryFormat where
  precision : Nat
  unitPower : Nat
  binades : Nat
  deriving DecidableEq, Repr

namespace BinaryFormat

/-- Thirty-two bits. -/
def single : BinaryFormat := ⟨24, 149, 255⟩

/-- Sixty-four bits. -/
def double : BinaryFormat := ⟨53, 1074, 2047⟩

variable (format : BinaryFormat)

/-- How many magnitudes share an exponent. -/
def binade : Nat := 2 ^ (format.precision - 1)

/-- The first ordinal that is no finite number.  Rounding treats it as the
magnitude that would stand there. -/
def infinity : Nat := format.binades * format.binade

/-- The magnitude at an ordinal, counted in units. -/
def units (ordinal : Nat) : Nat :=
  if ordinal < format.binade then ordinal
  else (format.binade + ordinal % format.binade) * 2 ^ (ordinal / format.binade - 1)

/-- The last ordinal whose magnitude does not exceed a number of units. -/
def floorOrdinal (count : Nat) : Nat :=
  if count < format.binade then count
  else
    let shift := count.log2 - (format.precision - 1)
    shift * format.binade + count / 2 ^ shift

/-- The ordinal nearest to a quotient of units; of two that are equally near,
the even one. -/
def nearestOrdinal (numerator denominator : Nat) : Nat :=
  let below := format.floorOrdinal (numerator / denominator)
  let middle := (format.units below + format.units (below + 1)) * denominator
  if 2 * numerator < middle then below
  else if middle < 2 * numerator then below + 1
  else if below % 2 = 0 then below else below + 1

/-- The power of ten beyond which no magnitude needs to be looked at: every
decimal of a larger leading power exceeds both formats, and every decimal of a
smaller one than its negative rounds to zero. -/
def decimalReach : Nat := 400

/-- The ordinal nearest to a decimal.  It is the infinite one for decimals too
large for the format. -/
def ordinalOf (decimal : Decimal) : Nat :=
  if decimal.coefficient = 0 then 0
  else if (decimalReach : Int) < decimal.leadingPower then format.infinity
  else if decimal.leadingPower < -(decimalReach : Int) then 0
  else
    let scaled := decimal.coefficient * 2 ^ format.unitPower
    if 0 ≤ decimal.exponent then
      format.nearestOrdinal (scaled * 10 ^ decimal.exponent.toNat) 1
    else format.nearestOrdinal scaled (10 ^ (-decimal.exponent).toNat)

end BinaryFormat

/-- A number of a binary format.  Zeros keep their sign; what is not a number
has no sign and no payload. -/
inductive Binary (format : BinaryFormat) where
  | finite (negative : Bool) (ordinal : Fin format.infinity)
  | infinite (negative : Bool)
  | nan
  deriving DecidableEq, Repr

namespace Binary

variable {format : BinaryFormat}

/-- Numerical equality.  The two zeros are equal, and what is not a number is
equal to nothing. -/
def same : Binary format → Binary format → Bool
  | finite negative ordinal, finite negative' ordinal' =>
    ordinal == ordinal' && (negative == negative' || ordinal.val == 0)
  | infinite negative, infinite negative' => negative == negative'
  | _, _ => false

/-- Neither infinite nor outside the numbers. -/
def isFinite : Binary format → Bool
  | finite _ _ => true
  | _ => false

/-- The number nearest to a signed decimal, infinite if the format has none so
large. -/
def ofDecimal (negative : Bool) (decimal : Decimal) : Binary format :=
  if bounded : format.ordinalOf decimal < format.infinity then
    finite negative ⟨format.ordinalOf decimal, bounded⟩
  else infinite negative

/-- Read one of the words for what no digits write, in either case. -/
def readSpecial? (negative : Bool) (text : List Char) : Option (Binary format) :=
  match String.ofList (text.map Char.toLower) with
  | "inf" => some (infinite negative)
  | "infinity" => some (infinite negative)
  | "nan" => some nan
  | _ => none

/-- Read a number: a sign or none, and then digits or one of the special
words. -/
def read? (text : List Char) : Option (Binary format) :=
  let (negative, magnitude) := takeSign text
  match Decimal.read? magnitude with
  | some decimal => some (ofDecimal negative decimal)
  | none => readSpecial? negative magnitude

end Binary

end FilterQuery
