import FilterQuery.Binary

namespace FilterQuery

open Text

/-!
# The shortest decimal that reads back

A number is written with as few digits as determine it.  For each count of
digits there are two candidates, the neighbours of the number among the
decimals of that many digits.  A candidate is taken if *reading it* gives the
number again; the reader itself is asked, and no interval of acceptable decimals
is computed beside it.  The nearer candidate is asked first.

When both candidates are equally near the choice between them is a convention of
the notation, and is a parameter here.

The search is bounded by a count of digits that suffices for both formats.  If
it did not, the exact decimal would be written, which every binary number has.
Nothing said about the result therefore depends on that bound.
-/

/-- Which of two equally near decimals of a length is written. -/
inductive DecimalTie where
  | upper
  | even
  deriving DecidableEq, Repr

namespace BinaryFormat

/-- The power of ten of the first digit of a positive quotient. -/
def quotientPower (numerator denominator : Nat) : Int :=
  if denominator ≤ numerator then (numeral (numerator / denominator)).length - 1
  else -((numeral ((denominator - 1) / numerator)).length : Int)

/-- The decimals of `count` digits on either side of a positive quotient, the
nearer first. -/
def neighbours (tie : DecimalTie) (count numerator denominator : Nat) : List Decimal :=
  let power := quotientPower numerator denominator
  let scale := power - count + 1
  let (top, bottom) :=
    if 0 ≤ scale then (numerator, denominator * 10 ^ scale.toNat)
    else (numerator * 10 ^ (-scale).toNat, denominator)
  let lower := top / bottom
  let below : Decimal := ⟨lower, scale⟩
  let above : Decimal := if lower + 1 = 10 ^ count then ⟨1, power + 1⟩ else ⟨lower + 1, scale⟩
  let middle := (2 * lower + 1) * bottom
  if 2 * top < middle then [below, above]
  else if middle < 2 * top then [above, below]
  else
    match tie with
    | .upper => [above, below]
    | .even => if lower % 2 = 0 then [below, above] else [above, below]

variable (format : BinaryFormat)

/-- The decimal that is equal to the magnitude at an ordinal. -/
def exactDecimal (ordinal : Nat) : Decimal :=
  ⟨format.units ordinal * 5 ^ format.unitPower, -(format.unitPower : Int)⟩

/-- The most digits that a shortest decimal can need. -/
def maxDigits : Nat := 17

/-- The shortest decimal that reads back as an ordinal, nearest to its
magnitude. -/
def shortest (tie : DecimalTie) (ordinal : Nat) : Decimal :=
  if ordinal = 0 then ⟨0, 0⟩
  else
    let numerator := format.units ordinal
    let denominator := 2 ^ format.unitPower
    ((List.range maxDigits).findSome? fun fewer =>
      (neighbours tie (fewer + 1) numerator denominator).find? fun candidate =>
        format.ordinalOf candidate = ordinal).getD (format.exactDecimal ordinal)

end BinaryFormat

namespace Binary

variable {format : BinaryFormat}

/-- Write a number as a literal: never with a power of ten, and without a point
if it is whole. -/
def literal : Binary format → List Char
  | finite negative ordinal =>
    let digits := (format.shortest .upper ordinal).positional
    if negative then '-' :: digits else digits
  | infinite negative => if negative then "-inf".toList else "inf".toList
  | nan => "NaN".toList

/-- The same number in the wide format, by way of its shortest decimal in its
own format.  The tenth that is nearest in the narrow format becomes the tenth
that is nearest in the wide one, and not the narrow number itself. -/
def widenDecimally : Binary BinaryFormat.single → Binary BinaryFormat.double
  | finite negative ordinal => ofDecimal negative (BinaryFormat.single.shortest .upper ordinal)
  | infinite negative => infinite negative
  | nan => nan

end Binary

/-- How documents write finite numbers: whether a power of ten that is not
negative carries a plus sign, and which of two equally near decimals is
written. -/
structure FloatNotation where
  plus : Bool
  tie : DecimalTie
  deriving DecidableEq, Repr

namespace FloatNotation

/-- Whole numbers are written with one zero behind the point. -/
def plain (decimal : Decimal) : List Char :=
  if 0 ≤ decimal.exponent then decimal.positional ++ ['.', '0'] else decimal.positional

/-- A first digit between the fifth place behind the point and the sixteenth
before it is written in place; other numbers are written with a power of
ten. -/
def magnitude (style : FloatNotation) (decimal : Decimal) : List Char :=
  let power := decimal.leadingPower
  if -5 ≤ power ∧ power ≤ 15 then plain decimal else decimal.scientific style.plus

/-- Write a finite number.  There is no text for the others. -/
def write? (style : FloatNotation) : Binary BinaryFormat.double → Option (List Char)
  | .finite negative ordinal =>
    let digits := style.magnitude (BinaryFormat.double.shortest style.tie ordinal)
    some (if negative then '-' :: digits else digits)
  | _ => none

end FloatNotation

end FilterQuery
