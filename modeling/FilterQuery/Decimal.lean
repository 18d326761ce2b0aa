import FilterQuery.Text.Numeral

namespace FilterQuery

open Text

/-!
# Decimal magnitudes

A decimal magnitude is a whole number scaled by a power of ten.  One value has
many such forms, and they are not identified: reading keeps the digits as they
were written, and writing decides where the point goes from the form it is
given.  No sign is kept here, since a negative zero would need it and a
magnitude does not.
-/

/-- The magnitude `coefficient * 10 ^ exponent`. -/
structure Decimal where
  coefficient : Nat
  exponent : Int
  deriving DecidableEq, Repr

namespace Decimal

/-- Read what follows the digits of a number: nothing, or a letter `e` of
either case and a power of ten. -/
def readExponent? : List Char → Option Int
  | [] => some 0
  | c :: rest => if c = 'e' ∨ c = 'E' then integer? rest else none

/-- Read an unsigned number: digits with at most one point among or around
them, at least one digit in all, and perhaps a power of ten. -/
def read? (text : List Char) : Option Decimal :=
  let whole := text.takeWhile Char.isDigit
  let (fraction, rest) := takeFraction (text.dropWhile Char.isDigit)
  if whole = [] ∧ fraction = [] then none
  else (readExponent? rest).map fun power =>
    ⟨digitsValue (whole ++ fraction), power - fraction.length⟩

/-- Put a point before the last `places` digits, with a zero in front of it if
no digit stands there. -/
def pointed (places : Nat) (digits : List Char) : List Char :=
  let padded := List.replicate (places + 1 - digits.length) '0' ++ digits
  padded.take (padded.length - places) ++ '.' :: padded.drop (padded.length - places)

/-- Write without a power of ten.  Whole numbers get no point. -/
def positional (decimal : Decimal) : List Char :=
  if 0 ≤ decimal.exponent then
    numeral decimal.coefficient ++ List.replicate decimal.exponent.toNat '0'
  else pointed (-decimal.exponent).toNat (numeral decimal.coefficient)

/-- The power of ten of the first digit. -/
def leadingPower (decimal : Decimal) : Int :=
  decimal.exponent + (numeral decimal.coefficient).length - 1

/-- Write with one digit before the point.  A single digit gets no point. -/
def scientific (plus : Bool) (decimal : Decimal) : List Char :=
  let power := decimal.leadingPower
  let mantissa :=
    match numeral decimal.coefficient with
    | first :: second :: rest => first :: '.' :: second :: rest
    | digits => digits
  let sign := if plus ∧ 0 ≤ power then ['+'] else []
  mantissa ++ 'e' :: sign ++ integerNumeral power

end Decimal

end FilterQuery
