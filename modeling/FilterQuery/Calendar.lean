import FilterQuery.Text.Numeral

namespace FilterQuery

open Text

/-!
# Calendar dates

A timestamp literal is a date of the Gregorian calendar, which is carried back
before its introduction and has a year zero.  That a date exists is part of its
type; reading looks at the digits first and then asks whether there is such a
day.

Literals are narrower than dates.  They have no sign and exactly four digits for
the year, so that only the years from 0 to 9999 can be written in a query.
-/

/-- The years with a twenty-ninth of February. -/
def isLeapYear (year : Int) : Bool :=
  year % 4 == 0 && (year % 100 != 0 || year % 400 == 0)

/-- The number of days in a month, and none for a number that is no month. -/
def daysInMonth (year : Int) (month : Nat) : Nat :=
  match month with
  | 1 | 3 | 5 | 7 | 8 | 10 | 12 => 31
  | 4 | 6 | 9 | 11 => 30
  | 2 => if isLeapYear year then 29 else 28
  | _ => 0

/-- The days that the calendar has, in years of at most four digits. -/
def IsDate (year : Int) (month day : Nat) : Prop :=
  -9999 ≤ year ∧ year ≤ 9999 ∧ 1 ≤ day ∧ day ≤ daysInMonth year month

instance (year : Int) (month day : Nat) : Decidable (IsDate year month day) :=
  inferInstanceAs (Decidable (_ ∧ _))

/-- A day of the calendar.  A timestamp is the midnight, in universal time, at
which it begins. -/
structure Date where
  year : Int
  month : Nat
  day : Nat
  valid : IsDate year month day
  deriving DecidableEq, Repr

namespace Date

/-- The day of a year, month and day of the month, if there is one. -/
def ofParts? (year : Int) (month day : Nat) : Option Date :=
  if valid : IsDate year month day then some ⟨year, month, day, valid⟩ else none

/-- Read a date literal: four digits, two and two, with hyphens between. -/
def read? : List Char → Option Date
  | [y₁, y₂, y₃, y₄, '-', m₁, m₂, '-', d₁, d₂] =>
    if [y₁, y₂, y₃, y₄, m₁, m₂, d₁, d₂].all Char.isDigit then
      ofParts? (digitsValue [y₁, y₂, y₃, y₄]) (digitsValue [m₁, m₂]) (digitsValue [d₁, d₂])
    else none
  | _ => none

/-- Write a date.  The year has four digits, behind a minus sign if it is
negative. -/
def literal (date : Date) : List Char :=
  let year := paddedNumeral 4 date.year.natAbs
  (if date.year < 0 then '-' :: year else year) ++
    '-' :: paddedNumeral 2 date.month ++ '-' :: paddedNumeral 2 date.day

/-- The midnight at which the day begins, as documents write it.  They have no
form for negative years. -/
def midnight? (date : Date) : Option (List Char) :=
  if 0 ≤ date.year then some (date.literal ++ "T00:00:00Z".toList) else none

end Date

end FilterQuery
