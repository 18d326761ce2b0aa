import Mathlib.Algebra.Order.Floor.Semifield
import FilterQuery.Proofs.DurationWords

namespace FilterQuery
namespace Duration

open Text

/-!
# Fractions without their last digits

A fraction of a unit may have any number of digits, and no more than eighteen of them are looked
at.  The exact number of nanoseconds would be the whole part of the product of unit and fraction.
What is computed instead is the whole part of the product of the unit and a smaller fraction.

The smaller fraction is itself a whole part, namely that of the fraction in units of its eighteenth
place.  All that is said here follows from this one equation, and no digit is looked at again.
Two whole parts instead of one never give more, and they keep the order of fractions.  They give
less by one at most, since even an hour has far fewer nanoseconds than there are places.  They give
the same where nothing is cut off, and also where the unit divides the number of places, as all
units up to a second do.  Minutes and hours do not, and for them the difference does arise.
-/

/-! ## Digits behind a point -/

theorem fractionValue_nonneg (digits : List Char) : 0 ≤ fractionValue digits := by
  rw [fractionValue]
  positivity

theorem fractionValue_lt_one {digits : List Char} (all : ∀ c ∈ digits, c.isDigit = true) :
    fractionValue digits < 1 := by
  rw [fractionValue, div_lt_one (by positivity)]
  exact_mod_cast digitsValue_lt all

/-- Digits further behind count by the place at which they begin. -/
theorem fractionValue_append (front back : List Char) :
    fractionValue (front ++ back) =
      fractionValue front + fractionValue back / 10 ^ front.length := by
  rw [fractionValue, fractionValue, fractionValue, digitsValue_append, List.length_append, pow_add]
  push_cast
  field_simp

/-- Digits behind the eighteenth are worth less than one at that place. -/
theorem fractionValue_take_bounds {fraction : List Char}
    (digits : ∀ c ∈ fraction, c.isDigit = true) :
    fractionValue (fraction.take 18) ≤ fractionValue fraction ∧
      fractionValue fraction < fractionValue (fraction.take 18) + 1 / 10 ^ 18 := by
  have split := fractionValue_append (fraction.take 18) (fraction.drop 18)
  rw [List.take_append_drop] at split
  by_cases long : 18 ≤ fraction.length
  · have nonneg := fractionValue_nonneg (fraction.drop 18)
    have small : fractionValue (fraction.drop 18) < 1 :=
      fractionValue_lt_one fun c member => digits c (List.mem_of_mem_drop member)
    rw [List.length_take_of_le long] at split
    constructor <;> linarith
  · rw [List.take_of_length_le (by omega)]
    constructor <;> norm_num

/-- The first eighteen digits are a fraction in whole units of its eighteenth place. -/
theorem fractionValue_take {fraction : List Char} (digits : ∀ c ∈ fraction, c.isDigit = true) :
    fractionValue (fraction.take 18) = (⌊fractionValue fraction * 10 ^ 18⌋₊ : ℚ) / 10 ^ 18 := by
  have short : (fraction.take 18).length ≤ 18 := List.length_take_le _ _
  have whole : fractionValue (fraction.take 18) * 10 ^ 18 =
      (digitsValue (fraction.take 18) * 10 ^ (18 - (fraction.take 18).length) : Nat) := by
    rw [fractionValue, div_mul_eq_mul_div, div_eq_iff (by positivity)]
    push_cast
    rw [mul_assoc, ← pow_add, Nat.sub_add_cancel short]
  rcases fractionValue_take_bounds digits with ⟨below, above⟩
  have floored : ⌊fractionValue fraction * 10 ^ 18⌋₊ =
      digitsValue (fraction.take 18) * 10 ^ (18 - (fraction.take 18).length) := by
    rw [Nat.floor_eq_iff (by have := fractionValue_nonneg fraction; positivity), ← whole]
    constructor <;> linarith
  rw [floored, ← whole, mul_div_cancel_right₀ _ (by positivity)]

/-! ## Nanoseconds -/

/-- The exact whole nanoseconds in a fraction of a unit, all digits counted. -/
def exactNanoseconds (fraction : List Char) (unit : Nat) : Nat :=
  ⌊fractionValue fraction * unit⌋₊

theorem fractionNanoseconds_eq_floor {fraction : List Char}
    (digits : ∀ c ∈ fraction, c.isDigit = true) (unit : Nat) :
    fractionNanoseconds fraction unit =
      ⌊(⌊fractionValue fraction * 10 ^ 18⌋₊ : ℚ) / 10 ^ 18 * unit⌋₊ := by
  rw [← floor_fractionValue, fractionValue_take digits]

theorem fractionNanoseconds_lt {fraction : List Char} {unit : Nat}
    (digits : ∀ c ∈ fraction, c.isDigit = true) (positive : 0 < unit) :
    fractionNanoseconds fraction unit < unit := by
  have nonneg := fractionValue_nonneg (fraction.take 18)
  have small : fractionValue (fraction.take 18) < 1 :=
    fractionValue_lt_one fun c member => digits c (List.mem_of_mem_take member)
  have some : (0 : ℚ) < unit := by exact_mod_cast positive
  rw [← floor_fractionValue, Nat.floor_lt (by positivity)]
  exact mul_lt_of_lt_one_left some small

theorem fractionNanoseconds_le_exact {fraction : List Char}
    (digits : ∀ c ∈ fraction, c.isDigit = true) (unit : Nat) :
    fractionNanoseconds fraction unit ≤ exactNanoseconds fraction unit := by
  rw [← floor_fractionValue, exactNanoseconds]
  exact Nat.floor_mono (mul_le_mul_of_nonneg_right (fractionValue_take_bounds digits).1
    (Nat.cast_nonneg unit))

/-- What is cut off is less than a nanosecond, and it carries over into one at most. -/
theorem exact_le_fractionNanoseconds {fraction : List Char} {unit : Nat}
    (digits : ∀ c ∈ fraction, c.isDigit = true) (small : unit ≤ 10 ^ 18) :
    exactNanoseconds fraction unit ≤ fractionNanoseconds fraction unit + 1 := by
  have bounded : (unit : ℚ) ≤ 10 ^ 18 := by exact_mod_cast small
  have nonneg := fractionValue_nonneg (fraction.take 18)
  have close : fractionValue fraction * unit ≤ fractionValue (fraction.take 18) * unit + 1 :=
    calc fractionValue fraction * unit
        ≤ (fractionValue (fraction.take 18) + 1 / 10 ^ 18) * unit :=
          mul_le_mul_of_nonneg_right (fractionValue_take_bounds digits).2.le (Nat.cast_nonneg unit)
      _ ≤ fractionValue (fraction.take 18) * unit + 1 := by linarith
  rw [← floor_fractionValue, exactNanoseconds, ← Nat.floor_add_one (by positivity)]
  exact Nat.floor_mono close

theorem fractionNanoseconds_of_short {fraction : List Char} (short : fraction.length ≤ 18)
    (unit : Nat) : fractionNanoseconds fraction unit = exactNanoseconds fraction unit := by
  rw [← floor_fractionValue, List.take_of_length_le short, exactNanoseconds]

/-- A nanosecond is so many whole places that cutting off the others first changes nothing. -/
theorem fractionNanoseconds_of_dvd {fraction : List Char} {unit : Nat}
    (digits : ∀ c ∈ fraction, c.isDigit = true) (divides : unit ∣ 10 ^ 18) :
    fractionNanoseconds fraction unit = exactNanoseconds fraction unit := by
  rcases divides with ⟨places, product⟩
  have split : (10 ^ 18 : ℚ) = unit * places := by exact_mod_cast product
  have nonzero : (unit * places : ℚ) ≠ 0 := by
    rw [← split]
    norm_num
  have someUnit : (unit : ℚ) ≠ 0 := left_ne_zero_of_mul nonzero
  have somePlaces : (places : ℚ) ≠ 0 := right_ne_zero_of_mul nonzero
  have twice : (⌊fractionValue fraction * 10 ^ 18⌋₊ : ℚ) / 10 ^ 18 * unit =
      ⌊fractionValue fraction * 10 ^ 18⌋₊ / (places : ℚ) := by
    rw [split]
    field_simp
  have once : fractionValue fraction * 10 ^ 18 / places = fractionValue fraction * unit := by
    rw [split]
    field_simp
  rw [fractionNanoseconds_eq_floor digits, twice, Nat.floor_div_natCast, Nat.floor_natCast,
    ← Nat.floor_div_natCast, once, exactNanoseconds]

theorem fractionNanoseconds_mono {fraction other : List Char}
    (digits : ∀ c ∈ fraction, c.isDigit = true) (otherDigits : ∀ c ∈ other, c.isDigit = true)
    (ordered : fractionValue other ≤ fractionValue fraction) (unit : Nat) :
    fractionNanoseconds other unit ≤ fractionNanoseconds fraction unit := by
  have places : ⌊fractionValue other * 10 ^ 18⌋₊ ≤ ⌊fractionValue fraction * 10 ^ 18⌋₊ :=
    Nat.floor_mono (mul_le_mul_of_nonneg_right ordered (by positivity))
  rw [fractionNanoseconds_eq_floor digits, fractionNanoseconds_eq_floor otherDigits]
  gcongr

/-- The whole nanoseconds of a fraction of any length are computed without leaving a word.  They
are less than the unit, grow with the fraction, and are the exact ones or one less.  They are the
exact ones if no digit is left out, or if the unit divides a second. -/
theorem fractionNanoseconds_within_one (fraction : List Char) (unit : Nat)
    (digits : ∀ c ∈ fraction, c.isDigit = true)
    (known : unit ∈ [1, 10 ^ 3, 10 ^ 6, 10 ^ 9, 60 * 10 ^ 9, 3600 * 10 ^ 9]) :
    fractionInWords fraction unit = .ok (fractionNanoseconds fraction unit) ∧
      fractionNanoseconds fraction unit < unit ∧
      fractionNanoseconds fraction unit ≤ exactNanoseconds fraction unit ∧
      exactNanoseconds fraction unit ≤ fractionNanoseconds fraction unit + 1 ∧
      (fraction.length ≤ 18 ∨ unit ∣ 10 ^ 9 →
        fractionNanoseconds fraction unit = exactNanoseconds fraction unit) ∧
      ∀ other : List Char, (∀ c ∈ other, c.isDigit = true) →
        fractionValue other ≤ fractionValue fraction →
          fractionNanoseconds other unit ≤ fractionNanoseconds fraction unit := by
  have range : ∀ entry ∈ [1, 10 ^ 3, 10 ^ 6, 10 ^ 9, 60 * 10 ^ 9, 3600 * 10 ^ 9],
      0 < entry ∧ entry ≤ 3600 * perSecond := by
    decide
  rcases range unit known with ⟨positive, small⟩
  refine ⟨fractionInWords_eq digits small, fractionNanoseconds_lt digits positive,
    fractionNanoseconds_le_exact digits unit,
    exact_le_fractionNanoseconds digits (small.trans (by decide)), ?_, ?_⟩
  · rintro (short | divides)
    · exact fractionNanoseconds_of_short short unit
    · exact fractionNanoseconds_of_dvd digits (divides.trans (by decide))
  · intro other otherDigits ordered
    exact fractionNanoseconds_mono digits otherDigits ordered unit

/-- Nineteen digits of a minute are a whole nanosecond, and the first eighteen are none. -/
theorem fractionNanoseconds_within_one_of_minutes :
    (∀ c ∈ "0000000000166666667".toList, c.isDigit = true) ∧
      60 * 10 ^ 9 ∈ [1, 10 ^ 3, 10 ^ 6, 10 ^ 9, 60 * 10 ^ 9, 3600 * 10 ^ 9] ∧
      fractionInWords "0000000000166666667".toList (60 * 10 ^ 9) = .ok 0 ∧
      exactNanoseconds "0000000000166666667".toList (60 * 10 ^ 9) = 1 := by
  have digits : ∀ c ∈ "0000000000166666667".toList, c.isDigit = true :=
    List.all_eq_true.mp (by decide)
  have known : 60 * 10 ^ 9 ∈ [1, 10 ^ 3, 10 ^ 6, 10 ^ 9, 60 * 10 ^ 9, 3600 * 10 ^ 9] := by
    decide
  have computed : fractionNanoseconds "0000000000166666667".toList (60 * 10 ^ 9) = 0 := by
    decide +kernel
  have value : digitsValue "0000000000166666667".toList = 166666667 := by decide +kernel
  have length : "0000000000166666667".toList.length = 19 := by decide
  have least : 1 ≤ exactNanoseconds "0000000000166666667".toList (60 * 10 ^ 9) := by
    rw [exactNanoseconds, fractionValue, value, length]
    exact Nat.le_floor (by norm_num)
  rcases fractionNanoseconds_within_one _ _ digits known with ⟨inWords, _, _, within, _⟩
  rw [computed] at inWords within
  exact ⟨digits, known, inWords, Nat.le_antisymm within least⟩

end Duration
end FilterQuery
