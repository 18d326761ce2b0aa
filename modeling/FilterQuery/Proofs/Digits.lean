import Mathlib.Data.List.Induction
import FilterQuery.Text.Numeral

namespace FilterQuery
namespace Text

/-!
# Digits and the numbers they spell

Every literal of a number is made of digits somewhere, and reading it back comes down to
two facts.  The value of digits is positional, so that it can be computed across a point
or behind padding.  And a run of digits is determined by its value and its length: it is
the numeral of the value with zeros in front.

No fact here knows about a sign except those on `takeSign`, which say that a sign and the
digits behind it are told apart whatever follows the digits.
-/

theorem digitChar_of_isDigit {c : Char} (digit : c.isDigit = true) :
    Nat.digitChar (c.toNat - '0'.toNat) = c ∧ c.toNat - '0'.toNat < 10 := by
  have bounds : 48 ≤ c.toNat ∧ c.toNat ≤ 57 := by
    simp only [Char.isDigit, Bool.and_eq_true, decide_eq_true_eq, ge_iff_le,
      UInt32.le_iff_toNat_le] at digit
    exact digit
  have zero : '0'.toNat = 48 := rfl
  have small : c.toNat - '0'.toNat < 10 := by omega
  refine ⟨?_, small⟩
  rw [← Char.toNat_inj, Nat.toNat_digitChar_of_lt_ten small]
  omega

/-! ## Values are positional -/

theorem digitsValue_append (front back : List Char) :
    digitsValue (front ++ back) = 10 ^ back.length * digitsValue front + digitsValue back := by
  rw [digitsValue, Nat.ofDigitChars_append, Nat.ofDigitChars_eq_ofDigitChars_zero]
  rfl

theorem digitsValue_singleton (c : Char) : digitsValue [c] = c.toNat - '0'.toNat := by
  rw [digitsValue, Nat.ofDigitChars_cons, Nat.ofDigitChars_nil, Nat.mul_zero, Nat.zero_add]

theorem digitsValue_replicate_zero (count : Nat) : digitsValue (List.replicate count '0') = 0 := by
  rw [digitsValue, Nat.ofDigitChars_replicate_zero, Nat.mul_zero]

/-- Zeros in front do not count. -/
theorem digitsValue_padded (count : Nat) (digits : List Char) :
    digitsValue (List.replicate count '0' ++ digits) = digitsValue digits := by
  rw [digitsValue_append, digitsValue_replicate_zero, Nat.mul_zero, Nat.zero_add]

/-- Zeros behind scale by powers of ten. -/
theorem digitsValue_scaled (digits : List Char) (count : Nat) :
    digitsValue (digits ++ List.replicate count '0') = 10 ^ count * digitsValue digits := by
  rw [digitsValue_append, digitsValue_replicate_zero, List.length_replicate, Nat.add_zero]

/-- So many digits spell a number below that power of ten. -/
theorem digitsValue_lt {digits : List Char} (all : ∀ c ∈ digits, c.isDigit = true) :
    digitsValue digits < 10 ^ digits.length := by
  induction digits using List.reverseRecOn with
  | nil => decide
  | append_singleton front last ih =>
      have small := (digitChar_of_isDigit (all last (by simp))).2
      have before := ih fun c member => all c (List.mem_append_left _ member)
      rw [digitsValue_append, digitsValue_singleton, List.length_append, List.length_singleton,
        Nat.pow_one, Nat.pow_succ]
      omega

@[simp]
theorem digitsValue_numeral (value : Nat) : digitsValue (numeral value) = value :=
  Nat.ofDigitChars_ten_toDigits

/-! ## Numerals and padded numerals -/

theorem numeral_ne_nil (value : Nat) : numeral value ≠ [] :=
  Nat.toDigits_ne_nil

theorem isDigit_of_mem_numeral {value : Nat} {c : Char} (member : c ∈ numeral value) :
    c.isDigit = true :=
  List.all_eq_true.mp (all_isDigit_numeral value) c member

theorem numeral_of_lt_ten {value : Nat} (small : value < 10) :
    numeral value = [Nat.digitChar value] :=
  Nat.toDigits_of_lt_base small

theorem numeral_snoc {front last : Nat} (positive : 0 < front) (small : last < 10) :
    numeral (10 * front + last) = numeral front ++ [Nat.digitChar last] := by
  rw [numeral, ← Nat.toDigits_append_toDigits (by decide) positive small,
    Nat.toDigits_of_lt_base small]
  rfl

/-- The numeral has as many digits as the first power of ten above the value. -/
theorem length_numeral_le_iff {value count : Nat} (positive : 0 < count) :
    (numeral value).length ≤ count ↔ value < 10 ^ count :=
  Nat.length_toDigits_le_iff (by decide) positive

theorem length_numeral_pos (value : Nat) : 0 < (numeral value).length :=
  List.length_pos_iff.mpr (numeral_ne_nil value)

/-- Digits are the numeral of their value, padded to their number. -/
theorem paddedNumeral_digitsValue {digits : List Char} (nonempty : digits ≠ [])
    (all : digits.all Char.isDigit = true) :
    paddedNumeral digits.length (digitsValue digits) = digits := by
  induction digits using List.reverseRecOn with
  | nil => exact absurd rfl nonempty
  | append_singleton front last ih =>
      rw [List.all_append, Bool.and_eq_true] at all
      rcases digitChar_of_isDigit (List.all_eq_true.mp all.2 last (by simp)) with ⟨restored, small⟩
      have value : digitsValue (front ++ [last]) =
          10 * digitsValue front + (last.toNat - '0'.toNat) := by
        rw [digitsValue_append, digitsValue_singleton, List.length_singleton, Nat.pow_one]
      rw [value, paddedNumeral, List.length_append, List.length_singleton]
      by_cases none : front = []
      · subst none
        rw [show digitsValue [] = 0 from rfl, Nat.mul_zero, Nat.zero_add,
          numeral_of_lt_ten small, restored]
        rfl
      · have again := ih none all.1
        rw [paddedNumeral] at again
        rcases Nat.eq_zero_or_pos (digitsValue front) with zero | positive
        · -- All digits in front are zeros, and the numeral is the last digit alone.
          rw [zero, Nat.mul_zero, Nat.zero_add, numeral_of_lt_ten small, restored]
          rw [zero, show numeral 0 = List.replicate 1 '0' from rfl,
            List.replicate_append_replicate, List.length_replicate,
            Nat.sub_add_cancel (List.length_pos_iff.mpr none)] at again
          rw [List.length_singleton, Nat.add_sub_cancel, again]
        · rw [numeral_snoc positive small, restored, List.length_append, List.length_singleton,
            Nat.add_sub_add_right, ← List.append_assoc, again]

/-! ## Signs -/

theorem takeSign_cons_of_isDigit {c : Char} (digit : c.isDigit = true) (rest : List Char) :
    takeSign (c :: rest) = (false, c :: rest) := by
  unfold takeSign
  split
  next found =>
    cases found
    exact absurd digit (by decide)
  next found =>
    cases found
    exact absurd digit (by decide)
  next => rfl

theorem takeSign_numeral_append (value : Nat) (rest : List Char) :
    takeSign (numeral value ++ rest) = (false, numeral value ++ rest) := by
  rcases List.exists_cons_of_ne_nil (numeral_ne_nil value) with ⟨first, others, same⟩
  have digit : first.isDigit = true := isDigit_of_mem_numeral (by rw [same]; simp)
  rw [same, List.cons_append, takeSign_cons_of_isDigit digit]

/-- The sign of an integer comes off its numeral. -/
theorem takeSign_integerNumeral_append (value : Int) (rest : List Char) :
    takeSign (integerNumeral value ++ rest) =
      (decide (value < 0), numeral value.natAbs ++ rest) := by
  rw [integerNumeral]
  split
  next negative =>
    rw [decide_eq_true negative]
    rfl
  next positive => rw [takeSign_numeral_append, decide_eq_false positive]

theorem sign_natAbs (value : Int) :
    (if decide (value < 0) then -(value.natAbs : Int) else value.natAbs) = value := by
  rcases Int.lt_or_le value 0 with negative | positive
  · rw [decide_eq_true negative, if_pos rfl]
    omega
  · rw [decide_eq_false (by omega), if_neg (by decide)]
    omega

/-- An integer is read back from its numeral. -/
theorem integer?_integerNumeral (value : Int) : integer? (integerNumeral value) = some value := by
  have split := takeSign_integerNumeral_append value []
  rw [List.append_nil, List.append_nil] at split
  simp only [integer?, split, natural?_numeral]
  exact congrArg some (sign_natAbs value)

end Text
end FilterQuery
