import Mathlib.Data.List.TakeWhile
import FilterQuery.Value
import FilterQuery.Proofs.Rounding

namespace FilterQuery

open Text

/-!
# Reading floating point literals back

A literal is written in place, without a power of ten.  Reading it does not always give
the decimal from which it was written: where that has a positive power of ten, the zeros
behind its digits are read as digits.  What is read is then another form of the same
decimal, and rounding does not tell the forms apart.

With the reading of shortest decimals this makes every finite number the one that its
own literal is read as, with its sign, also at zero.
-/

namespace Decimal

/-- The form in which a decimal is read after it was written in place. -/
def inPlace (decimal : Decimal) : Decimal :=
  if 0 ≤ decimal.exponent then ⟨10 ^ decimal.exponent.toNat * decimal.coefficient, 0⟩ else decimal

/-! ## Texts in place -/

theorem takeFraction_point {fraction : List Char} (digits : ∀ c ∈ fraction, c.isDigit = true) :
    takeFraction ('.' :: fraction) = (fraction, []) := by
  rw [takeFraction, List.takeWhile_eq_self_iff.mpr digits, List.dropWhile_eq_nil_iff.mpr digits]

/-- Digits without a point are a whole number. -/
theorem read?_digits {digits : List Char} (nonempty : digits ≠ [])
    (all : ∀ c ∈ digits, c.isDigit = true) :
    read? digits = some ⟨digitsValue digits, 0⟩ := by
  simp only [read?, List.takeWhile_eq_self_iff.mpr all, List.dropWhile_eq_nil_iff.mpr all,
    takeFraction, nonempty, false_and, if_false, readExponent?, Option.map_some,
    List.append_nil, List.length_nil]
  rfl

/-- Digits behind a point lower the power of ten. -/
theorem read?_point {whole fraction : List Char} (nonempty : whole ≠ [])
    (wholeDigits : ∀ c ∈ whole, c.isDigit = true)
    (fractionDigits : ∀ c ∈ fraction, c.isDigit = true) :
    read? (whole ++ '.' :: fraction) =
      some ⟨digitsValue (whole ++ fraction), -(fraction.length : Int)⟩ := by
  rw [read?, List.takeWhile_append_of_pos wholeDigits, List.dropWhile_append_of_pos wholeDigits,
    List.takeWhile_cons_of_neg (by decide), List.dropWhile_cons_of_neg (by decide),
    List.append_nil]
  simp only [takeFraction_point fractionDigits, nonempty, false_and, if_false, readExponent?,
    Option.map_some, Int.zero_sub]

theorem isDigit_of_mem_padded {count value : Nat} {c : Char}
    (member : c ∈ List.replicate count '0' ++ numeral value) : c.isDigit = true := by
  rcases List.mem_append.mp member with zero | digit
  · rw [List.eq_of_mem_replicate zero]
    rfl
  · exact isDigit_of_mem_numeral digit

/-- Pointed digits are two runs of digits around a point, the first of them not empty. -/
theorem exists_pointed (places value : Nat) :
    ∃ whole fraction, pointed places (numeral value) = whole ++ '.' :: fraction ∧ whole ≠ [] ∧
      (∀ c ∈ whole, c.isDigit = true) ∧ (∀ c ∈ fraction, c.isDigit = true) ∧
      fraction.length = places ∧ digitsValue (whole ++ fraction) = value := by
  refine ⟨_, _, rfl, ?_, ?_, ?_, ?_, ?_⟩
  · rw [← List.length_pos_iff, List.length_take, List.length_append, List.length_replicate]
    omega
  · exact fun _ member => isDigit_of_mem_padded (List.mem_of_mem_take member)
  · exact fun _ member => isDigit_of_mem_padded (List.mem_of_mem_drop member)
  · rw [List.length_drop, List.length_append, List.length_replicate]
    omega
  · rw [List.take_append_drop, digitsValue_padded, digitsValue_numeral]

theorem isDigit_of_mem_scaled {value count : Nat} {c : Char}
    (member : c ∈ numeral value ++ List.replicate count '0') : c.isDigit = true :=
  isDigit_of_mem_padded (List.mem_append.mpr (List.mem_append.mp member).symm)

/-- A decimal that was written in place is read in another form. -/
theorem read?_positional (decimal : Decimal) : read? decimal.positional = some decimal.inPlace := by
  rw [positional, inPlace]
  split
  next =>
    rw [read?_digits (by simp [numeral_ne_nil]) (fun _ member => isDigit_of_mem_scaled member),
      digitsValue_scaled, digitsValue_numeral]
  next negative =>
    rcases exists_pointed (-decimal.exponent).toNat decimal.coefficient with
      ⟨whole, fraction, text, nonempty, wholeDigits, fractionDigits, length, value⟩
    rw [text, read?_point nonempty wholeDigits fractionDigits, value, length,
      Int.toNat_of_nonneg (by omega), Int.neg_neg]

/-- A text in place begins with a digit, and holds nothing but digits and points. -/
theorem exists_positional_cons (decimal : Decimal) :
    ∃ first rest, decimal.positional = first :: rest ∧ first.isDigit = true ∧
      ∀ c ∈ rest, c.isDigit = true ∨ c = '.' := by
  rw [positional]
  split
  next =>
    have nonempty :
        numeral decimal.coefficient ++ List.replicate decimal.exponent.toNat '0' ≠ [] := by
      simp [numeral_ne_nil]
    have digits : ∀ c ∈ numeral decimal.coefficient ++ List.replicate decimal.exponent.toNat '0',
        c.isDigit = true :=
      fun _ member => isDigit_of_mem_scaled member
    rcases List.exists_cons_of_ne_nil nonempty with ⟨first, rest, same⟩
    rw [same] at digits ⊢
    exact ⟨first, rest, rfl, digits first (by simp),
      fun c member => .inl (digits c (by simp [member]))⟩
  next =>
    rcases exists_pointed (-decimal.exponent).toNat decimal.coefficient with
      ⟨whole, fraction, text, nonempty, wholeDigits, fractionDigits, _, _⟩
    rcases List.exists_cons_of_ne_nil nonempty with ⟨first, rest, rfl⟩
    refine ⟨first, rest ++ '.' :: fraction, text, wholeDigits first (by simp), ?_⟩
    intro c member
    rcases List.mem_append.mp member with inside | behind
    · exact .inl (wholeDigits c (by simp [inside]))
    · rcases List.mem_cons.mp behind with point | further
      · exact .inr point
      · exact .inl (fractionDigits c further)

end Decimal

/-! ## Forms of one decimal -/

/-- Zeros behind the numeral of a positive number scale it. -/
theorem Text.numeral_scaled {value : Nat} (positive : 0 < value) (count : Nat) :
    numeral (10 ^ count * value) = numeral value ++ List.replicate count '0' := by
  induction count with
  | zero => rw [Nat.pow_zero, Nat.one_mul, List.replicate_zero, List.append_nil]
  | succ count ih =>
      have scaled : 10 ^ (count + 1) * value = 10 * (10 ^ count * value) + 0 := by
        rw [Nat.pow_succ', Nat.mul_assoc, Nat.add_zero]
      have nonzero : 0 < 10 ^ count * value := Nat.mul_pos (Nat.pow_pos (by decide)) positive
      rw [scaled, numeral_snoc nonzero (by decide), ih, List.replicate_succ', List.append_assoc]
      rfl

/-- Rounding does not depend on the form of a decimal. -/
theorem BinaryFormat.ordinalOf_inPlace (format : BinaryFormat) (decimal : Decimal) :
    format.ordinalOf decimal.inPlace = format.ordinalOf decimal := by
  rw [Decimal.inPlace]
  split
  next whole =>
    rcases Nat.eq_zero_or_pos decimal.coefficient with zero | positive
    · rw [ordinalOf, ordinalOf, zero, Nat.mul_zero, if_pos rfl, if_pos rfl]
    · have nonzero : 10 ^ decimal.exponent.toNat * decimal.coefficient ≠ 0 :=
        Nat.ne_of_gt (Nat.mul_pos (Nat.pow_pos (by decide)) positive)
      have leading :
          Decimal.leadingPower ⟨10 ^ decimal.exponent.toNat * decimal.coefficient, 0⟩ =
            decimal.leadingPower := by
        rw [Decimal.leadingPower, Decimal.leadingPower, numeral_scaled positive,
          List.length_append, List.length_replicate, Int.natCast_add, Int.toNat_of_nonneg whole,
          Int.zero_add, Int.add_comm]
      simp only [ordinalOf, leading, nonzero, Nat.ne_of_gt positive, whole, if_true, if_false,
        Int.le_refl, Int.toNat_zero, Nat.pow_zero, Nat.mul_one]
      rw [Nat.mul_assoc, Nat.mul_comm]
  next => rfl

namespace Binary

variable {format : BinaryFormat}

/-! ## Literals -/

theorem takeSign_literal (negative : Bool) (ordinal : Fin format.infinity) :
    takeSign (finite negative ordinal).literal =
      (negative, (format.shortest .upper ordinal).positional) := by
  rcases (format.shortest .upper ordinal).exists_positional_cons with ⟨first, rest, text, digit, _⟩
  cases negative with
  | true => rfl
  | false =>
      show takeSign (format.shortest .upper ordinal).positional = _
      rw [text, takeSign_cons_of_isDigit digit]

/-- A finite number is read back from its literal, with the sign of a zero. -/
theorem readFinite?_literal (reach : format.WithinReach) (negative : Bool)
    (ordinal : Fin format.infinity) :
    readFinite? (finite negative ordinal).literal = some (finite negative ordinal) := by
  have same : format.ordinalOf (format.shortest .upper ordinal).inPlace = ordinal := by
    rw [format.ordinalOf_inPlace, BinaryFormat.ordinalOf_shortest reach _ ordinal.isLt]
  simp only [readFinite?, read?, takeSign_literal, Decimal.read?_positional, ofDecimal, same,
    ordinal.isLt, dif_pos]
  rfl

theorem isFinite_of_readFinite? {text : List Char} {number : Binary format}
    (read : readFinite? text = some number) :
    ∃ negative ordinal, number = finite negative ordinal := by
  rcases Option.filter_eq_some_iff.mp read with ⟨_, isFinite⟩
  cases number with
  | finite negative ordinal => exact ⟨negative, ordinal, rfl⟩
  | infinite _ => cases isFinite
  | nan => cases isFinite

end Binary

end FilterQuery
