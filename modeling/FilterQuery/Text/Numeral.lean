namespace FilterQuery
namespace Text

/-!
# Numerals

Numerals are runs of ASCII digits, ten of them unless a base is named.  A sign
is read apart from the digits, because the forms that use it differ in what may
follow: an integer needs digits, a duration may be a bare zero or a list of
components.

Reading has no limit.  Widths are imposed by the values that are made from the
numbers, not by the numerals.
-/

-- Bounds and places are powers of whole numbers.  They are to be the same powers in every
-- module, also beside an algebraic library that has powers of its own.
attribute [instance (high), default_instance 20000] instPowNat

/-- Split off one leading sign.  The first part tells whether it is a minus. -/
def takeSign : List Char → Bool × List Char
  | '-' :: rest => (true, rest)
  | '+' :: rest => (false, rest)
  | text => (false, text)

/-- Write a natural number without leading zeros. -/
def numeral (value : Nat) : List Char :=
  Nat.toDigits 10 value

/-- The number that a run of digits stands for.  The empty run stands for
zero. -/
def digitsValue (digits : List Char) : Nat :=
  Nat.ofDigitChars 10 digits 0

/-- Read a text that is one or more digits and nothing else. -/
def natural? (text : List Char) : Option Nat :=
  if text ≠ [] ∧ text.all Char.isDigit then some (digitsValue text) else none

/-- Read an integer: digits behind at most one sign. -/
def integer? (text : List Char) : Option Int :=
  let (negative, digits) := takeSign text
  (natural? digits).map fun value => if negative then -(value : Int) else value

/-- The value of a digit in a base up to sixteen, with letters of either case. -/
def digitIn? (base : Nat) (c : Char) : Option Nat :=
  let value :=
    if c.isDigit then c.toNat - '0'.toNat
    else if 'a' ≤ c ∧ c ≤ 'f' then c.toNat - 'a'.toNat + 10
    else if 'A' ≤ c ∧ c ≤ 'F' then c.toNat - 'A'.toNat + 10
    else base
  if value < base then some value else none

/-- Read a text that is one or more digits of a base and nothing else. -/
def naturalIn? (base : Nat) (text : List Char) : Option Nat :=
  if text = [] then none
  else text.foldlM (fun sum c => (digitIn? base c).map (base * sum + ·)) 0

/-- Write an integer, with a sign only if it is negative. -/
def integerNumeral (value : Int) : List Char :=
  if value < 0 then '-' :: numeral value.natAbs else numeral value.natAbs

/-- Write a natural number with leading zeros up to a width. -/
def paddedNumeral (width value : Nat) : List Char :=
  let digits := numeral value
  List.replicate (width - digits.length) '0' ++ digits

/-- The digits behind a point, and what follows them.  Without a point there
are none, and nothing is split off. -/
def takeFraction : List Char → List Char × List Char
  | '.' :: rest => (rest.takeWhile Char.isDigit, rest.dropWhile Char.isDigit)
  | text => ([], text)

theorem length_takeFraction_le (text : List Char) :
    (takeFraction text).2.length ≤ text.length := by
  unfold takeFraction
  split
  · exact Nat.le_succ_of_le (List.dropWhile_sublist _).length_le
  · exact Nat.le_refl _

theorem all_isDigit_numeral (value : Nat) : (numeral value).all Char.isDigit = true :=
  List.all_eq_true.2 fun _ member => Nat.isDigit_of_mem_toDigits (by decide) (by decide) member

theorem natural?_numeral (value : Nat) : natural? (numeral value) = some value := by
  unfold natural?
  rw [if_pos ⟨Nat.toDigits_ne_nil, all_isDigit_numeral value⟩]
  exact congrArg some (Nat.ofDigitChars_toDigits (by decide) (by decide))

end Text
end FilterQuery
