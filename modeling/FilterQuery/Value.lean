import FilterQuery.Binary.Shortest
import FilterQuery.Calendar
import FilterQuery.Rejection
import FilterQuery.Duration
import FilterQuery.Email

namespace FilterQuery

open Text

/-!
# Typed literals

A literal becomes a value of its field's kind, or is refused.  Values of one
kind are not converted to another afterwards, and each value can be written as a
literal again.

Reading accepts less than the values hold.  Numbers read from literals are
finite, texts consist of ASCII letters, and addresses have the form of
`Email.isAddress`; a value made elsewhere need not satisfy any of this, and
writing it does not check.
-/

/-- A literal after it was read as its field's kind. -/
inductive Value where
  | timestamp (date : Date)
  | duration (span : Duration)
  | int32 (number : Int32)
  | int64 (number : Int64)
  | float32 (number : Binary BinaryFormat.single)
  | float64 (number : Binary BinaryFormat.double)
  | text (content : String)
  | email (address : String)
  deriving DecidableEq, Repr

namespace Value

/-- The kind of a value. -/
def kind : Value → Kind
  | timestamp _ => .timestamp
  | duration _ => .duration
  | int32 _ => .int32
  | int64 _ => .int64
  | float32 _ => .float32
  | float64 _ => .float64
  | text _ => .text
  | email _ => .email

/-- Equality as a filter sees it: floating point numbers are compared as
numbers, everything else by its data. -/
def same : Value → Value → Bool
  | float32 number, float32 number' => number.same number'
  | float64 number, float64 number' => number.same number'
  | float32 _, _ => false
  | float64 _, _ => false
  | value, value' => decide (value = value')

/-- Write a value as a literal. -/
def literal : Value → String
  | timestamp date => String.ofList date.literal
  | duration span => String.ofList span.literal
  | int32 number => String.ofList (integerNumeral number.toInt)
  | int64 number => String.ofList (integerNumeral number.toInt)
  | float32 number => String.ofList number.literal
  | float64 number => String.ofList number.literal
  | text content => content
  | email address => address

end Value

/-- A 32-bit number, if the integer is in its range. -/
def int32? (number : Int) : Option Int32 :=
  if Int32.minValue.toInt ≤ number ∧ number ≤ Int32.maxValue.toInt then some (Int32.ofInt number)
  else none

/-- A 64-bit number, if the integer is in its range. -/
def int64? (number : Int) : Option Int64 :=
  if Int64.minValue.toInt ≤ number ∧ number ≤ Int64.maxValue.toInt then some (Int64.ofInt number)
  else none

/-- Read a finite number of a binary format. -/
def Binary.readFinite? {format : BinaryFormat} (text : List Char) : Option (Binary format) :=
  (Binary.read? text).filter Binary.isFinite

namespace Kind

/-- Read a literal as a value of a kind. -/
def read? (kind : Kind) (literal : String) : Option Value :=
  let characters := literal.toList
  match kind with
  | timestamp => (Date.read? characters).map .timestamp
  | duration => (Duration.read? characters).map .duration
  | int32 => ((integer? characters).bind int32?).map .int32
  | int64 => ((integer? characters).bind int64?).map .int64
  | float32 => (Binary.readFinite? characters).map .float32
  | float64 => (Binary.readFinite? characters).map .float64
  | text => if characters.all Char.isAlpha then some (.text literal) else none
  | email => if Email.isAddress characters then some (.email literal) else none

/-- The value of a literal beside a field of a kind. -/
def valueOf (kind : Kind) (literal : String) : Except Rejection Value :=
  match kind.read? literal with
  | some value => .ok value
  | none => .error (.invalidValue literal kind)

theorem valueOf_eq_ok_iff {kind : Kind} {literal : String} {value : Value} :
    kind.valueOf literal = .ok value ↔ kind.read? literal = some value := by
  rw [valueOf]
  split
  next found => rw [found, Except.ok.injEq, Option.some.injEq]
  next none =>
    rw [none]
    constructor <;> intro impossible <;> cases impossible

/-- A literal that is not read is itself what the rejection names. -/
theorem valueOf_eq_error_iff {kind : Kind} {literal : String} {rejection : Rejection} :
    kind.valueOf literal = .error rejection ↔
      kind.read? literal = none ∧ rejection = .invalidValue literal kind := by
  rw [valueOf]
  split
  next found =>
    rw [found]
    constructor
    · intro impossible
      cases impossible
    · rintro ⟨impossible, _⟩
      cases impossible
  next none =>
    rw [none, Except.error.injEq]
    exact ⟨fun same => ⟨rfl, same.symm⟩, fun refused => refused.2.symm⟩

end Kind

end FilterQuery
