import FilterQuery.Text.Numeral

namespace FilterQuery

open Text

/-!
# Durations

A duration is a signed number of nanoseconds.  Its literal is a sum of
components, each a number with a unit, behind at most one sign for the whole
sum.  A bare zero needs no unit.

The number of a component may have a fraction.  The fraction contributes whole
nanoseconds only: its first eighteen digits are scaled to the unit and what is
left over is dropped.

Sums are kept in words of 128 bits with a sign.  A literal is refused when a
component or the sum leaves such a word, or when the sum exceeds the largest
64-bit number of nanoseconds.  The sign is applied last, so the least 64-bit
number has no literal as a sum of components.
-/

/-- A signed span of time. -/
structure Duration where
  nanoseconds : Int
  deriving DecidableEq, Repr

namespace Duration

/-- The nanoseconds in a second. -/
def perSecond : Nat := 1000000000

/-- The span of some seconds and some nanoseconds. -/
def ofParts (seconds nanoseconds : Int) : Duration :=
  ⟨seconds * perSecond + nanoseconds⟩

/-- The largest sum of components. -/
def maxSum : Nat := 2 ^ 63 - 1

/-- The largest number that a word for intermediate results holds. -/
def maxWord : Nat := 2 ^ 127 - 1

/-- A result that fits into a word. -/
def fitting? (value : Nat) : Option Nat :=
  if value ≤ maxWord then some value else none

/-- Split off a unit, given by its nanoseconds.  Milliseconds are tried before
minutes, since both begin with the same letter.  There are two spellings of the
letter mu. -/
def takeUnit? : List Char → Option (Nat × List Char)
  | 'n' :: 's' :: rest => some (1, rest)
  | 'u' :: 's' :: rest => some (1000, rest)
  | '\u00b5' :: 's' :: rest => some (1000, rest)
  | '\u03bc' :: 's' :: rest => some (1000, rest)
  | 'm' :: 's' :: rest => some (1000000, rest)
  | 's' :: rest => some (perSecond, rest)
  | 'm' :: rest => some (60 * perSecond, rest)
  | 'h' :: rest => some (3600 * perSecond, rest)
  | _ => none

/-- One component of a literal: the digits before and behind the point, and the
nanoseconds of the unit. -/
structure Component where
  whole : List Char
  fraction : List Char
  unit : Nat
  deriving DecidableEq, Repr

/-- Split off one component.  It has a digit on at least one side of the
point. -/
def takeComponent? (text : List Char) : Option (Component × List Char) :=
  let whole := text.takeWhile Char.isDigit
  let (fraction, rest) := takeFraction (text.dropWhile Char.isDigit)
  if whole = [] ∧ fraction = [] then none
  else (takeUnit? rest).map fun (unit, after) => (⟨whole, fraction, unit⟩, after)

theorem length_lt_of_takeUnit? {text after : List Char} {unit : Nat}
    (found : takeUnit? text = some (unit, after)) : after.length < text.length := by
  unfold takeUnit? at found
  split at found
  case h_9 => simp at found
  all_goals
    injection found with pair
    injection pair with _ same
    subst same
    simp only [List.length_cons]
    omega

/-- A component uses up text. -/
theorem length_lt_of_takeComponent? {text after : List Char} {component : Component}
    (found : takeComponent? text = some (component, after)) : after.length < text.length := by
  simp only [takeComponent?] at found
  split at found
  · simp at found
  · obtain ⟨⟨unit, rest⟩, taken, same⟩ := Option.map_eq_some_iff.1 found
    injection same with _ same
    subst same
    have beyond := length_takeFraction_le (text.dropWhile Char.isDigit)
    have skipped := (List.dropWhile_sublist (l := text) Char.isDigit).length_le
    have unitShorter := length_lt_of_takeUnit? taken
    show rest.length < text.length
    omega

/-- Read components to the end of the text. -/
def components? (text : List Char) : Option (List Component) :=
  match _found : takeComponent? text with
  | none => none
  | some (component, []) => some [component]
  | some (component, after) => (components? after).map (component :: ·)
termination_by text.length
decreasing_by exact length_lt_of_takeComponent? _found

/-- The number that the first eighteen digits of a fraction spell. -/
def fractionNumerator (fraction : List Char) : Nat :=
  digitsValue (fraction.take 18)

/-- The power of ten that divides that number. -/
def fractionScale (fraction : List Char) : Nat :=
  10 ^ (fraction.take 18).length

/-- The whole nanoseconds in a fraction of a unit. -/
def fractionNanoseconds (fraction : List Char) (unit : Nat) : Nat :=
  fractionNumerator fraction * unit / fractionScale fraction

/-- Add a component to a sum, as long as every result on the way fits. -/
def addComponent? (sum : Nat) (component : Component) : Option Nat := do
  let whole ← fitting? (digitsValue component.whole)
  let scaled ← fitting? (whole * component.unit)
  let withWhole ← fitting? (sum + scaled)
  let total ← fitting? (withWhole + fractionNanoseconds component.fraction component.unit)
  if total ≤ maxSum then some total else none

/-- Read a duration literal. -/
def read? (text : List Char) : Option Duration :=
  let (negative, magnitude) := takeSign text
  if magnitude = ['0'] then some ⟨0⟩
  else do
    let components ← components? magnitude
    let sum ← components.foldlM addComponent? 0
    some ⟨if negative then -(sum : Int) else sum⟩

/-- Write a duration in seconds if it is a whole number of them, and otherwise
in nanoseconds. -/
def literal (duration : Duration) : List Char :=
  if duration.nanoseconds % perSecond = 0 then
    integerNumeral (duration.nanoseconds / perSecond) ++ ['s']
  else integerNumeral duration.nanoseconds ++ ['n', 's']

end Duration

end FilterQuery
