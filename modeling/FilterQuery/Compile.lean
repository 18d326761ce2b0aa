import FilterQuery.Condition
import FilterQuery.Scan
import FilterQuery.Schema

namespace FilterQuery

open Text

/-!
# Compiling queries

A query is a chain of operands joined by combinators.  An operand is a
comparison or a chain in parentheses, and a chain is read from the left without
precedence.

The reader holds one expectation at a time: what may come next, and what it has
read that is not yet part of a finished condition.  A word takes it to the next
expectation or is refused on the spot.  The two sides of an operator are looked at
once both are there.  Until then any operator is taken behind any left side, so
that a field followed by a combinator is reported only when the right side of the
combinator is complete.

A group is a range of its own, read by the same function from the start.
Whether a group may stand at its place is decided before it is read, so that a
misplaced group is reported as such whatever it holds.

Two limits are checked on the text before it is read: the nesting of parentheses,
by their pairing, and the number of words that spell a combinator.
-/

/-- One side of an operator while the other is missing. -/
inductive Side where
  /-- A field name or a literal, still as text. -/
  | token (text : String)
  /-- A finished condition. -/
  | node (condition : Condition)
  deriving DecidableEq, Repr

/-- What the reader of a range expects next. -/
inductive Expectation where
  /-- The first field of the range, or a group. -/
  | term
  /-- An operator behind a field. -/
  | operator (field : String)
  /-- A combinator behind a finished condition, or the end. -/
  | combinatorOrEnd (node : Condition)
  /-- The right side of an operator. -/
  | valueOrGroup (left : Side) (operator : Operator)
  /-- A comparator behind a field on the right of a combinator. -/
  | nestedComparator (left : Side) (combinator : Combinator) (field : String)
  /-- The literal of a comparison on the right of a combinator. -/
  | nestedLiteral (left : Side) (combinator : Combinator) (field : String)
      (comparator : Comparator)
  deriving DecidableEq, Repr

/-- Join two sides to a condition.  A comparison takes a field and a literal,
which is read here as a value of the field's kind; a combination takes two
conditions. -/
def join (schema : Schema) : Side → Operator → Side → Except Rejection Condition
  | .token field, .compare comparator, .token literal =>
    match schema.kind? field with
    | none => .error (.invalidExpression .fieldOutsideSchema)
    | some kind => (kind.valueOf literal).map (Condition.comparison field comparator)
  | .node left, .combine combinator, .node right => .ok (.combination combinator left right)
  | _, .compare _, _ => .error (.invalidExpression .comparisonOperands)
  | _, .combine _, _ => .error (.invalidExpression .combinatorOperands)

namespace Expectation

/-- The operator that a word spells, where there has to be one. -/
def operatorOf (word : String) : Except Rejection Operator :=
  match Operator.ofToken? word with
  | some found => .ok found
  | none => .error (.unknownOperand word)

/-- Read a word. -/
def readWord (schema : Schema) (word : String) : Expectation → Except Rejection Expectation
  | term => if schema.contains word then .ok (operator word) else .error (.unknownTerm word)
  | operator field => (operatorOf word).map (valueOrGroup (.token field))
  | combinatorOrEnd node => (operatorOf word).map (valueOrGroup (.node node))
  | valueOrGroup left (.compare comparator) =>
    (join schema left (.compare comparator) (.token word)).map combinatorOrEnd
  | valueOrGroup left (.combine combinator) =>
    if schema.contains word then .ok (nestedComparator left combinator word)
    else .error (.unknownTerm word)
  | nestedComparator left combinator field =>
    match Comparator.ofToken? word with
    | some comparator => .ok (nestedLiteral left combinator field comparator)
    | none => .error (.unknownOperand word)
  | nestedLiteral left combinator field comparator => do
    let inner ← join schema (.token field) (.compare comparator) (.token word)
    let node ← join schema left (.combine combinator) (.node inner)
    .ok (combinatorOrEnd node)

/-- Whether a group may stand here. -/
def admitsGroup : Expectation → Bool
  | term => true
  | valueOrGroup _ _ => true
  | _ => false

/-- Read a group, given by its condition. -/
def readGroup (schema : Schema) (node : Condition) : Expectation → Except Rejection Expectation
  | term => .ok (combinatorOrEnd node)
  | valueOrGroup left between => (join schema left between (.node node)).map combinatorOrEnd
  | _ => .error (.invalidExpression .unexpectedGroup)

/-- The condition of a range that ends here. -/
def conclude : Expectation → Except Rejection Condition
  | combinatorOrEnd node => .ok node
  | term => .error .emptyQuery
  | _ => .error (.invalidExpression .incomplete)

end Expectation

/-- Read the rest of a range to a condition. -/
def readRange (schema : Schema) (pairing : Pairing) (place : Place)
    (expectation : Expectation) : Except Rejection Condition :=
  match _found : place.next pairing with
  | .finished => expectation.conclude
  | .stray offset => .error (.unbalancedParenthesis offset)
  | .word _ word after => do
    readRange schema pairing after (← expectation.readWord schema word)
  | .group _ _ inside after =>
    if expectation.admitsGroup then do
      let node ← readRange schema pairing inside .term
      readRange schema pairing after (← expectation.readGroup schema node)
    else .error (.invalidExpression .unexpectedGroup)
termination_by place.text.length
decreasing_by
  · exact Place.length_lt_of_next_word _found
  · exact (Place.length_lt_of_next_group _found).1
  · exact (Place.length_lt_of_next_group _found).2

/-- The most words of a query that may spell a combinator.  Chains lean to the
left, so their length is a bound for the depth of the condition. -/
def combinatorLimit : Nat := 512

/-- How many words of a text spell a combinator, wherever they stand. -/
def combinatorWords (text : List Char) : Nat :=
  (words text).countP fun word => (Combinator.ofToken? word).isSome

/-- Compile a text that has no white space at its ends. -/
def compileTrimmed (schema : Schema) (text : List Char) : Except Rejection Condition := do
  let pairing ← Pairing.ofText text
  if combinatorLimit < combinatorWords text then
    .error (.invalidExpression .tooManyCombinators)
  else readRange schema pairing ⟨0, text⟩ .term

/-- Compile a query against a schema.  Offsets in a rejection count from the
first character that is not white. -/
def compile (schema : Schema) (query : String) : Except Rejection Condition :=
  compileTrimmed schema (trim query.toList)

end FilterQuery
