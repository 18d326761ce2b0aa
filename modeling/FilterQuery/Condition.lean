import FilterQuery.Document
import FilterQuery.Operator

namespace FilterQuery

/-!
# Conditions

A compiled query is a condition: a tree with comparisons of a field and a value
at the leaves, and combinations above them.

The text of a condition is a query again.  Every side of a combination stands in
parentheses, except a combination on the left: chains are read from the left, so
it needs none, and long chains are written without deep nesting.  A comparison in
a combination gets parentheses that its query need not have had; the text of a
condition can for that reason nest more deeply than the query it came from.

The document of a condition nests on both sides instead.
-/

/-- A condition on the fields of a record. -/
inductive Condition where
  | comparison (field : String) (comparator : Comparator) (value : Value)
  | combination (combinator : Combinator) (left right : Condition)
  deriving DecidableEq, Repr

namespace Condition

/-- Equality of conditions: the same tree with the same values, floating point
numbers compared as numbers. -/
def same : Condition → Condition → Bool
  | comparison field comparator value, comparison field' comparator' value' =>
    field == field' && comparator == comparator' && value.same value'
  | combination combinator left right, combination combinator' left' right' =>
    combinator == combinator' && left.same left' && right.same right'
  | _, _ => false

/-- The number of comparisons. -/
def comparisonCount : Condition → Nat
  | comparison _ _ _ => 1
  | combination _ left right => left.comparisonCount + right.comparisonCount

/-- A text between parentheses. -/
def parenthesised (text : String) : String :=
  "(" ++ text ++ ")"

/-- The query text of a condition. -/
def text : Condition → String
  | comparison field comparator value =>
    field ++ " " ++ comparator.token ++ " " ++ value.literal
  | combination combinator left right =>
    let first :=
      match left with
      | comparison _ _ _ => parenthesised left.text
      | combination _ _ _ => left.text
    first ++ " " ++ combinator.token ++ " " ++ parenthesised right.text

/-- The document of a condition: each node is an object with one key. -/
def document : Condition → Document
  | comparison field comparator value =>
    .object [(field, .object [(comparator.key, value.document)])]
  | combination combinator left right =>
    .object [(combinator.key, .array [left.document, right.document])]

end Condition

end FilterQuery
