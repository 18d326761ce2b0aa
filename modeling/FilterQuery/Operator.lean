namespace FilterQuery

/-!
# Operators

Two sorts of operators follow an operand.  A comparator stands between a field
and a literal, and a combinator between two expressions.  Each has a word in
queries, in lower case only, and a key in documents.
-/

/-- What a field is compared by. -/
inductive Comparator where
  | equal
  | unequal
  | greater
  | less
  deriving DecidableEq, Repr

/-- What joins two expressions. -/
inductive Combinator where
  | conjunction
  | disjunction
  deriving DecidableEq, Repr

/-- Anything that may follow a left operand. -/
inductive Operator where
  | compare (comparator : Comparator)
  | combine (combinator : Combinator)
  deriving DecidableEq, Repr

namespace Comparator

/-- The word in a query. -/
def token : Comparator → String
  | equal => "eq"
  | unequal => "ne"
  | greater => "gt"
  | less => "lt"

/-- The comparator that a word spells. -/
def ofToken? : String → Option Comparator
  | "eq" => some equal
  | "ne" => some unequal
  | "gt" => some greater
  | "lt" => some less
  | _ => none

/-- The key in a document. -/
def key : Comparator → String
  | equal => "$eq"
  | unequal => "$ne"
  | greater => "$gt"
  | less => "$lt"

theorem ofToken?_token (comparator : Comparator) :
    ofToken? comparator.token = some comparator := by
  cases comparator <;> rfl

end Comparator

namespace Combinator

/-- The word in a query. -/
def token : Combinator → String
  | conjunction => "and"
  | disjunction => "or"

/-- The combinator that a word spells. -/
def ofToken? : String → Option Combinator
  | "and" => some conjunction
  | "or" => some disjunction
  | _ => none

/-- The key in a document. -/
def key : Combinator → String
  | conjunction => "$and"
  | disjunction => "$or"

theorem ofToken?_token (combinator : Combinator) :
    ofToken? combinator.token = some combinator := by
  cases combinator <;> rfl

end Combinator

namespace Operator

/-- The operator that a word spells, of either sort. -/
def ofToken? (word : String) : Option Operator :=
  match Comparator.ofToken? word with
  | some comparator => some (compare comparator)
  | none => (Combinator.ofToken? word).map combine

end Operator

end FilterQuery
