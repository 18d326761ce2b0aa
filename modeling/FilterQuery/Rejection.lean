import FilterQuery.Kind

namespace FilterQuery

/-!
# Why a query is rejected

Every rejection is a fault of the query.  The causes are data: a message and a
stable code are computed from them, and nothing else in the library writes
their wording.
-/

/-- The shapes that no expression has. -/
inductive ShapeFault where
  /-- A parenthesis opens inside as many open ones as are allowed. -/
  | nestedTooDeeply
  /-- More words spell a combinator than are allowed. -/
  | tooManyCombinators
  /-- A group stands where none may stand. -/
  | unexpectedGroup
  /-- The text ends inside an expression. -/
  | incomplete
  /-- A comparison operator does not stand between a field and a literal. -/
  | comparisonOperands
  /-- A combinator does not stand between two expressions. -/
  | combinatorOperands
  /-- A comparison is made on a field that the schema does not have. -/
  | fieldOutsideSchema
  deriving DecidableEq, Repr

/-- A rejected filter query. -/
inductive Rejection where
  /-- A parenthesis without partner, at an offset in bytes. -/
  | unbalancedParenthesis (offset : Nat)
  /-- Nothing was found where an expression should begin. -/
  | emptyQuery
  /-- A word stands for a field and is no field of the schema. -/
  | unknownTerm (term : String)
  /-- A word stands for an operator and is none. -/
  | unknownOperand (token : String)
  /-- The words do not make an expression. -/
  | invalidExpression (fault : ShapeFault)
  /-- A literal cannot be read as a value of its field's kind. -/
  | invalidValue (literal : String) (expected : Kind)
  deriving DecidableEq, Repr

namespace ShapeFault

/-- The reason as it is shown. -/
def reason : ShapeFault → String
  | nestedTooDeeply => "parentheses nested too deeply"
  | tooManyCombinators => "too many combinators"
  | unexpectedGroup => "unexpected parenthesized expression"
  | incomplete => "expression is incomplete"
  | comparisonOperands => "comparison expects a field and a literal"
  | combinatorOperands => "combinator expects an expression on both sides"
  | fieldOutsideSchema => "comparison on a field outside the schema"

end ShapeFault

namespace Rejection

/-- The message shown to whoever wrote the query. -/
def message : Rejection → String
  | unbalancedParenthesis offset => "incorrect parenthesis query at offset " ++ toString offset
  | emptyQuery => "empty query"
  | unknownTerm term => "unknown term '" ++ term ++ "'"
  | unknownOperand token => "unknown operand '" ++ token ++ "'"
  | invalidExpression fault => "invalid expression: " ++ fault.reason
  | invalidValue literal expected =>
    "invalid value '" ++ literal ++ "' for " ++ expected.name ++ " field"

/-- A stable identifier of the cause, for programs that map causes to codes of
their own. -/
def code : Rejection → String
  | unbalancedParenthesis _ => "unbalanced_parenthesis"
  | emptyQuery => "empty_query"
  | unknownTerm _ => "unknown_term"
  | unknownOperand _ => "unknown_operand"
  | invalidExpression _ => "invalid_expression"
  | invalidValue _ _ => "invalid_value"

end Rejection

end FilterQuery
