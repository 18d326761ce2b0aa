import Mathlib.Data.List.Forall2
import FilterQuery.Proofs.Grammar

namespace FilterQuery

open Text

/-!
# The words of a query and the leaves of its condition

Read in order from left to right, a condition gives back the words of its query: each
field, comparator and combinator is there as it was written, and in the place of each
value stands the literal from which it was read.  Nothing is lost, repeated, moved or
left without a meaning.

`Mark` is one place in that order.  Only a literal can be written in more than one way,
so a mark for a value says which words may stand there instead of naming one.
-/

/-- One place of a condition in the order of its text. -/
inductive Mark where
  /-- A field, comparator or combinator, which has one spelling. -/
  | spelled (word : String)
  /-- The value of a comparison on a field. -/
  | read (field : String) (value : Value)
  deriving DecidableEq, Repr

/-- A word may stand at a place.  Where a value is, the word is one that the field's kind
reads as that value. -/
def Mark.Fits (schema : Schema) : Mark → String → Prop
  | .spelled expected, word => word = expected
  | .read field value, word =>
    ∃ kind, schema.kind? field = some kind ∧ kind.valueOf word = .ok value

namespace Condition

/-- The places of a condition from left to right. -/
def inorder : Condition → List Mark
  | comparison field comparator value =>
    [.spelled field, .spelled comparator.token, .read field value]
  | combination combinator left right =>
    left.inorder ++ .spelled combinator.token :: right.inorder

/-- Every comparison has a property of its field and its value. -/
def EveryLeaf (property : String → Value → Prop) : Condition → Prop
  | comparison field _ value => property field value
  | combination _ left right => left.EveryLeaf property ∧ right.EveryLeaf property

theorem EveryLeaf.imp {property weaker : String → Value → Prop}
    (implies : ∀ field value, property field value → weaker field value) {condition : Condition}
    (every : condition.EveryLeaf property) : condition.EveryLeaf weaker := by
  induction condition with
  | comparison field comparator value => exact implies field value every
  | combination combinator left right ihLeft ihRight => exact ⟨ihLeft every.1, ihRight every.2⟩

/-- Three places for each comparison, and one for each combinator between them. -/
theorem length_inorder (condition : Condition) :
    condition.inorder.length + 1 = 4 * condition.comparisonCount := by
  induction condition with
  | comparison field comparator value => rfl
  | combination combinator left right ihLeft ihRight =>
      rw [inorder, comparisonCount, List.length_append, List.length_cons]
      omega

end Condition

/-- A literal that is read gives a value of the kind that it is read as. -/
theorem Kind.kind_of_valueOf {kind : Kind} {literal : String} {value : Value}
    (valued : kind.valueOf literal = .ok value) : value.kind = kind := by
  have read := valueOf_eq_ok_iff.mp valued
  unfold Kind.read? at read
  cases kind <;> simp only [Option.map_eq_some_iff] at read
  case text =>
    split at read <;> cases read
    rfl
  case email =>
    split at read <;> cases read
    rfl
  all_goals
    rcases read with ⟨_, _, rfl⟩
    rfl

namespace Derives

variable {schema : Schema} {phrase : Phrase} {tokens : List Token} {node : Condition}

/-- The words of a phrase stand at the places of its condition. -/
theorem fits_inorder (derivation : Derives schema phrase tokens node) :
    List.Forall₂ (Mark.Fits schema) node.inorder (tokens.filterMap Token.word?) := by
  induction derivation with
  | @comparison field literal comparator kind value known valued =>
      exact .cons rfl (.cons rfl (.cons ⟨kind, known, valued⟩ .nil))
  | group _ ih =>
      rw [← Token.grouped, Token.filterMap_word?_grouped]
      exact ih
  | single _ ih => exact ih
  | join _ _ ihBefore ihAfter =>
      rw [List.filterMap_append]
      exact List.rel_append ihBefore (.cons rfl ihAfter)

/-- Each comparison of a phrase is on a field of the schema, with a value of its kind. -/
theorem everyLeaf_kind (derivation : Derives schema phrase tokens node) :
    node.EveryLeaf fun field value =>
      schema.contains field = true ∧ schema.kind? field = some value.kind := by
  induction derivation with
  | comparison known valued =>
      exact ⟨Schema.contains_of_kind? known, by rw [Kind.kind_of_valueOf valued, known]⟩
  | group _ ih => exact ih
  | single _ ih => exact ih
  | join _ _ ihBefore ihAfter => exact ⟨ihBefore, ihAfter⟩

end Derives

/-- The condition of a query, read in order, is the query word for word.  Its comparisons
are on fields of the schema with values of their kinds, and there are four words for each
of them but one. -/
theorem words_fit_inorder (schema : Schema) (query : String) (condition : Condition)
    (compiled : compile schema query = .ok condition) :
    List.Forall₂ (Mark.Fits schema) condition.inorder (words (trim query.toList)) ∧
      condition.EveryLeaf (fun field value =>
        schema.contains field = true ∧ schema.kind? field = some value.kind) ∧
      (words (trim query.toList)).length = 4 * condition.comparisonCount - 1 := by
  rcases derives_of_compile compiled with ⟨_, _, derivation⟩
  have fits := derivation.fits_inorder
  rw [← words_eq_filterMap_ofText] at fits
  have sameLength := fits.length_eq
  have counted := condition.length_inorder
  exact ⟨fits, derivation.everyLeaf_kind, by omega⟩

/-- A literal with a sign and a leading zero stands where its number is. -/
theorem words_fit_inorder_of_group :
    compile (Schema.ofFields "sample" [("a", .text), ("b", .int32)]) "a eq or and(b lt +05)" =
        .ok (.combination .conjunction (.comparison "a" .equal (.text "or"))
          (.comparison "b" .less (.int32 5))) ∧
      List.Forall₂ (Mark.Fits (Schema.ofFields "sample" [("a", .text), ("b", .int32)]))
        [.spelled "a", .spelled "eq", .read "a" (.text "or"), .spelled "and", .spelled "b",
          .spelled "lt", .read "b" (.int32 5)]
        ["a", "eq", "or", "and", "b", "lt", "+05"] := by
  have compiled : compile (Schema.ofFields "sample" [("a", .text), ("b", .int32)])
      "a eq or and(b lt +05)" =
        .ok (.combination .conjunction (.comparison "a" .equal (.text "or"))
          (.comparison "b" .less (.int32 5))) := by
    decide +kernel
  have found : words (trim "a eq or and(b lt +05)".toList) =
      ["a", "eq", "or", "and", "b", "lt", "+05"] := by
    decide +kernel
  have fits := (words_fit_inorder _ _ _ compiled).1
  rw [found] at fits
  exact ⟨compiled, fits⟩

end FilterQuery
