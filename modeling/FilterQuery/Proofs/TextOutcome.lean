import FilterQuery.Proofs.Recompiling

namespace FilterQuery

open Text

/-!
# The outcome of compiling a text that was printed

The text of a condition is printed without looking at the limits of queries.  Here the
condition need not come from a query: its values may have been made elsewhere, and its
shape may be any.  As long as each comparison is printed as words that are read back,
nothing but a limit can stand against its text.  Parentheses are paired before words are
counted, so a text that exceeds both limits is refused for its depth.

A comparison is legible if its literal is read as an equal value.  Equality of floating
point numbers does not see the sign of a zero, but the literal shows it.  What is read
from the literal is for that reason the value itself, and the condition comes back
unchanged.
-/

/-- A comparison whose text is read as a comparison on the same field with an equal
value. -/
structure Legible (schema : Schema) (field : String) (value : Value) : Prop where
  fieldWord : IsWord field
  fieldVisible : ∀ c ∈ field.toList.head?, isWhite c = false
  literalWord : IsWord value.literal
  valued : ∃ kind again, schema.kind? field = some kind ∧
    kind.valueOf value.literal = .ok again ∧ again.same value = true

/-! ## Values that are read back -/

/-- A number that is read from the literal of an equal number is that number, also where
it is a zero. -/
theorem Binary.eq_of_read_literal {format : BinaryFormat} (reach : format.WithinReach)
    {number again : Binary format} (read : readFinite? number.literal = some again)
    (agrees : again.same number = true) : again = number := by
  rcases isFinite_of_readFinite? read with ⟨negative, ordinal, rfl⟩
  cases number with
  | finite negative' ordinal' =>
      rw [readFinite?_literal reach] at read
      exact (Option.some.inj read).symm
  | infinite negative' => cases agrees
  | nan => cases agrees

theorem Value.eq_of_read_literal {kind : Kind} {value again : Value}
    (read : kind.read? value.literal = some again) (agrees : again.same value = true) :
    again = value := by
  have sameKind := Kind.kind_of_valueOf (Kind.valueOf_eq_ok_iff.mpr read)
  cases again with
  | float32 number =>
      cases sameKind
      cases value with
      | float32 number' =>
          simp only [Kind.read?, kind, literal, String.toList_ofList, Option.map_eq_some_iff,
            float32.injEq, exists_eq_right] at read
          rw [Binary.eq_of_read_literal BinaryFormat.single_withinReach read agrees]
      | _ => cases agrees
  | float64 number =>
      cases sameKind
      cases value with
      | float64 number' =>
          simp only [Kind.read?, kind, literal, String.toList_ofList, Option.map_eq_some_iff,
            float64.injEq, exists_eq_right] at read
          rw [Binary.eq_of_read_literal BinaryFormat.double_withinReach read agrees]
      | _ => cases agrees
  | _ => exact of_decide_eq_true agrees

theorem Legible.writable {schema : Schema} {field : String} {value : Value}
    (legible : Legible schema field value) : Writable schema field value := by
  rcases legible.valued with ⟨kind, again, known, valued, agrees⟩
  have same := Value.eq_of_read_literal (Kind.valueOf_eq_ok_iff.mp valued) agrees
  rw [same] at valued
  exact ⟨legible.fieldWord, legible.literalWord, kind, known, valued⟩

/-! ## The limits -/

theorem combinatorWords_eq_countP (text : List Char) :
    combinatorWords text = (words text).countP fun word => word = "and" ∨ word = "or" := by
  simp only [combinatorWords, Combinator.isSome_ofToken?]

namespace Condition

variable {schema : Schema} {condition : Condition}

theorem EveryLeaf.beginsVisibly (legible : condition.EveryLeaf (Legible schema)) :
    condition.BeginsVisibly := by
  cases condition with
  | comparison field comparator value => exact legible.fieldVisible
  | combination combinator left right => trivial

theorem balanced_text (writable : condition.EveryLeaf (Writable schema)) :
    Balanced condition.text.toList := by
  have derivation := derives_tokens writable
  rw [← ofText_text writable] at derivation
  exact balanced_of_derives derivation

/-- Too deep a text is refused before anything in it is looked at. -/
theorem compile_text_of_deep (writable : condition.EveryLeaf (Writable schema))
    (visible : condition.BeginsVisibly) (deep : Pairing.nestingLimit < condition.textDepth) :
    compile schema condition.text = .error (.invalidExpression .nestedTooDeeply) := by
  have beyond : ¬NestsWithin Pairing.nestingLimit condition.text.toList := by
    rw [nestsWithin_text_iff writable]
    exact Nat.not_le.mpr deep
  have refused := Pairing.ofText_eq_nestedTooDeeply (balanced_text writable) beyond
  rw [compile, compileTrimmed, trim_text writable visible, refused, error_bind]

/-- A text with too many combinator words is refused for them if its parentheses pair. -/
theorem compile_text_of_many (writable : condition.EveryLeaf (Writable schema))
    (visible : condition.BeginsVisibly) (shallow : condition.textDepth ≤ Pairing.nestingLimit)
    (many : combinatorLimit < combinatorWords condition.text.toList) :
    compile schema condition.text = .error (.invalidExpression .tooManyCombinators) := by
  have nests := (nestsWithin_text_iff writable _).mpr shallow
  rcases Pairing.exists_ofText_iff.mpr ⟨balanced_text writable, nests⟩ with ⟨pairing, paired⟩
  rw [compile, compileTrimmed, trim_text writable visible, paired, ok_bind, if_pos many]

end Condition

/-- The text of a condition with legible comparisons compiles to that condition, unless it
nests too deeply or, if it does not, has too many combinator words. -/
theorem compile_text_outcome (schema : Schema) (condition : Condition)
    (legible : condition.EveryLeaf (Legible schema)) :
    compile schema condition.text =
        (if 128 < condition.textDepth then
          .error (.invalidExpression .nestedTooDeeply)
        else if 512 <
            (words condition.text.toList).countP fun word => word = "and" ∨ word = "or" then
          .error (.invalidExpression .tooManyCombinators)
        else .ok condition) ∧
      ShapeFault.nestedTooDeeply.reason = "parentheses nested too deeply" ∧
      ShapeFault.tooManyCombinators.reason = "too many combinators" := by
  have writable := legible.imp fun _ _ leaf => leaf.writable
  have visible := legible.beginsVisibly
  refine ⟨?_, rfl, rfl⟩
  rw [← combinatorWords_eq_countP]
  split
  next deep => exact Condition.compile_text_of_deep writable visible deep
  next shallow =>
    split
    next many =>
      exact Condition.compile_text_of_many writable visible (Nat.not_lt.mp shallow) many
    next few =>
      rw [combinatorWords_eq, Condition.ofText_text writable] at few
      exact Condition.compile_text writable visible (Nat.not_lt.mp shallow) (Nat.not_lt.mp few)

/-- A field and a literal that are spelled like combinators count as their words, and the
zero keeps its sign. -/
theorem compile_text_outcome_of_combinator_words :
    (Condition.combination .disjunction (.comparison "and" .equal (.text "or"))
        (.comparison "x\u00a0" .less (.float64 (.finite true ⟨0, by decide⟩)))).EveryLeaf
      (Legible (Schema.ofFields "sample" [("and", .text), ("x\u00a0", .float64)])) ∧
    compile (Schema.ofFields "sample" [("and", .text), ("x\u00a0", .float64)])
        "(and eq or) or (x\u00a0 lt -0)" =
      .ok (.combination .disjunction (.comparison "and" .equal (.text "or"))
        (.comparison "x\u00a0" .less (.float64 (.finite true ⟨0, by decide⟩)))) := by
  have legible : (Condition.combination .disjunction (.comparison "and" .equal (.text "or"))
      (.comparison "x\u00a0" .less (.float64 (.finite true ⟨0, by decide⟩)))).EveryLeaf
        (Legible (Schema.ofFields "sample" [("and", .text), ("x\u00a0", .float64)])) := by
    have visible {field : String} {first : Char} (begins : field.toList.head? = some first)
        (notWhite : isWhite first = false) : ∀ c ∈ field.toList.head?, isWhite c = false := by
      intro c member
      rw [begins] at member
      cases member
      exact notWhite
    constructor
    · exact ⟨isWord_iff.mpr (by decide), visible rfl (by decide), isWord_iff.mpr (by decide),
        .text, .text "or", by decide, by decide, by decide⟩
    · exact ⟨isWord_iff.mpr (by decide), visible rfl (by decide), isWord_iff.mpr (by decide +kernel),
        .float64, .float64 (.finite true ⟨0, by decide⟩), by decide, by decide +kernel,
        by decide⟩
  have outcome := (compile_text_outcome _ _ legible).1
  rw [if_neg (by decide), if_neg (by decide +kernel)] at outcome
  exact ⟨legible, outcome⟩

end FilterQuery
