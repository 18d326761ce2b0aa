import FilterQuery.Proofs.CanonicalText

namespace FilterQuery

open Text

/-!
# Compiling the text of a condition

The text of a compiled condition is meant to be a query for the same condition.  It is
one except in two situations, which are found here and shown to be the only ones.

The first is depth.  The text puts a comparison on either side of a combinator into
parentheses, and its query need not have done so; a query at the limit of nesting can have
a text one level beyond it, but no more.  The second is white space.  A field may begin with
a character that is white and no blank, and such a field stands at the very start of the
text of a single comparison, from which white characters are trimmed.  A query reaches such
a field by putting the comparison into parentheses, and the text of a comparison has none.

The limit on combinator words does not come into this: the text never has more of them
than the query.
-/

namespace Condition

variable {schema : Schema} {condition : Condition}

/-- A condition whose values were all read is the same as itself: none of its numbers is
outside the numbers. -/
theorem same_self (writable : condition.EveryLeaf (Writable schema)) :
    condition.same condition = true := by
  induction condition with
  | comparison field comparator value =>
      rcases writable.rereads with ⟨kind, rereads⟩
      simp only [same, BEq.rfl, rereads.same, Bool.and_self]
  | combination combinator left right ihLeft ihRight =>
      simp only [same, BEq.rfl, ihLeft writable.1, ihRight writable.2, Bool.and_self]

/-- The text compiles to the condition if it is within the limits and nothing is trimmed. -/
theorem compile_text (writable : condition.EveryLeaf (Writable schema))
    (visible : condition.BeginsVisibly)
    (shallow : condition.textDepth ≤ Pairing.nestingLimit)
    (few : combinatorTokens condition.tokens ≤ combinatorLimit) :
    compile schema condition.text = .ok condition := by
  apply compile_of_derives <;> rw [trim_text writable visible]
  · exact (nestsWithin_text_iff writable _).mpr shallow
  · rw [combinatorWords_eq, ofText_text writable]
    exact few
  · rw [ofText_text writable]
    exact derives_tokens writable

/-- A condition whose text compiles has a text within the limit of nesting. -/
theorem textDepth_le_of_compile (writable : condition.EveryLeaf (Writable schema))
    {again : Condition} (compiled : compile schema condition.text = .ok again) :
    condition.textDepth ≤ Pairing.nestingLimit := by
  cases condition with
  | comparison _ _ _ => exact Nat.zero_le _
  | combination combinator left right =>
      have nests := (derives_of_compile compiled).1
      rw [trim_text_combination] at nests
      exact (nestsWithin_text_iff writable _).mp nests

/-- The text of a comparison has no parentheses. -/
theorem inWord_or_isBlank_of_mem_text {field : String} {comparator : Comparator} {value : Value}
    (writable : Writable schema field value) {c : Char}
    (member : c ∈ (comparison field comparator value).text.toList) :
    isDelimiter c = false ∨ isBlank c = true := by
  rw [toList_text_comparison] at member
  rcases List.mem_append.mp member with inField | behind
  · exact .inl (writable.fieldWord.2 c inField)
  rcases List.mem_cons.mp behind with rfl | behind
  · exact .inr (by decide)
  rcases List.mem_append.mp behind with inComparator | behind
  · exact .inl (comparator.isWord_token.2 c inComparator)
  rcases List.mem_cons.mp behind with rfl | inLiteral
  · exact .inr (by decide)
  · exact .inl (writable.literalWord.2 c inLiteral)

/-- Where the text compiles to the same condition, its first field was not trimmed. -/
theorem beginsVisibly_of_compile (writable : condition.EveryLeaf (Writable schema))
    {again : Condition} (compiled : compile schema condition.text = .ok again)
    (agrees : again.same condition = true) : condition.BeginsVisibly := by
  cases condition with
  | combination _ _ _ => trivial
  | comparison field comparator value =>
      cases again with
      | combination _ _ _ => cases agrees
      | comparison field' comparator' value' =>
          simp only [same, Bool.and_eq_true, beq_iff_eq] at agrees
          have fits := (derives_of_compile compiled).2.2.fits_inorder
          rw [← words_eq_filterMap_ofText, inorder] at fits
          rcases List.forall₂_cons_left_iff.mp fits with ⟨first, others, isField, _, found⟩
          have visible := isWhite_of_words_trim
            (fun _ member => inWord_or_isBlank_of_mem_text writable member) found
          rw [show first = field' from isField, agrees.1.1] at visible
          exact visible

end Condition

/-- The text of a compiled condition compiles to the same condition again exactly if it
does not nest too deeply and does not begin with a white character of its field. -/
theorem compile_text_iff (schema : Schema) (query : String) (condition : Condition)
    (compiled : compile schema query = .ok condition) :
    (∃ again, compile schema condition.text = .ok again ∧ again.same condition = true) ↔
      condition.textDepth ≤ 128 ∧ condition.BeginsVisibly := by
  rcases derives_of_compile compiled with ⟨_, few, derivation⟩
  have writable := derivation.everyLeaf_writable fun _ member => Token.isWord_of_mem_ofText member
  rw [combinatorWords_eq] at few
  constructor
  · rintro ⟨again, recompiled, agrees⟩
    exact ⟨Condition.textDepth_le_of_compile writable recompiled,
      Condition.beginsVisibly_of_compile writable recompiled agrees⟩
  · rintro ⟨shallow, visible⟩
    have small := Nat.le_trans derivation.combinatorTokens_le few
    exact ⟨condition, Condition.compile_text writable visible shallow small,
      Condition.same_self writable⟩

/-- A group around the whole query is not written, and a minute and a half is written in
seconds. -/
theorem compile_text_of_groups :
    compile (Schema.ofFields "sample" [("a", .duration)]) "((a lt 1.5m)or(a eq -1ns))" =
        .ok (.combination .disjunction (.comparison "a" .less (.duration ⟨90000000000⟩))
          (.comparison "a" .equal (.duration ⟨-1⟩))) ∧
      ∃ again, compile (Schema.ofFields "sample" [("a", .duration)])
          (Condition.text (.combination .disjunction
            (.comparison "a" .less (.duration ⟨90000000000⟩))
            (.comparison "a" .equal (.duration ⟨-1⟩)))) = .ok again ∧
        again.same (.combination .disjunction (.comparison "a" .less (.duration ⟨90000000000⟩))
          (.comparison "a" .equal (.duration ⟨-1⟩))) = true := by
  have compiled : compile (Schema.ofFields "sample" [("a", .duration)])
      "((a lt 1.5m)or(a eq -1ns))" =
        .ok (.combination .disjunction (.comparison "a" .less (.duration ⟨90000000000⟩))
          (.comparison "a" .equal (.duration ⟨-1⟩))) := by
    decide +kernel
  exact ⟨compiled, (compile_text_iff _ _ _ compiled).mpr ⟨by decide, trivial⟩⟩

/-- A field that begins with a no-break space loses it at the start of a text, and the
rest is no field. -/
theorem compile_text_fails_of_white_field :
    compile (Schema.ofFields "sample" [("\u00a0x", .int32)]) "(\u00a0x eq 1)" =
        .ok (.comparison "\u00a0x" .equal (.int32 1)) ∧
      ¬∃ again, compile (Schema.ofFields "sample" [("\u00a0x", .int32)])
          (Condition.text (.comparison "\u00a0x" .equal (.int32 1))) = .ok again ∧
        again.same (.comparison "\u00a0x" .equal (.int32 1)) = true := by
  refine ⟨by decide +kernel, ?_⟩
  have refused : compile (Schema.ofFields "sample" [("\u00a0x", .int32)])
      (Condition.text (.comparison "\u00a0x" .equal (.int32 1))) =
        .error (.unknownTerm "x") := by
    decide +kernel
  rintro ⟨again, recompiled, _⟩
  rw [refused] at recompiled
  cases recompiled

end FilterQuery
