import FilterQuery.Proofs.Bounds

namespace FilterQuery

open Text

/-!
# What the limit on combinators counts

The limit is there for the depth of the condition, and a rejection says that there are too
many combinators.  What is counted are words, before anything is read: a field or a
literal that is spelled like a combinator counts as one.

The words of a chain alternate between operands and operators, so the miscounted words can
be told from the text alone.  They are the words at the even places, counted from nought,
that spell a combinator, and the count exceeds the combinations by just as many.  A chain is
therefore refused wrongly where its combinations are within the limit and these words take
the count beyond it.  Chains of one comparison with such a literal show that this happens.
-/

/-- Every second word, from the first one on.  In a chain these are the fields and the
literals, and the words between them are comparators and combinators. -/
def operandWords : List String → List String
  | [] => []
  | [last] => [last]
  | operand :: _ :: rest => operand :: operandWords rest

/-- How many fields and literals are spelled like a combinator, among the words of a
chain. -/
def combinatorOperands (words : List String) : Nat :=
  (operandWords words).countP fun word => word = "and" ∨ word = "or"

/-! ## Counting in a chain -/

theorem operandWords_append {front : List String} (odd : front.length % 2 = 1)
    (operator : String) (rest : List String) :
    operandWords (front ++ operator :: rest) = operandWords front ++ operandWords rest := by
  fun_induction operandWords front with
  | case1 => cases odd
  | case2 last => rfl
  | case3 operand between others ih =>
      rw [List.length_cons, List.length_cons] at odd
      rw [List.cons_append, List.cons_append, operandWords, ih (by omega), List.cons_append]

namespace Derives

variable {schema : Schema} {phrase : Phrase} {tokens : List Token} {node : Condition}

/-- A phrase begins and ends with an operand. -/
theorem odd_length_words (derivation : Derives schema phrase tokens node) :
    (tokens.filterMap Token.word?).length % 2 = 1 := by
  have sameLength := derivation.fits_inorder.length_eq
  have counted := node.length_inorder
  omega

/-- The words that count against the limit are the combinators of a phrase and its
misleading operands. -/
theorem combinatorTokens_eq (derivation : Derives schema phrase tokens node) :
    combinatorTokens tokens =
      node.combinationCount + combinatorOperands (tokens.filterMap Token.word?) := by
  induction derivation with
  | @comparison field literal comparator kind value _ _ =>
      have noCombinator : combinatorTokens [.word comparator.token] = 0 := by
        cases comparator <;> decide
      have split : combinatorTokens [.word field, .word comparator.token, .word literal] =
          combinatorTokens [.word field] +
            (combinatorTokens [.word comparator.token] + combinatorTokens [.word literal]) := by
        rw [← combinatorTokens_append, ← combinatorTokens_append]
        rfl
      rw [split, noCombinator, combinatorTokens_word, combinatorTokens_word,
        Condition.combinationCount]
      show _ = 0 + List.countP _ [field, literal]
      simp only [List.countP_cons, List.countP_nil, decide_eq_true_eq]
      omega
  | group _ ih =>
      rw [← Token.grouped, combinatorTokens_grouped, Token.filterMap_word?_grouped]
      exact ih
  | single _ ih => exact ih
  | @join before after combinator left right chain last ihBefore ihAfter =>
      have words : (before ++ .word combinator.token :: after).filterMap Token.word? =
          before.filterMap Token.word? ++ combinator.token :: after.filterMap Token.word? :=
        List.filterMap_append
      rw [combinatorOperands] at ihBefore ihAfter
      rw [combinatorTokens_append, combinatorTokens_combinator, Condition.combinationCount, words,
        combinatorOperands, operandWords_append chain.odd_length_words, List.countP_append]
      omega

end Derives

/-! ## What is refused -/

section Limit

variable {schema : Schema} {query : String} {condition : Condition}

theorem combinatorWords_of_derives
    (derivation : Derives schema .chain (Token.ofText (trim query.toList)) condition) :
    combinatorWords (trim query.toList) =
      condition.combinationCount + combinatorOperands (words (trim query.toList)) := by
  rw [combinatorWords_eq, words_eq_filterMap_ofText]
  exact derivation.combinatorTokens_eq

/-- A chain whose parentheses pair is refused for its words or not at all. -/
theorem compile_eq_ite_of_derives
    (derivation : Derives schema .chain (Token.ofText (trim query.toList)) condition)
    (nests : NestsWithin Pairing.nestingLimit (trim query.toList)) :
    compile schema query =
      if combinatorLimit < combinatorWords (trim query.toList) then
        .error (.invalidExpression .tooManyCombinators)
      else .ok condition := by
  split
  next many =>
    rcases Pairing.exists_ofText_iff.mpr ⟨balanced_of_derives derivation, nests⟩ with
      ⟨pairing, paired⟩
    rw [compile, compileTrimmed, paired, ok_bind, if_pos many]
  next few => exact compile_of_derives nests (Nat.not_lt.mp few) derivation

/-- A chain is refused if its combinations and the operands that are spelled like
combinators are together more than 512.  So its combinations alone decide exactly if they
exceed the limit themselves, or if those operands do not take the count beyond it. -/
theorem compile_limited_by_combinations_iff (schema : Schema) (query : String)
    (condition : Condition)
    (derivation : Derives schema .chain (Token.ofText (trim query.toList)) condition)
    (nests : NestsWithin 128 (trim query.toList)) :
    compile schema query =
        (if 512 < condition.combinationCount + combinatorOperands (words (trim query.toList)) then
          .error (.invalidExpression .tooManyCombinators)
        else .ok condition) ∧
      (compile schema query =
          (if 512 < condition.combinationCount then
            .error (.invalidExpression .tooManyCombinators)
          else .ok condition) ↔
        (condition.combinationCount ≤ 512 →
          condition.combinationCount + combinatorOperands (words (trim query.toList)) ≤ 512)) := by
  have outcome := compile_eq_ite_of_derives derivation nests
  rw [combinatorWords_of_derives derivation, combinatorLimit] at outcome
  refine ⟨outcome, ?_⟩
  rw [outcome]
  constructor
  · intro agree within
    rw [if_neg (Nat.not_lt.mpr within)] at agree
    split at agree
    next => cases agree
    next few => exact Nat.not_lt.mp few
  · intro few
    by_cases many : 512 < condition.combinationCount
    · rw [if_pos many, if_pos (by omega)]
    · rw [if_neg many, if_neg (Nat.not_lt.mpr (few (Nat.not_lt.mp many)))]

/-- Two of three operands are spelled like combinators, and count, but do no harm. -/
theorem compile_limited_by_combinations_of_few :
    Derives (Schema.ofFields "sample" [("or", .text), ("b", .int32)]) .chain
        (Token.ofText (trim "or ne and and (b lt 5)".toList))
        (.combination .conjunction (.comparison "or" .unequal (.text "and"))
          (.comparison "b" .less (.int32 5))) ∧
      combinatorOperands (words (trim "or ne and and (b lt 5)".toList)) = 2 ∧
      compile (Schema.ofFields "sample" [("or", .text), ("b", .int32)])
          "or ne and and (b lt 5)" =
        .ok (.combination .conjunction (.comparison "or" .unequal (.text "and"))
          (.comparison "b" .less (.int32 5))) := by
  have tokens : Token.ofText (trim "or ne and and (b lt 5)".toList) =
      [.word "or", .word "ne", .word "and"] ++ .word Combinator.conjunction.token ::
        Token.grouped [.word "b", .word "lt", .word "5"] := by
    decide +kernel
  have first : Derives (Schema.ofFields "sample" [("or", .text), ("b", .int32)]) .operand
      [.word "or", .word "ne", .word "and"] (.comparison "or" .unequal (.text "and")) :=
    @Derives.comparison _ "or" "and" .unequal .text _ rfl rfl
  have second : Derives (Schema.ofFields "sample" [("or", .text), ("b", .int32)]) .operand
      [.word "b", .word "lt", .word "5"] (.comparison "b" .less (.int32 5)) :=
    @Derives.comparison _ "b" "5" .less .int32 _ rfl (by decide +kernel)
  have derivation : Derives (Schema.ofFields "sample" [("or", .text), ("b", .int32)]) .chain
      (Token.ofText (trim "or ne and and (b lt 5)".toList))
      (.combination .conjunction (.comparison "or" .unequal (.text "and"))
        (.comparison "b" .less (.int32 5))) := by
    rw [tokens]
    exact .join (.single first) (.group (.single second))
  have counted : combinatorOperands (words (trim "or ne and and (b lt 5)".toList)) = 2 := by
    decide +kernel
  have outcome := (compile_limited_by_combinations_iff _ _ _ derivation (by decide +kernel)).1
  rw [counted] at outcome
  exact ⟨derivation, counted, outcome⟩

end Limit

/-! ## Chains of one comparison -/

/-- A chain of one comparison with the literal "and", joined by a number of combinators. -/
def repeatedQuery : Nat → String
  | 0 => "a eq and"
  | count + 1 => repeatedQuery count ++ " and a eq and"

/-- What such a chain stands for. -/
def repeatedCondition : Nat → Condition
  | 0 => .comparison "a" .equal (.text "and")
  | count + 1 =>
    .combination .conjunction (repeatedCondition count) (.comparison "a" .equal (.text "and"))

/-- A schema with one field that takes texts. -/
def textSchema : Schema := Schema.ofFields "sample" [("a", .text)]

theorem combinationCount_repeatedCondition (count : Nat) :
    (repeatedCondition count).combinationCount = count := by
  induction count with
  | zero => rfl
  | succ count ih => rw [repeatedCondition, Condition.combinationCount, ih]; rfl

theorem toList_repeatedQuery_succ (count : Nat) :
    (repeatedQuery (count + 1)).toList =
      (repeatedQuery count).toList ++ ' ' :: "and a eq and".toList := by
  rw [repeatedQuery, String.toList_append]
  rfl

theorem ofText_repeatedQuery_succ (count : Nat) :
    Token.ofText (repeatedQuery (count + 1)).toList =
      Token.ofText (repeatedQuery count).toList ++
        .word Combinator.conjunction.token :: [.word "a", .word "eq", .word "and"] := by
  have last : Token.ofText "and a eq and".toList =
      .word Combinator.conjunction.token :: [.word "a", .word "eq", .word "and"] := by
    decide +kernel
  rw [toList_repeatedQuery_succ, Token.ofText_append_blank, last]

theorem derives_repeatedQuery (count : Nat) :
    Derives textSchema .chain (Token.ofText (repeatedQuery count).toList)
      (repeatedCondition count) := by
  have leaf : Derives textSchema .operand [.word "a", .word "eq", .word "and"]
      (.comparison "a" .equal (.text "and")) :=
    @Derives.comparison _ "a" "and" .equal .text _ rfl rfl
  induction count with
  | zero =>
      have tokens : Token.ofText (repeatedQuery 0).toList =
          [.word "a", .word "eq", .word "and"] := by
        decide +kernel
      rw [tokens]
      exact .single leaf
  | succ count ih =>
      rw [ofText_repeatedQuery_succ]
      exact .join ih leaf

theorem combinatorWords_repeatedQuery (count : Nat) :
    combinatorWords (repeatedQuery count).toList = 2 * count + 1 := by
  rw [combinatorWords_eq]
  show combinatorTokens _ = _
  induction count with
  | zero => decide +kernel
  | succ count ih =>
      rw [ofText_repeatedQuery_succ, combinatorTokens_append, ih, combinatorTokens_combinator,
        show combinatorTokens [.word "a", .word "eq", .word "and"] = 1 by decide]
      omega

theorem nestsWithin_repeatedQuery (count : Nat) :
    NestsWithin Pairing.nestingLimit (repeatedQuery count).toList := by
  have none : (repeatedQuery count).toList.filter isParenthesis = [] := by
    induction count with
    | zero => decide
    | succ count ih =>
        rw [toList_repeatedQuery_succ, List.filter_append, ih]
        decide
  rw [NestsWithin, ← everyDepth_filter, none, everyDepth_nil]
  decide

theorem trim_repeatedQuery (count : Nat) :
    trim (repeatedQuery count).toList = (repeatedQuery count).toList := by
  apply trim_eq_self
  · have first : (repeatedQuery count).toList.head? = some 'a' := by
      induction count with
      | zero => rfl
      | succ count ih => rw [toList_repeatedQuery_succ, List.head?_append, ih]; rfl
    rw [first]
    rintro c ⟨⟩
    decide
  · have last : (repeatedQuery count).toList.getLast? = some 'd' := by
      cases count with
      | zero => rfl
      | succ count => rw [toList_repeatedQuery_succ, List.getLast?_append]; rfl
    rw [last]
    rintro c ⟨⟩
    decide

/-- Each comparison of such a chain counts, beside each combinator. -/
theorem compile_repeatedQuery (count : Nat) :
    compile textSchema (repeatedQuery count) =
      if 512 < 2 * count + 1 then .error (.invalidExpression .tooManyCombinators)
      else .ok (repeatedCondition count) := by
  have derivation := derives_repeatedQuery count
  have nests := nestsWithin_repeatedQuery count
  rw [← trim_repeatedQuery] at derivation nests
  rw [compile_eq_ite_of_derives derivation nests, trim_repeatedQuery,
    combinatorWords_repeatedQuery, combinatorLimit]

/-- With half as many combinators as are allowed, the chain is refused for having too
many. -/
theorem compile_refuses_few_combinations :
    Derives textSchema .chain (Token.ofText (trim (repeatedQuery 256).toList))
        (repeatedCondition 256) ∧
      NestsWithin 128 (trim (repeatedQuery 256).toList) ∧
      (repeatedCondition 256).combinationCount = 256 ∧
      compile textSchema (repeatedQuery 256) = .error (.invalidExpression .tooManyCombinators) ∧
      compile textSchema (repeatedQuery 256) ≠
        (if 512 < (repeatedCondition 256).combinationCount then
          .error (.invalidExpression .tooManyCombinators)
        else .ok (repeatedCondition 256)) := by
  have refused : compile textSchema (repeatedQuery 256) =
      .error (.invalidExpression .tooManyCombinators) := by
    rw [compile_repeatedQuery, if_pos (by decide)]
  rw [trim_repeatedQuery, refused, combinationCount_repeatedCondition, if_neg (by decide)]
  exact ⟨derives_repeatedQuery 256, nestsWithin_repeatedQuery 256, rfl, rfl,
    fun impossible => by cases impossible⟩

end FilterQuery
