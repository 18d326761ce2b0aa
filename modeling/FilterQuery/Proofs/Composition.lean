import FilterQuery.Proofs.CanonicalText

namespace FilterQuery

open Text

/-!
# Composing queries

A query can be restricted from outside: its text is put into parentheses behind another
query and a combinator.  The two are compiled as one text, and still the outcome is made
of their own outcomes.  The first is finished when the combinator comes, because chains
are read from the left.  The second is read from the start, as a range of its own, by a
pass that has one range suspended; what is suspended shows only after the group is closed.

All this needs the parentheses of the second query to pair among themselves.  Where they
do not, one of them can close the group that was meant to hold the query, so the second
query has to be looked at alone as well.  Every other rejection of it is also the
rejection of the composed text.

Both limits apply to the composed text, where the second query nests one level deeper and
the combinator is one more word.
-/

/-- A query with a second one in a group behind it, both trimmed. -/
def composed (first : String) (combinator : Combinator) (second : String) : String :=
  String.ofList (trim first.toList) ++ " " ++ combinator.token ++ " (" ++
    String.ofList (trim second.toList) ++ ")"

/-- The second query can be put behind the first within the limits. -/
def FitsBehind (first second : String) : Prop :=
  NestsWithin 127 (trim second.toList) ∧
    combinatorWords (trim first.toList) + combinatorWords (trim second.toList) + 1 ≤ 512

instance (first second : String) : Decidable (FitsBehind first second) :=
  inferInstanceAs (Decidable (_ ∧ _))

/-- What fits behind a query is within the limits alone. -/
theorem FitsBehind.alone {first second : String} (fits : FitsBehind first second) :
    NestsWithin Pairing.nestingLimit (trim second.toList) ∧
      combinatorWords (trim second.toList) ≤ combinatorLimit := by
  rcases fits with ⟨nests, few⟩
  constructor
  · intro initial isInitial
    exact Int.le_trans (nests initial isInitial) (by decide)
  · rw [combinatorLimit]
    omega

theorem toList_composed (first second : String) (combinator : Combinator) :
    (composed first combinator second).toList =
      joinedText (trim first.toList) combinator (trim second.toList) := by
  have blank : " ".toList = [' '] := rfl
  have opening : " (".toList = [' ', '('] := rfl
  have closing : ")".toList = [')'] := rfl
  simp only [composed, joinedText, String.toList_append, String.toList_ofList, blank, opening,
    closing, List.append_assoc, List.cons_append, List.nil_append]

/-! ## Joined texts -/

theorem combinatorWords_joinedText (front inside : List Char) (combinator : Combinator) :
    combinatorWords (joinedText front combinator inside) =
      combinatorWords front + combinatorWords inside + 1 := by
  have count : ∀ text, combinatorWords text = combinatorTokens (Token.ofText text) :=
    combinatorWords_eq
  rw [count, count, count, ofText_joinedText, combinatorTokens_append, combinatorTokens_combinator,
    combinatorTokens_grouped, Nat.add_assoc]

theorem parentheses_joinedText (front inside : List Char) (combinator : Combinator) :
    (joinedText front combinator inside).filter isParenthesis =
      front.filter isParenthesis ++ '(' :: (inside.filter isParenthesis ++ [')']) := by
  rw [filter_isParenthesis_eq, filter_isParenthesis_eq, filter_isParenthesis_eq,
    ofText_joinedText, List.flatMap_append, List.flatMap_cons, parentheses_grouped]
  rfl

theorem balanced_joinedText {front inside : List Char} (combinator : Combinator)
    (balancedFront : Balanced front) (balancedInside : Balanced inside) :
    Balanced (joinedText front combinator inside) := by
  rw [← balanced_filter, parentheses_joinedText]
  exact (balanced_filter.mpr balancedFront).append (balanced_filter.mpr balancedInside).parenthesised

theorem nestsWithin_joinedText {limit : Int} {front inside : List Char} (combinator : Combinator)
    (balancedFront : Balanced front) (balancedInside : Balanced inside) :
    NestsWithin limit (joinedText front combinator inside) ↔
      NestsWithin limit front ∧ NestsWithin (limit - 1) inside := by
  have only : ∀ bound text, NestsWithin bound (text.filter isParenthesis) ↔
      NestsWithin bound text := fun _ _ => everyDepth_filter
  rw [← only limit, parentheses_joinedText, nestsWithin_append (balanced_filter.mpr balancedFront),
    nestsWithin_parenthesised (balanced_filter.mpr balancedInside), only, only]

/-! ## One pass over both -/

theorem Derives.ne_nil {schema : Schema} {phrase : Phrase} {tokens : List Token}
    {node : Condition} (derivation : Derives schema phrase tokens node) : tokens ≠ [] := by
  induction derivation with
  | comparison => exact List.cons_ne_nil _ _
  | group => exact List.cons_ne_nil _ _
  | single _ ih => exact ih
  | join => simp

/-- The group behind a chain and a combinator is read as it is read alone, and then joined
to the condition of the chain. -/
theorem Pass.run_join {schema : Schema} {before : List Token} {left : Condition}
    {pairing : Pairing} {inside : List Char} (combinator : Combinator)
    (derivation : Derives schema .chain before left) (matched : Matched pairing 0 inside) :
    run schema (before ++ .word combinator.token :: Token.grouped (Token.ofText inside)) =
      (run schema (Token.ofText inside)).map (.combination combinator left) := by
  have spelled := Expectation.operatorOf_token (.combine combinator)
  rw [Operator.token] at spelled
  let waiting := Expectation.valueOrGroup (.node left) (.combine combinator)
  have chained : start.steps schema (before ++ .word combinator.token ::
      Token.grouped (Token.ofText inside)) =
        (⟨waiting, []⟩ : Pass).steps schema (Token.grouped (Token.ofText inside)) := by
    rw [start, steps_append, (steps_of_derives derivation).1, ok_bind, steps_cons, step]
    simp only [Expectation.readWord, spelled, map_ok, ok_bind]
    rfl
  -- What the closing parenthesis does with the condition of the group, up to the end.
  let proceed : List Expectation → Condition → Except Rejection Condition := fun frames node =>
    (⟨.combinatorOrEnd node, frames⟩ : Pass).step schema .closing >>= finish
  have within := @steps_eq_readRange schema _ pairing ⟨0, inside⟩ .term [waiting] proceed matched
  have grouped : ((⟨waiting, []⟩ : Pass).steps schema (Token.grouped (Token.ofText inside)) >>=
      finish) = readRange schema pairing ⟨0, inside⟩ .term >>= proceed [waiting] := by
    rw [Token.grouped, steps_cons, step_opening rfl, ok_bind, steps_append]
    simp only [steps_cons, steps_nil, step, bind_assoc] at within ⊢
    exact within
  rw [run, chained, grouped, readRange_eq_run matched]
  cases run schema (Token.ofText inside) with
  | error rejection => rfl
  | ok node => rfl

/-! ## Composed queries -/

section Composed

variable {schema : Schema} {first second : String} {combinator : Combinator} {left : Condition}

/-- Nothing is trimmed from a composed query whose first part compiles. -/
theorem trim_composed (compiled : compile schema first = .ok left) :
    trim (composed first combinator second).toList =
      joinedText (trim first.toList) combinator (trim second.toList) := by
  rw [toList_composed]
  cases trimmed : trim first.toList with
  | nil =>
      have derivation := (derives_of_compile compiled).2.2
      rw [trimmed] at derivation
      exact absurd Token.ofText_nil derivation.ne_nil
  | cons c rest => exact trim_joinedText (isWhite_of_trim_eq_cons trimmed) rest combinator _

/-- The nesting of a composed query is that of its parts, one level more for the second. -/
theorem exists_pairing_composed_iff (compiled : compile schema first = .ok left)
    (balanced : Balanced (trim second.toList)) :
    (∃ pairing, Pairing.ofText (trim (composed first combinator second).toList) = .ok pairing) ↔
      NestsWithin 127 (trim second.toList) := by
  rcases derives_of_compile compiled with ⟨nestsFirst, _, derivation⟩
  have balancedFirst := balanced_of_derives derivation
  rw [trim_composed compiled, Pairing.exists_ofText_iff,
    nestsWithin_joinedText combinator balancedFirst balanced]
  constructor
  · rintro ⟨_, _, nests⟩
    exact nests
  · intro nests
    exact ⟨balanced_joinedText combinator balancedFirst balanced, nestsFirst, nests⟩

/-- Within the limits a composed query has the outcome of its second part, as long as the
parentheses of that part are balanced. -/
theorem compile_composed_of_fits (fits : FitsBehind first second)
    (compiled : compile schema first = .ok left) (balanced : Balanced (trim second.toList)) :
    compile schema (composed first combinator second) =
      (compile schema second).map (.combination combinator left) := by
  rcases fits.alone with ⟨nestsAlone, fewAlone⟩
  rcases fits with ⟨nests, few⟩
  rcases derives_of_compile compiled with ⟨_, _, derivation⟩
  have fewBoth : combinatorWords (trim (composed first combinator second).toList) ≤
      combinatorLimit := by
    rw [trim_composed compiled, combinatorWords_joinedText]
    exact few
  rcases Pairing.exists_ofText_iff.mpr ⟨balanced, nestsAlone⟩ with ⟨pairing, paired⟩
  rcases (exists_pairing_composed_iff compiled balanced).mpr nests with ⟨pairingBoth, pairedBoth⟩
  rw [compile_eq_run_of_ofText pairedBoth fewBoth, compile_eq_run_of_ofText paired fewAlone,
    trim_composed compiled, ofText_joinedText]
  exact Pass.run_join combinator derivation (Pairing.matched_of_ofText paired)

/-- Beyond a limit a composed query is refused for it, whatever its parts say. -/
theorem compile_composed_of_not_fits (exceeds : ¬FitsBehind first second)
    (compiled : compile schema first = .ok left) (balanced : Balanced (trim second.toList)) :
    ∃ fault, compile schema (composed first combinator second) =
      .error (.invalidExpression fault) := by
  by_cases nests : NestsWithin 127 (trim second.toList)
  · have pairs : ∃ pairing, Pairing.ofText (trim (composed first combinator second).toList) =
        .ok pairing := (exists_pairing_composed_iff compiled balanced).mpr nests
    rcases pairs with ⟨pairing, paired⟩
    have many : combinatorLimit <
        combinatorWords (trim (composed first combinator second).toList) := by
      rw [trim_composed compiled, combinatorWords_joinedText]
      exact Nat.not_le.mp fun few => exceeds ⟨nests, few⟩
    refine ⟨.tooManyCombinators, ?_⟩
    rw [compile, compileTrimmed, paired, ok_bind, if_pos many]
  · have balancedFirst := balanced_of_derives (derives_of_compile compiled).2.2
    have balancedBoth : Balanced (trim (composed first combinator second).toList) := by
      rw [trim_composed compiled]
      exact balanced_joinedText combinator balancedFirst balanced
    have deep : ¬NestsWithin Pairing.nestingLimit
        (trim (composed first combinator second).toList) := by
      intro nestsBoth
      apply nests
      exact (exists_pairing_composed_iff compiled balanced).mp
        (Pairing.exists_ofText_iff.mpr ⟨balancedBoth, nestsBoth⟩)
    refine ⟨.nestedTooDeeply, ?_⟩
    rw [compile, compileTrimmed, Pairing.ofText_eq_nestedTooDeeply balancedBoth deep, error_bind]

/-- A query within the limit of nesting is balanced if it is not rejected for a
parenthesis. -/
theorem balanced_of_compile_eq_error {rejection : Rejection}
    (nests : NestsWithin Pairing.nestingLimit (trim second.toList))
    (rejected : compile schema second = .error rejection)
    (paired : ∀ place, rejection ≠ .unbalancedParenthesis place) :
    Balanced (trim second.toList) := by
  cases outcome : Pairing.ofText (trim second.toList) with
  | ok pairing => exact (Pairing.exists_ofText_iff.mp ⟨pairing, outcome⟩).1
  | error other =>
      rw [compile, compileTrimmed, outcome, error_bind] at rejected
      cases rejected
      rcases Pairing.unbalanced_of_ofText nests outcome with ⟨place, same⟩
      exact absurd same (paired place)

end Composed

/-- A query that compiles can be followed by another one in a group.  Within the limits
the two conditions are combined, beyond them the text is no expression, and a rejection of
the second query stays the same, unless one of its parentheses has no partner. -/
theorem compile_composed (schema : Schema) (combinator : Combinator) (first second : String)
    (left : Condition) (compiled : compile schema first = .ok left) :
    (∀ right, compile schema second = .ok right →
      (FitsBehind first second →
        compile schema (composed first combinator second) =
          .ok (.combination combinator left right)) ∧
      (¬FitsBehind first second →
        ∃ fault, compile schema (composed first combinator second) =
          .error (.invalidExpression fault))) ∧
    ∀ rejection, compile schema second = .error rejection →
      (∀ place, rejection ≠ .unbalancedParenthesis place) → FitsBehind first second →
        compile schema (composed first combinator second) = .error rejection := by
  constructor
  · intro right compiledSecond
    have balanced := balanced_of_derives (derives_of_compile compiledSecond).2.2
    constructor
    · intro fits
      rw [compile_composed_of_fits fits compiled balanced, compiledSecond, map_ok]
    · intro exceeds
      exact compile_composed_of_not_fits exceeds compiled balanced
  · intro rejection rejected paired fits
    have balanced := balanced_of_compile_eq_error fits.alone.1 rejected paired
    rw [compile_composed_of_fits fits compiled balanced, rejected]
    rfl

/-- A chain of two keeps together behind a combinator, and the literal that it refuses is
refused there. -/
theorem compile_composed_of_chain :
    compile (Schema.ofFields "sample" [("a", .text), ("b", .int32)]) " a eq x" =
        .ok (.comparison "a" .equal (.text "x")) ∧
      FitsBehind " a eq x" "b lt 5 or (b gt 7)\t" ∧
      compile (Schema.ofFields "sample" [("a", .text), ("b", .int32)])
          "a eq x and (b lt 5 or (b gt 7))" =
        .ok (.combination .conjunction (.comparison "a" .equal (.text "x"))
          (.combination .disjunction (.comparison "b" .less (.int32 5))
            (.comparison "b" .greater (.int32 7)))) ∧
      compile (Schema.ofFields "sample" [("a", .text), ("b", .int32)])
          "a eq x or (b lt soon)" = .error (.invalidValue "soon" .int32) := by
  have compiled : compile (Schema.ofFields "sample" [("a", .text), ("b", .int32)]) " a eq x" =
      .ok (.comparison "a" .equal (.text "x")) := by
    decide +kernel
  have fits : FitsBehind " a eq x" "b lt 5 or (b gt 7)\t" := by decide +kernel
  have chain : compile (Schema.ofFields "sample" [("a", .text), ("b", .int32)])
      "b lt 5 or (b gt 7)\t" =
        .ok (.combination .disjunction (.comparison "b" .less (.int32 5))
          (.comparison "b" .greater (.int32 7))) := by
    decide +kernel
  have conjoined := ((compile_composed _ .conjunction _ _ _ compiled).1 _ chain).1 fits
  have refused := (compile_composed _ .disjunction _ "b lt soon" _ compiled).2
    (.invalidValue "soon" .int32) (by decide +kernel) (by simp) (by decide +kernel)
  have text : composed " a eq x" .conjunction "b lt 5 or (b gt 7)\t" =
      "a eq x and (b lt 5 or (b gt 7))" := by
    decide +kernel
  have refusedText : composed " a eq x" .disjunction "b lt soon" = "a eq x or (b lt soon)" := by
    decide +kernel
  rw [text] at conjoined
  rw [refusedText] at refused
  exact ⟨compiled, fits, conjoined, refused⟩

/-- A query with a parenthesis of its own leaves the group, so it has to compile alone. -/
example :
    compile (Schema.ofFields "sample" [("b", .int32)]) "b eq 2) or (b eq 3" =
        .error (.unbalancedParenthesis 6) ∧
      compile (Schema.ofFields "sample" [("b", .int32)])
          (composed "b eq 1" .conjunction "b eq 2) or (b eq 3") =
        .ok (.combination .disjunction
          (.combination .conjunction (.comparison "b" .equal (.int32 1))
            (.comparison "b" .equal (.int32 2)))
          (.comparison "b" .equal (.int32 3))) := by
  decide +kernel

end FilterQuery
