import Mathlib.Logic.Relation
import FilterQuery.Proofs.CanonicalText

namespace FilterQuery

open Text

/-!
# Redundant parentheses

Parentheses are optional around what is read as one anyway: an operand, or the beginning of
a chain, since chains are read from the left.  These are the phrases of the grammar.  So a
pair may be put around any phrase that stands in a query, at any depth, and nothing changes
but the nesting.

What stands around a phrase is a derivation with a gap in it.  `Surrounds` is that gap seen
from its two sides, as the tokens before and behind it.  Whatever phrase of the same sort
and with the same condition fills the gap, the condition of the whole stays the same, and a
phrase in parentheses is one of either sort.  No derivation is taken apart for this, because
a query stands for one condition at most.

The reader takes other ways with the parentheses than without: a comparison behind a
combinator has expectations of its own, while a group is a range.  That both end at the same
condition was settled when the reader was shown to accept the grammar.
-/

/-- Between two sequences of tokens a phrase of one sort completes a phrase of another. -/
inductive Surrounds (schema : Schema) (inner : Phrase) :
    Phrase → List Token → List Token → Prop where
  /-- Nothing stands around the phrase. -/
  | nothing : Surrounds schema inner inner [] []
  /-- It stands in the chain of a group. -/
  | group {before after : List Token} (within : Surrounds schema inner .chain before after) :
      Surrounds schema inner .operand (.opening :: before) (after ++ [.closing])
  /-- It stands in the first operand of a chain. -/
  | single {before after : List Token} (within : Surrounds schema inner .operand before after) :
      Surrounds schema inner .chain before after
  /-- It stands in the chain before an operand. -/
  | chain {before after last : List Token} {combinator : Combinator} {right : Condition}
      (within : Surrounds schema inner .chain before after)
      (operand : Derives schema .operand last right) :
      Surrounds schema inner .chain before (after ++ .word combinator.token :: last)
  /-- It stands in the operand behind a chain. -/
  | operand {before after front : List Token} {combinator : Combinator} {left : Condition}
      (chain : Derives schema .chain front left)
      (within : Surrounds schema inner .operand before after) :
      Surrounds schema inner .chain (front ++ .word combinator.token :: before) after

/-- A pair of parentheses is put into a text around the tokens of a phrase.  The places of
the parentheses are between tokens, with any blanks on either side of them. -/
inductive Regrouped (schema : Schema) : List Char → List Char → Prop where
  | wrap {front part back : List Char} {inner : Phrase} {node : Condition}
      (between : Token.ofText (front ++ (part ++ back)) =
        Token.ofText front ++ (Token.ofText part ++ Token.ofText back))
      (phrase : Derives schema inner (Token.ofText part) node)
      (surrounds : Surrounds schema inner .chain (Token.ofText front) (Token.ofText back)) :
      Regrouped schema (front ++ (part ++ back)) (front ++ '(' :: (part ++ ')' :: back))

/-! ## Phrases and what surrounds them -/

/-- A phrase in parentheses is a phrase of the same sort, with the same condition. -/
theorem Derives.grouped {schema : Schema} {phrase : Phrase} {tokens : List Token}
    {node : Condition} (derivation : Derives schema phrase tokens node) :
    Derives schema phrase (Token.grouped tokens) node := by
  cases phrase with
  | chain => exact .single (.group derivation)
  | operand => exact .group (.single derivation)

namespace Surrounds

variable {schema : Schema} {inner outer : Phrase} {before after tokens : List Token}
  {node : Condition}

/-- A phrase completes what surrounds it, and so does each other one for the same condition,
without a change to the condition of the whole. -/
theorem exists_derives (surrounds : Surrounds schema inner outer before after)
    (phrase : Derives schema inner tokens node) :
    ∃ whole, Derives schema outer (before ++ (tokens ++ after)) whole ∧
      ∀ other, Derives schema inner other node →
        Derives schema outer (before ++ (other ++ after)) whole := by
  suffices completed : ∃ whole, ∀ other, Derives schema inner other node →
      Derives schema outer (before ++ (other ++ after)) whole by
    rcases completed with ⟨whole, derives⟩
    exact ⟨whole, derives tokens phrase, derives⟩
  induction surrounds with
  | nothing =>
      refine ⟨node, fun other derivation => ?_⟩
      rw [List.nil_append, List.append_nil]
      exact derivation
  | group _ ih =>
      rcases ih with ⟨whole, derives⟩
      refine ⟨whole, fun other derivation => ?_⟩
      rw [List.cons_append, ← List.append_assoc other, ← List.append_assoc]
      exact .group (derives other derivation)
  | single _ ih =>
      rcases ih with ⟨whole, derives⟩
      exact ⟨whole, fun other derivation => .single (derives other derivation)⟩
  | @chain _ _ _ combinator right _ operand ih =>
      rcases ih with ⟨whole, derives⟩
      refine ⟨.combination combinator whole right, fun other derivation => ?_⟩
      rw [← List.append_assoc other, ← List.append_assoc]
      exact .join (derives other derivation) operand
  | @operand _ _ _ combinator left chain _ ih =>
      rcases ih with ⟨whole, derives⟩
      refine ⟨.combination combinator left whole, fun other derivation => ?_⟩
      rw [List.append_assoc, List.cons_append]
      exact .join chain (derives other derivation)

end Surrounds

/-! ## Texts and their ends -/

/-- No white character stands at either end of a text. -/
def Trimmed (text : List Char) : Prop :=
  (∀ c ∈ text.head?, isWhite c = false) ∧ ∀ c ∈ text.getLast?, isWhite c = false

theorem trimmed_trim (text : List Char) : Trimmed (trim text) := by
  constructor
  · intro c first
    rcases List.head?_eq_some_iff.mp first with ⟨rest, trimmed⟩
    exact isWhite_of_trim_eq_cons trimmed
  · intro c last
    rcases List.mem_getLast?_eq_getLast last with ⟨nonempty, rfl⟩
    exact (Bool.not_eq_true _).mp
      (List.rdropWhile_last_not isWhite (text.dropWhile isWhite) nonempty)

theorem Trimmed.trim_eq {text : List Char} (trimmed : Trimmed text) : trim text = text :=
  trim_eq_self trimmed.1 trimmed.2

namespace Regrouped

variable {schema : Schema} {text other : List Char}

/-- The ends of a text are kept, or become parentheses. -/
theorem trimmed (regrouped : Regrouped schema text other) (trimmed : Trimmed text) :
    Trimmed other := by
  rcases regrouped with @⟨front, part, back, _, _, _, _, _⟩
  constructor
  · cases front with
    | nil =>
        rintro c ⟨⟩
        exact isWhite_openParen
    | cons first rest => exact trimmed.1
  · have ending : front ++ '(' :: (part ++ ')' :: back) =
        (front ++ '(' :: part) ++ ')' :: back := by
      rw [List.append_assoc, List.cons_append]
    rw [ending, List.getLast?_append_of_ne_nil _ (List.cons_ne_nil _ _)]
    cases back with
    | nil =>
        rintro c ⟨⟩
        exact isWhite_closeParen
    | cons first rest =>
        have last := trimmed.2
        rw [← List.append_assoc, List.getLast?_append_of_ne_nil _ (List.cons_ne_nil _ _)] at last
        rw [List.getLast?_cons_cons]
        exact last

theorem ofText_wrapped (front part back : List Char) :
    Token.ofText (front ++ '(' :: (part ++ ')' :: back)) =
      Token.ofText front ++ (Token.grouped (Token.ofText part) ++ Token.ofText back) := by
  rw [Token.ofText_append_delimiter front (by decide), Token.ofText_cons_opening,
    Token.ofText_append_delimiter part (by decide), Token.ofText_cons_closing, Token.grouped,
    List.cons_append, List.append_assoc, List.singleton_append]

/-- The new text is a chain for the condition of the old one. -/
theorem derives (regrouped : Regrouped schema text other) {condition : Condition}
    (derivation : Derives schema .chain (Token.ofText text) condition) :
    Derives schema .chain (Token.ofText other) condition := by
  rcases regrouped with ⟨between, phrase, surrounds⟩
  rcases surrounds.exists_derives phrase with ⟨whole, derives, replaced⟩
  rw [between] at derivation
  rw [ofText_wrapped, derivation.unique derives]
  exact replaced _ phrase.grouped

/-- Parentheses are no combinators. -/
theorem combinatorWords_eq (regrouped : Regrouped schema text other) :
    combinatorWords other = combinatorWords text := by
  rcases regrouped with ⟨between, _, _⟩
  have count : ∀ text, combinatorWords text = combinatorTokens (Token.ofText text) :=
    FilterQuery.combinatorWords_eq
  rw [count, count, ofText_wrapped, between, combinatorTokens_append, combinatorTokens_append,
    combinatorTokens_append, combinatorTokens_append, combinatorTokens_grouped]

end Regrouped

/-- What a text keeps when pairs of parentheses are put into it, one after another. -/
theorem regroupings_keep {schema : Schema} {text other : List Char} {condition : Condition}
    (regrouped : Relation.ReflTransGen (Regrouped schema) text other) (trimmed : Trimmed text)
    (derivation : Derives schema .chain (Token.ofText text) condition) :
    Trimmed other ∧ combinatorWords other = combinatorWords text ∧
      Derives schema .chain (Token.ofText other) condition := by
  induction regrouped with
  | refl => exact ⟨trimmed, rfl, derivation⟩
  | tail _ last ih =>
      rcases ih with ⟨stillTrimmed, sameWords, stillDerives⟩
      exact ⟨last.trimmed stillTrimmed, last.combinatorWords_eq.trans sameWords,
        last.derives stillDerives⟩

/-- Parentheses around a phrase of a query, an operand or the beginning of a chain at any
depth, do not change its condition as long as the new text is within the limit of nesting.
So no number of them does. -/
theorem compile_regrouped (schema : Schema) (query : String) (condition : Condition)
    (compiled : compile schema query = .ok condition) :
    (∀ text, Regrouped schema (trim query.toList) text → NestsWithin 128 text →
      compile schema (String.ofList text) = .ok condition) ∧
    ∀ text, Relation.ReflTransGen (Regrouped schema) (trim query.toList) text →
      NestsWithin 128 text → compile schema (String.ofList text) = .ok condition := by
  have repeatedly : ∀ text, Relation.ReflTransGen (Regrouped schema) (trim query.toList) text →
      NestsWithin 128 text → compile schema (String.ofList text) = .ok condition := by
    intro text regrouped nests
    rcases derives_of_compile compiled with ⟨_, few, derivation⟩
    rcases regroupings_keep regrouped (trimmed_trim query.toList) derivation with
      ⟨trimmed, sameWords, derivation⟩
    have kept : trim (String.ofList text).toList = text := by
      rw [String.toList_ofList, trimmed.trim_eq]
    apply compile_of_derives <;> rw [kept]
    · exact nests
    · rw [sameWords]
      exact few
    · exact derivation
  exact ⟨fun text regrouped => repeatedly text (.single regrouped), repeatedly⟩

/-- First the comparison at the beginning of a group gets parentheses, and then the whole
query does. -/
theorem compile_regrouped_of_nested :
    compile (Schema.ofFields "sample" [("a", .text), ("b", .int32)])
        " a eq x or (b lt 5 and b gt 1)\t" =
      .ok (.combination .disjunction (.comparison "a" .equal (.text "x"))
        (.combination .conjunction (.comparison "b" .less (.int32 5))
          (.comparison "b" .greater (.int32 1)))) ∧
    Relation.ReflTransGen (Regrouped (Schema.ofFields "sample" [("a", .text), ("b", .int32)]))
      (trim " a eq x or (b lt 5 and b gt 1)\t".toList)
      "(a eq x or ((b lt 5) and b gt 1))".toList ∧
    NestsWithin 128 "(a eq x or ((b lt 5) and b gt 1))".toList ∧
    compile (Schema.ofFields "sample" [("a", .text), ("b", .int32)])
        "(a eq x or ((b lt 5) and b gt 1))" =
      .ok (.combination .disjunction (.comparison "a" .equal (.text "x"))
        (.combination .conjunction (.comparison "b" .less (.int32 5))
          (.comparison "b" .greater (.int32 1)))) := by
  let schema := Schema.ofFields "sample" [("a", .text), ("b", .int32)]
  have compiled : compile schema " a eq x or (b lt 5 and b gt 1)\t" =
      .ok (.combination .disjunction (.comparison "a" .equal (.text "x"))
        (.combination .conjunction (.comparison "b" .less (.int32 5))
          (.comparison "b" .greater (.int32 1)))) := by
    decide +kernel
  have first : Regrouped schema (trim " a eq x or (b lt 5 and b gt 1)\t".toList)
      "a eq x or ((b lt 5) and b gt 1)".toList := by
    have before : Token.ofText "a eq x or (".toList =
        [.word "a", .word "eq", .word "x"] ++ .word Combinator.disjunction.token ::
          [.opening] := by
      decide +kernel
    have after : Token.ofText " and b gt 1)".toList =
        ([] ++ .word Combinator.conjunction.token :: [.word "b", .word "gt", .word "1"]) ++
          [.closing] := by
      decide +kernel
    have left : Derives schema .chain [.word "a", .word "eq", .word "x"]
        (.comparison "a" .equal (.text "x")) :=
      Pass.run_eq_ok_iff.mp (by decide +kernel)
    have last : Derives schema .operand [.word "b", .word "gt", .word "1"]
        (.comparison "b" .greater (.int32 1)) :=
      @Derives.comparison _ "b" "1" .greater .int32 _ rfl (by decide +kernel)
    have surrounds : Surrounds schema .chain .chain (Token.ofText "a eq x or (".toList)
        (Token.ofText " and b gt 1)".toList) := by
      rw [before, after]
      exact .operand left (.group (.chain .nothing last))
    have phrase : Derives schema .chain (Token.ofText "b lt 5".toList)
        (.comparison "b" .less (.int32 5)) :=
      Pass.run_eq_ok_iff.mp (by decide +kernel)
    have parts : trim " a eq x or (b lt 5 and b gt 1)\t".toList =
        "a eq x or (".toList ++ ("b lt 5".toList ++ " and b gt 1)".toList) := by
      decide +kernel
    have wrapped : "a eq x or ((b lt 5) and b gt 1)".toList =
        "a eq x or (".toList ++ '(' :: ("b lt 5".toList ++ ')' :: " and b gt 1)".toList) := by
      decide +kernel
    rw [parts, wrapped]
    exact .wrap (by decide +kernel) phrase surrounds
  have second : Regrouped schema "a eq x or ((b lt 5) and b gt 1)".toList
      "(a eq x or ((b lt 5) and b gt 1))".toList := by
    have phrase : Derives schema .chain (Token.ofText "a eq x or ((b lt 5) and b gt 1)".toList)
        (.combination .disjunction (.comparison "a" .equal (.text "x"))
          (.combination .conjunction (.comparison "b" .less (.int32 5))
            (.comparison "b" .greater (.int32 1)))) :=
      Pass.run_eq_ok_iff.mp (by decide +kernel)
    have surrounds : Surrounds schema .chain .chain (Token.ofText []) (Token.ofText []) := by
      rw [Token.ofText_nil]
      exact .nothing
    have parts : "a eq x or ((b lt 5) and b gt 1)".toList =
        [] ++ ("a eq x or ((b lt 5) and b gt 1)".toList ++ []) := by
      rw [List.nil_append, List.append_nil]
    have wrapped : "(a eq x or ((b lt 5) and b gt 1))".toList =
        [] ++ '(' :: ("a eq x or ((b lt 5) and b gt 1)".toList ++ [')']) := by
      decide +kernel
    rw [parts, wrapped]
    exact .wrap (by decide +kernel) phrase surrounds
  have regrouped := Relation.ReflTransGen.tail (.single first) second
  have nests : NestsWithin 128 "(a eq x or ((b lt 5) and b gt 1))".toList := by decide +kernel
  have outcome := (compile_regrouped schema _ _ compiled).2 _ regrouped nests
  rw [String.ofList_toList] at outcome
  exact ⟨compiled, regrouped, nests, outcome⟩

end FilterQuery
