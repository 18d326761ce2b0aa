import Mathlib.Data.List.MinMax
import Mathlib.Order.Nat
import FilterQuery.Proofs.CanonicalText

namespace FilterQuery

open Text

/-!
# Bounds on what is accepted

The two limits are checked on the text, before anything is read.  What they are for comes
later: the ranges that the reader has open at once, and the size and the shape of the
condition that it returns.  Here each of these is bounded by what was checked.

How many ranges are open cannot be seen from the outcome of reading.  `readRangeWithin` is
the same reader with room for a number of ranges, and it gives up where one more is needed.
It has the outcome of the reader wherever it has one.  On a query that is accepted it has
one exactly if there is room for one range more than the query nests, because each group is
read to its end and a group is one level of nesting.

A condition has a combination for each combinator that was read as one, and so no more of
them than the query has combinator words.  The shape is not bounded evenly.  A chain leans
to the left and is as deep as it is long, but each step to the right goes into an operand.
An operand is a comparison, or else a group that takes one level of nesting.  The text of a
condition has the same levels, one for each step to the right, so what bounds its depth
bounds these steps too.
-/

/-- How many parentheses are open at once in a text, at most. -/
def nesting (text : List Char) : Nat :=
  (text.inits.map fun initial => (depth initial).toNat).foldr max 0

/-- Read the rest of a range with room for only so many ranges at once, this one included.
There is no outcome where one more is needed. -/
def readRangeWithin (schema : Schema) (pairing : Pairing) (room : Nat) (place : Place)
    (expectation : Expectation) : Option (Except Rejection Condition) :=
  match room with
  | 0 => none
  | inner + 1 =>
    match _found : place.next pairing with
    | .finished => some expectation.conclude
    | .stray offset => some (.error (.unbalancedParenthesis offset))
    | .word _ word after =>
      match expectation.readWord schema word with
      | .error rejection => some (.error rejection)
      | .ok next => readRangeWithin schema pairing (inner + 1) after next
    | .group _ _ inside after =>
      if expectation.admitsGroup then
        match readRangeWithin schema pairing inner inside .term with
        | none => none
        | some (.error rejection) => some (.error rejection)
        | some (.ok node) =>
          match expectation.readGroup schema node with
          | .error rejection => some (.error rejection)
          | .ok next => readRangeWithin schema pairing (inner + 1) after next
      else some (.error (.invalidExpression .unexpectedGroup))
termination_by place.text.length
decreasing_by
  · exact Place.length_lt_of_next_word _found
  · exact (Place.length_lt_of_next_group _found).1
  · exact (Place.length_lt_of_next_group _found).2

/-- A side of a combination. -/
inductive Branch where
  | left
  | right
  deriving DecidableEq, Repr

namespace Condition

/-- The number of combinations. -/
def combinationCount : Condition → Nat
  | comparison _ _ _ => 0
  | combination _ left right => left.combinationCount + right.combinationCount + 1

/-- How many nodes are above one another, at most. -/
def height : Condition → Nat
  | comparison _ _ _ => 1
  | combination _ left right => max left.height right.height + 1

/-- The ways from the root to the comparisons, from left to right. -/
def paths : Condition → List (List Branch)
  | comparison _ _ _ => [[]]
  | combination _ left right =>
    left.paths.map (.left :: ·) ++ right.paths.map (.right :: ·)

end Condition

/-! ## Nesting -/

theorem nestsWithin_iff_nesting_le {text : List Char} {limit : Nat} :
    NestsWithin limit text ↔ nesting text ≤ limit := by
  rw [nesting, NestsWithin, EveryDepth]
  constructor
  · intro nests
    apply List.max_le_of_forall_le
    intro reached member
    rcases List.mem_map.mp member with ⟨initial, isInitial, rfl⟩
    exact Int.toNat_le.mpr (nests initial (List.mem_inits _ _ |>.mp isInitial))
  · intro bounded initial isInitial
    apply Int.toNat_le.mp
    exact (List.le_max_of_le (List.mem_map.mpr
      ⟨initial, (List.mem_inits _ _).mpr isInitial, rfl⟩) (Nat.le_refl _)).trans bounded

variable {schema : Schema} {pairing : Pairing} {room : Nat} {place : Place}
  {expectation : Expectation}

/-! ## Room for ranges -/

section Equations

variable {start opening closing offset : Nat} {word : String} {inside after : Place}

theorem readRange_finished (found : place.next pairing = .finished) :
    readRange schema pairing place expectation = expectation.conclude := by
  rw [readRange]
  split <;> simp_all

theorem readRange_stray (found : place.next pairing = .stray offset) :
    readRange schema pairing place expectation = .error (.unbalancedParenthesis offset) := by
  rw [readRange]
  split <;> simp_all

theorem readRange_word (found : place.next pairing = .word start word after) :
    readRange schema pairing place expectation =
      expectation.readWord schema word >>= readRange schema pairing after := by
  rw [readRange]
  split <;> simp_all

theorem readRange_group (found : place.next pairing = .group opening closing inside after) :
    readRange schema pairing place expectation =
      if expectation.admitsGroup then
        readRange schema pairing inside .term >>= fun node =>
          expectation.readGroup schema node >>= readRange schema pairing after
      else .error (.invalidExpression .unexpectedGroup) := by
  rw [readRange]
  split <;> simp_all

end Equations

/-- Room changes nothing about an outcome. -/
theorem readRange_of_readRangeWithin {outcome : Except Rejection Condition}
    (read : readRangeWithin schema pairing room place expectation = some outcome) :
    readRange schema pairing place expectation = outcome := by
  fun_induction readRangeWithin schema pairing room place expectation generalizing outcome with
  | case1 => cases read
  | case2 place expectation inner found =>
      rw [readRange_finished found]
      exact Option.some.inj read
  | case3 place expectation inner offset found =>
      rw [readRange_stray found]
      exact Option.some.inj read
  | case4 place expectation inner start word after found rejection refused =>
      rw [readRange_word found, refused]
      exact Option.some.inj read
  | case5 place expectation inner start word after found next accepted ih =>
      rw [readRange_word found, accepted]
      exact ih read
  | case6 => cases read
  | case7 place expectation inner opening closing inside after found admits rejection refused ih =>
      rw [readRange_group found, if_pos admits, ih refused]
      exact Option.some.inj read
  | case8 place expectation inner opening closing inside after found admits node within rejection
      refused ih =>
      rw [readRange_group found, if_pos admits, ih within, ok_bind, refused]
      exact Option.some.inj read
  | case9 place expectation inner opening closing inside after found admits node within next
      accepted ihInside ihAfter =>
      rw [readRange_group found, if_pos admits, ihInside within, ok_bind, accepted]
      exact ihAfter read
  | case10 place expectation inner opening closing inside after found refused =>
      rw [readRange_group found, if_neg refused]
      exact Option.some.inj read

namespace Place

variable {start opening closing : Nat} {word : String} {inside after : Place}

/-- A word does not nest. -/
theorem nestsWithin_next_word (matched : Matched pairing place.offset place.text)
    (found : place.next pairing = .word start word after) :
    Matched pairing after.offset after.text ∧
      ∀ limit, NestsWithin limit place.text ↔ NestsWithin limit after.text := by
  have fits := fits_next matched
  rw [found] at fits
  refine ⟨fits.2, fun limit => ?_⟩
  rw [← nestsWithin_parentheses, fits.1, List.flatMap_cons, Token.parentheses, List.nil_append,
    nestsWithin_parentheses]

/-- A group nests one level deeper than its inside. -/
theorem nestsWithin_next_group (matched : Matched pairing place.offset place.text)
    (found : place.next pairing = .group opening closing inside after) :
    Matched pairing inside.offset inside.text ∧ Matched pairing after.offset after.text ∧
      ∀ limit, NestsWithin limit place.text ↔
        NestsWithin (limit - 1) inside.text ∧ NestsWithin limit after.text := by
  have fits := fits_next matched
  rw [found] at fits
  rcases fits with ⟨tokens, matchedInside, matchedAfter⟩
  refine ⟨matchedInside, matchedAfter, fun limit => ?_⟩
  have balanced := balanced_parentheses.mpr matchedInside.balanced
  have split : (Token.ofText place.text).flatMap Token.parentheses =
      (Token.grouped (Token.ofText inside.text)).flatMap Token.parentheses ++
        (Token.ofText after.text).flatMap Token.parentheses := by
    rw [tokens, Token.grouped, ← List.flatMap_append, List.cons_append, List.append_assoc]
    rfl
  rw [← nestsWithin_parentheses, split, parentheses_grouped,
    nestsWithin_append balanced.parenthesised, nestsWithin_parenthesised balanced,
    nestsWithin_parentheses, nestsWithin_parentheses]

end Place

/-- Room for one range more than the text nests is enough. -/
theorem readRangeWithin_ne_none (matched : Matched pairing place.offset place.text)
    (nests : NestsWithin ((room : Int) - 1) place.text) :
    readRangeWithin schema pairing room place expectation ≠ none := by
  fun_induction readRangeWithin schema pairing room place expectation with
  | case1 => exact absurd (nests [] List.nil_prefix) (by decide)
  | case2 | case3 | case4 | case7 | case8 | case10 => nofun
  | case5 place expectation inner start word after found next accepted ih =>
      rcases Place.nestsWithin_next_word matched found with ⟨matchedAfter, sameNesting⟩
      exact ih matchedAfter ((sameNesting _).mp nests)
  | case6 place expectation inner opening closing inside after found admits noRoom ih =>
      rcases Place.nestsWithin_next_group matched found with ⟨matchedInside, _, sameNesting⟩
      have nestsInside := ((sameNesting _).mp nests).1
      rw [Int.natCast_succ, Int.add_sub_cancel] at nestsInside
      exact absurd noRoom (ih matchedInside nestsInside)
  | case9 place expectation inner opening closing inside after found admits node within next
      accepted ihInside ihAfter =>
      rcases Place.nestsWithin_next_group matched found with ⟨_, matchedAfter, sameNesting⟩
      exact ihAfter matchedAfter ((sameNesting _).mp nests).2

/-- Less room is not enough for a condition, since it takes every group to its end. -/
theorem nestsWithin_of_readRangeWithin {node : Condition}
    (matched : Matched pairing place.offset place.text)
    (read : readRangeWithin schema pairing room place expectation = some (.ok node)) :
    NestsWithin ((room : Int) - 1) place.text := by
  fun_induction readRangeWithin schema pairing room place expectation generalizing node with
  | case1 | case3 | case4 | case6 | case7 | case8 | case10 => cases read
  | case2 place expectation inner found =>
      have fits := Place.fits_next matched
      rw [found] at fits
      rw [← nestsWithin_parentheses, show Token.ofText place.text = [] from fits, List.flatMap_nil,
        nestsWithin_nil, Int.natCast_succ, Int.add_sub_cancel]
      exact Int.natCast_nonneg inner
  | case5 place expectation inner start word after found next accepted ih =>
      rcases Place.nestsWithin_next_word matched found with ⟨matchedAfter, sameNesting⟩
      exact (sameNesting _).mpr (ih matchedAfter read)
  | case9 place expectation inner opening closing inside after found admits node within next
      accepted ihInside ihAfter =>
      rcases Place.nestsWithin_next_group matched found with
        ⟨matchedInside, matchedAfter, sameNesting⟩
      refine (sameNesting _).mpr ⟨?_, ihAfter matchedAfter read⟩
      rw [Int.natCast_succ, Int.add_sub_cancel]
      exact ihInside matchedInside within

/-- A text that is read to a condition takes room for one range more than it nests, and no
more than that. -/
theorem readRangeWithin_eq_ok_iff {text : List Char} {condition : Condition}
    (matched : Matched pairing 0 text)
    (read : readRange schema pairing ⟨0, text⟩ .term = .ok condition) :
    readRangeWithin schema pairing room ⟨0, text⟩ .term = some (.ok condition) ↔
      nesting text + 1 ≤ room := by
  have enough : nesting text + 1 ≤ room ↔ NestsWithin ((room : Int) - 1) text := by
    cases room with
    | zero =>
        refine iff_of_false (Nat.not_succ_le_zero _) fun nests => ?_
        exact absurd (nests [] List.nil_prefix) (by decide)
    | succ inner =>
        rw [Int.natCast_succ, Int.add_sub_cancel, nestsWithin_iff_nesting_le]
        exact Nat.succ_le_succ_iff
  rw [enough]
  constructor
  · exact nestsWithin_of_readRangeWithin matched
  · intro nests
    have hasOutcome : readRangeWithin schema pairing room ⟨0, text⟩ .term ≠ none :=
      readRangeWithin_ne_none matched nests
    rcases Option.ne_none_iff_exists'.mp hasOutcome with ⟨outcome, found⟩
    rw [found, ← readRange_of_readRangeWithin found, read]

/-! ## The size of a condition -/

namespace Condition

/-- There is one comparison more than there are combinations between them. -/
theorem comparisonCount_eq (condition : Condition) :
    condition.comparisonCount = condition.combinationCount + 1 := by
  induction condition with
  | comparison field comparator value => rfl
  | combination combinator left right ihLeft ihRight =>
      rw [comparisonCount, combinationCount, ihLeft, ihRight]
      omega

theorem height_le (condition : Condition) :
    condition.height ≤ condition.combinationCount + 1 := by
  induction condition with
  | comparison field comparator value => exact Nat.le_refl 1
  | combination combinator left right ihLeft ihRight =>
      rw [height, combinationCount]
      omega

/-- A step to the right is a level of the text. -/
theorem count_right_le_textDepth {condition : Condition} {path : List Branch}
    (member : path ∈ condition.paths) : path.count .right ≤ condition.textDepth := by
  induction condition generalizing path with
  | comparison field comparator value =>
      rw [List.mem_singleton.mp member]
      exact Nat.le_refl 0
  | combination combinator left right ihLeft ihRight =>
      rw [textDepth_combination]
      rcases List.mem_append.mp member with inLeft | inRight
      · rcases List.mem_map.mp inLeft with ⟨rest, onward, rfl⟩
        rw [List.count_cons_of_ne (by decide)]
        exact (ihLeft onward).trans (Nat.le_max_left _ _)
      · rcases List.mem_map.mp inRight with ⟨rest, onward, rfl⟩
        rw [List.count_cons_self, Nat.add_comm]
        exact (Nat.add_le_add_left (ihRight onward) 1).trans (Nat.le_max_right _ _)

end Condition

/-- Each combination of a phrase has a combinator word of its own. -/
theorem Derives.combinationCount_le {phrase : Phrase} {tokens : List Token} {node : Condition}
    (derivation : Derives schema phrase tokens node) :
    node.combinationCount ≤ combinatorTokens tokens := by
  induction derivation with
  | comparison => exact Nat.zero_le _
  | group _ ih =>
      rw [← Token.grouped, combinatorTokens_grouped]
      exact ih
  | single _ ih => exact ih
  | join _ _ ihBefore ihAfter =>
      rw [Condition.combinationCount, combinatorTokens_append, combinatorTokens_combinator]
      omega

/-- The text of a condition nests at most one level deeper than its query. -/
theorem textDepth_le_nesting {query : String} {condition : Condition}
    (compiled : compile schema query = .ok condition) :
    condition.textDepth ≤ nesting (trim query.toList) + 1 := by
  have derivation := (derives_of_compile compiled).2.2
  have nests := nestsWithin_iff_nesting_le.mpr (Nat.le_refl (nesting (trim query.toList)))
  exact Int.ofNat_le.mp (derivation.textDepth_le (nestsWithin_parentheses.mpr nests))

/-- What is accepted is bounded.  A query that compiles nests at most 128 deep, and reading
it takes room for one range more than it nests and no more.  Its condition has at most 512
combinations, and with them at most 513 comparisons and 513 nodes above one another.  Each
way to a comparison goes to the right at most once more than the query nests. -/
theorem compile_within_bounds (schema : Schema) (query : String) (condition : Condition)
    (compiled : compile schema query = .ok condition) :
    nesting (trim query.toList) ≤ 128 ∧
      (∃ pairing, Pairing.ofText (trim query.toList) = .ok pairing ∧
        ∀ room, readRangeWithin schema pairing room ⟨0, trim query.toList⟩ .term =
            some (.ok condition) ↔ nesting (trim query.toList) + 1 ≤ room) ∧
      condition.combinationCount ≤ 512 ∧ condition.comparisonCount ≤ 513 ∧
      condition.height ≤ 513 ∧
      ∀ path ∈ condition.paths,
        path.count .right ≤ nesting (trim query.toList) + 1 ∧ path.count .right ≤ 129 := by
  rcases derives_of_compile compiled with ⟨nests, few, derivation⟩
  have shallow : nesting (trim query.toList) ≤ 128 := nestsWithin_iff_nesting_le.mp nests
  have combinations : condition.combinationCount ≤ 512 := by
    rw [combinatorWords_eq] at few
    exact derivation.combinationCount_le.trans few
  have comparisons := condition.comparisonCount_eq
  have height := condition.height_le
  refine ⟨shallow, ?_, combinations, by omega, by omega, fun path member => ?_⟩
  · rw [compile, compileTrimmed] at compiled
    rcases bind_eq_ok_iff.mp compiled with ⟨pairing, paired, read⟩
    rw [if_neg (Nat.not_lt.mpr few)] at read
    exact ⟨pairing, paired, fun room =>
      readRangeWithin_eq_ok_iff (Pairing.matched_of_ofText paired) read⟩
  · have steps := (Condition.count_right_le_textDepth member).trans (textDepth_le_nesting compiled)
    exact ⟨steps, steps.trans (Nat.succ_le_succ shallow)⟩

/-- Two groups inside one another take room for three ranges, and their comparisons are two
steps to the right. -/
theorem compile_within_bounds_of_groups :
    compile (Schema.ofFields "sample" [("a", .text), ("b", .int32)])
        "a eq x and(a eq y or(b lt 5))" =
        .ok (.combination .conjunction (.comparison "a" .equal (.text "x"))
          (.combination .disjunction (.comparison "a" .equal (.text "y"))
            (.comparison "b" .less (.int32 5)))) ∧
      nesting (trim "a eq x and(a eq y or(b lt 5))".toList) = 2 ∧
      ∃ pairing, ∀ room,
        readRangeWithin (Schema.ofFields "sample" [("a", .text), ("b", .int32)]) pairing room
            ⟨0, trim "a eq x and(a eq y or(b lt 5))".toList⟩ .term =
          some (.ok (.combination .conjunction (.comparison "a" .equal (.text "x"))
            (.combination .disjunction (.comparison "a" .equal (.text "y"))
              (.comparison "b" .less (.int32 5))))) ↔ 3 ≤ room := by
  have compiled : compile (Schema.ofFields "sample" [("a", .text), ("b", .int32)])
      "a eq x and(a eq y or(b lt 5))" =
        .ok (.combination .conjunction (.comparison "a" .equal (.text "x"))
          (.combination .disjunction (.comparison "a" .equal (.text "y"))
            (.comparison "b" .less (.int32 5)))) := by
    decide +kernel
  have nested : nesting (trim "a eq x and(a eq y or(b lt 5))".toList) = 2 := by
    decide +kernel
  rcases (compile_within_bounds _ _ _ compiled).2.1 with ⟨pairing, _, room⟩
  rw [nested] at room
  exact ⟨compiled, nested, pairing, room⟩

end FilterQuery
