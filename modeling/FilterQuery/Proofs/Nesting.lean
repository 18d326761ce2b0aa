import Mathlib.Data.List.Infix
import FilterQuery.Pairing
import FilterQuery.Proofs.Token

namespace FilterQuery

open Text

/-!
# Depth, balance and nesting

The depth of a text is the number of parentheses that it opens less the number of
those that it closes.  A text is balanced if no initial part of it closes more than
it opens and the whole closes what it opens.  How deeply a text nests is said by a
bound on the same depths from above.

Both are statements about the depths of all initial parts, and the lemmas on how
those depths arise from the parts of a text are proved once, for any property of a
depth.  Only parentheses count, so that a text and its sequence of tokens agree on
everything said here.

Pairing succeeds exactly on the balanced texts that nest within its limit.
-/

/-- The parentheses that a text opens, less those that it closes. -/
def depth (text : List Char) : Int :=
  text.count '(' - text.count ')'

/-- Behind each initial part of the text, the empty and the whole one included, the
depth has a property. -/
def EveryDepth (property : Int → Prop) (text : List Char) : Prop :=
  ∀ initial, initial <+: text → property (depth initial)

/-- Every closing parenthesis has an opening one before it, and the other way
round. -/
def Balanced (text : List Char) : Prop :=
  EveryDepth (fun reached => 0 ≤ reached) text ∧ depth text = 0

/-- At no place of the text are more parentheses open than the limit allows. -/
def NestsWithin (limit : Int) (text : List Char) : Prop :=
  EveryDepth (fun reached => reached ≤ limit) text

instance (property : Int → Prop) [DecidablePred property] (text : List Char) :
    Decidable (EveryDepth property text) :=
  decidable_of_iff (∀ initial ∈ text.inits, property (depth initial))
    (forall_congr' fun initial => by rw [List.mem_inits])

instance (text : List Char) : Decidable (Balanced text) :=
  inferInstanceAs (Decidable (_ ∧ _))

instance (limit : Int) (text : List Char) : Decidable (NestsWithin limit text) :=
  inferInstanceAs (Decidable (EveryDepth (fun reached => reached ≤ limit) text))

/-- A parenthesis of either sort. -/
def isParenthesis (c : Char) : Bool :=
  c == '(' || c == ')'

theorem isParenthesis_cases (c : Char) : c = '(' ∨ c = ')' ∨ isParenthesis c = false := by
  by_cases isOpening : c = '('
  · exact Or.inl isOpening
  · by_cases isClosing : c = ')'
    · exact Or.inr (Or.inl isClosing)
    · exact Or.inr (Or.inr (by simp [isParenthesis, isOpening, isClosing]))

/-! ## Depths -/

@[simp]
theorem depth_nil : depth [] = 0 := rfl

theorem depth_append (first second : List Char) :
    depth (first ++ second) = depth first + depth second := by
  simp only [depth, List.count_append]
  omega

theorem depth_cons (c : Char) (rest : List Char) :
    depth (c :: rest) = depth [c] + depth rest :=
  depth_append [c] rest

@[simp]
theorem depth_opening : depth ['('] = 1 := by decide

@[simp]
theorem depth_closing : depth [')'] = -1 := by decide

/-- Only parentheses count. -/
theorem depth_filter (text : List Char) : depth (text.filter isParenthesis) = depth text := by
  simp only [depth, List.count_filter (show isParenthesis '(' = true by decide),
    List.count_filter (show isParenthesis ')' = true by decide)]

theorem depth_eq_zero_of_filter {text : List Char} (none : text.filter isParenthesis = []) :
    depth text = 0 := by
  rw [← depth_filter, none, depth_nil]

theorem depth_other {c : Char} (other : isParenthesis c = false) : depth [c] = 0 :=
  depth_eq_zero_of_filter (by simp [other])

/-! ## Depths of initial parts -/

theorem everyDepth_nil {property : Int → Prop} : EveryDepth property [] ↔ property 0 := by
  constructor
  · intro every
    exact every [] (List.prefix_refl [])
  · intro atZero initial isInitial
    rw [List.prefix_nil.mp isInitial]
    exact atZero

theorem everyDepth_cons {property : Int → Prop} {c : Char} {rest : List Char} :
    EveryDepth property (c :: rest) ↔
      property 0 ∧ EveryDepth (fun reached => property (depth [c] + reached)) rest := by
  constructor
  · intro every
    refine ⟨every [] List.nil_prefix, fun initial isInitial => ?_⟩
    show property (depth [c] + depth initial)
    rw [← depth_cons]
    exact every (c :: initial) (List.cons_prefix_cons.mpr ⟨rfl, isInitial⟩)
  · rintro ⟨atZero, every⟩ initial isInitial
    rcases List.prefix_cons_iff.mp isInitial with rfl | ⟨shorter, rfl, isShorter⟩
    · exact atZero
    · rw [depth_cons]
      exact every shorter isShorter

theorem everyDepth_append {property : Int → Prop} {first second : List Char} :
    EveryDepth property (first ++ second) ↔
      EveryDepth property first ∧
        EveryDepth (fun reached => property (depth first + reached)) second := by
  induction first generalizing property with
  | nil =>
      simp only [List.nil_append, depth_nil, Int.zero_add, everyDepth_nil]
      exact ⟨fun every => ⟨every [] List.nil_prefix, every⟩, And.right⟩
  | cons c rest ih =>
      rw [List.cons_append, everyDepth_cons, everyDepth_cons, ih, depth_cons c rest]
      simp only [Int.add_assoc, and_assoc]

/-- Only parentheses matter to the depths of initial parts. -/
theorem everyDepth_filter {property : Int → Prop} {text : List Char} :
    EveryDepth property (text.filter isParenthesis) ↔ EveryDepth property text := by
  constructor
  · intro every initial isInitial
    rw [← depth_filter]
    exact every _ (isInitial.filter isParenthesis)
  · intro every initial isInitial
    rcases List.prefix_filter_iff.mp isInitial with ⟨whole, isWhole, rfl⟩
    rw [depth_filter]
    exact every whole isWhole

/-! ## Balanced texts -/

theorem balanced_nil : Balanced [] :=
  ⟨everyDepth_nil.mpr (Int.le_refl 0), depth_nil⟩

theorem Balanced.append {first second : List Char} (left : Balanced first)
    (right : Balanced second) : Balanced (first ++ second) := by
  refine ⟨everyDepth_append.mpr ⟨left.1, ?_⟩, ?_⟩
  · simpa only [left.2, Int.zero_add] using right.1
  · rw [depth_append, left.2, right.2, Int.zero_add]

theorem Balanced.parenthesised {inside : List Char} (balanced : Balanced inside) :
    Balanced ('(' :: (inside ++ [')'])) := by
  refine ⟨everyDepth_cons.mpr ⟨Int.le_refl 0, everyDepth_append.mpr ⟨?_, ?_⟩⟩, ?_⟩
  · intro initial isInitial
    have atLeast := balanced.1 initial isInitial
    rw [depth_opening]
    omega
  · rw [everyDepth_cons, everyDepth_nil, balanced.2, depth_opening, depth_closing]
    omega
  · rw [depth_cons, depth_append, balanced.2, depth_opening, depth_closing]
    rfl

theorem balanced_filter {text : List Char} :
    Balanced (text.filter isParenthesis) ↔ Balanced text := by
  rw [Balanced, Balanced, everyDepth_filter, depth_filter]

/-! ## Texts within a limit -/

/-- Parentheses around a balanced text take one level. -/
theorem nestsWithin_parenthesised {limit : Int} {inside : List Char} (balanced : Balanced inside) :
    NestsWithin limit ('(' :: (inside ++ [')'])) ↔ NestsWithin (limit - 1) inside := by
  rw [NestsWithin, everyDepth_cons, everyDepth_append, everyDepth_cons, everyDepth_nil,
    balanced.2, depth_opening, depth_closing, NestsWithin]
  constructor
  · rintro ⟨_, every, _⟩ initial isInitial
    have bounded := every initial isInitial
    omega
  · intro every
    have atZero := every [] List.nil_prefix
    rw [depth_nil] at atZero
    refine ⟨by omega, ?_, by omega, by omega⟩
    intro initial isInitial
    have bounded := every initial isInitial
    omega

theorem nestsWithin_append {limit : Int} {first second : List Char} (balanced : Balanced first) :
    NestsWithin limit (first ++ second) ↔ NestsWithin limit first ∧ NestsWithin limit second := by
  simp only [NestsWithin, everyDepth_append, balanced.2, Int.zero_add]

theorem nestsWithin_nil {limit : Int} : NestsWithin limit [] ↔ 0 ≤ limit := by
  rw [NestsWithin, everyDepth_nil]

/-! ## The parentheses among the tokens -/

theorem filter_isParenthesis_takeWhile (text : List Char) :
    (text.takeWhile fun next => !isDelimiter next).filter isParenthesis = [] := by
  rw [List.filter_eq_nil_iff]
  intro c member
  have inWord := List.all_eq_true.mp List.all_takeWhile c member
  simp only [isDelimiter, Bool.not_or, Bool.and_eq_true, Bool.not_eq_true'] at inWord
  simp only [isParenthesis, inWord.1.2, inWord.2, Bool.or_self, Bool.false_eq_true,
    not_false_eq_true]

/-- A text and its tokens have the same parentheses in the same order. -/
theorem filter_isParenthesis_eq (text : List Char) :
    text.filter isParenthesis = (Token.ofText text).flatMap Token.parentheses := by
  fun_induction Token.ofText text with
  | case1 => rfl
  | case2 c rest blank ih =>
      rw [← ih, List.filter_cons_of_neg]
      intro parenthesis
      rcases Bool.or_eq_true_iff.mp parenthesis with same | same <;>
        rw [beq_iff_eq.mp same] at blank <;> exact absurd blank (by decide)
  | case3 rest _ ih =>
      rw [List.filter_cons_of_pos (by decide), ih]
      rfl
  | case4 rest _ _ ih =>
      rw [List.filter_cons_of_pos (by decide), ih]
      rfl
  | case5 c rest notBlank notOpening notClosing ih =>
      rw [List.filter_cons_of_neg (by simp [isParenthesis, notOpening, notClosing]),
        List.flatMap_cons, ← ih, Token.parentheses, List.nil_append]
      conv => lhs; rw [← List.takeWhile_append_dropWhile
        (p := fun next => !isDelimiter next) (l := rest)]
      rw [List.filter_append, filter_isParenthesis_takeWhile, List.nil_append]

/-- The parentheses of its tokens decide whether a text is balanced. -/
theorem balanced_parentheses {text : List Char} :
    Balanced ((Token.ofText text).flatMap Token.parentheses) ↔ Balanced text := by
  rw [← filter_isParenthesis_eq, balanced_filter]

/-- They also decide how deeply it nests. -/
theorem nestsWithin_parentheses {limit : Int} {text : List Char} :
    NestsWithin limit ((Token.ofText text).flatMap Token.parentheses) ↔ NestsWithin limit text := by
  rw [← filter_isParenthesis_eq]
  exact everyDepth_filter

/-- The parentheses of tokens between parentheses. -/
theorem parentheses_grouped (tokens : List Token) :
    (Token.grouped tokens).flatMap Token.parentheses =
      '(' :: (tokens.flatMap Token.parentheses ++ [')']) := by
  rw [Token.grouped, List.flatMap_cons, List.flatMap_append]
  rfl

end FilterQuery
