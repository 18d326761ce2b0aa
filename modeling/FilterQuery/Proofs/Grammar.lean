import FilterQuery.Proofs.OnePass

namespace FilterQuery

open Text

/-!
# The grammar of filters

A filter is a chain of operands, joined by combinators and read from the left.  An
operand is a comparison, or a chain in parentheses.  `Derives` says this of sequences
of tokens without any state, and gives each derivation the condition that it stands
for.

The reader is not written from this grammar.  It takes any operator behind any left
side and finds out later that the two do not fit, and a comparison behind a
combinator goes through expectations of its own.  What joins the two is `Consumed`: for
each expectation, which tokens of the current range have led to it.  Reading a token
keeps it, and it makes a finished range a chain.  In the other direction a derivation
is a run of the pass.
-/

/-- The two sorts of phrases. -/
inductive Phrase where
  | chain
  | operand
  deriving DecidableEq, Repr

/-- A sequence of tokens is a phrase that stands for a condition. -/
inductive Derives (schema : Schema) : Phrase → List Token → Condition → Prop where
  /-- A field, a comparator, and a literal of the field's kind. -/
  | comparison {field literal : String} {comparator : Comparator} {kind : Kind} {value : Value}
      (known : schema.kind? field = some kind) (valued : kind.valueOf literal = .ok value) :
      Derives schema .operand [.word field, .word comparator.token, .word literal]
        (.comparison field comparator value)
  /-- A chain in parentheses. -/
  | group {tokens : List Token} {node : Condition} (inside : Derives schema .chain tokens node) :
      Derives schema .operand (.opening :: (tokens ++ [.closing])) node
  /-- The first operand of a chain. -/
  | single {tokens : List Token} {node : Condition} (first : Derives schema .operand tokens node) :
      Derives schema .chain tokens node
  /-- A chain goes on with a combinator and one more operand. -/
  | join {before after : List Token} {combinator : Combinator} {left right : Condition}
      (chain : Derives schema .chain before left) (last : Derives schema .operand after right) :
      Derives schema .chain (before ++ .word combinator.token :: after)
        (.combination combinator left right)

/-! ## The words of operators -/

namespace Comparator

theorem ofToken?_eq_some_iff {word : String} {comparator : Comparator} :
    ofToken? word = some comparator ↔ word = comparator.token := by
  constructor
  · intro spelled
    unfold ofToken? at spelled
    split at spelled <;> cases spelled <;> rfl
  · rintro rfl
    exact ofToken?_token comparator

end Comparator

namespace Combinator

theorem ofToken?_eq_some_iff {word : String} {combinator : Combinator} :
    ofToken? word = some combinator ↔ word = combinator.token := by
  constructor
  · intro spelled
    unfold ofToken? at spelled
    split at spelled <;> cases spelled <;> rfl
  · rintro rfl
    exact ofToken?_token combinator

theorem isSome_ofToken? (word : String) :
    (ofToken? word).isSome = decide (word = "and" ∨ word = "or") := by
  unfold ofToken?
  split <;> simp_all

end Combinator

namespace Operator

/-- The word in a query. -/
def token : Operator → String
  | compare comparator => comparator.token
  | combine combinator => combinator.token

theorem ofToken?_token (operator : Operator) : ofToken? operator.token = some operator := by
  cases operator with
  | compare comparator => cases comparator <;> rfl
  | combine combinator => cases combinator <;> rfl

theorem ofToken?_eq_some_iff {word : String} {operator : Operator} :
    ofToken? word = some operator ↔ word = operator.token := by
  constructor
  · intro spelled
    unfold ofToken? at spelled
    split at spelled
    next comparator found =>
      cases spelled
      exact Comparator.ofToken?_eq_some_iff.mp found
    next =>
      rcases Option.map_eq_some_iff.mp spelled with ⟨combinator, found, rfl⟩
      exact Combinator.ofToken?_eq_some_iff.mp found
  · rintro rfl
    exact ofToken?_token operator

end Operator

theorem Schema.contains_of_kind? {schema : Schema} {field : String} {kind : Kind}
    (known : schema.kind? field = some kind) : schema.contains field = true := by
  rw [Schema.contains, Dictionary.contains]
  exact Option.isSome_of_eq_some known

/-! ## A derivation is a run of the pass -/

namespace Expectation

variable {schema : Schema}

theorem operatorOf_token (operator : Operator) :
    operatorOf operator.token = .ok operator := by
  rw [operatorOf, Operator.ofToken?_token]

theorem operatorOf_eq_ok_iff {word : String} {operator : Operator} :
    operatorOf word = .ok operator ↔ word = operator.token := by
  rw [← Operator.ofToken?_eq_some_iff, operatorOf]
  split <;> simp_all

end Expectation

namespace Pass

variable {schema : Schema}

/-- A comparison at the start of a range. -/
theorem steps_comparison {field literal : String} {kind : Kind} {value : Value}
    (known : schema.kind? field = some kind) (valued : kind.valueOf literal = .ok value)
    (comparator : Comparator) (suspended : List Expectation) :
    (⟨.term, suspended⟩ : Pass).steps schema
        [.word field, .word comparator.token, .word literal] =
      .ok ⟨.combinatorOrEnd (.comparison field comparator value), suspended⟩ := by
  have spelled := Expectation.operatorOf_token (.compare comparator)
  rw [Operator.token] at spelled
  simp only [steps_cons, steps_nil, step, Expectation.readWord, Schema.contains_of_kind? known,
    if_true, ok_bind, spelled, map_ok, join, known, valued]

/-- A comparison behind a combinator goes through expectations of its own, and is joined
at once. -/
theorem steps_nested_comparison {field literal : String} {kind : Kind} {value : Value}
    (known : schema.kind? field = some kind) (valued : kind.valueOf literal = .ok value)
    (comparator : Comparator) (combinator : Combinator) (left : Condition)
    (suspended : List Expectation) :
    (⟨.valueOrGroup (.node left) (.combine combinator), suspended⟩ : Pass).steps schema
        [.word field, .word comparator.token, .word literal] =
      .ok ⟨.combinatorOrEnd (.combination combinator left (.comparison field comparator value)),
        suspended⟩ := by
  simp only [steps_cons, steps_nil, step, Expectation.readWord, Schema.contains_of_kind? known,
    if_true, ok_bind, Comparator.ofToken?_token, map_ok, join, known, valued]

/-- A group is read wherever one is admitted, once its inside is. -/
theorem steps_group {expectation next : Expectation} {tokens : List Token} {node : Condition}
    (admits : expectation.admitsGroup = true)
    (inside : ∀ suspended, (⟨.term, suspended⟩ : Pass).steps schema tokens =
      .ok ⟨.combinatorOrEnd node, suspended⟩)
    (read : expectation.readGroup schema node = .ok next) (suspended : List Expectation) :
    (⟨expectation, suspended⟩ : Pass).steps schema (.opening :: (tokens ++ [.closing])) =
      .ok ⟨next, suspended⟩ := by
  rw [steps_cons, step_opening admits, ok_bind, steps_append, inside, ok_bind, steps_cons]
  simp only [step, Expectation.conclude, ok_bind, read, steps_nil]

/-- Reading a derived sequence of tokens finishes its condition at the start of a range,
and an operand also behind a finished condition and a combinator. -/
theorem steps_of_derives {phrase : Phrase} {tokens : List Token} {node : Condition}
    (derivation : Derives schema phrase tokens node) :
    (∀ suspended, (⟨.term, suspended⟩ : Pass).steps schema tokens =
        .ok ⟨.combinatorOrEnd node, suspended⟩) ∧
      (phrase = .operand → ∀ left combinator suspended,
        (⟨.valueOrGroup (.node left) (.combine combinator), suspended⟩ : Pass).steps schema tokens =
          .ok ⟨.combinatorOrEnd (.combination combinator left node), suspended⟩) := by
  induction derivation with
  | comparison known valued =>
      exact ⟨steps_comparison known valued _, fun _ left combinator =>
        steps_nested_comparison known valued _ combinator left⟩
  | group inside ih =>
      exact ⟨steps_group rfl ih.1 rfl, fun _ left combinator => steps_group rfl ih.1 rfl⟩
  | single first ih => exact ⟨ih.1, fun impossible => by cases impossible⟩
  | @join before after combinator left right chain last ihChain ihLast =>
      refine ⟨fun suspended => ?_, fun impossible => by cases impossible⟩
      have spelled := Expectation.operatorOf_token (.combine combinator)
      rw [Operator.token] at spelled
      rw [steps_append, ihChain.1, ok_bind, steps_cons, step]
      simp only [Expectation.readWord, spelled, map_ok, ok_bind]
      exact ihLast.2 rfl left combinator suspended

end Pass

/-! ## What the tokens of a range have led to -/

/-- The tokens that have been read as one side of an operator. -/
def Side.Consumed (schema : Schema) : Side → List Token → Prop
  | .token field, tokens => tokens = [.word field] ∧ schema.contains field = true
  | .node condition, tokens => Derives schema .chain tokens condition

/-- The tokens of a range that have led to an expectation. -/
def Expectation.Consumed (schema : Schema) : Expectation → List Token → Prop
  | .term, tokens => tokens = []
  | .operator field, tokens => tokens = [.word field] ∧ schema.contains field = true
  | .combinatorOrEnd node, tokens => Derives schema .chain tokens node
  | .valueOrGroup left between, tokens =>
    ∃ before, left.Consumed schema before ∧ tokens = before ++ [.word between.token]
  | .nestedComparator left combinator field, tokens =>
    ∃ before, left.Consumed schema before ∧ schema.contains field = true ∧
      tokens = before ++ [.word combinator.token, .word field]
  | .nestedLiteral left combinator field comparator, tokens =>
    ∃ before, left.Consumed schema before ∧ schema.contains field = true ∧
      tokens = before ++ [.word combinator.token, .word field, .word comparator.token]

/-- The tokens in front of the innermost range, when the ranges around it are
suspended. -/
def Suspended (schema : Schema) : List Expectation → List Token → Prop
  | [], tokens => tokens = []
  | outer :: others, tokens =>
    ∃ front within, Suspended schema others front ∧ outer.Consumed schema within ∧
      tokens = front ++ within ++ [.opening]

/-- The tokens that have led to a pass. -/
def Pass.Consumed (schema : Schema) (pass : Pass) (tokens : List Token) : Prop :=
  ∃ front within, Suspended schema pass.suspended front ∧ pass.current.Consumed schema within ∧
    tokens = front ++ within

/-- Two sides that can be joined by a comparator are a field and a literal of its kind. -/
theorem join_compare_eq_ok {schema : Schema} {left right : Side} {comparator : Comparator}
    {node : Condition} (joined : join schema left (.compare comparator) right = .ok node) :
    ∃ field literal kind value, left = .token field ∧ right = .token literal ∧
      schema.kind? field = some kind ∧ kind.valueOf literal = .ok value ∧
      node = .comparison field comparator value := by
  unfold join at joined
  split at joined
  next field comparator' literal sameOperator =>
    cases sameOperator
    split at joined
    · cases joined
    next kind known =>
      rcases map_eq_ok_iff.mp joined with ⟨value, valued, rfl⟩
      exact ⟨field, literal, kind, value, rfl, rfl, known, valued, rfl⟩
  next sameOperator => cases sameOperator
  next => cases joined
  next => cases joined

/-- Two sides that can be joined by a combinator are finished conditions. -/
theorem join_combine_eq_ok {schema : Schema} {left right : Side} {combinator : Combinator}
    {node : Condition} (joined : join schema left (.combine combinator) right = .ok node) :
    ∃ first second, left = .node first ∧ right = .node second ∧
      node = .combination combinator first second := by
  unfold join at joined
  split at joined
  next sameOperator => cases sameOperator
  next first combinator' second sameOperator =>
    cases sameOperator
    cases joined
    exact ⟨first, second, rfl, rfl, rfl⟩
  next => cases joined
  next => cases joined

namespace Expectation

variable {schema : Schema}

/-- A word that is read belongs to what has led to the next expectation. -/
theorem consumed_readWord {expectation next : Expectation} {word : String} {tokens : List Token}
    (consumed : expectation.Consumed schema tokens)
    (read : expectation.readWord schema word = .ok next) :
    next.Consumed schema (tokens ++ [.word word]) := by
  cases expectation with
  | term =>
      cases consumed
      rw [readWord] at read
      split at read
      next known =>
        cases read
        exact ⟨rfl, known⟩
      next => cases read
  | operator field =>
      rcases consumed with ⟨rfl, known⟩
      rw [readWord] at read
      rcases map_eq_ok_iff.mp read with ⟨between, spelled, rfl⟩
      rw [operatorOf_eq_ok_iff.mp spelled]
      exact ⟨[.word field], ⟨rfl, known⟩, rfl⟩
  | combinatorOrEnd node =>
      rw [readWord] at read
      rcases map_eq_ok_iff.mp read with ⟨between, spelled, rfl⟩
      rw [operatorOf_eq_ok_iff.mp spelled]
      exact ⟨tokens, consumed, rfl⟩
  | valueOrGroup left between =>
      rcases consumed with ⟨before, side, rfl⟩
      cases between with
      | compare comparator =>
          rw [readWord] at read
          rcases map_eq_ok_iff.mp read with ⟨node, joined, rfl⟩
          rcases join_compare_eq_ok joined with
            ⟨field, literal, kind, value, rfl, same, known, valued, rfl⟩
          cases same
          rcases side with ⟨rfl, _⟩
          exact .single (.comparison known valued)
      | combine combinator =>
          rw [readWord] at read
          split at read
          next known =>
            cases read
            exact ⟨before, side, known, List.append_assoc _ _ _⟩
          next => cases read
  | nestedComparator left combinator field =>
      rcases consumed with ⟨before, side, known, rfl⟩
      rw [readWord] at read
      split at read
      next comparator spelled =>
        cases read
        rw [Comparator.ofToken?_eq_some_iff.mp spelled]
        exact ⟨before, side, known, List.append_assoc _ _ _⟩
      next => cases read
  | nestedLiteral left combinator field comparator =>
      rcases consumed with ⟨before, side, known, rfl⟩
      rw [readWord, bind_eq_ok_iff] at read
      rcases read with ⟨inner, joinedInner, read⟩
      rcases bind_eq_ok_iff.mp read with ⟨node, joined, same⟩
      cases same
      rcases join_compare_eq_ok joinedInner with
        ⟨field', literal, kind, value, sameField, sameLiteral, kinded, valued, rfl⟩
      cases sameField
      cases sameLiteral
      rcases join_combine_eq_ok joined with ⟨first, second, rfl, sameInner, rfl⟩
      cases sameInner
      rw [List.append_assoc]
      exact .join side (.comparison kinded valued)

/-- A group that is read belongs to what has led to the next expectation. -/
theorem consumed_readGroup {expectation next : Expectation} {node : Condition}
    {tokens inside : List Token} (consumed : expectation.Consumed schema tokens)
    (derivation : Derives schema .chain inside node)
    (read : expectation.readGroup schema node = .ok next) :
    next.Consumed schema (tokens ++ .opening :: (inside ++ [.closing])) := by
  cases expectation with
  | term =>
      cases consumed
      cases read
      exact .single (.group derivation)
  | valueOrGroup left between =>
      rcases consumed with ⟨before, side, rfl⟩
      rw [readGroup] at read
      rcases map_eq_ok_iff.mp read with ⟨joint, joined, rfl⟩
      cases between with
      | compare comparator =>
          rcases join_compare_eq_ok joined with ⟨_, _, _, _, _, impossible, _⟩
          cases impossible
      | combine combinator =>
          rcases join_combine_eq_ok joined with ⟨first, second, rfl, same, rfl⟩
          cases same
          rw [List.append_assoc]
          exact .join side (.group derivation)
  | operator field => cases read
  | combinatorOrEnd node => cases read
  | nestedComparator left combinator field => cases read
  | nestedLiteral left combinator field comparator => cases read

/-- A range that ends is a chain. -/
theorem derives_of_conclude {expectation : Expectation} {node : Condition} {tokens : List Token}
    (consumed : expectation.Consumed schema tokens)
    (concluded : expectation.conclude = .ok node) : Derives schema .chain tokens node := by
  cases expectation with
  | combinatorOrEnd found =>
      cases concluded
      exact consumed
  | term => cases concluded
  | operator field => cases concluded
  | valueOrGroup left between => cases concluded
  | nestedComparator left combinator field => cases concluded
  | nestedLiteral left combinator field comparator => cases concluded

end Expectation

namespace Pass

variable {schema : Schema}

theorem consumed_start : start.Consumed schema [] :=
  ⟨[], [], rfl, rfl, rfl⟩

/-- A token that is read belongs to what has led to the pass behind it. -/
theorem consumed_step {pass next : Pass} {token : Token} {tokens : List Token}
    (consumed : pass.Consumed schema tokens) (stepped : pass.step schema token = .ok next) :
    next.Consumed schema (tokens ++ [token]) := by
  rcases consumed with ⟨front, within, suspended, current, rfl⟩
  cases token with
  | word text =>
      rcases bind_eq_ok_iff.mp stepped with ⟨expectation, read, same⟩
      cases same
      exact ⟨front, within ++ [.word text], suspended,
        Expectation.consumed_readWord current read, List.append_assoc _ _ _⟩
  | opening =>
      rw [step] at stepped
      split at stepped
      · cases stepped
        exact ⟨front ++ within ++ [.opening], [], ⟨front, within, suspended, current, rfl⟩, rfl,
          (List.append_nil _).symm⟩
      · cases stepped
  | closing =>
      rcases bind_eq_ok_iff.mp stepped with ⟨node, concluded, stepped⟩
      have derivation := Expectation.derives_of_conclude current concluded
      split at stepped
      next => cases stepped
      next outer others waiting =>
        rcases bind_eq_ok_iff.mp stepped with ⟨expectation, read, same⟩
        cases same
        rw [waiting] at suspended
        rcases suspended with ⟨outerFront, outerWithin, outerSuspended, outerCurrent, rfl⟩
        refine ⟨outerFront, outerWithin ++ .opening :: (within ++ [.closing]), outerSuspended,
          Expectation.consumed_readGroup outerCurrent derivation read, ?_⟩
        simp only [List.append_assoc, List.cons_append, List.nil_append]

/-- All tokens of a run belong to what has led to its end. -/
theorem consumed_steps {pass reached : Pass} {before tokens : List Token}
    (consumed : pass.Consumed schema before) (stepped : pass.steps schema tokens = .ok reached) :
    reached.Consumed schema (before ++ tokens) := by
  induction tokens generalizing pass before with
  | nil =>
      cases stepped
      rw [List.append_nil]
      exact consumed
  | cons token rest ih =>
      rw [steps_cons] at stepped
      rcases bind_eq_ok_iff.mp stepped with ⟨next, first, others⟩
      have agree := ih (consumed_step consumed first) others
      rw [List.append_assoc] at agree
      exact agree

/-- The pass accepts exactly the chains, and finds the condition of a chain. -/
theorem run_eq_ok_iff {tokens : List Token} {node : Condition} :
    run schema tokens = .ok node ↔ Derives schema .chain tokens node := by
  constructor
  · intro ran
    rcases bind_eq_ok_iff.mp ran with ⟨reached, stepped, finished⟩
    rcases consumed_steps consumed_start stepped with ⟨front, within, suspended, current, same⟩
    rcases bind_eq_ok_iff.mp finished with ⟨found, concluded, nothing⟩
    split at nothing
    next none =>
      cases nothing
      rw [none] at suspended
      cases suspended
      rw [List.nil_append, List.nil_append] at same
      rw [same]
      exact Expectation.derives_of_conclude current concluded
    next => cases nothing
  · intro derivation
    rw [run, start, (steps_of_derives derivation).1, ok_bind]
    rfl

end Pass

/-- A sequence of tokens stands for one condition at most. -/
theorem Derives.unique {schema : Schema} {tokens : List Token} {first second : Condition}
    (derivation : Derives schema .chain tokens first)
    (other : Derives schema .chain tokens second) : first = second := by
  have ran := Pass.run_eq_ok_iff.mpr derivation
  rw [Pass.run_eq_ok_iff.mpr other] at ran
  exact (Except.ok.inj ran).symm

/-- The parentheses of a phrase are balanced. -/
theorem Derives.balanced {schema : Schema} {phrase : Phrase} {tokens : List Token}
    {node : Condition} (derivation : Derives schema phrase tokens node) :
    Balanced (tokens.flatMap Token.parentheses) := by
  induction derivation with
  | comparison => exact balanced_nil
  | group _ ih =>
      rw [List.flatMap_cons, List.flatMap_append]
      exact ih.parenthesised
  | single _ ih => exact ih
  | join _ _ ihBefore ihAfter =>
      rw [List.flatMap_append, List.flatMap_cons]
      exact ihBefore.append ihAfter

/-- A text whose tokens are a chain is balanced. -/
theorem balanced_of_derives {schema : Schema} {text : List Char} {node : Condition}
    (derivation : Derives schema .chain (Token.ofText text) node) : Balanced text :=
  balanced_parentheses.mp derivation.balanced

/-- The words that count against the limit are the words "and" and "or". -/
theorem combinatorWords_eq (text : List Char) :
    combinatorWords text =
      (Token.ofText text).countP fun token => token = .word "and" ∨ token = .word "or" := by
  rw [combinatorWords, words_eq_filterMap_ofText, List.countP_filterMap]
  apply List.countP_congr
  intro token _
  cases token with
  | word text => simp [Token.word?, Combinator.isSome_ofToken?]
  | opening => simp [Token.word?]
  | closing => simp [Token.word?]

/-- A query that compiles is within both limits, and its tokens are a chain that stands
for the condition. -/
theorem derives_of_compile {schema : Schema} {query : String} {condition : Condition}
    (compiled : compile schema query = .ok condition) :
    NestsWithin Pairing.nestingLimit (trim query.toList) ∧
      combinatorWords (trim query.toList) ≤ combinatorLimit ∧
      Derives schema .chain (Token.ofText (trim query.toList)) condition := by
  rw [compile, compileTrimmed] at compiled
  rcases bind_eq_ok_iff.mp compiled with ⟨pairing, paired, read⟩
  split at read
  next => cases read
  next few =>
    have nests := (Pairing.exists_ofText_iff.mp ⟨pairing, paired⟩).2
    rw [Pass.readRange_eq_run (Pairing.matched_of_ofText paired)] at read
    exact ⟨nests, Nat.not_lt.mp few, Pass.run_eq_ok_iff.mp read⟩

theorem compile_of_derives {schema : Schema} {query : String} {condition : Condition}
    (nests : NestsWithin Pairing.nestingLimit (trim query.toList))
    (few : combinatorWords (trim query.toList) ≤ combinatorLimit)
    (derivation : Derives schema .chain (Token.ofText (trim query.toList)) condition) :
    compile schema query = .ok condition := by
  rcases Pairing.exists_ofText_iff.mpr ⟨balanced_of_derives derivation, nests⟩ with
    ⟨pairing, paired⟩
  rw [compile_eq_run_of_ofText paired few]
  exact Pass.run_eq_ok_iff.mpr derivation

/-- Compiling accepts exactly the chains within the two limits, and gives the one
condition that a chain stands for. -/
theorem compile_eq_ok_iff_derives (schema : Schema) (query : String) (condition : Condition) :
    (compile schema query = .ok condition ↔
      NestsWithin 128 (trim query.toList) ∧
        ((Token.ofText (trim query.toList)).countP fun token =>
          token = .word "and" ∨ token = .word "or") ≤ 512 ∧
        Derives schema .chain (Token.ofText (trim query.toList)) condition) ∧
      ∀ other, Derives schema .chain (Token.ofText (trim query.toList)) condition →
        Derives schema .chain (Token.ofText (trim query.toList)) other → other = condition := by
  refine ⟨?_, fun other derivation otherDerivation => otherDerivation.unique derivation⟩
  rw [← combinatorWords_eq]
  constructor
  · intro compiled
    exact derives_of_compile compiled
  · rintro ⟨nests, few, derivation⟩
    exact compile_of_derives nests few derivation

end FilterQuery
