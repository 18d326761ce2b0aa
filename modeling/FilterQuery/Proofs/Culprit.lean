import FilterQuery.Proofs.Grammar

namespace FilterQuery

open Text

/-!
# What a rejection blames

A rejection names a place or a word of the query, and what it says of that place or word is
true.  An offset is that of a parenthesis without partner, an unknown word stands in the
query, and a literal that was refused stands behind a field and a comparator that ask for
another sort of literal.

A parenthesis is blamed by the pairing alone.  Whatever pairing refuses is refused before
any word is looked at, and no later step blames a parenthesis.  Everything else is blamed
by the pass over the tokens, where `Consumed` already says which tokens have led to a
refusal.  An empty group is the one case in which that is not enough: the parenthesis in
front of a closing one has to belong to the query, and it does because as many ranges are
suspended as parentheses are open.
-/

/-- A parenthesis without partner stands at an offset.  It is the first closing one that
lacks a partner, behind a text that is balanced.  If there is none, it is the last opening
one that lacks a partner, and what follows it is balanced. -/
def LacksPartner (text : List Char) (offset : Nat) : Prop :=
  (∃ before after, text = before ++ ')' :: after ∧ byteLength before = offset ∧
      Balanced before) ∨
    EveryDepth (fun reached => 0 ≤ reached) text ∧
      ∃ before after, text = before ++ '(' :: after ∧ byteLength before = offset ∧ Balanced after

/-- A group of a text holds nothing but blanks. -/
def HasEmptyGroup (text : List Char) : Prop :=
  ∃ before blanks after, text = before ++ '(' :: (blanks ++ ')' :: after) ∧
    ∀ c ∈ blanks, isBlank c = true

/-- What a rejection says of the text that it rejects. -/
def Rejection.Blames (schema : Schema) (text : List Char) : Rejection → Prop
  | .unbalancedParenthesis offset => LacksPartner text offset
  | .emptyQuery =>
    (words text = [] ∧ ∀ c ∈ text, isParenthesis c = false) ∨ HasEmptyGroup text
  | .unknownTerm word => word ∈ words text ∧ schema.contains word = false
  | .unknownOperand word =>
    word ∈ words text ∧ ∀ comparator : Comparator, word ≠ comparator.token
  | .invalidExpression _ => True
  | .invalidValue literal kind =>
    ∃ before field comparator after,
      words text = before ++ field :: Comparator.token comparator :: literal :: after ∧
        schema.kind? field = some kind ∧ kind.valueOf literal = .error (.invalidValue literal kind)

/-! ## Parentheses without partner -/

/-- Behind a number of open parentheses, a text never closes more than are open. -/
def StaysOpen (level : Nat) (text : List Char) : Prop :=
  EveryDepth (fun reached => 0 ≤ level + reached) text

/-- Behind a number of open parentheses, a text closes just those and what it opens. -/
def Closes (level : Nat) (text : List Char) : Prop :=
  StaysOpen level text ∧ level + depth text = 0

theorem staysOpen_nil (level : Nat) : StaysOpen level [] :=
  everyDepth_nil.mpr (by omega)

/-- One character changes how many parentheses are open before the rest. -/
theorem staysOpen_cons {level next : Nat} {c : Char} {rest : List Char}
    (counted : level + depth [c] = next) : StaysOpen level (c :: rest) ↔ StaysOpen next rest := by
  rw [StaysOpen, everyDepth_cons, StaysOpen]
  simp only [← Int.add_assoc, counted]
  exact and_iff_right (by omega)

theorem closes_nil_iff {level : Nat} : Closes level [] ↔ level = 0 := by
  rw [Closes, depth_nil, and_iff_right (staysOpen_nil level)]
  omega

theorem closes_cons {level next : Nat} {c : Char} {rest : List Char}
    (counted : level + depth [c] = next) : Closes level (c :: rest) ↔ Closes next rest := by
  rw [Closes, staysOpen_cons counted, depth_cons, ← Int.add_assoc, counted, Closes]

theorem closes_zero_iff {text : List Char} : Closes 0 text ↔ Balanced text := by
  simp only [Closes, StaysOpen, Int.natCast_zero, Int.zero_add, Balanced]

/-- Where pairing stops for want of a partner, when the parentheses in `waiting` are open. -/
inductive Stray (waiting : List Nat) (offset : Nat) (text : List Char) (place : Nat) : Prop
  /-- A closing parenthesis, behind a text that closes all that are open. -/
  | closing (before after : List Char) (split : text = before ++ ')' :: after)
      (located : offset + byteLength before = place) (closes : Closes waiting.length before)
  /-- An opening parenthesis of the text, before a text that is balanced. -/
  | opening (before after : List Char) (split : text = before ++ '(' :: after)
      (located : offset + byteLength before = place) (stays : StaysOpen waiting.length text)
      (closes : Closes 0 after)
  /-- One that was open before, as many levels out as the text closes. -/
  | outer (level : Nat) (waits : waiting[level]? = some place) (stays : StaysOpen waiting.length text)
      (closes : Closes level text)

/-- A character in front keeps the closing parenthesis and the opening one that the rest has.
Where the rest leaves an outer one open, it depends on the character which one that is. -/
theorem Stray.cons {waiting next : List Nat} {offset place : Nat} {c : Char} {rest : List Char}
    (counted : (waiting.length : Int) + depth [c] = next.length)
    (stray : Stray next (offset + c.utf8Size) rest place)
    (ofOuter : ∀ level : Nat, next[level]? = some place → StaysOpen waiting.length (c :: rest) →
      Closes level rest → Stray waiting offset (c :: rest) place) :
    Stray waiting offset (c :: rest) place := by
  have moved : ∀ before, offset + byteLength (c :: before) =
      offset + c.utf8Size + byteLength before := by
    intro before
    rw [byteLength, Nat.add_assoc]
  cases stray with
  | closing before after split located closes =>
      exact .closing (c :: before) after (by rw [split, List.cons_append])
        ((moved before).trans located) ((closes_cons counted).mpr closes)
  | opening before after split located stays closes =>
      exact .opening (c :: before) after (by rw [split, List.cons_append])
        ((moved before).trans located) ((staysOpen_cons counted).mpr stays) closes
  | outer level waits stays closes =>
      exact ofOuter level waits ((staysOpen_cons counted).mpr stays) closes

namespace Pairing

/-- Pairing blames a parenthesis only where one lacks a partner. -/
theorem stray_of_pairFrom {offset place : Nat} {waiting : List Nat} {found : Pairing}
    {text : List Char}
    (refused : pairFrom offset waiting found text = .error (.unbalancedParenthesis place)) :
    Stray waiting offset text place := by
  induction text generalizing offset waiting found with
  | nil =>
      cases waiting with
      | nil => cases refused
      | cons first others =>
          cases refused
          exact .outer 0 rfl (staysOpen_nil _) (closes_nil_iff.mpr rfl)
  | cons c rest ih =>
      rcases isParenthesis_cases c with rfl | rfl | other
      · have counted : (waiting.length : Int) + depth ['('] = (offset :: waiting).length := by
          rw [depth_opening, List.length_cons, Int.natCast_add, Int.natCast_one]
        rw [pairFrom_opening] at refused
        split at refused
        · cases refused
        · refine Stray.cons counted (ih refused) ?_
          intro level waits stays closes
          cases level with
          | zero =>
              rcases Option.some.inj waits with rfl
              exact .opening [] rest rfl rfl stays closes
          | succ level =>
              refine .outer level waits stays ((closes_cons ?_).mpr closes)
              rw [depth_opening, Int.natCast_add, Int.natCast_one]
      · cases waiting with
        | nil =>
            rw [pairFrom_closing_nil] at refused
            cases refused
            exact .closing [] rest rfl rfl (closes_nil_iff.mpr rfl)
        | cons first others =>
            have counted : ∀ count : Nat, ((count + 1 : Nat) : Int) + depth [')'] = count := by
              intro count
              rw [depth_closing]
              omega
            rw [pairFrom_closing_cons] at refused
            refine Stray.cons (counted others.length) (ih refused) ?_
            intro level waits stays closes
            exact .outer (level + 1) waits stays ((closes_cons (counted level)).mpr closes)
      · have weightless : ∀ count : Nat, (count : Int) + depth [c] = count := by
          intro count
          rw [depth_other other, Int.add_zero]
        rw [pairFrom_other other] at refused
        refine Stray.cons (weightless waiting.length) (ih refused) ?_
        intro level waits stays closes
        exact .outer level waits stays ((closes_cons (weightless level)).mpr closes)

theorem lacksPartner_of_ofText {text : List Char} {place : Nat}
    (refused : ofText text = .error (.unbalancedParenthesis place)) : LacksPartner text place := by
  cases stray_of_pairFrom refused with
  | closing before after split located closes =>
      rw [Nat.zero_add] at located
      exact .inl ⟨before, after, split, located, closes_zero_iff.mp closes⟩
  | opening before after split located stays closes =>
      rw [Nat.zero_add] at located
      simp only [StaysOpen, List.length_nil, Int.natCast_zero, Int.zero_add] at stays
      exact .inr ⟨stays, before, after, split, located, closes_zero_iff.mp closes⟩
  | outer level waits => cases waits

end Pairing

/-! ## Tokens -/

/-- What a rejection says of a sequence of tokens.  No token is blamed for a parenthesis
without partner. -/
def Rejection.BlamesToken (schema : Schema) (tokens : List Token) : Rejection → Prop
  | .unbalancedParenthesis _ => False
  | .emptyQuery => tokens = [] ∨ [.opening, .closing] <:+: tokens
  | .unknownTerm word => .word word ∈ tokens ∧ schema.contains word = false
  | .unknownOperand word => .word word ∈ tokens ∧ ∀ comparator : Comparator, word ≠ comparator.token
  | .invalidExpression _ => True
  | .invalidValue literal kind =>
    ∃ field comparator,
      [.word field, .word (Comparator.token comparator), .word literal] <:+: tokens ∧
        schema.kind? field = some kind ∧ kind.valueOf literal = .error (.invalidValue literal kind)

variable {schema : Schema}

/-- What is said of some tokens is said of them among others. -/
theorem Rejection.BlamesToken.among {tokens whole : List Token} {rejection : Rejection}
    (blames : rejection.BlamesToken schema tokens) (nonempty : tokens ≠ [])
    (within : tokens <:+: whole) : rejection.BlamesToken schema whole := by
  cases rejection with
  | unbalancedParenthesis offset => exact blames
  | emptyQuery => exact .inr ((blames.resolve_left nonempty).trans within)
  | unknownTerm word => exact ⟨within.subset blames.1, blames.2⟩
  | unknownOperand word => exact ⟨within.subset blames.1, blames.2⟩
  | invalidExpression fault => trivial
  | invalidValue literal kind =>
      rcases blames with ⟨field, comparator, consecutive, refused⟩
      exact ⟨field, comparator, consecutive.trans within, refused⟩

/-! ## Words -/

/-- Two sides are refused for their shape, or else for the literal of a comparison. -/
theorem join_eq_error {left right : Side} {between : Operator} {rejection : Rejection}
    (refused : join schema left between right = .error rejection) :
    (∃ fault, rejection = .invalidExpression fault) ∨
      ∃ field comparator literal kind, left = .token field ∧ between = .compare comparator ∧
        right = .token literal ∧ schema.kind? field = some kind ∧
          kind.valueOf literal = .error rejection := by
  unfold join at refused
  split at refused
  next field comparator literal =>
    split at refused
    next =>
      cases refused
      exact .inl ⟨_, rfl⟩
    next kind known =>
      exact .inr ⟨field, comparator, literal, kind, rfl, rfl, rfl, known,
        map_eq_error_iff.mp refused⟩
  next => cases refused
  next =>
    cases refused
    exact .inl ⟨_, rfl⟩
  next =>
    cases refused
    exact .inl ⟨_, rfl⟩

/-- A comparison is refused for its shape, or for a literal that stands behind its field and
its comparator. -/
theorem blamesToken_join {left : Side} {comparator : Comparator} {word : String}
    {rejection : Rejection} {tokens : List Token}
    (refused : join schema left (.compare comparator) (.token word) = .error rejection)
    (consecutive : ∀ field, left = .token field →
      [.word field, .word comparator.token, .word word] <:+: tokens) :
    rejection.BlamesToken schema tokens := by
  rcases join_eq_error refused with
    ⟨fault, rfl⟩ | ⟨field, _, literal, kind, isField, same, sameLiteral, known, valued⟩
  · trivial
  · cases same
    cases sameLiteral
    rcases Kind.valueOf_eq_error_iff.mp valued with ⟨_, rfl⟩
    exact ⟨field, comparator, consecutive field isField, known, valued⟩

namespace Expectation

theorem operatorOf_eq_error {word : String} {rejection : Rejection}
    (refused : operatorOf word = .error rejection) :
    rejection = .unknownOperand word ∧ ∀ comparator : Comparator, word ≠ comparator.token := by
  rw [operatorOf] at refused
  split at refused <;> cases refused
  next unknown =>
    refine ⟨rfl, ?_⟩
    rintro comparator rfl
    have known := Operator.ofToken?_token (.compare comparator)
    rw [Operator.token, unknown] at known
    cases known

/-- A word is refused for what it is, or for what it is behind the words in front of it. -/
theorem blamesToken_readWord {expectation : Expectation} {word : String} {tokens : List Token}
    {rejection : Rejection} (consumed : expectation.Consumed schema tokens)
    (refused : expectation.readWord schema word = .error rejection) :
    rejection.BlamesToken schema (tokens ++ [.word word]) := by
  have last : Token.word word ∈ tokens ++ [.word word] := by simp
  cases expectation with
  | term =>
      rw [readWord] at refused
      split at refused
      · cases refused
      next unknown =>
        cases refused
        exact ⟨last, (Bool.not_eq_true _).mp unknown⟩
  | operator field =>
      rcases operatorOf_eq_error (map_eq_error_iff.mp refused) with ⟨rfl, unknown⟩
      exact ⟨last, unknown⟩
  | combinatorOrEnd node =>
      rcases operatorOf_eq_error (map_eq_error_iff.mp refused) with ⟨rfl, unknown⟩
      exact ⟨last, unknown⟩
  | valueOrGroup left between =>
      cases between with
      | compare comparator =>
          refine blamesToken_join (map_eq_error_iff.mp refused) ?_
          rintro field rfl
          rcases consumed with ⟨before, ⟨rfl, _⟩, rfl⟩
          exact List.infix_refl _
      | combine combinator =>
          rw [readWord] at refused
          split at refused
          · cases refused
          next unknown =>
            cases refused
            exact ⟨last, (Bool.not_eq_true _).mp unknown⟩
  | nestedComparator left combinator field =>
      rw [readWord] at refused
      split at refused
      · cases refused
      next unknown =>
        cases refused
        refine ⟨last, ?_⟩
        rintro comparator rfl
        rw [Comparator.ofToken?_token] at unknown
        cases unknown
  | nestedLiteral left combinator field comparator =>
      rcases consumed with ⟨before, _, _, rfl⟩
      rcases bind_eq_error_iff.mp refused with inner | ⟨node, _, outer⟩
      · refine blamesToken_join inner ?_
        rintro _ ⟨⟩
        refine ⟨before ++ [.word combinator.token], [], ?_⟩
        simp only [List.append_assoc, List.cons_append, List.nil_append]
      · rcases bind_eq_error_iff.mp outer with joined | ⟨whole, _, impossible⟩
        · rcases join_eq_error joined with ⟨fault, rfl⟩ | ⟨_, _, _, _, _, same, _⟩
          · trivial
          · cases same
        · cases impossible

/-- A group is refused for the shape that it would have. -/
theorem readGroup_eq_error {expectation : Expectation} {node : Condition} {rejection : Rejection}
    (refused : expectation.readGroup schema node = .error rejection) :
    ∃ fault, rejection = .invalidExpression fault := by
  cases expectation with
  | term => cases refused
  | valueOrGroup left between =>
      rcases join_eq_error (map_eq_error_iff.mp refused) with
        shape | ⟨_, _, _, _, _, _, impossible, _⟩
      · exact shape
      · cases impossible
  | operator | combinatorOrEnd | nestedComparator | nestedLiteral =>
      exact ⟨_, (Except.error.inj refused).symm⟩

/-- A range that cannot end here is empty, or else it is incomplete. -/
theorem conclude_eq_error {expectation : Expectation} {rejection : Rejection}
    (refused : expectation.conclude = .error rejection) :
    (expectation = .term ∧ rejection = .emptyQuery) ∨ ∃ fault, rejection = .invalidExpression fault := by
  cases expectation with
  | term => exact .inl ⟨rfl, (Except.error.inj refused).symm⟩
  | combinatorOrEnd node => cases refused
  | operator | valueOrGroup | nestedComparator | nestedLiteral =>
      exact .inr ⟨_, (Except.error.inj refused).symm⟩

end Expectation

namespace Pass

/-- As many ranges are suspended as parentheses are open. -/
theorem length_suspended_step {pass next : Pass} {token : Token}
    (stepped : pass.step schema token = .ok next) :
    (next.suspended.length : Int) = pass.suspended.length + depth token.parentheses := by
  cases token with
  | word text =>
      rcases bind_eq_ok_iff.mp stepped with ⟨expectation, _, same⟩
      cases same
      exact (Int.add_zero _).symm
  | opening =>
      rw [step] at stepped
      split at stepped <;> cases stepped
      rw [Token.parentheses, depth_opening, List.length_cons, Int.natCast_add, Int.natCast_one]
  | closing =>
      rcases bind_eq_ok_iff.mp stepped with ⟨node, _, resumed⟩
      split at resumed
      next => cases resumed
      next outer others waiting =>
        rcases bind_eq_ok_iff.mp resumed with ⟨expectation, _, same⟩
        cases same
        rw [waiting, Token.parentheses, depth_closing, List.length_cons, Int.natCast_add,
          Int.natCast_one]
        exact (Int.add_neg_cancel_right _ _).symm

theorem length_suspended_steps {pass reached : Pass} {tokens : List Token}
    (stepped : pass.steps schema tokens = .ok reached) :
    (reached.suspended.length : Int) =
      pass.suspended.length + depth (tokens.flatMap Token.parentheses) := by
  induction tokens generalizing pass with
  | nil =>
      cases stepped
      exact (Int.add_zero _).symm
  | cons token rest ih =>
      rw [steps_cons] at stepped
      rcases bind_eq_ok_iff.mp stepped with ⟨next, first, others⟩
      rw [ih others, length_suspended_step first, List.flatMap_cons, depth_append, Int.add_assoc]

/-- A token that is refused is blamed for what it is behind the tokens in front of it. -/
theorem blamesToken_step {pass : Pass} {token : Token} {tokens : List Token}
    {rejection : Rejection} (consumed : pass.Consumed schema tokens)
    (nested : token = .closing → pass.suspended ≠ [])
    (refused : pass.step schema token = .error rejection) :
    rejection.BlamesToken schema (tokens ++ [token]) := by
  rcases consumed with ⟨front, within, suspended, current, rfl⟩
  cases token with
  | word text =>
      rcases bind_eq_error_iff.mp refused with read | ⟨next, _, impossible⟩
      · refine (Expectation.blamesToken_readWord current read).among (by simp) ?_
        exact ⟨front, [], by rw [List.append_nil, List.append_assoc]⟩
      · cases impossible
  | opening =>
      rw [step] at refused
      split at refused <;> cases refused
      trivial
  | closing =>
      rcases bind_eq_error_iff.mp refused with ended | ⟨node, _, resumed⟩
      · rcases Expectation.conclude_eq_error ended with ⟨start, rfl⟩ | ⟨fault, rfl⟩
        · -- Nothing stands in the range, and the parenthesis before it is the one that opened it.
          rw [start] at current
          rcases current with rfl
          cases waiting : pass.suspended with
          | nil => exact absurd waiting (nested rfl)
          | cons outer others =>
              rw [waiting] at suspended
              rcases suspended with ⟨outerFront, outerWithin, _, _, rfl⟩
              refine .inr ⟨outerFront ++ outerWithin, [], ?_⟩
              simp only [List.append_assoc, List.cons_append, List.nil_append, List.append_nil]
        · trivial
      · split at resumed
        next empty => exact absurd empty (nested rfl)
        next outer others _ =>
          rcases bind_eq_error_iff.mp resumed with group | ⟨next, _, impossible⟩
          · rcases Expectation.readGroup_eq_error group with ⟨fault, rfl⟩
            trivial
          · cases impossible

/-- The end is blamed only where the tokens have not made a condition. -/
theorem blamesToken_finish {pass : Pass} {tokens : List Token} {rejection : Rejection}
    (consumed : pass.Consumed schema tokens) (closed : pass.suspended = [])
    (refused : pass.finish = .error rejection) : rejection.BlamesToken schema tokens := by
  rcases consumed with ⟨front, within, suspended, current, rfl⟩
  rw [closed] at suspended
  rcases suspended with rfl
  rcases bind_eq_error_iff.mp refused with ended | ⟨node, _, last⟩
  · rcases Expectation.conclude_eq_error ended with ⟨start, rfl⟩ | ⟨fault, rfl⟩
    · rw [start] at current
      exact .inl current
    · trivial
  · rw [closed] at last
    cases last

/-- A sequence of tokens with balanced parentheses is rejected for what some of them are. -/
theorem blamesToken_run {tokens : List Token} {rejection : Rejection}
    (balanced : Balanced (tokens.flatMap Token.parentheses))
    (refused : run schema tokens = .error rejection) : rejection.BlamesToken schema tokens := by
  rcases run_eq_error_iff.mp refused with
    ⟨before, token, after, reached, rfl, stepped, failed⟩ | ⟨reached, stepped, failed⟩
  · have consumed := consumed_steps consumed_start stepped
    have counted := length_suspended_steps stepped
    refine (blamesToken_step consumed ?_ failed).among (by simp) ⟨[], after, by simp⟩
    rintro rfl none
    -- The text in front of a closing parenthesis has opened one.
    have atLeast := balanced.1 (before.flatMap Token.parentheses ++ [')'])
      ⟨after.flatMap Token.parentheses, by simp [Token.parentheses]⟩
    rw [depth_append, depth_closing] at atLeast
    rw [none, start] at counted
    simp only [List.length_nil, Int.natCast_zero, Int.zero_add] at counted
    omega
  · refine blamesToken_finish (consumed_steps consumed_start stepped) ?_ failed
    have counted := length_suspended_steps stepped
    rw [balanced.2, start, Int.add_zero] at counted
    exact List.length_eq_zero_iff.mp (Int.natCast_inj.mp counted)

end Pass

/-- A text that begins with a closing parenthesis as its tokens do, but for blanks. -/
theorem exists_blanks_of_ofText_eq_closing {text : List Char} {tokens : List Token}
    (begins : Token.ofText text = .closing :: tokens) :
    ∃ blanks after, text = blanks ++ ')' :: after ∧ ∀ c ∈ blanks, isBlank c = true := by
  fun_induction Token.ofText text with
  | case1 => cases begins
  | case2 c rest blank ih =>
      rcases ih begins with ⟨blanks, after, rfl, all⟩
      exact ⟨c :: blanks, after, rfl, List.forall_mem_cons.mpr ⟨blank, all⟩⟩
  | case3 rest _ ih => cases begins
  | case4 rest _ _ ih => exact ⟨[], rest, rfl, fun _ impossible => by cases impossible⟩
  | case5 c rest _ _ _ ih => cases begins

theorem HasEmptyGroup.append {text : List Char} (empty : HasEmptyGroup text) (front : List Char) :
    HasEmptyGroup (front ++ text) := by
  rcases empty with ⟨before, blanks, after, rfl, all⟩
  exact ⟨front ++ before, blanks, after, (List.append_assoc _ _ _).symm, all⟩

/-- Two parentheses with no token between them have nothing but blanks between them. -/
theorem hasEmptyGroup_of_ofText {text : List Char} {before after : List Token}
    (adjacent : Token.ofText text = before ++ .opening :: .closing :: after) :
    HasEmptyGroup text := by
  fun_induction Token.ofText text generalizing before with
  | case1 => simp at adjacent
  | case2 c rest blank ih => exact (ih adjacent).append [c]
  | case3 rest _ ih =>
      cases before with
      | nil =>
          rcases exists_blanks_of_ofText_eq_closing (List.cons.inj adjacent).2 with
            ⟨blanks, behind, rfl, all⟩
          exact ⟨[], blanks, behind, rfl, all⟩
      | cons first others => exact (ih (List.cons.inj adjacent).2).append ['(']
  | case4 rest _ _ ih =>
      cases before with
      | nil => cases adjacent
      | cons first others => exact (ih (List.cons.inj adjacent).2).append [')']
  | case5 c rest notBlank notOpening notClosing ih =>
      cases before with
      | nil => cases adjacent
      | cons first others =>
          have later := ih (List.cons.inj adjacent).2
          have whole := later.append (c :: rest.takeWhile fun next => !isDelimiter next)
          rwa [List.cons_append, List.takeWhile_append_dropWhile] at whole

/-- What is said of the tokens of a text is said of the text. -/
theorem Rejection.BlamesToken.blames {text : List Char} {rejection : Rejection}
    (blamed : rejection.BlamesToken schema (Token.ofText text)) :
    rejection.Blames schema text := by
  have mentioned : ∀ word, .word word ∈ Token.ofText text → word ∈ words text := by
    intro word member
    rw [words_eq_filterMap_ofText]
    exact List.mem_filterMap.mpr ⟨.word word, member, rfl⟩
  cases rejection with
  | unbalancedParenthesis offset => exact blamed.elim
  | emptyQuery =>
      rcases blamed with none | ⟨before, after, adjacent⟩
      · refine .inl ⟨by rw [words_eq_filterMap_ofText, none, List.filterMap_nil], fun c member => ?_⟩
        have unparenthesised : text.filter isParenthesis = [] := by
          rw [filter_isParenthesis_eq, none, List.flatMap_nil]
        exact (Bool.not_eq_true _).mp (List.filter_eq_nil_iff.mp unparenthesised c member)
      · rw [List.append_assoc] at adjacent
        exact .inr (hasEmptyGroup_of_ofText adjacent.symm)
  | unknownTerm word => exact ⟨mentioned word blamed.1, blamed.2⟩
  | unknownOperand word => exact ⟨mentioned word blamed.1, blamed.2⟩
  | invalidExpression fault => trivial
  | invalidValue literal kind =>
      rcases blamed with ⟨field, comparator, ⟨before, after, consecutive⟩, known, valued⟩
      refine ⟨before.filterMap Token.word?, field, comparator, after.filterMap Token.word?, ?_,
        known, valued⟩
      rw [words_eq_filterMap_ofText, ← consecutive, List.filterMap_append, List.filterMap_append,
        List.append_assoc]
      rfl

/-- A query is rejected by the pairing of its parentheses, or else for its tokens. -/
theorem ofText_or_blamesToken_of_compile {query : String} {rejection : Rejection}
    (rejected : compile schema query = .error rejection) :
    Pairing.ofText (trim query.toList) = .error rejection ∨
      rejection.BlamesToken schema (Token.ofText (trim query.toList)) := by
  cases paired : Pairing.ofText (trim query.toList) with
  | error other =>
      rw [compile, compileTrimmed, paired, error_bind] at rejected
      cases rejected
      exact .inl rfl
  | ok pairing =>
      by_cases few : combinatorWords (trim query.toList) ≤ combinatorLimit
      · rw [compile_eq_run_of_ofText paired few] at rejected
        have balanced := (Pairing.exists_ofText_iff.mp ⟨pairing, paired⟩).1
        exact .inr (Pass.blamesToken_run (balanced_parentheses.mpr balanced) rejected)
      · rw [compile, compileTrimmed, paired, ok_bind, if_pos (Nat.not_le.mp few)] at rejected
        cases rejected
        exact .inr trivial

/-- A parenthesis is blamed exactly if pairing blames it, whatever else is wrong with the
query, and what any rejection says of the query is true. -/
theorem compile_rejection_blames (schema : Schema) (query : String) :
    (∀ offset, compile schema query = .error (.unbalancedParenthesis offset) ↔
      Pairing.ofText (trim query.toList) = .error (.unbalancedParenthesis offset)) ∧
    ∀ rejection, compile schema query = .error rejection →
      rejection.Blames schema (trim query.toList) := by
  refine ⟨fun offset => ⟨fun rejected => ?_, fun refused => ?_⟩, fun rejection rejected => ?_⟩
  · exact (ofText_or_blamesToken_of_compile rejected).resolve_right id
  · rw [compile, compileTrimmed, refused, error_bind]
  · rcases ofText_or_blamesToken_of_compile rejected with refused | blamed
    · have explains := Pairing.ofText_explains (trim query.toList)
      rw [refused] at explains
      rcases explains.rejection with ⟨rfl, _⟩ | ⟨⟨place, rfl⟩, _⟩
      · trivial
      · exact Pairing.lacksPartner_of_ofText refused
    · exact blamed.blames

/-- The literal in a group is blamed with the field and the comparator in front of it.  One
parenthesis more, and nothing but that parenthesis is blamed. -/
theorem compile_rejection_blames_of_group :
    compile (Schema.ofFields "sample" [("a", .text), ("b", .int32)]) "a eq x and(b lt soon) or ()" =
        .error (.invalidValue "soon" .int32) ∧
      (∃ before field comparator after,
        words (trim "a eq x and(b lt soon) or ()".toList) =
            before ++ field :: Comparator.token comparator :: "soon" :: after ∧
          (Schema.ofFields "sample" [("a", .text), ("b", .int32)]).kind? field = some .int32 ∧
          Kind.int32.valueOf "soon" = .error (.invalidValue "soon" .int32)) ∧
      compile (Schema.ofFields "sample" [("a", .text), ("b", .int32)])
          "(a eq x and(b lt soon) or ()" = .error (.unbalancedParenthesis 0) ∧
      LacksPartner (trim "(a eq x and(b lt soon) or ()".toList) 0 := by
  have rejected : compile (Schema.ofFields "sample" [("a", .text), ("b", .int32)])
      "a eq x and(b lt soon) or ()" = .error (.invalidValue "soon" .int32) := by
    decide +kernel
  have unbalanced : compile (Schema.ofFields "sample" [("a", .text), ("b", .int32)])
      "(a eq x and(b lt soon) or ()" = .error (.unbalancedParenthesis 0) :=
    ((compile_rejection_blames _ _).1 0).mpr (by decide +kernel)
  exact ⟨rejected, (compile_rejection_blames _ _).2 _ rejected, unbalanced,
    (compile_rejection_blames _ _).2 _ unbalanced⟩

end FilterQuery
