import Mathlib.Control.Monad.Basic
import FilterQuery.Compile
import FilterQuery.Proofs.Outcome
import FilterQuery.Proofs.Scanning

namespace FilterQuery

open Text

/-!
# Reading in one pass

A compiled query is read range by range, and each group is a range of its own that
is found by the pairing.  Here the same query is read by one pass over its tokens.
The pass keeps the expectations of the ranges around it on a stack, and it never
consults a pairing.

Both readings agree on every query whose parentheses pair, in the condition and in
the rejection.  The reading of a range therefore depends on the tokens alone, and
the order of its checks is the order of the tokens: the rejection is that of the
first token at which the pass fails.
-/

/-- Where a pass stands: what the innermost open range expects, and what the ranges
around it expected when the groups in them began, the innermost first. -/
structure Pass where
  current : Expectation
  suspended : List Expectation
  deriving DecidableEq, Repr

namespace Pass

/-- Before the first token. -/
def start : Pass := ⟨.term, []⟩

/-- Read one token.  An opening parenthesis suspends the range that it stands in, and
a closing one ends the range and takes its condition to the range around it.  A
closing parenthesis without a range around is refused, which no text with paired
parentheses comes to. -/
def step (schema : Schema) (pass : Pass) : Token → Except Rejection Pass
  | .word text => do
    let next ← pass.current.readWord schema text
    .ok ⟨next, pass.suspended⟩
  | .opening =>
    if pass.current.admitsGroup then .ok ⟨.term, pass.current :: pass.suspended⟩
    else .error (.invalidExpression .unexpectedGroup)
  | .closing => do
    let node ← pass.current.conclude
    match pass.suspended with
    | [] => .error (.invalidExpression .unexpectedGroup)
    | outer :: others => do
      let next ← outer.readGroup schema node
      .ok ⟨next, others⟩

/-- Read tokens one after another. -/
def steps (schema : Schema) (pass : Pass) (tokens : List Token) : Except Rejection Pass :=
  tokens.foldlM (step schema) pass

/-- The condition behind the last token.  No range may be suspended there, and with
paired parentheses none is. -/
def finish (pass : Pass) : Except Rejection Condition := do
  let node ← pass.current.conclude
  match pass.suspended with
  | [] => .ok node
  | _ :: _ => .error (.invalidExpression .incomplete)

/-- Read a sequence of tokens to a condition. -/
def run (schema : Schema) (tokens : List Token) : Except Rejection Condition := do
  (← start.steps schema tokens).finish

/-- The first place at which a pass over tokens fails: a token that is refused where
all tokens before it were read, or the end. -/
def FailsFirst (schema : Schema) (tokens : List Token) (rejection : Rejection) : Prop :=
  (∃ before token after reached, tokens = before ++ token :: after ∧
      start.steps schema before = .ok reached ∧ reached.step schema token = .error rejection) ∨
    ∃ reached, start.steps schema tokens = .ok reached ∧ reached.finish = .error rejection

variable {schema : Schema}

@[simp]
theorem steps_nil (pass : Pass) : pass.steps schema [] = .ok pass := rfl

@[simp]
theorem steps_cons (pass : Pass) (token : Token) (tokens : List Token) :
    pass.steps schema (token :: tokens) =
      pass.step schema token >>= fun next => next.steps schema tokens := rfl

@[simp]
theorem steps_append (pass : Pass) (first second : List Token) :
    pass.steps schema (first ++ second) =
      pass.steps schema first >>= fun next => next.steps schema second :=
  List.foldlM_append

theorem step_opening {pass : Pass} (admits : pass.current.admitsGroup = true) :
    pass.step schema .opening = .ok ⟨.term, pass.current :: pass.suspended⟩ :=
  if_pos admits

/-- Steps fail at the first token that is refused. -/
theorem steps_eq_error_iff {pass : Pass} {tokens : List Token} {rejection : Rejection} :
    pass.steps schema tokens = .error rejection ↔
      ∃ before token after reached, tokens = before ++ token :: after ∧
        pass.steps schema before = .ok reached ∧ reached.step schema token = .error rejection := by
  constructor
  · intro failed
    induction tokens generalizing pass with
    | nil => cases failed
    | cons token rest ih =>
        rw [steps_cons, bind_eq_error_iff] at failed
        rcases failed with refused | ⟨next, stepped, failedLater⟩
        · exact ⟨[], token, rest, pass, rfl, rfl, refused⟩
        · rcases ih failedLater with ⟨before, other, after, reached, rfl, read, refused⟩
          refine ⟨token :: before, other, after, reached, rfl, ?_, refused⟩
          rw [steps_cons, stepped, ok_bind]
          exact read
  · rintro ⟨before, token, after, reached, rfl, read, refused⟩
    rw [steps_append, read, ok_bind, steps_cons, refused, error_bind]

theorem run_eq_error_iff {tokens : List Token} {rejection : Rejection} :
    run schema tokens = .error rejection ↔ FailsFirst schema tokens rejection := by
  rw [run, bind_eq_error_iff, steps_eq_error_iff, FailsFirst]

/-- A range is read as its tokens are, under whatever ranges are suspended around it
and whatever is done with its condition. -/
theorem steps_eq_readRange {α : Type} {pairing : Pairing} (place : Place)
    (expectation : Expectation) (suspended : List Expectation)
    (proceed : List Expectation → Condition → Except Rejection α)
    (matched : Matched pairing place.offset place.text) :
    (do
      let pass ← (⟨expectation, suspended⟩ : Pass).steps schema (Token.ofText place.text)
      let node ← pass.current.conclude
      proceed pass.suspended node) =
    (do
      let node ← readRange schema pairing place expectation
      proceed suspended node) := by
  fun_induction readRange schema pairing place expectation generalizing suspended proceed with
  | case1 place expectation found =>
      have fits := Place.fits_next matched
      rw [found] at fits
      rw [show Token.ofText place.text = [] from fits]
      rfl
  | case2 place expectation offset found =>
      have fits := Place.fits_next matched
      rw [found] at fits
      exact fits.elim
  | case3 place expectation start word after found ih =>
      have fits := Place.fits_next matched
      rw [found] at fits
      rcases fits with ⟨tokens, matchedAfter⟩
      rw [tokens, steps_cons]
      cases read : expectation.readWord schema word with
      | error rejection => simp only [step, read]; rfl
      | ok next =>
          have rest := ih next suspended proceed matchedAfter
          simp only [step, read]
          exact rest
  | case4 place expectation opening closing inside after found admits ihInside ihAfter =>
      have fits := Place.fits_next matched
      rw [found] at fits
      rcases fits with ⟨tokens, matchedInside, matchedAfter⟩
      -- What follows the closing parenthesis is what is done with the condition of the inside.
      let proceedBehind : List Expectation → Condition → Except Rejection α := fun frames node =>
        (match frames with
          | [] => .error (.invalidExpression .unexpectedGroup)
          | outer :: others => do
            let next ← outer.readGroup schema node
            .ok ⟨next, others⟩) >>= fun pass : Pass =>
        pass.steps schema (Token.ofText after.text) >>= fun last =>
        last.current.conclude >>= proceed last.suspended
      have within := ihInside (expectation :: suspended) proceedBehind matchedInside
      have passed : (⟨expectation, suspended⟩ : Pass).steps schema (Token.ofText place.text) =
          (⟨.term, expectation :: suspended⟩ : Pass).steps schema (Token.ofText inside.text) >>=
            fun pass => pass.step schema .closing >>= fun next =>
              next.steps schema (Token.ofText after.text) := by
        rw [tokens, steps_cons, step_opening admits, ok_bind, steps_append]
        rfl
      rw [passed]
      simp only [step, bind_assoc] at within ⊢
      rw [within]
      cases readRange schema pairing inside .term with
      | error rejection => rfl
      | ok node =>
          simp only [proceedBehind, ok_bind]
          cases read : expectation.readGroup schema node with
          | error rejection => rfl
          | ok next => exact ihAfter next suspended proceed matchedAfter
  | case5 place expectation opening closing inside after found refused =>
      have fits := Place.fits_next matched
      rw [found] at fits
      rw [fits.1, steps_cons, step, if_neg refused]
      rfl

/-- A matched text is read as its tokens are. -/
theorem readRange_eq_run {pairing : Pairing} {text : List Char}
    (matched : Matched pairing 0 text) :
    readRange schema pairing ⟨0, text⟩ .term = run schema (Token.ofText text) := by
  refine Eq.trans ?_ (steps_eq_readRange ⟨0, text⟩ .term []
    (fun suspended node =>
      match suspended with
      | [] => .ok node
      | _ :: _ => .error (.invalidExpression .incomplete)) matched).symm
  cases readRange schema pairing ⟨0, text⟩ .term <;> rfl

end Pass

/-! ## Compiling a query is one pass over its tokens -/

theorem compile_eq_run_of_ofText {schema : Schema} {query : String} {pairing : Pairing}
    (paired : Pairing.ofText (trim query.toList) = .ok pairing)
    (few : combinatorWords (trim query.toList) ≤ combinatorLimit) :
    compile schema query = Pass.run schema (Token.ofText (trim query.toList)) := by
  rw [compile, compileTrimmed, paired, ok_bind, if_neg (Nat.not_lt.mpr few)]
  exact Pass.readRange_eq_run (Pairing.matched_of_ofText paired)

/-- Whether a text has a pairing depends on its tokens only. -/
theorem exists_ofText_congr {text other : List Char}
    (same : Token.ofText other = Token.ofText text)
    (paired : ∃ pairing, Pairing.ofText text = .ok pairing) :
    ∃ pairing, Pairing.ofText other = .ok pairing := by
  rw [Pairing.exists_ofText_iff, ← balanced_parentheses, ← nestsWithin_parentheses] at paired ⊢
  rw [same]
  exact paired

theorem combinatorWords_congr {text other : List Char}
    (same : Token.ofText other = Token.ofText text) :
    combinatorWords other = combinatorWords text := by
  rw [combinatorWords, combinatorWords, words_eq_filterMap_ofText, words_eq_filterMap_ofText, same]

/-- Within the two limits that are checked on the text, compiling a query is one pass
over its tokens that needs no pairing.  A rejection is that of the first token at which
the pass fails, and the layout of the text does not matter. -/
theorem compile_eq_onePass (schema : Schema) (query : String) (pairing : Pairing)
    (paired : Pairing.ofText (trim query.toList) = .ok pairing)
    (few : combinatorWords (trim query.toList) ≤ 512) :
    compile schema query = Pass.run schema (Token.ofText (trim query.toList)) ∧
      (∀ rejection, compile schema query = .error rejection ↔
        Pass.FailsFirst schema (Token.ofText (trim query.toList)) rejection) ∧
      ∀ other : String,
        Token.ofText (trim other.toList) = Token.ofText (trim query.toList) →
          compile schema other = compile schema query := by
  have compiled : compile schema query = _ := compile_eq_run_of_ofText paired few
  refine ⟨compiled, fun rejection => ?_, fun other same => ?_⟩
  · rw [compiled, Pass.run_eq_error_iff]
  · rcases exists_ofText_congr same ⟨pairing, paired⟩ with ⟨otherPairing, otherPaired⟩
    have otherFew : combinatorWords (trim other.toList) ≤ combinatorLimit := by
      rw [combinatorWords_congr same]
      exact few
    rw [compile_eq_run_of_ofText otherPaired otherFew, compiled, same]

/-- The literal in the group is refused before the word behind the group is. -/
theorem compile_eq_onePass_of_group :
    Pairing.ofText (trim "a eq x and (b lt soon) or c".toList) = .ok ⟨[(11, 21)]⟩ ∧
      combinatorWords (trim "a eq x and (b lt soon) or c".toList) ≤ 512 ∧
      compile (Schema.ofFields "sample" [("a", .text), ("b", .int32)])
          "a eq x and (b lt soon) or c" =
        Pass.run (Schema.ofFields "sample" [("a", .text), ("b", .int32)])
          [.word "a", .word "eq", .word "x", .word "and", .opening, .word "b", .word "lt",
            .word "soon", .closing, .word "or", .word "c"] ∧
      compile (Schema.ofFields "sample" [("a", .text), ("b", .int32)])
          "a eq x and (b lt soon) or c" = .error (.invalidValue "soon" .int32) := by
  have paired : Pairing.ofText (trim "a eq x and (b lt soon) or c".toList) =
      .ok ⟨[(11, 21)]⟩ := by decide +kernel
  have few : combinatorWords (trim "a eq x and (b lt soon) or c".toList) ≤ 512 := by
    decide +kernel
  have tokens : Token.ofText (trim "a eq x and (b lt soon) or c".toList) =
      [.word "a", .word "eq", .word "x", .word "and", .opening, .word "b", .word "lt",
        .word "soon", .closing, .word "or", .word "c"] := by
    decide +kernel
  have agree := compile_eq_onePass (Schema.ofFields "sample" [("a", .text), ("b", .int32)])
    "a eq x and (b lt soon) or c" ⟨[(11, 21)]⟩ paired few
  rw [tokens] at agree
  exact ⟨paired, few, agree.1, agree.1.trans (by decide +kernel)⟩

end FilterQuery
