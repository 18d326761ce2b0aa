import FilterQuery.Proofs.Grammar
import FilterQuery.Proofs.LastWrite

namespace FilterQuery

open Text

/-!
# What a query asks of its schema

A schema is consulted at three places: for a field at the start of a range, for a field
behind a combinator, and for the kind of a field whose literal has been read.  At the
first two the name is the word at hand.  At the third it was read earlier and has been
kept in an expectation since, perhaps through a group that stood in between.

`PendingIn` collects the names that are kept.  All of them are words of the query at
every moment of a pass, so two schemas that agree on those words cannot be told apart by
compiling, whether the query is accepted or rejected and whatever else they hold.

A field that is added to a schema may still be a word of the query, in the place of a
literal say.  A rejection can then turn into another outcome, but a condition that was
found stays: a derivation needs the fields that it uses and no absence of others.
-/

/-- A side that waits for its operator to be complete has a name of some sort, if it is
still a text. -/
def Side.PendingIn (known : String → Prop) : Side → Prop
  | .token field => known field
  | .node _ => True

/-- The names that an expectation keeps are of some sort. -/
def Expectation.PendingIn (known : String → Prop) : Expectation → Prop
  | .term => True
  | .operator field => known field
  | .combinatorOrEnd _ => True
  | .valueOrGroup left _ => left.PendingIn known
  | .nestedComparator left _ field => left.PendingIn known ∧ known field
  | .nestedLiteral left _ field _ => left.PendingIn known ∧ known field

def Pass.PendingIn (known : String → Prop) (pass : Pass) : Prop :=
  pass.current.PendingIn known ∧ ∀ outer ∈ pass.suspended, outer.PendingIn known

/-! ## Names that are kept -/

section Pending

variable {schema : Schema} {known : String → Prop}

/-- Reading a word keeps no name but that word and those kept before. -/
theorem Expectation.pendingIn_readWord {expectation next : Expectation} {word : String}
    (knownWord : known word) (pending : expectation.PendingIn known)
    (read : expectation.readWord schema word = .ok next) : next.PendingIn known := by
  cases expectation with
  | term =>
      rw [readWord] at read
      split at read
      · cases read
        exact knownWord
      · cases read
  | operator field =>
      rw [readWord] at read
      rcases map_eq_ok_iff.mp read with ⟨between, _, rfl⟩
      exact pending
  | combinatorOrEnd node =>
      rw [readWord] at read
      rcases map_eq_ok_iff.mp read with ⟨between, _, rfl⟩
      trivial
  | valueOrGroup left between =>
      cases between with
      | compare comparator =>
          rw [readWord] at read
          rcases map_eq_ok_iff.mp read with ⟨node, _, rfl⟩
          trivial
      | combine combinator =>
          rw [readWord] at read
          split at read
          · cases read
            exact ⟨pending, knownWord⟩
          · cases read
  | nestedComparator left combinator field =>
      rw [readWord] at read
      split at read
      · cases read
        exact pending
      · cases read
  | nestedLiteral left combinator field comparator =>
      rw [readWord] at read
      rcases bind_eq_ok_iff.mp read with ⟨inner, _, joining⟩
      rcases bind_eq_ok_iff.mp joining with ⟨node, _, same⟩
      cases same
      trivial

/-- Nothing is kept behind a group: it ends an operand. -/
theorem Expectation.pendingIn_readGroup {expectation next : Expectation} {node : Condition}
    (read : expectation.readGroup schema node = .ok next) : next.PendingIn known := by
  cases expectation with
  | term =>
      cases read
      trivial
  | valueOrGroup left between =>
      rw [readGroup] at read
      rcases map_eq_ok_iff.mp read with ⟨joint, _, rfl⟩
      trivial
  | operator field => cases read
  | combinatorOrEnd node => cases read
  | nestedComparator left combinator field => cases read
  | nestedLiteral left combinator field comparator => cases read

theorem Pass.pendingIn_start : start.PendingIn known := by
  refine ⟨trivial, ?_⟩
  intro outer member
  cases member

theorem Pass.pendingIn_step {pass next : Pass} {token : Token}
    (knownWord : ∀ word, token = .word word → known word) (pending : pass.PendingIn known)
    (stepped : pass.step schema token = .ok next) : next.PendingIn known := by
  rcases pending with ⟨current, suspended⟩
  cases token with
  | word text =>
      rcases bind_eq_ok_iff.mp stepped with ⟨expectation, read, same⟩
      cases same
      exact ⟨Expectation.pendingIn_readWord (knownWord text rfl) current read, suspended⟩
  | opening =>
      rw [step] at stepped
      split at stepped
      · cases stepped
        exact ⟨trivial, List.forall_mem_cons.mpr ⟨current, suspended⟩⟩
      · cases stepped
  | closing =>
      rcases bind_eq_ok_iff.mp stepped with ⟨node, _, resumed⟩
      split at resumed
      next => cases resumed
      next outer others waiting =>
        rcases bind_eq_ok_iff.mp resumed with ⟨expectation, read, same⟩
        cases same
        rw [waiting] at suspended
        exact ⟨Expectation.pendingIn_readGroup read, (List.forall_mem_cons.mp suspended).2⟩

end Pending

/-! ## Two schemas -/

section Agreement

variable {schema other : Schema} {known : String → Prop}

theorem Schema.contains_congr {name : String} (agree : schema.kind? name = other.kind? name) :
    schema.contains name = other.contains name :=
  congrArg Option.isSome agree

theorem join_congr (agree : ∀ name, known name → schema.kind? name = other.kind? name)
    {left : Side} (pending : left.PendingIn known) (between : Operator) (right : Side) :
    join schema left between right = join other left between right := by
  cases left with
  | node condition => cases between <;> cases right <;> rfl
  | token field =>
      have sameKind := agree field pending
      cases between <;> cases right <;> simp only [join, sameKind]

namespace Expectation

theorem readWord_congr (agree : ∀ name, known name → schema.kind? name = other.kind? name)
    {expectation : Expectation} {word : String} (knownWord : known word)
    (pending : expectation.PendingIn known) :
    expectation.readWord schema word = expectation.readWord other word := by
  have sameField := Schema.contains_congr (agree word knownWord)
  cases expectation with
  | term => simp only [readWord, sameField]
  | operator field => rfl
  | combinatorOrEnd node => rfl
  | valueOrGroup left between =>
      cases between with
      | compare comparator => rw [readWord, readWord, join_congr agree pending]
      | combine combinator => simp only [readWord, sameField]
  | nestedComparator left combinator field => rfl
  | nestedLiteral left combinator field comparator =>
      have named : (Side.token field).PendingIn known := pending.2
      have inner := join_congr agree named (.compare comparator) (.token word)
      have outer := join_congr agree pending.1 (.combine combinator)
      simp only [readWord, inner, outer]

theorem readGroup_congr (agree : ∀ name, known name → schema.kind? name = other.kind? name)
    {expectation : Expectation} (pending : expectation.PendingIn known) (node : Condition) :
    expectation.readGroup schema node = expectation.readGroup other node := by
  cases expectation with
  | valueOrGroup left between => rw [readGroup, readGroup, join_congr agree pending]
  | term => rfl
  | operator field => rfl
  | combinatorOrEnd node => rfl
  | nestedComparator left combinator field => rfl
  | nestedLiteral left combinator field comparator => rfl

end Expectation

namespace Pass

theorem step_congr (agree : ∀ name, known name → schema.kind? name = other.kind? name)
    {pass : Pass} {token : Token} (knownWord : ∀ word, token = .word word → known word)
    (pending : pass.PendingIn known) : pass.step schema token = pass.step other token := by
  rcases pending with ⟨current, suspended⟩
  cases token with
  | word text => rw [step, step, Expectation.readWord_congr agree (knownWord text rfl) current]
  | opening => rfl
  | closing =>
      cases concluded : pass.current.conclude with
      | error rejection => simp only [step, concluded, error_bind]
      | ok node =>
          cases waiting : pass.suspended with
          | nil => simp only [step, concluded, waiting]
          | cons outer others =>
              rw [waiting] at suspended
              have same := Expectation.readGroup_congr agree
                (List.forall_mem_cons.mp suspended).1 node
              simp only [step, concluded, waiting, ok_bind, same]

/-- Two passes over the same words go the same way, to the same place or the same
rejection. -/
theorem steps_congr (agree : ∀ name, known name → schema.kind? name = other.kind? name)
    {pass : Pass} {tokens : List Token} (knownWords : ∀ word, .word word ∈ tokens → known word)
    (pending : pass.PendingIn known) : pass.steps schema tokens = pass.steps other tokens := by
  induction tokens generalizing pass with
  | nil => rfl
  | cons token rest ih =>
      have knownFirst : ∀ word, token = .word word → known word := by
        rintro word rfl
        exact knownWords word List.mem_cons_self
      rw [steps_cons, steps_cons, step_congr agree knownFirst pending]
      cases stepped : pass.step other token with
      | error rejection => rfl
      | ok next =>
          have knownRest : ∀ word, .word word ∈ rest → known word := by
            intro word member
            exact knownWords word (List.mem_cons_of_mem token member)
          exact ih knownRest (pendingIn_step knownFirst pending stepped)

theorem run_congr (agree : ∀ name, known name → schema.kind? name = other.kind? name)
    {tokens : List Token} (knownWords : ∀ word, .word word ∈ tokens → known word) :
    run schema tokens = run other tokens := by
  rw [run, run, steps_congr agree knownWords pendingIn_start]

end Pass

/-- A derivation stays one under every schema that gives its fields the same kinds. -/
theorem Derives.of_extension
    (kept : ∀ field kind, schema.kind? field = some kind → other.kind? field = some kind)
    {phrase : Phrase} {tokens : List Token} {node : Condition}
    (derivation : Derives schema phrase tokens node) : Derives other phrase tokens node := by
  induction derivation with
  | comparison known valued => exact .comparison (kept _ _ known) valued
  | group _ ih => exact .group ih
  | single _ ih => exact .single ih
  | join _ _ ihBefore ihAfter => exact .join ihBefore ihAfter

theorem compile_congr {query : String}
    (agree : ∀ word ∈ words (trim query.toList), schema.kind? word = other.kind? word) :
    compile schema query = compile other query := by
  cases paired : Pairing.ofText (trim query.toList) with
  | error rejection => simp only [compile, compileTrimmed, paired, error_bind]
  | ok pairing =>
      by_cases few : combinatorWords (trim query.toList) ≤ combinatorLimit
      · rw [compile_eq_run_of_ofText paired few, compile_eq_run_of_ofText paired few]
        apply Pass.run_congr agree
        intro word member
        rw [words_eq_filterMap_ofText]
        exact List.mem_filterMap.mpr ⟨.word word, member, rfl⟩
      · simp only [compile, compileTrimmed, paired, ok_bind, if_pos (Nat.not_le.mp few)]

theorem compile_of_extension
    (kept : ∀ field kind, schema.kind? field = some kind → other.kind? field = some kind)
    {query : String} {condition : Condition} (compiled : compile schema query = .ok condition) :
    compile other query = .ok condition := by
  rcases derives_of_compile compiled with ⟨nests, few, derivation⟩
  exact compile_of_derives nests few (derivation.of_extension kept)

end Agreement

/-! ## Adding fields -/

namespace Schema

/-- A schema with more fields, written one after another over those it has. -/
def adding (schema : Schema) (fields : List (String × Kind)) : Schema :=
  ⟨schema.name, fields.foldl (fun held field => held.insert field.1 field.2) schema.fields⟩

theorem kind?_adding_of_ne {schema : Schema} {fields : List (String × Kind)} {name : String}
    (absent : ∀ field ∈ fields, field.1 ≠ name) :
    (schema.adding fields).kind? name = schema.kind? name := by
  apply Option.ext
  intro kind
  rw [kind?, adding, Dictionary.get?_foldl_insert_eq_some_iff]
  constructor
  · rintro (last | ⟨_, found⟩)
    · exact absurd rfl (absent _ last.mem)
    · exact found
  · intro found
    exact .inr ⟨absent, found⟩

theorem kind?_adding_of_known {schema : Schema} {fields : List (String × Kind)}
    (new : ∀ field ∈ fields, schema.contains field.1 = false) {name : String} {kind : Kind}
    (known : schema.kind? name = some kind) : (schema.adding fields).kind? name = some kind := by
  rw [kind?_adding_of_ne, known]
  rintro field member rfl
  have missing := new field member
  rw [contains_of_kind? known] at missing
  cases missing

end Schema

/-- A query is compiled alike by schemas that agree on its words.  In particular fields
that it does not mention can be added, and any new fields can be added without a change
to the condition of a query that was accepted. -/
theorem compile_depends_on_words (query : String) :
    (∀ schema other : Schema,
      (∀ word ∈ words (trim query.toList), schema.kind? word = other.kind? word) →
        compile schema query = compile other query) ∧
    (∀ (schema : Schema) (fields : List (String × Kind)),
      (∀ field ∈ fields, field.1 ∉ words (trim query.toList)) →
        compile (schema.adding fields) query = compile schema query) ∧
    ∀ (schema : Schema) (fields : List (String × Kind)) (condition : Condition),
      (∀ field ∈ fields, schema.contains field.1 = false) →
        compile schema query = .ok condition →
          compile (schema.adding fields) query = .ok condition := by
  refine ⟨fun schema other agree => compile_congr agree, fun schema fields unmentioned => ?_,
    fun schema fields condition new compiled => ?_⟩
  · apply compile_congr
    intro word mentioned
    apply Schema.kind?_adding_of_ne
    rintro field member rfl
    exact unmentioned field member mentioned
  · apply compile_of_extension _ compiled
    intro name kind known
    exact Schema.kind?_adding_of_known new known

/-- Two schemas with one field in common reject a query for the same literal, and a new
field that is spelled like a literal leaves a condition as it is. -/
theorem compile_depends_on_words_of_common_field :
    (∀ word ∈ words (trim "(b gt 1) or b lt soon".toList),
        (Schema.ofFields "sample" [("a", .text), ("b", .int32)]).kind? word =
          (Schema.ofFields "other" [("and", .email), ("b", .int32)]).kind? word) ∧
      compile (Schema.ofFields "sample" [("a", .text), ("b", .int32)])
          "(b gt 1) or b lt soon" =
        compile (Schema.ofFields "other" [("and", .email), ("b", .int32)])
          "(b gt 1) or b lt soon" ∧
      compile (Schema.ofFields "other" [("and", .email), ("b", .int32)])
          "(b gt 1) or b lt soon" = .error (.invalidValue "soon" .int32) ∧
      compile ((Schema.ofFields "sample" [("a", .text)]).adding [("x", .int32), ("x", .email)])
          "a eq x" = .ok (.comparison "a" .equal (.text "x")) := by
  have found : words (trim "(b gt 1) or b lt soon".toList) =
      ["b", "gt", "1", "or", "b", "lt", "soon"] := by
    decide +kernel
  have agree : ∀ word ∈ words (trim "(b gt 1) or b lt soon".toList),
      (Schema.ofFields "sample" [("a", .text), ("b", .int32)]).kind? word =
        (Schema.ofFields "other" [("and", .email), ("b", .int32)]).kind? word := by
    rw [found]
    decide
  refine ⟨agree, (compile_depends_on_words _).1 _ _ agree, by decide +kernel, ?_⟩
  exact (compile_depends_on_words _).2.2 _ _ _ (by decide) (by decide +kernel)

end FilterQuery
