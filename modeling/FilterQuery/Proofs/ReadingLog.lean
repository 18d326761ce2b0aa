import FilterQuery.Proofs.Culprit
import FilterQuery.Proofs.Traversal

namespace FilterQuery

open Text

/-!
# A log of reading

Some branches of the reader are there only for safety.  Two sides are joined without a look at how
they came to be sides, a group is taken in whatever is expected, and the scanner is prepared for
parentheses that the table does not have.  Whether such a branch is ever taken cannot be seen from
the outcome of reading alone.

Here reading keeps a log beside its outcome: each expectation that it comes to, each pair of sides
that it joins, each group that it takes in, and each parenthesis without partner that the scanner
meets.  Erasing the log gives the reader back, and a rejection by a safeguard has its event in the
log.  A log is sound if none of its events is one that a safeguard is for.

Soundness is composed as the reader is, step by step, and needs nothing new.  An expectation is
reached behind certain tokens, and what `Consumed` says of them bounds what it can hold.  A text
that is matched has no parenthesis without partner for the scanner to meet.
-/

/-- Something that happens while a query is read. -/
inductive Event where
  /-- The reader of a range goes on with an expectation. -/
  | expects (expectation : Expectation)
  /-- Two sides are joined. -/
  | joins (left : Side) (between : Operator) (right : Side)
  /-- An expectation takes in a group, given by its condition. -/
  | takesGroup (expectation : Expectation) (node : Condition)
  /-- The scanner meets a parenthesis without partner. -/
  | meetsStray (offset : Nat)
  deriving DecidableEq, Repr

/-- An outcome, and what happened on the way to it. -/
structure Logged (α : Type) where
  events : List Event
  outcome : Except Rejection α
  deriving DecidableEq

namespace Logged

variable {α β : Type}

/-- An outcome to which nothing has led. -/
def quiet (outcome : Except Rejection α) : Logged α := ⟨[], outcome⟩

/-- One event more, in front of the others. -/
def note (event : Event) (logged : Logged α) : Logged α :=
  ⟨event :: logged.events, logged.outcome⟩

/-- One computation behind another.  Nothing happens behind a rejection. -/
instance : Monad Logged where
  pure value := quiet (.ok value)
  bind first proceed :=
    match first.outcome with
    | .error rejection => ⟨first.events, .error rejection⟩
    | .ok value => ⟨first.events ++ (proceed value).events, (proceed value).outcome⟩

end Logged

/-- Join two sides to a condition. -/
def joinLogged (schema : Schema) (left : Side) (between : Operator) (right : Side) :
    Logged Condition :=
  .note (.joins left between right) (.quiet (join schema left between right))

namespace Expectation

/-- Read a word.  Only a literal completes a comparison, and nothing else is joined here. -/
def readWordLogged (schema : Schema) (word : String) : Expectation → Logged Expectation
  | valueOrGroup left (.compare comparator) => do
    let node ← joinLogged schema left (.compare comparator) (.token word)
    return combinatorOrEnd node
  | nestedLiteral left combinator field comparator => do
    let inner ← joinLogged schema (.token field) (.compare comparator) (.token word)
    let node ← joinLogged schema left (.combine combinator) (.node inner)
    return combinatorOrEnd node
  | expectation => .quiet (expectation.readWord schema word)

/-- Read a group, given by its condition. -/
def readGroupLogged (schema : Schema) (node : Condition) (expectation : Expectation) :
    Logged Expectation :=
  .note (.takesGroup expectation node)
    (match expectation with
    | valueOrGroup left between => do
      let joint ← joinLogged schema left between (.node node)
      return combinatorOrEnd joint
    | _ => .quiet (expectation.readGroup schema node))

end Expectation

/-- Read the rest of a range to a condition. -/
def readRangeLogged (schema : Schema) (pairing : Pairing) (place : Place)
    (expectation : Expectation) : Logged Condition :=
  .note (.expects expectation)
    (match _found : place.next pairing with
    | .finished => .quiet expectation.conclude
    | .stray offset => .note (.meetsStray offset) (.quiet (.error (.unbalancedParenthesis offset)))
    | .word _ word after => do
      let next ← expectation.readWordLogged schema word
      readRangeLogged schema pairing after next
    | .group _ _ inside after =>
      if expectation.admitsGroup then do
        let node ← readRangeLogged schema pairing inside .term
        let next ← expectation.readGroupLogged schema node
        readRangeLogged schema pairing after next
      else .quiet (.error (.invalidExpression .unexpectedGroup)))
termination_by place.text.length
decreasing_by
  · exact Place.length_lt_of_next_word _found
  · exact (Place.length_lt_of_next_group _found).1
  · exact (Place.length_lt_of_next_group _found).2

/-- Compile a query against a schema. -/
def compileLogged (schema : Schema) (query : String) : Logged Condition := do
  let text := trim query.toList
  let pairing ← .quiet (Pairing.ofText text)
  if combinatorLimit < combinatorWords text then
    .quiet (.error (.invalidExpression .tooManyCombinators))
  else readRangeLogged schema pairing ⟨0, text⟩ .term

/-! ## Erasing the log -/

namespace Logged

variable {α β : Type}

theorem outcome_bind (first : Logged α) (proceed : α → Logged β) :
    (first >>= proceed).outcome = first.outcome >>= fun value => (proceed value).outcome := by
  rcases first with ⟨events, rejection | value⟩ <;> rfl

theorem mem_events_bind {first : Logged α} {proceed : α → Logged β} {event : Event} :
    event ∈ (first >>= proceed).events ↔
      event ∈ first.events ∨
        ∃ value, first.outcome = .ok value ∧ event ∈ (proceed value).events := by
  rcases first with ⟨events, rejection | value⟩
  · refine ⟨.inl, fun either => either.resolve_right ?_⟩
    rintro ⟨_, impossible, _⟩
    cases impossible
  · refine List.mem_append.trans (or_congr_right ⟨fun after => ⟨value, rfl, after⟩, ?_⟩)
    rintro ⟨_, ⟨⟩, after⟩
    exact after

end Logged

variable {schema : Schema} {pairing : Pairing} {place : Place} {expectation : Expectation}

theorem outcome_joinLogged (schema : Schema) (left : Side) (between : Operator) (right : Side) :
    (joinLogged schema left between right).outcome = join schema left between right := rfl

theorem Expectation.outcome_readWordLogged (schema : Schema) (word : String)
    (expectation : Expectation) :
    (expectation.readWordLogged schema word).outcome = expectation.readWord schema word := by
  cases expectation with
  | valueOrGroup left between =>
      cases between with
      | compare comparator =>
          rw [readWordLogged, Logged.outcome_bind, outcome_joinLogged, readWord]
          cases join schema left (.compare comparator) (.token word) <;> rfl
      | combine combinator => rfl
  | nestedLiteral left combinator field comparator =>
      rw [readWordLogged, readWord]
      simp only [Logged.outcome_bind]
      rfl
  | term | operator | combinatorOrEnd | nestedComparator => rfl

theorem Expectation.outcome_readGroupLogged (schema : Schema) (node : Condition)
    (expectation : Expectation) :
    (expectation.readGroupLogged schema node).outcome = expectation.readGroup schema node := by
  cases expectation with
  | valueOrGroup left between =>
      rw [readGroupLogged, readGroup, Logged.note, Logged.outcome_bind, outcome_joinLogged]
      cases join schema left between (.node node) <;> rfl
  | term | operator | combinatorOrEnd | nestedComparator | nestedLiteral => rfl

section Equations

variable {start opening closing offset : Nat} {word : String} {inside after : Place}

theorem readRangeLogged_finished (found : place.next pairing = .finished) :
    readRangeLogged schema pairing place expectation =
      .note (.expects expectation) (.quiet expectation.conclude) := by
  rw [readRangeLogged]
  split <;> simp_all

theorem readRangeLogged_stray (found : place.next pairing = .stray offset) :
    readRangeLogged schema pairing place expectation =
      .note (.expects expectation)
        (.note (.meetsStray offset) (.quiet (.error (.unbalancedParenthesis offset)))) := by
  rw [readRangeLogged]
  split <;> simp_all

theorem readRangeLogged_word (found : place.next pairing = .word start word after) :
    readRangeLogged schema pairing place expectation =
      .note (.expects expectation)
        (expectation.readWordLogged schema word >>= readRangeLogged schema pairing after) := by
  rw [readRangeLogged]
  split <;> simp_all

theorem readRangeLogged_group (found : place.next pairing = .group opening closing inside after) :
    readRangeLogged schema pairing place expectation =
      .note (.expects expectation)
        (if expectation.admitsGroup then
          readRangeLogged schema pairing inside .term >>= fun node =>
            expectation.readGroupLogged schema node >>= readRangeLogged schema pairing after
        else .quiet (.error (.invalidExpression .unexpectedGroup))) := by
  rw [readRangeLogged]
  split <;> simp_all

end Equations

theorem outcome_readRangeLogged (schema : Schema) (pairing : Pairing) (place : Place)
    (expectation : Expectation) :
    (readRangeLogged schema pairing place expectation).outcome =
      readRange schema pairing place expectation := by
  fun_induction readRange schema pairing place expectation with
  | case1 place expectation found => rw [readRangeLogged_finished found]; rfl
  | case2 place expectation offset found => rw [readRangeLogged_stray found]; rfl
  | case3 place expectation start word after found ih =>
      rw [readRangeLogged_word found, Logged.note, Logged.outcome_bind,
        Expectation.outcome_readWordLogged]
      simp only [ih]
  | case4 place expectation opening closing inside after found admits ihInside ihAfter =>
      rw [readRangeLogged_group found, if_pos admits, Logged.note, Logged.outcome_bind, ihInside]
      simp only [Logged.outcome_bind, Expectation.outcome_readGroupLogged, ihAfter]
  | case5 place expectation opening closing inside after found refused =>
      rw [readRangeLogged_group found, if_neg refused]
      rfl

theorem outcome_compileLogged (schema : Schema) (query : String) :
    (compileLogged schema query).outcome = compile schema query := by
  rw [compileLogged, Logged.outcome_bind, compile, compileTrimmed]
  apply bind_congr
  intro pairing
  split
  · rfl
  · exact outcome_readRangeLogged _ _ _ _

/-! ## What the log accounts for -/

/-- The rejections that only a safeguard of the reader gives: a comparison is joined on a field
that the schema does not have, or the scanner meets a parenthesis without partner. -/
def Rejection.FromSafeguard : Rejection → Prop
  | .invalidExpression .fieldOutsideSchema => True
  | .unbalancedParenthesis _ => True
  | _ => False

/-- A safeguard is what rejects in an event. -/
def Event.Triggers (schema : Schema) (rejection : Rejection) : Event → Prop
  | .joins left between right => join schema left between right = .error rejection
  | .meetsStray offset => rejection = .unbalancedParenthesis offset
  | .expects _ => False
  | .takesGroup _ _ => False

/-- A rejection by a safeguard has its event in the log. -/
def Logged.Accounts {α : Type} (schema : Schema) (logged : Logged α) : Prop :=
  ∀ rejection : Rejection, rejection.FromSafeguard → logged.outcome = .error rejection →
    ∃ event ∈ logged.events, event.Triggers schema rejection

namespace Logged.Accounts

variable {α β : Type}

theorem quiet {outcome : Except Rejection α}
    (harmless : ∀ rejection, outcome = .error rejection → ¬rejection.FromSafeguard) :
    (Logged.quiet outcome).Accounts schema :=
  fun rejection safeguard refused => absurd safeguard (harmless rejection refused)

theorem ok (value : α) : (pure value : Logged α).Accounts schema := by
  refine quiet ?_
  rintro _ ⟨⟩

theorem note {logged : Logged α} (accounts : logged.Accounts schema) (event : Event) :
    (logged.note event).Accounts schema := by
  intro rejection safeguard refused
  rcases accounts rejection safeguard refused with ⟨cause, member, triggers⟩
  exact ⟨cause, List.mem_cons_of_mem _ member, triggers⟩

theorem bind {first : Logged α} {proceed : α → Logged β} (before : first.Accounts schema)
    (after : ∀ value, (proceed value).Accounts schema) : (first >>= proceed).Accounts schema := by
  intro rejection safeguard refused
  rw [outcome_bind] at refused
  rcases bind_eq_error_iff.mp refused with early | ⟨value, passed, late⟩
  · rcases before rejection safeguard early with ⟨cause, member, triggers⟩
    exact ⟨cause, mem_events_bind.mpr (.inl member), triggers⟩
  · rcases after value rejection safeguard late with ⟨cause, member, triggers⟩
    exact ⟨cause, mem_events_bind.mpr (.inr ⟨value, passed, member⟩), triggers⟩

end Logged.Accounts

theorem accounts_joinLogged (schema : Schema) (left : Side) (between : Operator) (right : Side) :
    (joinLogged schema left between right).Accounts schema :=
  fun _ _ refused => ⟨_, List.mem_cons_self, refused⟩

namespace Expectation

/-- No word is refused by a safeguard in the operator that it should spell. -/
theorem not_fromSafeguard_of_operatorOf {word : String} {rejection : Rejection}
    (refused : operatorOf word = .error rejection) : ¬rejection.FromSafeguard := by
  rw [(operatorOf_eq_error refused).1]
  exact id

/-- A word that should be a field is refused as unknown. -/
theorem not_fromSafeguard_of_field {word : String} {next : Expectation} {rejection : Rejection}
    (refused : (if schema.contains word then .ok next else .error (.unknownTerm word) :
      Except Rejection Expectation) = .error rejection) : ¬rejection.FromSafeguard := by
  split at refused <;> cases refused
  exact id

theorem accounts_readWordLogged (schema : Schema) (word : String) (expectation : Expectation) :
    (expectation.readWordLogged schema word).Accounts schema := by
  cases expectation with
  | term => exact .quiet fun _ refused => not_fromSafeguard_of_field refused
  | operator field =>
      exact .quiet fun _ refused => not_fromSafeguard_of_operatorOf (map_eq_error_iff.mp refused)
  | combinatorOrEnd node =>
      exact .quiet fun _ refused => not_fromSafeguard_of_operatorOf (map_eq_error_iff.mp refused)
  | valueOrGroup left between =>
      cases between with
      | compare comparator => exact (accounts_joinLogged _ _ _ _).bind fun _ => .ok _
      | combine combinator => exact .quiet fun _ refused => not_fromSafeguard_of_field refused
  | nestedComparator left combinator field =>
      refine .quiet fun rejection refused => ?_
      rw [readWord] at refused
      split at refused <;> cases refused
      exact id
  | nestedLiteral left combinator field comparator =>
      exact (accounts_joinLogged _ _ _ _).bind fun _ =>
        (accounts_joinLogged _ _ _ _).bind fun _ => .ok _

theorem accounts_readGroupLogged (schema : Schema) (node : Condition)
    (expectation : Expectation) : (expectation.readGroupLogged schema node).Accounts schema := by
  refine .note ?_ _
  cases expectation with
  | valueOrGroup left between => exact (accounts_joinLogged _ _ _ _).bind fun _ => .ok _
  | term => exact .ok _
  | operator | combinatorOrEnd | nestedComparator | nestedLiteral =>
      refine .quiet ?_
      rintro _ ⟨⟩
      exact id

theorem not_fromSafeguard_of_conclude {expectation : Expectation} {rejection : Rejection}
    (refused : expectation.conclude = .error rejection) : ¬rejection.FromSafeguard := by
  cases expectation <;> cases refused <;> exact id

end Expectation

/-- Where reading is stopped by a safeguard, the log says which. -/
theorem accounts_readRangeLogged (schema : Schema) (pairing : Pairing) (place : Place)
    (expectation : Expectation) :
    (readRangeLogged schema pairing place expectation).Accounts schema := by
  fun_induction readRange schema pairing place expectation with
  | case1 place expectation found =>
      rw [readRangeLogged_finished found]
      exact .note (.quiet fun _ refused => Expectation.not_fromSafeguard_of_conclude refused) _
  | case2 place expectation offset found =>
      rw [readRangeLogged_stray found]
      refine .note ?_ _
      rintro _ _ ⟨⟩
      exact ⟨_, List.mem_cons_self, rfl⟩
  | case3 place expectation start word after found ih =>
      rw [readRangeLogged_word found]
      exact .note ((expectation.accounts_readWordLogged schema word).bind ih) _
  | case4 place expectation opening closing inside after found admits ihInside ihAfter =>
      rw [readRangeLogged_group found, if_pos admits]
      exact .note (ihInside.bind fun node =>
        (expectation.accounts_readGroupLogged schema node).bind ihAfter) _
  | case5 place expectation opening closing inside after found refused =>
      rw [readRangeLogged_group found, if_neg refused]
      refine .note (.quiet ?_) _
      rintro _ ⟨⟩
      exact id

/-! ## What is pending -/

/-- Each comparison is on a field of the schema, with a value of the kind of that field. -/
def Condition.Typed (schema : Schema) (condition : Condition) : Prop :=
  condition.EveryLeaf fun field value => schema.kind? field = some value.kind

theorem Derives.typed {phrase : Phrase} {tokens : List Token} {node : Condition}
    (derivation : Derives schema phrase tokens node) : node.Typed schema :=
  derivation.everyLeaf_kind.imp fun _ _ known => known.2

/-- A side that waits for the other one is a field of the schema, or a typed condition. -/
def Side.Sound (schema : Schema) : Side → Prop
  | .token text => schema.contains text = true
  | .node condition => condition.Typed schema

/-- Whatever an expectation holds is a field of the schema, or a typed condition. -/
def Expectation.Sound (schema : Schema) : Expectation → Prop
  | .term => True
  | .operator field => schema.contains field = true
  | .combinatorOrEnd node => node.Typed schema
  | .valueOrGroup left _ => left.Sound schema
  | .nestedComparator left _ field => left.Sound schema ∧ schema.contains field = true
  | .nestedLiteral left _ field _ => left.Sound schema ∧ schema.contains field = true

theorem Side.Consumed.sound {side : Side} {tokens : List Token}
    (consumed : side.Consumed schema tokens) : side.Sound schema := by
  cases side with
  | token text => exact consumed.2
  | node condition => exact Derives.typed consumed

/-- The tokens that have led to an expectation make what it holds sound. -/
theorem Expectation.Consumed.sound {tokens : List Token}
    (consumed : expectation.Consumed schema tokens) : expectation.Sound schema := by
  cases expectation with
  | term => trivial
  | operator field => exact consumed.2
  | combinatorOrEnd node => exact Derives.typed consumed
  | valueOrGroup left between =>
      rcases consumed with ⟨before, side, _⟩
      exact side.sound
  | nestedComparator left combinator field =>
      rcases consumed with ⟨before, side, known, _⟩
      exact ⟨side.sound, known⟩
  | nestedLiteral left combinator field comparator =>
      rcases consumed with ⟨before, side, known, _⟩
      exact ⟨side.sound, known⟩

/-- Behind a sound side, no safeguard rejects when the sides are joined. -/
theorem Side.Sound.not_fromSafeguard_of_join {left right : Side} {between : Operator}
    {rejection : Rejection} (sound : left.Sound schema)
    (refused : join schema left between right = .error rejection) : ¬rejection.FromSafeguard := by
  unfold join at refused
  split at refused
  next field comparator literal =>
    split at refused
    next unknown =>
      have known : (schema.kind? field).isSome = true := sound
      rw [unknown] at known
      cases known
    next kind _ =>
      rw [(Kind.valueOf_eq_error_iff.mp (map_eq_error_iff.mp refused)).2]
      exact id
  next => cases refused
  next =>
    cases refused
    exact id
  next =>
    cases refused
    exact id

/-! ## Sound logs -/

/-- No event is one that a safeguard is for. -/
def Event.Sound (schema : Schema) : Event → Prop
  | .expects expectation => expectation.Sound schema
  | .joins left between right =>
    join schema left between right ≠ .error (.invalidExpression .fieldOutsideSchema)
  | .takesGroup expectation _ =>
    expectation = .term ∨ ∃ left between, expectation = .valueOrGroup left between
  | .meetsStray _ => False

/-- All that happens is sound, and a value that comes out has a property. -/
structure Logged.Sound {α : Type} (schema : Schema) (property : α → Prop) (logged : Logged α) :
    Prop where
  events : ∀ event ∈ logged.events, event.Sound schema
  accepted : ∀ value, logged.outcome = .ok value → property value

namespace Logged.Sound

variable {α β : Type} {property : α → Prop} {further : β → Prop}

theorem quiet {outcome : Except Rejection α}
    (accepted : ∀ value, outcome = .ok value → property value) :
    (Logged.quiet outcome).Sound schema property :=
  ⟨fun _ impossible => (List.not_mem_nil impossible).elim, accepted⟩

theorem ok {value : α} (holds : property value) :
    (pure value : Logged α).Sound schema property := by
  refine quiet ?_
  rintro _ ⟨⟩
  exact holds

theorem note {logged : Logged α} {event : Event} (sound : event.Sound schema)
    (others : logged.Sound schema property) : (logged.note event).Sound schema property :=
  ⟨List.forall_mem_cons.mpr ⟨sound, others.events⟩, others.accepted⟩

theorem bind {first : Logged α} {proceed : α → Logged β} (before : first.Sound schema property)
    (after : ∀ value, property value → (proceed value).Sound schema further) :
    (first >>= proceed).Sound schema further := by
  refine ⟨fun event member => ?_, fun result accepted => ?_⟩
  · rcases mem_events_bind.mp member with early | ⟨value, passed, late⟩
    · exact before.events event early
    · exact (after value (before.accepted value passed)).events event late
  · rw [outcome_bind] at accepted
    rcases bind_eq_ok_iff.mp accepted with ⟨value, passed, late⟩
    exact (after value (before.accepted value passed)).accepted result late

/-- What comes out of a sound log may be said by its outcome alone. -/
theorem accepting {logged : Logged α} (sound : logged.Sound schema fun _ => True)
    (accepted : ∀ value, logged.outcome = .ok value → property value) :
    logged.Sound schema property :=
  ⟨sound.events, accepted⟩

end Logged.Sound

/-- Sides are joined soundly behind a sound one. -/
theorem sound_joinLogged {left right : Side} {between : Operator} (sound : left.Sound schema) :
    (joinLogged schema left between right).Sound schema fun _ => True :=
  .note (fun refused => sound.not_fromSafeguard_of_join refused trivial) (.quiet fun _ _ => trivial)

namespace Expectation

theorem sound_readWordLogged {word : String} {tokens : List Token}
    (consumed : expectation.Consumed schema tokens) :
    (expectation.readWordLogged schema word).Sound schema fun next =>
      next.Consumed schema (tokens ++ [.word word]) := by
  refine .accepting ?_ fun next read => ?_
  · have sound := consumed.sound
    cases expectation with
    | valueOrGroup left between =>
        cases between with
        | compare comparator => exact (sound_joinLogged sound).bind fun _ _ => .ok trivial
        | combine combinator => exact .quiet fun _ _ => trivial
    | nestedLiteral left combinator field comparator =>
        rcases sound with ⟨side, known⟩
        have inner : Side.Sound schema (.token field) := known
        exact (sound_joinLogged inner).bind fun _ _ =>
          (sound_joinLogged side).bind fun _ _ => .ok trivial
    | term | operator | combinatorOrEnd | nestedComparator => exact .quiet fun _ _ => trivial
  · rw [outcome_readWordLogged] at read
    exact consumed_readWord consumed read

theorem sound_readGroupLogged {node : Condition} {tokens inside : List Token}
    (consumed : expectation.Consumed schema tokens) (admits : expectation.admitsGroup = true)
    (derivation : Derives schema .chain inside node) :
    (expectation.readGroupLogged schema node).Sound schema fun next =>
      next.Consumed schema (tokens ++ .opening :: (inside ++ [.closing])) := by
  refine .accepting ?_ fun next read => ?_
  · have sound := consumed.sound
    cases expectation with
    | term => exact .note (.inl rfl) (.quiet fun _ _ => trivial)
    | valueOrGroup left between =>
        exact .note (.inr ⟨left, between, rfl⟩)
          ((sound_joinLogged sound).bind fun _ _ => .ok trivial)
    | operator | combinatorOrEnd | nestedComparator | nestedLiteral => cases admits
  · rw [outcome_readGroupLogged] at read
    exact consumed_readGroup consumed derivation read

end Expectation

/-- Reading a matched range is sound, and makes a chain of whatever its tokens are. -/
theorem sound_readRangeLogged (consumed : ∃ tokens, expectation.Consumed schema tokens)
    (matched : Matched pairing place.offset place.text) :
    (readRangeLogged schema pairing place expectation).Sound schema fun node =>
      ∃ tokens, Derives schema .chain tokens node := by
  fun_induction readRange schema pairing place expectation with
  | case1 place expectation found =>
      rcases consumed with ⟨tokens, consumed⟩
      rw [readRangeLogged_finished found]
      exact .note consumed.sound (.quiet fun node concluded =>
        ⟨tokens, Expectation.derives_of_conclude consumed concluded⟩)
  | case2 place expectation offset found =>
      have fits := Place.fits_next matched
      rw [found] at fits
      exact fits.elim
  | case3 place expectation start word after found ih =>
      rcases consumed with ⟨tokens, consumed⟩
      have fits := Place.fits_next matched
      rw [found] at fits
      rw [readRangeLogged_word found]
      exact .note consumed.sound ((Expectation.sound_readWordLogged consumed).bind
        fun next reached => ih next ⟨_, reached⟩ fits.2)
  | case4 place expectation opening closing inside after found admits ihInside ihAfter =>
      rcases consumed with ⟨tokens, consumed⟩
      have fits := Place.fits_next matched
      rw [found] at fits
      rcases fits with ⟨_, matchedInside, matchedAfter⟩
      rw [readRangeLogged_group found, if_pos admits]
      refine .note consumed.sound ((ihInside ⟨[], rfl⟩ matchedInside).bind fun node derived => ?_)
      rcases derived with ⟨within, derivation⟩
      exact (Expectation.sound_readGroupLogged consumed admits derivation).bind
        fun next reached => ihAfter next ⟨_, reached⟩ matchedAfter
  | case5 place expectation opening closing inside after found refused =>
      rcases consumed with ⟨tokens, consumed⟩
      rw [readRangeLogged_group found, if_neg refused]
      refine .note consumed.sound (.quiet ?_)
      rintro _ ⟨⟩

/-- No safeguard is behind the rejection of a sound log that accounts for it. -/
theorem Logged.Sound.not_fromSafeguard {α : Type} {property : α → Prop} {logged : Logged α}
    {rejection : Rejection} (sound : logged.Sound schema property)
    (accounts : logged.Accounts schema) (refused : logged.outcome = .error rejection) :
    ¬rejection.FromSafeguard := by
  intro safeguard
  rcases accounts rejection safeguard refused with ⟨event, member, triggers⟩
  have harmless := sound.events event member
  cases event with
  | expects expectation => exact triggers
  | joins left between right =>
      rcases join_eq_error triggers with ⟨fault, rfl⟩ | ⟨_, _, _, _, _, _, _, _, valued⟩
      · cases fault with
        | fieldOutsideSchema => exact harmless triggers
        | _ => exact safeguard
      · rw [(Kind.valueOf_eq_error_iff.mp valued).2] at safeguard
        exact safeguard
  | takesGroup expectation node => exact triggers
  | meetsStray offset => exact harmless

theorem sound_compileLogged (schema : Schema) (query : String) :
    (compileLogged schema query).Sound schema fun node =>
      ∃ tokens, Derives schema .chain tokens node := by
  have paired : (Logged.quiet (Pairing.ofText (trim query.toList))).Sound schema fun pairing =>
      Matched pairing 0 (trim query.toList) :=
    .quiet fun _ => Pairing.matched_of_ofText
  rw [compileLogged]
  refine paired.bind fun pairing matched => ?_
  split
  · refine .quiet ?_
    rintro _ ⟨⟩
  · exact sound_readRangeLogged ⟨[], rfl⟩ matched

/-- What a safeguard would reject is rejected by pairing. -/
theorem ofText_of_compile_fromSafeguard {query : String} {rejection : Rejection}
    (rejected : compile schema query = .error rejection) (safeguard : rejection.FromSafeguard) :
    Pairing.ofText (trim query.toList) = .error rejection := by
  rw [compile, compileTrimmed] at rejected
  rcases bind_eq_error_iff.mp rejected with unpaired | ⟨pairing, paired, later⟩
  · exact unpaired
  · split at later
    · cases later
      exact safeguard.elim
    · rw [← outcome_readRangeLogged] at later
      have sound : (readRangeLogged schema pairing ⟨0, trim query.toList⟩ .term).Sound schema _ :=
        sound_readRangeLogged ⟨[], rfl⟩ (Pairing.matched_of_ofText paired)
      exact absurd safeguard (sound.not_fromSafeguard (accounts_readRangeLogged _ _ _ _) later)

/-- While a query is read, whatever an expectation holds is a field of the schema or a typed
condition, no comparison is joined on a field outside the schema, groups are taken in only where
one may stand, and the scanner meets no parenthesis without partner.  So none of these is what a
query is rejected for, and a parenthesis is blamed by pairing alone. -/
theorem reading_reaches_no_safeguard (schema : Schema) (query : String) :
    (compileLogged schema query).outcome = compile schema query ∧
      (∀ event ∈ (compileLogged schema query).events, event.Sound schema) ∧
      compile schema query ≠ .error (.invalidExpression .fieldOutsideSchema) ∧
      ∀ offset, compile schema query = .error (.unbalancedParenthesis offset) ↔
        Pairing.ofText (trim query.toList) = .error (.unbalancedParenthesis offset) := by
  refine ⟨outcome_compileLogged schema query, (sound_compileLogged schema query).events,
    fun rejected => ?_, fun offset => ⟨fun rejected => ?_, fun unpaired => ?_⟩⟩
  · have explains := Pairing.ofText_explains (trim query.toList)
    rw [ofText_of_compile_fromSafeguard rejected trivial] at explains
    exact explains
  · exact ofText_of_compile_fromSafeguard rejected trivial
  · rw [compile, compileTrimmed, unpaired, error_bind]

/-- What happens up to the literal that is refused behind a group. -/
example :
    let node : Condition := .comparison "a" .equal (.text "x")
    compileLogged (Schema.ofFields "sample" [("a", .text), ("b", .int32)]) "(a eq x)and b lt soon" =
      ⟨[.expects .term, .expects .term, .expects (.operator "a"),
          .expects (.valueOrGroup (.token "a") (.compare .equal)),
          .joins (.token "a") (.compare .equal) (.token "x"), .expects (.combinatorOrEnd node),
          .takesGroup .term node, .expects (.combinatorOrEnd node),
          .expects (.valueOrGroup (.node node) (.combine .conjunction)),
          .expects (.nestedComparator (.node node) .conjunction "b"),
          .expects (.nestedLiteral (.node node) .conjunction "b" .less),
          .joins (.token "b") (.compare .less) (.token "soon")],
        .error (.invalidValue "soon" .int32)⟩ := by
  decide +kernel

end FilterQuery
