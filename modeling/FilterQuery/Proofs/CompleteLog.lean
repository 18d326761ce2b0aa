import FilterQuery.Proofs.ReadingLog

namespace FilterQuery

open Text

/-!
# Nothing is missing from the log

That no event of a log is one that a safeguard is for says nothing about what was never noted.  So
it is shown here what every log has to contain.

`Chronicle` is the reader of a range as a relation, with the log beside it.  It goes through the
items of the range and not through the log: wherever the reader is with an expectation, that
expectation comes next in the log, and what reading the item makes of it is the one that comes after
the joins of that item.  A group has its own chronicle, from the start of a range, before it is
taken in.

Joins are accounted for by what comes of them.  A condition is only ever made by joining two sides,
and `MadeIn` says that it and every part of it were made in some events.  Whatever is held behind
these events is made in them, from the first item to the condition that comes out.
-/

/-- Two sides are joined. -/
def Event.IsJoin : Event → Prop
  | .joins _ _ _ => True
  | _ => False

/-- An event makes a condition from two sides. -/
def Event.Makes (schema : Schema) (node : Condition) : Event → Prop
  | .joins left between right => join schema left between right = .ok node
  | _ => False

/-- The reader of a range comes from an expectation to an outcome, past some events. -/
inductive Chronicle (schema : Schema) (pairing : Pairing) :
    Place → Expectation → List Event → Except Rejection Condition → Prop
  /-- The range ends, and what is expected decides. -/
  | finished {place : Place} {expectation : Expectation} (found : place.next pairing = .finished) :
    Chronicle schema pairing place expectation [.expects expectation] expectation.conclude
  /-- A parenthesis without partner is met. -/
  | stray {place : Place} {expectation : Expectation} {offset : Nat}
    (found : place.next pairing = .stray offset) :
    Chronicle schema pairing place expectation [.expects expectation, .meetsStray offset]
      (.error (.unbalancedParenthesis offset))
  /-- A word is read, and the range is read on. -/
  | word {place after : Place} {expectation next : Expectation} {start : Nat} {word : String}
    {joins events : List Event} {outcome : Except Rejection Condition}
    (found : place.next pairing = .word start word after)
    (read : expectation.readWord schema word = .ok next) (joined : ∀ event ∈ joins, event.IsJoin)
    (rest : Chronicle schema pairing after next events outcome) :
    Chronicle schema pairing place expectation (.expects expectation :: (joins ++ events)) outcome
  /-- A word is refused. -/
  | wordRefused {place after : Place} {expectation : Expectation} {start : Nat} {word : String}
    {joins : List Event} {rejection : Rejection}
    (found : place.next pairing = .word start word after)
    (refused : expectation.readWord schema word = .error rejection)
    (joined : ∀ event ∈ joins, event.IsJoin) :
    Chronicle schema pairing place expectation (.expects expectation :: joins) (.error rejection)
  /-- A group is read and taken in, and the range is read on. -/
  | group {place inside after : Place} {expectation next : Expectation} {opening closing : Nat}
    {node : Condition} {within joins events : List Event} {outcome : Except Rejection Condition}
    (found : place.next pairing = .group opening closing inside after)
    (admits : expectation.admitsGroup = true)
    (inner : Chronicle schema pairing inside .term within (.ok node))
    (read : expectation.readGroup schema node = .ok next) (joined : ∀ event ∈ joins, event.IsJoin)
    (rest : Chronicle schema pairing after next events outcome) :
    Chronicle schema pairing place expectation
      (.expects expectation ::
        (within ++ (.takesGroup expectation node :: joins ++ events))) outcome
  /-- A group is read and refused where it stands. -/
  | groupRefused {place inside after : Place} {expectation : Expectation} {opening closing : Nat}
    {node : Condition} {within joins : List Event} {rejection : Rejection}
    (found : place.next pairing = .group opening closing inside after)
    (admits : expectation.admitsGroup = true)
    (inner : Chronicle schema pairing inside .term within (.ok node))
    (refused : expectation.readGroup schema node = .error rejection)
    (joined : ∀ event ∈ joins, event.IsJoin) :
    Chronicle schema pairing place expectation
      (.expects expectation :: (within ++ .takesGroup expectation node :: joins))
      (.error rejection)
  /-- A group is refused by what it holds. -/
  | insideRefused {place inside after : Place} {expectation : Expectation} {opening closing : Nat}
    {within : List Event} {rejection : Rejection}
    (found : place.next pairing = .group opening closing inside after)
    (admits : expectation.admitsGroup = true)
    (inner : Chronicle schema pairing inside .term within (.error rejection)) :
    Chronicle schema pairing place expectation (.expects expectation :: within) (.error rejection)
  /-- No group may stand here. -/
  | unexpected {place inside after : Place} {expectation : Expectation} {opening closing : Nat}
    (found : place.next pairing = .group opening closing inside after)
    (admits : ¬expectation.admitsGroup = true) :
    Chronicle schema pairing place expectation [.expects expectation]
      (.error (.invalidExpression .unexpectedGroup))

variable {schema : Schema} {pairing : Pairing} {place : Place} {expectation : Expectation}

/-! ## Every expectation is noted -/

namespace Logged

variable {α β : Type} {first : Logged α} {proceed : α → Logged β}

/-- Nothing happens behind a rejection. -/
theorem events_bind_of_error {rejection : Rejection} (refused : first.outcome = .error rejection) :
    (first >>= proceed).events = first.events := by
  rcases first with ⟨events, outcome⟩
  cases refused
  rfl

theorem events_bind_of_ok {value : α} (passed : first.outcome = .ok value) :
    (first >>= proceed).events = first.events ++ (proceed value).events := by
  rcases first with ⟨events, outcome⟩
  cases passed
  rfl

/-- Two computations that only join only join together. -/
theorem isJoin_bind (before : ∀ event ∈ first.events, event.IsJoin)
    (behind : ∀ value, ∀ event ∈ (proceed value).events, event.IsJoin) :
    ∀ event ∈ (first >>= proceed).events, event.IsJoin := by
  intro event member
  rcases mem_events_bind.mp member with early | ⟨value, _, late⟩
  · exact before event early
  · exact behind value event late

end Logged

theorem isJoin_joinLogged (schema : Schema) (left : Side) (between : Operator) (right : Side) :
    ∀ event ∈ (joinLogged schema left between right).events, event.IsJoin :=
  List.forall_mem_singleton.mpr trivial

namespace Expectation

theorem isJoin_readWordLogged (schema : Schema) (word : String) (expectation : Expectation) :
    ∀ event ∈ (expectation.readWordLogged schema word).events, event.IsJoin := by
  cases expectation with
  | valueOrGroup left between =>
      cases between with
      | compare comparator =>
          exact Logged.isJoin_bind (isJoin_joinLogged _ _ _ _) fun _ => List.forall_mem_nil _
      | combine combinator => exact List.forall_mem_nil _
  | nestedLiteral left combinator field comparator =>
      exact Logged.isJoin_bind (isJoin_joinLogged _ _ _ _) fun _ =>
        Logged.isJoin_bind (isJoin_joinLogged _ _ _ _) fun _ => List.forall_mem_nil _
  | term | operator | combinatorOrEnd | nestedComparator => exact List.forall_mem_nil _

/-- That a group is taken in is noted first, and behind it what is joined. -/
theorem events_readGroupLogged (schema : Schema) (node : Condition) (expectation : Expectation) :
    ∃ joins, (expectation.readGroupLogged schema node).events =
        .takesGroup expectation node :: joins ∧ ∀ event ∈ joins, event.IsJoin := by
  refine ⟨_, rfl, ?_⟩
  cases expectation with
  | valueOrGroup left between =>
      exact Logged.isJoin_bind (isJoin_joinLogged _ _ _ _) fun _ => List.forall_mem_nil _
  | term | operator | combinatorOrEnd | nestedComparator | nestedLiteral =>
      exact List.forall_mem_nil _

end Expectation

/-- The log of reading a range is a chronicle of it. -/
theorem chronicle_readRangeLogged (schema : Schema) (pairing : Pairing) (place : Place)
    (expectation : Expectation) :
    Chronicle schema pairing place expectation
      (readRangeLogged schema pairing place expectation).events
      (readRange schema pairing place expectation) := by
  fun_induction readRange schema pairing place expectation with
  | case1 place expectation found =>
      rw [readRangeLogged_finished found]
      exact .finished found
  | case2 place expectation offset found =>
      rw [readRangeLogged_stray found]
      exact .stray found
  | case3 place expectation start word after found ih =>
      rw [readRangeLogged_word found, Logged.note]
      have logged := expectation.outcome_readWordLogged schema word
      have joined := expectation.isJoin_readWordLogged schema word
      cases read : expectation.readWord schema word with
      | ok next =>
          rw [Logged.events_bind_of_ok (logged.trans read), ok_bind]
          exact .word found read joined (ih next)
      | error rejection =>
          rw [Logged.events_bind_of_error (logged.trans read), error_bind]
          exact .wordRefused found read joined
  | case4 place expectation opening closing inside after found admits ihInside ihAfter =>
      rw [readRangeLogged_group found, if_pos admits, Logged.note]
      have loggedInside := outcome_readRangeLogged schema pairing inside .term
      cases readInside : readRange schema pairing inside .term with
      | error rejection =>
          rw [Logged.events_bind_of_error (loggedInside.trans readInside), error_bind]
          rw [readInside] at ihInside
          exact .insideRefused found admits ihInside
      | ok node =>
          rw [Logged.events_bind_of_ok (loggedInside.trans readInside), ok_bind]
          rw [readInside] at ihInside
          have logged := expectation.outcome_readGroupLogged schema node
          rcases expectation.events_readGroupLogged schema node with ⟨joins, noted, joined⟩
          cases read : expectation.readGroup schema node with
          | ok next =>
              rw [Logged.events_bind_of_ok (logged.trans read), ok_bind, noted]
              exact .group found admits ihInside read joined (ihAfter next)
          | error rejection =>
              rw [Logged.events_bind_of_error (logged.trans read), error_bind, noted]
              exact .groupRefused found admits ihInside read joined
  | case5 place expectation opening closing inside after found refused =>
      rw [readRangeLogged_group found, if_neg refused]
      exact .unexpected found refused

/-- Whatever happens in a range, the expectation that it is entered with is the first of it. -/
theorem Chronicle.head?_eq {events : List Event} {outcome : Except Rejection Condition}
    (chronicle : Chronicle schema pairing place expectation events outcome) :
    events.head? = some (.expects expectation) := by
  cases chronicle <;> rfl

theorem compileLogged_of_paired {query : String}
    (paired : Pairing.ofText (trim query.toList) = .ok pairing) :
    compileLogged schema query =
      if combinatorLimit < combinatorWords (trim query.toList) then
        .quiet (.error (.invalidExpression .tooManyCombinators))
      else readRangeLogged schema pairing ⟨0, trim query.toList⟩ .term := by
  rw [compileLogged, paired]
  rfl

/-- A query that is refused before it is read has an empty log.  Any other one has a chronicle that
begins at the start of its text, where a term is expected. -/
theorem chronicle_compileLogged (schema : Schema) (query : String) :
    (((∃ rejection, Pairing.ofText (trim query.toList) = .error rejection) ∨
        combinatorLimit < combinatorWords (trim query.toList)) ∧
      (compileLogged schema query).events = []) ∨
    ∃ pairing, Pairing.ofText (trim query.toList) = .ok pairing ∧
      Chronicle schema pairing ⟨0, trim query.toList⟩ .term (compileLogged schema query).events
        (compile schema query) := by
  cases paired : Pairing.ofText (trim query.toList) with
  | error rejection =>
      refine .inl ⟨.inl ⟨rejection, rfl⟩, ?_⟩
      rw [compileLogged, paired]
      rfl
  | ok pairing =>
      by_cases excess : combinatorLimit < combinatorWords (trim query.toList)
      · refine .inl ⟨.inr excess, ?_⟩
        rw [compileLogged_of_paired paired, if_pos excess]
        rfl
      · refine .inr ⟨pairing, rfl, ?_⟩
        have compiled : compile schema query =
            readRange schema pairing ⟨0, trim query.toList⟩ .term := by
          rw [compile, compileTrimmed, paired, ok_bind, if_neg excess]
        rw [compiled, compileLogged_of_paired paired, if_neg excess]
        exact chronicle_readRangeLogged _ _ _ _

/-! ## Every join is noted -/

/-- A condition and every part of it are made in some events. -/
def Condition.MadeIn (schema : Schema) (events : List Event) : Condition → Prop
  | comparison field comparator value =>
    ∃ event ∈ events, event.Makes schema (.comparison field comparator value)
  | combination combinator left right =>
    (∃ event ∈ events, event.Makes schema (.combination combinator left right)) ∧
      left.MadeIn schema events ∧ right.MadeIn schema events

/-- A side that is a condition is made in some events. -/
def Side.MadeIn (schema : Schema) (events : List Event) : Side → Prop
  | .token _ => True
  | .node condition => condition.MadeIn schema events

/-- The conditions that an expectation holds are made in some events. -/
def Expectation.MadeIn (schema : Schema) (events : List Event) : Expectation → Prop
  | .term | .operator _ => True
  | .combinatorOrEnd node => node.MadeIn schema events
  | .valueOrGroup left _ | .nestedComparator left _ _ | .nestedLiteral left _ _ _ =>
    left.MadeIn schema events

section Later

variable {events later : List Event}

/-- What has been made stays made. -/
theorem Condition.MadeIn.mono {node : Condition} (made : node.MadeIn schema events)
    (kept : events ⊆ later) : node.MadeIn schema later := by
  induction node with
  | comparison field comparator value =>
      rcases made with ⟨event, member, makes⟩
      exact ⟨event, kept member, makes⟩
  | combination combinator left right ihLeft ihRight =>
      rcases made with ⟨⟨event, member, makes⟩, madeLeft, madeRight⟩
      exact ⟨⟨event, kept member, makes⟩, ihLeft madeLeft, ihRight madeRight⟩

theorem Side.MadeIn.mono {side : Side} (made : side.MadeIn schema events)
    (kept : events ⊆ later) : side.MadeIn schema later := by
  cases side with
  | token text => trivial
  | node condition => exact Condition.MadeIn.mono made kept

theorem Expectation.MadeIn.mono (made : expectation.MadeIn schema events)
    (kept : events ⊆ later) : expectation.MadeIn schema later := by
  cases expectation with
  | term | operator => trivial
  | combinatorOrEnd node => exact Condition.MadeIn.mono made kept
  | valueOrGroup | nestedComparator | nestedLiteral => exact Side.MadeIn.mono made kept

end Later

/-- Whatever comes out behind some events has a property of these and of the events on the way. -/
def Logged.Leaves {α : Type} (property : List Event → α → Prop) (past : List Event)
    (logged : Logged α) : Prop :=
  ∀ value, logged.outcome = .ok value → property (past ++ logged.events) value

namespace Logged.Leaves

variable {α β : Type} {past : List Event} {property : List Event → α → Prop}
  {further : List Event → β → Prop}

theorem quiet {outcome : Except Rejection α}
    (holds : ∀ value, outcome = .ok value → property past value) :
    (Logged.quiet outcome).Leaves property past := by
  intro value passed
  rw [Logged.quiet, List.append_nil]
  exact holds value passed

theorem ok {value : α} (holds : property past value) :
    (pure value : Logged α).Leaves property past := by
  refine quiet ?_
  rintro _ ⟨⟩
  exact holds

theorem note {logged : Logged α} {event : Event}
    (leaves : logged.Leaves property (past ++ [event])) :
    (logged.note event).Leaves property past := by
  intro value passed
  rw [Logged.note, List.append_cons]
  exact leaves value passed

theorem bind {first : Logged α} {proceed : α → Logged β} (before : first.Leaves property past)
    (after : ∀ events value, past ⊆ events → property events value →
      (proceed value).Leaves further events) :
    (first >>= proceed).Leaves further past := by
  intro result passed
  rw [outcome_bind] at passed
  rcases bind_eq_ok_iff.mp passed with ⟨value, early, late⟩
  rw [events_bind_of_ok early, ← List.append_assoc]
  exact after _ value (List.subset_append_left past _) (before value early) result late

end Logged.Leaves

variable {past : List Event}

/-- Two sides that are joined make one condition more. -/
theorem Side.MadeIn.of_join {left right : Side} {between : Operator} {node : Condition}
    (madeLeft : left.MadeIn schema past) (madeRight : right.MadeIn schema past)
    (joined : join schema left between right = .ok node) :
    node.MadeIn schema (past ++ [.joins left between right]) := by
  have makes : ∃ event ∈ past ++ [.joins left between right], event.Makes schema node :=
    ⟨_, List.mem_append_right past List.mem_cons_self, joined⟩
  have kept : past ⊆ past ++ [.joins left between right] := List.subset_append_left past _
  cases between with
  | compare comparator =>
      rcases join_compare_eq_ok joined with ⟨_, _, _, _, rfl, rfl, _, _, rfl⟩
      exact makes
  | combine combinator =>
      rcases join_combine_eq_ok joined with ⟨_, _, rfl, rfl, rfl⟩
      exact ⟨makes, Condition.MadeIn.mono madeLeft kept, Condition.MadeIn.mono madeRight kept⟩

theorem leaves_joinLogged {left right : Side} {between : Operator}
    (madeLeft : left.MadeIn schema past) (madeRight : right.MadeIn schema past) :
    (joinLogged schema left between right).Leaves (fun events node => node.MadeIn schema events)
      past :=
  .note (.quiet fun _ joined => madeLeft.of_join madeRight joined)

namespace Expectation

/-- What is held behind a word is made by then. -/
theorem leaves_readWordLogged {word : String} (made : expectation.MadeIn schema past) :
    (expectation.readWordLogged schema word).Leaves (fun events next => next.MadeIn schema events)
      past := by
  cases expectation with
  | valueOrGroup left between =>
      cases between with
      | compare comparator =>
          have right : Side.MadeIn schema past (.token word) := trivial
          exact (leaves_joinLogged made right).bind fun _ _ _ holds => .ok holds
      | combine combinator =>
          refine .quiet fun next read => ?_
          rw [readWord] at read
          split at read <;> cases read
          exact made
  | nestedLiteral left combinator field comparator =>
      have tokens (text : String) : Side.MadeIn schema past (.token text) := trivial
      refine (leaves_joinLogged (tokens field) (tokens word)).bind fun events inner kept holds => ?_
      have right : Side.MadeIn schema events (.node inner) := holds
      exact (leaves_joinLogged (Side.MadeIn.mono made kept) right).bind fun _ _ _ holds => .ok holds
  | term =>
      refine .quiet fun next read => ?_
      rw [readWord] at read
      split at read <;> cases read
      trivial
  | operator field | combinatorOrEnd node =>
      refine .quiet fun next read => ?_
      rcases map_eq_ok_iff.mp read with ⟨between, _, rfl⟩
      exact made
  | nestedComparator left combinator field =>
      refine .quiet fun next read => ?_
      rw [readWord] at read
      split at read <;> cases read
      exact made

/-- So it is behind a group. -/
theorem leaves_readGroupLogged {node : Condition} (made : expectation.MadeIn schema past)
    (madeNode : node.MadeIn schema past) :
    (expectation.readGroupLogged schema node).Leaves (fun events next => next.MadeIn schema events)
      past := by
  have kept : past ⊆ past ++ [.takesGroup expectation node] := List.subset_append_left past _
  refine .note ?_
  cases expectation with
  | term =>
      refine .quiet ?_
      rintro _ ⟨⟩
      exact madeNode.mono kept
  | valueOrGroup left between =>
      have right : Side.MadeIn schema (past ++ [.takesGroup (.valueOrGroup left between) node])
          (.node node) := madeNode.mono kept
      exact (leaves_joinLogged (Side.MadeIn.mono made kept) right).bind
        fun _ _ _ holds => .ok holds
  | operator | combinatorOrEnd | nestedComparator | nestedLiteral =>
      refine .quiet ?_
      rintro _ ⟨⟩

end Expectation

/-- A condition that comes out of a range is made while that range is read, or was held before. -/
theorem leaves_readRangeLogged (made : expectation.MadeIn schema past) :
    (readRangeLogged schema pairing place expectation).Leaves
      (fun events node => node.MadeIn schema events) past := by
  fun_induction readRange schema pairing place expectation generalizing past with
  | case1 place expectation found =>
      rw [readRangeLogged_finished found]
      refine .note (.quiet fun node concluded => ?_)
      have held := made.mono (List.subset_append_left past [.expects expectation])
      cases expectation <;> cases concluded
      exact held
  | case2 place expectation offset found =>
      rw [readRangeLogged_stray found]
      refine .note (.note (.quiet ?_))
      rintro _ ⟨⟩
  | case3 place expectation start word after found ih =>
      rw [readRangeLogged_word found]
      have held := made.mono (List.subset_append_left past [.expects expectation])
      exact .note ((Expectation.leaves_readWordLogged held).bind
        fun events next _ holds => ih next holds)
  | case4 place expectation opening closing inside after found admits ihInside ihAfter =>
      rw [readRangeLogged_group found, if_pos admits]
      have held := made.mono (List.subset_append_left past [.expects expectation])
      have start : Expectation.MadeIn schema (past ++ [.expects expectation]) .term := trivial
      refine .note ((ihInside start).bind fun events node kept madeNode => ?_)
      exact (Expectation.leaves_readGroupLogged (held.mono kept) madeNode).bind
        fun later next _ holds => ihAfter next holds
  | case5 place expectation opening closing inside after found refused =>
      rw [readRangeLogged_group found, if_neg refused]
      refine .note (.quiet ?_)
      rintro _ ⟨⟩

/-- Every part of a compiled condition has the join in the log that made it. -/
theorem madeIn_of_compile {query : String} {node : Condition}
    (compiled : compile schema query = .ok node) :
    node.MadeIn schema (compileLogged schema query).events := by
  rw [← outcome_compileLogged] at compiled
  have leaves : (compileLogged schema query).Leaves
      (fun events node => node.MadeIn schema events) [] := by
    have paired : (Logged.quiet (Pairing.ofText (trim query.toList))).Leaves
        (fun _ _ => True) [] := .quiet fun _ _ => trivial
    rw [compileLogged]
    refine paired.bind fun events pairing _ _ => ?_
    split
    · refine .quiet ?_
      rintro _ ⟨⟩
    · have start : Expectation.MadeIn schema events .term := trivial
      exact leaves_readRangeLogged start
  exact leaves node compiled

end FilterQuery
