import FilterQuery.Proofs.RunLaw
import FilterQuery.Proofs.RunningDepth
import FilterQuery.Proofs.Trimming

namespace FilterQuery

open Text

/-!
# The parenthesis that a complaint points at

A complaint shows the offset of a parenthesis and, beside it, the input as it was given.  The
parenthesis that offends is the first closing one that is in no group, or else the last opening
one that is in none.  The offset is counted in the trimmed text, though, and so it leads to that
parenthesis only if nothing was trimmed in front of it.

Which parenthesis offends is said by the groups of the text alone.  What is known of a refusal is
about depths: balanced text stands before the parenthesis, or behind it.  The two meet where a
parenthesis finds its partner.  A text that opens more than it closes has an opening parenthesis
with balanced text behind it, and so a closing one behind such a text ends a group.
-/

/-- A closing parenthesis ends no group. -/
def UnmatchedClosing (text : List Char) (place : Nat) : Prop :=
  StandsAt text ')' place ∧ ∀ opening, ¬ GroupAt text opening place

/-- An opening parenthesis begins no group. -/
def UnmatchedOpening (text : List Char) (place : Nat) : Prop :=
  StandsAt text '(' place ∧ ∀ closing, ¬ GroupAt text place closing

/-- The parenthesis at an offset is the first unmatched closing one, or the last unmatched opening
one if each closing one is matched. -/
def Offends (text : List Char) (place : Nat) : Prop :=
  IsLeast {closing | UnmatchedClosing text closing} place ∨
    (∀ closing, ¬ UnmatchedClosing text closing) ∧
      IsGreatest {opening | UnmatchedOpening text opening} place

/-- The line of a complaint about a parenthesis. -/
def offsetLine (input : Input) (offset : Nat) : String :=
  input.label ++ ": " ++ ("incorrect parenthesis query at offset " ++ toString offset) ++ " [" ++
    "unbalanced_parenthesis" ++ "] (" ++ input.text ++ ")\n"

theorem Offends.unique {text : List Char} {first second : Nat} (offends : Offends text first)
    (again : Offends text second) : first = second := by
  rcases offends with least | ⟨none, greatest⟩
  · rcases again with leastAgain | ⟨none, _⟩
    · exact least.unique leastAgain
    · exact absurd least.1 (none first)
  · rcases again with least | ⟨_, greatestAgain⟩
    · exact absurd least.1 (none second)
    · exact greatest.unique greatestAgain

theorem Offends.standsAt {text : List Char} {place : Nat} (offends : Offends text place) :
    StandsAt text ')' place ∨ StandsAt text '(' place := by
  rcases offends with least | ⟨_, greatest⟩
  · exact .inl least.1.1
  · exact .inr greatest.1.1

/-- One character begins at an offset. -/
theorem StandsAt.unique {text : List Char} {c d : Char} {place : Nat}
    (stands : StandsAt text c place) (again : StandsAt text d place) : c = d := by
  rcases stands with ⟨before, after, rfl, rfl⟩
  rcases again with ⟨front, behind, split, located⟩
  exact (List.cons.inj (append_inj_of_byteLength split located.symm).2).1

/-! ## Finding a partner -/

/-- Where more is opened than closed from some place to the end, the last opening parenthesis of
that sort has balanced text behind it. -/
theorem exists_balanced_behind_opening {text : List Char}
    (opens : ∃ back, back <:+ text ∧ 0 < depth back) :
    ∃ front inside, text = front ++ '(' :: inside ∧ Balanced inside := by
  induction text with
  | nil =>
      rcases opens with ⟨back, isSuffix, positive⟩
      rw [List.suffix_nil.mp isSuffix, depth_nil] at positive
      omega
  | cons c rest ih =>
      by_cases later : ∃ back, back <:+ rest ∧ 0 < depth back
      · rcases ih later with ⟨front, inside, rfl, balanced⟩
        exact ⟨c :: front, inside, rfl, balanced⟩
      · have closes : ∀ back, back <:+ rest → depth back ≤ 0 := fun back isSuffix =>
          Int.not_lt.mp fun positive => later ⟨back, isSuffix, positive⟩
        have total := closes rest (List.suffix_refl rest)
        have positive : 0 < depth [c] + depth rest := by
          rcases opens with ⟨back, isSuffix, positive⟩
          rcases List.suffix_cons_iff.mp isSuffix with rfl | shorter
          · rwa [depth_cons] at positive
          · exact absurd ⟨back, shorter, positive⟩ later
        rcases isParenthesis_cases c with rfl | rfl | other
        · rw [depth_opening] at positive
          refine ⟨[], rest, rfl, ?_, by omega⟩
          rintro initial ⟨back, rfl⟩
          have closed := closes back (List.suffix_append initial back)
          rw [depth_append] at positive
          omega
        · rw [depth_closing] at positive
          omega
        · rw [depth_other other] at positive
          omega

/-- Where more is closed than opened, balanced text stands before the first closing parenthesis
that has nothing to close. -/
theorem exists_balanced_before_closing {text : List Char} (closes : depth text < 0) :
    ∃ inside rest, text = inside ++ ')' :: rest ∧ Balanced inside := by
  have fails : ¬ EveryDepth (fun reached => 0 ≤ reached) text := fun stays =>
    Int.not_le.mpr closes (stays text (List.prefix_refl text))
  rcases exists_first_depth (Int.le_refl 0) fails with ⟨initial, c, rest, rfl, stays, below⟩
  have total := stays initial (List.prefix_refl initial)
  rcases depth_concat_cases initial c with ⟨_, reached⟩ | ⟨rfl, reached⟩ | reached
  · omega
  · exact ⟨initial, rest, rfl, stays, by omega⟩
  · omega

/-- A closing parenthesis is matched if no more is closed through it than was opened. -/
theorem exists_groupAt_closing {before : List Char} (reaches : 0 ≤ depth (before ++ [')']))
    (after : List Char) :
    ∃ opening, GroupAt (before ++ ')' :: after) opening (byteLength before) := by
  rw [depth_append, depth_closing] at reaches
  rcases exists_balanced_behind_opening ⟨before, List.suffix_refl before, by omega⟩ with
    ⟨front, inside, rfl, balanced⟩
  refine ⟨byteLength front, front, inside, after, ?_, rfl, ?_, balanced⟩
  · rw [List.append_assoc, List.cons_append]
  · rw [byteLength_append, byteLength, utf8Size_opening, Nat.add_assoc]

/-- An opening parenthesis is matched if more is closed behind it than is opened there. -/
theorem exists_groupAt_opening {after : List Char} (before : List Char)
    (closes : depth after < 0) :
    ∃ closing, GroupAt (before ++ '(' :: after) (byteLength before) closing := by
  rcases exists_balanced_before_closing closes with ⟨inside, rest, rfl, balanced⟩
  exact ⟨_, before, inside, rest, rfl, rfl, rfl, balanced⟩

/-! ## The parenthesis that lacks a partner -/

/-- Behind a balanced text a closing parenthesis is the first that is unmatched. -/
theorem isLeast_unmatchedClosing {before : List Char} (balanced : Balanced before)
    (after : List Char) :
    IsLeast {closing | UnmatchedClosing (before ++ ')' :: after) closing} (byteLength before) := by
  refine ⟨⟨⟨before, after, rfl, rfl⟩, ?_⟩, ?_⟩
  · rintro opening ⟨front, inside, behind, split, _, reached, within⟩
    have located : byteLength before = byteLength (front ++ '(' :: inside) := by
      rw [byteLength_append, byteLength, utf8Size_opening]
      omega
    rw [← List.cons_append, ← List.append_assoc] at split
    rcases append_inj_of_byteLength split located with ⟨rfl, _⟩
    have closes := balanced.depth_behind_opening
    rw [within.2] at closes
    omega
  · rintro other ⟨⟨front, behind, split, rfl⟩, unmatched⟩
    rcases places_trichotomy split with ⟨rfl, _, _⟩ | ⟨middle, rfl, _⟩ | ⟨middle, rfl, _⟩
    · exact Nat.le_refl _
    · rw [byteLength_append]
      exact Nat.le_add_right _ _
    · -- A closing parenthesis of the balanced text has its partner there.
      have reaches := balanced.1 (front ++ [')']) ⟨middle, by simp⟩
      rcases exists_groupAt_closing reaches behind with ⟨opening, group⟩
      rw [split] at unmatched
      exact absurd group (unmatched opening)

/-- A text that never closes more than it opens has its closing parentheses matched. -/
theorem not_unmatchedClosing {text : List Char}
    (stays : EveryDepth (fun reached => 0 ≤ reached) text) (closing : Nat) :
    ¬ UnmatchedClosing text closing := by
  rintro ⟨⟨front, behind, rfl, rfl⟩, unmatched⟩
  have reaches := stays (front ++ [')']) ⟨behind, by simp⟩
  rcases exists_groupAt_closing reaches behind with ⟨opening, group⟩
  exact unmatched opening group

/-- In front of a balanced text an opening parenthesis is the last that is unmatched. -/
theorem isGreatest_unmatchedOpening (before : List Char) {after : List Char}
    (balanced : Balanced after) :
    IsGreatest {opening | UnmatchedOpening (before ++ '(' :: after) opening}
      (byteLength before) := by
  refine ⟨⟨⟨before, after, rfl, rfl⟩, ?_⟩, ?_⟩
  · rintro closing ⟨front, inside, behind, split, located, _, within⟩
    rcases append_inj_of_byteLength split located.symm with ⟨rfl, same⟩
    rcases List.cons.inj same with ⟨_, rfl⟩
    have reached := balanced.1 (inside ++ [')']) ⟨behind, by simp⟩
    rw [depth_append, depth_closing, within.2] at reached
    omega
  · rintro other ⟨⟨front, behind, split, rfl⟩, unmatched⟩
    rcases places_trichotomy split with ⟨rfl, _, _⟩ | ⟨middle, rfl, rfl⟩ | ⟨middle, rfl, _⟩
    · exact Nat.le_refl _
    · -- What the balanced text opens it also closes.
      rcases exists_groupAt_opening (before ++ '(' :: middle) balanced.depth_behind_opening with
        ⟨closing, group⟩
      rw [split] at unmatched
      exact absurd group (unmatched closing)
    · rw [byteLength_append]
      exact Nat.le_add_right _ _

/-- What lacks a partner by the depths around it is what offends by the groups of the text. -/
theorem LacksPartner.offends {text : List Char} {place : Nat} (lacks : LacksPartner text place) :
    Offends text place := by
  rcases lacks with ⟨before, after, rfl, rfl, balanced⟩ | ⟨stays, before, after, rfl, rfl, balanced⟩
  · exact .inl (isLeast_unmatchedClosing balanced after)
  · exact .inr ⟨not_unmatchedClosing stays, isGreatest_unmatchedOpening before balanced⟩

/-! ## Trimmed and untrimmed offsets -/

theorem filter_isParenthesis_of_white {text : List Char} (white : ∀ c ∈ text, isWhite c = true) :
    text.filter isParenthesis = [] := by
  refine List.filter_eq_nil_iff.mpr fun c member => ?_
  rw [isParenthesis_of_isWhite (white c member)]
  exact Bool.false_ne_true

theorem balanced_of_white {text : List Char} (white : ∀ c ∈ text, isWhite c = true) :
    Balanced text := by
  rw [← balanced_filter, filter_isParenthesis_of_white white]
  exact balanced_nil

/-- White characters around a text give no partner to a parenthesis.  They move it. -/
theorem LacksPartner.surrounded {front text behind : List Char} {place : Nat}
    (lacks : LacksPartner text place) (whiteFront : ∀ c ∈ front, isWhite c = true)
    (whiteBehind : ∀ c ∈ behind, isWhite c = true) :
    LacksPartner (front ++ text ++ behind) (byteLength front + place) := by
  rcases lacks with ⟨before, after, rfl, rfl, balanced⟩ | ⟨stays, before, after, rfl, rfl, balanced⟩
  · refine .inl ⟨front ++ before, after ++ behind, by simp, byteLength_append _ _, ?_⟩
    exact (balanced_of_white whiteFront).append balanced
  · refine .inr ⟨?_, front ++ before, after ++ behind, by simp, byteLength_append _ _, ?_⟩
    · rw [← everyDepth_filter] at stays ⊢
      rw [List.filter_append, List.filter_append, filter_isParenthesis_of_white whiteFront,
        filter_isParenthesis_of_white whiteBehind, List.nil_append, List.append_nil]
      exact stays
    · exact balanced.append (balanced_of_white whiteBehind)

/-- The offset that is reported is that of the offending parenthesis, less what was trimmed in
front of it. -/
theorem offends_of_compile {schema : Schema} {query : String} {offset : Nat}
    (rejected : compile schema query = .error (.unbalancedParenthesis offset)) :
    Offends query.toList (byteLength (query.toList.takeWhile isWhite) + offset) := by
  have refused := ((compile_rejection_blames schema query).1 offset).mp rejected
  rcases exists_trim_split query.toList with ⟨behind, whiteBehind, split⟩
  have whiteFront : ∀ c ∈ query.toList.takeWhile isWhite, isWhite c = true :=
    fun c => List.mem_takeWhile_imp
  have moved := (Pairing.lacksPartner_of_ofText refused).surrounded whiteFront whiteBehind
  rw [← split] at moved
  exact moved.offends

theorem byteLength_takeWhile_eq_zero_iff {text : List Char} :
    byteLength (text.takeWhile isWhite) = 0 ↔ ∀ c ∈ text.head?, isWhite c = false := by
  cases text with
  | nil => simp [byteLength]
  | cons c rest =>
      have positive := c.utf8Size_pos
      cases white : isWhite c with
      | true =>
          rw [List.takeWhile_cons_of_pos white, byteLength]
          simp [white]
          omega
      | false =>
          rw [List.takeWhile_cons_of_neg (by simp [white])]
          simp [white, byteLength]

/-! ## The complaint of a run -/

theorem Outcome.complaint?_of_error {schema : Schema} {input : Input} {rejection : Rejection}
    (rejected : Filter.ofInput schema input.text = .error rejection) :
    (Outcome.ofInput schema input).complaint? =
      some (input.label ++ ": " ++ rejection.message ++ " [" ++ rejection.code ++ "] (" ++
        input.text ++ ")\n") := by
  rw [complaint?, ofInput, rejected]

/-- What a run complains of an input is part of what it writes to the standard error. -/
theorem exists_complaints_of_mem (options : Options) (settings : Settings) {schema : Schema}
    {inputs : List Input} {input : Input} {line : String} (member : input ∈ inputs)
    (complained : (Outcome.ofInput schema input).complaint? = some line) :
    ∃ before after, (reportInputs options settings schema inputs).complaints =
      before ++ line ++ after := by
  have among : line ∈ (inputs.map (Outcome.ofInput schema)).filterMap Outcome.complaint? :=
    List.mem_filterMap.mpr ⟨_, List.mem_map_of_mem member, complained⟩
  rcases List.append_of_mem among with ⟨first, second, split⟩
  refine ⟨String.join first, String.join second, ?_⟩
  rw [reportInputs, Report.ofOutcomes, split, String.join_append, String.join_cons,
    String.append_assoc]

/-- Beside a text that is refused for a parenthesis a run shows the offset of the offending
parenthesis, less the length of the white space that the text begins with.  So the offset leads
to that parenthesis in the text that is shown exactly if the text does not begin with white
space. -/
theorem reported_offset_offends_iff (schema : Schema) (input : Input) (offset : Nat)
    (rejected : Filter.ofInput schema input.text = .error (.unbalancedParenthesis offset)) :
    (Outcome.ofInput schema input).complaint? = some (offsetLine input offset) ∧
      (∀ options settings inputs, input ∈ inputs →
        ∃ before after, (reportInputs options settings schema inputs).complaints =
          before ++ offsetLine input offset ++ after) ∧
      Offends input.text.toList (byteLength (input.text.toList.takeWhile isWhite) + offset) ∧
      (Offends input.text.toList offset ↔ ∀ c ∈ input.text.toList.head?, isWhite c = false) := by
  have compiled : compile schema input.text = .error (.unbalancedParenthesis offset) := by
    have nonempty : input.text ≠ "" := by
      intro empty
      rw [Filter.ofInput_eq_none_iff.mpr empty] at rejected
      cases rejected
    rw [Filter.ofInput_of_ne_empty nonempty] at rejected
    exact map_eq_error_iff.mp rejected
  have complained : (Outcome.ofInput schema input).complaint? = some (offsetLine input offset) := by
    have message : (Rejection.unbalancedParenthesis offset).message =
        "incorrect parenthesis query at offset " ++ toString offset := rfl
    have code : (Rejection.unbalancedParenthesis offset).code = "unbalanced_parenthesis" := rfl
    rw [Outcome.complaint?_of_error rejected, message, code, offsetLine]
  have offends := offends_of_compile compiled
  refine ⟨complained, fun options settings inputs member =>
    exists_complaints_of_mem options settings member complained, offends, ?_⟩
  rw [← byteLength_takeWhile_eq_zero_iff]
  constructor
  · intro offendsThere
    have same := offends.unique offendsThere
    omega
  · intro nothing
    rwa [nothing, Nat.zero_add] at offends

/-- Behind four bytes of white space the offset that is shown is that of a letter. -/
theorem reported_offset_offends_of_indented :
    Filter.ofInput Schema.user "\u3000 µ()) (" = .error (.unbalancedParenthesis 4) ∧
      Offends "\u3000 µ()) (".toList 8 ∧ ¬ Offends "\u3000 µ()) (".toList 4 := by
  have rejected :
      Filter.ofInput Schema.user "\u3000 µ()) (" = .error (.unbalancedParenthesis 4) := by
    decide +kernel
  rcases reported_offset_offends_iff Schema.user ⟨"query 1", "\u3000 µ()) ("⟩ 4 rejected with
    ⟨_, _, offends, iff⟩
  refine ⟨rejected, offends, fun offendsThere => ?_⟩
  have visible := iff.mp offendsThere '\u3000' rfl
  exact absurd visible (by decide)

/-- One blank in front of a parenthesis that is never closed, and the complaint points at the
blank. -/
theorem complaint_points_at_blank :
    (Outcome.ofInput Schema.tracking ⟨"query 1", " (distance gt 1"⟩).complaint? =
        some ("query 1: incorrect parenthesis query at offset 0 [unbalanced_parenthesis] " ++
          "( (distance gt 1)\n") ∧
      Filter.ofInput Schema.tracking " (distance gt 1" = .error (.unbalancedParenthesis 0) ∧
      StandsAt " (distance gt 1".toList ' ' 0 ∧ ¬ Offends " (distance gt 1".toList 0 ∧
      Offends " (distance gt 1".toList 1 := by
  have blank : StandsAt " (distance gt 1".toList ' ' 0 :=
    ⟨[], "(distance gt 1".toList, by decide +kernel, rfl⟩
  have rejected :
      compile Schema.tracking " (distance gt 1" = .error (.unbalancedParenthesis 0) := by
    decide +kernel
  refine ⟨by decide +kernel, by decide +kernel, blank, fun offends => ?_,
    offends_of_compile rejected⟩
  rcases offends.standsAt with closing | opening
  · exact absurd (blank.unique closing) (by decide)
  · exact absurd (blank.unique opening) (by decide)

end FilterQuery
