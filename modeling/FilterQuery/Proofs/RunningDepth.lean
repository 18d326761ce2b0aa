import FilterQuery.Proofs.Culprit
import FilterQuery.Proofs.PerfectMatching

namespace FilterQuery

open Text

/-!
# The running depth decides how pairing ends

A text can fail to pair in three ways: it closes more than is open, it nests too deeply,
or it leaves something open.  Which one is reported depends on nothing but the depths of
its initial parts.  The first depth out of bounds decides, whatever follows it; only a
text that stays within bounds is looked at as a whole.

`Verdict` says this without the loop.  As long as the depths stay within bounds, the loop
has as many parentheses waiting as the depth says.  So the first depth out of bounds
meets a loop with nothing waiting, or a full one, and the end of the text meets one with
as much waiting as is left open.
-/

/-- Behind each initial part of a text, no more is closed than was opened, and at most 128
parentheses are open. -/
def StaysWithin (text : List Char) : Prop :=
  EveryDepth (fun reached => 0 ≤ reached ∧ reached ≤ 128) text

/-- The character at an offset is the first behind which the depth is out of bounds, and
the depth there has a property. -/
def LeavesAt (property : Int → Prop) (text : List Char) (place : Nat) : Prop :=
  ∃ initial c rest, text = initial ++ c :: rest ∧ byteLength initial = place ∧
    StaysWithin initial ∧ property (depth (initial ++ [c]))

/-- An opening parenthesis at an offset has no partner: what follows it never closes more
than it opens itself. -/
def LeftOpenAt (text : List Char) (place : Nat) : Prop :=
  ∃ before after, text = before ++ '(' :: after ∧ byteLength before = place ∧
    EveryDepth (fun reached => 0 ≤ reached) after

/-- How the depths of a text let its pairing end, whatever the pairs are. -/
inductive Verdict (text : List Char) : Except Rejection Unit → Prop where
  /-- The depth goes out of bounds by a closing parenthesis. -/
  | fallsBelow {place : Nat} (leaves : LeavesAt (fun reached => reached < 0) text place) :
      Verdict text (.error (.unbalancedParenthesis place))
  /-- It goes out of bounds by an opening one, and what follows does not matter. -/
  | risesAbove {place : Nat} (leaves : LeavesAt (fun reached => 128 < reached) text place) :
      Verdict text (.error (.invalidExpression .nestedTooDeeply))
  /-- It stays within bounds, but the text ends with something open. -/
  | staysOpen {place : Nat} (within : StaysWithin text) (unclosed : 0 < depth text)
      (last : IsGreatest {opening | LeftOpenAt text opening} place) :
      Verdict text (.error (.unbalancedParenthesis place))
  /-- It stays within bounds, and everything is closed. -/
  | pairs (within : StaysWithin text) (closed : depth text = 0) : Verdict text (.ok ())

/-! ## The first depth out of bounds -/

/-- One character changes the depth by one at most, and only a parenthesis does. -/
theorem depth_concat_cases (front : List Char) (c : Char) :
    (c = '(' ∧ depth (front ++ [c]) = depth front + 1) ∨
      (c = ')' ∧ depth (front ++ [c]) = depth front - 1) ∨
      depth (front ++ [c]) = depth front := by
  rw [depth_append]
  rcases isParenthesis_cases c with rfl | rfl | other
  · exact .inl ⟨rfl, by rw [depth_opening]⟩
  · exact .inr (.inl ⟨rfl, by rw [depth_closing]; rfl⟩)
  · exact .inr (.inr (by rw [depth_other other, Int.add_zero]))

/-- A text whose depths do not all have a property has a first one without it. -/
theorem exists_first_depth {property : Int → Prop} {text : List Char} (atStart : property 0)
    (fails : ¬ EveryDepth property text) :
    ∃ initial c rest, text = initial ++ c :: rest ∧ EveryDepth property initial ∧
      ¬ property (depth (initial ++ [c])) := by
  induction text generalizing property with
  | nil => exact absurd (everyDepth_nil.mpr atStart) fails
  | cons c rest ih =>
      rw [everyDepth_cons, and_iff_right atStart] at fails
      by_cases next : property (depth [c])
      · rcases ih (by rwa [Int.add_zero]) fails with ⟨initial, d, behind, rfl, every, fails⟩
        refine ⟨c :: initial, d, behind, rfl, everyDepth_cons.mpr ⟨atStart, every⟩, ?_⟩
        rw [List.cons_append, depth_cons]
        exact fails
      · exact ⟨[], c, rest, rfl, everyDepth_nil.mpr atStart, next⟩

theorem StaysWithin.depth {text : List Char} (within : StaysWithin text) :
    0 ≤ depth text ∧ depth text ≤ 128 :=
  within text (List.prefix_refl text)

theorem staysWithin_or_leavesAt (text : List Char) :
    StaysWithin text ∨ (∃ place, LeavesAt (fun reached => reached < 0) text place) ∨
      ∃ place, LeavesAt (fun reached => 128 < reached) text place := by
  by_cases within : StaysWithin text
  · exact .inl within
  · rcases exists_first_depth (by decide) within with ⟨initial, c, rest, split, stays, outside⟩
    by_cases falls : depth (initial ++ [c]) < 0
    · exact .inr (.inl ⟨_, initial, c, rest, split, rfl, stays, falls⟩)
    · exact .inr (.inr ⟨_, initial, c, rest, split, rfl, stays, by omega⟩)

/-- A depth below nothing is reached by a closing parenthesis. -/
theorem LeavesAt.standsAt_closing {text : List Char} {place : Nat}
    (leaves : LeavesAt (fun reached => reached < 0) text place) : StandsAt text ')' place := by
  rcases leaves with ⟨initial, c, rest, split, located, stays, below⟩
  have bounds := stays.depth
  rcases depth_concat_cases initial c with ⟨_, reached⟩ | ⟨rfl, _⟩ | reached
  · omega
  · exact ⟨initial, rest, split, located⟩
  · omega

/-! ## What waits -/

namespace Pairing

/-- While the depths stay within bounds, the number of waiting parentheses is the depth. -/
theorem pairFrom_append {front : List Char} {offset : Nat} {waiting : List Nat}
    {found : Pairing}
    (within : EveryDepth
      (fun reached => 0 ≤ waiting.length + reached ∧ waiting.length + reached ≤ 128) front) :
    ∃ waiting' found', (waiting'.length : Int) = waiting.length + depth front ∧
      ∀ rest, pairFrom offset waiting found (front ++ rest) =
        pairFrom (offset + byteLength front) waiting' found' rest := by
  induction front generalizing offset waiting found with
  | nil => exact ⟨waiting, found, by simp, fun rest => rfl⟩
  | cons c front ih =>
      rcases everyDepth_cons.mp within with ⟨_, later⟩
      have next := later [] List.nil_prefix
      rw [depth_nil, Int.add_zero] at next
      rcases isParenthesis_cases c with rfl | rfl | other
      · simp only [depth_opening] at later next
        have room : waiting.length ≠ nestingLimit := by
          rw [nestingLimit]
          omega
        have inside : EveryDepth (fun reached => 0 ≤ ((offset :: waiting).length : Int) + reached ∧
            ((offset :: waiting).length : Int) + reached ≤ 128) front := by
          intro initial isInitial
          have bounds := later initial isInitial
          rw [List.length_cons]
          omega
        rcases @ih (offset + 1) (offset :: waiting) found inside with
          ⟨waiting', found', counted, same⟩
        refine ⟨waiting', found', ?_, fun rest => ?_⟩
        · rw [depth_cons_opening, counted, List.length_cons]
          omega
        · rw [List.cons_append, pairFrom_opening, if_neg room, same, byteLength,
            utf8Size_opening, Nat.add_assoc]
      · simp only [depth_closing] at later next
        cases waiting with
        | nil =>
            rw [List.length_nil] at next
            omega
        | cons opening outer =>
            rw [List.length_cons] at later
            have inside : EveryDepth (fun reached => 0 ≤ (outer.length : Int) + reached ∧
                (outer.length : Int) + reached ≤ 128) front := by
              intro initial isInitial
              have bounds := later initial isInitial
              omega
            rcases @ih (offset + 1) outer (found.insert opening offset) inside with
              ⟨waiting', found', counted, same⟩
            refine ⟨waiting', found', ?_, fun rest => ?_⟩
            · rw [depth_cons, depth_closing, counted, List.length_cons]
              omega
            · rw [List.cons_append, pairFrom_closing_cons, same, byteLength, utf8Size_closing,
                Nat.add_assoc]
      · have weightless := depth_other other
        simp only [weightless, Int.zero_add] at later
        rcases @ih (offset + c.utf8Size) waiting found later with ⟨waiting', found', counted, same⟩
        refine ⟨waiting', found', ?_, fun rest => ?_⟩
        · rw [depth_cons, weightless, counted, Int.zero_add]
        · rw [List.cons_append, pairFrom_other other, same, byteLength, Nat.add_assoc]

theorem ofText_append {front : List Char} (within : StaysWithin front) :
    ∃ waiting found, (waiting.length : Int) = depth front ∧
      ∀ rest, ofText (front ++ rest) = pairFrom (byteLength front) waiting found rest := by
  have started : EveryDepth (fun reached => 0 ≤ (([] : List Nat).length : Int) + reached ∧
      (([] : List Nat).length : Int) + reached ≤ 128) front := by
    simpa only [List.length_nil, Int.natCast_zero, Int.zero_add, StaysWithin] using within
  rcases pairFrom_append started with ⟨waiting, found, counted, same⟩
  rw [List.length_nil, Int.natCast_zero, Int.zero_add] at counted
  refine ⟨waiting, found, counted, fun rest => ?_⟩
  rw [ofText, same, Nat.zero_add]

/-! ## The four verdicts -/

variable {text : List Char} {place : Nat}

theorem ofText_of_fallsBelow (leaves : LeavesAt (fun reached => reached < 0) text place) :
    ofText text = .error (.unbalancedParenthesis place) := by
  rcases leaves with ⟨initial, c, rest, rfl, rfl, stays, below⟩
  rcases ofText_append stays with ⟨waiting, found, counted, same⟩
  have bounds := stays.depth
  rcases depth_concat_cases initial c with ⟨_, reached⟩ | ⟨rfl, reached⟩ | reached
  · omega
  · cases waiting with
    | nil => rw [same, pairFrom_closing_nil]
    | cons opening outer =>
        rw [List.length_cons] at counted
        omega
  · omega

theorem ofText_of_risesAbove (leaves : LeavesAt (fun reached => 128 < reached) text place) :
    ofText text = .error (.invalidExpression .nestedTooDeeply) := by
  rcases leaves with ⟨initial, c, rest, rfl, rfl, stays, above⟩
  rcases ofText_append stays with ⟨waiting, found, counted, same⟩
  have bounds := stays.depth
  rcases depth_concat_cases initial c with ⟨rfl, reached⟩ | ⟨_, reached⟩ | reached
  · have full : waiting.length = nestingLimit := by
      rw [nestingLimit]
      omega
    rw [same, pairFrom_opening, if_pos full]
  · omega
  · omega

/-- Where something is left open, the last opening without partner is reported: only a
balanced text stands behind it. -/
theorem exists_ofText_of_staysOpen (within : StaysWithin text) (unclosed : 0 < depth text) :
    ∃ place, ofText text = .error (.unbalancedParenthesis place) ∧
      IsGreatest {opening | LeftOpenAt text opening} place := by
  rcases ofText_append within with ⟨waiting, found, counted, same⟩
  cases waiting with
  | nil =>
      rw [List.length_nil] at counted
      omega
  | cons opening outer =>
      have refused : ofText text = .error (.unbalancedParenthesis opening) := by
        rw [← List.append_nil text, same]
        rfl
      refine ⟨opening, refused, ?_⟩
      rcases lacksPartner_of_ofText refused with
        ⟨before, after, rfl, _, balanced⟩ | ⟨_, before, after, rfl, located, balanced⟩
      · have reached := (within (before ++ [')']) ⟨after, by simp⟩).1
        rw [depth_append, balanced.2, depth_closing] at reached
        omega
      · refine ⟨⟨before, after, rfl, located, balanced.1⟩, ?_⟩
        rintro other ⟨before', after', split, rfl, stays⟩
        rcases places_trichotomy split with ⟨rfl, _, _⟩ | ⟨middle, rfl, rfl⟩ | ⟨middle, rfl, _⟩
        · exact Nat.le_of_eq located
        · -- A later opening without partner would be left open behind this one too.
          have closes := balanced.depth_behind_opening
          have open' := stays after' (List.prefix_refl after')
          omega
        · rw [byteLength_append] at located
          omega

theorem exists_ofText_of_pairs (within : StaysWithin text) (closed : depth text = 0) :
    ∃ pairing, ofText text = .ok pairing := by
  rcases ofText_append within with ⟨waiting, found, counted, same⟩
  cases waiting with
  | nil =>
      refine ⟨found, ?_⟩
      rw [← List.append_nil text, same]
      rfl
  | cons opening outer =>
      rw [List.length_cons] at counted
      omega

/-- What a verdict says is the outcome. -/
theorem ofText_of_verdict {outcome : Except Rejection Unit} (verdict : Verdict text outcome) :
    (ofText text).map (fun _ => ()) = outcome := by
  cases verdict with
  | fallsBelow leaves =>
      rw [ofText_of_fallsBelow leaves]
      rfl
  | risesAbove leaves =>
      rw [ofText_of_risesAbove leaves]
      rfl
  | staysOpen within unclosed last =>
      rcases exists_ofText_of_staysOpen within unclosed with ⟨place, refused, isLast⟩
      rw [refused, isLast.unique last]
      rfl
  | pairs within closed =>
      rcases exists_ofText_of_pairs within closed with ⟨pairing, paired⟩
      rw [paired]
      rfl

theorem exists_verdict (text : List Char) : ∃ outcome, Verdict text outcome := by
  rcases staysWithin_or_leavesAt text with within | ⟨place, leaves⟩ | ⟨place, leaves⟩
  · rcases Int.le_iff_lt_or_eq.mp within.depth.1 with unclosed | closed
    · rcases exists_ofText_of_staysOpen within unclosed with ⟨place, _, last⟩
      exact ⟨_, .staysOpen within unclosed last⟩
    · exact ⟨_, .pairs within closed.symm⟩
  · exact ⟨_, .fallsBelow leaves⟩
  · exact ⟨_, .risesAbove leaves⟩

end Pairing

/-- The running depth of a text decides how its pairing ends, and nothing else does.  Each
text has one verdict, and that is its outcome. -/
theorem ofText_eq_iff_verdict (text : List Char) :
    (∀ outcome, (Pairing.ofText text).map (fun _ => ()) = outcome ↔ Verdict text outcome) ∧
      (∀ place, LeavesAt (fun reached => reached < 0) text place → StandsAt text ')' place) ∧
      ShapeFault.nestedTooDeeply.reason = "parentheses nested too deeply" := by
  refine ⟨fun outcome => ⟨?_, Pairing.ofText_of_verdict⟩, fun _ leaves => leaves.standsAt_closing,
    rfl⟩
  rintro rfl
  rcases Pairing.exists_verdict text with ⟨outcome, verdict⟩
  rw [Pairing.ofText_of_verdict verdict]
  exact verdict

/-- What comes first is reported: a text that closes too much in the end is refused for its
depth if it nests too deeply before. -/
example : Pairing.ofText (List.replicate 129 '(' ++ List.replicate 130 ')') =
      .error (.invalidExpression .nestedTooDeeply) ∧
    Pairing.ofText ("())".toList ++ List.replicate 129 '(') =
      .error (.unbalancedParenthesis 2) ∧
    Pairing.ofText "(é(()(".toList = .error (.unbalancedParenthesis 6) := by
  decide +kernel

end FilterQuery
