import Mathlib.Order.Bounds.Basic
import FilterQuery.Proofs.Matching

namespace FilterQuery

open Text

/-!
# The matching of a text's parentheses

The pairing of a text is a perfect matching: each opening parenthesis has one partner
among the closing ones, none is left over on either side, and the pairs do not cross.
There is no other perfect matching, so the pairing is fixed by the text and not by the
order in which the loop finds its pairs.

The two sides meet in the groups of a text.  A group is an opening parenthesis with a
balanced text and a closing parenthesis behind it, and the pairing holds exactly the
groups.  All that relates two pairs is a fact about two groups, in which no table occurs.

That the matching is the only one does not need the texts inside the groups.  Where two
matchings disagree, they disagree again further right: the nearer of the two partners
belongs to a later opening in the other matching.
-/

/-- A character begins at an offset of a text. -/
def StandsAt (text : List Char) (c : Char) (place : Nat) : Prop :=
  ∃ before after, text = before ++ c :: after ∧ byteLength before = place

/-- A text has a group between two offsets: what stands strictly between its parentheses
is balanced. -/
def GroupAt (text : List Char) (opening closing : Nat) : Prop :=
  ∃ before inside after, text = before ++ '(' :: (inside ++ ')' :: after) ∧
    byteLength before = opening ∧ opening + 1 + byteLength inside = closing ∧ Balanced inside

/-- From one offset through the character at another, a text closes as many parentheses
as it opens. -/
def LevelThrough (text : List Char) (opening place : Nat) : Prop :=
  ∃ before segment last after, text = before ++ (segment ++ last :: after) ∧
    byteLength before = opening ∧ opening + byteLength segment = place ∧
    (segment ++ [last]).count ')' = (segment ++ [last]).count '('

/-- A table is a perfect matching of a text's parentheses.  Nothing is said of the text
between a pair: that it is balanced follows from the pairs in it. -/
structure Pairing.Perfect (pairing : Pairing) (text : List Char) : Prop where
  openings : ∀ place,
    (∃ closing, pairing.closing? place = some closing) ↔ StandsAt text '(' place
  closings : ∀ place,
    (∃ opening, pairing.closing? opening = some place) ↔ StandsAt text ')' place
  injective : ∀ first second closing, pairing.closing? first = some closing →
    pairing.closing? second = some closing → first = second
  ordered : ∀ opening closing, pairing.closing? opening = some closing → opening < closing
  /-- Of two pairs, the one that opens later begins behind the other or ends inside it. -/
  nested : ∀ outer outerClosing inner innerClosing, pairing.closing? outer = some outerClosing →
    pairing.closing? inner = some innerClosing → outer < inner →
      outerClosing < inner ∨ innerClosing < outerClosing

/-! ## Places in a text -/

namespace Text

/-- A text is cut at an offset in one way only. -/
theorem append_inj_of_byteLength {first second first' second' : List Char}
    (same : first ++ second = first' ++ second')
    (located : byteLength first = byteLength first') : first = first' ∧ second = second' := by
  induction first generalizing first' with
  | nil =>
      cases first' with
      | nil => exact ⟨rfl, same⟩
      | cons c rest =>
          have positive := c.utf8Size_pos
          rw [byteLength, byteLength] at located
          omega
  | cons c rest ih =>
      cases first' with
      | nil =>
          have positive := c.utf8Size_pos
          rw [byteLength, byteLength] at located
          omega
      | cons c' rest' =>
          rw [List.cons_append, List.cons_append] at same
          injection same with sameFirst sameRest
          subst sameFirst
          rw [byteLength, byteLength, Nat.add_left_cancel_iff] at located
          rcases ih sameRest located with ⟨rfl, rfl⟩
          exact ⟨rfl, rfl⟩

/-- Two characters of a text are one, or one of them stands behind the other. -/
theorem places_trichotomy {front back front' back' : List Char} {c d : Char}
    (same : front ++ c :: back = front' ++ d :: back') :
    (front = front' ∧ c = d ∧ back = back') ∨
      (∃ middle, front' = front ++ c :: middle ∧ back = middle ++ d :: back') ∨
      ∃ middle, front = front' ++ d :: middle ∧ back' = middle ++ c :: back := by
  rcases List.append_eq_append_iff.mp same with ⟨rest, found, split⟩ | ⟨rest, found, split⟩
  · cases rest with
    | nil =>
        injection split with sameChar sameBack
        rw [List.append_nil] at found
        exact .inl ⟨found.symm, sameChar, sameBack⟩
    | cons first middle =>
        injection split with sameChar sameBack
        subst sameChar
        exact .inr (.inl ⟨middle, found, sameBack⟩)
  · cases rest with
    | nil =>
        injection split with sameChar sameBack
        rw [List.append_nil] at found
        exact .inl ⟨found, sameChar.symm, sameBack.symm⟩
    | cons first middle =>
        injection split with sameChar sameBack
        subst sameChar
        exact .inr (.inr ⟨middle, found, sameBack⟩)

end Text

theorem StandsAt.lt_byteLength {text : List Char} {c : Char} {place : Nat}
    (stands : StandsAt text c place) : place < byteLength text := by
  rcases stands with ⟨before, after, rfl, rfl⟩
  have positive := c.utf8Size_pos
  rw [byteLength_append, byteLength]
  omega

/-! ## Groups -/

theorem depth_eq_zero_iff {text : List Char} :
    text.count ')' = text.count '(' ↔ depth text = 0 := by
  rw [depth]
  omega

theorem depth_cons_opening (rest : List Char) : depth ('(' :: rest) = 1 + depth rest := by
  rw [depth_cons, depth_opening]

/-- What a balanced text opens somewhere it closes behind that place. -/
theorem Balanced.depth_behind_opening {front rest : List Char}
    (balanced : Balanced (front ++ '(' :: rest)) : depth rest < 0 := by
  have before := balanced.1 front (List.prefix_append front _)
  have whole := balanced.2
  rw [depth_append, depth_cons_opening] at whole
  omega

namespace GroupAt

variable {text : List Char} {opening closing : Nat}

theorem standsAt_opening (group : GroupAt text opening closing) : StandsAt text '(' opening := by
  rcases group with ⟨before, inside, after, split, located, _, _⟩
  exact ⟨before, inside ++ ')' :: after, split, located⟩

theorem standsAt_closing (group : GroupAt text opening closing) : StandsAt text ')' closing := by
  rcases group with ⟨before, inside, after, rfl, located, size, _⟩
  refine ⟨before ++ '(' :: inside, after, ?_, ?_⟩
  · rw [List.append_assoc, List.cons_append]
  · rw [byteLength_append, byteLength, utf8Size_opening]
    omega

theorem lt (group : GroupAt text opening closing) : opening < closing := by
  rcases group with ⟨_, _, _, _, _, size, _⟩
  omega

/-- A group ends at the first place at which as much is closed as was opened since its
beginning. -/
theorem isLeast (group : GroupAt text opening closing) :
    IsLeast {place | opening < place ∧ LevelThrough text opening place} closing := by
  have later := group.lt
  rcases group with ⟨before, inside, after, rfl, rfl, size, balanced⟩
  constructor
  · refine ⟨later, before, '(' :: inside, ')', after, rfl, rfl, ?_, ?_⟩
    · rw [byteLength, utf8Size_opening]
      omega
    · rw [depth_eq_zero_iff, List.cons_append, depth_cons_opening, depth_append, balanced.2,
        depth_closing]
      rfl
  · rintro place ⟨behind, before', segment, last, after', split, located, reached, level⟩
    rcases append_inj_of_byteLength split located.symm with ⟨rfl, same⟩
    cases segment with
    | nil =>
        rw [byteLength] at reached
        omega
    | cons first segment =>
        rw [List.cons_append] at same
        injection same with isOpening sameRest
        subst isOpening
        rw [byteLength, utf8Size_opening] at reached
        rcases places_trichotomy sameRest with
          ⟨rfl, _, _⟩ | ⟨middle, rfl, _⟩ | ⟨middle, rfl, _⟩
        · omega
        · rw [byteLength_append] at reached
          omega
        · -- Short of its end, the group has closed less than it has opened.
          have stays := balanced.1 (segment ++ [last]) ⟨middle, by simp⟩
          rw [depth_eq_zero_iff, List.cons_append, depth_cons_opening] at level
          omega

theorem closing_unique {other : Nat} (group : GroupAt text opening closing)
    (again : GroupAt text opening other) : closing = other :=
  group.isLeast.unique again.isLeast

/-- A group that begins behind the beginning of another one is outside of it or inside. -/
theorem nested {inner innerClosing : Nat} (group : GroupAt text opening closing)
    (within : GroupAt text inner innerClosing) (later : opening < inner) :
    closing < inner ∨ innerClosing < closing := by
  rcases group with ⟨before, inside, after, rfl, rfl, rfl, balanced⟩
  rcases within with ⟨before', inside', after', split, rfl, rfl, balanced'⟩
  rcases places_trichotomy split with ⟨rfl, _, _⟩ | ⟨middle, rfl, found⟩ | ⟨middle, rfl, _⟩
  · omega
  · rcases places_trichotomy found with ⟨_, impossible, _⟩ | ⟨rest, rfl, _⟩ | ⟨rest, rfl, closes⟩
    · cases impossible
    · -- The inside of the first group ends before the second one begins.
      left
      simp only [byteLength_append, byteLength, utf8Size_opening, utf8Size_closing]
      omega
    · -- It holds the second opening, and then also what that one is closed by.
      right
      have closed := balanced.depth_behind_opening
      rcases places_trichotomy closes with ⟨rfl, _, _⟩ | ⟨more, rfl, _⟩ | ⟨more, rfl, _⟩
      · rw [balanced'.2] at closed
        omega
      · simp only [byteLength_append, byteLength, utf8Size_opening, utf8Size_closing]
        omega
      · have stays := balanced'.1 rest (List.prefix_append rest _)
        omega
  · rw [byteLength_append] at later
    omega

/-- A closing parenthesis belongs to one group. -/
theorem opening_unique {other : Nat} (group : GroupAt text opening closing)
    (again : GroupAt text other closing) : opening = other := by
  have behind := group.lt
  have behindOther := again.lt
  rcases Nat.lt_trichotomy opening other with earlier | same | later
  · have apart := group.nested again earlier
    omega
  · exact same
  · have apart := again.nested group later
    omega

end GroupAt

/-! ## Matched texts -/

namespace Matched

variable {pairing : Pairing} {offset : Nat} {text : List Char}

/-- Each opening parenthesis of a matched text begins a group that the pairing holds, and the
inside of that group is matched. -/
theorem exists_closing (matched : Matched pairing offset text) {before after : List Char}
    (split : text = before ++ '(' :: after) :
    ∃ inside rest, after = inside ++ ')' :: rest ∧
      Matched pairing (offset + byteLength before + 1) inside ∧
      pairing.closing? (offset + byteLength before) =
        some (offset + byteLength before + 1 + byteLength inside) := by
  induction matched generalizing before after with
  | nil => simp at split
  | @character offset c rest other tail ih =>
      rcases List.cons_eq_append_iff.mp split with ⟨_, same⟩ | ⟨middle, rfl, found⟩
      · cases same
        cases other
      · rw [byteLength, ← Nat.add_assoc]
        exact ih found
  | @group offset inside rest paired within tail ihInside ihRest =>
      rcases List.cons_eq_append_iff.mp split with ⟨rfl, same⟩ | ⟨middle, rfl, found⟩
      · cases same
        exact ⟨inside, rest, rfl, within, paired⟩
      · rw [byteLength, utf8Size_opening, ← Nat.add_assoc]
        rcases places_trichotomy found with
          ⟨_, impossible, _⟩ | ⟨front, rfl, inRest⟩ | ⟨behind, rfl, rfl⟩
        · cases impossible
        · rw [byteLength_append, byteLength, utf8Size_closing, ← Nat.add_assoc, ← Nat.add_assoc]
          exact ihRest inRest
        · rcases ihInside rfl with ⟨inner, others, rfl, innerMatched, closed⟩
          refine ⟨inner, others ++ ')' :: rest, ?_, innerMatched, closed⟩
          rw [List.append_assoc, List.cons_append]

/-- Each closing parenthesis of a matched text ends one. -/
theorem exists_opening (matched : Matched pairing offset text) {before after : List Char}
    (split : text = before ++ ')' :: after) :
    ∃ front inside, before = front ++ '(' :: inside ∧ Balanced inside ∧
      pairing.closing? (offset + byteLength front) = some (offset + byteLength before) := by
  induction matched generalizing before after with
  | nil => simp at split
  | @character offset c rest other tail ih =>
      rcases List.cons_eq_append_iff.mp split with ⟨_, same⟩ | ⟨middle, rfl, found⟩
      · cases same
        cases other
      · rcases ih found with ⟨front, inside, rfl, balanced, closed⟩
        refine ⟨c :: front, inside, rfl, balanced, ?_⟩
        rw [byteLength, byteLength, ← Nat.add_assoc, ← Nat.add_assoc]
        exact closed
  | @group offset inside rest paired within tail ihInside ihRest =>
      rcases List.cons_eq_append_iff.mp split with ⟨_, impossible⟩ | ⟨middle, rfl, found⟩
      · cases impossible
      · rcases places_trichotomy found with
          ⟨rfl, _, _⟩ | ⟨front, rfl, inRest⟩ | ⟨behind, rfl, _⟩
        · refine ⟨[], inside, rfl, within.balanced, ?_⟩
          rw [byteLength, byteLength, utf8Size_opening, ← Nat.add_assoc]
          exact paired
        · rcases ihRest inRest with ⟨further, inner, rfl, balanced, closed⟩
          refine ⟨'(' :: (inside ++ ')' :: further), inner, by simp, balanced, ?_⟩
          simp only [byteLength, byteLength_append, utf8Size_opening, utf8Size_closing,
            ← Nat.add_assoc] at closed ⊢
          exact closed
        · rcases ihInside rfl with ⟨front, inner, rfl, balanced, closed⟩
          refine ⟨'(' :: front, inner, rfl, balanced, ?_⟩
          rw [byteLength, byteLength, utf8Size_opening, ← Nat.add_assoc, ← Nat.add_assoc]
          exact closed

end Matched

namespace Pairing

variable {offset : Nat} {waiting : List Nat} {found pairing : Pairing} {text : List Char}

/-! ## What the table holds -/

theorem mem_openings_iff {key : Nat} :
    key ∈ pairing.openings ↔ ∃ closing, pairing.closing? key = some closing := by
  rw [openings, closing?]
  induction pairing.pairs with
  | nil => simp [find?]
  | cons pair rest ih =>
      rw [List.map_cons, List.mem_cons, ih, find?]
      by_cases same : key = pair.1
      · simp [same]
      · simp [same]

/-- The openings that are recorded are those that were recorded before, those that were
waiting, and those of the text. -/
theorem standsAt_of_pairFrom (paired : pairFrom offset waiting found text = .ok pairing)
    {key : Nat} (recorded : key ∈ pairing.openings) :
    key ∈ waiting ++ found.openings ∨
      ∃ before after, text = before ++ '(' :: after ∧ offset + byteLength before = key := by
  induction text generalizing offset waiting found with
  | nil =>
      cases waiting with
      | nil =>
          cases paired
          exact .inl recorded
      | cons opening outer => cases paired
  | cons c rest ih =>
      rcases isParenthesis_cases c with rfl | rfl | other
      · rw [pairFrom_opening] at paired
        split at paired
        · cases paired
        · rcases ih paired with member | ⟨before, after, rfl, located⟩
          · rcases List.mem_cons.mp member with rfl | earlier
            · exact .inr ⟨[], rest, rfl, rfl⟩
            · exact .inl earlier
          · refine .inr ⟨'(' :: before, after, rfl, ?_⟩
            rw [byteLength, utf8Size_opening, ← Nat.add_assoc]
            exact located
      · cases waiting with
        | nil =>
            rw [pairFrom_closing_nil] at paired
            cases paired
        | cons opening outer =>
            rw [pairFrom_closing_cons] at paired
            rcases ih paired with member | ⟨before, after, rfl, located⟩
            · exact .inl (List.perm_middle.mem_iff.mp member)
            · refine .inr ⟨')' :: before, after, rfl, ?_⟩
              rw [byteLength, utf8Size_closing, ← Nat.add_assoc]
              exact located
      · rw [pairFrom_other other] at paired
        rcases ih paired with member | ⟨before, after, rfl, located⟩
        · exact .inl member
        · refine .inr ⟨c :: before, after, rfl, ?_⟩
          rw [byteLength, ← Nat.add_assoc]
          exact located

/-- No opening is recorded twice: each one leaves those that wait as it is recorded, and
one that begins to wait is later in the text than all others. -/
theorem nodup_openings_of_pairFrom (paired : pairFrom offset waiting found text = .ok pairing)
    (nodup : (waiting ++ found.openings).Nodup)
    (earlier : ∀ key ∈ waiting ++ found.openings, key < offset) : pairing.openings.Nodup := by
  induction text generalizing offset waiting found with
  | nil =>
      cases waiting with
      | nil =>
          cases paired
          exact nodup
      | cons opening outer => cases paired
  | cons c rest ih =>
      rcases isParenthesis_cases c with rfl | rfl | other
      · rw [pairFrom_opening] at paired
        split at paired
        · cases paired
        · refine ih paired (List.nodup_cons.mpr ⟨fun member => ?_, nodup⟩) fun key member => ?_
          · exact Nat.lt_irrefl offset (earlier offset member)
          · rcases List.mem_cons.mp member with rfl | known
            · exact Nat.lt_succ_self key
            · exact Nat.lt_succ_of_lt (earlier key known)
      · cases waiting with
        | nil =>
            rw [pairFrom_closing_nil] at paired
            cases paired
        | cons opening outer =>
            rw [pairFrom_closing_cons] at paired
            have moved : (outer ++ (found.insert opening offset).openings).Perm
                (opening :: outer ++ found.openings) := List.perm_middle
            exact ih paired (moved.nodup_iff.mpr nodup) fun key member =>
              Nat.lt_succ_of_lt (earlier key (moved.mem_iff.mp member))
      · rw [pairFrom_other other] at paired
        exact ih paired nodup fun key member => Nat.lt_add_right _ (earlier key member)

/-- The pairing of a text holds its groups and nothing else. -/
theorem closing?_eq_some_iff (paired : ofText text = .ok pairing) {opening closing : Nat} :
    pairing.closing? opening = some closing ↔ GroupAt text opening closing := by
  have ofOpening : StandsAt text '(' opening →
      ∃ other, pairing.closing? opening = some other ∧ GroupAt text opening other := by
    rintro ⟨before, after, split, located⟩
    rcases (matched_of_ofText paired).exists_closing split with
      ⟨inside, rest, rfl, within, closed⟩
    rw [Nat.zero_add, located] at closed
    exact ⟨_, closed, before, inside, rest, split, located, rfl, within.balanced⟩
  constructor
  · intro closed
    have stands : StandsAt text '(' opening := by
      rcases standsAt_of_pairFrom paired (mem_openings_iff.mpr ⟨closing, closed⟩) with
        nowhere | ⟨before, after, split, located⟩
      · cases nowhere
      · rw [Nat.zero_add] at located
        exact ⟨before, after, split, located⟩
    rcases ofOpening stands with ⟨other, closedThere, group⟩
    rw [closed] at closedThere
    cases closedThere
    exact group
  · intro group
    rcases ofOpening group.standsAt_opening with ⟨other, closedThere, there⟩
    rw [group.closing_unique there]
    exact closedThere

/-- Between the parentheses of a pair stands a matched text. -/
theorem exists_inside (paired : ofText text = .ok pairing) {opening closing : Nat}
    (closed : pairing.closing? opening = some closing) :
    ∃ before inside after, text = before ++ '(' :: (inside ++ ')' :: after) ∧
      byteLength before = opening ∧ opening + 1 + byteLength inside = closing ∧
      Matched pairing (opening + 1) inside := by
  rcases ((closing?_eq_some_iff paired).mp closed).standsAt_opening with
    ⟨before, rest, split, located⟩
  rcases (matched_of_ofText paired).exists_closing split with
    ⟨inside, after, rfl, within, closedThere⟩
  rw [Nat.zero_add, located] at within closedThere
  rw [closed, Option.some.injEq] at closedThere
  exact ⟨before, inside, after, split, located, closedThere.symm, within⟩

theorem perfect_of_ofText (paired : ofText text = .ok pairing) : pairing.Perfect text := by
  have holds : ∀ opening closing,
      pairing.closing? opening = some closing ↔ GroupAt text opening closing :=
    fun _ _ => closing?_eq_some_iff paired
  constructor
  · intro place
    constructor
    · rintro ⟨closing, closed⟩
      exact ((holds place closing).mp closed).standsAt_opening
    · rintro ⟨before, after, split, rfl⟩
      rcases (matched_of_ofText paired).exists_closing split with ⟨inside, _, _, _, closed⟩
      rw [Nat.zero_add] at closed
      exact ⟨_, closed⟩
  · intro place
    constructor
    · rintro ⟨opening, closed⟩
      exact ((holds opening place).mp closed).standsAt_closing
    · rintro ⟨before, after, split, rfl⟩
      rcases (matched_of_ofText paired).exists_opening split with ⟨front, _, _, _, closed⟩
      rw [Nat.zero_add, Nat.zero_add] at closed
      exact ⟨_, closed⟩
  · intro first second closing closed again
    exact ((holds first closing).mp closed).opening_unique ((holds second closing).mp again)
  · intro opening closing closed
    exact ((holds opening closing).mp closed).lt
  · intro outer outerClosing inner innerClosing closed closedInner later
    exact ((holds outer outerClosing).mp closed).nested
      ((holds inner innerClosing).mp closedInner) later

/-! ## There is one perfect matching -/

namespace Perfect

variable {first second : Pairing}

/-- If two matchings agree behind an opening, the first one does not close it earlier.
Otherwise the second one would give that closing to an opening further right, where the
first one does so too. -/
theorem not_lt_closing (left : first.Perfect text) (right : second.Perfect text)
    {opening closing other : Nat}
    (agree : ∀ later, opening < later → first.closing? later = second.closing? later)
    (closed : first.closing? opening = some closing)
    (closedOther : second.closing? opening = some other) : ¬ closing < other := by
  intro sooner
  rcases (right.closings closing).mpr ((left.closings closing).mp ⟨opening, closed⟩) with
    ⟨partner, taken⟩
  have behind := left.ordered _ _ closed
  have before := right.ordered _ _ taken
  rcases Nat.lt_trichotomy opening partner with later | same | earlier
  · rw [← agree partner later] at taken
    exact Nat.ne_of_lt later (left.injective _ _ _ closed taken)
  · rw [← same, closedOther, Option.some.injEq] at taken
    omega
  · rcases right.nested _ _ _ _ taken closedOther earlier with apart | inside
    · omega
    · omega

theorem closing?_eq (left : first.Perfect text) (right : second.Perfect text) (opening : Nat) :
    first.closing? opening = second.closing? opening := by
  -- Openings are compared from the end of the text to its start.
  induction distance : byteLength text - opening using Nat.strongRecOn generalizing opening with
  | ind count ih =>
      subst distance
      have agree : ∀ later, opening < later → first.closing? later = second.closing? later := by
        intro later behind
        by_cases inText : later < byteLength text
        · exact ih _ (by omega) later rfl
        · have nothing : ∀ pairing : Pairing, pairing.Perfect text →
              pairing.closing? later = none := by
            intro pairing perfect
            rw [Option.eq_none_iff_forall_ne_some]
            intro closing closed
            exact inText ((perfect.openings later).mp ⟨closing, closed⟩).lt_byteLength
          rw [nothing first left, nothing second right]
      cases closed : first.closing? opening with
      | none =>
          cases closedOther : second.closing? opening with
          | none => rfl
          | some other =>
              have stands := (right.openings opening).mp ⟨other, closedOther⟩
              rcases (left.openings opening).mpr stands with ⟨closing, impossible⟩
              rw [closed] at impossible
              cases impossible
      | some closing =>
          rcases (right.openings opening).mpr ((left.openings opening).mp ⟨closing, closed⟩) with
            ⟨other, closedOther⟩
          have notSooner := left.not_lt_closing right agree closed closedOther
          have notLater := right.not_lt_closing left
            (fun later behind => (agree later behind).symm) closedOther closed
          rw [closedOther, Option.some.injEq]
          omega

end Perfect

end Pairing

/-- The pairing of a text, where there is one, is its only perfect matching.  Each opening
parenthesis is recorded once.  Between a pair stands a balanced text, and the closing
parenthesis is the first place behind the opening one at which as many are closed as were
opened. -/
theorem ofText_perfect_matching (text : List Char) (pairing : Pairing)
    (paired : Pairing.ofText text = .ok pairing) :
    pairing.openings.Nodup ∧ pairing.Perfect text ∧
      (∀ opening closing, pairing.closing? opening = some closing →
        GroupAt text opening closing ∧
          IsLeast {place | opening < place ∧ LevelThrough text opening place} closing) ∧
      ∀ other : Pairing, other.Perfect text → other.closing? = pairing.closing? := by
  have perfect := Pairing.perfect_of_ofText paired
  refine ⟨?_, perfect, fun opening closing closed => ?_, fun other otherPerfect => ?_⟩
  · exact Pairing.nodup_openings_of_pairFrom paired List.nodup_nil fun _ nowhere => nomatch nowhere
  · have group := (Pairing.closing?_eq_some_iff paired).mp closed
    exact ⟨group, group.isLeast⟩
  · funext opening
    exact otherPerfect.closing?_eq perfect opening

/-- Two groups stand beside each other inside a third, behind characters of several bytes. -/
theorem ofText_perfect_matching_of_siblings :
    Pairing.ofText "µ(é()(a))".toList = .ok ⟨[(2, 10), (7, 9), (5, 6)]⟩ ∧
      IsLeast {place | 2 < place ∧ LevelThrough "µ(é()(a))".toList 2 place} 10 ∧
      ∀ other : Pairing, other.Perfect "µ(é()(a))".toList → other.closing? 7 = some 9 := by
  have paired : Pairing.ofText "µ(é()(a))".toList = .ok ⟨[(2, 10), (7, 9), (5, 6)]⟩ := by
    decide +kernel
  rcases ofText_perfect_matching _ _ paired with ⟨_, _, groups, unique⟩
  refine ⟨paired, (groups 2 10 rfl).2, fun other perfect => ?_⟩
  rw [unique other perfect]
  rfl

end FilterQuery
