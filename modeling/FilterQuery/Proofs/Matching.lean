import FilterQuery.Proofs.Nesting

namespace FilterQuery

open Text

/-!
# Texts with matched parentheses

Scanning is driven by a table of offsets.  Here the table is tied to the text: a
text is matched by a pairing if it is made of single characters and of groups, and
the pairing sends the opening of each group to its closing.  The relation is
inductive, so that whoever reads a matched text can follow its groups and never has
to compare offsets.

The pairing of a text matches it.  The loop that builds the pairing only knows the
openings it still waits for, so the proof splits its remaining text at the closing
that the innermost of them will find.
-/

/-- A text that begins at an offset has matched parentheses, and a pairing holds
their offsets.  The pairing may hold others too. -/
inductive Matched (pairing : Pairing) : Nat → List Char → Prop where
  | nil (offset : Nat) : Matched pairing offset []
  | character {offset : Nat} {c : Char} {rest : List Char} (other : isParenthesis c = false)
      (tail : Matched pairing (offset + c.utf8Size) rest) : Matched pairing offset (c :: rest)
  | group {offset : Nat} {inside rest : List Char}
      (paired : pairing.closing? offset = some (offset + 1 + byteLength inside))
      (within : Matched pairing (offset + 1) inside)
      (tail : Matched pairing (offset + 1 + byteLength inside + 1) rest) :
      Matched pairing offset ('(' :: (inside ++ ')' :: rest))

/-- A text with matched parentheses is balanced. -/
theorem Matched.balanced {pairing : Pairing} {offset : Nat} {text : List Char}
    (matched : Matched pairing offset text) : Balanced text := by
  induction matched with
  | nil => exact balanced_nil
  | character other _ ih =>
      rw [← balanced_filter, List.filter_cons_of_neg (by simp [other]), balanced_filter]
      exact ih
  | group _ _ _ ihInside ihRest =>
      have whole := ihInside.parenthesised.append ihRest
      rwa [List.cons_append, List.append_assoc] at whole

namespace Text

@[simp]
theorem byteLength_append (first second : List Char) :
    byteLength (first ++ second) = byteLength first + byteLength second := by
  induction first with
  | nil => rw [List.nil_append, byteLength, Nat.zero_add]
  | cons c rest ih => rw [List.cons_append, byteLength, byteLength, ih, Nat.add_assoc]

@[simp]
theorem utf8Size_opening : '('.utf8Size = 1 := by decide

@[simp]
theorem utf8Size_closing : ')'.utf8Size = 1 := by decide

end Text

namespace Pairing

variable {offset : Nat} {waiting : List Nat} {found pairing : Pairing} {text : List Char}

/-! ## One step of pairing -/

theorem pairFrom_opening (rest : List Char) :
    pairFrom offset waiting found ('(' :: rest) =
      if waiting.length = nestingLimit then .error (.invalidExpression .nestedTooDeeply)
      else pairFrom (offset + 1) (offset :: waiting) found rest := by
  simp [pairFrom]

theorem pairFrom_closing_nil (rest : List Char) :
    pairFrom offset [] found (')' :: rest) = .error (.unbalancedParenthesis offset) := by
  simp [pairFrom]

theorem pairFrom_closing_cons (opening : Nat) (rest : List Char) :
    pairFrom offset (opening :: waiting) found (')' :: rest) =
      pairFrom (offset + 1) waiting (found.insert opening offset) rest := by
  simp [pairFrom]

theorem pairFrom_other {c : Char} (other : isParenthesis c = false) (rest : List Char) :
    pairFrom offset waiting found (c :: rest) =
      pairFrom (offset + c.utf8Size) waiting found rest := by
  simp only [isParenthesis, Bool.or_eq_false_iff, beq_eq_false_iff_ne] at other
  simp [pairFrom, other]

/-! ## How pairing ends -/

/-- An outcome of pairing is right about a text: it is accepted if it nests within the
limit and is closed, and else it is refused for one of the two that it does not. -/
def Explains (within closed : Prop) : Except Rejection Pairing → Prop
  | .ok _ => within ∧ closed
  | .error (.invalidExpression .nestedTooDeeply) => ¬within
  | .error (.unbalancedParenthesis _) => ¬closed
  | .error _ => False

theorem Explains.congr {within within' closed closed' : Prop} {outcome : Except Rejection Pairing}
    (explains : Explains within closed outcome) (sameWithin : within' ↔ within)
    (sameClosed : closed' ↔ closed) : Explains within' closed' outcome := by
  rw [propext sameWithin, propext sameClosed]
  exact explains

theorem Explains.rejection {within closed : Prop} {rejection : Rejection}
    (explains : Explains within closed (.error rejection)) :
    (rejection = .invalidExpression .nestedTooDeeply ∧ ¬within) ∨
      ((∃ place, rejection = .unbalancedParenthesis place) ∧ ¬closed) := by
  unfold Explains at explains
  split at explains
  next impossible => cases impossible
  next same =>
    cases same
    exact .inl ⟨rfl, explains⟩
  next place same =>
    cases same
    exact .inr ⟨⟨place, rfl⟩, explains⟩
  next => exact explains.elim

/-- With `waiting` parentheses open, the depth has to stay between nothing and the limit
and to end at nothing. -/
theorem pairFrom_explains (bounded : waiting.length ≤ nestingLimit) :
    Explains (EveryDepth (fun reached => waiting.length + reached ≤ nestingLimit) text)
      (EveryDepth (fun reached => 0 ≤ waiting.length + reached) text ∧
        waiting.length + depth text = 0)
      (pairFrom offset waiting found text) := by
  induction text generalizing offset waiting found with
  | nil =>
      rw [everyDepth_nil, everyDepth_nil, depth_nil]
      cases waiting with
      | nil => exact ⟨by simp, by simp⟩
      | cons opening outer =>
          rintro ⟨_, ends⟩
          rw [List.length_cons] at ends
          omega
  | cons c rest ih =>
      rw [everyDepth_cons, everyDepth_cons, depth_cons c rest]
      rcases isParenthesis_cases c with rfl | rfl | other
      · rw [depth_opening, pairFrom_opening]
        by_cases full : waiting.length = nestingLimit
        · rw [if_pos full]
          rintro ⟨_, every⟩
          have tooDeep := every [] List.nil_prefix
          rw [depth_nil] at tooDeep
          omega
        · rw [if_neg full]
          have room : (offset :: waiting).length ≤ nestingLimit := by
            rw [List.length_cons]
            omega
          have later := @ih (offset + 1) (offset :: waiting) found room
          simp only [List.length_cons, Int.natCast_add, Int.natCast_one, Int.add_assoc] at later
          refine later.congr ⟨And.right, fun every => ⟨by omega, every⟩⟩ ?_
          exact ⟨fun ⟨⟨_, every⟩, ends⟩ => ⟨every, ends⟩,
            fun ⟨every, ends⟩ => ⟨⟨by omega, every⟩, ends⟩⟩
      · rw [depth_closing]
        cases waiting with
        | nil =>
            rw [pairFrom_closing_nil]
            rintro ⟨⟨_, every⟩, _⟩
            have negative := every [] List.nil_prefix
            rw [depth_nil, List.length_nil] at negative
            omega
        | cons opening outer =>
            rw [List.length_cons] at bounded ⊢
            have same : ∀ reached : Int,
                ((outer.length + 1 : Nat) : Int) + (-1 + reached) = outer.length + reached := by
              intro reached
              omega
            simp only [same]
            rw [pairFrom_closing_cons]
            refine (ih (by omega)).congr ⟨And.right, fun every => ⟨by omega, every⟩⟩ ?_
            exact ⟨fun ⟨⟨_, every⟩, ends⟩ => ⟨every, ends⟩,
              fun ⟨every, ends⟩ => ⟨⟨by omega, every⟩, ends⟩⟩
      · have weightless := depth_other other
        rw [pairFrom_other other]
        simp only [weightless, Int.zero_add]
        refine (ih bounded).congr ⟨And.right, fun every => ⟨by omega, every⟩⟩ ?_
        exact ⟨fun ⟨⟨_, every⟩, ends⟩ => ⟨every, ends⟩,
          fun ⟨every, ends⟩ => ⟨⟨by omega, every⟩, ends⟩⟩

theorem ofText_explains (text : List Char) :
    Explains (NestsWithin nestingLimit text) (Balanced text) (ofText text) := by
  have room : ([] : List Nat).length ≤ nestingLimit := Nat.zero_le _
  have explains := @pairFrom_explains 0 [] empty text room
  simp only [List.length_nil, Int.natCast_zero, Int.zero_add] at explains
  exact explains

/-- A text has a pairing exactly if it is balanced and nests within the limit. -/
theorem exists_ofText_iff :
    (∃ pairing, ofText text = .ok pairing) ↔ Balanced text ∧ NestsWithin nestingLimit text := by
  have explains := ofText_explains text
  cases outcome : ofText text with
  | ok pairing =>
      rw [outcome] at explains
      exact ⟨fun _ => ⟨explains.2, explains.1⟩, fun _ => ⟨pairing, rfl⟩⟩
  | error rejection =>
      rw [outcome] at explains
      constructor
      · rintro ⟨_, impossible⟩
        cases impossible
      · rintro ⟨balanced, nests⟩
        rcases explains.rejection with ⟨_, deep⟩ | ⟨_, unbalanced⟩
        · exact absurd nests deep
        · exact absurd balanced unbalanced

/-- A balanced text that nests too deeply is refused for that. -/
theorem ofText_eq_nestedTooDeeply (balanced : Balanced text)
    (deep : ¬NestsWithin nestingLimit text) :
    ofText text = .error (.invalidExpression .nestedTooDeeply) := by
  have explains := ofText_explains text
  cases outcome : ofText text with
  | ok pairing =>
      rw [outcome] at explains
      exact absurd explains.1 deep
  | error rejection =>
      rw [outcome] at explains
      rcases explains.rejection with ⟨rfl, _⟩ | ⟨_, unbalanced⟩
      · rfl
      · exact absurd balanced unbalanced

/-- A text within the limit can only be refused for a parenthesis without partner. -/
theorem unbalanced_of_ofText {rejection : Rejection} (nests : NestsWithin nestingLimit text)
    (refused : ofText text = .error rejection) :
    ∃ place, rejection = .unbalancedParenthesis place := by
  have explains := ofText_explains text
  rw [refused] at explains
  rcases explains.rejection with ⟨_, deep⟩ | ⟨stray, _⟩
  · exact absurd nests deep
  · exact stray

/-! ## What pairing finds -/

theorem closing?_insert (opening closing key : Nat) :
    (found.insert opening closing).closing? key =
      if key = opening then some closing else found.closing? key := rfl

/-- Pairs of earlier openings are not touched any more, once nothing waits for
them. -/
theorem closing?_of_pairFrom (paired : pairFrom offset waiting found text = .ok pairing)
    {key : Nat} (earlier : key < offset) (notWaiting : key ∉ waiting) :
    pairing.closing? key = found.closing? key := by
  induction text generalizing offset waiting found with
  | nil =>
      cases waiting with
      | nil => cases paired; rfl
      | cons opening outer => cases paired
  | cons c rest ih =>
      rcases isParenthesis_cases c with rfl | rfl | other
      · rw [pairFrom_opening] at paired
        split at paired
        · cases paired
        · refine ih paired (Nat.lt_add_right _ earlier) ?_
          rw [List.mem_cons, not_or]
          exact ⟨Nat.ne_of_lt earlier, notWaiting⟩
      · cases waiting with
        | nil =>
            rw [pairFrom_closing_nil] at paired
            cases paired
        | cons opening outer =>
            rw [pairFrom_closing_cons] at paired
            rw [List.mem_cons, not_or] at notWaiting
            rw [ih paired (Nat.lt_add_right _ earlier) notWaiting.2, closing?_insert,
              if_neg notWaiting.1]
      · rw [pairFrom_other other] at paired
        exact ih paired (Nat.lt_add_right _ earlier) notWaiting

/-- The text behind an opening that waits is matched up to the closing that the
opening is paired with, and pairing goes on behind it.  The openings that wait are
distinct and stand before the text, the innermost last. -/
theorem exists_closing_of_pairFrom {opening : Nat}
    (paired : pairFrom offset (opening :: waiting) found text = .ok pairing)
    (descending : (offset :: opening :: waiting).Pairwise (fun later earlier => earlier < later)) :
    ∃ inside after found', text = inside ++ ')' :: after ∧ Matched pairing offset inside ∧
      pairing.closing? opening = some (offset + byteLength inside) ∧
      pairFrom (offset + byteLength inside + 1) waiting found' after = .ok pairing := by
  induction length : text.length using Nat.strongRecOn
    generalizing offset opening waiting found text with
  | ind count ih =>
      subst length
      rcases List.pairwise_cons.mp descending with ⟨below, outerBelow⟩
      have moved : ∀ size, ((offset + size) :: opening :: waiting).Pairwise
          (fun later earlier => earlier < later) := fun size =>
        List.pairwise_cons.mpr
          ⟨fun known member => Nat.lt_add_right size (below known member), outerBelow⟩
      cases text with
      | nil => cases paired
      | cons c rest =>
          rcases isParenthesis_cases c with rfl | rfl | other
          · -- A group opens: its closing is found first, and then that of the waiting opening.
            rw [pairFrom_opening] at paired
            split at paired
            · cases paired
            · have deeper : ((offset + 1) :: offset :: opening :: waiting).Pairwise
                  (fun later earlier => earlier < later) := by
                refine List.pairwise_cons.mpr ⟨fun known member => ?_, descending⟩
                rcases List.mem_cons.mp member with rfl | inOuter
                · exact Nat.lt_succ_self _
                · exact Nat.lt_succ_of_lt (below known inOuter)
              rcases ih _ (Nat.lt_succ_self _) paired deeper rfl with
                ⟨inside, behind, found', rfl, within, closed, goesOn⟩
              rcases ih _ (by simp only [List.length_append, List.length_cons]; omega) goesOn
                  (by simpa only [Nat.add_assoc] using moved _) rfl with
                ⟨tail, after, found'', rfl, matchedTail, closedOuter, final⟩
              have size : offset + byteLength ('(' :: (inside ++ ')' :: tail)) =
                  offset + 1 + byteLength inside + 1 + byteLength tail := by
                simp only [byteLength, byteLength_append, utf8Size_opening, utf8Size_closing]
                omega
              refine ⟨'(' :: (inside ++ ')' :: tail), after, found'', ?_,
                .group closed within matchedTail, ?_, ?_⟩
              · simp only [List.cons_append, List.append_assoc]
              · rw [closedOuter, size]
              · rw [size]
                exact final
          · rw [pairFrom_closing_cons] at paired
            refine ⟨[], rest, found.insert opening offset, rfl, .nil offset, ?_, paired⟩
            have distinct := (List.pairwise_cons.mp outerBelow).1
            have earlier := Nat.lt_succ_of_lt (below opening List.mem_cons_self)
            rw [closing?_of_pairFrom paired earlier
              (fun member => Nat.lt_irrefl _ (distinct opening member)), closing?_insert, if_pos rfl]
            rfl
          · rw [pairFrom_other other] at paired
            rcases ih _ (Nat.lt_succ_self _) paired (moved _) rfl with
              ⟨inside, after, found', rfl, within, closed, goesOn⟩
            refine ⟨c :: inside, after, found', rfl, .character other within, ?_, ?_⟩
            · rw [closed, byteLength, Nat.add_assoc]
            · rw [byteLength, ← Nat.add_assoc]
              exact goesOn

/-- A text with nothing open before it is matched by the pairing that is found
in it. -/
theorem matched_of_pairFrom (paired : pairFrom offset [] found text = .ok pairing) :
    Matched pairing offset text := by
  induction length : text.length using Nat.strongRecOn generalizing offset found text with
  | ind count ih =>
      subst length
      cases text with
      | nil => exact .nil offset
      | cons c rest =>
          rcases isParenthesis_cases c with rfl | rfl | other
          · rw [pairFrom_opening] at paired
            split at paired
            · cases paired
            · rcases exists_closing_of_pairFrom paired (by simp) with
                ⟨inside, after, found', rfl, within, closed, goesOn⟩
              exact .group closed within
                (ih _ (by simp only [List.length_append, List.length_cons]; omega) goesOn rfl)
          · rw [pairFrom_closing_nil] at paired
            cases paired
          · rw [pairFrom_other other] at paired
            exact .character other (ih _ (Nat.lt_succ_self _) paired rfl)

/-- The pairing of a text matches it. -/
theorem matched_of_ofText (paired : ofText text = .ok pairing) : Matched pairing 0 text :=
  matched_of_pairFrom paired

end Pairing

end FilterQuery
