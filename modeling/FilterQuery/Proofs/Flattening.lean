import FilterQuery.Proofs.Scanning

namespace FilterQuery

open Text

/-!
# Flattening the groups of a query

The words of a query are seen twice.  `words` splits the whole text at its delimiters and takes no
notice of groups, and combinators are counted in what it gives.  The reader gets its words range by
range: it meets a group as one item, and the words inside when it reads the range of that group.

`Flattens` puts the second view in one line.  Wherever an item is a group, the words of the range
between its parentheses stand in its place.  It is a relation and no function, for it follows the
offsets of a table, and a table at large may lead round a circle.  Where it holds, it holds of one
sequence of words only.
-/

/-- The words of items in order, with the words of its range in place of each group.  There are
none if a stray parenthesis is met. -/
inductive Flattens (query : List Char) (pairing : Pairing) :
    List (Except Rejection Item) → List String → Prop where
  | nil : Flattens query pairing [] []
  | word {text : String} {items : List (Except Rejection Item)} {rest : List String}
      (tail : Flattens query pairing items rest) :
    Flattens query pairing (.ok (.word text) :: items) (text :: rest)
  | group {opening closing : Nat} {items : List (Except Rejection Item)}
      {inside rest : List String}
      (within :
        Flattens query pairing ((Range.mk query (opening + 1) closing).items pairing) inside)
      (tail : Flattens query pairing items rest) :
    Flattens query pairing (.ok (.group opening closing) :: items) (inside ++ rest)

theorem Flattens.unique {query : List Char} {pairing : Pairing}
    {items : List (Except Rejection Item)} {first second : List String}
    (flat : Flattens query pairing items first) (again : Flattens query pairing items second) :
    first = second := by
  induction flat generalizing second with
  | nil =>
      cases again
      rfl
  | word _ ih =>
      cases again with
      | word tail => rw [ih tail]
  | group _ _ ihInside ihRest =>
      cases again with
      | group within tail => rw [ihInside within, ihRest tail]

/-! ## Words of a text in pieces -/

theorem words_blanks_append {gap : List Char} (blanks : ∀ c ∈ gap, isBlank c = true)
    (rest : List Char) : words (gap ++ rest) = words rest := by
  rw [words_eq_filterMap_ofText, Token.ofText_blanks_append blanks, words_eq_filterMap_ofText]

theorem words_word_append {text : String} (isWord : IsWord text) {rest : List Char}
    (stops : ∀ c ∈ rest.head?, isDelimiter c = true) :
    words (text.toList ++ rest) = text :: words rest := by
  rw [words_eq_filterMap_ofText, Token.ofText_word_append isWord stops,
    words_eq_filterMap_ofText]
  exact List.filterMap_cons_some rfl

/-- A word ends where a group begins, also if no blank stands between them. -/
theorem words_group_append (inside rest : List Char) :
    words ('(' :: (inside ++ ')' :: rest)) = words inside ++ words rest := by
  simp only [words_eq_filterMap_ofText, Token.ofText_cons_opening, Token.ofText_cons_closing,
    Token.ofText_append_delimiter inside (show isDelimiter ')' = true by decide),
    List.filterMap_append, List.filterMap_cons_none (show Token.opening.word? = none from rfl),
    List.filterMap_cons_none (show Token.closing.word? = none from rfl)]

/-! ## The items of a range -/

/-- The items from a place of a matched text on flatten to the words of that text. -/
theorem flattens_locatedFrom {query : List Char} {pairing : Pairing} (range : Range)
    (unused : List Nat) (place : Place) (matched : Matched pairing place.offset place.text)
    (front behind : List Char) (split : query = front ++ place.text ++ behind)
    (located : byteLength front = place.offset) :
    Flattens query pairing ((range.locatedFrom pairing unused place).map Prod.snd)
      (words place.text) := by
  -- The range between a pair is read afresh, so the length of the text is what goes down.
  induction length : place.text.length using Nat.strongRecOn
    generalizing range unused place front behind with
  | ind count ih =>
      subst length
      have cuts := Place.cuts_next matched
      cases found : place.next pairing with
      | finished =>
          rw [found] at cuts
          rw [Range.locatedFrom_of_finished found, ← List.append_nil place.text,
            words_blanks_append cuts]
          exact .nil
      | stray offset =>
          rw [found] at cuts
          exact cuts.elim
      | word start text after =>
          rw [found] at cuts
          rcases cuts with ⟨gap, blanks, same, begins, further, isWord, stops, tail⟩
          rw [Range.locatedFrom_of_word found, List.map_cons, same, words_blanks_append blanks,
            words_word_append isWord stops]
          have passed : byteLength (front ++ gap ++ text.toList) = after.offset := by
            simp only [byteLength_append]
            omega
          have cut : query = front ++ gap ++ text.toList ++ after.text ++ behind := by
            simp only [split, same, List.append_assoc]
          exact .word (ih _ (Place.length_lt_of_next_word found) range unused after tail _ _ cut
            passed rfl)
      | group opening closing inside after =>
          rw [found] at cuts
          rcases cuts with
            ⟨gap, blanks, same, begins, enters, closes, further, _, within, tail⟩
          have shorter := Place.length_lt_of_next_group found
          have entered : byteLength (front ++ gap ++ ['(']) = inside.offset := by
            simp only [byteLength_append, byteLength, utf8Size_opening]
            omega
          have cut : query =
              front ++ gap ++ ['('] ++ inside.text ++ (')' :: (after.text ++ behind)) := by
            simp [split, same]
          have passed :
              byteLength (front ++ gap ++ ['('] ++ inside.text ++ [')']) = after.offset := by
            rw [byteLength_append, byteLength_append, entered, byteLength, byteLength,
              utf8Size_closing]
            omega
          have cutBehind : query =
              front ++ gap ++ ['('] ++ inside.text ++ [')'] ++ after.text ++ behind := by
            simp [cut]
          have entersRange : Place.ofRange query (opening + 1) closing = inside := by
            rw [cut, enters, ← closes, ← entered, Place.ofRange_append, entered]
          rw [Range.locatedFrom_of_group found (by omega), List.map_cons, same,
            words_blanks_append blanks, words_group_append]
          refine .group ?_ (ih _ shorter.2 range unused after tail _ _ cutBehind passed rfl)
          rw [Range.items, Range.located, entersRange]
          exact ih _ shorter.1 _ _ inside within _ _ cut entered rfl

/-- Reading the ranges of a query from the outside inwards gives the words of its text, each of
them once and in their order. -/
theorem flattens_iff_eq_words (query : List Char) (pairing : Pairing)
    (paired : Pairing.ofText query = .ok pairing) (flat : List String) :
    Flattens query pairing ((Range.mk query 0 (byteLength query)).items pairing) flat ↔
      flat = words query := by
  have whole : Place.ofRange query 0 (byteLength query) = ⟨0, query⟩ := by
    have begins := Place.ofRange_append [] query []
    rwa [List.nil_append, List.append_nil, byteLength, Nat.zero_add] at begins
  have holds : Flattens query pairing ((Range.mk query 0 (byteLength query)).items pairing)
      (words query) := by
    rw [Range.items, Range.located, whole]
    exact flattens_locatedFrom _ _ ⟨0, query⟩ (Pairing.matched_of_ofText paired) [] []
      (List.append_nil query).symm rfl
  constructor
  · intro flattens
    exact flattens.unique holds
  · rintro rfl
    exact holds

/-- Words stand against parentheses, a group is empty, and one is inside another. -/
theorem flattens_iff_eq_words_of_glued :
    Pairing.ofText "é(a()(µ b))c".toList = .ok ⟨[(2, 12), (6, 11), (4, 5)]⟩ ∧
      ∀ flat, Flattens "é(a()(µ b))c".toList ⟨[(2, 12), (6, 11), (4, 5)]⟩
          ((Range.mk "é(a()(µ b))c".toList 0 (byteLength "é(a()(µ b))c".toList)).items
            ⟨[(2, 12), (6, 11), (4, 5)]⟩) flat ↔
        flat = ["é", "a", "µ", "b", "c"] := by
  have paired : Pairing.ofText "é(a()(µ b))c".toList = .ok ⟨[(2, 12), (6, 11), (4, 5)]⟩ := by
    decide +kernel
  have split : words "é(a()(µ b))c".toList = ["é", "a", "µ", "b", "c"] := by
    decide +kernel
  refine ⟨paired, fun flat => ?_⟩
  rw [flattens_iff_eq_words _ _ paired flat, split]

end FilterQuery
