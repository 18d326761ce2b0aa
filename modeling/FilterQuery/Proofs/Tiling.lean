import FilterQuery.Proofs.ByteScan
import FilterQuery.Proofs.PerfectMatching

namespace FilterQuery

open Text

/-!
# The items of a range

The reader scans two sorts of ranges: the whole query, and what stands between the parentheses
of a pair.  In both of them the items lie beside each other without overlapping, and nothing is
left between them but blanks.  A word is as long as it can be, and a group is a pair that lies in
the range with both of its parentheses.  No stray parenthesis is ever met: between a pair, and in
the query as a whole, every parenthesis has its partner.

`Covers` says that of a text as it is read from its beginning, and it is what one item after
another keeps.  `Tiling` says it of the offsets of all items at once.  It does not mention how
they were found.
-/

/-- The offset behind an item that begins at an offset. -/
def Item.stop (start : Nat) : Item → Nat
  | .word text => start + byteLength text.toList
  | .group _ closing => closing + 1

/-- The text from an offset on is made of these items, with blanks between them. -/
inductive Covers (pairing : Pairing) : Nat → List Char → List (Nat × Item) → Prop where
  | blanks {offset : Nat} {text : List Char} (blanks : ∀ c ∈ text, isBlank c = true) :
    Covers pairing offset text []
  | word {offset : Nat} {gap rest : List Char} {text : String} {items : List (Nat × Item)}
      (blanks : ∀ c ∈ gap, isBlank c = true) (isWord : IsWord text)
      (stops : ∀ c ∈ rest.head?, isDelimiter c = true)
      (tail : Covers pairing (offset + byteLength gap + byteLength text.toList) rest items) :
    Covers pairing offset (gap ++ (text.toList ++ rest))
      ((offset + byteLength gap, .word text) :: items)
  | group {offset opening closing : Nat} {gap inside rest : List Char}
      {items : List (Nat × Item)} (blanks : ∀ c ∈ gap, isBlank c = true)
      (opens : offset + byteLength gap = opening)
      (closes : opening + 1 + byteLength inside = closing)
      (paired : pairing.closing? opening = some closing)
      (tail : Covers pairing (closing + 1) rest items) :
    Covers pairing offset (gap ++ '(' :: (inside ++ ')' :: rest))
      ((opening, .group opening closing) :: items)

/-- A word stands at a place of a range, and is as long as the range allows: within the range no
character before it or behind it could belong to it. -/
structure WordAt (query : List Char) (start stop place : Nat) (text : String) : Prop where
  isWord : IsWord text
  maximal : ∃ front before after behind,
    query = front ++ (before ++ (text.toList ++ after)) ++ behind ∧ byteLength front = start ∧
      start + byteLength before = place ∧
      place + byteLength text.toList + byteLength after = stop ∧
      (∀ c ∈ before.getLast?, isDelimiter c = true) ∧ ∀ c ∈ after.head?, isDelimiter c = true

/-- Items at their offsets tile the range between two offsets of a query. -/
structure Tiling (query : List Char) (pairing : Pairing) (start stop : Nat)
    (items : List (Nat × Item)) : Prop where
  increasing : items.Pairwise fun first second => first.1 < second.1
  disjoint : items.Pairwise fun first second => first.2.stop first.1 ≤ second.1
  words : ∀ place text, (place, .word text) ∈ items → WordAt query start stop place text
  groups : ∀ place opening closing, (place, .group opening closing) ∈ items →
    place = opening ∧ pairing.closing? opening = some closing ∧ start ≤ opening ∧
      opening < closing ∧ closing < stop
  /-- Each byte of the range belongs to an item or is a blank. -/
  covered : ∀ place, start ≤ place → place < stop →
    (∃ found ∈ items, found.1 ≤ place ∧ place < found.2.stop found.1) ∨
      ∃ c, isBlank c = true ∧ StandsAt query c place

/-- A range that the reader scans: the whole query, or what stands between a pair. -/
def IsScanned (query : List Char) (pairing : Pairing) (start stop : Nat) : Prop :=
  (start = 0 ∧ stop = byteLength query) ∨
    ∃ opening, start = opening + 1 ∧ pairing.closing? opening = some stop

/-! ## From one item to the next -/

/-- The items that are found from a place of a matched text on cover that text, and none of
them is a stray parenthesis. -/
theorem exists_covers {pairing : Pairing} (place : Place)
    (matched : Matched pairing place.offset place.text) (range : Range) (unused : List Nat) :
    ∃ items : List (Nat × Item),
      range.locatedFrom pairing unused place = items.map (fun found => (found.1, .ok found.2)) ∧
        Covers pairing place.offset place.text items := by
  induction length : place.text.length using Nat.strongRecOn generalizing place with
  | ind count ih =>
      subst length
      have cuts := Place.cuts_next matched
      cases found : place.next pairing with
      | finished =>
          rw [found] at cuts
          exact ⟨[], Range.locatedFrom_of_finished found, .blanks cuts⟩
      | stray offset =>
          rw [found] at cuts
          exact cuts.elim
      | word start text after =>
          rw [found] at cuts
          rcases cuts with ⟨gap, blanks, split, located, further, isWord, stops, tail⟩
          rcases ih _ (Place.length_lt_of_next_word found) after tail rfl with ⟨items, same, covers⟩
          refine ⟨(start, .word text) :: items, ?_, ?_⟩
          · rw [Range.locatedFrom_of_word found, same, List.map_cons]
          · rw [← further, ← located] at covers
            rw [split, ← located]
            exact .word blanks isWord stops covers
      | group opening closing inside after =>
          rw [found] at cuts
          rcases cuts with ⟨gap, blanks, split, opens, enters, closes, further, paired, _, tail⟩
          rcases ih _ (Place.length_lt_of_next_group found).2 after tail rfl with ⟨items, same, covers⟩
          refine ⟨(opening, .group opening closing) :: items, ?_, ?_⟩
          · rw [Range.locatedFrom_of_group found (by omega), same, List.map_cons]
          · rw [← further] at covers
            rw [split]
            exact .group blanks opens (by omega) paired covers

/-! ## What covers a text tiles its range -/

/-- A blank of a text stands at each of its offsets, if the text is nothing but blanks. -/
theorem exists_blank_of_lt {before gap after : List Char} (blanks : ∀ c ∈ gap, isBlank c = true)
    {place : Nat} (behind : byteLength before ≤ place)
    (inside : place < byteLength before + byteLength gap) :
    ∃ c, isBlank c = true ∧ StandsAt (before ++ (gap ++ after)) c place := by
  induction gap generalizing before with
  | nil =>
      rw [byteLength] at inside
      omega
  | cons c rest ih =>
      rcases List.forall_mem_cons.mp blanks with ⟨blank, others⟩
      have size := utf8Size_of_isBlank blank
      by_cases here : place = byteLength before
      · exact ⟨c, blank, before, rest ++ after, rfl, here.symm⟩
      · have moved := @ih (before ++ [c]) others
        simp only [byteLength_append, byteLength, size, List.append_assoc,
          List.singleton_append] at moved inside
        exact moved (by omega) (by omega)

/-- The size of a group with what stands before it and behind it. -/
theorem byteLength_group (gap inside rest : List Char) :
    byteLength (gap ++ '(' :: (inside ++ ')' :: rest)) =
      byteLength gap + 1 + byteLength inside + 1 + byteLength rest := by
  simp only [byteLength_append, byteLength, utf8Size_opening, utf8Size_closing]
  omega

namespace Covers

variable {pairing : Pairing} {offset : Nat} {text : List Char} {items : List (Nat × Item)}

/-- No item begins before the text. -/
theorem le_start (covers : Covers pairing offset text items) :
    ∀ found ∈ items, offset ≤ found.1 := by
  induction covers with
  | blanks =>
      intro found member
      cases member
  | word _ _ _ _ ih =>
      refine List.forall_mem_cons.mpr ⟨Nat.le_add_right _ _, fun found member => ?_⟩
      have later := ih found member
      omega
  | group _ opens closes _ _ ih =>
      refine List.forall_mem_cons.mpr ⟨by simp only; omega, fun found member => ?_⟩
      have later := ih found member
      omega

theorem disjoint (covers : Covers pairing offset text items) :
    items.Pairwise fun first second => first.2.stop first.1 ≤ second.1 := by
  induction covers with
  | blanks => exact .nil
  | word _ _ _ tail ih => exact .cons tail.le_start ih
  | group _ _ _ _ tail ih => exact .cons tail.le_start ih

/-- An item has some length. -/
theorem start_lt_stop (covers : Covers pairing offset text items) :
    ∀ found ∈ items, found.1 < found.2.stop found.1 := by
  induction covers with
  | blanks =>
      intro found member
      cases member
  | @word _ _ _ word _ _ isWord _ _ ih =>
      refine List.forall_mem_cons.mpr ⟨?_, ih⟩
      rcases isWord.exists_cons with ⟨first, rest, same, _⟩
      have positive := first.utf8Size_pos
      simp only [Item.stop, same, byteLength]
      omega
  | group _ _ closes _ _ ih =>
      refine List.forall_mem_cons.mpr ⟨?_, ih⟩
      simp only [Item.stop]
      omega

theorem increasing (covers : Covers pairing offset text items) :
    items.Pairwise fun first second => first.1 < second.1 := by
  refine covers.disjoint.imp_of_mem fun member _ apart => ?_
  exact Nat.lt_of_lt_of_le (covers.start_lt_stop _ member) apart

theorem groups (covers : Covers pairing offset text items) {place opening closing : Nat}
    (member : (place, Item.group opening closing) ∈ items) :
    place = opening ∧ pairing.closing? opening = some closing ∧ offset ≤ opening ∧
      opening < closing ∧ closing < offset + byteLength text := by
  induction covers with
  | blanks => cases member
  | word _ _ _ _ ih =>
      rcases List.mem_cons.mp member with impossible | further
      · cases impossible
      · rcases ih further with ⟨same, paired, later, ordered, within⟩
        simp only [byteLength_append]
        exact ⟨same, paired, by omega, ordered, by omega⟩
  | group _ opens closes paired _ ih =>
      rw [byteLength_group]
      rcases List.mem_cons.mp member with same | further
      · cases same
        exact ⟨rfl, paired, by omega, by omega, by omega⟩
      · rcases ih further with ⟨same, paired, later, ordered, within⟩
        exact ⟨same, paired, by omega, ordered, by omega⟩

/-- A word is as long as it can be.  What stands before the text matters only if the text begins
with a word, so it ends in a delimiter or the text does not begin with a character of a word. -/
theorem words (covers : Covers pairing offset text items) {place : Nat} {word : String}
    (member : (place, Item.word word) ∈ items) (front before behind : List Char)
    (located : byteLength front + byteLength before = offset)
    (parted : (∀ c ∈ before.getLast?, isDelimiter c = true) ∨
      ∀ c ∈ text.head?, isDelimiter c = true) :
    WordAt (front ++ (before ++ text) ++ behind) (byteLength front)
      (offset + byteLength text) place word := by
  induction covers generalizing before with
  | blanks => cases member
  | @word offset gap rest text items blanks isWord stops tail ih =>
      rcases List.mem_cons.mp member with same | further
      · cases same
        refine ⟨isWord, front, before ++ gap, rest, behind, ?_, rfl, ?_, ?_, ?_, stops⟩
        · simp only [List.append_assoc]
        · rw [byteLength_append]
          omega
        · simp only [byteLength_append]
          omega
        · intro c isLast
          cases gap using List.reverseRecOn with
          | nil =>
              rw [List.append_nil] at isLast
              rcases isWord.exists_cons with ⟨first, others, spelled, inWord, _⟩
              rcases parted with ends | begins
              · exact ends c isLast
              · have impossible := begins first (by rw [spelled]; rfl)
                rw [inWord] at impossible
                cases impossible
          | append_singleton more last _ =>
              rw [← List.append_assoc, List.getLast?_concat] at isLast
              have same : last = c := Option.some.inj isLast
              simp only [isDelimiter, ← same, blanks last (by simp), Bool.true_or]
      · have later := ih further (before ++ (gap ++ text.toList))
          (by simp only [byteLength_append]; omega) (.inr stops)
        simp only [List.append_assoc, byteLength_append, Nat.add_assoc] at later ⊢
        exact later
  | @group offset opening closing gap inside rest items blanks opens closes paired tail ih =>
      rcases List.mem_cons.mp member with impossible | further
      · cases impossible
      · have later := ih further (before ++ (gap ++ '(' :: (inside ++ [')'])))
          (by rw [byteLength_append, byteLength_group, byteLength]; omega)
          (.inl fun c isLast => by
            rw [← List.append_assoc, ← List.cons_append, ← List.append_assoc,
              List.getLast?_concat] at isLast
            cases isLast
            rfl)
        have size : offset + byteLength (gap ++ '(' :: (inside ++ ')' :: rest)) =
            closing + 1 + byteLength rest := by
          rw [byteLength_group]
          omega
        rw [size]
        simp only [List.append_assoc, List.cons_append, List.nil_append] at later ⊢
        exact later

/-- Each byte of the text belongs to an item, or is a blank. -/
theorem covered (covers : Covers pairing offset text items) (before behind : List Char)
    (located : byteLength before = offset) {place : Nat} (later : offset ≤ place)
    (inside : place < offset + byteLength text) :
    (∃ found ∈ items, found.1 ≤ place ∧ place < found.2.stop found.1) ∨
      ∃ c, isBlank c = true ∧ StandsAt (before ++ (text ++ behind)) c place := by
  induction covers generalizing before with
  | blanks blanks => exact .inr (exists_blank_of_lt blanks (by omega) (by omega))
  | @word offset gap rest text items blanks isWord stops tail ih =>
      simp only [byteLength_append] at inside
      by_cases inGap : place < offset + byteLength gap
      · rw [List.append_assoc]
        exact .inr (exists_blank_of_lt blanks (by omega) (by omega))
      by_cases inWord : place < offset + byteLength gap + byteLength text.toList
      · exact .inl ⟨_, List.mem_cons_self, Nat.le_of_not_lt inGap, inWord⟩
      · have further := ih (before ++ (gap ++ text.toList))
          (by simp only [byteLength_append]; omega) (by omega) (by omega)
        simp only [List.append_assoc] at further ⊢
        exact further.imp_left fun ⟨found, member, covering⟩ =>
          ⟨found, List.mem_cons_of_mem _ member, covering⟩
  | @group offset opening closing gap within rest items blanks opens closes paired tail ih =>
      rw [byteLength_group] at inside
      by_cases inGap : place < opening
      · rw [List.append_assoc]
        exact .inr (exists_blank_of_lt blanks (by omega) (by omega))
      by_cases inGroup : place < closing + 1
      · exact .inl ⟨_, List.mem_cons_self, Nat.le_of_not_lt inGap, inGroup⟩
      · have further := ih (before ++ (gap ++ '(' :: (within ++ [')'])))
          (by rw [byteLength_append, byteLength_group, byteLength]; omega)
          (by omega) (by omega)
        simp only [List.append_assoc, List.cons_append, List.nil_append] at further ⊢
        exact further.imp_left fun ⟨found, member, covering⟩ =>
          ⟨found, List.mem_cons_of_mem _ member, covering⟩

/-- What covers the text of a range tiles the range. -/
theorem tiling {front behind : List Char}
    (covers : Covers pairing (byteLength front) text items) :
    Tiling (front ++ text ++ behind) pairing (byteLength front)
      (byteLength front + byteLength text) items where
  increasing := covers.increasing
  disjoint := covers.disjoint
  words place word member := by
    refine covers.words member front [] behind (by rw [byteLength, Nat.add_zero]) (.inl ?_)
    rintro c ⟨⟩
  groups place opening closing member := covers.groups member
  covered place later inside := by
    rw [List.append_assoc]
    exact covers.covered front behind rfl later inside

end Covers

/-! ## Ranges of the reader -/

namespace Pairing

variable {query : List Char} {pairing : Pairing} {start stop : Nat}

/-- The text of a range that the reader scans is matched. -/
theorem exists_matched (paired : ofText query = .ok pairing)
    (scanned : IsScanned query pairing start stop) :
    ∃ front text behind, query = front ++ text ++ behind ∧ byteLength front = start ∧
      start + byteLength text = stop ∧ Matched pairing start text := by
  rcases scanned with ⟨rfl, rfl⟩ | ⟨opening, rfl, closed⟩
  · exact ⟨[], query, [], by simp, rfl, Nat.zero_add _, matched_of_ofText paired⟩
  · rcases exists_inside paired closed with ⟨before, inside, after, rfl, located, size, within⟩
    refine ⟨before ++ ['('], inside, ')' :: after, by simp, ?_, size, within⟩
    rw [byteLength_append, located]
    rfl

/-- The pairs of a text lead forwards. -/
theorem leadsForward_of_ofText (paired : ofText query = .ok pairing) :
    pairing.LeadsForward query := by
  intro opening closing closed
  have group := (closing?_eq_some_iff paired).mp closed
  rcases group.standsAt_closing with ⟨before, after, rfl, located⟩
  have inside : closing < byteLength (before ++ ')' :: after) := by
    rw [byteLength_append, byteLength, utf8Size_closing]
    omega
  refine ⟨Nat.le_of_lt group.lt, closing + 1, behind?_eq_some_iff.mpr ⟨.inl inside, rfl⟩,
    .inr ⟨before ++ [')'], after, by simp, ?_⟩⟩
  rw [byteLength_append, located]
  rfl

end Pairing

/-- In a range that the reader scans there are only words and groups, and they tile it.  The
same items are found by bytes: no byte is looked for where there is none, and no text is cut
inside a character. -/
theorem located_tiling (query : List Char) (pairing : Pairing) (start stop : Nat)
    (paired : Pairing.ofText query = .ok pairing) (scanned : IsScanned query pairing start stop) :
    ∃ items : List (Nat × Item),
      (Range.mk query start stop).located pairing =
          items.map (fun found => (found.1, .ok found.2)) ∧
        Tiling query pairing start stop items ∧
        ByteScan.Yields query pairing stop start
          (items.map fun found => (found.1, .ok found.2)) := by
  have forward := Pairing.leadsForward_of_ofText paired
  rcases Pairing.exists_matched paired scanned with ⟨front, text, behind, rfl, rfl, rfl, matched⟩
  have begins := Place.ofRange_append front text behind
  rcases exists_covers ⟨byteLength front, text⟩ matched
    ⟨front ++ text ++ behind, byteLength front, byteLength front + byteLength text⟩
    pairing.openings with ⟨items, found, covers⟩
  have within : (⟨byteLength front, text⟩ : Place).Within (front ++ text ++ behind)
      (byteLength front + byteLength text) := ⟨⟨front, behind, rfl, rfl⟩, rfl⟩
  refine ⟨items, ?_, covers.tiling, ?_⟩
  · rw [Range.located, begins]
    exact found
  · rw [← found]
    exact ByteScan.yields_locatedFrom forward (.inl within) _ _

/-- Between the parentheses of the outer pair stand a word, a pair and a word. -/
theorem located_tiling_of_nested :
    Pairing.ofText "µ (é\t() x)y".toList = .ok ⟨[(3, 11), (7, 8)]⟩ ∧
      IsScanned "µ (é\t() x)y".toList ⟨[(3, 11), (7, 8)]⟩ 4 11 ∧
      Tiling "µ (é\t() x)y".toList ⟨[(3, 11), (7, 8)]⟩ 4 11
        [(4, .word "é"), (7, .group 7 8), (10, .word "x")] := by
  have paired : Pairing.ofText "µ (é\t() x)y".toList = .ok ⟨[(3, 11), (7, 8)]⟩ := by
    decide +kernel
  have scanned : IsScanned "µ (é\t() x)y".toList ⟨[(3, 11), (7, 8)]⟩ 4 11 :=
    .inr ⟨3, rfl, by decide⟩
  have begins : Place.ofRange "µ (é\t() x)y".toList 4 11 = ⟨4, "é\t() x".toList⟩ := by
    decide +kernel
  have first : Place.next ⟨[(3, 11), (7, 8)]⟩ ⟨4, "é\t() x".toList⟩ =
      .word 4 "é" ⟨6, "\t() x".toList⟩ := by
    decide +kernel
  have second : Place.next ⟨[(3, 11), (7, 8)]⟩ ⟨6, "\t() x".toList⟩ =
      .group 7 8 ⟨8, []⟩ ⟨9, " x".toList⟩ := by
    decide +kernel
  have third : Place.next ⟨[(3, 11), (7, 8)]⟩ ⟨9, " x".toList⟩ = .word 10 "x" ⟨11, []⟩ := by
    decide +kernel
  rcases located_tiling _ _ _ _ paired scanned with ⟨items, found, tiling, _⟩
  rw [Range.located, begins, Range.locatedFrom_of_word first,
    Range.locatedFrom_of_group second (by decide), Range.locatedFrom_of_word third,
    Range.locatedFrom_of_finished rfl] at found
  have distinct : Function.Injective fun found : Nat × Item =>
      (found.1, (Except.ok found.2 : Except Rejection Item)) := by
    rintro ⟨_, _⟩ ⟨_, _⟩ ⟨⟩
    rfl
  have same : [(4, Item.word "é"), (7, .group 7 8), (10, .word "x")] = items := by
    apply List.map_injective_iff.mpr distinct
    exact found
  rw [← same] at tiling
  exact ⟨paired, scanned, tiling⟩

end FilterQuery
