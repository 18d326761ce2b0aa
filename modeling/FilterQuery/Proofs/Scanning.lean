import FilterQuery.Proofs.Matching
import FilterQuery.Scan

namespace FilterQuery

open Text

/-!
# Scanning a matched text

At any place of a matched text the scanner finds what the tokens of that text say:
nothing, or a word, or a group whose inside and outside are matched again.  It never
finds a stray parenthesis.  Byte offsets occur here and nowhere later; all that is
proved about reading a range goes by this one statement.
-/

namespace Text

theorem dropBytes_zero (text : List Char) : dropBytes 0 text = text := by
  cases text with
  | nil => rfl
  | cons c rest => rw [dropBytes, if_pos rfl]

theorem takeBytes_zero (text : List Char) : takeBytes 0 text = [] := by
  cases text with
  | nil => rfl
  | cons c rest => rw [takeBytes, if_pos rfl]

/-- Taking as many bytes as a text has takes that text. -/
theorem takeBytes_byteLength_append (first second : List Char) :
    takeBytes (byteLength first) (first ++ second) = first := by
  induction first with
  | nil => exact takeBytes_zero second
  | cons c rest ih =>
      have positive := c.utf8Size_pos
      rw [List.cons_append, takeBytes, byteLength, if_neg (by omega), Nat.add_sub_cancel_left, ih]

/-- Dropping more bytes than a text has goes on dropping behind it. -/
theorem dropBytes_byteLength_append (first second : List Char) (count : Nat) :
    dropBytes (byteLength first + count) (first ++ second) = dropBytes count second := by
  induction first with
  | nil => rw [byteLength, Nat.zero_add, List.nil_append]
  | cons c rest ih =>
      have positive := c.utf8Size_pos
      rw [List.cons_append, dropBytes, byteLength, if_neg (by omega), Nat.add_assoc,
        Nat.add_sub_cancel_left, ih]

end Text

namespace Matched

variable {pairing : Pairing} {offset : Nat}

/-- A character that is no parenthesis stands by itself. -/
theorem tail_of_cons {c : Char} {rest : List Char} (matched : Matched pairing offset (c :: rest))
    (other : isParenthesis c = false) : Matched pairing (offset + c.utf8Size) rest := by
  cases matched with
  | character _ tail => exact tail
  | group => exact absurd other (by decide)

theorem dropFront {front rest : List Char} (matched : Matched pairing offset (front ++ rest))
    (none : ∀ c ∈ front, isParenthesis c = false) :
    Matched pairing (offset + byteLength front) rest := by
  induction front generalizing offset with
  | nil => exact matched
  | cons c more ih =>
      rw [byteLength, ← Nat.add_assoc]
      exact ih (matched.tail_of_cons (none c List.mem_cons_self))
        fun other member => none other (List.mem_cons_of_mem c member)

end Matched

theorem isParenthesis_of_inWord {c : Char} (inWord : isDelimiter c = false) :
    isParenthesis c = false := by
  rcases isDelimiter_eq_false_iff.mp inWord with ⟨_, notOpening, notClosing⟩
  simp [isParenthesis, notOpening, notClosing]

theorem isParenthesis_of_isWhite {c : Char} (white : isWhite c = true) :
    isParenthesis c = false := by
  rcases isParenthesis_cases c with rfl | rfl | other
  · exact absurd white (by decide)
  · exact absurd white (by decide)
  · exact other

theorem isParenthesis_of_isBlank {c : Char} (blank : isBlank c = true) :
    isParenthesis c = false :=
  isParenthesis_of_isWhite (isWhite_of_isBlank blank)

/-- What was found is how the text of a place begins: some blanks, and behind them nothing, or a
word that goes no further, or a group whose offsets the pairing holds.  What is left is matched
again. -/
def Found.Cuts (pairing : Pairing) (place : Place) : Found → Prop
  | .finished => ∀ c ∈ place.text, isBlank c = true
  | .stray _ => False
  | .word start text after =>
    ∃ gap, (∀ c ∈ gap, isBlank c = true) ∧ place.text = gap ++ (text.toList ++ after.text) ∧
      place.offset + byteLength gap = start ∧ start + byteLength text.toList = after.offset ∧
      IsWord text ∧ (∀ c ∈ after.text.head?, isDelimiter c = true) ∧
      Matched pairing after.offset after.text
  | .group opening closing inside after =>
    ∃ gap, (∀ c ∈ gap, isBlank c = true) ∧
      place.text = gap ++ '(' :: (inside.text ++ ')' :: after.text) ∧
      place.offset + byteLength gap = opening ∧ opening + 1 = inside.offset ∧
      inside.offset + byteLength inside.text = closing ∧ closing + 1 = after.offset ∧
      pairing.closing? opening = some closing ∧ Matched pairing inside.offset inside.text ∧
      Matched pairing after.offset after.text

/-- What was found fits a sequence of tokens: the tokens begin with it, and the places
that are left hold matched texts with the tokens that are left. -/
def Found.Fits (pairing : Pairing) (tokens : List Token) : Found → Prop
  | .finished => tokens = []
  | .stray _ => False
  | .word _ text after =>
    tokens = .word text :: Token.ofText after.text ∧ Matched pairing after.offset after.text
  | .group _ _ inside after =>
    tokens = .opening :: (Token.ofText inside.text ++ .closing :: Token.ofText after.text) ∧
      Matched pairing inside.offset inside.text ∧ Matched pairing after.offset after.text

namespace Place

variable {pairing : Pairing} {offset : Nat} {text : List Char}

/-- Blanks are skipped as far as they go. -/
theorem skipBlanks_split (offset : Nat) (text : List Char) :
    ∃ gap, (∀ c ∈ gap, isBlank c = true) ∧ text = gap ++ (skipBlanks offset text).text ∧
      offset + byteLength gap = (skipBlanks offset text).offset ∧
      ∀ c rest, (skipBlanks offset text).text = c :: rest → isBlank c = false := by
  induction text generalizing offset with
  | nil => exact ⟨[], by simp, rfl, rfl, fun _ _ impossible => by cases impossible⟩
  | cons c rest ih =>
      rw [skipBlanks]
      cases blank : isBlank c with
      | true =>
          rcases ih (offset + c.utf8Size) with ⟨gap, blanks, split, located, notBlank⟩
          refine ⟨c :: gap, List.forall_mem_cons.mpr ⟨blank, blanks⟩, ?_, ?_, notBlank⟩
          · exact congrArg (c :: ·) split
          · rw [byteLength, ← Nat.add_assoc]
            exact located
      | false =>
          refine ⟨[], by simp, rfl, rfl, fun first others same => ?_⟩
          injection same with sameFirst
          rw [← sameFirst]
          exact blank

theorem read_group {inside rest : List Char}
    (paired : pairing.closing? offset = some (offset + 1 + byteLength inside)) :
    read pairing offset ('(' :: (inside ++ ')' :: rest)) =
      .group offset (offset + 1 + byteLength inside) ⟨offset + 1, inside⟩
        ⟨offset + 1 + byteLength inside + 1, rest⟩ := by
  have taken : takeBytes (offset + 1 + byteLength inside - (offset + 1)) (inside ++ ')' :: rest) =
      inside := by
    rw [Nat.add_sub_cancel_left, takeBytes_byteLength_append]
  have dropped : dropBytes (offset + 1 + byteLength inside - offset) (inside ++ ')' :: rest) =
      rest := by
    rw [show offset + 1 + byteLength inside - offset = byteLength inside + 1 by omega,
      dropBytes_byteLength_append, dropBytes, if_neg Nat.one_ne_zero, utf8Size_closing,
      Nat.sub_self, dropBytes_zero]
  rw [read, if_pos rfl, paired]
  simp only [taken, dropped]

/-- A word is read as far as it goes. -/
theorem read_word (pairing : Pairing) (offset : Nat) {c : Char} (rest : List Char)
    (inWord : isDelimiter c = false) :
    ∃ word more, c :: rest = word ++ more ∧ IsWord (String.ofList word) ∧
      (∀ next ∈ more.head?, isDelimiter next = true) ∧
      read pairing offset (c :: rest) =
        .word offset (String.ofList word) ⟨offset + byteLength word, more⟩ := by
  rcases isDelimiter_eq_false_iff.mp inWord with ⟨_, notOpening, notClosing⟩
  refine ⟨c :: rest.takeWhile fun next => !isDelimiter next,
    rest.dropWhile fun next => !isDelimiter next, ?_, ⟨?_, ?_⟩, ?_, ?_⟩
  · rw [List.cons_append, List.takeWhile_append_dropWhile]
  · rw [String.toList_ofList]
    exact List.cons_ne_nil _ _
  · rw [String.toList_ofList]
    refine List.forall_mem_cons.mpr ⟨inWord, fun next member => ?_⟩
    exact (Bool.not_eq_true' _).mp (List.all_eq_true.mp List.all_takeWhile next member)
  · intro next isFirst
    have stops := List.head?_dropWhile_not (fun next => !isDelimiter next) rest
    rw [Option.mem_def.mp isFirst] at stops
    simpa using stops
  · rw [read, if_neg notOpening, if_neg notClosing]

/-- What stands next in a matched text is how that text begins. -/
theorem cuts_next {place : Place} (matched : Matched pairing place.offset place.text) :
    (place.next pairing).Cuts pairing place := by
  rcases place with ⟨offset, text⟩
  rcases skipBlanks_split offset text with ⟨gap, blanks, split, located, notBlank⟩
  rw [next]
  generalize skipBlanks offset text = start at split located notBlank
  rcases start with ⟨place, rest⟩
  simp only at split located notBlank matched ⊢
  subst split located
  have behind := matched.dropFront fun c member => isParenthesis_of_isBlank (blanks c member)
  cases behind with
  | nil =>
      rw [read, Found.Cuts, List.append_nil]
      exact blanks
  | @group _ inside rest paired within tail =>
      rw [read_group paired]
      exact ⟨gap, blanks, rfl, rfl, rfl, rfl, rfl, paired, within, tail⟩
  | @character _ c rest other tail =>
      have inWord : isDelimiter c = false := by
        simp only [isParenthesis, Bool.or_eq_false_iff, beq_eq_false_iff_ne] at other
        exact isDelimiter_eq_false_iff.mpr ⟨notBlank c rest rfl, other⟩
      rcases read_word pairing (offset + byteLength gap) rest inWord with
        ⟨word, more, same, isWord, stops, found⟩
      rw [found, Found.Cuts, String.toList_ofList]
      refine ⟨gap, blanks, congrArg (gap ++ ·) same, rfl, rfl, isWord, stops, ?_⟩
      have whole : Matched pairing (offset + byteLength gap) (word ++ more) :=
        same ▸ .character other tail
      refine whole.dropFront fun next member => isParenthesis_of_inWord (isWord.2 next ?_)
      rw [String.toList_ofList]
      exact member

/-- What stands next in a matched text fits its tokens. -/
theorem fits_next {place : Place} (matched : Matched pairing place.offset place.text) :
    (place.next pairing).Fits pairing (Token.ofText place.text) := by
  have cuts := cuts_next matched
  cases found : place.next pairing with
  | finished =>
      rw [found] at cuts
      rw [Found.Fits, ← List.append_nil place.text, Token.ofText_blanks_append cuts,
        Token.ofText_nil]
  | stray offset =>
      rw [found] at cuts
      exact cuts.elim
  | word start text after =>
      rw [found] at cuts
      rcases cuts with ⟨gap, blanks, split, _, _, isWord, stops, tail⟩
      refine ⟨?_, tail⟩
      rw [split, Token.ofText_blanks_append blanks, Token.ofText_word_append isWord stops]
  | group opening closing inside after =>
      rw [found] at cuts
      rcases cuts with ⟨gap, blanks, split, _, _, _, _, _, within, tail⟩
      refine ⟨?_, within, tail⟩
      rw [split, Token.ofText_blanks_append blanks, Token.ofText_cons_opening,
        Token.ofText_append_delimiter inside.text (by decide), Token.ofText_cons_closing]

/-- The start of a range is known once the query is cut at both ends of the range. -/
theorem ofRange_append (front text behind : List Char) :
    ofRange (front ++ text ++ behind) (byteLength front) (byteLength front + byteLength text) =
      ⟨byteLength front, text⟩ := by
  have dropped := dropBytes_byteLength_append front (text ++ behind) 0
  rw [Nat.add_zero, dropBytes_zero] at dropped
  rw [ofRange, List.append_assoc, dropped, Nat.add_sub_cancel_left, takeBytes_byteLength_append]

end Place

/-! ## The items from a place on -/

namespace Range

variable {pairing : Pairing} {range : Range} {unused : List Nat} {place : Place}

theorem locatedFrom_of_finished (found : place.next pairing = .finished) :
    range.locatedFrom pairing unused place = [] := by
  rw [locatedFrom]
  split <;> simp_all

theorem locatedFrom_of_stray {offset : Nat} (found : place.next pairing = .stray offset) :
    range.locatedFrom pairing unused place =
      [(offset, .error (.unbalancedParenthesis offset))] := by
  rw [locatedFrom]
  split <;> simp_all

theorem locatedFrom_of_word {start : Nat} {text : String} {after : Place}
    (found : place.next pairing = .word start text after) :
    range.locatedFrom pairing unused place =
      (start, .ok (.word text)) :: range.locatedFrom pairing unused after := by
  rw [locatedFrom]
  split <;> simp_all

/-- Behind a group that leads forwards scanning goes on. -/
theorem locatedFrom_of_group {opening closing : Nat} {inside after : Place}
    (found : place.next pairing = .group opening closing inside after)
    (forward : opening ≤ closing) :
    range.locatedFrom pairing unused place =
      (opening, .ok (.group opening closing)) :: range.locatedFrom pairing unused after := by
  rw [locatedFrom]
  split <;> simp_all

end Range

end FilterQuery
