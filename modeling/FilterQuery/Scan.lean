import FilterQuery.Pairing
import FilterQuery.Text.Blank

namespace FilterQuery

open Text

/-!
# Scanning a range of a query

A range of a query is a sequence of words and groups with blanks between them.
Scanning steps over a group whole, by its entry in a `Pairing`, and leaves its
inside to whoever asked.  It therefore never meets the closing parenthesis of a
group that began in the same range, and a closing parenthesis that it does meet
has no opening there.

A place in a range is an offset in the query together with the characters of
the range that follow it.  Every step forwards makes that text shorter.  The
matching of a text only leads forwards, and reading it to a condition needs
nothing else.

The items of a range are listed for any table, also one with pairs that point
backwards.  Scanning then goes on at an earlier place of the query, even before
the range, and ends where the range ends.  It depends on nothing but the place,
so a pair that leads backwards twice leads round a circle.  Such a pair is
followed once, and listing the items is for that reason total.

`words` reads the same text without regard to grouping.  It shares only the
notion of a delimiter with the scanner.
-/

/-- A place in a range: the offset, and what follows it in the range. -/
structure Place where
  offset : Nat
  text : List Char
  deriving DecidableEq, Repr

namespace Place

/-- The start of the range between two offsets of a query. -/
def ofRange (query : List Char) (start stop : Nat) : Place :=
  ⟨start, takeBytes (stop - start) (dropBytes start query)⟩

/-- The first place that is not before a blank. -/
def skipBlanks (offset : Nat) : List Char → Place
  | [] => ⟨offset, []⟩
  | c :: rest => if isBlank c then skipBlanks (offset + c.utf8Size) rest else ⟨offset, c :: rest⟩

end Place

/-- What stands next in a range. -/
inductive Found where
  /-- The range holds only blanks from here on. -/
  | finished
  /-- A parenthesis without partner in the range. -/
  | stray (offset : Nat)
  /-- A word with the offset at which it begins, and the place behind it. -/
  | word (start : Nat) (text : String) (after : Place)
  /-- A group between two parentheses, the place behind the opening one with
  what the group holds, and the place behind the closing one.  The places are
  those of the range only if the closing one is not before the opening one. -/
  | group (opening closing : Nat) (inside after : Place)
  deriving DecidableEq, Repr

namespace Place

/-- What stands at a place that is not before a blank. -/
def read (pairing : Pairing) (offset : Nat) : List Char → Found
  | [] => .finished
  | c :: rest =>
    if c = '(' then
      match pairing.closing? offset with
      | none => .stray offset
      | some closing =>
        .group offset closing
          ⟨offset + 1, takeBytes (closing - (offset + 1)) rest⟩
          ⟨closing + 1, dropBytes (closing - offset) rest⟩
    else if c = ')' then .stray offset
    else
      let word := c :: rest.takeWhile (fun next => !isDelimiter next)
      .word offset (String.ofList word)
        ⟨offset + byteLength word, rest.dropWhile (fun next => !isDelimiter next)⟩

/-- What stands next, past any blanks. -/
def next (pairing : Pairing) (place : Place) : Found :=
  let start := skipBlanks place.offset place.text
  read pairing start.offset start.text

theorem length_skipBlanks_le (offset : Nat) (text : List Char) :
    (skipBlanks offset text).text.length ≤ text.length := by
  induction text generalizing offset with
  | nil => exact Nat.le_refl _
  | cons c rest ih =>
    unfold skipBlanks
    split
    · exact Nat.le_succ_of_le (ih _)
    · exact Nat.le_refl _

theorem length_lt_of_read_word {pairing : Pairing} {offset start : Nat} {text : List Char}
    {word : String} {after : Place} (found : read pairing offset text = .word start word after) :
    after.text.length < text.length := by
  cases text with
  | nil => simp [read] at found
  | cons c rest =>
    simp only [read] at found
    split at found
    · split at found <;> simp at found
    · split at found
      · simp at found
      · injection found with _ _ same
        subst same
        exact Nat.lt_succ_of_le (List.dropWhile_sublist _).length_le

theorem length_lt_of_read_group {pairing : Pairing} {offset : Nat} {text : List Char}
    {opening closing : Nat} {inside after : Place}
    (found : read pairing offset text = .group opening closing inside after) :
    inside.text.length < text.length ∧ after.text.length < text.length := by
  cases text with
  | nil => simp [read] at found
  | cons c rest =>
    simp only [read] at found
    split at found
    · split at found
      · simp at found
      · injection found with _ _ sameInside sameAfter
        subst sameInside
        subst sameAfter
        exact ⟨Nat.lt_succ_of_le (length_takeBytes_le _ _),
          Nat.lt_succ_of_le (length_dropBytes_le _ _)⟩
    · split at found <;> simp at found

/-- A word uses up text of the range. -/
theorem length_lt_of_next_word {pairing : Pairing} {place : Place} {start : Nat}
    {word : String} {after : Place} (found : place.next pairing = .word start word after) :
    after.text.length < place.text.length :=
  Nat.lt_of_lt_of_le (length_lt_of_read_word found) (length_skipBlanks_le _ _)

/-- A group uses up text of the range, and its inside is shorter than the
range. -/
theorem length_lt_of_next_group {pairing : Pairing} {place : Place} {opening closing : Nat}
    {inside after : Place} (found : place.next pairing = .group opening closing inside after) :
    inside.text.length < place.text.length ∧ after.text.length < place.text.length :=
  have shorter := length_lt_of_read_group found
  have skipped := length_skipBlanks_le place.offset place.text
  ⟨Nat.lt_of_lt_of_le shorter.1 skipped, Nat.lt_of_lt_of_le shorter.2 skipped⟩

end Place

/-- One item of a range. -/
inductive Item where
  /-- A field name, operator, combinator or literal. -/
  | word (text : String)
  /-- A parenthesised group, by the offsets of its parentheses. -/
  | group (opening closing : Nat)
  deriving DecidableEq, Repr

/-- A range of a query, between two offsets. -/
structure Range where
  query : List Char
  start : Nat
  stop : Nat
  deriving DecidableEq, Repr

namespace Range

/-- The items from a place on, each with the offset at which it begins.  A stray
parenthesis is the last of them: nothing is scanned behind it.  The openings in
`unused` are those whose pairs have not yet led backwards. -/
def locatedFrom (pairing : Pairing) (range : Range) (unused : List Nat) (place : Place) :
    List (Nat × Except Rejection Item) :=
  match _found : place.next pairing with
  | .finished => []
  | .stray offset => [(offset, .error (.unbalancedParenthesis offset))]
  | .word start text after => (start, .ok (.word text)) :: range.locatedFrom pairing unused after
  | .group opening closing _ after =>
    (opening, .ok (.group opening closing)) ::
      if opening ≤ closing then range.locatedFrom pairing unused after
      else if _isUnused : opening ∈ unused then
        range.locatedFrom pairing (unused.erase opening)
          (Place.ofRange range.query (closing + 1) range.stop)
      else []
termination_by (unused.length, place.text.length)
decreasing_by
  · exact Prod.Lex.right _ (Place.length_lt_of_next_word _found)
  · exact Prod.Lex.right _ (Place.length_lt_of_next_group _found).2
  · apply Prod.Lex.left
    rw [List.length_erase_of_mem _isUnused]
    exact Nat.sub_lt (List.length_pos_of_mem _isUnused) Nat.zero_lt_one

/-- The items of a range in order, each with the offset at which it begins. -/
def located (pairing : Pairing) (range : Range) : List (Nat × Except Rejection Item) :=
  range.locatedFrom pairing pairing.openings
    (Place.ofRange range.query range.start range.stop)

/-- The items of a range in order. -/
def items (pairing : Pairing) (range : Range) : List (Except Rejection Item) :=
  (range.located pairing).map Prod.snd

end Range

/-- What is known of a text when it is read from its end: the word that is open
at its start, which may be empty, and the words behind that one. -/
structure OpenWord where
  current : List Char
  later : List String
  deriving DecidableEq, Repr

namespace OpenWord

/-- The words, once nothing precedes the open one. -/
def close (state : OpenWord) : List String :=
  if state.current = [] then state.later else String.ofList state.current :: state.later

/-- Put a character before the text. -/
def prepend (c : Char) (state : OpenWord) : OpenWord :=
  if isDelimiter c then ⟨[], state.close⟩ else ⟨c :: state.current, state.later⟩

end OpenWord

/-- Every word of a text in order, whatever the grouping. -/
def words (text : List Char) : List String :=
  (text.foldr OpenWord.prepend ⟨[], []⟩).close

end FilterQuery
