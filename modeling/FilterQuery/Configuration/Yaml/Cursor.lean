namespace FilterQuery

namespace Configuration

namespace Yaml

/-!
# Places in a YAML text

The structure of a YAML text depends on columns, and whether a colon makes a key
depends on lines.  A cursor therefore keeps the line and the column beside the
text that follows.  It also knows whether only blanks precede it on its line,
since a blank there is indentation and may not be a tab everywhere.

A text is brought into one form before a cursor walks along it: every line ends
in a line feed, and the text ends before the first null character.
-/

/-- Make every line end in a line feed.  A carriage return before a line feed
belongs to the same end. -/
def unifyBreaks : List Char → List Char
  | [] => []
  | '\r' :: '\n' :: rest => '\n' :: unifyBreaks rest
  | '\r' :: rest => '\n' :: unifyBreaks rest
  | c :: rest => c :: unifyBreaks rest

/-- The text that is read. -/
def effectiveText (text : List Char) : List Char :=
  unifyBreaks (text.takeWhile (· ≠ '\x00'))

/-- A character that separates words on a line. -/
def isSpace (c : Char) : Bool :=
  c == ' ' || c == '\t'

/-- A character that has a meaning of its own in flow style. -/
def isFlow (c : Char) : Bool :=
  ",[]\x7b\x7d".toList.contains c

/-- Whether a word ends before a text. -/
def endsWord : List Char → Bool
  | [] => true
  | c :: _ => isSpace c || c == '\n'

/-- Whether a line ends before a text. -/
def endsLine : List Char → Bool
  | [] => true
  | c :: _ => c == '\n'

/-- A place in a text.  `offset` counts characters, and `fresh` tells whether only
blanks precede the place on its line. -/
structure Cursor where
  text : List Char
  line : Nat
  column : Nat
  offset : Nat
  fresh : Bool
  deriving DecidableEq, Repr

namespace Cursor

/-- The start of a text. -/
def start (text : List Char) : Cursor := ⟨text, 0, 0, 0, true⟩

/-- Past blanks. -/
def pastBlanks (cursor : Cursor) (count : Nat) : Cursor :=
  ⟨cursor.text.drop count, cursor.line, cursor.column + count, cursor.offset + count, cursor.fresh⟩

/-- Past characters of a line that are no blanks. -/
def past (cursor : Cursor) (count : Nat) : Cursor :=
  ⟨cursor.text.drop count, cursor.line, cursor.column + count, cursor.offset + count, false⟩

/-- Past a line feed. -/
def nextLine (cursor : Cursor) : Cursor :=
  ⟨cursor.text.drop 1, cursor.line + 1, 0, cursor.offset + 1, true⟩

/-- At the end of the line. -/
def pastLine (cursor : Cursor) : Cursor :=
  cursor.past (cursor.text.takeWhile (· ≠ '\n')).length

/-- Past blanks and a comment to what stands next on the line, with the blanks.
A comment has to be separated from what precedes it. -/
def skipComment? (blank : Char → Bool) (cursor : Cursor) : Option (List Char × Cursor) :=
  let blanks := cursor.text.takeWhile blank
  let after := cursor.pastBlanks blanks.length
  match after.text with
  | '#' :: _ => if blanks = [] then none else some (blanks, after.pastLine)
  | _ => some (blanks, after)

/-- Past one character of any sort. -/
def pastOne (cursor : Cursor) : Cursor :=
  match cursor.text with
  | [] => cursor
  | c :: _ =>
    if c = '\n' then cursor.nextLine else if isSpace c then cursor.pastBlanks 1 else cursor.past 1

/-- Past characters of any sort. -/
def advance (cursor : Cursor) (count : Nat) : Cursor :=
  count.repeat pastOne cursor

/-- Whether one of the markers between documents stands here. -/
def isMarker (marker : String) (cursor : Cursor) : Bool :=
  cursor.column == 0 && marker.toList.isPrefixOf cursor.text &&
    endsWord (cursor.text.drop marker.length)

/-- Whether a document starts or ends here. -/
def atMarker (cursor : Cursor) : Bool :=
  cursor.isMarker "---" || cursor.isMarker "..."

/-- Behind a line with its line feed. -/
def pastWholeLine (cursor : Cursor) : Cursor := cursor.pastLine.pastOne

theorem length_pastLine_lt {cursor : Cursor} {c : Char} {rest : List Char}
    (here : cursor.text = c :: rest) (inLine : c ≠ '\n') :
    cursor.pastLine.text.length < cursor.text.length := by
  simp only [pastLine, past, here, List.length_drop, List.takeWhile_cons, ne_eq, inLine,
    not_false_eq_true, decide_true, if_true, List.length_cons]
  omega

theorem length_pastOne_le (cursor : Cursor) : cursor.pastOne.text.length ≤ cursor.text.length := by
  unfold pastOne
  split
  · exact Nat.le_refl _
  · split
    · exact (List.drop_sublist _ _).length_le
    · split <;> exact (List.drop_sublist _ _).length_le

theorem length_pastWholeLine_lt {cursor : Cursor} {c : Char} {rest : List Char}
    (here : cursor.text = c :: rest) (inLine : c ≠ '\n') :
    cursor.pastWholeLine.text.length < cursor.text.length :=
  Nat.lt_of_le_of_lt (length_pastOne_le _) (length_pastLine_lt here inLine)

end Cursor

/-- What has been passed since the last character of a scalar: blanks on its
line, or line breaks.  The first of these may be escaped, and counts only if it is
not. -/
inductive Gap where
  | blanks (text : List Char)
  | breaks (escaped : Bool) (further : Nat)
  deriving DecidableEq, Repr

namespace Gap

/-- Nothing has been passed. -/
def empty : Gap := blanks []

/-- Another line break is passed.  Blanks before a line break are lost. -/
def addBreak : Gap → Gap
  | blanks _ => breaks false 0
  | breaks escaped further => breaks escaped (further + 1)

/-- What stands for a gap in a scalar that goes on behind it: a single line break
becomes a space, and of several all but the first are kept. -/
def joint : Gap → List Char
  | blanks text => text
  | breaks false 0 => [' ']
  | breaks _ further => List.replicate further '\n'

/-- Whether the gap leads to another line. -/
def isBroken : Gap → Bool
  | blanks _ => false
  | breaks _ _ => true

end Gap

end Yaml

end Configuration

end FilterQuery
