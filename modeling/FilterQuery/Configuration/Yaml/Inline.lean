import FilterQuery.Configuration.Yaml.Cursor
import FilterQuery.Text.Numeral

namespace FilterQuery

open Text

/-!
# Scalars along lines

Plain scalars and scalars in quotes stand on a line and may go on over further
lines, which have to be indented far enough.  Line breaks in them are folded, as
`Gap.joint` says.

A plain scalar ends where something else begins: a comment, a colon that makes a
key, a character of the flow style inside it, a marker between documents, or a
line that is not indented.  A scalar in quotes ends only with its closing quote,
and a marker or a line that is not indented is a fault in it.
-/

namespace Configuration

namespace Yaml

/-- A scalar with the place behind it.  `broken` tells whether that place is on a
line behind the one on which the scalar ends. -/
structure Reached where
  content : List Char
  cursor : Cursor
  broken : Bool
  deriving DecidableEq, Repr

/-! ## Plain scalars -/

/-- Whether a plain scalar has to end before a character. -/
def endsPlain (inFlow : Bool) (c : Char) (rest : List Char) : Bool :=
  (c == ':' && (endsWord rest || (inFlow && (rest.head?.any isFlow)))) || (inFlow && isFlow c)

/-- Whether a plain scalar cannot begin or go on with a word that begins so. -/
def refusesWord (inFlow : Bool) (c : Char) (rest : List Char) : Bool :=
  inFlow && c == '-' && rest.head?.any isFlow

/-- A plain scalar that ends before a gap.  It cannot be empty. -/
def plainBefore? (content : List Char) (gap : Gap) (cursor : Cursor) : Option Reached :=
  if content = [] then none else some ⟨content.reverse, cursor, gap.isBroken⟩

/-- Read a plain scalar behind the content and the gap that are already read.
The content is kept last character first.  A tab may stand before the column to
which lines are indented only on a line without content.  Such a line counts as a
line break if it is empty, and not at all if it holds a comment. -/
def plainFrom? (indent : Int) (inFlow : Bool) (content : List Char) (gap : Gap)
    (cursor : Cursor) : Option Reached :=
  match _here : cursor.text with
  | [] => plainBefore? content gap cursor
  | c :: rest =>
    if _atBreak : c = '\n' then plainFrom? indent inFlow content gap.addBreak cursor.nextLine
    else if isSpace c then
      match gap with
      | .blanks held => plainFrom? indent inFlow content (.blanks (held ++ [c])) (cursor.pastBlanks 1)
      | .breaks _ _ =>
        if c = '\t' ∧ (cursor.column : Int) < indent then
          let behind := rest.dropWhile isSpace
          if endsLine behind then plainFrom? indent inFlow content gap cursor.pastLine
          else if behind.head? == some '#' then
            plainFrom? indent inFlow content gap cursor.pastWholeLine
          else none
        else plainFrom? indent inFlow content gap (cursor.pastBlanks 1)
    else
      let resumes := content = [] || gap ≠ .empty
      if resumes && (content ≠ [] && !inFlow && (cursor.column : Int) < indent) then
        plainBefore? content gap cursor
      else if resumes && (cursor.atMarker || c == '#') then plainBefore? content gap cursor
      else if resumes && refusesWord inFlow c rest then none
      else if endsPlain inFlow c rest then plainBefore? content gap cursor
      else plainFrom? indent inFlow (c :: (gap.joint.reverse ++ content)) .empty (cursor.past 1)
termination_by cursor.text.length
decreasing_by
  · simp [Cursor.nextLine, _here]
  · simp [Cursor.pastBlanks, _here]
  · simpa only [_here] using Cursor.length_pastLine_lt _here _atBreak
  · simpa only [_here] using Cursor.length_pastWholeLine_lt _here _atBreak
  · simp [Cursor.pastBlanks, _here]
  · simp [Cursor.past, _here]

/-- Read a plain scalar that has to be indented.  In flow style its first line has
to be indented too. -/
def plain? (indent : Int) (inFlow : Bool) (cursor : Cursor) : Option Reached :=
  if inFlow && (cursor.column : Int) < indent then none
  else plainFrom? indent inFlow [] .empty cursor

/-! ## Scalars in quotes -/

/-- The character of an escape that is one letter. -/
def letterEscape? : Char → Option Char
  | '0' => some '\x00'
  | 'a' => some '\x07'
  | 'b' => some '\x08'
  | 't' => some '\t'
  | '\t' => some '\t'
  | 'n' => some '\n'
  | 'v' => some '\x0b'
  | 'f' => some '\x0c'
  | 'r' => some '\r'
  | 'e' => some '\x1b'
  | ' ' => some ' '
  | '"' => some '"'
  | '/' => some '/'
  | '\\' => some '\\'
  | 'N' => some '\u0085'
  | '_' => some '\u00a0'
  | 'L' => some '\u2028'
  | 'P' => some '\u2029'
  | _ => none

/-- The number of hexadecimal digits behind a letter that announces a code. -/
def codeWidth? : Char → Option Nat
  | 'x' => some 2
  | 'u' => some 4
  | 'U' => some 8
  | _ => none

/-- The character of an escape, given by what follows the backslash, and how many
characters the escape takes there. -/
def escape? : List Char → Option (Char × Nat)
  | [] => none
  | letter :: rest =>
    match codeWidth? letter with
    | none => (letterEscape? letter).map fun character => (character, 1)
    | some width =>
      let digits := rest.take width
      if digits.length = width then
        (naturalIn? 16 digits).bind fun code =>
          if code.isValidChar then some (Char.ofNat code, width + 1) else none
      else none

/-- Read a scalar in quotes behind the content and the gap that are already read.
The content is kept last character first.  An escaped line break leaves nothing,
and a closing quote right behind it need not be indented. -/
def quotedFrom? (quote : Char) (indent : Int) (content : List Char) (gap : Gap)
    (cursor : Cursor) : Option Reached :=
  match _here : cursor.text with
  | [] => none
  | c :: rest =>
    let flushed := gap.joint.reverse ++ content
    if c = '\n' then quotedFrom? quote indent content gap.addBreak cursor.nextLine
    else if isSpace c then
      match gap with
      | .blanks held => quotedFrom? quote indent content (.blanks (held ++ [c])) (cursor.pastBlanks 1)
      | .breaks _ _ =>
        if c = '\t' ∧ (cursor.column : Int) < indent then none
        else quotedFrom? quote indent content gap (cursor.pastBlanks 1)
    else if (content = [] || gap ≠ .empty) &&
        (cursor.atMarker || (cursor.column : Int) < indent) then none
    else if c = quote then
      if quote = '\'' ∧ rest.head? = some '\'' then
        quotedFrom? quote indent ('\'' :: flushed) .empty (cursor.past 2)
      else some ⟨flushed.reverse, cursor.past 1, false⟩
    else if quote = '"' ∧ c = '\\' then
      if rest.head? = some '\n' then
        if rest.tail.head? = some '"' then
          some ⟨flushed.reverse, (cursor.past 1).nextLine.past 1, false⟩
        else quotedFrom? quote indent flushed (.breaks true 0) (cursor.past 1).nextLine
      else
        match escape? rest with
        | some (character, used) =>
          quotedFrom? quote indent (character :: flushed) .empty (cursor.past (used + 1))
        | none => none
    else quotedFrom? quote indent (c :: flushed) .empty (cursor.past 1)
termination_by cursor.text.length
decreasing_by
  all_goals
    simp only [Cursor.nextLine, Cursor.pastBlanks, Cursor.past, List.length_drop, _here,
      List.length_cons]
    omega

/-- Read a scalar in quotes of either sort.  Only a comment, or in flow style a
separator, may follow it, or a colon that makes it a key; outside flow style a key
is on one line. -/
def quoted? (indent : Int) (inFlow : Bool) (cursor : Cursor) : Option Reached := do
  let quote ← cursor.text.head?
  let found ← quotedFrom? quote indent [] .empty (cursor.past 1)
  let (_, after) ← found.cursor.skipComment? isSpace
  let allowed :=
    match after.text with
    | [] => true
    | '\n' :: _ => true
    | ':' :: _ => inFlow || cursor.line = after.line
    | c :: _ => inFlow && ",]\x7d".toList.contains c
  if allowed then some ⟨found.content, after, false⟩ else none

end Yaml

end Configuration

end FilterQuery
