import FilterQuery.Configuration.Yaml.Cursor

namespace FilterQuery

/-!
# Scalars as blocks

A scalar may stand below its indicator as a block of lines.  The block is indented
by as much as its first line with content, or by as much as the indicator says,
and lasts as long as its lines are indented so.  A literal block keeps its line
breaks.  A folded block joins its lines with spaces, except around lines that
begin with a blank.

What becomes of the line breaks at the end is said behind the indicator: all are
lost, all are kept, or one is kept.
-/

namespace Configuration

namespace Yaml

/-- What becomes of the line breaks at the end of a block. -/
inductive Chomping where
  | strip
  | clip
  | keep
  deriving DecidableEq, Repr

/-- What stands behind the indicator of a block: its chomping, and its indentation
relative to what encloses it, or zero if that is left open. -/
structure BlockHeader where
  chomping : Chomping
  indentation : Nat
  deriving DecidableEq, Repr

namespace BlockHeader

/-- The chomping of a sign. -/
def chomping? : List Char → Option (Chomping × List Char)
  | '+' :: rest => some (.keep, rest)
  | '-' :: rest => some (.strip, rest)
  | _ => none

/-- The indentation of a digit, which cannot be zero. -/
def indentation? : List Char → Option (Nat × List Char)
  | c :: rest =>
    if c = '0' then none
    else if c.isDigit then some (c.toNat - '0'.toNat, rest)
    else some (0, c :: rest)
  | [] => some (0, [])

/-- Read a header: a sign and a digit in either order, or one or none of them. -/
def read? (text : List Char) : Option (BlockHeader × List Char) :=
  match chomping? text with
  | some (chomping, rest) =>
    (indentation? rest).map fun (indentation, after) => (⟨chomping, indentation⟩, after)
  | none =>
    (indentation? text).map fun (indentation, rest) =>
      match chomping? rest with
      | some (chomping, after) => (⟨chomping, indentation⟩, after)
      | none => (⟨.clip, indentation⟩, rest)

end BlockHeader

/-- A place at the start of a line with content, or at the end of the text: the
spaces before each of the empty lines that were passed, the column, and what
follows. -/
structure Margin where
  passed : List Nat
  column : Nat
  text : List Char
  deriving DecidableEq, Repr

/-- Pass empty lines and the spaces before the next line, of which no more are
passed than a width. -/
def Margin.pass (width : Nat) (text : List Char) : Margin :=
  let spaces := min width (text.takeWhile (· == ' ')).length
  match _behind : text.drop spaces with
  | '\n' :: rest =>
    let later := pass width rest
    ⟨spaces :: later.passed, later.column, later.text⟩
  | other => ⟨[], spaces, other⟩
termination_by text.length
decreasing_by
  have shorter := congrArg List.length _behind
  simp only [List.length_drop, List.length_cons] at shorter
  omega

/-- A block as far as it is read.  `broken` tells whether a line break follows the
content, and `blank` whether the last line begins with a blank. -/
structure BlockSoFar where
  content : List Char
  broken : Bool
  blank : Bool
  margin : Margin
  deriving DecidableEq, Repr

namespace BlockSoFar

/-- The line breaks as which empty lines count. -/
def emptyLines (margin : Margin) : List Char :=
  List.replicate margin.passed.length '\n'

/-- What stands between the content and the next line. -/
def joint (literal : Bool) (block : BlockSoFar) (nextBlank : Bool) : List Char :=
  if !literal && block.broken && !block.blank && !nextBlank then
    if block.margin.passed = [] then [' '] else emptyLines block.margin
  else (if block.broken then ['\n'] else []) ++ emptyLines block.margin

/-- Read lines as long as they are indented by a width.  A marker behind a
document ends a block that is not indented. -/
def readLines (literal : Bool) (width : Nat) (block : BlockSoFar) : BlockSoFar :=
  match _here : block.margin.text with
  | [] => block
  | c :: _ =>
    if block.margin.column ≠ width ∨ (width = 0 ∧ (Cursor.start block.margin.text).isMarker "...")
    then block
    else
      let line := block.margin.text.takeWhile (· ≠ '\n')
      let content := block.content ++ block.joint literal (isSpace c) ++ line
      match _behind : block.margin.text.drop line.length with
      | [] => ⟨content, false, isSpace c, ⟨[], width + line.length, []⟩⟩
      | _ :: rest =>
        let margin := Margin.pass width rest
        if _shorter : margin.text.length < block.margin.text.length then
          readLines literal width ⟨content, true, isSpace c, margin⟩
        else block
termination_by block.margin.text.length
decreasing_by simpa only [_here] using _shorter

/-- The text of a block with its end. -/
def finish (chomping : Chomping) (width : Nat) (block : BlockSoFar) : List Char :=
  let ending :=
    (if block.broken then ['\n'] else []) ++
      (if block.margin.text = [] ∧ max width 1 ≤ block.margin.column then ['\n'] else [])
  match chomping with
  | .strip => block.content
  | .clip => block.content ++ ending
  | .keep => block.content ++ ending ++ emptyLines block.margin

end BlockSoFar

/-- The text of a block below its indicator that has no line with content before
the text ends. -/
def emptyBlock (chomping : Chomping) (margin : Margin) : List Char :=
  match chomping with
  | .strip => []
  | .clip => ['\n']
  | .keep => if margin.passed = [] then ['\n'] else BlockSoFar.emptyLines margin

/-- Read a block that is enclosed at an indentation, behind its indicator. -/
def block? (literal : Bool) (indent : Int) (cursor : Cursor) : Option (List Char × Cursor) := do
  let (header, rest) ← BlockHeader.read? cursor.text
  let (_, lineEnd) ← (cursor.past (cursor.text.length - rest.length)).skipComment? isSpace
  if !endsLine lineEnd.text then none
  else if lineEnd.text = [] then some ([], lineEnd)
  else
    let below := lineEnd.nextLine
    if below.text.head? = some '\t' then none
    else
      let opened := Margin.pass below.text.length below.text
      let width :=
        if header.indentation = 0 then
          (opened.column :: opened.passed).foldl max (indent + 1).toNat
        else (max indent 0).toNat + header.indentation
      let margin := if header.indentation = 0 then opened else Margin.pass width below.text
      let after (left : Margin) : Cursor := below.advance (below.text.length - left.text.length)
      if margin.text = [] then some (emptyBlock header.chomping margin, after margin)
      else if margin.column < width ∧ indent < margin.column then none
      else
        let block := BlockSoFar.readLines literal width ⟨[], false, false, margin⟩
        some (block.finish header.chomping width, after block.margin)

end Yaml

end Configuration

end FilterQuery
