import FilterQuery.Configuration.Yaml.Block
import FilterQuery.Configuration.Yaml.Inline

namespace FilterQuery

/-!
# YAML tokens

Columns become tokens here: where a collection is indented further than what
encloses it, it opens, and where a line is indented less, it is closed.  A colon
makes a key of what precedes it, which is known only when the colon is met.  Each
token is therefore kept with the tokens that are put before it later.

What may become a key is a candidate for as long as it can be one: outside flow
style it is on one line with its colon and not too far before it.  A candidate at
the column of an open mapping has to become a key, since nothing else can stand
there.

Inside flow style columns do not open or close anything.  There is one candidate
for every flow collection that is open, and one outside all of them.
-/

namespace Configuration

namespace Yaml

/-- A piece of a YAML text with a part in its structure. -/
inductive Token where
  | directive (version : Bool)
  | documentStart
  | documentEnd
  | blockSequence
  | blockMapping
  | blockEnd
  | flowSequence
  | flowSequenceEnd
  | flowMapping
  | flowMappingEnd
  | item
  | separator
  | key
  | value
  | anchor (name : String)
  | alias (name : String)
  | tag (core : Option String)
  | plain (content : List Char)
  | text (content : List Char)
  deriving DecidableEq, Repr

/-- What may become a key: where it begins, its number among the tokens, and
whether it has to become one. -/
structure Candidate where
  line : Nat
  column : Nat
  offset : Nat
  position : Nat
  required : Bool
  deriving DecidableEq, Repr

/-- A column that encloses what is indented further.  A value is enclosed by one
column more than its mapping, and that column opens nothing. -/
structure Level where
  column : Nat
  isBlock : Bool
  deriving DecidableEq, Repr

/-- A text that is partly cut into tokens.  The tokens are kept last first, each
behind those that precede it.  `flows` tells of every open flow collection whether
it is a sequence, and `candidates` has one element more. -/
structure Scan where
  cursor : Cursor
  tokens : List (List Token)
  candidates : List (Option Candidate)
  keyAllowed : Bool
  levels : List Level
  flows : List Bool
  adjacentValue : Nat
  deriving DecidableEq, Repr

namespace Scan

/-- Nothing is cut off a text. -/
def start (text : List Char) : Scan := ⟨Cursor.start text, [], [none], true, [], [], 0⟩

/-- The innermost column that encloses what comes. -/
def indent (scan : Scan) : Int :=
  match scan.levels with
  | [] => -1
  | level :: _ => level.column

/-- Inside flow style. -/
def inFlow (scan : Scan) : Bool := scan.flows ≠ []

/-- Append a token. -/
def emit (token : Token) (scan : Scan) : Scan :=
  { scan with tokens := [token] :: scan.tokens }

/-- Put tokens before one that is already there, given by its number. -/
def insert (position : Nat) (tokens : List Token) (scan : Scan) : Scan :=
  { scan with tokens := scan.tokens.modify (scan.tokens.length - 1 - position) (tokens ++ ·) }

/-! ## Candidates -/

/-- What comes may become a key if keys are allowed here. -/
def noteCandidate (scan : Scan) : Scan :=
  if scan.keyAllowed then
    let required :=
      !scan.inFlow && scan.indent == scan.cursor.column && scan.levels.head?.any Level.isBlock
    let candidate : Candidate :=
      ⟨scan.cursor.line, scan.cursor.column, scan.cursor.offset, scan.tokens.length, required⟩
    { scan with candidates := some candidate :: scan.candidates.drop 1 }
  else scan

/-- The candidate of the innermost collection. -/
def candidate? (scan : Scan) : Option Candidate :=
  scan.candidates.head?.join

/-- There is no candidate any more. -/
def withoutCandidate (scan : Scan) : Scan :=
  { scan with candidates := none :: scan.candidates.drop 1 }

/-- Give the candidate up, unless it has to become a key. -/
def dropCandidate? (scan : Scan) : Option Scan :=
  if scan.candidate?.any Candidate.required then none else some scan.withoutCandidate

/-- The most characters from the start of a key to its colon. -/
def longestKey : Nat := 1024

/-- Give the candidate up if its line or its length rules it out. -/
def expireCandidate? (scan : Scan) : Option Scan :=
  let expired := scan.candidate?.any fun candidate =>
    candidate.line < scan.cursor.line || candidate.offset + longestKey < scan.cursor.offset
  if !scan.inFlow && expired then scan.dropCandidate? else some scan

/-- Keys are allowed in what comes, or not. -/
def allowKeys (allowed : Bool) (scan : Scan) : Scan :=
  { scan with keyAllowed := allowed }

/-! ## Columns -/

/-- Close the blocks that are indented further than a column. -/
def closeBeyond (column : Int) (scan : Scan) : Scan :=
  if scan.inFlow then scan
  else
    let isBeyond (level : Level) : Bool := column < level.column
    let closed := (scan.levels.takeWhile isBeyond).countP Level.isBlock
    { scan with
      levels := scan.levels.dropWhile isBeyond
      tokens := List.replicate closed [Token.blockEnd] ++ scan.tokens }

/-- Leave the columns that open nothing. -/
def onBlock (scan : Scan) : Scan :=
  { scan with levels := scan.levels.dropWhile fun level => !level.isBlock }

/-- Enclose what comes by one column more. -/
def indentValue (scan : Scan) : Scan :=
  match scan.levels with
  | level :: _ =>
    if level.isBlock && !scan.inFlow then
      { scan with levels := ⟨level.column + 1, false⟩ :: scan.levels }
    else scan
  | [] => scan

/-- Enclose what comes by the column of a block.  The second part tells whether
the block opens there. -/
def indentBlock (column : Nat) (scan : Scan) : Scan × Bool :=
  if scan.inFlow then (scan, false)
  else
    let outer :=
      match scan.levels with
      | level :: rest => if !level.isBlock && level.column ≤ column then rest else level :: rest
      | [] => []
    let settled := { scan with levels := outer }
    if settled.indent < (column : Int) then ({ settled with levels := ⟨column, true⟩ :: outer }, true)
    else (settled, false)

/-- Open a block at a column if it is not open there. -/
def openBlock (opening : Token) (column : Nat) (scan : Scan) : Scan :=
  let (within, opens) := scan.indentBlock column
  if opens then within.emit opening else within

/-! ## Between tokens -/

/-- Skip blanks, comments and line breaks.  The second part tells whether there was
a line break.  A tab may not indent a line that has content. -/
def skipGap? (indent : Int) (inBlock : Bool) (broken : Bool) (cursor : Cursor) :
    Option (Cursor × Bool) :=
  match _here : cursor.text with
  | [] => some (cursor, broken)
  | c :: rest =>
    if _atBreak : c = '\n' then skipGap? indent inBlock true cursor.nextLine
    else if c = '#' then skipGap? indent inBlock broken cursor.pastLine
    else if isSpace c then
      let behind := rest.dropWhile isSpace
      if c = '\t' && inBlock && cursor.fresh && (cursor.column : Int) < indent &&
          !(endsLine behind || behind.head? == some '#') then none
      else skipGap? indent inBlock broken (cursor.pastBlanks 1)
    else some (cursor, broken)
termination_by cursor.text.length
decreasing_by
  · simp [Cursor.nextLine, _here]
  · simpa only [_here] using Cursor.length_pastLine_lt _here _atBreak
  · simp [Cursor.pastBlanks, _here]

/-- Go on to the next token. -/
def toToken? (scan : Scan) : Option Scan := do
  let (cursor, broken) ← skipGap? scan.indent (scan.levels ≠ []) false scan.cursor
  some { scan with cursor, keyAllowed := scan.keyAllowed || (broken && !scan.inFlow) }

/-- Go on past a character, the blanks behind it and a comment. -/
def pastIndicator? (scan : Scan) : Option (List Char × Scan) := do
  let (blanks, cursor) ← (scan.cursor.past 1).skipComment? isSpace
  some (blanks, { scan with cursor })

/-! ## Documents -/

/-- Close everything, for a line that stands between documents. -/
def betweenDocuments? (scan : Scan) : Option Scan :=
  ((scan.closeBeyond (-1)).dropCandidate?).map (allowKeys false)

/-- Read a marker between documents.  Behind the end of a document there may only
be a comment. -/
def marker? (token : Token) (scan : Scan) : Option Scan := do
  let outside ← scan.betweenDocuments?
  let after := (({ outside with cursor := outside.cursor.past 3 } : Scan)).emit token
  if token = .documentEnd then
    let (_, cursor) ← after.cursor.skipComment? isSpace
    if endsLine cursor.text then some { after with cursor } else none
  else some after

/-- A character that can be part of the name of a directive or of a tag. -/
def isNameChar (c : Char) : Bool :=
  c.isAlphanum || c == '_' || c == '-'

/-- Whether a text is the number of a version. -/
def isVersion (text : List Char) : Bool :=
  let (major, rest) := (text.takeWhile Char.isDigit, text.dropWhile Char.isDigit)
  match rest with
  | '.' :: minor =>
    major ≠ [] && major.length < 10 && minor ≠ [] && minor.length < 10 && minor.all Char.isDigit
  | _ => false

/-- Read a directive.  The version is checked for its form only.  Directives about
tags are refused, and others are passed over. -/
def directive? (scan : Scan) : Option Scan := do
  let outside ← scan.betweenDocuments?
  let line := (outside.cursor.text.drop 1).takeWhile (· ≠ '\n')
  let name := line.takeWhile isNameChar
  let behind := line.dropWhile isNameChar
  let after := { outside with cursor := outside.cursor.pastLine }
  if name = [] || !endsWord behind then none
  else
    match String.ofList name with
    | "YAML" =>
      let number := (behind.dropWhile isSpace).takeWhile fun c => !isSpace c
      let comment := ((behind.dropWhile isSpace).drop number.length).dropWhile isSpace
      if isVersion number && (comment = [] || comment.head? == some '#') then
        some (after.emit (.directive true))
      else none
    | "TAG" => none
    | _ => some (after.emit (.directive false))

/-! ## Flow style -/

/-- The most flow collections inside each other. -/
def flowLimit : Nat := 255

/-- Open a flow collection. -/
def openFlow? (isSequence : Bool) (scan : Scan) : Option Scan := do
  if flowLimit ≤ scan.flows.length then none
  else
    let noted := scan.noteCandidate.indentValue
    let (_, within) ← ({ noted with
      candidates := none :: noted.candidates
      flows := isSequence :: noted.flows
      keyAllowed := true } : Scan).pastIndicator?
    some (within.emit (if isSequence then .flowSequence else .flowMapping))

/-- Close a flow collection. -/
def closeFlow? (token : Token) (scan : Scan) : Option Scan := do
  if scan.inFlow then
    let dropped ← scan.dropCandidate?
    let (_, after) ← ({ dropped with
      candidates := dropped.candidates.drop 1
      flows := dropped.flows.drop 1
      keyAllowed := false } : Scan).pastIndicator?
    some ({ after with adjacentValue := after.cursor.offset }.emit token)
  else none

/-- Separate two parts of a flow collection. -/
def separate? (scan : Scan) : Option Scan := do
  if scan.inFlow then
    let (_, after) ← (← scan.dropCandidate?).pastIndicator?
    some ((after.allowKeys true).emit .separator)
  else none

/-! ## Items, keys and values -/

/-- Begin an item of a block sequence. -/
def item? (scan : Scan) : Option Scan := do
  if scan.inFlow || !scan.keyAllowed then none
  else
    let opened := scan.openBlock .blockSequence scan.cursor.column
    let (blanks, after) ← opened.pastIndicator?
    let next := after.cursor.text
    if blanks.contains '\t' && next.head? == some '-' && endsWord (next.drop 1) then none
    else
      let enclosed :=
        if next.head?.any fun c => c == '\n' || isFlow c then after.indentValue else after
      let dropped ← enclosed.dropCandidate?
      some ((dropped.allowKeys true).emit .item)

/-- Begin a key that is marked as one. -/
def markedKey? (scan : Scan) : Option Scan := do
  if !scan.inFlow && !scan.keyAllowed then none
  else
    let opened := scan.openBlock .blockMapping scan.cursor.column
    let dropped ← opened.dropCandidate?
    let after := { dropped with cursor := dropped.cursor.past 1 }
    let next := after.cursor.text.dropWhile (· == ' ')
    if endsWord after.cursor.text && after.cursor.text ≠ [] && next.head? != some '\t' then
      some ((after.allowKeys (!scan.inFlow)).emit .key)
    else none

/-- Go on past a colon.  A tab behind it may not separate a word from it. -/
def pastColon? (cursor : Cursor) : Option Cursor := do
  let after := cursor.past 1
  if after.text.head? == some '\t' then
    let (blanks, next) ← after.skipComment? isSpace
    if !blanks.contains ' ' && next.text.head?.any isNameChar then none else some next
  else some after

/-- Begin a value.  The candidate becomes its key; without a candidate the key is
marked as one or left out.  A key in a flow sequence is on one line with its
colon. -/
def value? (scan : Scan) : Option Scan := do
  let after := { scan with cursor := ← pastColon? scan.cursor }
  match scan.candidate? with
  | some candidate =>
    if scan.flows.head? == some true && candidate.line < scan.cursor.line then none
    else
      let (within, opens) := after.indentBlock candidate.column
      let keyed := within.insert candidate.position (if opens then [.blockMapping, .key] else [.key])
      some ((keyed.indentValue.withoutCandidate.allowKeys false).emit .value)
  | none =>
    if !scan.inFlow && !scan.keyAllowed then none
    else
      let opened := after.openBlock .blockMapping scan.cursor.column
      some ((opened.indentValue.allowKeys (!scan.inFlow)).emit .value)

/-! ## Contents -/

/-- Read what begins here as something that may become a key. -/
def content (keysBehind : Bool) (scan : Scan) : Scan :=
  scan.noteCandidate.allowKeys keysBehind

/-- Read a plain scalar. -/
def plain? (scan : Scan) : Option Scan := do
  let noted := (scan.content false).onBlock
  let found ← Yaml.plain? (noted.indent + 1) noted.inFlow noted.cursor
  some ({ noted with cursor := found.cursor, keyAllowed := found.broken }.emit
    (.plain found.content))

/-- Read a scalar in quotes.  In flow style a value may follow it without a
blank. -/
def quoted? (scan : Scan) : Option Scan := do
  let noted := scan.content false
  let found ← Yaml.quoted? noted.indent noted.inFlow noted.cursor
  let next ← { noted with cursor := found.cursor }.toToken?
  some ({ next with adjacentValue := next.cursor.offset }.emit (.text found.content))

/-- Read a scalar that stands as a block. -/
def block? (literal : Bool) (scan : Scan) : Option Scan := do
  let noted := (scan.content true).onBlock
  let (content, cursor) ← Yaml.block? literal noted.indent (noted.cursor.past 1)
  some ({ noted with cursor }.emit (.text content))

/-- Read the name of an anchor behind its indicator. -/
def anchor? (token : String → Token) (scan : Scan) : Option Scan :=
  let noted := scan.content false
  let name := (noted.cursor.text.drop 1).takeWhile fun c =>
    !(isSpace c || c == '\n' || isFlow c || c == '\ufeff')
  if name = [] then none
  else
    some ({ noted with cursor := noted.cursor.past (name.length + 1) }.emit
      (token (String.ofList name)))

/-- A character that can be part of a tag behind its handle. -/
def isTagChar (c : Char) : Bool :=
  isNameChar c || "#;/?:@&=+$.~*'()".toList.contains c

/-- Read a tag.  Only tags of the core sorts, behind two exclamation marks, have a
meaning here; handles have to be declared, and are refused. -/
def tag? (scan : Scan) : Option Scan :=
  let noted := scan.content false
  let text := noted.cursor.text.drop 1
  let finish (core : Option String) (length : Nat) : Option Scan :=
    let after := { noted with cursor := noted.cursor.past (length + 1) }
    if endsWord after.cursor.text || (scan.inFlow && after.cursor.text.head?.any isFlow) then
      some (after.emit (.tag core))
    else none
  match text with
  | '!' :: rest =>
    let sort := rest.takeWhile isTagChar
    if sort = [] then none else finish (some (String.ofList sort)) (sort.length + 1)
  | _ => finish none (text.takeWhile isTagChar).length

/-! ## The whole text -/

/-- Read the token that begins here. -/
def token? (scan : Scan) : Option Scan :=
  match scan.cursor.text with
  | [] => none
  | c :: rest =>
    if scan.cursor.column = 0 ∧ c = '%' then scan.directive?
    else if scan.cursor.isMarker "---" then scan.marker? .documentStart
    else if scan.cursor.isMarker "..." then scan.marker? .documentEnd
    else if (scan.cursor.column : Int) < scan.indent then none
    else
      let isValue := endsWord rest ||
        (scan.inFlow && (rest.head?.any isFlow || scan.cursor.offset == scan.adjacentValue))
      match c with
      | '[' => scan.openFlow? true
      | '\x7b' => scan.openFlow? false
      | ']' => scan.closeFlow? .flowSequenceEnd
      | '\x7d' => scan.closeFlow? .flowMappingEnd
      | ',' => scan.separate?
      | '-' => if endsWord rest then scan.item? else scan.plain?
      | '?' => if endsWord rest then scan.markedKey? else scan.plain?
      | ':' => if isValue then scan.value? else scan.plain?
      | '*' => scan.anchor? .alias
      | '&' => scan.anchor? .anchor
      | '!' => scan.tag?
      | '|' => if scan.inFlow then scan.plain? else scan.block? true
      | '>' => if scan.inFlow then scan.plain? else scan.block? false
      | '\'' => scan.quoted?
      | '"' => scan.quoted?
      | '%' => none
      | '@' => none
      | '\u0060' => none
      | _ => scan.plain?

/-- The tokens once the text has ended.  No candidate may be left that has to
become a key. -/
def finish? (scan : Scan) : Option (List Token) :=
  if scan.candidates.any fun candidate => candidate.any Candidate.required then none
  else some (scan.closeBeyond (-1)).tokens.reverse.flatten

/-- Read tokens up to the end of the text.  Every token takes up text. -/
def readAll? (scan : Scan) : Option (List Token) :=
  match (scan.toToken?).bind expireCandidate? with
  | none => none
  | some ready =>
    let here := ready.closeBeyond ready.cursor.column
    if here.cursor.text = [] then here.finish?
    else
      match here.token? with
      | none => none
      | some after =>
        if _shorter : after.cursor.text.length < scan.cursor.text.length then readAll? after
        else none
termination_by scan.cursor.text.length

end Scan

namespace Token

/-- The tokens of a text. -/
def ofText? (text : List Char) : Option (List Token) :=
  (Scan.start text).readAll?

end Token

end Yaml

end Configuration

end FilterQuery
