import FilterQuery.Document
import FilterQuery.Text.Blank

namespace FilterQuery

open Text

/-!
# Documents as YAML

Documents are written in block style with an indentation of two.  A sequence
below a key is not indented further than the key.

A string is written plainly where that reads back as the same string.  Two
conditions are separate.  The *form* of a plain scalar must not be mistaken for
an indicator of the syntax, and its *content* must not be taken for a null, a
boolean or a number.  Where either fails the string is quoted: between single
quotes if its characters can stand there, and between double quotes with escapes
otherwise.

A key that is too long, or that has a line break in it, cannot stand before a
colon on its line.  It is introduced by a question mark, and its value by a colon
on the next line.

What a scalar holds behind a line break is indented one step further than the
block in which the scalar stands.
-/

namespace Yaml

/-- How YAML writes numbers. -/
def floatNotation : FloatNotation := ⟨false, .even⟩

/-! ## Content: what a plain scalar would be taken for -/

/-- The rest of a text behind a leading word. -/
def behind? (word : String) (text : List Char) : Option (List Char) :=
  if word.toList.isPrefixOf text then some (text.drop word.length) else none

/-- Behind at most one plus sign. -/
def withoutPlus (text : List Char) : List Char :=
  (behind? "+" text).getD text

/-- The largest number without a sign that is taken for an integer, and the
largest behind a minus sign. -/
def maxUnsigned : Nat := 2 ^ 128 - 1

def maxNegative : Nat := 2 ^ 127

/-- Digits with a leading zero among several.  They are no number, although they
could be read as one. -/
def hasLeadingZero (text : List Char) : Bool :=
  match (takeSign text).2 with
  | '0' :: rest => rest ≠ [] && rest.all Char.isDigit
  | _ => false

/-- Whether a text is digits in a base behind a word, up to a limit. -/
def isBased (word : String) (base limit : Nat) (text : List Char) : Bool :=
  match (behind? word text).bind (naturalIn? base) with
  | some value => value ≤ limit
  | none => false

/-- Whether a text is taken for an integer. -/
def isInteger (text : List Char) : Bool :=
  let unsigned := withoutPlus text
  isBased "0x" 16 maxUnsigned unsigned || isBased "0o" 8 maxUnsigned unsigned ||
    isBased "0b" 2 maxUnsigned unsigned || isBased "-0x" 16 maxNegative text ||
    isBased "-0o" 8 maxNegative text || isBased "-0b" 2 maxNegative text ||
    (!hasLeadingZero text &&
      (isBased "" 10 maxUnsigned unsigned || isBased "-" 10 maxNegative text))

/-- Whether a text is taken for a number that is not an integer. -/
def isReal (text : List Char) : Bool :=
  let unsigned := withoutPlus text
  [".inf", ".Inf", ".INF"].contains (String.ofList unsigned) ||
    ["-.inf", "-.Inf", "-.INF", ".nan", ".NaN", ".NAN"].contains (String.ofList text) ||
    (!(unsigned.length < text.length && (takeSign unsigned).2.length < unsigned.length) &&
      (Binary.readFinite? unsigned : Option (Binary BinaryFormat.double)).isSome)

/-- Whether a plain scalar of these characters would not be a string, or could
be doubted to be one. -/
def isAmbiguous (text : List Char) : Bool :=
  ["", "null", "Null", "NULL", "~", "true", "True", "TRUE", "false", "False", "FALSE"].contains
      (String.ofList text) ||
    isInteger text || hasLeadingZero text || isReal text

/-! ## Form: where a plain scalar may stand -/

/-- A character that ends a line. -/
def isLineBreak (c : Char) : Bool :=
  c == '\n' || c == '\r' || c == '\u0085' || c == '\u2028' || c == '\u2029'

/-- A space, a tab, a line break or the null character. -/
def isSeparator (c : Char) : Bool :=
  c == ' ' || c == '\t' || c == '\x00' || isLineBreak c

/-- A character that may stand in a text without an escape. -/
def isPrintable (c : Char) : Bool :=
  let code := c.toNat
  code == 0x0A || (0x20 ≤ code && code ≤ 0x7E) || (0xA0 ≤ code && code ≤ 0xFEFE) ||
    (0xFF00 ≤ code && code ≤ 0xFFFD) || 0x10000 ≤ code

/-- Whether the end of the text or a separator follows. -/
def separated : List Char → Bool
  | [] => true
  | c :: _ => isSeparator c

/-- Whether the first character of a text is an indicator there. -/
def startsWithIndicator : List Char → Bool
  | [] => false
  | c :: rest =>
    "#,[]\x7b\x7d&*!|>'\"%@\u0060".toList.contains c ||
      ("?:-".toList.contains c && separated rest)

/-- Whether a later character is an indicator: a colon at the end of a word, or
a number sign at the start of one. -/
def hasInnerIndicator (previous : Char) : List Char → Bool
  | [] => false
  | c :: rest =>
    (c == ':' && separated rest) || (c == '#' && isSeparator previous) || hasInnerIndicator c rest

/-- Whether the form of a text lets it stand plainly. -/
def hasPlainForm (text : List Char) : Bool :=
  match text with
  | [] => false
  | first :: rest =>
    !("---".toList.isPrefixOf text || "...".toList.isPrefixOf text ||
      startsWithIndicator text || hasInnerIndicator first rest ||
      text.any isLineBreak || !text.all isPrintable ||
      first == ' ' || text.getLast? == some ' ')

/-- Whether a space and a line break meet. -/
def spaceMeetsBreak : List Char → Bool
  | c :: next :: rest =>
    (c == ' ' && isLineBreak next) || (isLineBreak c && next == ' ') ||
      spaceMeetsBreak (next :: rest)
  | _ => false

/-! ## Scalars -/

/-- Upper-case hexadecimal digits of a code, as many as asked for. -/
def hexDigits (width code : Nat) : List Char :=
  let digits := (Nat.toDigits 16 code).map Char.toUpper
  List.replicate (width - digits.length) '0' ++ digits

/-- A character between double quotes. -/
def escapeChar (c : Char) : List Char :=
  if isPrintable c && !isLineBreak c && c != '"' && c != '\\' then [c]
  else
    '\\' ::
      match c with
      | '\x00' => ['0']
      | '\x07' => ['a']
      | '\x08' => ['b']
      | '\t' => ['t']
      | '\n' => ['n']
      | '\x0b' => ['v']
      | '\x0c' => ['f']
      | '\r' => ['r']
      | '\x1b' => ['e']
      | '"' => ['"']
      | '\\' => ['\\']
      | '\u0085' => ['N']
      | '\u2028' => ['L']
      | '\u2029' => ['P']
      | _ =>
        if c.toNat ≤ 0xFF then 'x' :: hexDigits 2 c.toNat
        else if c.toNat ≤ 0xFFFF then 'u' :: hexDigits 4 c.toNat
        else 'U' :: hexDigits 8 c.toNat

/-- A text between double quotes. -/
def doubleQuoted (text : List Char) : List Char :=
  '"' :: text.flatMap escapeChar ++ ['"']

/-- The characters between single quotes.  A quote is doubled.  What follows line
breaks, the closing quote included, stands at an indentation; `broken` tells
whether a line break was just written. -/
def singleQuotedFrom (indent : Nat) (broken : Bool) : List Char → List Char
  | [] => if broken then List.replicate indent ' ' else []
  | c :: rest =>
    if isLineBreak c then c :: singleQuotedFrom indent true rest
    else
      (if broken then List.replicate indent ' ' else []) ++
        (if c = '\'' then ['\'', '\''] else [c]) ++ singleQuotedFrom indent false rest

/-- A text between single quotes. -/
def singleQuoted (indent : Nat) (text : List Char) : List Char :=
  '\'' :: singleQuotedFrom indent false text ++ ['\'']

/-- Write a string as a scalar that goes on at an indentation behind a line
break. -/
def stringScalar (indent : Nat) (string : String) : List Char :=
  let text := string.toList
  if !isAmbiguous text && hasPlainForm text then text
  else if text.all isPrintable && !spaceMeetsBreak text && !text.contains '\n' then
    singleQuoted indent text
  else doubleQuoted text

/-- The longest key, in bytes, that may stand before a colon on its line. -/
def maxSimpleKey : Nat := 128

/-- Whether a key may stand before a colon on its line. -/
def isSimpleKey (key : String) : Bool :=
  key.utf8ByteSize ≤ maxSimpleKey && !key.toList.any isLineBreak

/-- A document that has no parts, with the indentation at which it goes on. -/
def scalar (indent : Nat) : Document → List Char
  | .integer value => integerNumeral value
  | .number value => (floatNotation.write? value).getD "null".toList
  | .string text => stringScalar indent text
  | .array _ => ['[', ']']
  | .object _ => ['\x7b', '\x7d']
  | .null => "null".toList

/-! ## Blocks -/

/-- The start of a line at an indentation. -/
def newLine (indent : Nat) : List Char :=
  '\n' :: List.replicate indent ' '

/-- A key with its colon.  A key that is not simple stands on a line of its own,
and the colon below it. -/
def keyLine (indent : Nat) (key : String) : List Char :=
  if isSimpleKey key then stringScalar (indent + 2) key ++ [':']
  else '?' :: ' ' :: stringScalar (indent + 2) key ++ newLine indent ++ [':']

mutual

/-- Write a document from the current column on, which is the indentation of
its parts. -/
def block (indent : Nat) : Document → List Char
  | .array (item :: rest) => '-' :: ' ' :: block (indent + 2) item ++ laterItems indent rest
  | .object ((key, value) :: rest) =>
    keyLine indent key ++ besideColon indent (isSimpleKey key) value ++ laterMembers indent rest
  | document => scalar (max indent 2) document

/-- Write the value of a key behind its colon.  Behind a simple key a sequence
begins on the next line at the indentation of the key, and an object there one
step further in.  Behind any other key both begin beside the colon. -/
def besideColon (indent : Nat) (simple : Bool) : Document → List Char
  | .array (item :: rest) =>
    if simple then newLine indent ++ '-' :: ' ' :: block (indent + 2) item ++ laterItems indent rest
    else ' ' :: '-' :: ' ' :: block (indent + 4) item ++ laterItems (indent + 2) rest
  | .object ((key, value) :: rest) =>
    (if simple then newLine (indent + 2) else [' ']) ++ keyLine (indent + 2) key ++
      besideColon (indent + 2) (isSimpleKey key) value ++ laterMembers (indent + 2) rest
  | document => ' ' :: scalar (indent + 2) document

/-- Write items on lines of their own. -/
def laterItems (indent : Nat) : List Document → List Char
  | [] => []
  | item :: rest =>
    newLine indent ++ '-' :: ' ' :: block (indent + 2) item ++ laterItems indent rest

/-- Write members on lines of their own. -/
def laterMembers (indent : Nat) : List (String × Document) → List Char
  | [] => []
  | (key, value) :: rest =>
    newLine indent ++ keyLine indent key ++ besideColon indent (isSimpleKey key) value ++
      laterMembers indent rest

end

end Yaml

namespace Document

/-- The document as a YAML document with its marker, without white space at the
end. -/
def toYaml (document : Document) : String :=
  String.ofList ("---\n".toList ++ trimEnd (Yaml.block 0 document))

end Document

end FilterQuery
