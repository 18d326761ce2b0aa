import FilterQuery.Document

namespace FilterQuery

open Text

/-!
# Documents as JSON

Documents are written either on one line without blanks or over several lines
with an indentation of two.  In strings only what JSON requires is escaped: the
quotation mark, the backslash and the control characters below the blank.  A
string therefore never brings a line break into the text.
-/

namespace Json

/-- How JSON writes numbers. -/
def floatNotation : FloatNotation := ⟨true, .even⟩

/-- Two hexadecimal digits in lower case. -/
def hexPair (code : Nat) : List Char :=
  [Nat.digitChar (code / 16 % 16), Nat.digitChar (code % 16)]

/-- A character inside a string. -/
def escapeChar (c : Char) : List Char :=
  if c = '"' then ['\\', '"']
  else if c = '\\' then ['\\', '\\']
  else if c = '\x08' then ['\\', 'b']
  else if c = '\t' then ['\\', 't']
  else if c = '\n' then ['\\', 'n']
  else if c = '\x0c' then ['\\', 'f']
  else if c = '\r' then ['\\', 'r']
  else if c.toNat < 0x20 then ['\\', 'u', '0', '0'] ++ hexPair c.toNat
  else [c]

/-- A string between quotation marks. -/
def quoted (text : String) : List Char :=
  '"' :: text.toList.flatMap escapeChar ++ ['"']

/-- A document that has no parts. -/
def scalar : Document → List Char
  | .integer value => integerNumeral value
  | .number value => (floatNotation.write? value).getD "null".toList
  | .string text => quoted text
  | _ => "null".toList

mutual

/-- Write a document on one line. -/
def compact : Document → List Char
  | .array items => '[' :: compactItems items ++ [']']
  | .object members => '\x7b' :: compactMembers members ++ ['\x7d']
  | document => scalar document

/-- The items of an array with commas between them. -/
def compactItems : List Document → List Char
  | [] => []
  | [item] => compact item
  | item :: rest => compact item ++ ',' :: compactItems rest

/-- The members of an object with commas between them. -/
def compactMembers : List (String × Document) → List Char
  | [] => []
  | [(key, value)] => quoted key ++ ':' :: compact value
  | (key, value) :: rest => quoted key ++ ':' :: compact value ++ ',' :: compactMembers rest

end

/-- The start of a line at a depth. -/
def newLine (depth : Nat) : List Char :=
  '\n' :: List.replicate (2 * depth) ' '

mutual

/-- Write a document over several lines.  An array or object without parts
stays on one line. -/
def pretty (depth : Nat) : Document → List Char
  | .array [] => ['[', ']']
  | .array items => '[' :: prettyItems (depth + 1) items ++ newLine depth ++ [']']
  | .object [] => ['\x7b', '\x7d']
  | .object members => '\x7b' :: prettyMembers (depth + 1) members ++ newLine depth ++ ['\x7d']
  | document => scalar document

/-- The items of an array, each on a line of its own. -/
def prettyItems (depth : Nat) : List Document → List Char
  | [] => []
  | [item] => newLine depth ++ pretty depth item
  | item :: rest => newLine depth ++ pretty depth item ++ ',' :: prettyItems depth rest

/-- The members of an object, each on a line of its own. -/
def prettyMembers (depth : Nat) : List (String × Document) → List Char
  | [] => []
  | [(key, value)] => newLine depth ++ quoted key ++ ':' :: ' ' :: pretty depth value
  | (key, value) :: rest =>
    newLine depth ++ quoted key ++ ':' :: ' ' :: pretty depth value ++
      ',' :: prettyMembers depth rest

end

end Json

namespace Document

/-- The document as JSON on one line. -/
def toJson (document : Document) : String :=
  String.ofList (Json.compact document)

/-- The document as JSON over several lines. -/
def toPrettyJson (document : Document) : String :=
  String.ofList (Json.pretty 0 document)

end Document

end FilterQuery
