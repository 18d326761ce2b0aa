import FilterQuery.Binary
import FilterQuery.Text.Numeral

namespace FilterQuery

open Text

/-!
# What YAML scalars mean

A scalar in quotes is its text.  A plain scalar is taken for a null, a boolean or
a number if it is spelled as one.  The spellings of integers are wider than usual:
a sign may stand behind the word for a base, and a plus sign may stand before
another sign.

Real numbers keep their spelling.  It is what they are called where they name
something, and two of them are the same key only if they are spelled alike.
-/

namespace Configuration

namespace Yaml

/-- The meaning of a scalar.  `invalid` stands for one whose tag asks for a
meaning that its text does not have. -/
inductive Scalar where
  | null
  | boolean (value : Bool)
  | integer (value : Int)
  | real (spelling : String)
  | text (content : String)
  | invalid
  deriving DecidableEq, Repr

/-- An integer, if 64 bits hold it. -/
def fitting (value : Int) : Option Int :=
  if -2 ^ 63 ≤ value ∧ value < 2 ^ 63 then some value else none

/-- Read a decimal integer behind at most one sign. -/
def decimalInteger? (text : List Char) : Option Int :=
  (integer? text).bind fitting

/-- Read an integer of a base behind at most one sign. -/
def integerIn? (base : Nat) (text : List Char) : Option Int :=
  let (negative, digits) := takeSign text
  (naturalIn? base digits).bind fun magnitude =>
    fitting (if negative then -magnitude else magnitude)

/-- Read an integer by the word that it begins with. -/
def markedInteger? : List Char → Option Int
  | '0' :: 'x' :: rest => integerIn? 16 rest
  | '0' :: 'o' :: rest => integerIn? 8 rest
  | '+' :: rest => decimalInteger? rest
  | _ => none

/-- Whether a text spells a real number.  There has to be a digit, so that the
words for what is not finite are only those with a point. -/
def spellsReal (text : List Char) : Bool :=
  [".inf", ".Inf", ".INF", "+.inf", "+.Inf", "+.INF", "-.inf", "-.Inf", "-.INF",
      ".nan", ".NaN", ".NAN"].contains (String.ofList text) ||
    (text.any Char.isDigit && (Binary.read? text : Option (Binary BinaryFormat.double)).isSome)

namespace Scalar

/-- The meaning of a plain scalar without a tag. -/
def ofPlain (text : List Char) : Scalar :=
  match markedInteger? text with
  | some value => integer value
  | none =>
    match String.ofList text with
    | "" | "~" | "null" => null
    | "true" | "True" | "TRUE" => boolean true
    | "false" | "False" | "FALSE" => boolean false
    | content =>
      match decimalInteger? text with
      | some value => integer value
      | none => if spellsReal text then real content else .text content

/-- The meaning of a plain scalar under the tag of a sort of values.  Other tags
leave the text as it is. -/
def ofTagged (tag : String) (content : String) : Scalar :=
  match tag with
  | "bool" =>
    match content with
    | "true" => boolean true
    | "false" => boolean false
    | _ => invalid
  | "int" =>
    match decimalInteger? content.toList with
    | some value => integer value
    | none => invalid
  | "float" => if spellsReal content.toList then real content else invalid
  | "null" =>
    match content with
    | "~" | "null" => null
    | _ => invalid
  | _ => .text content

/-- The text that a scalar gives as a name.  A null names nothing. -/
def name? : Scalar → Option String
  | boolean value => some (if value then "true" else "false")
  | integer value => some (String.ofList (integerNumeral value))
  | real spelling => some spelling
  | text content => some content
  | null => none
  | invalid => none

end Scalar

end Yaml

end Configuration

end FilterQuery
