import FilterQuery.Binary.Scaling
import FilterQuery.Configuration.Node

namespace FilterQuery

open Text

/-!
# Reading configuration from JSON

The reader is strict: no comments, no trailing commas, no control characters in
strings, and nothing but blanks behind the value.  Of a repeated name the last
value holds.

Numbers without fraction and exponent stay integers as far as 64 bits reach, with
or without a sign.  All others become binary numbers, by a scaling with rounding:
as many leading digits as fit into 64 bits are taken as a whole number, the
others count only by their place, and a number too large is refused.

Collections may be nested to a limit.  It bounds the depth of every node that is
read.
-/

namespace Configuration

namespace Json

/-- Drop blanks. -/
def skipBlanks (text : List Char) : List Char :=
  text.dropWhile fun c => c == ' ' || c == '\t' || c == '\n' || c == '\r'

/-- The character of an escape that is one letter. -/
def letterEscape? : Char → Option Char
  | '"' => some '"'
  | '\\' => some '\\'
  | '/' => some '/'
  | 'b' => some '\x08'
  | 'f' => some '\x0c'
  | 'n' => some '\n'
  | 'r' => some '\r'
  | 't' => some '\t'
  | _ => none

/-- The character of an escaped code, if it is no half of a pair. -/
def character? (code : Nat) : Option Char :=
  if code.isValidChar then some (Char.ofNat code) else none

/-- The character of a pair of escaped codes. -/
def pairedCharacter? (high low : Nat) : Option Char :=
  if 0xD800 ≤ high ∧ high < 0xDC00 ∧ 0xDC00 ≤ low ∧ low < 0xE000 then
    character? (0x10000 + (high - 0xD800) * 0x400 + (low - 0xDC00))
  else none

/-- Read the inside of a string with its closing quotation mark. -/
def stringBody? : List Char → Option (List Char × List Char)
  | [] => none
  | '"' :: rest => some ([], rest)
  | '\\' :: 'u' :: a :: b :: c :: d :: '\\' :: 'u' :: e :: f :: g :: h :: rest => do
    let code ← naturalIn? 16 [a, b, c, d]
    match character? code with
    | some character => do
      let (more, after) ← stringBody? ('\\' :: 'u' :: e :: f :: g :: h :: rest)
      some (character :: more, after)
    | none => do
      let character ← pairedCharacter? code (← naturalIn? 16 [e, f, g, h])
      let (more, after) ← stringBody? rest
      some (character :: more, after)
  | '\\' :: 'u' :: a :: b :: c :: d :: rest => do
    let character ← character? (← naturalIn? 16 [a, b, c, d])
    let (more, after) ← stringBody? rest
    some (character :: more, after)
  | '\\' :: letter :: rest => do
    let character ← letterEscape? letter
    let (more, after) ← stringBody? rest
    some (character :: more, after)
  | c :: rest =>
    if c = '\\' ∨ c.toNat < 0x20 then none
    else do
      let (more, after) ← stringBody? rest
      some (c :: more, after)

/-- The digits and signs at the start of a text that can be part of a number. -/
def numberChars (text : List Char) : List Char :=
  text.takeWhile fun c => c.isDigit || "+-.eE".toList.contains c

/-- Whether digits are written as a whole number is: no leading zero among
several. -/
def isWholePart : List Char → Bool
  | [] => false
  | '0' :: rest => rest == []
  | digits => digits.all Char.isDigit

/-- Whether a text is a fraction with its point, or is empty, and what follows
it is an exponent or nothing. -/
def hasNumberTail (text : List Char) : Bool :=
  match text with
  | '.' :: rest =>
    rest.takeWhile Char.isDigit != [] &&
      (Decimal.readExponent? (rest.dropWhile Char.isDigit)).isSome
  | _ => (Decimal.readExponent? text).isSome

/-- Append digits to a whole number as long as the result fits into 64 bits.  The
second part is the digits that are left. -/
def appendDigits (value : Nat) : List Char → Nat × List Char
  | [] => (value, [])
  | c :: rest =>
    let next := 10 * value + (c.toNat - '0'.toNat)
    if next < 2 ^ 64 then appendDigits next rest else (value, c :: rest)

/-- The binary number of digits before a point, digits behind it, and a power of
ten.  Digits behind the point are read even if some before it are left. -/
def scaledNumber? (negative : Bool) (whole fraction : List Char) (power : Int) : Option Node :=
  let (leading, left) := appendDigits 0 whole
  let (coefficient, ignored) := appendDigits leading fraction
  let places : Int := left.length - (fraction.length - ignored.length : Nat)
  (BinaryFormat.double.scaled? (BinaryFormat.double.ofWhole coefficient) (places + power)).bind
    fun ordinal =>
      if bounded : ordinal < BinaryFormat.double.infinity then
        some (.real (.finite negative ⟨ordinal, bounded⟩))
      else none

/-- The node of a number.  A negative zero is no integer. -/
def number? (text : List Char) : Option Node :=
  let (negative, unsigned) := match text with
    | '-' :: rest => (true, rest)
    | _ => (false, text)
  let whole := unsigned.takeWhile Char.isDigit
  let tail := unsigned.dropWhile Char.isDigit
  if isWholePart whole && hasNumberTail tail then
    let magnitude := digitsValue whole
    if tail = [] ∧ !negative ∧ magnitude < 2 ^ 64 then some (.integer magnitude)
    else if tail = [] ∧ negative ∧ 0 < magnitude ∧ magnitude ≤ 2 ^ 63 then
      some (.integer (-magnitude))
    else
      let (fraction, rest) := takeFraction tail
      (Decimal.readExponent? rest).bind (scaledNumber? negative whole fraction)
  else none

/-- One more than the deepest nesting of collections. -/
def nestingLimit : Nat := 128

mutual

/-- Read a value inside a number of collections.  Every call uses up fuel; the
length of the text is enough. -/
def value? (fuel depth : Nat) (text : List Char) : Option (Node × List Char) :=
  match fuel with
  | 0 => none
  | fuel + 1 =>
    match skipBlanks text with
    | '"' :: rest => (stringBody? rest).map fun (content, after) =>
      (.text (String.ofList content), after)
    | '[' :: rest =>
      if nestingLimit ≤ depth + 1 then none
      else
        match skipBlanks rest with
        | ']' :: after => some (.list [], after)
        | _ => (items? fuel (depth + 1) rest).map fun (items, after) => (.list items, after)
    | '\x7b' :: rest =>
      if nestingLimit ≤ depth + 1 then none
      else
        match skipBlanks rest with
        | '\x7d' :: after => some (.table [], after)
        | _ => (members? fuel (depth + 1) [] rest).map fun (entries, after) =>
          (.table entries, after)
    | 't' :: 'r' :: 'u' :: 'e' :: after => some (.boolean true, after)
    | 'f' :: 'a' :: 'l' :: 's' :: 'e' :: after => some (.boolean false, after)
    | 'n' :: 'u' :: 'l' :: 'l' :: after => some (.null, after)
    | other =>
      let digits := numberChars other
      (number? digits).map fun node => (node, other.drop digits.length)

/-- Read the items of an array with its closing bracket. -/
def items? (fuel depth : Nat) (text : List Char) : Option (List Node × List Char) :=
  match fuel with
  | 0 => none
  | fuel + 1 => do
    let (item, rest) ← value? fuel depth text
    match skipBlanks rest with
    | ',' :: more => do
      let (items, after) ← items? fuel depth more
      some (item :: items, after)
    | ']' :: after => some ([item], after)
    | _ => none

/-- Read the members of an object with its closing brace, behind the entries
that are already read. -/
def members? (fuel depth : Nat) (entries : List (String × Node)) (text : List Char) :
    Option (List (String × Node) × List Char) :=
  match fuel with
  | 0 => none
  | fuel + 1 =>
    match skipBlanks text with
    | '"' :: rest => do
      let (key, behindKey) ← stringBody? rest
      match skipBlanks behindKey with
      | ':' :: behindColon => do
        let (node, behindNode) ← value? fuel depth behindColon
        let written := Node.place (String.ofList key) node entries
        match skipBlanks behindNode with
        | ',' :: more => members? fuel depth written more
        | '\x7d' :: after => some (written, after)
        | _ => none
      | _ => none
    | _ => none

end

end Json

/-- Read a configuration in JSON. -/
def ofJson? (text : List Char) : Option Node :=
  match Json.value? (2 * text.length + 2) 0 text with
  | some (node, rest) => if Json.skipBlanks rest = [] then some node else none
  | none => none

end Configuration

end FilterQuery
