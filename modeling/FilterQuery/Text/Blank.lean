namespace FilterQuery
namespace Text

/-!
# Blanks and delimiters

Two classes of blank characters meet in a query, and they are kept apart here.
The *white* characters are those of the Unicode property `White_Space`; they
surround a query and are trimmed before anything else is read.  The *blanks*
are the five ASCII characters that separate words inside a query.  A vertical
tab or a no-break space is white, and is nevertheless part of a word when it
stands inside one.

Parentheses end a word as blanks do, but they are not skipped.  A delimiter is
a character of either sort.
-/

/-- The characters with the Unicode property `White_Space`, twenty-five in
all.  The zero-width spaces and the byte order mark are not among them. -/
def isWhite (c : Char) : Bool :=
  let code := c.toNat
  (0x09 ≤ code && code ≤ 0x0D) || code == 0x20 || code == 0x85 || code == 0xA0 ||
    code == 0x1680 || (0x2000 ≤ code && code ≤ 0x200A) || code == 0x2028 ||
    code == 0x2029 || code == 0x202F || code == 0x205F || code == 0x3000

/-- The blanks that separate words: space, tab, line feed, form feed and
carriage return.  The vertical tab is left out. -/
def isBlank (c : Char) : Bool :=
  c == ' ' || c == '\t' || c == '\n' || c == '\x0c' || c == '\r'

/-- A character at which a word ends. -/
def isDelimiter (c : Char) : Bool :=
  isBlank c || c == '(' || c == ')'

/-- Drop the white characters at the end. -/
def trimEnd (text : List Char) : List Char :=
  (text.reverse.dropWhile isWhite).reverse

/-- Drop the white characters at both ends.  Inner ones are kept. -/
def trim (text : List Char) : List Char :=
  trimEnd (text.dropWhile isWhite)

/-- Every blank is white, so trimming never leaves a blank at an end. -/
theorem isWhite_of_isBlank {c : Char} (blank : isBlank c = true) : isWhite c = true := by
  simp only [isBlank, Bool.or_eq_true, beq_iff_eq] at blank
  rcases blank with (((rfl | rfl) | rfl) | rfl) | rfl <;> decide

/-- A parenthesis is never white, so trimming keeps every parenthesis. -/
theorem isWhite_openParen : isWhite '(' = false := by decide

theorem isWhite_closeParen : isWhite ')' = false := by decide

end Text
end FilterQuery
