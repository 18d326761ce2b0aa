import FilterQuery.Rejection
import FilterQuery.Text.Bytes

namespace FilterQuery

/-!
# Pairing parentheses

Before a query is read, each opening parenthesis is paired with the closing one
that matches it.  The reader then finds the end of a group without looking
through it, and a parenthesis without partner is reported before any other
fault of the query.

A `Pairing` is only a table from opening to closing offsets.  Scanning accepts
any table, also one that pairs the wrong places or leaves parentheses out; that
the table is the matching of a text is a property of `Pairing.ofText`, not of
the type.
-/

/-- A table from the offsets of opening parentheses to those of closing ones.
The latest pair stands first and hides earlier pairs of the same opening. -/
structure Pairing where
  pairs : List (Nat × Nat)
  deriving DecidableEq, Repr

namespace Pairing

/-- The table without a pair. -/
def empty : Pairing := ⟨[]⟩

/-- Record a pair. -/
def insert (pairing : Pairing) (opening closing : Nat) : Pairing :=
  ⟨(opening, closing) :: pairing.pairs⟩

/-- Record the pairs of a list one after another. -/
def ofList (pairs : List (Nat × Nat)) : Pairing :=
  pairs.foldl (fun pairing pair => pairing.insert pair.1 pair.2) empty

/-- The closing that a list of pairs gives first to an opening. -/
def find? (opening : Nat) : List (Nat × Nat) → Option Nat
  | [] => none
  | (other, closing) :: rest => if opening = other then some closing else find? opening rest

/-- Where the group that opens at an offset is closed. -/
def closing? (pairing : Pairing) (opening : Nat) : Option Nat :=
  find? opening pairing.pairs

/-- The openings that have a pair. -/
def openings (pairing : Pairing) : List Nat :=
  pairing.pairs.map Prod.fst

/-- The pairs by increasing opening. -/
def toSortedList (pairing : Pairing) : List (Nat × Nat) :=
  pairing.pairs.mergeSort (fun first second => first.1 ≤ second.1)

/-- The most parentheses that may be open at one place.  Each is one level of
recursion for the reader. -/
def nestingLimit : Nat := 128

/-- Pair the parentheses of a text that begins at an offset, while the
parentheses in `waiting` are open, the innermost first.  The depth is looked at
before a parenthesis is opened, and a closing one takes the innermost. -/
def pairFrom (offset : Nat) (waiting : List Nat) (found : Pairing) :
    List Char → Except Rejection Pairing
  | [] =>
    match waiting with
    | [] => .ok found
    | opening :: _ => .error (.unbalancedParenthesis opening)
  | c :: rest =>
    if c = '(' then
      if waiting.length = nestingLimit then .error (.invalidExpression .nestedTooDeeply)
      else pairFrom (offset + c.utf8Size) (offset :: waiting) found rest
    else if c = ')' then
      match waiting with
      | [] => .error (.unbalancedParenthesis offset)
      | opening :: outer =>
        pairFrom (offset + c.utf8Size) outer (found.insert opening offset) rest
    else pairFrom (offset + c.utf8Size) waiting found rest

/-- The matching of a text's parentheses.  The first closing parenthesis
without partner is reported, or else the last opening one. -/
def ofText (text : List Char) : Except Rejection Pairing :=
  pairFrom 0 [] empty text

end Pairing

end FilterQuery
