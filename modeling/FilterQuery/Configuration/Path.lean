import FilterQuery.Configuration.Node
import FilterQuery.Text.Numeral

namespace FilterQuery

open Text

/-!
# Names as paths

A name at the top of a configuration file may be a path into the tree: a root,
and then names behind dots and indices in brackets.  A name that does not have
this form stands for itself, and inside the tree no name is a path.

Writing at a path makes the collections that it steps through.  What stood in
the way of such a collection is replaced by an empty one.  A table that is
written is merged into the one that stands there, anything else replaces it.
-/

namespace Configuration

/-- One step of a path.  An index below zero counts from the end. -/
inductive Step where
  | name (name : String)
  | index (place : Int)
  deriving DecidableEq, Repr

namespace Step

/-- Whether a character can be part of a name in a path. -/
def isNameChar (c : Char) : Bool :=
  c.isAlphanum || c == '_' || c == '-'

/-- Split off a name. -/
def takeName? (text : List Char) : Option (String × List Char) :=
  let name := text.takeWhile isNameChar
  if name = [] then none else some (String.ofList name, text.dropWhile isNameChar)

/-- Whether a character may stand around an index. -/
def isPadding (c : Char) : Bool :=
  c == ' ' || c == '\t'

/-- Split off an index with its closing bracket.  It may have a minus sign, but
no plus sign, and it has to fit into 64 bits. -/
def takeIndex? (text : List Char) : Option (Int × List Char) :=
  let (negative, unsigned) :=
    match text.dropWhile isPadding with
    | '-' :: rest => (true, rest)
    | rest => (false, rest)
  let digits := unsigned.takeWhile Char.isDigit
  match (unsigned.dropWhile Char.isDigit).dropWhile isPadding with
  | ']' :: after => do
    let magnitude ← natural? digits
    let place : Int := if negative then -magnitude else magnitude
    if -2 ^ 63 ≤ place ∧ place < 2 ^ 63 then some (place, after) else none
  | _ => none

/-- Split off a step. -/
def take? : List Char → Option (Step × List Char)
  | '.' :: rest => (takeName? rest).map fun (found, after) => (name found, after)
  | '[' :: rest => (takeIndex? rest).map fun (found, after) => (index found, after)
  | _ => none

/-- Read steps up to the end of a text. -/
def readAll? (text : List Char) : Option (List Step) :=
  if text = [] then some []
  else
    match take? text with
    | none => none
    | some (step, after) =>
      if _shorter : after.length < text.length then (readAll? after).map (step :: ·) else none
termination_by text.length

/-- The steps of a name at the top of a file. -/
def ofName (top : String) : List Step :=
  match takeName? top.toList with
  | none => [name top]
  | some (root, after) =>
    match readAll? after with
    | none => [name top]
    | some steps => name root :: steps

end Step

namespace Node

/-- The items of a list. -/
def items? : Node → Option (List Node)
  | list items => some items
  | _ => none

mutual

/-- Merge a node into what stood in its place.  Tables are merged entry by
entry; anything else replaces. -/
def merge (old : Option Node) : Node → Node
  | table entries => table (mergeEntries ((old.bind entries?).getD []) entries)
  | node => node

/-- Merge entries into those of a table. -/
def mergeEntries (old : List (String × Node)) : List (String × Node) → List (String × Node)
  | [] => old
  | (name, node) :: rest => mergeEntries (place name (merge (find? name old) node) old) rest

end

/-- Items that reach as far as an index, and the index counted from the start.
Missing items are nulls. -/
def reaching (items : List Node) (place : Int) : List Node × Nat :=
  if 0 ≤ place then
    (items ++ List.replicate (place.toNat + 1 - items.length) null, place.toNat)
  else if place.natAbs ≤ items.length then (items, items.length - place.natAbs)
  else (List.replicate (place.natAbs - items.length) null ++ items, 0)

/-- What stands at the start of a path once a node is written at its end. -/
def written (node : Node) (old : Option Node) : List Step → Node
  | [] => merge old node
  | .name name :: rest =>
    let entries := (old.bind entries?).getD []
    table (place name (written node (find? name entries) rest) entries)
  | .index position :: rest =>
    let (items, index) := reaching ((old.bind items?).getD []) position
    list (items.modify index fun held => written node (some held) rest)

/-- The entries of a file, with the names at its top taken as paths. -/
def unfolded (entries : List (String × Node)) : List (String × Node) :=
  entries.foldl (fun sofar (name, node) =>
    ((written node (some (table sofar)) (Step.ofName name)).entries?).getD []) []

end Node

end Configuration

end FilterQuery
