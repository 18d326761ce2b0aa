import FilterQuery.Binary.Shortest

namespace FilterQuery

open Text

/-!
# The data of a configuration file

Both notations for configuration files are read to the same tree.  What a setting
makes of a node is decided here, and not by the notation: a switch may be given
as a word or a number, and a name may be given as a number or a switch.

Tables keep one value per name.  Writing a name again replaces its value; a
notation in which a repeated name is a fault looks for it before it writes.
-/

namespace Configuration

/-- A value in a configuration file. -/
inductive Node where
  | null
  | boolean (value : Bool)
  | integer (value : Int)
  | real (value : Binary BinaryFormat.double)
  | text (content : String)
  | list (items : List Node)
  | table (entries : List (String × Node))
  deriving Repr

namespace Node

/-- The node that a list of entries holds under a name. -/
def find? (name : String) : List (String × Node) → Option Node
  | [] => none
  | (other, node) :: rest => if name = other then some node else find? name rest

/-- Write a node under a name, in the place of the one that stood there. -/
def place (name : String) (node : Node) : List (String × Node) → List (String × Node)
  | [] => [(name, node)]
  | (other, held) :: rest =>
    if name = other then (name, node) :: rest else (other, held) :: place name node rest

/-- The entries of a table. -/
def entries? : Node → Option (List (String × Node))
  | table entries => some entries
  | _ => none

/-- The text that a node gives where a name is asked for. -/
def name? : Node → Option String
  | text content => some content
  | boolean value => some (if value then "true" else "false")
  | integer value => some (String.ofList (integerNumeral value))
  | real value => some (String.ofList value.literal)
  | _ => none

/-- The switch that a node gives.  Numbers are off if they are zero, and words
are taken in either case. -/
def switch? : Node → Option Bool
  | boolean value => some value
  | integer value => some (value != 0)
  | real value =>
    some (match value with
      | .finite _ ordinal => ordinal.val != 0
      | _ => true)
  | text content =>
    match String.ofList (content.toList.map Char.toLower) with
    | "1" | "true" | "on" | "yes" => some true
    | "0" | "false" | "off" | "no" => some false
    | _ => none
  | _ => none

/-- The word that a node gives where one of several is asked for.  A table with a
single entry stands for the name of that entry. -/
def choice? : Node → Option String
  | text content => some content
  | table [(name, _)] => some name
  | _ => none

end Node

end Configuration

end FilterQuery
