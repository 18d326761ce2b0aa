import FilterQuery.Configuration.Node
import FilterQuery.Configuration.Yaml.Scalar
import FilterQuery.Configuration.Yaml.Token

namespace FilterQuery

/-!
# YAML trees

The tokens of a document are read to a tree.  Where the structure leaves a place
for a value without filling it, there is a null.

Two keys of a mapping may not be the same.  They are compared by their meaning:
two spellings of an integer are the same key, and an integer and its digits in
quotes are not.  Keys that are collections or nulls are refused, because nothing
could be named by them.
-/

namespace Configuration

namespace Yaml

/-- A document. -/
inductive Tree where
  | scalar (scalar : Scalar)
  | sequence (items : List Tree)
  | mapping (entries : List (Scalar × Tree))
  deriving Repr

namespace Tree

/-- The tree of a place that is left empty. -/
def null : Tree := scalar .null

/-- Append an entry to those of a mapping. -/
def insertPair? (key value : Tree) (entries : List (Scalar × Tree)) :
    Option (List (Scalar × Tree)) :=
  match key with
  | scalar name =>
    if name.name?.isNone || entries.any (fun entry => entry.1 == name) then none
    else some (entries ++ [(name, value)])
  | _ => none

/-- What is left of the tokens, and the trees that names stand for. -/
structure Reading where
  tokens : List Token
  anchors : List (String × Tree)

/-- A step of reading, which may be refused. -/
abbrev Reader := StateT Reading Option

namespace Reader

/-- The next token, if there is one. -/
def peek? : Reader (Option Token) := do
  return (← get).tokens.head?

/-- Go on behind the next token. -/
def skip : Reader Unit :=
  modify fun reading => { reading with tokens := reading.tokens.drop 1 }

/-- Whether one of some tokens is next. -/
def isNext (tokens : List Token) : Reader Bool := do
  return (← peek?).any tokens.contains

/-- Let a name stand for a tree. -/
def name (anchor : Option String) (tree : Tree) : Reader Unit :=
  match anchor with
  | none => pure ()
  | some name => modify fun reading => { reading with anchors := (name, tree) :: reading.anchors }

/-- The tree that a name stands for. -/
def named (name : String) : Reader Tree := do
  match (← get).anchors.lookup name with
  | some tree => return tree
  | none => failure

/-- Read an anchor. -/
def anchor? : Reader (Option String) := do
  match ← peek? with
  | some (.anchor name) =>
    skip
    return some name
  | _ => return none

/-- Read a tag. -/
def tag? : Reader (Option (Option String)) := do
  match ← peek? with
  | some (.tag core) =>
    skip
    return some core
  | _ => return none

/-- Read an anchor and a tag, in either order. -/
def properties : Reader (Option String × Option (Option String)) := do
  let before ← anchor?
  let tag ← tag?
  match before with
  | some name => return (some name, tag)
  | none => if tag.isSome then return (← anchor?, tag) else return (none, none)

/-- The scalar of a plain text under a tag. -/
def plainScalar (tag : Option (Option String)) (content : List Char) : Scalar :=
  match tag with
  | none => Scalar.ofPlain content
  | some none => .text (String.ofList content)
  | some (some sort) => Scalar.ofTagged sort (String.ofList content)

mutual

/-- Read a node.  Block collections can be read only where a block may stand, and a
sequence that is not indented only as a value in a block mapping.  Every call uses
up fuel; three for each token are enough. -/
def node (fuel : Nat) (block unindented : Bool) : Reader Tree := do
  match fuel with
  | 0 => failure
  | fuel + 1 =>
    match ← peek? with
    | some (.alias name) =>
      skip
      named name
    | _ =>
      let (anchor, tag) ← properties
      name anchor (scalar .invalid)
      let tree ← content fuel block unindented tag (anchor.isSome || tag.isSome)
      name anchor tree
      return tree

/-- Read the content of a node behind its properties.  With properties it may be
missing. -/
def content (fuel : Nat) (block unindented : Bool) (tag : Option (Option String))
    (optional : Bool) : Reader Tree := do
  match fuel with
  | 0 => failure
  | fuel + 1 =>
    match ← peek? with
    | some (.plain text) =>
      skip
      return scalar (plainScalar tag text)
    | some (.text text) =>
      skip
      return scalar (.text (String.ofList text))
    | some .flowSequence =>
      skip
      return sequence (← flowItems fuel true)
    | some .flowMapping =>
      skip
      return mapping (← flowEntries fuel true [])
    | some .item =>
      if unindented then return sequence (← unindentedItems fuel)
      else if optional then return scalar (plainScalar tag [])
      else failure
    | some .blockSequence =>
      if block then
        skip
        return sequence (← blockItems fuel)
      else if optional then return scalar (plainScalar tag [])
      else failure
    | some .blockMapping =>
      if block then
        skip
        return mapping (← blockEntries fuel [])
      else if optional then return scalar (plainScalar tag [])
      else failure
    | _ => if optional then return scalar (plainScalar tag []) else failure

/-- Read a node, or a null before one of some tokens. -/
def nodeBefore (fuel : Nat) (block unindented : Bool) (ends : List Token) : Reader Tree := do
  match fuel with
  | 0 => failure
  | fuel + 1 => if ← isNext ends then return null else node fuel block unindented

/-- Read the items of a block sequence with its end. -/
def blockItems (fuel : Nat) : Reader (List Tree) := do
  match fuel with
  | 0 => failure
  | fuel + 1 =>
    match ← peek? with
    | some .item =>
      skip
      let first ← nodeBefore fuel true false [.item, .blockEnd]
      return first :: (← blockItems fuel)
    | some .blockEnd =>
      skip
      return []
    | _ => failure

/-- Read the items of a sequence that is not indented. -/
def unindentedItems (fuel : Nat) : Reader (List Tree) := do
  match fuel with
  | 0 => failure
  | fuel + 1 =>
    match ← peek? with
    | some .item =>
      skip
      let first ← nodeBefore fuel true false [.item, .key, .value, .blockEnd]
      return first :: (← unindentedItems fuel)
    | _ => return []

/-- Read the entries of a block mapping with its end, behind those that are already
read. -/
def blockEntries (fuel : Nat) (entries : List (Scalar × Tree)) :
    Reader (List (Scalar × Tree)) := do
  match fuel with
  | 0 => failure
  | fuel + 1 =>
    match ← peek? with
    | some .key =>
      skip
      let key ← nodeBefore fuel true true [.key, .value, .blockEnd]
      let value ←
        if ← isNext [.value] then
          skip
          nodeBefore fuel true true [.key, .value, .blockEnd]
        else pure null
      blockEntries fuel (← StateT.lift (insertPair? key value entries))
    | some .blockEnd =>
      skip
      return entries
    | _ => failure

/-- Read the items of a flow sequence with its closing bracket.  An item may be a
single entry, which is a mapping. -/
def flowItems (fuel : Nat) (first : Bool) : Reader (List Tree) := do
  match fuel with
  | 0 => failure
  | fuel + 1 =>
    if ← isNext [.flowSequenceEnd] then
      skip
      return []
    else
      unless first do
        unless ← isNext [.separator] do failure
        skip
      match ← peek? with
      | some .flowSequenceEnd =>
        skip
        return []
      | some .key =>
        skip
        let key ← node fuel false false
        let value ← flowValue fuel .flowSequenceEnd
        let entries ← StateT.lift (insertPair? key value [])
        return mapping entries :: (← flowItems fuel false)
      | _ =>
        let item ← node fuel false false
        return item :: (← flowItems fuel false)

/-- Read the entries of a flow mapping with its closing brace, behind those that are
already read. -/
def flowEntries (fuel : Nat) (first : Bool) (entries : List (Scalar × Tree)) :
    Reader (List (Scalar × Tree)) := do
  match fuel with
  | 0 => failure
  | fuel + 1 =>
    if ← isNext [.flowMappingEnd] then
      skip
      return entries
    else
      unless first do
        unless ← isNext [.separator] do failure
        skip
      match ← peek? with
      | some .flowMappingEnd =>
        skip
        return entries
      | some .key =>
        skip
        let key ← node fuel false false
        let value ← flowValue fuel .flowMappingEnd
        flowEntries fuel false (← StateT.lift (insertPair? key value entries))
      | _ =>
        let key ← node fuel false false
        flowEntries fuel false (← StateT.lift (insertPair? key null entries))

/-- Read the value of a key in flow style, which may be missing. -/
def flowValue (fuel : Nat) (ending : Token) : Reader Tree := do
  match fuel with
  | 0 => failure
  | fuel + 1 =>
    if ← isNext [.value] then
      skip
      nodeBefore fuel false false [.separator, ending]
    else return null

end

/-- Read the directives of a document.  Its version may be given once. -/
def directives (versions : Nat) : List Token → Option (List Token)
  | .directive version :: rest =>
    if version && versions ≠ 0 then none
    else directives (if version then versions + 1 else versions) rest
  | tokens => some tokens

end Reader

/-- Read a document that has begun.  It ends before a marker or with the text. -/
def document? (fuel : Nat) (tokens : List Token) : Option (Tree × List Token) :=
  match tokens with
  | [] => some (null, [])
  | .documentStart :: _ => some (null, tokens)
  | .documentEnd :: _ => some (null, tokens)
  | .directive _ :: _ => some (null, tokens)
  | _ =>
    (((Reader.node fuel true false).run ⟨tokens, []⟩)).map fun (tree, reading) =>
      (tree, reading.tokens)

/-- Read all documents.  Behind a document that is not ended, the next has to be
begun by its marker, and has no directives.  Every call uses up fuel; the number of
tokens is enough. -/
def documents? (fuel : Nat) (ended : Bool) (tokens : List Token) : Option (List Tree) :=
  match fuel with
  | 0 => none
  | fuel + 1 =>
    match tokens with
    | [] => some []
    | .documentEnd :: rest => documents? fuel true rest
    | _ => do
      let isDirected := match tokens with
        | .directive _ :: _ => true
        | _ => false
      if isDirected && !ended then none
      else
        let begun ← Reader.directives 0 tokens
        let (tree, rest) ←
          match begun with
          | .documentStart :: rest => document? (3 * tokens.length + 3) rest
          | _ => if ended && !isDirected then document? (3 * tokens.length + 3) begun else none
        (tree :: ·) <$> documents? fuel false rest

mutual

/-- The node of a tree.  A real number that has no digits is refused. -/
def node? : Tree → Option Node
  | scalar .null => some .null
  | scalar .invalid => some .null
  | scalar (.boolean value) => some (.boolean value)
  | scalar (.integer value) => some (.integer value)
  | scalar (.real spelling) => (Binary.read? spelling.toList).map .real
  | scalar (.text content) => some (.text content)
  | sequence items => (nodes? items).map .list
  | mapping entries => (entryNodes? [] entries).map .table

/-- The nodes of items. -/
def nodes? : List Tree → Option (List Node)
  | [] => some []
  | item :: rest => do
    let node ← item.node?
    (node :: ·) <$> nodes? rest

/-- The entries of a table behind those that are already there.  Keys that differ
may give the same name, and the last of them holds. -/
def entryNodes? (sofar : List (String × Node)) : List (Scalar × Tree) → Option (List (String × Node))
  | [] => some sofar
  | (key, value) :: rest => do
    let name ← key.name?
    let node ← value.node?
    entryNodes? (Node.place name node sofar) rest

end

end Tree

end Yaml

end Configuration

end FilterQuery
