import Mathlib.Data.List.TakeWhile
import FilterQuery.Configuration.Yaml
import FilterQuery.Proofs.FlowTokens

namespace FilterQuery

open Text

/-!
# From tokens to the node again

The reader of trees goes through the tokens with some fuel, and what it does beside that, such as
looking up names, is nothing where no names are given.  `Takes` says that a reader takes a value off
the front of some tokens and leaves the rest, so that readers are put together as their values
are.  Each part of a table is taken by its own lemma, and the tokens of a node by induction on it.
Every call uses up fuel, and a token is looked at in two of them at most.

The tree that comes out is that of the node.  Names are compared as scalars there, and names of a
table that differ are scalars that differ.  What the tree means is the node.
-/

namespace Configuration

namespace Yaml

mutual

/-- The tree of a node. -/
def nodeTree : Node → Tree
  | .boolean value => .scalar (.boolean value)
  | .text content => .scalar (.text content)
  | .table entries => .mapping (entryTrees entries)
  | _ => .null

/-- The entries of a mapping for those of a table. -/
def entryTrees : List (String × Node) → List (Scalar × Tree)
  | [] => []
  | (name, node) :: rest => (.text name, nodeTree node) :: entryTrees rest

end

namespace Tree

/-- A reader takes a value off the front of some tokens, whatever names stand for. -/
def Takes {α : Type} (reader : Reader α) (tokens : List Token) (value : α) (rest : List Token) :
    Prop :=
  ∀ anchors, reader.run ⟨tokens, anchors⟩ = some (value, ⟨rest, anchors⟩)

namespace Takes

variable {α β : Type} {tokens between rest : List Token}

theorem pure (value : α) : Takes (Pure.pure value) tokens value tokens :=
  fun _ => rfl

theorem bind {reader : Reader α} {next : α → Reader β} {value : α} {result : β}
    (first : Takes reader tokens value between) (second : Takes (next value) between result rest) :
    Takes (reader >>= next) tokens result rest := by
  intro anchors
  rw [StateT.run_bind, first anchors]
  exact second anchors

theorem peek? : Takes Reader.peek? tokens tokens.head? tokens :=
  fun _ => rfl

theorem skip (token : Token) : Takes Reader.skip (token :: tokens) () tokens :=
  fun _ => rfl

theorem isNext (ends : List Token) :
    Takes (Reader.isNext ends) tokens (tokens.head?.any ends.contains) tokens :=
  fun _ => rfl

theorem lift {found : Option α} {value : α} (given : found = some value) :
    Takes (StateT.lift found) tokens value tokens := by
  intro anchors
  rw [given]
  rfl

end Takes

/-- A token that begins the content of a node. -/
def Begins : Token → Prop
  | .plain _ | .text _ | .flowMapping => True
  | _ => False

/-- What stands before an entry of a table. -/
def separators : Bool → List Token
  | true => []
  | false => [.separator]

section Node

variable {token : Token} {tokens rest : List Token} {tree : Tree} {fuel : Nat}
  {block unindented : Bool}

/-- No anchor and no tag is before the content of a node. -/
theorem takes_properties (begins : Begins token) :
    Takes Reader.properties (token :: tokens) (none, none) (token :: tokens) := by
  intro anchors
  cases token <;> first | exact begins.elim | rfl

/-- A node without properties is its content. -/
theorem takes_node (begins : Begins token)
    (content : Takes (Reader.content fuel block unindented none false) (token :: tokens) tree
      rest) :
    Takes (Reader.node (fuel + 1) block unindented) (token :: tokens) tree rest := by
  rw [Reader.node]
  refine .bind .peek? ?_
  cases token <;> first
    | exact begins.elim
    | exact .bind (takes_properties begins)
        (.bind (.pure ()) (.bind content (.bind (.pure ()) (.pure tree))))

/-- A string is a node. -/
theorem takes_text (content : String) :
    Takes (Reader.node (fuel + 2) block unindented) (.text content.toList :: tokens)
      (scalar (.text content)) tokens := by
  refine takes_node (by trivial) ?_
  rw [Reader.content]
  refine .bind .peek? (.bind (.skip _) ?_)
  rw [String.ofList_toList]
  exact .pure _

/-- A plain word is a node with the meaning of the word. -/
theorem takes_plain (content : List Char) :
    Takes (Reader.node (fuel + 2) block unindented) (.plain content :: tokens)
      (scalar (Scalar.ofPlain content)) tokens := by
  refine takes_node (by trivial) ?_
  rw [Reader.content]
  exact .bind .peek? (.bind (.skip _) (.pure _))

/-- A table is a node if its entries are read. -/
theorem takes_flowMapping {entries : List (Scalar × Tree)}
    (reads : Takes (Reader.flowEntries fuel true []) tokens entries rest) :
    Takes (Reader.node (fuel + 2) block unindented) (.flowMapping :: tokens) (mapping entries)
      rest := by
  refine takes_node (by trivial) ?_
  rw [Reader.content]
  exact .bind .peek? (.bind (.skip _) (.bind reads (.pure _)))

/-- A closing brace ends the entries. -/
theorem takes_flowMappingEnd (first : Bool) (entries : List (Scalar × Tree)) :
    Takes (Reader.flowEntries (fuel + 1) first entries) (.flowMappingEnd :: rest) entries rest := by
  rw [Reader.flowEntries]
  exact .bind (.isNext _) (.bind (.skip _) (.pure _))

/-- An entry is read, with the separator before it if it is not the first, and then what is
behind it. -/
theorem takes_entry {first : Bool} {name : String} {sofar result : List (Scalar × Tree)}
    {value : List Token} (begins : ∃ token more, value = token :: more ∧ Begins token)
    (fresh : ∀ entry ∈ sofar, entry.1 ≠ .text name)
    (reads : Takes (Reader.node fuel false false) (value ++ tokens) tree tokens)
    (onward : Takes (Reader.flowEntries (fuel + 2) false (sofar ++ [(.text name, tree)])) tokens
      result rest) :
    Takes (Reader.flowEntries (fuel + 3) first sofar)
      (separators first ++ .key :: .text name.toList :: .value :: (value ++ tokens)) result
      rest := by
  have key : Takes (Reader.node (fuel + 2) false false)
      (.text name.toList :: .value :: (value ++ tokens)) (scalar (.text name))
      (.value :: (value ++ tokens)) := takes_text name
  have given : Takes (Reader.flowValue (fuel + 2) .flowMappingEnd) (.value :: (value ++ tokens))
      tree tokens := by
    rw [Reader.flowValue]
    refine .bind (.isNext _) (.bind (.skip _) ?_)
    rw [Reader.nodeBefore]
    rcases begins with ⟨token, more, rfl, begins⟩
    refine .bind (.isNext _) ?_
    cases token <;> first | exact begins.elim | exact reads
  have pair : insertPair? (scalar (.text name)) tree sofar =
      some (sofar ++ [(.text name, tree)]) := by
    have different : sofar.any (fun entry => entry.1 == .text name) = false :=
      List.any_eq_false.mpr fun entry member => by simp [fresh entry member]
    rw [insertPair?, different]
    rfl
  have entry : Takes (do
      Reader.skip
      let key ← Reader.node (fuel + 2) false false
      let value ← Reader.flowValue (fuel + 2) .flowMappingEnd
      Reader.flowEntries (fuel + 2) false (← StateT.lift (insertPair? key value sofar)))
      (.key :: .text name.toList :: .value :: (value ++ tokens)) result rest :=
    .bind (.skip _) (.bind key (.bind given (.bind (.lift pair) onward)))
  rw [Reader.flowEntries]
  cases first with
  | true =>
      change Takes _ (.key :: .text name.toList :: .value :: (value ++ tokens)) result rest
      exact .bind (.isNext _) (.bind .peek? entry)
  | false =>
      change Takes _ (.separator :: .key :: .text name.toList :: .value :: (value ++ tokens)) result
        rest
      exact .bind (.isNext _) (.bind (.isNext _) (.bind (.skip _) (.bind .peek? entry)))

end Node

/-- The tokens of a node begin its content. -/
theorem begins_nodeTokens (node : Node) :
    ∃ token more, nodeTokens node = token :: more ∧ Begins token := by
  cases node with
  | boolean value => cases value <;> exact ⟨_, _, rfl, trivial⟩
  | null | integer | real | text | list | table => exact ⟨_, _, rfl, trivial⟩

mutual

/-- The tokens of a node are read to its tree.  Twice their number is fuel enough. -/
theorem takes_nodeTokens : (node : Node) → ∀ {room fuel : Nat} {block unindented : Bool}
    {rest : List Token}, node.Written room → 2 * (nodeTokens node).length ≤ fuel →
      Takes (Reader.node fuel block unindented) (nodeTokens node ++ rest) (nodeTree node) rest
  | .null, _, fuel + 2, _, _, _, _, _ => takes_plain _
  | .boolean true, _, fuel + 2, _, _, _, _, _ => takes_plain _
  | .boolean false, _, fuel + 2, _, _, _, _, _ => takes_plain _
  | .text content, _, fuel + 2, _, _, _, _, _ => takes_text content
  | .table [], _, fuel + 3, _, _, _, _, _ => takes_flowMapping (takes_flowMappingEnd true [])
  | .table (entry :: others), _, fuel + 2, _, _, rest, ⟨_, _, written⟩, enough => by
      rw [nodeTokens, List.length_append, List.length_cons, List.length_singleton] at enough
      have reads : Takes (Reader.flowEntries fuel true [])
          (entryTokens (entry :: others) ++ .flowMappingEnd :: rest)
          (entryTrees (entry :: others)) rest :=
        takes_entryTokens (entry :: others) (List.cons_ne_nil _ _) written
          (fun _ _ => List.forall_mem_nil _) (by omega)
      rw [nodeTokens, List.append_assoc]
      exact takes_flowMapping reads

/-- So are the tokens of entries. -/
theorem takes_entryTokens : (entries : List (String × Node)) → ∀ {room fuel : Nat} {first : Bool}
    {rest : List Token} {sofar : List (Scalar × Tree)}, entries ≠ [] →
      Node.WrittenEntries room entries →
      (∀ entry ∈ entries, ∀ other ∈ sofar, other.1 ≠ .text entry.1) →
      2 * ((entryTokens entries).length + 1) ≤ fuel →
        Takes (Reader.flowEntries fuel first sofar)
          (separators first ++ (entryTokens entries ++ .flowMappingEnd :: rest))
          (sofar ++ entryTrees entries) rest
  | [(name, node)], _, fuel + 3, _, _, sofar, _, ⟨_, written, _⟩, fresh, enough => by
      rw [entryTokens] at enough ⊢
      simp only [List.length_cons] at enough
      exact takes_entry (begins_nodeTokens node) (fresh _ List.mem_cons_self)
        (takes_nodeTokens node written (by omega)) (takes_flowMappingEnd false _)
  | (name, node) :: next :: others, _, fuel + 3, _, rest, sofar, _, ⟨distinct, written, further⟩,
      fresh, enough => by
      rw [entryTokens] at enough
      simp only [List.length_cons, List.length_append] at enough
      have later : ∀ entry ∈ next :: others, ∀ other ∈ sofar ++ [(.text name, nodeTree node)],
          other.1 ≠ .text entry.1 := by
        intro entry member other before
        rcases List.mem_append.mp before with early | last
        · exact fresh entry (List.mem_cons_of_mem _ member) other early
        · rw [List.mem_singleton.mp last]
          rintro ⟨same⟩
          exact distinct entry member rfl
      have onward : Takes
          (Reader.flowEntries (fuel + 2) false (sofar ++ [(.text name, nodeTree node)]))
          (separators false ++ (entryTokens (next :: others) ++ .flowMappingEnd :: rest))
          (sofar ++ [(.text name, nodeTree node)] ++ entryTrees (next :: others)) rest :=
        takes_entryTokens (next :: others) (List.cons_ne_nil _ _) further later (by omega)
      rw [List.append_assoc] at onward
      rw [entryTokens]
      simp only [List.append_assoc, List.cons_append]
      exact takes_entry (begins_nodeTokens node) (fresh _ List.mem_cons_self)
        (takes_nodeTokens node written (by omega)) onward

end

mutual

/-- The tree of a node means that node. -/
theorem node?_nodeTree : (node : Node) → ∀ {room : Nat}, node.Written room →
    (nodeTree node).node? = some node
  | .null, _, _ => rfl
  | .boolean _, _, _ => rfl
  | .text _, _, _ => rfl
  | .table entries, _, ⟨_, _, written⟩ => by
      have nodes : entryNodes? [] (entryTrees entries) = some ([] ++ entries) :=
        entryNodes?_entryTrees entries written (.nil _)
      rw [nodeTree, node?, nodes]
      rfl

/-- The entries of a mapping mean those of a table. -/
theorem entryNodes?_entryTrees : (entries : List (String × Node)) → ∀ {room : Nat}
    {sofar : List (String × Node)}, Node.WrittenEntries room entries →
      Node.Apart sofar entries →
        entryNodes? sofar (entryTrees entries) = some (sofar ++ entries)
  | [], _, sofar, _, _ => by rw [List.append_nil]; rfl
  | (name, node) :: rest, _, sofar, ⟨distinct, written, further⟩, apart => by
      have onward := entryNodes?_entryTrees rest further (apart.append distinct)
      rw [List.append_assoc, List.singleton_append] at onward
      rw [entryTrees, entryNodes?, node?_nodeTree node written]
      simp only [Scalar.name?, Option.bind_eq_bind, Option.bind_some,
        Node.place_of_forall_ne apart.first]
      exact onward

end

end Tree

/-- A text without control characters is read as it is. -/
theorem effectiveText_of_visible {text : List Char} (visible : ∀ c ∈ text, 0x20 ≤ c.toNat) :
    effectiveText text = text := by
  have whole : text.takeWhile (· ≠ '\x00') = text := by
    rw [List.takeWhile_eq_self_iff]
    intro c member
    apply decide_eq_true
    rintro rfl
    exact absurd (visible _ member) (by decide)
  rw [effectiveText, whole]
  clear whole
  induction text with
  | nil => rfl
  | cons c rest ih =>
      rcases List.forall_mem_cons.mp visible with ⟨first, others⟩
      have inLine : c ≠ '\r' := by
        rintro rfl
        exact absurd first (by decide)
      rw [unifyBreaks, ih others]
      all_goals
        intros
        contradiction

end Yaml

theorem visible_of_all {text : List Char} (all : text.all (fun c => 0x20 ≤ c.toNat) = true) :
    ∀ c ∈ text, 0x20 ≤ c.toNat :=
  fun c member => of_decide_eq_true (List.all_eq_true.mp all c member)

mutual

/-- No control character stands in the text of a node. -/
theorem visible_json : (node : Node) → ∀ c ∈ node.json, 0x20 ≤ c.toNat
  | .boolean true => visible_of_all (by decide)
  | .boolean false => visible_of_all (by decide)
  | .text content => visible_quoted content
  | .table entries => by
      rw [Node.json]
      refine List.forall_mem_cons.mpr ⟨by decide, fun c member => ?_⟩
      rcases List.mem_append.mp member with inside | last
      · exact visible_jsonEntries entries c inside
      · rw [List.mem_singleton.mp last]
        decide
  | .null | .integer _ | .real _ | .list _ => by
      change ∀ c ∈ "null".toList, 0x20 ≤ c.toNat
      exact visible_of_all (by decide)

theorem visible_jsonEntries :
    (entries : List (String × Node)) → ∀ c ∈ Node.jsonEntries entries, 0x20 ≤ c.toNat
  | [] => List.forall_mem_nil _
  | [(name, node)] => by
      rw [Node.jsonEntries]
      intro c member
      rcases List.mem_append.mp member with inside | behind
      · exact visible_quoted name c inside
      · rcases List.mem_cons.mp behind with rfl | value
        · decide
        · exact visible_json node c value
  | (name, node) :: next :: rest => by
      rw [Node.jsonEntries, List.append_assoc, List.cons_append]
      intro c member
      rcases List.mem_append.mp member with inside | behind
      · exact visible_quoted name c inside
      · rcases List.mem_cons.mp behind with rfl | further
        · decide
        · rcases List.mem_append.mp further with value | later
          · exact visible_json node c value
          · rcases List.mem_cons.mp later with rfl | others
            · decide
            · exact visible_jsonEntries (next :: rest) c others

end

/-- A document that is a table in flow style is the only one. -/
theorem Yaml.Tree.documents?_of_takes {tokens : List Yaml.Token} {tree : Yaml.Tree}
    (begins : ∃ more, tokens = .flowMapping :: more)
    (takes : Takes (Reader.node (3 * tokens.length + 3) true false) tokens tree []) :
    documents? (2 * tokens.length + 2) true tokens = some [tree] := by
  rcases begins with ⟨more, rfl⟩
  have document : document? (3 * (Token.flowMapping :: more).length + 3)
      (.flowMapping :: more) = some (tree, []) :=
    congrArg (Option.map fun read : Tree × Reading => (read.1, read.2.tokens)) (takes [])
  have onward : documents? (2 * (Token.flowMapping :: more).length + 1) false [] = some [] := rfl
  rw [documents?]
  · simp only [Reader.directives, Option.bind_eq_bind, Option.bind_some, document, onward]
    rfl
  all_goals
    intros
    rename_i impossible
    cases impossible

/-- The YAML reader gives a table back. -/
theorem ofYaml?_json {entries : List (String × Node)} {room : Nat}
    (written : (Node.table entries).Written room) (shallow : room ≤ Yaml.Scan.flowLimit) :
    ofYaml? (Node.table entries).json = some (.table entries) := by
  have tokens := Yaml.ofText?_json written shallow
  have reads : Yaml.Tree.Takes (Yaml.Tree.Reader.node
      (3 * (Yaml.nodeTokens (.table entries)).length + 3) true false)
      (Yaml.nodeTokens (.table entries) ++ []) (Yaml.nodeTree (.table entries)) [] :=
    Yaml.Tree.takes_nodeTokens _ written (by omega)
  rw [List.append_nil] at reads
  have documents : Yaml.Tree.documents? (2 * (Yaml.nodeTokens (.table entries)).length + 2) true
      (Yaml.nodeTokens (.table entries)) = some [Yaml.nodeTree (.table entries)] :=
    Yaml.Tree.documents?_of_takes ⟨_, rfl⟩ reads
  rw [ofYaml?, Yaml.effectiveText_of_visible (visible_json _), tokens]
  simp only [Option.bind_eq_bind, Option.bind_some, documents]
  exact Yaml.Tree.node?_nodeTree _ written

end Configuration

end FilterQuery
