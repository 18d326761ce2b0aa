import Mathlib.Tactic.SplitIfs
import FilterQuery.Configuration.Json
import FilterQuery.Configuration.Yaml.Inline
import FilterQuery.Document.Json

namespace FilterQuery

open Text

/-!
# The text of a configuration, and reading it from JSON

What a reader of configuration files makes of a text is known where the text was written for it.
`Node.json` writes a node on one line, with the strings as documents have them.  It is JSON, and it
is YAML as well, so both readers have to give the node back.

That is so for nodes of words and tables, whatever is in their strings.  Two names of a table have
to be different, and tables may be nested only so far, since neither reader takes more.  `Written`
counts the room that is left for nesting.

In a string each character is escaped on its own.  `EscapedAs` has the three forms of that with
what either reader needs to know of them.  The JSON reader is then followed along the node.  Its
fuel is compared with the length of what is read.
-/

namespace Configuration

/-! ## The text of a node -/

namespace Node

mutual

/-- The text of a node on one line. -/
def json : Node → List Char
  | boolean true => "true".toList
  | boolean false => "false".toList
  | text content => Json.quoted content
  | table entries => '\x7b' :: jsonEntries entries ++ ['\x7d']
  | _ => "null".toList

/-- The entries of a table with commas between them. -/
def jsonEntries : List (String × Node) → List Char
  | [] => []
  | [(name, node)] => Json.quoted name ++ ':' :: node.json
  | (name, node) :: next :: rest =>
    Json.quoted name ++ ':' :: node.json ++ ',' :: jsonEntries (next :: rest)

end

mutual

/-- Nothing of a node is lost in its text, and its tables are nested to a depth at most. -/
def Written (room : Nat) : Node → Prop
  | null | boolean _ | text _ => True
  | table entries => ∃ inner, room = inner + 1 ∧ WrittenEntries inner entries
  | integer _ | real _ | list _ => False

/-- The same for entries with different names. -/
def WrittenEntries (room : Nat) : List (String × Node) → Prop
  | [] => True
  | (name, node) :: rest =>
    (∀ other ∈ rest, other.1 ≠ name) ∧ node.Written room ∧ WrittenEntries room rest

end

/-- A name that no entry has is written behind all of them. -/
theorem place_of_forall_ne {name : String} {node : Node} {entries : List (String × Node)}
    (fresh : ∀ entry ∈ entries, entry.1 ≠ name) :
    place name node entries = entries ++ [(name, node)] := by
  induction entries with
  | nil => rfl
  | cons entry rest ih =>
      rcases List.forall_mem_cons.mp fresh with ⟨different, others⟩
      rw [place, if_neg different.symm, ih others, List.cons_append]

theorem find?_of_forall_ne {name : String} {entries : List (String × Node)}
    (fresh : ∀ entry ∈ entries, entry.1 ≠ name) : find? name entries = none := by
  induction entries with
  | nil => rfl
  | cons entry rest ih =>
      rcases List.forall_mem_cons.mp fresh with ⟨different, others⟩
      rw [find?, if_neg different.symm, ih others]

/-- No entry has the name of one that is already there. -/
def Apart (sofar entries : List (String × Node)) : Prop :=
  ∀ entry ∈ entries, ∀ other ∈ sofar, other.1 ≠ entry.1

namespace Apart

variable {name : String} {node : Node} {sofar rest : List (String × Node)}

theorem nil (entries : List (String × Node)) : Apart [] entries :=
  fun _ _ => List.forall_mem_nil _

theorem first (apart : Apart sofar ((name, node) :: rest)) : ∀ other ∈ sofar, other.1 ≠ name :=
  apart _ List.mem_cons_self

/-- What is behind an entry stays apart once that entry is there. -/
theorem append (apart : Apart sofar ((name, node) :: rest))
    (distinct : ∀ other ∈ rest, other.1 ≠ name) : Apart (sofar ++ [(name, node)]) rest := by
  intro entry member other before
  rcases List.mem_append.mp before with early | last
  · exact apart entry (List.mem_cons_of_mem _ member) other early
  · rw [List.mem_singleton.mp last]
    exact (distinct entry member).symm

end Apart

end Node

/-! ## Strings -/

/-- How a character is written in a string: by a letter that stands for it, by its code, or as it
is.  In either notation a letter stands for the same character. -/
inductive EscapedAs (c : Char) : List Char → Prop
  | letter (letter : Char) (json : Json.letterEscape? letter = some c)
    (yaml : Yaml.letterEscape? letter = some c) (plain : letter ≠ 'u')
    (width : Yaml.codeWidth? letter = none) (visible : 0x20 ≤ letter.toNat) :
    EscapedAs c ['\\', letter]
  | code (high low : Char) (reads : naturalIn? 16 ['0', '0', high, low] = some c.toNat)
    (visible : 0x20 ≤ high.toNat ∧ 0x20 ≤ low.toNat) :
    EscapedAs c ['\\', 'u', '0', '0', high, low]
  | plain (unquoted : c ≠ '"') (unescaped : c ≠ '\\') (visible : 0x20 ≤ c.toNat) :
    EscapedAs c [c]

theorem escapedAs_escapeChar (c : Char) : EscapedAs c (FilterQuery.Json.escapeChar c) := by
  have codes : ∀ code < 0x20,
      naturalIn? 16 ('0' :: '0' :: FilterQuery.Json.hexPair code) = some code ∧
        0x20 ≤ (Nat.digitChar (code / 16 % 16)).toNat ∧
        0x20 ≤ (Nat.digitChar (code % 16)).toNat := by
    decide
  unfold FilterQuery.Json.escapeChar
  split_ifs with quote backslash backspace tab feed form carriage control
  · subst quote
    exact .letter '"' rfl rfl (by decide) rfl (by decide)
  · subst backslash
    exact .letter '\\' rfl rfl (by decide) rfl (by decide)
  · subst backspace
    exact .letter 'b' rfl rfl (by decide) rfl (by decide)
  · subst tab
    exact .letter 't' rfl rfl (by decide) rfl (by decide)
  · subst feed
    exact .letter 'n' rfl rfl (by decide) rfl (by decide)
  · subst form
    exact .letter 'f' rfl rfl (by decide) rfl (by decide)
  · subst carriage
    exact .letter 'r' rfl rfl (by decide) rfl (by decide)
  · exact .code _ _ (codes _ control).1 (codes _ control).2
  · exact .plain quote backslash (Nat.not_lt.mp control)

/-- No control character stands in the text of a string. -/
theorem EscapedAs.visible {c : Char} {text : List Char} (escaped : EscapedAs c text) :
    ∀ written ∈ text, 0x20 ≤ written.toNat := by
  cases escaped with
  | letter letter json yaml plain width visible =>
      exact List.forall_mem_cons.mpr ⟨by decide, List.forall_mem_singleton.mpr visible⟩
  | code high low reads visible =>
      simp only [List.forall_mem_cons]
      exact ⟨by decide, by decide, by decide, by decide, visible.1, visible.2,
        List.forall_mem_nil _⟩
  | plain unquoted unescaped visible => exact List.forall_mem_singleton.mpr visible

theorem visible_quoted (content : String) :
    ∀ written ∈ FilterQuery.Json.quoted content, 0x20 ≤ written.toNat := by
  rw [FilterQuery.Json.quoted]
  refine List.forall_mem_cons.mpr ⟨by decide, ?_⟩
  intro written member
  rcases List.mem_append.mp member with inside | last
  · rcases List.mem_flatMap.mp inside with ⟨c, _, escaped⟩
    exact (escapedAs_escapeChar c).visible written escaped
  · rw [List.mem_singleton.mp last]
    decide

namespace Json

theorem character?_toNat (c : Char) : character? c.toNat = some c := by
  have valid : c.toNat.isValidChar := c.valid
  rw [character?, if_pos valid, Char.ofNat_toNat]

/-- A character is read back, and then what follows it. -/
theorem stringBody?_escaped {c : Char} {text rest : List Char} (escaped : EscapedAs c text) :
    stringBody? (text ++ rest) =
      (stringBody? rest).map fun (more, after) => (c :: more, after) := by
  cases escaped with
  | letter letter json yaml plain width visible =>
      rw [List.cons_append, List.cons_append, List.nil_append, stringBody?]
      · rw [json]
        cases stringBody? rest <;> rfl
      · intros
        simp_all
      · intros
        simp_all
  | code high low reads visible =>
      simp only [List.cons_append, List.nil_append]
      -- Two codes in a row are looked at together, as they could be the halves of a pair.
      by_cases another : ∃ e f g h more, rest = '\\' :: 'u' :: e :: f :: g :: h :: more
      · rcases another with ⟨e, f, g, h, more, rfl⟩
        rw [stringBody?, reads]
        simp only [Option.bind_eq_bind, Option.bind_some, character?_toNat]
        cases stringBody? ('\\' :: 'u' :: e :: f :: g :: h :: more) <;> rfl
      · rw [stringBody?, reads]
        · simp only [Option.bind_eq_bind, Option.bind_some, character?_toNat]
          cases stringBody? rest <;> rfl
        · intro e f g h more same
          exact another ⟨e, f, g, h, more, same⟩
  | plain unquoted unescaped visible =>
      rw [List.cons_append, List.nil_append, stringBody?]
      · rw [if_neg (not_or.mpr ⟨unescaped, Nat.not_lt.mpr visible⟩)]
        cases stringBody? rest <;> rfl
      all_goals
        intros
        simp_all

/-- A string is read up to its closing quotation mark. -/
theorem stringBody?_quoted (content rest : List Char) :
    stringBody? (content.flatMap FilterQuery.Json.escapeChar ++ '"' :: rest) =
      some (content, rest) := by
  induction content with
  | nil => rfl
  | cons c content ih =>
      rw [List.flatMap_cons, List.append_assoc, stringBody?_escaped (escapedAs_escapeChar c), ih]
      rfl

/-! ## Nodes -/

section Member

variable {fuel depth : Nat} {name : String} {node : Node} {sofar : List (String × Node)}
  {rest : List Char}

theorem skipBlanks_quoted (content : String) (rest : List Char) :
    skipBlanks (FilterQuery.Json.quoted content ++ rest) =
      '"' :: (content.toList.flatMap FilterQuery.Json.escapeChar ++ '"' :: rest) := by
  simp [FilterQuery.Json.quoted, skipBlanks]

/-- A member with another one behind it. -/
theorem members?_member (fresh : ∀ other ∈ sofar, other.1 ≠ name)
    (reads : value? fuel depth (node.json ++ ',' :: rest) = some (node, ',' :: rest)) :
    members? (fuel + 1) depth sofar
        (FilterQuery.Json.quoted name ++ ':' :: (node.json ++ ',' :: rest)) =
      members? fuel depth (sofar ++ [(name, node)]) rest := by
  have colon (text : List Char) : skipBlanks (':' :: text) = ':' :: text := rfl
  have behind : skipBlanks (',' :: rest) = ',' :: rest := rfl
  rw [members?, skipBlanks_quoted]
  simp only [stringBody?_quoted, Option.bind_eq_bind, Option.bind_some, colon, reads, behind,
    String.ofList_toList, Node.place_of_forall_ne fresh]

/-- The last member. -/
theorem members?_last (fresh : ∀ other ∈ sofar, other.1 ≠ name)
    (reads : value? fuel depth (node.json ++ '\x7d' :: rest) = some (node, '\x7d' :: rest)) :
    members? (fuel + 1) depth sofar
        (FilterQuery.Json.quoted name ++ ':' :: (node.json ++ '\x7d' :: rest)) =
      some (sofar ++ [(name, node)], rest) := by
  have colon (text : List Char) : skipBlanks (':' :: text) = ':' :: text := rfl
  have behind : skipBlanks ('\x7d' :: rest) = '\x7d' :: rest := rfl
  rw [members?, skipBlanks_quoted]
  simp only [stringBody?_quoted, Option.bind_eq_bind, Option.bind_some, colon, reads, behind,
    String.ofList_toList, Node.place_of_forall_ne fresh]

end Member

mutual

/-- The text of a node is read back, whatever stands behind it. -/
theorem value?_json : (node : Node) → ∀ {room fuel depth : Nat} {rest : List Char},
    node.Written room → depth + room < nestingLimit → node.json.length < fuel →
      value? fuel depth (node.json ++ rest) = some (node, rest)
  | .null, _, fuel + 1, _, _, _, _, _ => rfl
  | .boolean true, _, fuel + 1, _, _, _, _, _ => rfl
  | .boolean false, _, fuel + 1, _, _, _, _, _ => rfl
  | .text content, _, fuel + 1, depth, rest, _, _, _ => by
      rw [value?, Node.json, skipBlanks_quoted]
      simp only [stringBody?_quoted, Option.map_some, String.ofList_toList]
  | .table [], _, fuel + 1, depth, rest, ⟨inner, nested, _⟩, shallow, _ => by
      have start : skipBlanks (Node.json (.table []) ++ rest) = '\x7b' :: '\x7d' :: rest := rfl
      have further : skipBlanks ('\x7d' :: rest) = '\x7d' :: rest := rfl
      rw [value?, start]
      simp only [further]
      rw [if_neg (by omega)]
  | .table (entry :: others), _, fuel + 1, depth, rest, ⟨inner, nested, written⟩, shallow,
      enough => by
      have start : skipBlanks (Node.json (.table (entry :: others)) ++ rest) =
          '\x7b' :: (Node.jsonEntries (entry :: others) ++ '\x7d' :: rest) := by
        simp [Node.json, skipBlanks]
      have text : (Node.json (.table (entry :: others))).length =
          (Node.jsonEntries (entry :: others)).length + 2 := by
        simp [Node.json]
      have reads : members? fuel (depth + 1) []
          (Node.jsonEntries (entry :: others) ++ '\x7d' :: rest) =
            some ([] ++ entry :: others, rest) :=
        members?_jsonEntries (entry :: others) (List.cons_ne_nil _ _) written
          (.nil _) (by omega) (by omega)
      have quote : ∃ more, skipBlanks (Node.jsonEntries (entry :: others) ++ '\x7d' :: rest) =
          '"' :: more := by
        cases others <;> exact ⟨_, rfl⟩
      rcases quote with ⟨more, quote⟩
      rw [value?, start]
      simp only [quote, reads, List.nil_append, Option.map_some]
      exact if_neg (by omega)

/-- So are entries with a closing brace behind them. -/
theorem members?_jsonEntries : (entries : List (String × Node)) →
    ∀ {room fuel depth : Nat} {rest : List Char} {sofar : List (String × Node)}, entries ≠ [] →
      Node.WrittenEntries room entries → Node.Apart sofar entries →
      depth + room < nestingLimit → (Node.jsonEntries entries).length < fuel →
        members? fuel depth sofar (Node.jsonEntries entries ++ '\x7d' :: rest) =
          some (sofar ++ entries, rest)
  | [(name, node)], _, fuel + 1, depth, rest, sofar, _, ⟨_, written, _⟩, apart, shallow,
      enough => by
      rw [Node.jsonEntries, List.length_append, List.length_cons] at enough
      have reads : value? fuel depth (node.json ++ '\x7d' :: rest) = some (node, '\x7d' :: rest) :=
        value?_json node written shallow (by omega)
      rw [Node.jsonEntries, List.append_assoc, List.cons_append, members?_last apart.first reads]
  | (name, node) :: next :: others, _, fuel + 1, depth, rest, sofar, _,
      ⟨distinct, written, further⟩, apart, shallow, enough => by
      rw [Node.jsonEntries, List.length_append, List.length_append, List.length_cons,
        List.length_cons] at enough
      have reads : value? fuel depth
          (node.json ++ ',' :: (Node.jsonEntries (next :: others) ++ '\x7d' :: rest)) =
            some (node, ',' :: (Node.jsonEntries (next :: others) ++ '\x7d' :: rest)) :=
        value?_json node written shallow (by omega)
      have readsOn : members? fuel depth (sofar ++ [(name, node)])
          (Node.jsonEntries (next :: others) ++ '\x7d' :: rest) =
            some ((sofar ++ [(name, node)]) ++ next :: others, rest) :=
        members?_jsonEntries (next :: others) (List.cons_ne_nil _ _) further
          (apart.append distinct) shallow
          (by omega)
      rw [Node.jsonEntries]
      simp only [List.append_assoc, List.cons_append]
      rw [members?_member apart.first reads, readsOn, List.append_assoc, List.singleton_append]

end

end Json

/-- The JSON reader gives a node back. -/
theorem ofJson?_json {node : Node} {room : Nat} (written : node.Written room)
    (shallow : room < Json.nestingLimit) : ofJson? node.json = some node := by
  have reads := @Json.value?_json node room (2 * node.json.length + 2) 0 [] written
    (by omega) (by omega)
  rw [List.append_nil] at reads
  rw [ofJson?, reads]
  rfl

end Configuration

end FilterQuery
