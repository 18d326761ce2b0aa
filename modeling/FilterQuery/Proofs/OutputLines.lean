import FilterQuery.Proofs.CanonicalText
import FilterQuery.Proofs.RunLaw

namespace FilterQuery

open Text

/-!
# One line for each accepted input

Whoever reads the standard output line by line relies on an accepted input having exactly one
line there.  The line end that a run writes behind a rendering is one; the rendering itself has
to have none.  In JSON on one line that is so for every document: strings are escaped, and
whatever stands around them is plain.  In query text nothing is escaped.  There the fields and
literals are words, as they were read from a query, and no line break belongs to a word.

A schema may declare a field with a line break in its name.  No query can ask for it.
-/

/-- A text without line breaks. -/
def OneLine (text : List Char) : Prop :=
  ∀ c ∈ text, c ≠ '\n' ∧ c ≠ '\r'

namespace OneLine

variable {text further : List Char} {c : Char}

theorem append (first : OneLine text) (second : OneLine further) : OneLine (text ++ further) :=
  List.forall_mem_append.mpr ⟨first, second⟩

theorem nil : OneLine [] := by
  rintro c ⟨⟩

theorem cons (unbroken : c ≠ '\n' ∧ c ≠ '\r') (others : OneLine text) : OneLine (c :: text) :=
  List.forall_mem_cons.mpr ⟨unbroken, others⟩

theorem of_isPlain (plain : ∀ c ∈ text, isPlain c = true) : OneLine text := by
  intro c member
  have isPlain := plain c member
  constructor <;> rintro rfl <;> cases isPlain

theorem of_all (plain : text.all isPlain = true) : OneLine text :=
  of_isPlain (List.all_eq_true.mp plain)

theorem of_isWord {word : String} (isWord : IsWord word) : OneLine word.toList := by
  intro c member
  have inWord := isWord.2 c member
  constructor <;> rintro rfl <;> cases inWord

end OneLine

/-- The rendering of an input, if it is accepted. -/
def rendering? (format : OutputNotation) (pretty : Bool) (schema : Schema) (input : Input) :
    Option String :=
  match Filter.ofInput schema input.text with
  | .ok filter => some (filter.render format pretty)
  | .error _ => none

/-! ## Documents on one line -/

theorem isPlain_digitChar {value : Nat} (digit : value < 16) :
    isPlain (Nat.digitChar value) = true := by
  revert value
  decide

theorem Decimal.oneLine_positional (decimal : Decimal) : OneLine decimal.positional := by
  rcases decimal.exists_positional_cons with ⟨first, rest, text, digit, others⟩
  rw [text]
  apply OneLine.of_isPlain
  refine List.forall_mem_cons.mpr ⟨isPlain_of_isDigit digit, ?_⟩
  intro c member
  rcases others c member with digit | rfl
  · exact isPlain_of_isDigit digit
  · rfl

theorem oneLine_integerNumeral (value : Int) : OneLine (integerNumeral value) :=
  .of_isPlain (numeric_integerNumeral value).2

theorem oneLine_numeral (value : Nat) : OneLine (numeral value) :=
  .of_isPlain fun _ member => isPlain_of_isDigit (isDigit_of_mem_numeral member)

theorem Decimal.oneLine_scientific (plus : Bool) (decimal : Decimal) :
    OneLine (decimal.scientific plus) := by
  have digits := oneLine_numeral decimal.coefficient
  have power := oneLine_integerNumeral decimal.leadingPower
  rw [scientific]
  refine (OneLine.append ?_ (.cons (by decide) ?_)).append power
  · split
    next first second rest same =>
      rw [same] at digits
      rcases List.forall_mem_cons.mp digits with ⟨begins, others⟩
      exact List.forall_mem_cons.mpr ⟨begins, OneLine.cons (by decide) others⟩
    next => exact digits
  · split
    next => exact .cons (by decide) .nil
    next => exact .nil

theorem FloatNotation.oneLine_magnitude (style : FloatNotation) (decimal : Decimal) :
    OneLine (style.magnitude decimal) := by
  have positional := decimal.oneLine_positional
  rw [magnitude, plain]
  split
  · split
    · exact positional.append (.cons (by decide) (.cons (by decide) .nil))
    · exact positional
  · exact decimal.oneLine_scientific style.plus

theorem FloatNotation.oneLine_of_write? {style : FloatNotation}
    {number : Binary BinaryFormat.double} {text : List Char}
    (written : style.write? number = some text) : OneLine text := by
  cases number with
  | finite negative ordinal =>
      have digits := style.oneLine_magnitude (BinaryFormat.double.shortest style.tie ordinal)
      cases negative with
      | true =>
          cases written
          exact .cons (by decide) digits
      | false =>
          cases written
          exact digits
  | infinite => cases written
  | nan => cases written

namespace Json

theorem oneLine_escapeChar (c : Char) : OneLine (escapeChar c) := by
  unfold escapeChar hexPair
  split_ifs with _ _ _ _ isFeed _ isReturn
  · exact .of_all (by decide)
  · exact .of_all (by decide)
  · exact .of_all (by decide)
  · exact .of_all (by decide)
  · exact .of_all (by decide)
  · exact .of_all (by decide)
  · exact .of_all (by decide)
  · apply OneLine.append (.of_all (by decide))
    apply OneLine.of_isPlain
    simp only [List.forall_mem_cons]
    exact ⟨isPlain_digitChar (by omega), isPlain_digitChar (by omega), List.forall_mem_nil _⟩
  · exact List.forall_mem_singleton.mpr ⟨isFeed, isReturn⟩

theorem oneLine_quoted (text : String) : OneLine (quoted text) := by
  have escaped : OneLine (text.toList.flatMap escapeChar) := by
    intro c member
    rcases List.mem_flatMap.mp member with ⟨source, _, inside⟩
    exact oneLine_escapeChar source c inside
  exact .cons (by decide) (escaped.append (.cons (by decide) .nil))

theorem oneLine_scalar (document : Document) : OneLine (scalar document) := by
  have null : OneLine "null".toList := .of_all (by decide)
  cases document with
  | integer value => exact oneLine_integerNumeral value
  | number value =>
      rw [scalar]
      cases written : floatNotation.write? value with
      | none => exact null
      | some text => exact FloatNotation.oneLine_of_write? written
  | string text => exact oneLine_quoted text
  | null | array | object => exact null

mutual

theorem oneLine_compact : (document : Document) → OneLine (compact document)
  | .array items => .cons (by decide) ((oneLine_compactItems items).append (.cons (by decide) .nil))
  | .object members => .cons (by decide) ((oneLine_compactMembers members).append (.cons (by decide) .nil))
  | .null => oneLine_scalar .null
  | .integer value => oneLine_scalar (.integer value)
  | .number value => oneLine_scalar (.number value)
  | .string text => oneLine_scalar (.string text)

theorem oneLine_compactItems : (items : List Document) → OneLine (compactItems items)
  | [] => .nil
  | [item] => oneLine_compact item
  | item :: next :: rest =>
      (oneLine_compact item).append (.cons (by decide) (oneLine_compactItems (next :: rest)))

theorem oneLine_compactMembers :
    (members : List (String × Document)) → OneLine (compactMembers members)
  | [] => .nil
  | [(key, value)] => (oneLine_quoted key).append (.cons (by decide) (oneLine_compact value))
  | (key, value) :: next :: rest =>
      ((oneLine_quoted key).append (.cons (by decide) (oneLine_compact value))).append
        (.cons (by decide) (oneLine_compactMembers (next :: rest)))

end

end Json

/-! ## Query text on one line -/

namespace Condition

variable {schema : Schema} {condition : Condition}

/-- What stands between the leaves brings no line break. -/
theorem oneLine_text (writable : condition.EveryLeaf (Writable schema)) :
    OneLine condition.text.toList := by
  induction condition with
  | comparison field comparator value =>
      rw [toList_text_comparison]
      apply (OneLine.of_isWord writable.fieldWord).append
      apply OneLine.cons (by decide)
      apply (OneLine.of_isWord comparator.isWord_token).append
      exact .cons (by decide) (.of_isWord writable.literalWord)
  | combination combinator left right ihLeft ihRight =>
      have close : OneLine [')'] := .cons (by decide) .nil
      have first : OneLine left.leftText := by
        cases left with
        | comparison _ _ _ => exact .cons (by decide) ((ihLeft writable.1).append close)
        | combination _ _ _ => exact ihLeft writable.1
      rw [toList_text_combination, joinedText]
      apply first.append
      apply OneLine.cons (by decide)
      apply (OneLine.of_isWord combinator.isWord_token).append
      apply OneLine.cons (by decide)
      exact .cons (by decide) ((ihRight writable.2).append close)

end Condition

namespace Filter

variable {schema : Schema} {input : String} {filter : Filter} {format : OutputNotation}
  {pretty : Bool}

/-- The query text of an accepted input has one line: its words are words of the input. -/
theorem oneLine_text (accepted : ofInput schema input = .ok filter) : OneLine filter.text.toList := by
  rw [ofInput] at accepted
  split at accepted
  · cases accepted
    exact .nil
  · rcases map_eq_ok_iff.mp accepted with ⟨condition, compiled, rfl⟩
    have writable := (derives_of_compile compiled).2.2.everyLeaf_writable
      fun _ member => Token.isWord_of_mem_ofText member
    exact Condition.oneLine_text writable

/-- An accepted input is rendered on one line in the notations that are meant to have one. -/
theorem oneLine_render (accepted : ofInput schema input = .ok filter)
    (single : format = .query ∨ format = .json ∧ pretty = false) :
    OneLine (filter.render format pretty).toList := by
  rcases single with rfl | ⟨rfl, rfl⟩
  · exact oneLine_text accepted
  · rw [render, if_neg Bool.false_ne_true, Document.toJson, String.toList_ofList]
    exact Json.oneLine_compact filter.document

end Filter

/-! ## Lines of the output -/

/-- Texts without line breaks, each with one behind it, are the lines of what they make
together.  Behind the last line end there is nothing. -/
theorem splitOn_join {texts : List String} (single : ∀ text ∈ texts, OneLine text.toList) :
    (String.join (texts.map (· ++ "\n"))).toList.splitOn '\n' =
      texts.map String.toList ++ [[]] := by
  induction texts with
  | nil => rfl
  | cons text others ih =>
      rcases List.forall_mem_cons.mp single with ⟨first, later⟩
      have unbroken : '\n' ∉ text.toList := fun member => (first _ member).1 rfl
      have lineEnd : "\n".toList = ['\n'] := rfl
      rw [List.map_cons, String.join_cons, String.toList_append, String.toList_append, lineEnd,
        List.append_assoc, List.singleton_append,
        List.splitOn_append_cons_self_of_not_mem unbroken, ih later]
      rfl

section

variable {format : OutputNotation} {pretty : Bool} {schema : Schema}

/-- What the inputs add to the output is the rendering of each accepted one, with a line end
behind it. -/
theorem join_renderedLine (inputs : List Input) :
    String.join (inputs.map fun input => renderedLine schema format pretty input.text) =
      String.join ((inputs.filterMap (rendering? format pretty schema)).map (· ++ "\n")) := by
  induction inputs with
  | nil => rfl
  | cons input others ih =>
      rw [List.map_cons, String.join_cons, ih, renderedLine, List.filterMap_cons, rendering?]
      cases Filter.ofInput schema input.text with
      | ok filter => rw [List.map_cons, String.join_cons]
      | error rejection => rw [String.empty_append]

/-- There are as many renderings as there are accepted inputs. -/
theorem length_renderings (schema : Schema) (inputs : List Input) :
    (inputs.filterMap (rendering? format pretty schema)).length =
      inputs.countP fun input => !rejects schema input.text := by
  rw [List.length_filterMap_eq_countP]
  congr 1
  funext input
  rw [rendering?, rejects]
  cases Filter.ofInput schema input.text <;> rfl

theorem oneLine_of_mem_renderings (schema : Schema) (inputs : List Input)
    (single : format = .query ∨ format = .json ∧ pretty = false) :
    ∀ line ∈ inputs.filterMap (rendering? format pretty schema), OneLine line.toList := by
  intro line member
  rcases List.mem_filterMap.mp member with ⟨input, _, rendered⟩
  rw [rendering?] at rendered
  cases accepted : Filter.ofInput schema input.text with
  | ok filter =>
      rw [accepted] at rendered
      cases rendered
      exact Filter.oneLine_render accepted single
  | error rejection =>
      rw [accepted] at rendered
      cases rendered

end

/-- In query text, and in JSON on one line, the output has as many lines as there are inputs
that are accepted.  Each line is the rendering of its input, and no rendering has a line break
of its own.  Rejected inputs between them leave no trace. -/
theorem reportInputs_lines (options : Options) (settings : Settings) (schema : Schema)
    (inputs : List Input)
    (single : formatOf options settings = .query ∨
      formatOf options settings = .json ∧ settings.pretty = false) :
    let lines := inputs.filterMap (rendering? (formatOf options settings) settings.pretty schema)
    let output := (reportInputs options settings schema inputs).output
    output.toList.splitOn '\n' = lines.map String.toList ++ [[]] ∧
      lines.length = inputs.countP (fun input => !rejects schema input.text) ∧
      (∀ line ∈ lines, '\n' ∉ line.toList ∧ '\r' ∉ line.toList) ∧
      ∀ load surroundings, Ready load options surroundings settings schema inputs →
        (∃ report, run options surroundings load = .ok report ∧ report.output = output) ∧
          ∀ arguments, CommandLine.read arguments = .ok (.run options) →
            (program arguments surroundings load).output = output := by
  intro lines output
  have oneLine := oneLine_of_mem_renderings schema inputs single
  refine ⟨?_, ?_, fun line member => ⟨?_, ?_⟩, fun load surroundings ready => ⟨?_, ?_⟩⟩
  · have joined : output = String.join (lines.map (· ++ "\n")) := by
      simp only [output, lines, (accounts_reportInputs options settings schema inputs).output,
        join_renderedLine]
    rw [joined]
    exact splitOn_join oneLine
  · exact length_renderings schema inputs
  · intro broken
    exact (oneLine line member _ broken).1 rfl
  · intro broken
    exact (oneLine line member _ broken).2 rfl
  · exact ⟨_, run_of_ready ready, rfl⟩
  · intro arguments asked
    rw [program_of_ready asked ready]
    exact Exit.output_ofReport _

/-- A field with a line break in its name cannot be asked for, and the query that tries to is
rejected.  The empty input behind it has an empty line in query text, and an empty object in
JSON. -/
theorem reportInputs_lines_of_broken_field :
    (reportInputs ⟨[], none, none, none, some .query, none, false, false⟩ Settings.default
      (.ofFields "notes" [("a", .text), ("a\nb", .text)])
      [⟨"query 1", "a eq x"⟩, ⟨"query 2", "a\nb eq x"⟩, ⟨"query 3", ""⟩]).output.toList.splitOn
        '\n' = ["a eq x".toList, [], []] ∧
    (reportInputs ⟨[], none, none, none, none, none, false, false⟩
      ⟨none, some .json, false, Dictionary.empty⟩
      (.ofFields "notes" [("a", .text), ("a\nb", .text)])
      [⟨"query 1", "a eq x"⟩, ⟨"query 2", "a\nb eq x"⟩, ⟨"query 3", ""⟩]).output.toList.splitOn
        '\n' =
      ["\x7b\"a\":\x7b\"$eq\":\"x\"\x7d\x7d".toList, "\x7b\x7d".toList, []] := by
  have lines := (reportInputs_lines ⟨[], none, none, none, some .query, none, false, false⟩
    Settings.default (.ofFields "notes" [("a", .text), ("a\nb", .text)])
    [⟨"query 1", "a eq x"⟩, ⟨"query 2", "a\nb eq x"⟩, ⟨"query 3", ""⟩] (.inl rfl)).1
  have objects := (reportInputs_lines ⟨[], none, none, none, none, none, false, false⟩
    ⟨none, some .json, false, Dictionary.empty⟩
    (.ofFields "notes" [("a", .text), ("a\nb", .text)])
    [⟨"query 1", "a eq x"⟩, ⟨"query 2", "a\nb eq x"⟩, ⟨"query 3", ""⟩] (.inr ⟨rfl, rfl⟩)).1
  constructor
  · rw [lines]
    decide +kernel
  · rw [objects]
    decide +kernel

end FilterQuery
