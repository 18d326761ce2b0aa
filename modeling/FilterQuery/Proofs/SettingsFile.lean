import FilterQuery.Proofs.Encoding
import FilterQuery.Proofs.FlowTree
import FilterQuery.Proofs.LastWrite
import FilterQuery.Proofs.RunLaw

namespace FilterQuery

open Text

/-!
# The settings in a file

`Node.settings?` looks at four entries of a table and at no other.  `Node.Misfits` says of an entry
that it is not of the sort that its setting has, and one such entry is what makes a table unusable.
A file can be unusable before it comes to that: it may not be there, or not be a table.  Then the
run stops, and its output is empty.

All this is about the loader of YAML and JSON, for which a file in another notation is none.  What
follows for a run from a loader that gives no settings is said for any loader.

A file that was written for some settings gives these settings, whatever they are.  `Settings.text`
is such a file.  It is JSON and YAML at the same time, so either extension will do, and what a run
does with the file is what it does with the settings.
-/

namespace Dictionary

variable {α : Type}

/-- A name behind all others is written at the end. -/
theorem place_of_forall_before {name : String} {value : α} {entries : List (String × α)}
    (last : ∀ entry ∈ entries, Before entry.1 name) :
    place name value entries = entries ++ [(name, value)] := by
  induction entries with
  | nil => rfl
  | cons entry rest ih =>
      rcases List.forall_mem_cons.mp last with ⟨earlier, others⟩
      have different : name ≠ entry.1 := by
        rintro rfl
        exact Before.irrefl _ earlier
      have notEarlier : ¬Before name entry.1 := fun later =>
        Before.irrefl _ (later.trans earlier)
      rw [place, if_neg different, if_neg notEarlier, ih others, List.cons_append]

theorem entries_foldl_insert {dictionary : Dictionary α} {pairs : List (String × α)}
    (ordered : (dictionary.entries ++ pairs).Pairwise fun first second => Before first.1 second.1) :
    (pairs.foldl (fun dictionary pair => dictionary.insert pair.1 pair.2) dictionary).entries =
      dictionary.entries ++ pairs := by
  induction pairs generalizing dictionary with
  | nil => rw [List.append_nil, List.foldl_nil]
  | cons pair rest ih =>
      have last : ∀ entry ∈ dictionary.entries, Before entry.1 pair.1 := fun entry member =>
        (List.pairwise_append.mp ordered).2.2 entry member pair List.mem_cons_self
      have placed : (dictionary.insert pair.1 pair.2).entries = dictionary.entries ++ [pair] :=
        place_of_forall_before last
      rw [List.append_cons, ← placed] at ordered
      rw [List.foldl_cons, ih ordered, placed, List.append_assoc, List.singleton_append]

/-- A dictionary is made of its entries. -/
theorem ofList_entries (dictionary : Dictionary α) : ofList dictionary.entries = dictionary := by
  have entries : (ofList dictionary.entries).entries = [] ++ dictionary.entries :=
    entries_foldl_insert dictionary.ordered
  rw [List.nil_append] at entries
  rcases dictionary with ⟨held, ordered⟩
  rcases made : ofList held with ⟨others, orderedOthers⟩
  rw [made] at entries
  cases entries
  rfl

end Dictionary

namespace Configuration

namespace Node

/-- The four settings of a table, each with the entry that it is read from. -/
theorem settings?_eq_some_iff {entries : List (String × Node)} {settings : Settings} :
    settings? entries = some settings ↔
      optional? name? (find? "default_schema" entries) = some settings.defaultSchema ∧
      optional? (fun node => node.choice?.bind OutputNotation.ofName?) (find? "format" entries) =
        some settings.format ∧
      withDefault? switch? true (find? "pretty" entries) = some settings.pretty ∧
      withDefault? (dictionary? (dictionary? kind?)) Dictionary.empty (find? "schemas" entries) =
        some settings.schemas := by
  rw [settings?]
  simp only [Option.bind_eq_bind, Option.bind_eq_some_iff, Option.some.injEq]
  constructor
  · rintro ⟨_, schema, _, format, _, pretty, _, schemas, rfl⟩
    exact ⟨schema, format, pretty, schemas⟩
  · rintro ⟨schema, format, pretty, schemas⟩
    exact ⟨_, schema, _, format, _, pretty, _, schemas, rfl⟩

/-- Entries with other names are ignored. -/
theorem settings?_congr {entries others : List (String × Node)}
    (same : ∀ name ∈ ["default_schema", "format", "pretty", "schemas"],
      find? name entries = find? name others) : settings? entries = settings? others := by
  simp only [List.forall_mem_cons] at same
  rcases same with ⟨schema, format, pretty, schemas, _⟩
  rw [settings?, settings?, schema, format, pretty, schemas]

/-- The entry of a setting is not of its sort. -/
inductive Misfits (entries : List (String × Node)) : Prop
  | defaultSchema {node : Node} (found : find? "default_schema" entries = some node)
    (given : node ≠ .null) (noName : node.name? = none)
  | format {node : Node} (found : find? "format" entries = some node) (given : node ≠ .null)
    (noFormat : node.choice?.bind OutputNotation.ofName? = none)
  | pretty {node : Node} (found : find? "pretty" entries = some node)
    (noSwitch : node.switch? = none)
  | schemas {node : Node} (found : find? "schemas" entries = some node)
    (noSchemas : dictionary? (dictionary? kind?) node = none)

theorem optional?_eq_none_iff {α : Type} {read? : Node → Option α} {found : Option Node} :
    optional? read? found = none ↔
      ∃ node, found = some node ∧ node ≠ .null ∧ read? node = none := by
  unfold optional?
  split
  next => simp
  next => simp
  next node given =>
    rw [Option.map_eq_none_iff]
    constructor
    · intro unread
      exact ⟨node, rfl, given, unread⟩
    · rintro ⟨_, ⟨⟩, _, unread⟩
      exact unread

theorem withDefault?_eq_none_iff {α : Type} {read? : Node → Option α} {otherwise : α}
    {found : Option Node} :
    withDefault? read? otherwise found = none ↔ ∃ node, found = some node ∧ read? node = none := by
  cases found <;> simp [withDefault?]

/-- A table is unusable because of one of its settings. -/
theorem settings?_eq_none_iff {entries : List (String × Node)} :
    settings? entries = none ↔ Misfits entries := by
  have unread : settings? entries = none ↔
      optional? name? (find? "default_schema" entries) = none ∨
      optional? (fun node => node.choice?.bind OutputNotation.ofName?) (find? "format" entries) =
        none ∨
      withDefault? switch? true (find? "pretty" entries) = none ∨
      withDefault? (dictionary? (dictionary? kind?)) Dictionary.empty (find? "schemas" entries) =
        none := by
    rw [settings?]
    generalize optional? name? _ = schema
    generalize optional? _ (find? "format" entries) = format
    generalize withDefault? switch? true _ = pretty
    generalize withDefault? _ _ (find? "schemas" entries) = schemas
    cases schema <;> cases format <;> cases pretty <;> cases schemas <;> simp
  rw [unread, optional?_eq_none_iff, optional?_eq_none_iff, withDefault?_eq_none_iff,
    withDefault?_eq_none_iff]
  constructor
  · rintro (⟨node, found, given, noName⟩ | ⟨node, found, given, noFormat⟩ |
      ⟨node, found, noSwitch⟩ | ⟨node, found, noSchemas⟩)
    · exact .defaultSchema found given noName
    · exact .format found given noFormat
    · exact .pretty found noSwitch
    · exact .schemas found noSchemas
  · rintro (⟨found, given, noName⟩ | ⟨found, given, noFormat⟩ | ⟨found, noSwitch⟩ |
      ⟨found, noSchemas⟩)
    · exact .inl ⟨_, found, given, noName⟩
    · exact .inr (.inl ⟨_, found, given, noFormat⟩)
    · exact .inr (.inr (.inl ⟨_, found, noSwitch⟩))
    · exact .inr (.inr (.inr ⟨_, found, noSchemas⟩))

/-! ## Settings as a table -/

/-- A word or nothing. -/
def ofOption : Option String → Node
  | some content => text content
  | none => null

/-- The table of the fields of a schema. -/
def ofFields (fields : Dictionary Kind) : Node :=
  table (fields.entries.map fun field => (field.1, text field.2.name))

/-- The entries of a table for some settings. -/
def ofSettings (settings : Settings) : List (String × Node) :=
  [("default_schema", ofOption settings.defaultSchema),
    ("format", ofOption (settings.format.map OutputNotation.name)),
    ("pretty", boolean settings.pretty),
    ("schemas", table (settings.schemas.entries.map fun schema => (schema.1, ofFields schema.2)))]

/-- What dictionaries hold is read back from tables of it. -/
theorem dictionary?_table {α : Type} {read? : Node → Option α} {write : α → Node}
    (reads : ∀ value, read? (write value) = some value) (dictionary : Dictionary α) :
    dictionary? read? (table (dictionary.entries.map fun entry => (entry.1, write entry.2))) =
      some dictionary := by
  have pairs (entries : List (String × α)) :
      (entries.map fun entry => (entry.1, write entry.2)).mapM (fun entry =>
        (read? entry.2).map fun value => (entry.1, value)) = some entries := by
    induction entries with
    | nil => rfl
    | cons entry rest ih =>
        rw [List.map_cons, List.mapM_cons, reads, ih]
        rfl
  exact (congrArg (Option.bind · fun pairs => some (Dictionary.ofList pairs))
    (pairs dictionary.entries)).trans (congrArg some dictionary.ofList_entries)

theorem settings?_ofSettings (settings : Settings) :
    settings? (ofSettings settings) = some settings := by
  rw [settings?_eq_some_iff]
  refine ⟨?_, ?_, rfl, ?_⟩
  · change optional? name? (some (ofOption settings.defaultSchema)) = some settings.defaultSchema
    cases settings.defaultSchema <;> rfl
  · change optional? _ (some (ofOption (settings.format.map OutputNotation.name))) =
      some settings.format
    rcases settings.format with _ | format
    · rfl
    · cases format <;> rfl
  · have kinds (kind : Kind) : kind? (text kind.name) = some kind := Kind.ofName?_name kind
    exact dictionary?_table (fun fields => dictionary?_table kinds fields) settings.schemas

/-- What a dictionary holds is written without a loss if its values are. -/
theorem writtenEntries_map {α : Type} {write : α → Node} {room : Nat} (dictionary : Dictionary α)
    (written : ∀ value, (write value).Written room) :
    WrittenEntries room (dictionary.entries.map fun entry => (entry.1, write entry.2)) := by
  rcases dictionary with ⟨entries, ordered⟩
  induction entries with
  | nil => trivial
  | cons entry rest ih =>
      rcases List.pairwise_cons.mp ordered with ⟨first, others⟩
      refine ⟨?_, written entry.2, ih others⟩
      rw [List.forall_mem_map]
      intro other member same
      exact Before.irrefl _ (same ▸ first other member)

theorem written_ofOption (content : Option String) (room : Nat) :
    (ofOption content).Written room := by
  cases content <;> trivial

/-- Settings are written without a loss, by tables in tables in a table. -/
theorem writtenEntries_ofSettings (settings : Settings) :
    WrittenEntries 2 (ofSettings settings) := by
  have kinds (kind : Kind) : (text kind.name).Written 0 := trivial
  have fields (fields : Dictionary Kind) : (ofFields fields).Written 1 :=
    ⟨0, rfl, writtenEntries_map fields kinds⟩
  have schemas := writtenEntries_map settings.schemas fields
  refine ⟨?_, written_ofOption _ _, ?_, written_ofOption _ _, ?_, trivial, ?_, ⟨1, rfl, schemas⟩,
    trivial⟩
  all_goals
    simp

/-! ## Names at the top -/

mutual

/-- Where nothing stands yet, a node is written as it is. -/
theorem merge_none : (node : Node) → ∀ {room : Nat}, node.Written room → merge none node = node
  | .null, _, _ => rfl
  | .boolean _, _, _ => rfl
  | .text _, _, _ => rfl
  | .table entries, _, ⟨_, _, written⟩ => by
      have merged : mergeEntries [] entries = [] ++ entries :=
        mergeEntries_of_apart entries written (.nil _)
      rw [merge]
      exact congrArg table merged

/-- Entries with new names are written behind the others. -/
theorem mergeEntries_of_apart : (entries : List (String × Node)) → ∀ {room : Nat}
    {sofar : List (String × Node)}, WrittenEntries room entries → Apart sofar entries →
      mergeEntries sofar entries = sofar ++ entries
  | [], _, sofar, _, _ => (List.append_nil sofar).symm
  | (name, node) :: rest, _, sofar, ⟨distinct, written, further⟩, apart => by
      rw [mergeEntries, find?_of_forall_ne apart.first, merge_none node written,
        place_of_forall_ne apart.first, mergeEntries_of_apart rest further (apart.append distinct),
        List.append_assoc, List.singleton_append]

end

/-- A name that is no path stands at the top as it stands inside. -/
theorem unfolded_of_names {entries : List (String × Node)} {room : Nat}
    (written : WrittenEntries room entries)
    (names : ∀ entry ∈ entries, Step.ofName entry.1 = [.name entry.1]) :
    unfolded entries = entries := by
  have folds (rest sofar : List (String × Node)) (written : WrittenEntries room rest)
      (names : ∀ entry ∈ rest, Step.ofName entry.1 = [.name entry.1]) (apart : Apart sofar rest) :
      rest.foldl (fun sofar entry =>
        ((Node.written entry.2 (some (table sofar)) (Step.ofName entry.1)).entries?).getD [])
          sofar = sofar ++ rest := by
    induction rest generalizing sofar with
    | nil => rw [List.foldl_nil, List.append_nil]
    | cons entry rest ih =>
        rcases written with ⟨distinct, written, further⟩
        rcases List.forall_mem_cons.mp names with ⟨name, others⟩
        have placed :
            ((Node.written entry.2 (some (table sofar)) [.name entry.1]).entries?).getD [] =
              sofar ++ [entry] := by
          simp only [Node.written, Option.bind_some, entries?, Option.getD_some,
            find?_of_forall_ne apart.first, merge_none entry.2 written,
            place_of_forall_ne apart.first]
        rw [List.foldl_cons, name, placed, ih _ further others (apart.append distinct),
          List.append_assoc, List.singleton_append]
  exact folds entries [] written names (.nil _)

/-- A name with dots is a path into the tables that it names. -/
example : settings? (unfolded [("schemas.route.laps", .text "int32")]) =
    some { Settings.default with
      schemas := Dictionary.ofList [("route", Dictionary.ofList [("laps", .int32)])] } := by
  decide +kernel

/-- The names of the settings are no paths. -/
theorem ofName_ofSettings (settings : Settings) :
    ∀ entry ∈ ofSettings settings, Step.ofName entry.1 = [.name entry.1] := by
  simp only [ofSettings, List.forall_mem_cons]
  exact ⟨by decide +kernel, by decide +kernel, by decide +kernel, by decide +kernel,
    List.forall_mem_nil _⟩

/-- Only a table can give settings. -/
theorem fileSettings?_eq (node : Node) :
    node.fileSettings? = node.entries?.bind fun entries => settings? (unfolded entries) := by
  cases node <;> rfl

/-- A table that was made for some settings gives them. -/
theorem fileSettings?_ofSettings (settings : Settings) :
    fileSettings? (table (ofSettings settings)) = some settings := by
  rw [fileSettings?, unfolded_of_names (writtenEntries_ofSettings settings)
    (ofName_ofSettings settings), settings?_ofSettings]

end Node

end Configuration

namespace Settings

open FilterQuery.Configuration

/-- A file for some settings. -/
def text (settings : Settings) : List Char :=
  (Node.table (Node.ofSettings settings)).json

/-- In either notation the file of some settings gives them back. -/
theorem read?_text (settings : Settings) (style : Notation) :
    (style.read? settings.text).bind Node.fileSettings? = some settings := by
  have written : (Node.table (Node.ofSettings settings)).Written 3 :=
    ⟨2, rfl, Node.writtenEntries_ofSettings settings⟩
  have read : style.read? settings.text = some (.table (Node.ofSettings settings)) := by
    cases style with
    | yaml => exact ofYaml?_json written (by decide)
    | json => exact ofJson?_json written (by decide)
  rw [read, Option.bind_some, Node.fileSettings?_ofSettings]

/-- The loader reads such a file where it finds one whose extension it knows. -/
theorem ofFile?_text {surroundings : Surroundings} {path : String} {settings : Settings}
    {style : Notation}
    (present : surroundings.file? path = some (encode (String.ofList settings.text)))
    (known : (extension? path.toList).bind Notation.ofExtension? = some style) :
    ofFile? surroundings path = some settings := by
  have found : Configuration.find? surroundings path =
      some (encode (String.ofList settings.text), style) := by
    rw [Configuration.find?, present]
    simp only [known, Option.map_some]
  have whole : decodeFile (encode (String.ofList settings.text)) = settings.text := by
    apply decodeFile_encode
    change some '\x7b' ≠ some '\ufeff'
    decide
  rw [ofFile?, found]
  simp only [Option.bind_eq_bind, Option.bind_some, whole]
  exact read?_text settings style

/-- A file in the style that people write. -/
example :
    ofFile?
        ⟨fun _ => some (.file (encode ("default_schema: route\nformat: yaml\nschemas:\n" ++
          "  route:\n    laps: int32\n    name: text\n"))), [], none⟩ "routes.yaml" =
      some ⟨some "route", some .yaml, true,
        Dictionary.ofList [("route", Dictionary.ofList [("laps", .int32), ("name", .text)])]⟩ := by
  decide +kernel

/-- Why a file cannot be used: none in YAML or JSON is found, it cannot be read, or one of its
settings is not of the right sort. -/
inductive Unusable (surroundings : Surroundings) (path : String) : Prop
  | missing (absent : Configuration.find? surroundings path = none)
  | unread {bytes : List UInt8} {style : Notation}
    (found : Configuration.find? surroundings path = some (bytes, style))
    (unread : style.read? (decodeFile bytes) = none)
  | noTable {bytes : List UInt8} {style : Notation} {node : Node}
    (found : Configuration.find? surroundings path = some (bytes, style))
    (read : style.read? (decodeFile bytes) = some node) (noTable : node.entries? = none)
  | misfits {bytes : List UInt8} {style : Notation} {entries : List (String × Node)}
    (found : Configuration.find? surroundings path = some (bytes, style))
    (read : style.read? (decodeFile bytes) = some (.table entries))
    (misfits : Node.Misfits (Node.unfolded entries))

/-- The loader gives no settings for just these files. -/
theorem ofFile?_eq_none_iff {surroundings : Surroundings} {path : String} :
    ofFile? surroundings path = none ↔ Unusable surroundings path := by
  rw [ofFile?]
  simp only [Option.bind_eq_bind, Option.bind_eq_none_iff]
  constructor
  · intro unusable
    cases found : Configuration.find? surroundings path with
    | none => exact .missing found
    | some given =>
        rcases given with ⟨bytes, style⟩
        cases read : style.read? (decodeFile bytes) with
        | none => exact .unread found read
        | some node =>
            have unread := unusable _ found _ read
            cases node with
            | table entries => exact .misfits found read (Node.settings?_eq_none_iff.mp unread)
            | null | boolean | integer | real | text | list => exact .noTable found read rfl
  · rintro (absent | ⟨found, unread⟩ | ⟨found, read, noTable⟩ | ⟨found, read, misfits⟩)
    · intro given found
      rw [absent] at found
      cases found
    · intro given again node read
      rw [found] at again
      cases again
      rw [unread] at read
      cases read
    · intro given again node readAgain
      rw [found] at again
      cases again
      rw [read] at readAgain
      cases readAgain
      rw [Node.fileSettings?_eq, noTable]
      rfl
    · intro given again node readAgain
      rw [found] at again
      cases again
      rw [read] at readAgain
      cases readAgain
      exact Node.settings?_eq_none_iff.mpr misfits

/-- There is no kind of that name. -/
example :
    ofFile? ⟨fun _ => some (.file (encode "schemas:\n  route:\n    laps: integer\n")), [], none⟩
      "routes.yaml" = none := by
  decide +kernel

end Settings

namespace Configuration

/-- No file in YAML or JSON is found where the extension of a file is another one, or where there is
no file of that name, and none with one of their extensions behind it either. -/
theorem find?_eq_none_iff {surroundings : Surroundings} {path : String} :
    find? surroundings path = none ↔
      (∃ bytes, surroundings.file? path = some bytes ∧
        (extension? path.toList).bind Notation.ofExtension? = none) ∨
      (surroundings.file? path = none ∧ ∀ plain, extensible? path = some plain →
        ∀ ending ∈ ["json", "yaml", "yml"],
          surroundings.file? (plain ++ "." ++ ending) = none) := by
  rw [find?]
  cases present : surroundings.file? path with
  | some bytes => simp
  | none =>
      cases extensible? path with
      | none => simp
      | some plain => simp [Notation.extensions]

end Configuration

section Run

open Settings

variable {load : Settings.Loader} {arguments : List String} {options : Options}
  {surroundings : Surroundings} {path : String} {settings : Settings}

/-- Without the settings of the file that is named, nothing is written but what is wrong. -/
theorem program_of_unloaded (asked : CommandLine.read arguments = .ok (.run options))
    (named : options.config = some path) (unloaded : load surroundings path = none) :
    run options surroundings load = .error (.settingsNotLoaded path) ∧
      program arguments surroundings load =
        ⟨1, "", "Error: " ++ (RunError.settingsNotLoaded path).message ++ "\n"⟩ := by
  have failed : loadSettings options surroundings load = .error (.settingsNotLoaded path) := by
    rw [loadSettings, named]
    simp only [unloaded]
  have stopped : run options surroundings load = .error (.settingsNotLoaded path) := by
    rw [run, failed, error_bind]
  refine ⟨stopped, ?_⟩
  rw [program, asked]
  simp only [stopped, Exit.ofRun]

/-- With the loader of YAML and JSON this is so for a file that is not there, that cannot be read, or
that has a setting of the wrong sort. -/
theorem program_of_unusable (asked : CommandLine.read arguments = .ok (.run options))
    (named : options.config = some path) (unusable : Unusable surroundings path) :
    program arguments surroundings =
      ⟨1, "", "Error: " ++ (RunError.settingsNotLoaded path).message ++ "\n"⟩ :=
  (program_of_unloaded asked named (ofFile?_eq_none_iff.mpr unusable)).2

/-- A run with a file does what it does with the settings for which the file was written. -/
theorem run_of_text {style : Configuration.Notation} (named : options.config = some path)
    (present : surroundings.file? path = some (encode (String.ofList settings.text)))
    (known : (Configuration.extension? path.toList).bind Configuration.Notation.ofExtension? =
      some style) :
    loadSettings options surroundings = .ok settings ∧
      run options surroundings = run options surroundings fun _ _ => some settings := by
  have loaded : loadSettings options surroundings = .ok settings := by
    rw [loadSettings, named]
    simp only [ofFile?_text present known]
  have given : loadSettings options surroundings (fun _ _ => some settings) = .ok settings := by
    rw [loadSettings, named]
  refine ⟨loaded, ?_⟩
  rw [run, run, loaded, given]

/-- Each accepted input is rendered in the notation and the layout that the file chooses, unless the
command line chooses another notation. -/
theorem program_of_text {style : Configuration.Notation} {schema : Schema} {inputs : List Input}
    (asked : CommandLine.read arguments = .ok (.run options)) (named : options.config = some path)
    (present : surroundings.file? path = some (encode (String.ofList settings.text)))
    (known : (Configuration.extension? path.toList).bind Configuration.Notation.ofExtension? =
      some style)
    (selected : selectSchema options surroundings settings = .ok schema)
    (compiles : options.listFields = false)
    (gathered : gatherInputs options surroundings = .ok inputs) (nonempty : inputs ≠ []) :
    (program arguments surroundings).output = String.join (inputs.map fun input =>
      renderedLine schema ((options.format.or settings.format).getD .json) settings.pretty
        input.text) := by
  have ready : Ready Settings.ofFile? options surroundings settings schema inputs :=
    ⟨(run_of_text named present known).1, selected, compiles, gathered, nonempty⟩
  rw [program_of_ready asked ready, Exit.output_ofReport,
    (accounts_reportInputs options settings schema inputs).output, formatOf]
  cases options.format <;> cases settings.format <;> rfl

end Run

end FilterQuery
