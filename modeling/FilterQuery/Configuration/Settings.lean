import FilterQuery.Configuration.Json
import FilterQuery.Configuration.Path
import FilterQuery.Configuration.Yaml
import FilterQuery.Rendering
import FilterQuery.Schema.Registry
import FilterQuery.Surroundings
import FilterQuery.Text.Utf8

namespace FilterQuery

open Text

/-!
# Settings

A configuration file may choose a schema and a notation, turn the wide layout of
JSON off, and declare schemas of its own.  Every setting has a default, and
entries with other names are ignored.  A setting of the wrong sort makes the
whole file unusable; the reason is not kept, because only the name of the file is
reported.

A file may be named without its extension, and the extension decides on the notation.  Files in
YAML and in JSON can be read here, and those in TOML, INI, RON and JSON5 cannot.  Who knows these
reads more files: a `Loader` is whatever reads the settings of a file, and the one here is
`ofFile?`.

A declared schema with the name of a built-in one takes its place.
-/

/-- The settings of a configuration file. -/
structure Settings where
  defaultSchema : Option String
  format : Option OutputNotation
  pretty : Bool
  schemas : Dictionary (Dictionary Kind)
  deriving DecidableEq, Repr

namespace Settings

/-- The settings without a file. -/
def default : Settings := ⟨none, none, true, Dictionary.empty⟩

/-- The schema to compile against if none is asked for. -/
def schemaName (settings : Settings) : String :=
  settings.defaultSchema.getD "tracking"

/-- The schemas that the settings declare. -/
def declaredSchemas (settings : Settings) : List Schema :=
  settings.schemas.entries.map fun (name, fields) => ⟨name, fields⟩

/-- The built-in schemas with the declared ones over them. -/
def registry (settings : Settings) : Registry :=
  Registry.builtIn.insertAll settings.declaredSchemas

end Settings

namespace Configuration

namespace Node

/-- A setting that may be absent or null. -/
def optional? {α : Type} (read? : Node → Option α) : Option Node → Option (Option α)
  | none => some none
  | some .null => some none
  | some node => (read? node).map some

/-- A setting that may be absent. -/
def withDefault? {α : Type} (read? : Node → Option α) (otherwise : α) : Option Node → Option α
  | none => some otherwise
  | some node => read? node

/-- The kind that a node names. -/
def kind? (node : Node) : Option Kind :=
  node.choice?.bind Kind.ofName?

/-- The dictionary of a table whose nodes are read in one way. -/
def dictionary? {α : Type} (read? : Node → Option α) (node : Node) : Option (Dictionary α) := do
  let entries ← node.entries?
  let pairs ← entries.mapM fun (name, entry) => (read? entry).map fun value => (name, value)
  some (Dictionary.ofList pairs)

/-- The settings in the entries of a file. -/
def settings? (entries : List (String × Node)) : Option Settings := do
  let defaultSchema ← optional? name? (find? "default_schema" entries)
  let format ← optional? (fun node => node.choice?.bind OutputNotation.ofName?)
    (find? "format" entries)
  let pretty ← withDefault? switch? true (find? "pretty" entries)
  let schemas ← withDefault? (dictionary? (dictionary? kind?)) Dictionary.empty
    (find? "schemas" entries)
  some ⟨defaultSchema, format, pretty, schemas⟩

/-- The settings of a whole file, which has to be a table. -/
def fileSettings? : Node → Option Settings
  | table entries => settings? (unfolded entries)
  | _ => none

end Node

/-- The notations of configuration files that can be read here. -/
inductive Notation where
  | yaml
  | json
  deriving DecidableEq, Repr

namespace Notation

/-- The notation that an extension stands for. -/
def ofExtension? : String → Option Notation
  | "yaml" => some yaml
  | "yml" => some yaml
  | "json" => some json
  | _ => none

/-- The extensions that are tried behind a name without file, in order. -/
def extensions : List (String × Notation) :=
  [("json", json), ("yaml", yaml), ("yml", yaml)]

/-- Read a text in a notation. -/
def read? (style : Notation) (text : List Char) : Option Node :=
  match style with
  | yaml => ofYaml? text
  | json => ofJson? text

end Notation

/-- The last name of a path. -/
def lastName (path : List Char) : List Char :=
  (path.reverse.takeWhile (· ≠ '/')).reverse

/-- The extension of a path: what follows the last dot of its last name.  There is
none without a dot, or if that dot begins the name. -/
def extension? (path : List Char) : Option String :=
  let name := lastName path
  let behind := (name.reverse.takeWhile (· ≠ '.')).reverse
  if behind.length + 1 < name.length then some (String.ofList behind) else none

/-- Drop separators from a path that is given from its end, and steps that stay
in a directory. -/
def withoutSeparators : List Char → List Char
  | '/' :: rest => withoutSeparators rest
  | '.' :: '/' :: rest => withoutSeparators rest
  | text => text

/-- The path that extensions are put behind.  Separators behind the last name are
dropped, but only if that name has no extension of its own: with one, they lead
into a directory, and nothing is looked for there.  There is no such path either
if the last step is no name. -/
def extensible? (path : String) : Option String :=
  let plain := (withoutSeparators path.toList.reverse).reverse
  if ["", ".", ".."].contains (String.ofList (lastName plain)) then none
  else if (extension? plain).isSome && plain ≠ path.toList then none
  else some (String.ofList plain)

/-- The bytes and the notation of a configuration file.  A file of just that
name must have a known extension; without one the extensions are tried behind
the name. -/
def find? (surroundings : Surroundings) (path : String) : Option (List UInt8 × Notation) :=
  match surroundings.file? path with
  | some bytes => ((extension? path.toList).bind Notation.ofExtension?).map fun style => (bytes, style)
  | none =>
    (extensible? path).bind fun plain =>
      Notation.extensions.findSome? fun (ending, style) =>
        (surroundings.file? (plain ++ "." ++ ending)).map fun bytes => (bytes, style)

end Configuration

namespace Settings

/-- What gives the settings of the configuration file at a path, if there is such a file and it can
be used. -/
abbrev Loader := Surroundings → String → Option Settings

/-- The settings of a configuration file in YAML or JSON, if it can be found and read. -/
def ofFile? : Loader := fun surroundings path => do
  let (bytes, style) ← Configuration.find? surroundings path
  let node ← style.read? (decodeFile bytes)
  node.fileSettings?

end Settings

end FilterQuery
