import FilterQuery.Configuration.Settings
import FilterQuery.Inputs

namespace FilterQuery

/-!
# A run of the program

A run loads the settings, selects a schema, and then either lists the fields of
that schema or compiles every input.  What is rendered goes to the standard
output, one rendering after another, and what was rejected goes to the standard
error.  A rejected input does not keep the others from being compiled.

Some faults stop the run before anything is written: settings that cannot be
loaded, an unknown schema, inputs that cannot be collected, and having no input
at all.  The fields of a schema are listed without looking at the inputs.

How settings are read from a file is up to a loader.  A run asks it for the settings
of one path, and for nothing else.
-/

/-- Why a run stops before it writes anything. -/
inductive RunError where
  | settingsNotLoaded (path : String)
  | unknownSchema (name : String) (known : List String)
  | inputs (cause : InputError)
  | noQueries
  deriving DecidableEq, Repr

namespace RunError

/-- The message shown to whoever started the program. -/
def message : RunError → String
  | settingsNotLoaded path => "Config: Failed to load " ++ path
  | unknownSchema name known =>
    "CLI: Unknown schema '" ++ name ++ "' (known: " ++ String.intercalate ", " known ++ ")"
  | inputs (.batchNotOpened path) => "CLI: Failed to open batch file " ++ path
  | inputs .batchNotRead => "CLI: Failed to read batch file"
  | noQueries => "CLI: No queries given; pass QUERY arguments or --batch"

end RunError

/-- The settings of a run: those of the named file, or the defaults. -/
def loadSettings (options : Options) (surroundings : Surroundings)
    (load : Settings.Loader := Settings.ofFile?) : Except RunError Settings :=
  match options.config with
  | none => .ok Settings.default
  | some path =>
    match load surroundings path with
    | some settings => .ok settings
    | none => .error (.settingsNotLoaded path)

/-- The name of the schema of a run: that of the command line, or of the
environment, or of the settings. -/
def schemaName (options : Options) (surroundings : Surroundings) (settings : Settings) :
    String :=
  match options.schema with
  | some name => name
  | none => surroundings.schemaVariable.getD settings.schemaName

/-- The schema of a run. -/
def selectSchema (options : Options) (surroundings : Surroundings) (settings : Settings) :
    Except RunError Schema :=
  let name := schemaName options surroundings settings
  match settings.registry.get? name with
  | some schema => .ok schema
  | none => .error (.unknownSchema name settings.registry.names)

/-- An input and what became of it. -/
structure Outcome where
  input : Input
  result : Except Rejection Filter

namespace Outcome

/-- Compile one input. -/
def ofInput (schema : Schema) (input : Input) : Outcome :=
  ⟨input, Filter.ofInput schema input.text⟩

/-- The line of an accepted input on the standard output. -/
def rendered? (format : OutputNotation) (pretty : Bool) (outcome : Outcome) : Option String :=
  match outcome.result with
  | .ok filter => some (filter.render format pretty ++ "\n")
  | .error _ => none

/-- The line of a rejected input on the standard error. -/
def complaint? (outcome : Outcome) : Option String :=
  match outcome.result with
  | .ok _ => none
  | .error error =>
    some (outcome.input.label ++ ": " ++ error.message ++ " [" ++ error.code ++ "] (" ++
      outcome.input.text ++ ")\n")

end Outcome

/-- What a run has written, and how many inputs it rejected. -/
structure Report where
  output : String
  complaints : String
  failures : Nat
  deriving DecidableEq, Repr

namespace Report

/-- The report on a list of outcomes. -/
def ofOutcomes (format : OutputNotation) (pretty : Bool) (outcomes : List Outcome) : Report :=
  let complaints := outcomes.filterMap Outcome.complaint?
  ⟨String.join (outcomes.filterMap (Outcome.rendered? format pretty)), String.join complaints,
    complaints.length⟩

end Report

/-- Compile the inputs and report on them. -/
def reportInputs (options : Options) (settings : Settings) (schema : Schema)
    (inputs : List Input) : Report :=
  let format := (options.format.orElse fun _ => settings.format).getD .json
  Report.ofOutcomes format settings.pretty (inputs.map (Outcome.ofInput schema))

/-- Carry out what the options ask for. -/
def run (options : Options) (surroundings : Surroundings)
    (load : Settings.Loader := Settings.ofFile?) : Except RunError Report := do
  let settings ← loadSettings options surroundings load
  let schema ← selectSchema options surroundings settings
  if options.listFields then return ⟨schema.listing, "", 0⟩
  else
    let inputs ← (gatherInputs options surroundings).mapError .inputs
    if inputs = [] then .error .noQueries
    else return reportInputs options settings schema inputs

/-- What a process leaves behind: its exit code and what it has written. -/
structure Exit where
  code : Nat
  output : String
  errors : String
  deriving DecidableEq, Repr

namespace Exit

/-- The program ends with a code other than zero if an input was rejected. -/
def ofReport (report : Report) : Exit :=
  if report.failures = 0 then ⟨0, report.output, report.complaints⟩
  else
    ⟨1, report.output,
      report.complaints ++ "Error: " ++ toString report.failures ++ " queries failed to compile\n"⟩

/-- A run that stopped has written nothing to the standard output.  The error says what could not be
done; what the system or a loader says of the cause may be shown behind it, and is left out
here. -/
def ofRun : Except RunError Report → Exit
  | .ok report => ofReport report
  | .error error => ⟨1, "", "Error: " ++ error.message ++ "\n"⟩

end Exit

/-- The line that names the program and its version. -/
def versionLine : String := "filterc 0.1.0\n"

/-- A summary of the options. -/
def usage : String :=
  "Usage: filterc [OPTIONS] [QUERIES]...\n\n" ++
  "Options:\n" ++
  "  -s, --schema <SCHEMA>    Schema to compile against\n" ++
  "  -b, --batch <BATCH>      File with one query per line (\"-\" for stdin)\n" ++
  "  -c, --config <CONFIG>    Configuration file\n" ++
  "  -f, --format <FORMAT>    Output format: json, yaml or query\n" ++
  "      --list-fields        Print the fields of the selected schema and exit\n" ++
  "  -t, --threads <THREADS>  Number of threads\n" ++
  "  -v, --verbose            Enable verbose output\n" ++
  "  -h, --help               Print help\n" ++
  "  -V, --version            Print version\n"

/-- The whole program: from its arguments and surroundings to what it leaves
behind. -/
def program (arguments : List String) (surroundings : Surroundings)
    (load : Settings.Loader := Settings.ofFile?) : Exit :=
  match CommandLine.read arguments with
  | .error error => ⟨2, "", "error: " ++ error.message ++ "\n\n" ++ usage⟩
  | .ok .version => ⟨0, versionLine, ""⟩
  | .ok .help => ⟨0, usage, ""⟩
  | .ok (.run options) => Exit.ofRun (run options surroundings load)

end FilterQuery
