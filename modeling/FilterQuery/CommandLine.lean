import FilterQuery.Rendering

namespace FilterQuery

open Text

/-!
# The command line

Arguments are queries and options in any order.  An option has a long name and
most have a letter; letters may be written together behind one hyphen, and the
last of them may be an option that takes a value.  A value follows in the next
argument, or behind an equals sign, or right behind the letter.  Everything
behind two hyphens is a query.

Arguments are read from the left, and the first fault or the first request for
help or the version decides.  Nothing may be given twice except queries.  Values
are checked as they are read; a value in an argument of its own cannot begin with
a hyphen, except the hyphen alone that stands for the standard input.
-/

/-- What the arguments ask for. -/
structure Options where
  queries : List String
  schema : Option String
  batch : Option String
  config : Option String
  format : Option OutputNotation
  threads : Option Nat
  listFields : Bool
  verbose : Bool
  deriving DecidableEq, Repr

namespace Options

/-- Nothing is asked for. -/
def none : Options := ⟨[], .none, .none, .none, .none, .none, false, false⟩

end Options

/-- Why arguments are not understood. -/
inductive UsageError where
  | unknownOption (argument : String)
  | missingValue (argument : String)
  | unexpectedValue (argument : String)
  | repeated (argument : String)
  | invalidValue (argument value : String)
  deriving DecidableEq, Repr

namespace UsageError

/-- The message shown to whoever gave the arguments. -/
def message : UsageError → String
  | unknownOption argument => "unexpected argument '" ++ argument ++ "' found"
  | missingValue argument => "a value is required for '" ++ argument ++ "' but none was supplied"
  | unexpectedValue argument => "unexpected value for '" ++ argument ++ "' found"
  | repeated argument => "the argument '" ++ argument ++ "' cannot be used multiple times"
  | invalidValue argument value => "invalid value '" ++ value ++ "' for '" ++ argument ++ "'"

end UsageError

/-- What the program is asked to do. -/
inductive Request where
  | run (options : Options)
  | version
  | help
  deriving DecidableEq, Repr

namespace CommandLine

/-- The options that take a value. -/
inductive Setting where
  | schema
  | batch
  | config
  | format
  | threads
  deriving DecidableEq, Repr

/-- Any option. -/
inductive Flag where
  | setting (setting : Setting)
  | listFields
  | verbose
  | version
  | help
  deriving DecidableEq, Repr

/-- The option of a long name. -/
def Flag.ofName? : String → Option Flag
  | "schema" => some (setting .schema)
  | "batch" => some (setting .batch)
  | "config" => some (setting .config)
  | "format" => some (setting .format)
  | "threads" => some (setting .threads)
  | "list-fields" => some listFields
  | "verbose" => some verbose
  | "version" => some version
  | "help" => some help
  | _ => none

/-- The option of a letter. -/
def Flag.ofLetter? : Char → Option Flag
  | 's' => some (setting .schema)
  | 'b' => some (setting .batch)
  | 'c' => some (setting .config)
  | 'f' => some (setting .format)
  | 't' => some (setting .threads)
  | 'v' => some verbose
  | 'V' => some version
  | 'h' => some help
  | _ => none

/-- A value that is set once. -/
def once {α : Type} (argument : String) (held : Option α) (value : α) :
    Except UsageError (Option α) :=
  match held with
  | none => .ok (some value)
  | some _ => .error (.repeated argument)

/-- A path, which cannot be empty. -/
def path (argument value : String) : Except UsageError String :=
  if value = "" then .error (.invalidValue argument value) else .ok value

/-- A count of threads: a natural number of 64 bits, perhaps behind a plus
sign. -/
def threadCount (argument value : String) : Except UsageError Nat :=
  let digits := match value.toList with
    | '+' :: rest => rest
    | text => text
  match natural? digits with
  | some count =>
    if count < 2 ^ 64 then .ok count else .error (.invalidValue argument value)
  | none => .error (.invalidValue argument value)

/-- Give an option its value. -/
def assign (options : Options) (setting : Setting) (argument value : String) :
    Except UsageError Options := do
  match setting with
  | .schema => return { options with schema := ← once argument options.schema value }
  | .batch => return { options with batch := ← once argument options.batch (← path argument value) }
  | .config =>
    return { options with config := ← once argument options.config (← path argument value) }
  | .format =>
    match OutputNotation.ofName? value with
    | some format => return { options with format := ← once argument options.format format }
    | none => .error (.invalidValue argument value)
  | .threads =>
    return { options with
      threads := ← once argument options.threads (← threadCount argument value) }

/-- What is left to do after one argument. -/
inductive Step where
  /-- Go on with the next argument. -/
  | next (options : Options)
  /-- The next argument is the value of an option. -/
  | awaiting (options : Options) (setting : Setting)
  /-- The arguments behind this one do not matter. -/
  | stop (request : Request)
  deriving DecidableEq, Repr

/-- Turn on an option that takes no value. -/
def turnOn (options : Options) (argument : String) : Flag → Except UsageError Step
  | .setting setting => .ok (.awaiting options setting)
  | .listFields =>
    if options.listFields then .error (.repeated argument)
    else .ok (.next { options with listFields := true })
  | .verbose =>
    if options.verbose then .error (.repeated argument)
    else .ok (.next { options with verbose := true })
  | .version => .ok (.stop .version)
  | .help => .ok (.stop .help)

/-- Read an option by its long name, given without the hyphens. -/
def longOption (options : Options) (argument : String) (text : List Char) :
    Except UsageError Step :=
  let name := String.ofList (text.takeWhile (· ≠ '='))
  match Flag.ofName? name, text.dropWhile (· ≠ '=') with
  | none, _ => .error (.unknownOption argument)
  | some (.setting setting), '=' :: value =>
    (assign options setting argument (String.ofList value)).map .next
  | some _, '=' :: _ => .error (.unexpectedValue argument)
  | some flag, _ => turnOn options argument flag

/-- Read options by their letters, given without the hyphen. -/
def shortOptions (options : Options) (argument : String) : List Char → Except UsageError Step
  | [] => .ok (.next options)
  | letter :: rest =>
    match Flag.ofLetter? letter with
    | none => .error (.unknownOption argument)
    | some (.setting setting) =>
      match rest with
      | [] => .ok (.awaiting options setting)
      | '=' :: value => (assign options setting argument (String.ofList value)).map .next
      | value => (assign options setting argument (String.ofList value)).map .next
    | some flag => do
      match ← turnOn options argument flag with
      | .next options => shortOptions options argument rest
      | step => .ok step

/-- Whether an argument is an option and not a value. -/
def isOption (argument : String) : Bool :=
  match argument.toList with
  | '-' :: _ :: _ => true
  | _ => false

/-- Read one argument. -/
def readArgument (options : Options) (argument : String) : Except UsageError Step :=
  match argument.toList with
  | '-' :: '-' :: text => longOption options argument text
  | '-' :: letter :: rest => shortOptions options argument (letter :: rest)
  | _ => .ok (.next { options with queries := options.queries ++ [argument] })

/-- Read the arguments behind those that gave some options. -/
def readArguments (options : Options) : List String → Except UsageError Request
  | [] => .ok (.run options)
  | "--" :: rest => .ok (.run { options with queries := options.queries ++ rest })
  | argument :: rest => do
    match ← readArgument options argument with
    | .next options => readArguments options rest
    | .stop request => .ok request
    | .awaiting options setting =>
      match rest with
      | [] => .error (.missingValue argument)
      | value :: rest =>
        if isOption value then .error (.missingValue argument)
        else do readArguments (← assign options setting argument value) rest
termination_by arguments => arguments.length

/-- Read the arguments of the program. -/
def read (arguments : List String) : Except UsageError Request :=
  readArguments Options.none arguments

end CommandLine

end FilterQuery
