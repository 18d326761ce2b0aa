import FilterQuery.Run

/-!
# The command line program

The only effects are here: the files that the arguments name are read, with the
standard input and the environment, and what the run leaves behind is written.
-/

open FilterQuery

/-- The bytes behind an open handle, if they can be read. -/
def readEntry (handle : IO.FS.Handle) : IO Entry :=
  try
    return .file (← handle.readBinToEnd).data.toList
  catch _ => return .unreadable

/-- What stands at a path. -/
def lookAt (path : String) : IO (Option Entry) :=
  try
    return some (← readEntry (← IO.FS.Handle.mk path .read))
  catch _ => return none

/-- The paths that a run may look at. -/
def namedPaths (options : Options) : List String :=
  let configs :=
    match options.config with
    | some path =>
      path :: ((Configuration.extensible? path).toList.flatMap fun plain =>
        Configuration.Notation.extensions.map fun (ending, _) => plain ++ "." ++ ending)
    | none => []
  configs ++ (options.batch.filter (· ≠ "-")).toList

/-- Read a stream to its end, behind the bytes that are already read. -/
partial def readAll (stream : IO.FS.Stream) (sofar : ByteArray) : IO ByteArray := do
  let bytes ← stream.read 65536
  if bytes.isEmpty then return sofar else readAll stream (sofar ++ bytes)

/-- Read what a run may look at. -/
def readSurroundings (options : Options) : IO Surroundings := do
  let entries ← (namedPaths options).mapM fun path => do return (path, ← lookAt path)
  let input ←
    if options.batch = some "-" then readAll (← IO.getStdin) ByteArray.empty
    else pure ByteArray.empty
  let schema ← IO.getEnv "FILTERC_SCHEMA"
  return ⟨fun path => (entries.find? fun entry => entry.1 = path).bind Prod.snd,
    input.data.toList, schema⟩

def main (arguments : List String) : IO UInt32 := do
  let surroundings ←
    match CommandLine.read arguments with
    | .ok (.run options) => readSurroundings options
    | _ => pure ⟨fun _ => none, [], none⟩
  let left := program arguments surroundings
  IO.print left.output
  IO.eprint left.errors
  return UInt32.ofNat left.code
