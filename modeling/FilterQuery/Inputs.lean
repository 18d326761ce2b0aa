import FilterQuery.CommandLine
import FilterQuery.Surroundings
import FilterQuery.Text.Blank
import FilterQuery.Text.Utf8

namespace FilterQuery

open Text

/-!
# Inputs

Queries come from the command line and from a batch, which has one query per
line.  Each input keeps a label that tells where it came from.  Lines are counted
before blank ones are left out, so that a label is the number of the line in its
file.

A line is ended by a line feed, and a carriage return right before it belongs to
the end.  The last line needs no end.  A batch is used whole or not at all: one
line that is no UTF-8 makes it unreadable, even if the line is blank otherwise.
-/

/-- A query and where it came from. -/
structure Input where
  label : String
  text : String
  deriving DecidableEq, Repr

/-- Why the inputs of a run cannot be collected. -/
inductive InputError where
  | batchNotOpened (path : String)
  | batchNotRead
  deriving DecidableEq, Repr

namespace Batch

/-- The lines that follow a place, and whether a line feed is the first byte
there. -/
structure Lines where
  lines : List (List UInt8)
  atEnd : Bool
  deriving DecidableEq, Repr

/-- Put a byte before the lines that follow it. -/
def prepend (byte : UInt8) (behind : Lines) : Lines :=
  if byte = 10 then ⟨[] :: behind.lines, true⟩
  else if byte = 13 ∧ behind.atEnd then ⟨behind.lines, false⟩
  else
    match behind.lines with
    | [] => ⟨[[byte]], false⟩
    | line :: rest => ⟨(byte :: line) :: rest, false⟩

/-- The lines of a batch without their ends. -/
def lines (bytes : List UInt8) : List (List UInt8) :=
  (bytes.foldr prepend ⟨[], false⟩).lines

/-- The inputs of numbered lines. -/
def inputs (path : String) (numbered : List (String × Nat)) : List Input :=
  (numbered.filter fun (line, _) => !line.toList.all isWhite).map fun (line, number) =>
    ⟨path ++ ":" ++ toString number, line⟩

/-- The inputs of a batch. -/
def read (path : String) (bytes : List UInt8) : Except InputError (List Input) :=
  match (lines bytes).mapM decode? with
  | some texts => .ok (inputs path (texts.zipIdx 1))
  | none => .error .batchNotRead

/-- What a batch is read from.  A hyphen stands for the standard input. -/
def source? (surroundings : Surroundings) (path : String) : Option Entry :=
  if path = "-" then some (.file surroundings.standardInput) else surroundings.lookup? path

end Batch

/-- The inputs of the queries on the command line. -/
def queryInputs (queries : List String) : List Input :=
  (queries.zipIdx 1).map fun (query, number) => ⟨"query " ++ toString number, query⟩

/-- All inputs of a run: first the queries of the command line, then the lines of
the batch. -/
def gatherInputs (options : Options) (surroundings : Surroundings) :
    Except InputError (List Input) :=
  let given := queryInputs options.queries
  match options.batch with
  | none => .ok given
  | some path =>
    match Batch.source? surroundings path with
    | none => .error (.batchNotOpened path)
    | some .unreadable => .error .batchNotRead
    | some (.file bytes) => (Batch.read path bytes).map (given ++ ·)

end FilterQuery
