namespace FilterQuery

/-!
# What the program sees of its surroundings

The program reads named files, the standard input and one variable of the
environment.  All of it is given as a value, so that a run is a function of its
arguments and of that value.

A path may lead to something that can be opened and not read, such as a
directory.  This is kept apart from a path that leads nowhere.
-/

/-- What stands at a path. -/
inductive Entry where
  | file (bytes : List UInt8)
  | unreadable
  deriving DecidableEq, Repr

/-- The entries by path, the bytes of the standard input, and the schema that the
environment names. -/
structure Surroundings where
  lookup? : String → Option Entry
  standardInput : List UInt8
  schemaVariable : Option String

namespace Surroundings

/-- The bytes of the file at a path. -/
def file? (surroundings : Surroundings) (path : String) : Option (List UInt8) :=
  match surroundings.lookup? path with
  | some (.file bytes) => some bytes
  | _ => none

end Surroundings

end FilterQuery
