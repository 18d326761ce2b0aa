import FilterQuery.Value

namespace FilterQuery

/-!
# Query documents

A compiled filter is handed to a document store as a nested document.  Only the
parts of the document model that filters need are here: there are no booleans,
and integers are kept apart from other numbers, as they are written differently.

Objects keep their members in the order in which they were given.  Nothing here
prevents a repeated key; the documents made from filters have one key per object.
-/

/-- A document. -/
inductive Document where
  | null
  | integer (value : Int)
  | number (value : Binary BinaryFormat.double)
  | string (text : String)
  | array (items : List Document)
  | object (members : List (String × Document))
  deriving Repr

namespace Document

/-- A number, or nothing where documents have no number. -/
def ofBinary (value : Binary BinaryFormat.double) : Document :=
  if value.isFinite then number value else null

end Document

namespace Value

/-- The document of a value.  A duration is its nanoseconds if they fit into 64
bits.  A narrow floating point number goes through its shortest decimal, so that
a tenth stays a tenth. -/
def document : Value → Document
  | timestamp date =>
    match date.midnight? with
    | some moment => .string (String.ofList moment)
    | none => .null
  | duration span =>
    match int64? span.nanoseconds with
    | some count => .integer count.toInt
    | none => .null
  | int32 value => .integer value.toInt
  | int64 value => .integer value.toInt
  | float32 value => .ofBinary value.widenDecimally
  | float64 value => .ofBinary value
  | text content => .string content
  | email address => .string address

end Value

end FilterQuery
