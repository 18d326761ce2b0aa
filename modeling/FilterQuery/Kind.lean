namespace FilterQuery

/-!
# The kinds of values a field can hold

A schema gives each field one of eight kinds.  The kind decides which literals
may be compared with the field and how they are read.  Kinds are named in
configuration files, in listings and in messages, always by the same word.
-/

/-- What a field holds, and so how the literal beside it is read. -/
inductive Kind where
  | timestamp
  | duration
  | int32
  | int64
  | float32
  | float64
  | text
  | email
  deriving DecidableEq, Repr

namespace Kind

/-- The word for a kind. -/
def name : Kind → String
  | timestamp => "timestamp"
  | duration => "duration"
  | int32 => "int32"
  | int64 => "int64"
  | float32 => "float32"
  | float64 => "float64"
  | text => "text"
  | email => "email"

/-- The kind that a word names, in lower case only. -/
def ofName? : String → Option Kind
  | "timestamp" => some timestamp
  | "duration" => some duration
  | "int32" => some int32
  | "int64" => some int64
  | "float32" => some float32
  | "float64" => some float64
  | "text" => some text
  | "email" => some email
  | _ => none

theorem ofName?_name (kind : Kind) : ofName? kind.name = some kind := by
  cases kind <;> rfl

end Kind

end FilterQuery
