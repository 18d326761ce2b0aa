import FilterQuery.Dictionary
import FilterQuery.Kind

namespace FilterQuery

/-!
# Schemas

A schema names the fields by which records of one sort can be filtered, with the
kind of each.  Field names are arbitrary texts: dots in them have no meaning, and
a field may be called like an operator.

Two schemas are built in, for activity records and for user accounts.
-/

/-- The fields by which records of one sort can be filtered. -/
structure Schema where
  name : String
  fields : Dictionary Kind
  deriving DecidableEq, Repr

namespace Schema

/-- A schema from a list of fields.  Of a repeated field the last kind holds. -/
def ofFields (name : String) (fields : List (String × Kind)) : Schema :=
  ⟨name, Dictionary.ofList fields⟩

/-- The kind of a field. -/
def kind? (schema : Schema) (field : String) : Option Kind :=
  schema.fields.get? field

/-- Whether a name is a field. -/
def contains (schema : Schema) (field : String) : Bool :=
  schema.fields.contains field

/-- Activity records. -/
def tracking : Schema :=
  ofFields "tracking"
    [("date", .timestamp),
     ("time", .duration),
     ("distance", .float32),
     ("location.longitude", .float64),
     ("location.latitude", .float64),
     ("weather.temperature", .float32),
     ("weather.temperature_min", .float32),
     ("weather.temperature_max", .float32),
     ("weather.snowdepth", .float32),
     ("weather.winddirection", .float32),
     ("weather.windspeed", .float32),
     ("weather.pressure", .float32)]

/-- User accounts. -/
def user : Schema :=
  ofFields "user" [("email", .email)]

/-- One line per field in order: the name, a tab and the kind. -/
def listing (schema : Schema) : String :=
  String.join (schema.fields.entries.map fun field => field.1 ++ "\t" ++ field.2.name ++ "\n")

end Schema

end FilterQuery
