import FilterQuery.Schema

namespace FilterQuery

/-!
# The registry of schemas

A query is compiled against a schema selected by name.  The registry starts with
the built-in schemas, and a schema written into it takes the place of the one
with the same name, whole.

Every schema stands under its own name.  That is part of the type, because the
name is kept twice: as the key of the entry and within the schema.
-/

/-- Schemas by name. -/
structure Registry where
  schemas : Dictionary Schema
  named : ∀ entry ∈ schemas.entries, entry.2.name = entry.1
  deriving DecidableEq, Repr

namespace Registry

/-- The registry without a schema. -/
def empty : Registry :=
  ⟨Dictionary.empty, by intro entry member; cases member⟩

/-- Write a schema under its name. -/
def insert (registry : Registry) (schema : Schema) : Registry :=
  ⟨registry.schemas.insert schema.name schema, by
    intro entry member
    rcases Dictionary.mem_place member with same | old
    · rw [same]
    · exact registry.named entry old⟩

/-- The schema of a name. -/
def get? (registry : Registry) (name : String) : Option Schema :=
  registry.schemas.get? name

/-- The names, in order. -/
def names (registry : Registry) : List String :=
  registry.schemas.names

/-- The schemas, in the order of their names. -/
def toList (registry : Registry) : List Schema :=
  registry.schemas.entries.map Prod.snd

/-- The registry of the built-in schemas. -/
def builtIn : Registry :=
  (empty.insert Schema.tracking).insert Schema.user

/-- Write several schemas one after another. -/
def insertAll (registry : Registry) (schemas : List Schema) : Registry :=
  schemas.foldl insert registry

/-- Write a schema, and tell which one it replaced. -/
def replace (registry : Registry) (schema : Schema) : Option Schema × Registry :=
  (registry.get? schema.name, registry.insert schema)

end Registry

end FilterQuery
