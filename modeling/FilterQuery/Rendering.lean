import FilterQuery.Compile
import FilterQuery.Document.Json
import FilterQuery.Document.Yaml

namespace FilterQuery

/-!
# Rendering filters

A filter is shown as a document in one of two notations or as query text.  The
empty filter is the document without members, and has no query text.
-/

/-- The notation of a rendering. -/
inductive OutputNotation where
  | json
  | yaml
  | query
  deriving DecidableEq, Repr

namespace OutputNotation

/-- The word for a notation. -/
def name : OutputNotation → String
  | json => "json"
  | yaml => "yaml"
  | query => "query"

/-- The notation that a word names, in lower case only. -/
def ofName? : String → Option OutputNotation
  | "json" => some json
  | "yaml" => some yaml
  | "query" => some query
  | _ => none

theorem ofName?_name (format : OutputNotation) : ofName? format.name = some format := by
  cases format <;> rfl

end OutputNotation

/-- A filter: a condition, or the empty filter that matches everything. -/
abbrev Filter := Option Condition

namespace Filter

/-- The filter of an input.  Only the input without any character is the empty
filter; an input of blanks is not. -/
def ofInput (schema : Schema) (input : String) : Except Rejection Filter :=
  if input = "" then .ok none else (compile schema input).map some

/-- The document of a filter. -/
def document : Filter → Document
  | some condition => condition.document
  | none => .object []

/-- The query text of a filter. -/
def text : Filter → String
  | some condition => condition.text
  | none => ""

/-- Render a filter.  Only JSON knows two layouts. -/
def render (filter : Filter) (format : OutputNotation) (pretty : Bool) : String :=
  match format with
  | .json => if pretty then filter.document.toPrettyJson else filter.document.toJson
  | .yaml => filter.document.toYaml
  | .query => filter.text

end Filter

end FilterQuery
