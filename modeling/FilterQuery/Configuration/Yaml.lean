import FilterQuery.Configuration.Yaml.Tree

namespace FilterQuery

/-!
# Reading configuration from YAML

A configuration file is a single document.  A text without any document is an
empty table, and a document that is begun and left empty is a null.
-/

namespace Configuration

/-- Read a configuration in YAML. -/
def ofYaml? (text : List Char) : Option Node := do
  let tokens ← Yaml.Token.ofText? (Yaml.effectiveText text)
  match ← Yaml.Tree.documents? (2 * tokens.length + 2) true tokens with
  | [] => some (.table [])
  | [tree] => tree.node?
  | _ => none

end Configuration

end FilterQuery
