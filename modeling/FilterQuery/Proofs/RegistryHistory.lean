import FilterQuery.Proofs.SchemaChoice

namespace FilterQuery

open Text

/-!
# What a history of declarations leaves

A registry is made by writing declared schemas over the built-in ones, and a schema is made by
writing its fields into nothing.  In both a name may come again.  `HeldLast` is the same
statement at both levels: a schema in the registry is what the last declaration of its name says,
and a field in that schema is what the last pair of the declaration says.  Nothing is merged
between two declarations of one name.

A write answers with the schema that it replaces.  The answers of a history are therefore a
record of the registry on its way: each one is what stood under its name behind the declarations
before it.  `Standing` says what that is without a registry, so an answer can be read off the
history too.
-/

/-- A schema holds what a list of fields says, and shows it in order. -/
structure Schema.Holds (fields : List (String × Kind)) (schema : Schema) : Prop where
  kind : ∀ field kind, schema.kind? field = some kind ↔ HeldLast field kind fields
  contains : ∀ field, schema.contains field = true ↔ ∃ kind, schema.kind? field = some kind
  listed : ∀ field kind, (field, kind) ∈ schema.fields.entries ↔ schema.kind? field = some kind
  increasing : schema.fields.entries.Pairwise fun first second => Before first.1 second.1

/-- Declarations one after another: the name of a schema and a list of its fields. -/
abbrev History := List (String × List (String × Kind))

/-- The schemas that are declared. -/
def History.schemas (history : History) : List Schema :=
  history.map fun declared => .ofFields declared.1 declared.2

/-- What stands under a name behind a history: what was declared last, or the built-in schema if
nothing was. -/
inductive Standing (history : History) (name : String) : Schema → Prop
  | declared {fields : List (String × Kind)} (last : HeldLast name fields history) :
    Standing history name (.ofFields name fields)
  | tracking (undeclared : ∀ declared ∈ history, declared.1 ≠ name) (same : name = "tracking") :
    Standing history name .tracking
  | user (undeclared : ∀ declared ∈ history, declared.1 ≠ name) (same : name = "user") :
    Standing history name .user

namespace Registry

/-- Write schemas one after another, and tell of each one which schema it replaced. -/
def replaceAll (registry : Registry) : List Schema → List (Option Schema) × Registry
  | [] => ([], registry)
  | schema :: rest =>
    let written := registry.replace schema
    let others := written.2.replaceAll rest
    (written.1 :: others.1, others.2)

end Registry

/-! ## One schema -/

/-- A schema that is made from a list of fields holds what the list says. -/
theorem Schema.holds_ofFields (name : String) (fields : List (String × Kind)) :
    (ofFields name fields).Holds fields where
  kind _ _ := Dictionary.get?_ofList_eq_some_iff
  contains _ := Option.isSome_iff_exists
  listed _ _ := Dictionary.mem_entries_iff
  increasing := (ofFields name fields).fields.ordered

/-! ## Writes one after another -/

namespace Registry

variable {registry : Registry} {name : String} {schema : Schema} {schemas : List Schema}

/-- A write is a step of `insertAll`, whatever it answers. -/
theorem replaceAll_snd (registry : Registry) (schemas : List Schema) :
    (registry.replaceAll schemas).2 = registry.insertAll schemas := by
  induction schemas generalizing registry with
  | nil => rfl
  | cons first rest ih => exact ih (registry.insert first)

theorem length_replaceAll (registry : Registry) (schemas : List Schema) :
    (registry.replaceAll schemas).1.length = schemas.length := by
  induction schemas generalizing registry with
  | nil => rfl
  | cons first rest ih => exact congrArg (· + 1) (ih (registry.insert first))

/-- The answers to the writes before a place are not changed by those behind it. -/
theorem replaceAll_append_fst (registry : Registry) (schemas others : List Schema) :
    (registry.replaceAll (schemas ++ others)).1 =
      (registry.replaceAll schemas).1 ++ ((registry.insertAll schemas).replaceAll others).1 := by
  induction schemas generalizing registry with
  | nil => rfl
  | cons first rest ih =>
      exact congrArg (registry.get? first.name :: ·) (ih (registry.insert first))

/-- A write answers with what stood under its name just before it. -/
theorem getElem?_replaceAll (registry : Registry) (before after : List Schema) (schema : Schema) :
    (registry.replaceAll (before ++ schema :: after)).1[before.length]? =
      some ((registry.insertAll before).get? schema.name) := by
  rw [replaceAll_append_fst, List.getElem?_append_right (Nat.le_of_eq (length_replaceAll _ _)),
    length_replaceAll, Nat.sub_self]
  rfl

/-- A write behind some others is seen under its name, and nowhere else. -/
theorem get?_insertAll_concat (registry : Registry) (schemas : List Schema) (schema : Schema)
    (name : String) :
    (registry.insertAll (schemas ++ [schema])).get? name =
      if name = schema.name then some schema else (registry.insertAll schemas).get? name := by
  rw [insertAll, List.foldl_append]
  exact get?_insert _ _ _

/-- After some writes the last one of a name is found, or what stood there if there was none. -/
theorem get?_insertAll_eq_some_iff :
    (registry.insertAll schemas).get? name = some schema ↔
      HeldLast name schema (schemas.map fun written => (written.name, written)) ∨
        (∀ written ∈ schemas, written.name ≠ name) ∧ registry.get? name = some schema := by
  have entries : (registry.insertAll schemas).schemas =
      (schemas.map fun written => (written.name, written)).foldl
        (fun held pair => held.insert pair.1 pair.2) registry.schemas := by
    rw [List.foldl_map]
    exact (List.foldl_hom Registry.schemas fun _ _ => rfl).symm
  rw [get?, entries, Dictionary.get?_foldl_insert_eq_some_iff, List.forall_mem_map]
  rfl

theorem get?_builtIn_eq_some_iff :
    builtIn.get? name = some schema ↔
      (name = "tracking" ∧ schema = .tracking) ∨ (name = "user" ∧ schema = .user) := by
  rw [get?_builtIn]
  by_cases isUser : name = "user"
  · simp [isUser, eq_comm]
  · by_cases isTracking : name = "tracking" <;> simp [isUser, isTracking, eq_comm]

/-- What is found behind a history is what stands there. -/
theorem get?_history_eq_some_iff {history : History} :
    (builtIn.insertAll history.schemas).get? name = some schema ↔ Standing history name schema := by
  have declared : (history.schemas.map fun written => (written.name, written)) =
      history.map fun pair => (pair.1, Schema.ofFields pair.1 pair.2) := by
    rw [History.schemas, List.map_map]
    rfl
  rw [get?_insertAll_eq_some_iff, declared, heldLast_map, get?_builtIn_eq_some_iff, History.schemas,
    List.forall_mem_map]
  constructor
  · rintro (⟨fields, last, rfl⟩ | ⟨undeclared, ⟨same, rfl⟩ | ⟨same, rfl⟩⟩)
    · exact .declared last
    · exact .tracking undeclared same
    · exact .user undeclared same
  · rintro (last | ⟨undeclared, same⟩ | ⟨undeclared, same⟩)
    · exact .inl ⟨_, last, rfl⟩
    · exact .inr ⟨undeclared, .inl ⟨same, rfl⟩⟩
    · exact .inr ⟨undeclared, .inr ⟨same, rfl⟩⟩

end Registry

/-! ## What stands behind a history -/

namespace Standing

variable {history : History} {name : String} {schema : Schema}

/-- What stands under a name has that name. -/
theorem name_eq (standing : Standing history name schema) : schema.name = name := by
  cases standing with
  | declared => rfl
  | tracking _ same => exact same.symm
  | user _ same => exact same.symm

/-- Something stands under the built-in names and under all that were declared. -/
theorem exists_iff :
    (∃ schema, Standing history name schema) ↔
      name = "tracking" ∨ name = "user" ∨ ∃ declared ∈ history, declared.1 = name := by
  constructor
  · rintro ⟨schema, last | ⟨_, same⟩ | ⟨_, same⟩⟩
    · exact .inr (.inr (exists_heldLast_iff.mp ⟨_, last⟩))
    · exact .inl same
    · exact .inr (.inl same)
  · intro known
    by_cases occurs : ∃ declared ∈ history, declared.1 = name
    · rcases exists_heldLast_iff.mpr occurs with ⟨fields, last⟩
      exact ⟨_, .declared last⟩
    · have undeclared : ∀ declared ∈ history, declared.1 ≠ name :=
        fun declared member same => occurs ⟨declared, member, same⟩
      rcases known with same | same | declared
      · exact ⟨_, .tracking undeclared same⟩
      · exact ⟨_, .user undeclared same⟩
      · exact absurd declared occurs

end Standing

/-- Behind any history of declarations, the registry holds under each name what was declared
last, and else what is built in.  Each schema stands under its own name.  Each write answered
with what stood under its name just before it, and left every other name as it was.  The names
are the built-in ones and the declared ones, in order.  Whatever list a schema was made from, of
a repeated field its last kind holds. -/
theorem registry_of_history (history : History) :
    let outcome := Registry.builtIn.replaceAll history.schemas
    (∀ name schema, (name, schema) ∈ outcome.2.schemas.entries → schema.name = name) ∧
    (∀ name schema, outcome.2.get? name = some schema ↔ Standing history name schema) ∧
    (outcome.1.length = history.length ∧
      ∀ (before : History) declared (after : History), history = before ++ declared :: after →
        let earlier := (Registry.builtIn.replaceAll before.schemas).2
        let later := (Registry.builtIn.replaceAll (History.schemas (before ++ [declared]))).2
        outcome.1[before.length]? = some (earlier.get? declared.1) ∧
          later.get? declared.1 = some (.ofFields declared.1 declared.2) ∧
          ∀ other, other ≠ declared.1 → later.get? other = earlier.get? other) ∧
    (outcome.2.names.Pairwise Before ∧
      ∀ name, name ∈ outcome.2.names ↔
        name = "tracking" ∨ name = "user" ∨ ∃ declared ∈ history, declared.1 = name) ∧
    ∀ name fields, (Schema.ofFields name fields).Holds fields := by
  simp only [Registry.replaceAll_snd]
  refine ⟨fun name schema stored => ?_, fun name schema => Registry.get?_history_eq_some_iff,
    ⟨?_, fun before declared after split => ?_⟩, ⟨Dictionary.pairwise_names, fun name => ?_⟩,
    Schema.holds_ofFields⟩
  · have found := Dictionary.mem_entries_iff.mp stored
    exact (Registry.get?_history_eq_some_iff.mp found).name_eq
  · rw [Registry.length_replaceAll, History.schemas, List.length_map]
  · have written : History.schemas (before ++ [declared]) =
        before.schemas ++ [.ofFields declared.1 declared.2] := List.map_append
    have answered := Registry.getElem?_replaceAll .builtIn before.schemas (History.schemas after)
      (.ofFields declared.1 declared.2)
    rw [written]
    refine ⟨?_, ?_, fun other different => ?_⟩
    · subst split
      rw [History.schemas, List.length_map] at answered
      rw [History.schemas, List.map_append]
      exact answered
    · rw [Registry.get?_insertAll_concat]
      exact if_pos rfl
    · rw [Registry.get?_insertAll_concat]
      exact if_neg different
  · rw [← Standing.exists_iff, Registry.names, Dictionary.mem_names_iff]
    exact exists_congr fun schema => Registry.get?_history_eq_some_iff

/-- The schema of user accounts is declared twice, with another declaration between the two and
with a repeated field in the first.  The second declaration replaces the first one whole. -/
theorem registry_of_history_of_repeated_user :
    let earlier : History := [("user", [("a", .text), ("b", .email), ("a", .int32)]), ("and", [])]
    let history := earlier ++ [("user", [("b", .text)])]
    let outcome := Registry.builtIn.replaceAll (History.schemas history)
    outcome.1[2]? = some (some (.ofFields "user" [("a", .text), ("b", .email), ("a", .int32)])) ∧
      outcome.2.get? "user" = some (.ofFields "user" [("b", .text)]) ∧
      outcome.2.get? "tracking" = some .tracking ∧
      (Schema.ofFields "user" [("a", .text), ("b", .email), ("a", .int32)]).kind? "a" =
        some .int32 := by
  intro earlier history outcome
  rcases registry_of_history history with ⟨_, found, ⟨_, answers⟩, _, holds⟩
  have before := (registry_of_history earlier).2.1
  refine ⟨?_, ?_, ?_, ?_⟩
  · have answered := (answers earlier ("user", [("b", .text)]) [] rfl).1
    have stood := (before "user" _).mpr (.declared ⟨[], [("and", [])], rfl, by decide⟩)
    exact answered.trans (congrArg some stood)
  · exact (found "user" _).mpr (.declared ⟨earlier, [], rfl, by decide⟩)
  · exact (found "tracking" _).mpr (.tracking (by decide) rfl)
  · exact ((holds "user" _).kind "a" _).mpr ⟨[("a", .text), ("b", .email)], [], rfl, by decide⟩

end FilterQuery
