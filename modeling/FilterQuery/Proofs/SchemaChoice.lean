import FilterQuery.Proofs.LastWrite
import FilterQuery.Run

namespace FilterQuery

open Text

/-!
# Which schema a run compiles against

A name is asked for, and the registry is asked for the schema of that name.  The registry is
made by writing the declared schemas over the built-in ones, one after another.  Since the
settings declare a name once at most, the order of the writes does not matter: what stands under
a name is what is declared for it, or what is built in under it if nothing is declared.  Nothing
of a built-in schema is left behind a declaration of its name.

A name is looked up without regard to the others.  A further declaration therefore changes what
is compiled against the schema it declares, and nothing else.
-/

namespace Registry

variable {registry : Registry} {name : String}

theorem get?_insert (registry : Registry) (schema : Schema) (name : String) :
    (registry.insert schema).get? name =
      if name = schema.name then some schema else registry.get? name :=
  Dictionary.get?_insert _ _ _ _

theorem get?_builtIn (name : String) :
    builtIn.get? name =
      if name = "user" then some Schema.user
      else if name = "tracking" then some Schema.tracking else none := by
  rw [builtIn, get?_insert, get?_insert]
  rfl

/-- Of schemas with different names each one is found under its name, whichever is written
first. -/
theorem get?_insertAll {entries : List (String × Dictionary Kind)}
    (ordered : entries.Pairwise fun first second => Before first.1 second.1) :
    (registry.insertAll (entries.map fun entry => ⟨entry.1, entry.2⟩)).get? name =
      match Dictionary.find? name entries with
      | some fields => some ⟨name, fields⟩
      | none => registry.get? name := by
  induction entries generalizing registry with
  | nil => rfl
  | cons head rest ih =>
      rcases List.pairwise_cons.mp ordered with ⟨first, later⟩
      rw [List.map_cons, insertAll, List.foldl_cons, ← insertAll, ih later, get?_insert,
        Dictionary.find?]
      by_cases same : name = head.1
      · have absent : Dictionary.find? name rest = none :=
          Dictionary.find?_eq_none_of_before (same ▸ first)
        rw [absent, if_pos same, if_pos same, same]
      · rw [if_neg same, if_neg same]

end Registry

namespace Settings

variable {settings : Settings} {name : String}

/-- The settings with one more schema declared, or one declared anew. -/
def declaring (settings : Settings) (name : String) (fields : Dictionary Kind) : Settings :=
  { settings with schemas := settings.schemas.insert name fields }

/-- What is declared under a name stands there, and otherwise what is built in. -/
theorem get?_registry (settings : Settings) (name : String) :
    settings.registry.get? name =
      match settings.schemas.get? name with
      | some fields => some ⟨name, fields⟩
      | none => Registry.builtIn.get? name :=
  Registry.get?_insertAll settings.schemas.ordered

/-- The names of the registry are those declared and those built in. -/
theorem mem_names_registry_iff :
    name ∈ settings.registry.names ↔
      (∃ fields, settings.schemas.get? name = some fields) ∨ name = "tracking" ∨ name = "user" := by
  rw [Registry.names, Dictionary.mem_names_iff]
  change (∃ schema, settings.registry.get? name = some schema) ↔ _
  rw [get?_registry]
  cases declared : settings.schemas.get? name with
  | some fields => simp only [Option.some.injEq, exists_eq', true_or]
  | none =>
      rw [Registry.get?_builtIn]
      by_cases isUser : name = "user"
      · simp [isUser]
      · by_cases isTracking : name = "tracking" <;> simp [isUser, isTracking]

/-- A declaration is seen under its own name only. -/
theorem get?_registry_declaring {declared : String} {fields : Dictionary Kind}
    (other : name ≠ declared) :
    (settings.declaring declared fields).registry.get? name = settings.registry.get? name := by
  rw [get?_registry, get?_registry, declaring, Dictionary.get?_insert, if_neg other]

end Settings

/-- The name that is asked for: on the command line, in the environment, in the settings, or
nowhere, whichever comes first. -/
theorem schemaName_eq (options : Options) (surroundings : Surroundings) (settings : Settings) :
    schemaName options surroundings settings =
      ((options.schema.or surroundings.schemaVariable).or settings.defaultSchema).getD "tracking" := by
  rw [schemaName, Settings.schemaName]
  cases options.schema <;> cases surroundings.schemaVariable <;> rfl

theorem selectSchema_eq_ok_iff {options : Options} {surroundings : Surroundings}
    {settings : Settings} {schema : Schema} :
    selectSchema options surroundings settings = .ok schema ↔
      settings.registry.get? (schemaName options surroundings settings) = some schema := by
  rw [selectSchema]
  cases settings.registry.get? (schemaName options surroundings settings) <;> simp

/-- A run compiles against the schema it is asked for.  Its fields are the declared ones, and
only those, if the settings declare its name.  Otherwise they are the built-in ones, or there is
no such schema, and the error lists what there is, once each and in order.  A declaration does
not change what any query compiles to against a schema of another name, and neither does it
change which schema a run selects unless that run asks for it. -/
theorem selectSchema_of_name (options : Options) (surroundings : Surroundings)
    (settings : Settings) :
    let name :=
      ((options.schema.or surroundings.schemaVariable).or settings.defaultSchema).getD "tracking"
    (∀ fields, settings.schemas.get? name = some fields →
      selectSchema options surroundings settings = .ok ⟨name, fields⟩) ∧
    (settings.schemas.get? name = none →
      (name = "tracking" → selectSchema options surroundings settings = .ok Schema.tracking) ∧
      (name = "user" → selectSchema options surroundings settings = .ok Schema.user) ∧
      (name ≠ "tracking" → name ≠ "user" →
        ∃ known, selectSchema options surroundings settings = .error (.unknownSchema name known) ∧
          known.Pairwise Before ∧
          ∀ other, other ∈ known ↔
            (∃ fields, settings.schemas.get? other = some fields) ∨
              other = "tracking" ∨ other = "user")) ∧
    ∀ declared fields,
      (∀ other, other ≠ declared → ∀ query,
        ((settings.declaring declared fields).registry.get? other).map (compile · query) =
          (settings.registry.get? other).map (compile · query)) ∧
      (name ≠ declared → ∀ schema,
        selectSchema options surroundings (settings.declaring declared fields) = .ok schema ↔
          selectSchema options surroundings settings = .ok schema) := by
  intro name
  have asked : schemaName options surroundings settings = name :=
    schemaName_eq options surroundings settings
  have found := Settings.get?_registry settings name
  refine ⟨fun fields declared => ?_, fun undeclared => ⟨fun isTracking => ?_, fun isUser => ?_,
    fun notTracking notUser => ?_⟩, fun declared fields => ⟨fun other different query => ?_,
      fun different schema => ?_⟩⟩
  · rw [selectSchema_eq_ok_iff, asked, found, declared]
  · rw [selectSchema_eq_ok_iff, asked, found, undeclared, isTracking]
    rfl
  · rw [selectSchema_eq_ok_iff, asked, found, undeclared, isUser]
    rfl
  · rw [undeclared, Registry.get?_builtIn, if_neg notUser, if_neg notTracking] at found
    refine ⟨settings.registry.names, ?_, Dictionary.pairwise_names, fun other =>
      Settings.mem_names_registry_iff⟩
    simp only [selectSchema, asked, found]
  · rw [Settings.get?_registry_declaring different]
  · have sameName : schemaName options surroundings (settings.declaring declared fields) = name :=
      schemaName_eq options surroundings _
    rw [selectSchema_eq_ok_iff, selectSchema_eq_ok_iff, asked, sameName,
      Settings.get?_registry_declaring different]

/-- A declared schema of user accounts has only the field that is declared for it, and it is
listed once among the known names. -/
theorem selectSchema_of_name_of_declared_user :
    selectSchema ⟨[], none, none, none, none, none, false, false⟩
        ⟨fun _ => none, [], some "user"⟩
        (Settings.default.declaring "user" (Dictionary.ofList [("nickname", .text)])) =
      .ok (.ofFields "user" [("nickname", .text)]) ∧
    ∃ known, selectSchema ⟨[], some "nowhere", none, none, none, none, false, false⟩
        ⟨fun _ => none, [], some "user"⟩
        (Settings.default.declaring "user" (Dictionary.ofList [("nickname", .text)])) =
      .error (.unknownSchema "nowhere" known) ∧ known.Pairwise Before ∧ "user" ∈ known := by
  constructor
  · exact (selectSchema_of_name ⟨[], none, none, none, none, none, false, false⟩
      ⟨fun _ => none, [], some "user"⟩
      (Settings.default.declaring "user" (Dictionary.ofList [("nickname", .text)]))).1 _ rfl
  · rcases (selectSchema_of_name ⟨[], some "nowhere", none, none, none, none, false, false⟩
      ⟨fun _ => none, [], some "user"⟩
      (Settings.default.declaring "user" (Dictionary.ofList [("nickname", .text)]))).2.1
      (by decide) with ⟨_, _, unknown⟩
    rcases unknown (by decide) (by decide) with ⟨known, failed, increasing, lists⟩
    exact ⟨known, failed, increasing, (lists "user").mpr (.inr (.inr rfl))⟩

end FilterQuery
