import Mathlib.Control.Monad.Basic
import FilterQuery.Proofs.Outcome
import FilterQuery.Run

namespace FilterQuery

/-!
# What a run writes

A run compiles nothing unless all that it needs is there: settings, a schema, and at least
one input.  `Ready` says that it is and `Blocked` says what is missing, and a run that does
not list fields is one or the other.  A run that is blocked writes nothing to the standard
output, whatever its inputs are.  All of this is for any loader of settings: which files it
knows how to read decides which runs are ready, and nothing else.

A run that is ready goes through its inputs one after another.  `Report.add` is one step of
that: an outcome is written behind what is there, or it is complained of and counted.  The
report of a run is made from all outcomes at once, so it is first shown to be the report of
these steps.  What holds after some of the inputs is `Accounts`, and a step keeps it.  Each
input has its place in it by its text alone.  A rejected input therefore takes nothing away
from the others and moves none of them.
-/

/-- The notation of the renderings of a run: that of the command line, or of the settings,
or JSON. -/
def formatOf (options : Options) (settings : Settings) : OutputNotation :=
  match options.format, settings.format with
  | some format, _ => format
  | none, some format => format
  | none, none => .json

/-- What a text adds to the standard output. -/
def renderedLine (schema : Schema) (format : OutputNotation) (pretty : Bool) (text : String) :
    String :=
  match Filter.ofInput schema text with
  | .ok filter => filter.render format pretty ++ "\n"
  | .error _ => ""

/-- A text is rejected. -/
def rejects (schema : Schema) (text : String) : Bool :=
  match Filter.ofInput schema text with
  | .ok _ => false
  | .error _ => true

/-- Report one more outcome behind those that are reported already. -/
def Report.add (format : OutputNotation) (pretty : Bool) (report : Report) (outcome : Outcome) :
    Report :=
  match outcome.rendered? format pretty with
  | some line => { report with output := report.output ++ line }
  | none =>
    { report with
      complaints := report.complaints ++ outcome.complaint?.getD ""
      failures := report.failures + 1 }

/-- A report accounts for some inputs: it has a line for each one that is accepted, in
their order, and the number of the others. -/
structure Accounts (schema : Schema) (format : OutputNotation) (pretty : Bool)
    (inputs : List Input) (report : Report) : Prop where
  output : report.output =
    String.join (inputs.map fun input => renderedLine schema format pretty input.text)
  failures : report.failures = inputs.countP fun input => rejects schema input.text

/-- All that a run needs in order to compile its inputs is there. -/
structure Ready (load : Settings.Loader) (options : Options) (surroundings : Surroundings)
    (settings : Settings) (schema : Schema) (inputs : List Input) : Prop where
  loaded : loadSettings options surroundings load = .ok settings
  selected : selectSchema options surroundings settings = .ok schema
  compiles : options.listFields = false
  gathered : gatherInputs options surroundings = .ok inputs
  nonempty : inputs ≠ []

/-- Something that a run needs is missing.  Inputs are not looked at where fields are
listed. -/
inductive Blocked (load : Settings.Loader) (options : Options) (surroundings : Surroundings) : Prop
  | settings {error : RunError} (failed : loadSettings options surroundings load = .error error)
  | schema {settings : Settings} {error : RunError}
      (loaded : loadSettings options surroundings load = .ok settings)
      (unknown : selectSchema options surroundings settings = .error error)
  | inputs {error : InputError} (compiles : options.listFields = false)
      (failed : gatherInputs options surroundings = .error error)
  | noInput (compiles : options.listFields = false)
      (none : gatherInputs options surroundings = .ok [])

variable {load : Settings.Loader} {options : Options} {surroundings : Surroundings}
  {settings : Settings} {schema : Schema} {inputs : List Input} {format : OutputNotation}
  {pretty : Bool}

/-! ## Going through the inputs -/

theorem formatOf_eq (options : Options) (settings : Settings) :
    (options.format.orElse fun _ => settings.format).getD .json = formatOf options settings := by
  rw [formatOf]
  cases options.format with
  | some format => rfl
  | none => cases settings.format <;> rfl

/-- An outcome is written or complained of, and not both. -/
theorem Outcome.rendered_or_complaint (outcome : Outcome) (format : OutputNotation)
    (pretty : Bool) :
    (∃ line, outcome.rendered? format pretty = some line ∧ outcome.complaint? = none) ∨
      ∃ complaint, outcome.rendered? format pretty = none ∧ outcome.complaint? = some complaint := by
  rw [rendered?, complaint?]
  cases outcome.result with
  | ok filter => exact .inl ⟨_, rfl, rfl⟩
  | error rejection => exact .inr ⟨_, rfl, rfl⟩

namespace Report

/-- Outcomes are reported one after another, behind those that come first. -/
theorem foldl_add (outcomes : List Outcome) (report : Report) :
    outcomes.foldl (add format pretty) report =
      ⟨report.output ++ (ofOutcomes format pretty outcomes).output,
        report.complaints ++ (ofOutcomes format pretty outcomes).complaints,
        report.failures + (ofOutcomes format pretty outcomes).failures⟩ := by
  induction outcomes generalizing report with
  | nil =>
      simp only [List.foldl_nil, ofOutcomes, List.filterMap_nil, String.join_nil,
        String.append_empty, List.length_nil, Nat.add_zero]
  | cons outcome rest ih =>
      rw [List.foldl_cons, ih, add]
      rcases outcome.rendered_or_complaint format pretty with
        ⟨line, rendered, fine⟩ | ⟨complaint, unrendered, complained⟩
      · simp only [ofOutcomes, rendered, List.filterMap_cons_some rendered,
          List.filterMap_cons_none fine, String.join_cons, String.append_assoc]
      · simp only [ofOutcomes, unrendered, complained, List.filterMap_cons_none unrendered,
          List.filterMap_cons_some complained, String.join_cons, String.append_assoc,
          Option.getD_some, List.length_cons, Nat.add_assoc, Nat.add_comm 1]

/-- The report on some outcomes is that of reporting one after another. -/
theorem ofOutcomes_eq_foldl (outcomes : List Outcome) :
    ofOutcomes format pretty outcomes = outcomes.foldl (add format pretty) ⟨"", "", 0⟩ := by
  rw [foldl_add]
  simp only [String.empty_append, Nat.zero_add]

variable {report : Report} {input : Input}

/-- A step writes the line of its input, if it has one. -/
theorem output_add :
    (report.add format pretty (Outcome.ofInput schema input)).output =
      report.output ++ renderedLine schema format pretty input.text := by
  rw [add, Outcome.rendered?, Outcome.ofInput, renderedLine]
  cases Filter.ofInput schema input.text with
  | ok filter => rfl
  | error rejection => exact String.append_empty.symm

/-- A step counts its input if that is rejected. -/
theorem failures_add :
    (report.add format pretty (Outcome.ofInput schema input)).failures =
      report.failures + if rejects schema input.text then 1 else 0 := by
  rw [add, Outcome.rendered?, Outcome.ofInput, rejects]
  cases Filter.ofInput schema input.text with
  | ok filter => rfl
  | error rejection => rfl

end Report

namespace Accounts

variable {report : Report}

/-- Nothing is written before the first input. -/
theorem nil : Accounts schema format pretty [] ⟨"", "", 0⟩ :=
  ⟨rfl, rfl⟩

/-- A step accounts for one more input, and for nothing else. -/
theorem add (accounts : Accounts schema format pretty inputs report) (input : Input) :
    Accounts schema format pretty (inputs ++ [input])
      (report.add format pretty (Outcome.ofInput schema input)) := by
  constructor
  · rw [Report.output_add, accounts.output, List.map_append, String.join_append, List.map_singleton,
      String.join_cons, String.join_nil, String.append_empty]
  · rw [Report.failures_add, accounts.failures, List.countP_append, List.countP_singleton]

/-- So do as many steps as there are inputs. -/
theorem foldl (accounts : Accounts schema format pretty inputs report) (others : List Input) :
    Accounts schema format pretty (inputs ++ others)
      ((others.map (Outcome.ofInput schema)).foldl (Report.add format pretty) report) := by
  induction others generalizing inputs report with
  | nil =>
      rw [List.append_nil]
      exact accounts
  | cons input rest ih =>
      have later := ih (accounts.add input)
      rw [List.append_assoc, List.singleton_append] at later
      exact later

/-- The report on the outcomes of all inputs accounts for them. -/
theorem ofOutcomes (inputs : List Input) :
    Accounts schema format pretty inputs
      (Report.ofOutcomes format pretty (inputs.map (Outcome.ofInput schema))) := by
  rw [Report.ofOutcomes_eq_foldl]
  exact nil.foldl inputs

end Accounts

/-! ## What a run needs -/

/-- A run that is ready reports on its inputs. -/
theorem run_of_ready (ready : Ready load options surroundings settings schema inputs) :
    run options surroundings load = .ok (reportInputs options settings schema inputs) := by
  rw [run, ready.loaded, ok_bind, ready.selected, ok_bind, ready.compiles,
    if_neg Bool.false_ne_true, ready.gathered]
  exact if_neg ready.nonempty

theorem Exit.output_ofReport (report : Report) : (ofReport report).output = report.output := by
  rw [ofReport]
  split <;> rfl

theorem Exit.code_ofReport (report : Report) :
    (ofReport report).code = if report.failures = 0 then 0 else 1 := by
  rw [ofReport]
  split <;> rfl

/-- What a run that is ready leaves behind is its report. -/
theorem program_of_ready {arguments : List String}
    (asked : CommandLine.read arguments = .ok (.run options))
    (ready : Ready load options surroundings settings schema inputs) :
    program arguments surroundings load =
      Exit.ofReport (reportInputs options settings schema inputs) := by
  rw [program, asked]
  simp only [run_of_ready ready, Exit.ofRun]

/-- The report of a run has its line for each input that is accepted. -/
theorem accounts_reportInputs (options : Options) (settings : Settings) (schema : Schema)
    (inputs : List Input) :
    Accounts schema (formatOf options settings) settings.pretty inputs
      (reportInputs options settings schema inputs) := by
  rw [reportInputs, formatOf_eq]
  exact .ofOutcomes inputs

/-- A run that is blocked stops. -/
theorem run_of_blocked (blocked : Blocked load options surroundings) :
    ∃ error, run options surroundings load = .error error := by
  cases loaded : loadSettings options surroundings load with
  | error error => exact ⟨error, by rw [run, loaded, error_bind]⟩
  | ok settings =>
      cases selected : selectSchema options surroundings settings with
      | error error => exact ⟨error, by rw [run, loaded, ok_bind, selected, error_bind]⟩
      | ok schema =>
          rw [run, loaded, ok_bind, selected, ok_bind]
          cases blocked with
          | settings failed =>
              rw [loaded] at failed
              cases failed
          | schema loadedAgain unknown =>
              rw [loaded] at loadedAgain
              cases loadedAgain
              rw [selected] at unknown
              cases unknown
          | @inputs cause compiles failed =>
              exact ⟨.inputs cause, by rw [compiles, if_neg Bool.false_ne_true, failed]; rfl⟩
          | noInput compiles none =>
              exact ⟨.noQueries, by rw [compiles, if_neg Bool.false_ne_true, none]; rfl⟩

/-- A run that does not list fields is ready, or else it is blocked. -/
theorem ready_or_blocked (compiles : options.listFields = false) :
    (∃ settings schema inputs, Ready load options surroundings settings schema inputs) ∨
      Blocked load options surroundings := by
  cases loaded : loadSettings options surroundings load with
  | error error => exact .inr (.settings loaded)
  | ok settings =>
      cases selected : selectSchema options surroundings settings with
      | error error => exact .inr (.schema loaded selected)
      | ok schema =>
          cases gathered : gatherInputs options surroundings with
          | error error => exact .inr (.inputs compiles gathered)
          | ok inputs =>
              cases inputs with
              | nil => exact .inr (.noInput compiles gathered)
              | cons input others =>
                  exact .inl ⟨settings, schema, input :: others,
                    loaded, selected, compiles, gathered, List.cons_ne_nil input others⟩

/-- What a run leaves behind, with any loader.  If it is ready, the standard output is the
rendering of each input that is accepted, in the order of the inputs and each with a line end
behind it.  The exit code is zero if all of them are, and one otherwise.  If it is blocked,
nothing is written and the exit code is one, whatever the inputs are.  Where no fields are listed
there is nothing else. -/
theorem program_of_run (load : Settings.Loader) (arguments : List String) (options : Options)
    (surroundings : Surroundings) (asked : CommandLine.read arguments = .ok (.run options)) :
    (∀ settings schema inputs, Ready load options surroundings settings schema inputs →
      ∃ report, run options surroundings load = .ok report ∧
        report.output = String.join (inputs.map fun input =>
          renderedLine schema (formatOf options settings) settings.pretty input.text) ∧
        report.failures = inputs.countP (fun input => rejects schema input.text) ∧
        (program arguments surroundings load).output = report.output ∧
        (program arguments surroundings load).code = if report.failures = 0 then 0 else 1) ∧
      (Blocked load options surroundings →
        (program arguments surroundings load).output = "" ∧
          (program arguments surroundings load).code = 1) ∧
      (options.listFields = false →
        (∃ settings schema inputs, Ready load options surroundings settings schema inputs) ∨
          Blocked load options surroundings) := by
  refine ⟨fun settings schema inputs ready => ?_, fun blocked => ?_, ready_or_blocked⟩
  · have accounts := accounts_reportInputs options settings schema inputs
    refine ⟨_, run_of_ready ready, accounts.output, accounts.failures, ?_⟩
    rw [program_of_ready asked ready]
    exact ⟨Exit.output_ofReport _, Exit.code_ofReport _⟩
  · rcases run_of_blocked blocked with ⟨error, stopped⟩
    rw [program, asked]
    simp only [stopped, Exit.ofRun, and_self]

/-- The second of three queries is rejected and the third is empty.  The first of them alone
writes nothing where the schema is unknown.  With a file that chooses schema and notation it is
written again, and a loader that knows more notations reads an empty file in one of them. -/
theorem program_of_run_of_rejected_query :
    (program ["-s", "user", "-f", "query", "email eq a@b.cd", "email eq nobody", ""]
        ⟨fun _ => none, [], none⟩).output = "email eq a@b.cd\n\n" ∧
      (program ["-s", "user", "-f", "query", "email eq a@b.cd", "email eq nobody", ""]
        ⟨fun _ => none, [], none⟩).code = 1 ∧
      (program ["-s", "nowhere", "email eq a@b.cd"] ⟨fun _ => none, [], none⟩).output = "" ∧
      (program ["-s", "nowhere", "email eq a@b.cd"] ⟨fun _ => none, [], none⟩).code = 1 ∧
      (program ["-c", "c.yaml", "email eq a@b.cd"]
        ⟨fun _ => some (.file (Text.encode "default_schema: user\nformat: query\n")), [],
          none⟩).output = "email eq a@b.cd\n" ∧
      (program ["-c", "c.toml", "-f", "query", ""] ⟨fun _ => some (.file []), [], none⟩
        fun _ _ => some Settings.default).output = "\n" := by
  have known := program_of_run Settings.ofFile?
    ["-s", "user", "-f", "query", "email eq a@b.cd", "email eq nobody", ""]
    ⟨["email eq a@b.cd", "email eq nobody", ""], some "user", none, none, some .query, none,
      false, false⟩ ⟨fun _ => none, [], none⟩ (by decide +kernel)
  have unknown := program_of_run Settings.ofFile? ["-s", "nowhere", "email eq a@b.cd"]
    ⟨["email eq a@b.cd"], some "nowhere", none, none, none, none, false, false⟩
    ⟨fun _ => none, [], none⟩ (by decide +kernel)
  have chosen := program_of_run Settings.ofFile? ["-c", "c.yaml", "email eq a@b.cd"]
    ⟨["email eq a@b.cd"], none, none, some "c.yaml", none, none, false, false⟩
    ⟨fun _ => some (.file (Text.encode "default_schema: user\nformat: query\n")), [], none⟩
    (by decide +kernel)
  have other := program_of_run (fun _ _ => some Settings.default)
    ["-c", "c.toml", "-f", "query", ""]
    ⟨[""], none, none, some "c.toml", some .query, none, false, false⟩
    ⟨fun _ => some (.file []), [], none⟩ (by decide +kernel)
  rcases known.1 Settings.default Schema.user
      [⟨"query 1", "email eq a@b.cd"⟩, ⟨"query 2", "email eq nobody"⟩, ⟨"query 3", ""⟩]
      ⟨rfl, by decide +kernel, rfl, by decide +kernel, by decide⟩ with
    ⟨report, _, output, failures, written, code⟩
  rw [show report.failures = 1 from failures.trans (by decide +kernel)] at code
  have blocked : Blocked Settings.ofFile?
      ⟨["email eq a@b.cd"], some "nowhere", none, none, none, none, false, false⟩
      ⟨fun _ => none, [], none⟩ := by
    refine @Blocked.schema _ _ _ Settings.default (.unknownSchema "nowhere" ["tracking", "user"])
      rfl ?_
    decide +kernel
  rcases chosen.1 ⟨some "user", some .query, true, Dictionary.empty⟩ Schema.user
      [⟨"query 1", "email eq a@b.cd"⟩]
      ⟨by decide +kernel, by decide +kernel, rfl, by decide +kernel, by decide⟩ with
    ⟨_, _, chosenOutput, _, chosenWritten, _⟩
  rcases other.1 Settings.default Schema.tracking [⟨"query 1", ""⟩]
      ⟨rfl, by decide +kernel, rfl, by decide +kernel, by decide⟩ with
    ⟨_, _, otherOutput, _, otherWritten, _⟩
  exact ⟨written.trans (output.trans (by decide +kernel)), code, (unknown.2.1 blocked).1,
    (unknown.2.1 blocked).2, chosenWritten.trans (chosenOutput.trans (by decide +kernel)),
    otherWritten.trans (otherOutput.trans (by decide +kernel))⟩

end FilterQuery
