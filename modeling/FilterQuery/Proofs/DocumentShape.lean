import FilterQuery.Proofs.DocumentIdentity

namespace FilterQuery

open Text

/-!
# The shape of documents

Writing a value as a document has a way out for what documents cannot say: a date in a
negative year, a duration of more than 64 bits and a number that is not finite become null.
None of these is read from a literal.  A literal of a date has no sign, a sum of components
is refused beyond 64 bits, and numbers that are not finite are dropped when they are read.
So the document of a compiled query is never null anywhere.

What it says instead is `Kind.Shows`, which tells for each kind what the document of a
literal is, and `Documented`, which follows the condition: an object with the one key of the
combinator over the documents of both sides, or one with the field over the comparator.  The
words of the query are carried along, so that each leaf is tied to the literal that was
written there, and not only to the value that was made from it.
-/

namespace Document

/-- A document stands in another: it is that other one, or stands in one of its items or
members. -/
inductive Within (part : Document) : Document → Prop where
  | whole : Within part part
  | item {items : List Document} {item : Document} (listed : item ∈ items)
      (inner : Within part item) : Within part (.array items)
  | member {members : List (String × Document)} {key : String} {document : Document}
      (listed : (key, document) ∈ members) (inner : Within part document) :
      Within part (.object members)

/-- Everything that stands in a document has a property. -/
def Every (property : Document → Prop) (document : Document) : Prop :=
  ∀ part, part.Within document → property part

/-- A document that is not null, and has one key if it is an object and two items if it is
an array. -/
def IsRegular : Document → Prop
  | null => False
  | array items => items.length = 2
  | object members => members.length = 1
  | _ => True

/-- A document without parts that is not null. -/
def IsScalar : Document → Prop
  | null => False
  | array _ => False
  | object _ => False
  | _ => True

end Document

/-- The document of a literal of a kind. -/
def Kind.Shows (literal : String) (shown : Document) : Kind → Prop
  | .timestamp => shown = .string (literal ++ "T00:00:00Z")
  | .duration =>
    ∃ total, Duration.total? literal.toList = some total ∧ -2 ^ 63 ≤ total ∧ total < 2 ^ 63 ∧
      shown = .integer total
  | .int32 => ∃ number, integer? literal.toList = some number ∧ shown = .integer number
  | .int64 => ∃ number, integer? literal.toList = some number ∧ shown = .integer number
  | .float32 =>
    ∃ narrow : Binary BinaryFormat.single, Binary.read? literal.toList = some narrow ∧
      narrow.widenDecimally.isFinite = true ∧ shown = .number narrow.widenDecimally
  | .float64 =>
    ∃ number : Binary BinaryFormat.double, Binary.read? literal.toList = some number ∧
      number.isFinite = true ∧ shown = .number number
  | .text => shown = .string literal
  | .email => shown = .string literal

/-- The document of a condition that was read from some words. -/
inductive Documented (schema : Schema) : Condition → List String → Document → Prop where
  /-- A field with the comparator and what the literal shows. -/
  | comparison {field literal : String} {comparator : Comparator} {kind : Kind} {value : Value}
      {shown : Document} (known : schema.kind? field = some kind)
      (valued : kind.valueOf literal = .ok value) (shows : kind.Shows literal shown) :
      Documented schema (.comparison field comparator value) [field, comparator.token, literal]
        (.object [(field, .object [(comparator.key, shown)])])
  /-- A combinator with the documents of both sides, the left one first. -/
  | combination {combinator : Combinator} {left right : Condition}
      {leftWords rightWords : List String} {leftDocument rightDocument : Document}
      (first : Documented schema left leftWords leftDocument)
      (second : Documented schema right rightWords rightDocument) :
      Documented schema (.combination combinator left right)
        (leftWords ++ combinator.token :: rightWords)
        (.object [(combinator.key, .array [leftDocument, rightDocument])])

/-! ## Parts of documents -/

namespace Document

variable {property : Document → Prop} {document : Document}

theorem every_of_isScalar (scalar : document.IsScalar) (holds : property document) :
    document.Every property := by
  intro part within
  cases within with
  | whole => exact holds
  | item => exact scalar.elim
  | member => exact scalar.elim

theorem every_object_single {key : String} (holds : property (.object [(key, document)]))
    (every : document.Every property) : (object [(key, document)]).Every property := by
  intro part within
  cases within with
  | whole => exact holds
  | member listed inner =>
      cases List.mem_singleton.mp listed
      exact every part inner

theorem every_array_pair {first second : Document} (holds : property (.array [first, second]))
    (everyFirst : first.Every property) (everySecond : second.Every property) :
    (array [first, second]).Every property := by
  intro part within
  cases within with
  | whole => exact holds
  | item listed inner =>
      rcases List.mem_cons.mp listed with rfl | last
      · exact everyFirst part inner
      · cases List.mem_singleton.mp last
        exact everySecond part inner

end Document

/-! ## What is read is not null -/

namespace Kind

variable {kind : Kind} {literal : String} {value : Value} {shown : Document}

/-- A literal that was read shows in its document as its kind says. -/
theorem shows_of_read? (read : kind.read? literal = some value) :
    kind.Shows literal value.document := by
  cases kind with
  | timestamp =>
      rcases Option.map_eq_some_iff.mp read with ⟨date, found, rfl⟩
      have written : String.ofList (date.literal ++ "T00:00:00Z".toList) =
          literal ++ "T00:00:00Z" := by
        rw [Date.literal_of_read? found, String.ofList_append, String.ofList_toList,
          String.ofList_toList]
      simp only [Shows, Value.document, Date.midnight?_of_read? found, written]
  | duration =>
      rcases Option.map_eq_some_iff.mp read with ⟨span, found, rfl⟩
      rcases Duration.read?_eq_some_iff.mp found with ⟨total, bounded⟩
      rcases exists_int64? bounded with ⟨count, fits, counted⟩
      rw [Duration.maxSum] at bounded
      refine ⟨span.nanoseconds, total, by omega, by omega, ?_⟩
      simp only [Value.document, fits, counted]
  | int32 =>
      rcases Option.map_eq_some_iff.mp read with ⟨narrow, found, rfl⟩
      rcases Option.bind_eq_some_iff.mp found with ⟨number, spelled, fits⟩
      exact ⟨number, spelled, congrArg Document.integer (toInt_of_int32? fits)⟩
  | int64 =>
      rcases Option.map_eq_some_iff.mp read with ⟨narrow, found, rfl⟩
      rcases Option.bind_eq_some_iff.mp found with ⟨number, spelled, fits⟩
      exact ⟨number, spelled, congrArg Document.integer (toInt_of_int64? fits)⟩
  | float32 =>
      rcases Option.map_eq_some_iff.mp read with ⟨narrow, found, rfl⟩
      rcases Option.filter_eq_some_iff.mp found with ⟨spelled, finite⟩
      have widened : narrow.widenDecimally.isFinite = true := by
        rw [Binary.isFinite_widenDecimally]
        exact finite
      exact ⟨narrow, spelled, widened, if_pos widened⟩
  | float64 =>
      rcases Option.map_eq_some_iff.mp read with ⟨number, found, rfl⟩
      rcases Option.filter_eq_some_iff.mp found with ⟨spelled, finite⟩
      exact ⟨number, spelled, finite, if_pos finite⟩
  | text =>
      simp only [read?] at read
      split at read <;> cases read
      rfl
  | email =>
      simp only [read?] at read
      split at read <;> cases read
      rfl

/-- What a literal shows is a string, an integer or a number. -/
theorem isScalar_of_shows (shows : kind.Shows literal shown) : shown.IsScalar := by
  cases kind with
  | timestamp | text | email =>
      rcases shows with rfl
      trivial
  | duration =>
      rcases shows with ⟨_, _, _, _, rfl⟩
      trivial
  | int32 | int64 =>
      rcases shows with ⟨_, _, rfl⟩
      trivial
  | float32 | float64 =>
      rcases shows with ⟨_, _, _, rfl⟩
      trivial

end Kind

theorem Document.isRegular_of_isScalar {document : Document} (scalar : document.IsScalar) :
    document.IsRegular := by
  cases document with
  | null | array | object => exact scalar.elim
  | integer | number | string => trivial

variable {schema : Schema}

/-- The document of a phrase says what its words say. -/
theorem Derives.documented {phrase : Phrase} {tokens : List Token} {node : Condition}
    (derivation : Derives schema phrase tokens node) :
    Documented schema node (tokens.filterMap Token.word?) node.document := by
  induction derivation with
  | comparison known valued =>
      exact .comparison known valued (Kind.shows_of_read? (Kind.valueOf_eq_ok_iff.mp valued))
  | group _ ih =>
      rw [← Token.grouped, Token.filterMap_word?_grouped]
      exact ih
  | single _ ih => exact ih
  | join _ _ ihBefore ihAfter =>
      rw [List.filterMap_append]
      exact .combination ihBefore ihAfter

/-- Such a document is regular in all its parts. -/
theorem Documented.every_isRegular {condition : Condition} {spelled : List String}
    {document : Document} (documented : Documented schema condition spelled document) :
    document.Every Document.IsRegular := by
  induction documented with
  | comparison _ _ shows =>
      have scalar := Kind.isScalar_of_shows shows
      exact Document.every_object_single rfl (Document.every_object_single rfl
        (Document.every_of_isScalar scalar (Document.isRegular_of_isScalar scalar)))
  | combination _ _ ihFirst ihSecond =>
      exact Document.every_object_single rfl (Document.every_array_pair rfl ihFirst ihSecond)

/-- The document of a compiled query says what the words of the query say, each literal as
its kind writes it.  Nothing in it is null, every object in it has one key, and every array
has two items. -/
theorem compile_documented (schema : Schema) (query : String) (condition : Condition)
    (compiled : compile schema query = .ok condition) :
    Documented schema condition (words (trim query.toList)) condition.document ∧
      ∀ part : Document, part.Within condition.document →
        part ≠ .null ∧ (∀ members, part = .object members → members.length = 1) ∧
          ∀ items, part = .array items → items.length = 2 := by
  have documented := (derives_of_compile compiled).2.2.documented
  rw [← words_eq_filterMap_ofText] at documented
  refine ⟨documented, fun part within => ?_⟩
  have regular := documented.every_isRegular part within
  refine ⟨?_, ?_, ?_⟩
  · rintro rfl
    exact regular
  · rintro members rfl
    exact regular
  · rintro items rfl
    exact regular

/-- A date and a negative duration of two components, on the two sides of a combinator. -/
theorem compile_documented_of_duration :
    compile (Schema.ofFields "sample" [("d", .timestamp), ("t", .duration)])
        "d eq 2020-03-22 or(t lt -1h30m)" =
        .ok (.combination .disjunction
          (.comparison "d" .equal (.timestamp ⟨2020, 3, 22, by decide⟩))
          (.comparison "t" .less (.duration ⟨-5400000000000⟩))) ∧
      Documented (Schema.ofFields "sample" [("d", .timestamp), ("t", .duration)])
        (.combination .disjunction
          (.comparison "d" .equal (.timestamp ⟨2020, 3, 22, by decide⟩))
          (.comparison "t" .less (.duration ⟨-5400000000000⟩)))
        ["d", "eq", "2020-03-22", "or", "t", "lt", "-1h30m"]
        (.object [("$or", .array
          [.object [("d", .object [("$eq", .string "2020-03-22T00:00:00Z")])],
            .object [("t", .object [("$lt", .integer (-5400000000000))])]])]) := by
  have compiled : compile (Schema.ofFields "sample" [("d", .timestamp), ("t", .duration)])
      "d eq 2020-03-22 or(t lt -1h30m)" =
        .ok (.combination .disjunction
          (.comparison "d" .equal (.timestamp ⟨2020, 3, 22, by decide⟩))
          (.comparison "t" .less (.duration ⟨-5400000000000⟩))) := by
    decide +kernel
  have found : words (trim "d eq 2020-03-22 or(t lt -1h30m)".toList) =
      ["d", "eq", "2020-03-22", "or", "t", "lt", "-1h30m"] := by
    decide +kernel
  have documented := (compile_documented _ _ _ compiled).1
  rw [found] at documented
  exact ⟨compiled, documented⟩

end FilterQuery
