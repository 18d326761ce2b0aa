import FilterQuery.Proofs.CanonicalText
import FilterQuery.Proofs.Widening

namespace FilterQuery

open Text

/-!
# Filters and their documents

A document says less than the condition it was made from.  Whole numbers and durations
become integers, dates, texts and addresses become strings, and the key of an object may
be the name of a field or the word of a combinator.  What is lost is what the schema knows:
the kind of a field says which values its integers and strings stand for.  The schema is
not needed to tell fields from combinators.  Under a field stands an object and under a
combinator an array, so a field may have the key of a combinator as its name.

The values matter here only so far as they were read from literals.  Other values exist
that no document shows, such as a number that is not finite.
-/

namespace Document

mutual

/-- Equality of documents.  Numbers are compared as numbers, and integers are none of them.
Objects are compared without regard to the order of their members. -/
def same : Document → Document → Bool
  | null, null => true
  | integer value, integer value' => value == value'
  | number value, number value' => value.same value'
  | string text, string text' => text == text'
  | array items, array items' => sameItems items items'
  | object members, object members' =>
    members.length == members'.length && sameMembers members members'
  | _, _ => false

def sameItems : List Document → List Document → Bool
  | [], [] => true
  | item :: rest, item' :: rest' => item.same item' && sameItems rest rest'
  | _, _ => false

/-- Every member of one object is in the other. -/
def sameMembers : List (String × Document) → List (String × Document) → Bool
  | [], _ => true
  | (key, document) :: rest, members =>
    (members.any fun member => key == member.1 && document.same member.2) &&
      sameMembers rest members

end

theorem same_object_single (key key' : String) (document document' : Document) :
    (object [(key, document)]).same (object [(key', document')]) =
      (key == key' && document.same document') := by
  simp [same, sameMembers]

theorem same_array_pair (first second first' second' : Document) :
    (array [first, second]).same (array [first', second']) =
      (first.same first' && second.same second') := by
  simp [same, sameItems]

end Document

theorem Comparator.key_injective : Function.Injective Comparator.key := by
  intro first second same
  cases first <;> cases second <;> first | rfl | exact absurd same (by decide)

theorem Combinator.key_injective : Function.Injective Combinator.key := by
  intro first second same
  cases first <;> cases second <;> first | rfl | exact absurd same (by decide)

/-- A date of a literal is in a year that documents can write. -/
theorem Date.midnight?_of_read? {text : List Char} {date : Date}
    (read : Date.read? text = some date) :
    date.midnight? = some (date.literal ++ "T00:00:00Z".toList) := by
  rcases Date.parts_of_read? read with ⟨_, _, _, _, _, _, _, _, _, _, year, _⟩
  rw [Date.midnight?, if_pos]
  rw [year]
  exact Int.natCast_nonneg _

theorem exists_int64? {number : Int} (bounded : number.natAbs ≤ Duration.maxSum) :
    ∃ count, int64? number = some count ∧ count.toInt = number := by
  rw [Duration.maxSum] at bounded
  exact exists_int64?_of_le (by omega) (by omega)

namespace Kind

/-- Two values that were read as one kind are the same if their documents are. -/
theorem same_document {kind : Kind} {literal literal' : String} {value value' : Value}
    (read : kind.read? literal = some value) (read' : kind.read? literal' = some value') :
    value.document.same value'.document = value.same value' := by
  cases kind with
  | timestamp =>
      rcases Option.map_eq_some_iff.mp read with ⟨date, found, rfl⟩
      rcases Option.map_eq_some_iff.mp read' with ⟨date', found', rfl⟩
      have literals : date.literal = date'.literal ↔ date = date' := by
        refine ⟨fun equal => ?_, congrArg Date.literal⟩
        rw [Date.literal_of_read? found, Date.literal_of_read? found'] at equal
        rw [equal, found'] at found
        exact (Option.some.inj found).symm
      simp only [Value.document, Date.midnight?_of_read? found, Date.midnight?_of_read? found',
        Document.same, Value.same, beq_eq_decide,
        String.ofList_inj, List.append_cancel_right_eq, literals, Value.timestamp.injEq]
  | duration =>
      rcases Option.map_eq_some_iff.mp read with ⟨span, found, rfl⟩
      rcases Option.map_eq_some_iff.mp read' with ⟨span', found', rfl⟩
      rcases exists_int64? (Duration.natAbs_le_of_read? found) with ⟨count, fits, counted⟩
      rcases exists_int64? (Duration.natAbs_le_of_read? found') with ⟨count', fits', counted'⟩
      have nanoseconds : span.nanoseconds = span'.nanoseconds ↔ span = span' := by
        cases span
        cases span'
        rw [Duration.mk.injEq]
      simp only [Value.document, fits, fits', Document.same, counted, counted', Value.same,
        beq_eq_decide, nanoseconds, Value.duration.injEq]
  | int32 =>
      rcases Option.map_eq_some_iff.mp read with ⟨number, _, rfl⟩
      rcases Option.map_eq_some_iff.mp read' with ⟨number', _, rfl⟩
      simp only [Value.document, Document.same, Value.same, beq_eq_decide,
        Int32.toInt_inj, Value.int32.injEq]
  | int64 =>
      rcases Option.map_eq_some_iff.mp read with ⟨number, _, rfl⟩
      rcases Option.map_eq_some_iff.mp read' with ⟨number', _, rfl⟩
      simp only [Value.document, Document.same, Value.same, beq_eq_decide,
        Int64.toInt_inj, Value.int64.injEq]
  | float32 =>
      rcases Option.map_eq_some_iff.mp read with ⟨number, found, rfl⟩
      rcases Option.map_eq_some_iff.mp read' with ⟨number', found', rfl⟩
      have finite := (Option.filter_eq_some_iff.mp found).2
      have finite' := (Option.filter_eq_some_iff.mp found').2
      simp only [Value.document, Document.ofBinary, Binary.isFinite_widenDecimally, finite, finite',
        if_true, Document.same, Value.same, Binary.same_widenDecimally]
  | float64 =>
      rcases Option.map_eq_some_iff.mp read with ⟨number, found, rfl⟩
      rcases Option.map_eq_some_iff.mp read' with ⟨number', found', rfl⟩
      have finite := (Option.filter_eq_some_iff.mp found).2
      have finite' := (Option.filter_eq_some_iff.mp found').2
      simp only [Value.document, Document.ofBinary, finite, finite', if_true, Document.same,
        Value.same]
  | text =>
      simp only [read?] at read read'
      split at read <;> cases read
      split at read' <;> cases read'
      simp only [Value.document, Document.same, Value.same, beq_eq_decide,
        Value.text.injEq]
  | email =>
      simp only [read?] at read read'
      split at read <;> cases read
      split at read' <;> cases read'
      simp only [Value.document, Document.same, Value.same, beq_eq_decide,
        Value.email.injEq]

end Kind

/-- Without the kind a document does not determine a value: a whole number and a duration
have the same. -/
example : (Value.int64 5).document.same (Value.duration ⟨5⟩).document = true ∧
    (Value.int64 5).same (.duration ⟨5⟩) = false := by
  decide

namespace Condition

variable {schema : Schema}

/-- Conditions over one schema are the same if their documents are.  The induction is on
both conditions at once, as neither alone determines the shape of the other. -/
theorem same_document {first second : Condition} (readFirst : first.EveryLeaf (Writable schema))
    (readSecond : second.EveryLeaf (Writable schema)) :
    first.document.same second.document = first.same second := by
  induction first generalizing second with
  | comparison field comparator value =>
      cases second with
      | combination combinator left right =>
          rw [document, document, Document.same_object_single]
          exact Bool.and_false _
      | comparison field' comparator' value' =>
          rw [document, document, Document.same_object_single, Document.same_object_single, same,
            Comparator.key_injective.beq_eq, ← Bool.and_assoc]
          by_cases fields : field = field'
          · rcases fields with rfl
            rcases readFirst.valued with ⟨kind, known, valued⟩
            rcases readSecond.valued with ⟨kind', known', valued'⟩
            rw [known] at known'
            rcases Option.some.inj known' with rfl
            rw [Kind.same_document (Kind.valueOf_eq_ok_iff.mp valued)
              (Kind.valueOf_eq_ok_iff.mp valued')]
          · rw [beq_false_of_ne fields, Bool.false_and, Bool.false_and, Bool.false_and]
  | combination combinator left right ihLeft ihRight =>
      cases second with
      | comparison field comparator value =>
          rw [document, document, Document.same_object_single]
          exact Bool.and_false _
      | combination combinator' left' right' =>
          rw [document, document, Document.same_object_single, Document.same_array_pair,
            ihLeft readFirst.1 readSecond.1, ihRight readFirst.2 readSecond.2, same,
            Combinator.key_injective.beq_eq, Bool.and_assoc]

end Condition

/-- The documents of two compiled queries are equal exactly if their conditions are. -/
theorem compile_document_same_iff (schema : Schema) (query query' : String)
    (condition condition' : Condition) (compiled : compile schema query = .ok condition)
    (compiled' : compile schema query' = .ok condition') :
    condition.document.same condition'.document = true ↔ condition.same condition' = true := by
  have words := fun (text : List Char) (word : String)
    (member : Token.word word ∈ Token.ofText text) => Token.isWord_of_mem_ofText member
  have read := (derives_of_compile compiled).2.2.everyLeaf_writable (words _)
  have read' := (derives_of_compile compiled').2.2.everyLeaf_writable (words _)
  rw [Condition.same_document read read']

/-- Fields with the keys of operators as their names, and zeros of either sign. -/
theorem compile_document_same_iff_of_operator_fields :
    compile (Schema.ofFields "sample" [("$and", .float32), ("$eq", .text)])
        "$and eq -0 or $eq ne or" =
        .ok (.combination .disjunction
          (.comparison "$and" .equal (.float32 (.finite true ⟨0, by decide⟩)))
          (.comparison "$eq" .unequal (.text "or"))) ∧
      compile (Schema.ofFields "sample" [("$and", .float32), ("$eq", .text)])
        "($and eq 0.0) or ($eq ne or)" =
        .ok (.combination .disjunction
          (.comparison "$and" .equal (.float32 (.finite false ⟨0, by decide⟩)))
          (.comparison "$eq" .unequal (.text "or"))) ∧
      Condition.same
        (.combination .disjunction
          (.comparison "$and" .equal (.float32 (.finite true ⟨0, by decide⟩)))
          (.comparison "$eq" .unequal (.text "or")))
        (.combination .disjunction
          (.comparison "$and" .equal (.float32 (.finite false ⟨0, by decide⟩)))
          (.comparison "$eq" .unequal (.text "or"))) = true := by
  have compiled : compile (Schema.ofFields "sample" [("$and", .float32), ("$eq", .text)])
      "$and eq -0 or $eq ne or" =
        .ok (.combination .disjunction
          (.comparison "$and" .equal (.float32 (.finite true ⟨0, by decide⟩)))
          (.comparison "$eq" .unequal (.text "or"))) := by
    decide +kernel
  have compiled' : compile (Schema.ofFields "sample" [("$and", .float32), ("$eq", .text)])
      "($and eq 0.0) or ($eq ne or)" =
        .ok (.combination .disjunction
          (.comparison "$and" .equal (.float32 (.finite false ⟨0, by decide⟩)))
          (.comparison "$eq" .unequal (.text "or"))) := by
    decide +kernel
  exact ⟨compiled, compiled',
    (compile_document_same_iff _ _ _ _ _ compiled compiled').mp (by decide +kernel)⟩

end FilterQuery
