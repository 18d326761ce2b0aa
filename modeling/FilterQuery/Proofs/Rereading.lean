import FilterQuery.Document
import FilterQuery.Proofs.Literal
import FilterQuery.Proofs.Scanning

namespace FilterQuery

open Text

/-!
# Reading what was written

Writing a value and reading it again are compared here from both ends.

From the side of reading, nothing is lost.  A value that some kind has read is read by that
kind from its own literal, so a literal changes at most once.  A scanner finds one word in
the new literal, because none of its characters ends a word, whichever literal was read first.

From the side of writing, one duration is lost among those that have a document.  Documents
hold the numbers of 64 bits, and these reach one further below zero than above it.  A literal
is bounded before its sign is applied, so it reaches equally far on both sides.
-/

/-! ## One word -/

namespace Range

/-- A scanner finds a word where there is nothing else, whatever is paired. -/
theorem items_of_isWord {text : String} (isWord : IsWord text) (pairing : Pairing) :
    (Range.mk text.toList 0 (byteLength text.toList)).items pairing = [.ok (.word text)] := by
  rcases isWord.exists_cons with ⟨first, rest, same, inWord, taken, dropped⟩
  rcases isDelimiter_eq_false_iff.mp inWord with ⟨notBlank, notOpening, notClosing⟩
  have whole : Place.ofRange text.toList 0 (byteLength text.toList) = ⟨0, text.toList⟩ := by
    have cut := Place.ofRange_append [] text.toList []
    rwa [List.append_nil, List.nil_append, byteLength, Nat.zero_add] at cut
  have found : (Place.mk 0 text.toList).next pairing =
      .word 0 text ⟨0 + byteLength text.toList, []⟩ := by
    simp only [Place.next, same, Place.skipBlanks, notBlank, Bool.false_eq_true, if_false,
      Place.read, notOpening, notClosing, taken, dropped]
    rw [← same, String.ofList_toList]
  rw [items, located, whole, locatedFrom_of_word found, locatedFrom_of_finished rfl,
    List.map_cons, List.map_nil]

end Range

/-! ## From reading to writing -/

theorem Kind.literal_of_read? {kind : Kind} {literal : String} {value : Value}
    (read : kind.read? literal = some value)
    (keeps : kind = .timestamp ∨ kind = .text ∨ kind = .email) : value.literal = literal := by
  rcases keeps with rfl | rfl | rfl
  · rcases Option.map_eq_some_iff.mp read with ⟨date, found, rfl⟩
    rw [Value.literal, Date.literal_of_read? found, String.ofList_toList]
  · simp only [Kind.read?] at read
    split at read <;> cases read
    rfl
  · simp only [Kind.read?] at read
    split at read <;> cases read
    rfl

/-- Whatever a kind has read is read again from its literal, which does not change any
more.  Nothing in that literal ends a word, and it is a single word unless an empty one was
read.  Dates, texts and addresses are written as they were read. -/
theorem valueOf_literal (kind : Kind) (literal : String) (value : Value)
    (read : kind.valueOf literal = .ok value) :
    kind.valueOf value.literal = .ok value ∧ value.same value = true ∧
      (∀ again, kind.valueOf value.literal = .ok again → again.literal = value.literal) ∧
      (∀ c ∈ value.literal.toList, isDelimiter c = false) ∧
      (literal ≠ "" → value.literal ≠ "" ∧ words value.literal.toList = [value.literal] ∧
        ∀ pairing, (Range.mk value.literal.toList 0 (byteLength value.literal.toList)).items
          pairing = [.ok (.word value.literal)]) ∧
      (kind = .timestamp ∨ kind = .text ∨ kind = .email → value.literal = literal) := by
  rw [Kind.valueOf_eq_ok_iff] at read
  have rereads := Kind.rereads_of_read? read
  have again : kind.valueOf value.literal = .ok value :=
    Kind.valueOf_eq_ok_iff.mpr rereads.again
  have inWord : ∀ c ∈ value.literal.toList, isDelimiter c = false := fun c member =>
    isDelimiter_of_isPlain (rereads.isPlain_of_mem c member)
  refine ⟨again, rereads.same, ?_, inWord, ?_, Kind.literal_of_read? read⟩
  · intro other readAgain
    rw [again] at readAgain
    cases readAgain
    rfl
  · intro nonempty
    have isWord : IsWord value.literal :=
      ⟨rereads.literal_ne_nil (mt String.toList_eq_nil_iff.mp nonempty), inWord⟩
    refine ⟨mt String.toList_eq_nil_iff.mpr isWord.1, ?_, Range.items_of_isWord isWord⟩
    rw [words_eq_filterMap_ofText, Token.ofText_of_isWord isWord]
    rfl

/-- A minute and a half is written in seconds, without sign and leading zeros. -/
theorem valueOf_literal_of_minutes :
    Kind.duration.valueOf "+0001.5m" = .ok (.duration ⟨90000000000⟩) ∧
      (Value.duration ⟨90000000000⟩).literal = "90s" ∧
      Kind.duration.valueOf "90s" = .ok (.duration ⟨90000000000⟩) ∧
      ∀ pairing, (Range.mk "90s".toList 0 3).items pairing = [.ok (.word "90s")] := by
  have read : Kind.duration.valueOf "+0001.5m" = .ok (.duration ⟨90000000000⟩) := by
    decide +kernel
  have written : (Value.duration ⟨90000000000⟩).literal = "90s" := by
    decide +kernel
  rcases valueOf_literal _ _ _ read with ⟨again, _, _, _, word, _⟩
  rw [written] at again word
  exact ⟨read, written, again, (word (by decide)).2.2⟩

/-! ## From writing to reading -/

/-- A duration has a document exactly within 64 bits. -/
theorem Value.document_duration (span : Duration) :
    (duration span).document =
      if -2 ^ 63 ≤ span.nanoseconds ∧ span.nanoseconds ≤ 2 ^ 63 - 1 then
        .integer span.nanoseconds
      else .null := by
  rw [document]
  split
  next count fits =>
    have bounded : -2 ^ 63 ≤ span.nanoseconds ∧ span.nanoseconds ≤ 2 ^ 63 - 1 := by
      rw [← toInt_of_int64? fits]
      exact ⟨count.minValue_le_toInt, count.toInt_le⟩
    rw [if_pos bounded, toInt_of_int64? fits]
  next none =>
    rw [if_neg]
    rintro ⟨lower, upper⟩
    rcases exists_int64?_of_le lower upper with ⟨count, fits, _⟩
    rw [none] at fits
    cases fits

theorem Value.document_duration_ne_null_iff (span : Duration) :
    (duration span).document ≠ .null ↔
      -2 ^ 63 ≤ span.nanoseconds ∧ span.nanoseconds ≤ 2 ^ 63 - 1 := by
  rw [document_duration]
  split
  next bounded => exact ⟨fun _ => bounded, fun _ impossible => by cases impossible⟩
  next beyond =>
    exact ⟨fun impossible => absurd rfl impossible, fun bounded => absurd bounded beyond⟩

/-- What is written for a duration is read as that duration or not at all, by its size. -/
theorem Duration.read?_literal_eq (span : Duration) :
    read? span.literal = if span.nanoseconds.natAbs ≤ maxSum then some span else none := by
  split
  next bounded => exact read?_literal bounded
  next beyond =>
    cases read : read? span.literal with
    | none => rfl
    | some other =>
        rcases read?_eq_some_iff.mp read with ⟨total, bounded⟩
        rw [total?_literal, Option.some.injEq] at total
        rw [← total] at bounded
        exact absurd bounded beyond

/-- A duration is read from its own literal exactly if it has a document and is not the
least duration that has one.  Of any other duration the literal is refused. -/
theorem valueOf_duration_literal_iff (span : Duration) :
    ((Value.duration span).document ≠ .null ↔
      -2 ^ 63 ≤ span.nanoseconds ∧ span.nanoseconds ≤ 2 ^ 63 - 1) ∧
    (Kind.duration.valueOf (Value.duration span).literal = .ok (.duration span) ↔
      (Value.duration span).document ≠ .null ∧ span.nanoseconds ≠ -2 ^ 63) ∧
    (Kind.duration.valueOf (Value.duration span).literal =
        .error (.invalidValue (Value.duration span).literal .duration) ↔
      (Value.duration span).document = .null ∨ span.nanoseconds = -2 ^ 63) := by
  have documented := Value.document_duration_ne_null_iff span
  have within : span.nanoseconds.natAbs ≤ Duration.maxSum ↔
      (Value.duration span).document ≠ .null ∧ span.nanoseconds ≠ -2 ^ 63 := by
    rw [documented, Duration.maxSum]
    omega
  have read : Kind.duration.read? (Value.duration span).literal =
      (if span.nanoseconds.natAbs ≤ Duration.maxSum then some span else none).map .duration := by
    rw [Kind.read?, Value.literal, String.toList_ofList, Duration.read?_literal_eq]
  refine ⟨documented, ?_⟩
  rw [Kind.valueOf_eq_ok_iff, Kind.valueOf_eq_error_iff, read]
  by_cases bounded : span.nanoseconds.natAbs ≤ Duration.maxSum
  · have kept := within.mp bounded
    rw [if_pos bounded]
    refine ⟨⟨fun _ => kept, fun _ => rfl⟩, ?_, ?_⟩
    · rintro ⟨impossible, _⟩
      cases impossible
    · rintro (none | least)
      · exact absurd none kept.1
      · exact absurd least kept.2
  · have lost := bounded
    rw [within, not_and_or, not_ne_iff, not_ne_iff] at lost
    rw [if_neg bounded]
    refine ⟨⟨?_, fun kept => absurd (within.mpr kept) bounded⟩, fun _ => lost, fun _ => ⟨rfl, rfl⟩⟩
    intro impossible
    cases impossible

/-- The least duration that has a document is written as a literal that is refused. -/
theorem valueOf_literal_refuses_least_duration :
    (Value.duration ⟨-2 ^ 63⟩).document = .integer (-2 ^ 63) ∧
      (Value.duration ⟨-2 ^ 63⟩).literal = "-9223372036854775808ns" ∧
      Kind.duration.valueOf "-9223372036854775808ns" =
        .error (.invalidValue "-9223372036854775808ns" .duration) ∧
      ¬∀ span, (Value.duration span).document ≠ .null →
        Kind.duration.valueOf (Value.duration span).literal = .ok (.duration span) := by
  have documented : (Value.duration ⟨-2 ^ 63⟩).document = .integer (-2 ^ 63) := rfl
  have written : (Value.duration ⟨-2 ^ 63⟩).literal = "-9223372036854775808ns" := by
    decide +kernel
  have refused : Kind.duration.valueOf "-9223372036854775808ns" =
      .error (.invalidValue "-9223372036854775808ns" .duration) := by
    decide +kernel
  refine ⟨documented, written, refused, ?_⟩
  intro always
  have read := always ⟨-2 ^ 63⟩ (by rw [documented]; exact fun impossible => by cases impossible)
  rw [written, refused] at read
  cases read

end FilterQuery
