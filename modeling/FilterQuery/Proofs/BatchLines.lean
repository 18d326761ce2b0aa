import Mathlib.Data.List.Basic
import Mathlib.Data.Set.List
import Mathlib.Tactic.Push
import FilterQuery.Inputs
import FilterQuery.Proofs.Outcome

namespace FilterQuery

open Text

/-!
# The inputs of a batch

A batch is a sequence of bytes.  It is divided into lines where its line feeds are, before any
of it is known to be text, and a line loses its end and nothing else.  `Divides` says which lines
these are.  It takes them off the front one at a time, whereas the lines are found from the last
byte backwards, so the two are compared by what a whole line adds to the lines behind it.

`Gives` goes through the lines with their numbers.  Every line has to be text.  A blank one
takes its number with it and gives no input, and every other one gives its text as it is.

What a batch adds to the inputs of a run follows from the two.  The queries of the command line
stand before all of it, and one line that is no text takes them away as well.
-/

namespace Batch

/-- What ends a line: a line feed, and a carriage return right before it if there is one. -/
inductive Ends : List UInt8 → List UInt8 → Prop where
  | feed {line : List UInt8} (bare : line.getLast? ≠ some 13) : Ends line [10]
  | returnAndFeed {line : List UInt8} : Ends line [13, 10]

/-- Bytes are divided into these lines.  The last line needs no end, but is not empty then. -/
inductive Divides : List UInt8 → List (List UInt8) → Prop where
  | nothing : Divides [] []
  | last {line : List UInt8} (nonempty : line ≠ []) (unbroken : 10 ∉ line) : Divides line [line]
  | ended {line ending rest : List UInt8} {lines : List (List UInt8)} (unbroken : 10 ∉ line)
      (ends : Ends line ending) (tail : Divides rest lines) :
    Divides (line ++ (ending ++ rest)) (line :: lines)

/-- Lines that are counted from a number on give these inputs. -/
inductive Gives (path : String) : Nat → List (List UInt8) → List Input → Prop where
  | nothing {number : Nat} : Gives path number [] []
  | blank {number : Nat} {text : String} {lines : List (List UInt8)} {found : List Input}
      (white : ∀ c ∈ text.toList, isWhite c = true) (tail : Gives path (number + 1) lines found) :
    Gives path number (encode text :: lines) found
  | kept {number : Nat} {text : String} {lines : List (List UInt8)} {found : List Input}
      (visible : ¬ ∀ c ∈ text.toList, isWhite c = true)
      (tail : Gives path (number + 1) lines found) :
    Gives path number (encode text :: lines)
      (⟨path ++ ":" ++ toString number, text⟩ :: found)

/-- The same bytes with a carriage return before each line feed. -/
def withReturns (bytes : List UInt8) : List UInt8 :=
  bytes.flatMap fun byte => if byte = 10 then [13, 10] else [byte]

/-! ## One line before the others -/

/-- The bytes of a line join the first of the lines behind them. -/
theorem foldr_prepend {line first : List UInt8} {others : List (List UInt8)}
    (unbroken : 10 ∉ line) :
    line.foldr prepend ⟨first :: others, false⟩ = ⟨(line ++ first) :: others, false⟩ := by
  induction line with
  | nil => rfl
  | cons byte rest ih =>
      have noFeed : byte ≠ 10 := fun same => unbroken (same ▸ List.mem_cons_self)
      rw [List.foldr_cons, ih fun member => unbroken (List.mem_cons_of_mem _ member), prepend,
        if_neg noFeed, if_neg fun both => Bool.false_ne_true both.2]
      rfl

theorem lines_last {line : List UInt8} (nonempty : line ≠ []) (unbroken : 10 ∉ line) :
    lines line = [line] := by
  rcases List.eq_nil_or_concat line with empty | ⟨front, last, rfl⟩
  · exact absurd empty nonempty
  · have noFeed : last ≠ 10 := fun same => unbroken (by simp [same])
    rw [lines, List.concat_eq_append, List.foldr_append, List.foldr_cons, List.foldr_nil, prepend,
      if_neg noFeed, if_neg fun both => Bool.false_ne_true both.2]
    rw [foldr_prepend fun member => unbroken (by simp [member])]

theorem lines_ended {line ending rest : List UInt8} (unbroken : 10 ∉ line)
    (ends : Ends line ending) : lines (line ++ (ending ++ rest)) = line :: lines rest := by
  cases ends with
  | returnAndFeed =>
      have ended : ([13, 10] ++ rest).foldr prepend ⟨[], false⟩ =
          ⟨[] :: lines rest, false⟩ := rfl
      rw [lines, List.foldr_append, ended, foldr_prepend unbroken, List.append_nil]
  | feed bare =>
      have ended : ([10] ++ rest).foldr prepend ⟨[], false⟩ = ⟨[] :: lines rest, true⟩ := rfl
      rw [lines, List.foldr_append, ended]
      rcases List.eq_nil_or_concat line with rfl | ⟨front, last, rfl⟩
      · rfl
      · rw [List.concat_eq_append] at unbroken bare ⊢
        rw [List.getLast?_concat] at bare
        have noFeed : last ≠ 10 := fun same => unbroken (by simp [same])
        have noReturn : last ≠ 13 := fun same => bare (congrArg some same)
        rw [List.foldr_append, List.foldr_cons, List.foldr_nil, prepend, if_neg noFeed,
          if_neg fun both => noReturn both.1]
        rw [foldr_prepend fun member => unbroken (List.mem_append_left _ member)]

/-- Where there is a line feed, the first line is the one that it ends. -/
theorem exists_ended {bytes : List UInt8} (broken : 10 ∈ bytes) :
    ∃ line ending rest, bytes = line ++ (ending ++ rest) ∧ 10 ∉ line ∧ Ends line ending ∧
      rest.length < bytes.length := by
  rcases List.eq_append_cons_of_mem broken with ⟨front, rest, rfl, unbroken⟩
  have shorter : rest.length < (front ++ 10 :: rest).length := by
    rw [List.length_append, List.length_cons]
    omega
  by_cases isReturn : front.getLast? = some 13
  · rcases List.getLast?_eq_some_iff.mp isReturn with ⟨line, rfl⟩
    refine ⟨line, [13, 10], rest, ?_, ?_, .returnAndFeed, shorter⟩
    · rw [List.append_assoc]
      rfl
    · intro member
      exact unbroken (List.mem_append_left _ member)
  · exact ⟨front, [10], rest, rfl, unbroken, .feed isReturn, shorter⟩

/-- Bytes can be divided in one way only, and that is how the lines of a batch are found. -/
theorem divides_iff (bytes : List UInt8) (found : List (List UInt8)) :
    Divides bytes found ↔ found = lines bytes := by
  constructor
  · intro divides
    induction divides with
    | nothing => rfl
    | last nonempty unbroken => exact (lines_last nonempty unbroken).symm
    | ended unbroken ends _ ih => rw [lines_ended unbroken ends, ih]
  · rintro rfl
    induction length : bytes.length using Nat.strongRecOn generalizing bytes with
    | ind count ih =>
        subst length
        by_cases broken : 10 ∈ bytes
        · rcases exists_ended broken with ⟨line, ending, rest, rfl, unbroken, ends, shorter⟩
          rw [lines_ended unbroken ends]
          exact .ended unbroken ends (ih _ shorter rest rfl)
        · by_cases empty : bytes = []
          · rw [empty]
            exact .nothing
          · rw [lines_last empty broken]
            exact .last empty broken

/-! ## Carriage returns before line feeds -/

theorem withReturns_of_not_mem {line : List UInt8} (unbroken : 10 ∉ line) :
    withReturns line = line := by
  have same : ∀ byte ∈ line, (if byte = 10 then [13, 10] else [byte]) = [byte] := by
    intro byte member
    apply if_neg
    rintro rfl
    exact unbroken member
  rw [withReturns, List.flatMap_congr same, List.flatMap_singleton']

/-- Where there is no carriage return, having one before each line feed changes no line. -/
theorem Divides.withReturns {bytes : List UInt8} {lines : List (List UInt8)}
    (divides : Divides bytes lines) (bare : 13 ∉ bytes) :
    Divides (withReturns bytes) lines := by
  induction divides with
  | nothing => exact .nothing
  | last nonempty unbroken =>
      rw [withReturns_of_not_mem unbroken]
      exact .last nonempty unbroken
  | @ended line ending rest lines unbroken ends tail ih =>
      have later := ih fun member => bare (by simp [member])
      cases ends with
      | returnAndFeed => exact absurd (by simp) bare
      | feed _ =>
          have moved : Batch.withReturns (line ++ ([10] ++ rest)) =
              line ++ ([13, 10] ++ Batch.withReturns rest) := by
            have kept := withReturns_of_not_mem unbroken
            rw [Batch.withReturns] at kept
            rw [Batch.withReturns, List.flatMap_append, List.flatMap_append, kept]
            rfl
          rw [moved]
          exact .ended unbroken .returnAndFeed later

/-! ## From lines to inputs -/

theorem decode?_eq_some_iff (line : List UInt8) (text : String) :
    decode? line = some text ↔ line = encode text := by
  rw [decode?, String.fromUTF8?]
  constructor
  · intro decoded
    split at decoded
    · cases decoded
      rfl
    · cases decoded
  · rintro rfl
    exact dif_pos text.isValidUTF8

/-- Lines are read together if each of them is the encoding of a text. -/
theorem mapM_decode?_eq_some_iff (lines : List (List UInt8)) (texts : List String) :
    lines.mapM decode? = some texts ↔ lines = texts.map encode := by
  induction lines generalizing texts with
  | nil => cases texts <;> simp
  | cons line rest ih =>
      rw [List.mapM_cons]
      constructor
      · intro decoded
        rcases Option.bind_eq_some_iff.mp decoded with ⟨text, first, decoded⟩
        rcases Option.bind_eq_some_iff.mp decoded with ⟨others, behind, decoded⟩
        cases decoded
        rw [List.map_cons, ← (ih others).mp behind, ← (decode?_eq_some_iff line text).mp first]
      · intro encoded
        cases texts with
        | nil => cases encoded
        | cons text others =>
            rcases List.cons.inj encoded with ⟨first, behind⟩
            rw [(decode?_eq_some_iff line text).mpr first, (ih others).mpr behind]
            rfl

variable {path : String} {number : Nat}

theorem inputs_cons_of_white {text : String} (white : ∀ c ∈ text.toList, isWhite c = true)
    (others : List (String × Nat)) : inputs path ((text, number) :: others) = inputs path others := by
  have skipped : (!text.toList.all isWhite) = false := by
    rw [List.all_eq_true.mpr white, Bool.not_true]
  simp only [inputs, List.filter_cons, skipped, Bool.false_eq_true, if_false]

theorem inputs_cons_of_visible {text : String}
    (visible : ¬ ∀ c ∈ text.toList, isWhite c = true) (others : List (String × Nat)) :
    inputs path ((text, number) :: others) =
      ⟨path ++ ":" ++ toString number, text⟩ :: inputs path others := by
  have kept : (!text.toList.all isWhite) = true := by
    rw [Bool.not_eq_true', Bool.eq_false_iff]
    exact fun white => visible (List.all_eq_true.mp white)
  simp only [inputs, List.filter_cons, kept, if_true, List.map_cons]

/-- Lines give inputs only if they are texts, and then the inputs are those of the texts. -/
theorem gives_iff (lines : List (List UInt8)) (found : List Input) :
    Gives path number lines found ↔
      ∃ texts : List String, lines = texts.map encode ∧ found = inputs path (texts.zipIdx number) := by
  constructor
  · intro gives
    induction gives with
    | nothing => exact ⟨[], rfl, rfl⟩
    | @blank number text lines found white tail ih =>
        rcases ih with ⟨texts, rfl, rfl⟩
        refine ⟨text :: texts, rfl, ?_⟩
        rw [List.zipIdx_cons, inputs_cons_of_white white]
    | @kept number text lines found visible tail ih =>
        rcases ih with ⟨texts, rfl, rfl⟩
        refine ⟨text :: texts, rfl, ?_⟩
        rw [List.zipIdx_cons, inputs_cons_of_visible visible]
  · rintro ⟨texts, rfl, rfl⟩
    induction texts generalizing number with
    | nil => exact .nothing
    | cons text others ih =>
        rw [List.zipIdx_cons, List.map_cons]
        by_cases white : ∀ c ∈ text.toList, isWhite c = true
        · rw [inputs_cons_of_white white]
          exact .blank white ih
        · rw [inputs_cons_of_visible white]
          exact .kept white ih

/-- A batch is read if all of its lines are texts. -/
theorem read_eq_ok_iff (bytes : List UInt8) (found : List Input) :
    read path bytes = .ok found ↔ Gives path 1 (lines bytes) found := by
  rw [gives_iff, read]
  constructor
  · intro reads
    cases decoded : (lines bytes).mapM decode? with
    | some texts =>
        rw [decoded] at reads
        cases reads
        exact ⟨texts, (mapM_decode?_eq_some_iff _ _).mp decoded, rfl⟩
    | none =>
        rw [decoded] at reads
        cases reads
  · rintro ⟨texts, encoded, rfl⟩
    rw [(mapM_decode?_eq_some_iff _ _).mpr encoded]

/-- No part of a batch is read if one of its lines is no text. -/
theorem read_eq_error_iff (path : String) (bytes : List UInt8) (error : InputError) :
    read path bytes = .error error ↔
      error = .batchNotRead ∧ ∃ line ∈ lines bytes, ∀ text, line ≠ encode text := by
  rw [read]
  cases decoded : (lines bytes).mapM decode? with
  | some texts =>
      constructor
      · intro impossible
        cases impossible
      · rintro ⟨_, line, member, noText⟩
        rw [(mapM_decode?_eq_some_iff _ _).mp decoded] at member
        rcases List.mem_map.mp member with ⟨text, _, encoded⟩
        exact absurd encoded.symm (noText text)
  | none =>
      constructor
      · rintro ⟨⟩
        refine ⟨rfl, ?_⟩
        by_contra allTexts
        push Not at allTexts
        have encoded : lines bytes ∈ Set.range (List.map encode) := by
          rw [Set.range_list_map]
          intro line member
          rcases allTexts line member with ⟨text, encoded⟩
          exact ⟨text, encoded.symm⟩
        rcases encoded with ⟨texts, encoded⟩
        rw [(mapM_decode?_eq_some_iff _ texts).mpr encoded.symm] at decoded
        cases decoded
      · rintro ⟨rfl, _⟩
        rfl

end Batch

/-- The queries of the command line come first and are numbered from one.  Behind them come the
lines of the batch that are not blank, each under its number among all lines.  Inputs are missing
only where the batch cannot be opened, cannot be read although it can be opened, or is not text,
and then all are.  It does not matter whether the lines end with a carriage return or without. -/
theorem gatherInputs_of_lines (options : Options) (surroundings : Surroundings) :
    ∃ given : List Input,
      (∀ index : Nat, given[index]? = options.queries[index]?.map fun query =>
        (⟨"query " ++ toString (index + 1), query⟩ : Input)) ∧
      (options.batch = none → gatherInputs options surroundings = .ok given) ∧
      ∀ path, options.batch = some path →
        (Batch.source? surroundings path = none →
          gatherInputs options surroundings = .error (.batchNotOpened path)) ∧
        (Batch.source? surroundings path = some .unreadable →
          gatherInputs options surroundings = .error .batchNotRead) ∧
        ∀ bytes, Batch.source? surroundings path = some (.file bytes) →
          ∃ lines, (∀ others, Batch.Divides bytes others ↔ others = lines) ∧
            (∀ inputs, gatherInputs options surroundings = .ok inputs ↔
              ∃ found, inputs = given ++ found ∧ Batch.Gives path 1 lines found) ∧
            (∀ error, gatherInputs options surroundings = .error error ↔
              error = .batchNotRead ∧ ∃ line ∈ lines, ∀ text, line ≠ encode text) ∧
            (13 ∉ bytes → ∀ other,
              Batch.source? other path = some (.file (Batch.withReturns bytes)) →
                gatherInputs options other = gatherInputs options surroundings) := by
  refine ⟨queryInputs options.queries, fun index => ?_, fun absent => ?_, fun path asked =>
    ⟨fun absent => ?_, fun unreadable => ?_, fun bytes present => ?_⟩⟩
  · rw [queryInputs, List.getElem?_map, List.getElem?_zipIdx, Option.map_map]
    simp only [Function.comp_def, Nat.add_comm 1]
  · simp only [gatherInputs, absent]
  · simp only [gatherInputs, asked, absent]
  · simp only [gatherInputs, asked, unreadable]
  · have gathered : gatherInputs options surroundings =
        (Batch.read path bytes).map (queryInputs options.queries ++ ·) := by
      simp only [gatherInputs, asked, present]
    refine ⟨Batch.lines bytes, Batch.divides_iff bytes, fun inputs => ?_, fun error => ?_,
      fun bare other moved => ?_⟩
    · rw [gathered, map_eq_ok_iff]
      constructor
      · rintro ⟨found, reads, rfl⟩
        exact ⟨found, rfl, (Batch.read_eq_ok_iff bytes found).mp reads⟩
      · rintro ⟨found, rfl, gives⟩
        exact ⟨found, (Batch.read_eq_ok_iff bytes found).mpr gives, rfl⟩
    · rw [gathered, map_eq_error_iff]
      exact Batch.read_eq_error_iff path bytes error
    · have divides := (Batch.divides_iff bytes (Batch.lines bytes)).mpr rfl
      have same := (Batch.divides_iff _ _).mp (divides.withReturns bare)
      rw [gathered, Batch.read, same, ← Batch.read]
      simp only [gatherInputs, asked, moved]

/-- A blank line is counted and left out.  A byte that is no text leaves nothing, not even the
query before the batch. -/
theorem gatherInputs_of_lines_of_blank_line :
    gatherInputs ⟨["a"], none, some "-", none, none, none, false, false⟩
        ⟨fun _ => none, [120, 13, 10, 32, 10, 195, 169], none⟩ =
      .ok [⟨"query 1", "a"⟩, ⟨"-:1", "x"⟩, ⟨"-:3", "é"⟩] ∧
    gatherInputs ⟨["a"], none, some "-", none, none, none, false, false⟩
        ⟨fun _ => none, [120, 10, 255], none⟩ = .error .batchNotRead := by
  constructor
  · rcases gatherInputs_of_lines ⟨["a"], none, some "-", none, none, none, false, false⟩
      ⟨fun _ => none, [120, 13, 10, 32, 10, 195, 169], none⟩ with ⟨given, labelled, _, batch⟩
    rcases (batch "-" rfl).2.2 _ rfl with ⟨lines, divides, reads, _⟩
    have query : given = [⟨"query 1", "a"⟩] := by
      apply List.ext_getElem?
      intro index
      rw [labelled]
      rcases index with _ | _ | _ <;> rfl
    have divided : [[120], [32], [195, 169]] = lines := by
      apply (divides _).mp
      apply @Batch.Divides.ended [120] [13, 10] _ _ (by decide) .returnAndFeed
      apply @Batch.Divides.ended [32] [10] _ _ (by decide) (.feed (by decide))
      exact .last (by decide) (by decide)
    refine (reads _).mpr ⟨[⟨"-:1", "x"⟩, ⟨"-:3", "é"⟩], ?_, ?_⟩
    · rw [query]
      rfl
    · rw [← divided, Batch.gives_iff]
      exact ⟨["x", " ", "é"], by decide +kernel, by decide +kernel⟩
  · rcases gatherInputs_of_lines ⟨["a"], none, some "-", none, none, none, false, false⟩
      ⟨fun _ => none, [120, 10, 255], none⟩ with ⟨given, labelled, _, batch⟩
    rcases (batch "-" rfl).2.2 _ rfl with ⟨lines, divides, _, fails, _⟩
    have divided : [[120], [255]] = lines := by
      apply (divides _).mp
      apply @Batch.Divides.ended [120] [10] _ _ (by decide) (.feed (by decide))
      exact .last (by decide) (by decide)
    refine (fails _).mpr ⟨rfl, [255], ?_, ?_⟩
    · rw [← divided]
      exact List.mem_cons_of_mem _ List.mem_cons_self
    · intro text encoded
      have decoded := (Batch.decode?_eq_some_iff [255] text).mpr encoded
      rw [show decode? [255] = none by decide +kernel] at decoded
      cases decoded

end FilterQuery
