import Mathlib.Data.List.DropRight
import FilterQuery.Rendering
import FilterQuery.Proofs.Outcome

namespace FilterQuery

open Text

/-!
# White space around an input

Compiling trims a query before it does anything else, so white characters around a text are never
part of what is compiled.  An input is not trimmed before it is compiled.  Whether it is the empty
filter is decided by its not having a single character, and that is where white characters around
a text do matter: around the empty text they make an input that is compiled, and nothing is found
in it.
-/

namespace Text

variable {text before behind : List Char}

theorem trimEnd_append (white : ∀ c ∈ behind, isWhite c = true) :
    trimEnd (text ++ behind) = trimEnd text := by
  have reversed : ∀ c ∈ behind.reverse, isWhite c = true := by
    simpa only [List.mem_reverse] using white
  rw [trimEnd, List.reverse_append, List.dropWhile_append_of_pos reversed, trimEnd]

/-- White characters at either end do not change what is left when they are trimmed. -/
theorem trim_surrounded (whiteBefore : ∀ c ∈ before, isWhite c = true)
    (whiteBehind : ∀ c ∈ behind, isWhite c = true) :
    trim (before ++ text ++ behind) = trim text := by
  rw [trim, List.append_assoc, List.dropWhile_append_of_pos whiteBefore, List.dropWhile_append,
    trim]
  split
  next empty =>
    -- The text is white itself, and with what is behind it nothing but white characters is left.
    rw [List.isEmpty_iff.mp empty, List.dropWhile_eq_nil_iff.mpr whiteBehind]
  next => exact trimEnd_append whiteBehind

theorem trim_of_white (white : ∀ c ∈ text, isWhite c = true) : trim text = [] := by
  rw [trim, List.dropWhile_eq_nil_iff.mpr white]
  rfl

/-- A text is what is left of it when it is trimmed, between white characters. -/
theorem exists_trim_split (text : List Char) :
    ∃ behind, (∀ c ∈ behind, isWhite c = true) ∧
      text = text.takeWhile isWhite ++ trim text ++ behind := by
  refine ⟨(text.dropWhile isWhite).rtakeWhile isWhite, fun c => List.mem_rtakeWhile_imp, ?_⟩
  have restored : trim text ++ (text.dropWhile isWhite).rtakeWhile isWhite =
      text.dropWhile isWhite := List.rdropWhile_append_rtakeWhile
  rw [List.append_assoc, restored, List.takeWhile_append_dropWhile]

end Text

variable {schema : Schema}

theorem compile_surrounded {before behind : String} (text : String)
    (whiteBefore : ∀ c ∈ before.toList, isWhite c = true)
    (whiteBehind : ∀ c ∈ behind.toList, isWhite c = true) :
    compile schema (before ++ text ++ behind) = compile schema text := by
  rw [compile, String.toList_append, String.toList_append, trim_surrounded whiteBefore whiteBehind,
    compile]

/-- Nothing is found in a text of white characters. -/
theorem compile_of_white {text : String} (white : ∀ c ∈ text.toList, isWhite c = true) :
    compile schema text = .error .emptyQuery := by
  rw [compile, trim_of_white white, compileTrimmed]
  have paired : Pairing.ofText [] = .ok Pairing.empty := rfl
  have few : ¬ combinatorLimit < combinatorWords [] := by decide
  rw [paired, ok_bind, if_neg few, readRange]
  rfl

namespace Filter

theorem ofInput_of_ne_empty {text : String} (nonempty : text ≠ "") :
    ofInput schema text = (compile schema text).map some :=
  if_neg nonempty

/-- Only the input without any character is the empty filter. -/
theorem ofInput_eq_none_iff {text : String} : ofInput schema text = .ok none ↔ text = "" := by
  constructor
  · intro empty
    by_contra nonempty
    rw [ofInput_of_ne_empty nonempty] at empty
    rcases map_eq_ok_iff.mp empty with ⟨condition, _, impossible⟩
    cases impossible
  · rintro rfl
    rfl

end Filter

/-- White characters around a text change nothing in what the text is as an input, unless the text
is empty.  Then they change the empty filter to an input in which nothing is found, as in any
input that has white characters only. -/
theorem ofInput_surrounded_eq_iff (schema : Schema) (before text behind : String)
    (whiteBefore : ∀ c ∈ before.toList, isWhite c = true)
    (whiteBehind : ∀ c ∈ behind.toList, isWhite c = true) :
    (Filter.ofInput schema (before ++ text ++ behind) = Filter.ofInput schema text ↔
        (text = "" → before = "" ∧ behind = "")) ∧
      (Filter.ofInput schema text = .ok none ↔ text = "") ∧
      ((∀ c ∈ text.toList, isWhite c = true) → text ≠ "" →
        Filter.ofInput schema text = .error .emptyQuery) := by
  refine ⟨?_, Filter.ofInput_eq_none_iff, fun white nonempty => ?_⟩
  · by_cases empty : text = ""
    · rw [Filter.ofInput_eq_none_iff.mpr empty, Filter.ofInput_eq_none_iff, imp_iff_right empty,
        String.append_eq_empty_iff, String.append_eq_empty_iff, empty, and_iff_left rfl]
    · have nonempty : before ++ text ++ behind ≠ "" := by
        simp only [ne_eq, String.append_eq_empty_iff, empty, and_false, false_and,
          not_false_eq_true]
      rw [Filter.ofInput_of_ne_empty empty, Filter.ofInput_of_ne_empty nonempty,
        compile_surrounded text whiteBefore whiteBehind]
      exact iff_of_true rfl fun impossible => absurd impossible empty
  · rw [Filter.ofInput_of_ne_empty nonempty, compile_of_white white]
    rfl

/-- No-break spaces and a vertical tab are white, also where they separate no words. -/
theorem ofInput_surrounded_eq_of_comparison :
    (∀ c ∈ "\u00a0\t".toList, isWhite c = true) ∧ (∀ c ∈ "\u000b ".toList, isWhite c = true) ∧
      Filter.ofInput Schema.user ("\u00a0\t" ++ "email eq a@b.cd" ++ "\u000b ") =
        Filter.ofInput Schema.user "email eq a@b.cd" := by
  have whiteBefore : ∀ c ∈ "\u00a0\t".toList, isWhite c = true :=
    List.all_eq_true.mp (by decide)
  have whiteBehind : ∀ c ∈ "\u000b ".toList, isWhite c = true :=
    List.all_eq_true.mp (by decide)
  exact ⟨whiteBefore, whiteBehind,
    (ofInput_surrounded_eq_iff Schema.user _ _ _ whiteBefore whiteBehind).1.mpr
      fun impossible => absurd impossible (by decide)⟩

/-- Two blanks around the empty text make a rejected input of the empty filter. -/
theorem ofInput_blank_rejected :
    (∀ c ∈ "  ".toList, isWhite c = true) ∧
      Filter.ofInput Schema.tracking ("  " ++ "" ++ "") = .error .emptyQuery ∧
      Filter.ofInput Schema.tracking "" = .ok none := by
  have white : ∀ c ∈ "  ".toList, isWhite c = true := List.all_eq_true.mp (by decide)
  have rejected : Filter.ofInput Schema.tracking ("  " ++ "" ++ "") = .error .emptyQuery := by
    decide +kernel
  exact ⟨white, rejected, rfl⟩

end FilterQuery
