import FilterQuery.Proofs.AddressPattern
import FilterQuery.Value

namespace FilterQuery
namespace Email

open scoped Computability

/-!
# The shape of addresses

An address can be told by cutting it up: at its at sign, and then each side at its dots.
Every part is looked at by itself, and nothing is repeated or walked along.

The parts are those of the pattern.  A pattern with a separator between texts of one
language is the language of all texts whose parts at that separator are in it, provided that
the separator occurs in none of them.  So pieces are told from their characters, and labels
from their characters and their two ends.
-/

/-- A piece of a local part by its characters. -/
def IsPiece (piece : List Char) : Prop :=
  piece ≠ [] ∧
    ∀ c ∈ piece, c.isAlphanum = true ∨ c ∈ "!#$%&'*+/=?^_\u0060\x7b|\x7d~-".toList

/-- A label of a domain by its characters and its ends. -/
def IsLabel (label : List Char) : Prop :=
  label ≠ [] ∧ (∀ c ∈ label, c.isAlphanum = true ∨ c = '-') ∧
    label.head? ≠ some '-' ∧ label.getLast? ≠ some '-'

/-- A text with one at sign, in which pieces are separated by dots before it and two or more
labels behind it. -/
def Shaped (text : List Char) : Prop :=
  ∃ front domain, text.splitOn '@' = [front, domain] ∧
    (∀ piece ∈ front.splitOn '.', IsPiece piece) ∧
    2 ≤ (domain.splitOn '.').length ∧ ∀ label ∈ domain.splitOn '.', IsLabel label

/-! ## Separators -/

section Separators

variable {l m : Language Char} {separator : Char} {text : List Char}

/-- A text is cut at its first separator, if it has one. -/
theorem splitOn_cases (separator : Char) (text : List Char) :
    text.splitOn separator = [text] ∨
      ∃ first behind, text = first ++ separator :: behind ∧
        text.splitOn separator = first :: behind.splitOn separator := by
  by_cases occurs : separator ∈ text
  · rcases List.eq_append_cons_of_mem occurs with ⟨first, behind, rfl, before⟩
    exact .inr ⟨first, behind, rfl, List.splitOn_append_cons_self_of_not_mem before behind⟩
  · exact .inl (List.splitOn_eq_singleton occurs)

theorem mem_mul_only_mul :
    text ∈ l * only separator * m ↔
      ∃ first ∈ l, ∃ behind ∈ m, text = first ++ separator :: behind := by
  constructor
  · intro member
    rw [mul_assoc] at member
    rcases Language.mem_mul.mp member with ⟨first, memberFirst, rest, memberRest, rfl⟩
    rcases Language.mem_mul.mp memberRest with ⟨_, ⟨c, same, rfl⟩, behind, memberBehind, rfl⟩
    rw [beq_iff_eq.mp same]
    exact ⟨first, memberFirst, behind, memberBehind, rfl⟩
  · rintro ⟨first, memberFirst, behind, memberBehind, rfl⟩
    rw [mul_assoc]
    exact Language.append_mem_mul memberFirst
      (cons_mem_oneOf_mul.mpr ⟨BEq.rfl, memberBehind⟩)

/-- The texts that a separator cuts into texts of a language. -/
def cutInto (separator : Char) (l : Language Char) : Language Char :=
  {text | ∀ part ∈ text.splitOn separator, part ∈ l}

theorem mem_cutInto_of_single (cut : text.splitOn separator = [text]) :
    text ∈ cutInto separator l ↔ text ∈ l := by
  change (∀ part ∈ text.splitOn separator, part ∈ l) ↔ text ∈ l
  rw [cut, List.forall_mem_singleton]

theorem mem_cutInto_of_cons {first behind : List Char}
    (cut : text.splitOn separator = first :: behind.splitOn separator) :
    text ∈ cutInto separator l ↔ first ∈ l ∧ behind ∈ cutInto separator l := by
  change (∀ part ∈ text.splitOn separator, part ∈ l) ↔ first ∈ l ∧ behind ∈ cutInto separator l
  rw [cut, List.forall_mem_cons]
  rfl

/-- Texts with a separator between them are cut into these texts again. -/
theorem cutInto_eq (nonempty : [] ∉ l) (apart : ∀ part ∈ l, separator ∉ part) :
    cutInto separator l = l * (only separator * l)∗ := by
  rw [← kstar_mul_comm nonempty, ← Language.self_eq_mul_add_iff (nil_notMem_mul nonempty)]
  ext text
  rw [Language.mem_add, mem_mul_only_mul]
  constructor
  · intro member
    rcases splitOn_cases separator text with whole | ⟨first, behind, same, cut⟩
    · exact .inr ((mem_cutInto_of_single whole).mp member)
    · rcases (mem_cutInto_of_cons cut).mp member with ⟨memberFirst, memberBehind⟩
      exact .inl ⟨first, memberFirst, behind, memberBehind, same⟩
  · rintro (⟨first, memberFirst, behind, memberBehind, rfl⟩ | whole)
    · have cut := List.splitOn_append_cons_self_of_not_mem (apart first memberFirst) behind
      exact (mem_cutInto_of_cons cut).mpr ⟨memberFirst, memberBehind⟩
    · exact (mem_cutInto_of_single (List.splitOn_eq_singleton (apart text whole))).mpr whole

/-- With a separator behind each text and one more text at the end, there are two or more
parts. -/
theorem mem_repeated_mul_iff (nonempty : [] ∉ l) (apart : ∀ part ∈ l, separator ∉ part) :
    text ∈ repeated (l * only separator) * l ↔
      2 ≤ (text.splitOn separator).length ∧ text ∈ cutInto separator l := by
  rw [repeated, mul_assoc, kstar_mul_comm nonempty, ← cutInto_eq nonempty apart, mem_mul_only_mul]
  constructor
  · rintro ⟨first, memberFirst, behind, memberBehind, rfl⟩
    have cut := List.splitOn_append_cons_self_of_not_mem (apart first memberFirst) behind
    have further := List.length_pos_iff.mpr (List.splitOn_ne_nil separator behind)
    refine ⟨?_, (mem_cutInto_of_cons cut).mpr ⟨memberFirst, memberBehind⟩⟩
    rw [cut, List.length_cons]
    omega
  · rintro ⟨several, member⟩
    rcases splitOn_cases separator text with whole | ⟨first, behind, same, cut⟩
    · rw [whole, List.length_singleton] at several
      omega
    · rcases (mem_cutInto_of_cons cut).mp member with ⟨memberFirst, memberBehind⟩
      exact ⟨first, memberFirst, behind, memberBehind, same⟩

theorem mem_of_mem_intercalate {c : Char} {parts : List (List Char)}
    (member : c ∈ [separator].intercalate parts) : c = separator ∨ ∃ part ∈ parts, c ∈ part := by
  induction parts with
  | nil => cases member
  | cons first others ih =>
      cases others with
      | nil =>
          rw [List.intercalate_singleton] at member
          exact .inr ⟨first, List.mem_cons_self, member⟩
      | cons second others =>
          rw [List.intercalate_cons_cons] at member
          rcases List.mem_append.mp member with front | behind
          · rcases List.mem_append.mp front with inFirst | isSeparator
            · exact .inr ⟨first, List.mem_cons_self, inFirst⟩
            · exact .inl (List.mem_singleton.mp isSeparator)
          · rcases ih behind with isSeparator | ⟨part, known, inside⟩
            · exact .inl isSeparator
            · exact .inr ⟨part, List.mem_cons_of_mem first known, inside⟩

/-- What occurs in no part and is not the separator does not occur. -/
theorem notMem_of_mem_cutInto {c : Char} (other : c ≠ separator) (avoids : ∀ part ∈ l, c ∉ part)
    (member : text ∈ cutInto separator l) : c ∉ text := by
  intro occurs
  have joined : [separator].intercalate (text.splitOn separator) = text :=
    List.intercalate_splitOn separator
  rw [← joined] at occurs
  rcases mem_of_mem_intercalate occurs with isSeparator | ⟨part, known, inside⟩
  · exact other isSeparator
  · exact avoids part (member part known) inside

end Separators

/-! ## Parts -/

theorem mem_kstar_oneOf_iff {belongs : Char → Bool} {text : List Char} :
    text ∈ (oneOf belongs)∗ ↔ ∀ c ∈ text, belongs c = true := by
  constructor
  · rintro ⟨parts, rfl, each⟩ c member
    rcases List.mem_flatten.mp member with ⟨part, known, inside⟩
    rcases each part known with ⟨d, belong, rfl⟩
    rw [List.mem_singleton.mp inside]
    exact belong
  · intro all
    refine ⟨text.map fun c => [c], (List.flatMap_singleton' text).symm, ?_⟩
    intro part member
    rcases List.mem_map.mp member with ⟨c, inside, rfl⟩
    exact ⟨c, all c inside, rfl⟩

theorem concat_mem_mul_oneOf {belongs : Char → Bool} {l : Language Char} {front : List Char}
    {c : Char} : front ++ [c] ∈ l * oneOf belongs ↔ front ∈ l ∧ belongs c = true := by
  constructor
  · intro member
    rcases Language.mem_mul.mp member with ⟨front', memberFront, _, ⟨last, belong, rfl⟩, same⟩
    rcases List.append_inj' same rfl with ⟨rfl, ⟨⟩⟩
    exact ⟨memberFront, belong⟩
  · rintro ⟨memberFront, belong⟩
    exact Language.append_mem_mul memberFront ⟨c, belong, rfl⟩

theorem isLocalChar_iff {c : Char} :
    isLocalChar c = true ↔
      c.isAlphanum = true ∨ c ∈ "!#$%&'*+/=?^_`{|}~-".toList := by
  rw [isLocalChar, Bool.or_eq_true, List.contains_iff_mem]

/-- Pieces are told from their characters. -/
theorem mem_pieces_iff {piece : List Char} : piece ∈ pieces ↔ IsPiece piece := by
  cases piece with
  | nil => exact iff_of_false nil_notMem_pieces fun piece => piece.1 rfl
  | cons c rest =>
      simp only [pieces, repeated, cons_mem_oneOf_mul, mem_kstar_oneOf_iff, IsPiece,
        isLocalChar_iff, List.forall_mem_cons, ne_eq, List.cons_ne_nil, not_false_eq_true,
        true_and]

/-- A letter or a digit is what may stand inside a label and is no hyphen. -/
theorem isAlphanum_iff {c : Char} :
    c.isAlphanum = true ↔ (c.isAlphanum = true ∨ c = '-') ∧ some c ≠ some '-' := by
  rw [ne_eq, Option.some.injEq]
  constructor
  · intro alphanumeric
    refine ⟨.inl alphanumeric, ?_⟩
    rintro rfl
    exact absurd alphanumeric (by decide)
  · rintro ⟨alphanumeric | hyphen, noHyphen⟩
    · exact alphanumeric
    · exact absurd hyphen noHyphen

/-- Labels are told from their characters and their ends. -/
theorem mem_labels_iff {label : List Char} : label ∈ labels ↔ IsLabel label := by
  cases label with
  | nil => exact iff_of_false nil_notMem_labels fun label => label.1 rfl
  | cons first rest =>
      rw [labels, cons_mem_oneOf_mul, Language.mem_add, Language.mem_one, IsLabel, List.head?_cons,
        List.forall_mem_cons]
      rcases List.eq_nil_or_concat' rest with rfl | ⟨middle, last, rfl⟩
      · rw [List.getLast?_singleton]
        constructor
        · rintro ⟨alphanumeric, _⟩
          rcases isAlphanum_iff.mp alphanumeric with ⟨belongs, noHyphen⟩
          exact ⟨List.cons_ne_nil first [], ⟨belongs, List.forall_mem_nil _⟩, noHyphen, noHyphen⟩
        · rintro ⟨_, ⟨belongs, _⟩, noHyphen, _⟩
          exact ⟨isAlphanum_iff.mpr ⟨belongs, noHyphen⟩, .inl rfl⟩
      · rw [concat_mem_mul_oneOf, mem_kstar_oneOf_iff, ← List.cons_append, List.getLast?_concat,
          List.forall_mem_append, List.forall_mem_singleton]
        simp only [Bool.or_eq_true, beq_iff_eq]
        constructor
        · rintro ⟨alphanumeric, empty | ⟨inside, alphanumericLast⟩⟩
          · exact absurd empty
              (List.append_ne_nil_of_right_ne_nil middle (List.cons_ne_nil last []))
          · rcases isAlphanum_iff.mp alphanumeric with ⟨belongs, noHyphen⟩
            rcases isAlphanum_iff.mp alphanumericLast with ⟨belongsLast, noHyphenLast⟩
            exact ⟨List.cons_ne_nil first _, ⟨belongs, inside, belongsLast⟩, noHyphen, noHyphenLast⟩
        · rintro ⟨_, ⟨belongs, inside, belongsLast⟩, noHyphen, noHyphenLast⟩
          exact ⟨isAlphanum_iff.mpr ⟨belongs, noHyphen⟩,
            .inr ⟨inside, isAlphanum_iff.mpr ⟨belongsLast, noHyphenLast⟩⟩⟩

theorem notMem_of_mem_pieces {c : Char} (other : isLocalChar c = false) :
    ∀ piece ∈ pieces, c ∉ piece := by
  intro piece member inside
  have isLocal := isLocalChar_iff.mpr ((mem_pieces_iff.mp member).2 c inside)
  rw [other] at isLocal
  cases isLocal

theorem notMem_of_mem_labels {c : Char} (other : c.isAlphanum = false) (noHyphen : c ≠ '-') :
    ∀ label ∈ labels, c ∉ label := by
  intro label member inside
  rcases (mem_labels_iff.mp member).2.1 c inside with alphanumeric | hyphen
  · rw [other] at alphanumeric
    cases alphanumeric
  · exact noHyphen hyphen

/-- The texts of the pattern are those with the shape of an address. -/
theorem mem_pattern_iff {text : List Char} : text ∈ pattern ↔ Shaped text := by
  have dotPieces := notMem_of_mem_pieces (show isLocalChar '.' = false by decide)
  have atPieces := notMem_of_mem_pieces (show isLocalChar '@' = false by decide)
  have dotLabels := notMem_of_mem_labels (show '.'.isAlphanum = false by decide) (by decide)
  have atLabels := notMem_of_mem_labels (show '@'.isAlphanum = false by decide) (by decide)
  rw [pattern, mul_assoc _ (repeated _) labels, ← cutInto_eq nil_notMem_pieces dotPieces,
    mem_mul_only_mul]
  simp only [mem_repeated_mul_iff nil_notMem_labels dotLabels]
  constructor
  · rintro ⟨front, inPieces, domain, ⟨several, inLabels⟩, rfl⟩
    refine ⟨front, domain, ?_, fun piece member => mem_pieces_iff.mp (inPieces piece member),
      several, fun label member => mem_labels_iff.mp (inLabels label member)⟩
    rw [List.splitOn_append_cons_self_of_not_mem
        (notMem_of_mem_cutInto (by decide) atPieces inPieces),
      List.splitOn_eq_singleton (notMem_of_mem_cutInto (by decide) atLabels inLabels)]
  · rintro ⟨front, domain, cut, arePieces, several, areLabels⟩
    refine ⟨front, fun piece member => mem_pieces_iff.mpr (arePieces piece member), domain,
      ⟨several, fun label member => mem_labels_iff.mpr (areLabels label member)⟩, ?_⟩
    have joined : ['@'].intercalate (text.splitOn '@') = text := List.intercalate_splitOn '@'
    rw [← joined, cut, List.intercalate_cons_cons, List.intercalate_singleton, List.append_assoc]
    rfl

end Email

/-- A literal is an address, and is kept as it is, exactly if it has the shape of one.  The
same literals are those of the pattern. -/
theorem valueOf_email_eq_ok_iff (literal : String) (value : Value) :
    (Kind.email.valueOf literal = .ok value ↔
      value = .email literal ∧ Email.Shaped literal.toList) ∧
    (literal.toList ∈ Email.pattern ↔ Email.Shaped literal.toList) := by
  refine ⟨?_, Email.mem_pattern_iff⟩
  rw [← Email.mem_pattern_iff, ← Email.isAddress_iff_mem_pattern, Kind.valueOf_eq_ok_iff,
    Kind.read?]
  split
  next accepted =>
    rw [Option.some.injEq]
    exact ⟨fun same => ⟨same.symm, accepted⟩, fun kept => kept.1.symm⟩
  next refused =>
    constructor
    · intro impossible
      cases impossible
    · rintro ⟨_, accepted⟩
      exact absurd accepted refused

end FilterQuery
