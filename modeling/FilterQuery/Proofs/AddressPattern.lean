import Mathlib.Computability.Language
import FilterQuery.Email

namespace FilterQuery
namespace Email

open scoped Computability

/-!
# The pattern of addresses

Addresses are a regular language.  It is written down here from single characters, by
putting languages beside each other, uniting them and repeating them.

The walk along an address decides that language.  Every position of the walk has a language
of its own, the texts with which an address may go on there, and a single step relates it
to the languages of the next positions.  These relations are linear equations.  Arden's rule
solves them one after the other: if the empty text is not in `m`, then `l = m * l + n` holds
for no language but `m∗ * n`.
-/

/-- The texts of one character of a class. -/
def oneOf (belongs : Char → Bool) : Language Char :=
  {text | ∃ c, belongs c = true ∧ text = [c]}

/-- The text of one character. -/
def only (c : Char) : Language Char :=
  oneOf (· == c)

/-- Texts of a language in a row, at least one of them. -/
def repeated (l : Language Char) : Language Char :=
  l * l∗

/-- A piece of the local part. -/
def pieces : Language Char :=
  repeated (oneOf isLocalChar)

/-- A label of the domain: a letter or a digit, or two of them with hyphens, letters and
digits between. -/
def labels : Language Char :=
  oneOf Char.isAlphanum *
    (1 + (oneOf fun c => c.isAlphanum || c == '-')∗ * oneOf Char.isAlphanum)

/-- An address: pieces with dots between, an at sign, labels with a dot behind each, and a
last label. -/
def pattern : Language Char :=
  pieces * (only '.' * pieces)∗ * only '@' * repeated (labels * only '.') * labels

/-! ## Single characters -/

section Characters

variable {belongs belongs' : Char → Bool} {l : Language Char} {c : Char} {text : List Char}

theorem nil_notMem_oneOf : [] ∉ oneOf belongs := by
  rintro ⟨c, _, impossible⟩
  cases impossible

theorem nil_notMem_mul {m : Language Char} (nonempty : [] ∉ l) : [] ∉ l * m := by
  rintro ⟨front, member, behind, _, same⟩
  rw [(List.append_eq_nil_iff.mp same).1] at member
  exact nonempty member

theorem cons_mem_oneOf_mul : c :: text ∈ oneOf belongs * l ↔ belongs c = true ∧ text ∈ l := by
  constructor
  · rintro ⟨front, ⟨first, belong, rfl⟩, rest, member, same⟩
    cases same
    exact ⟨belong, member⟩
  · rintro ⟨belong, member⟩
    exact ⟨[c], ⟨c, belong, rfl⟩, text, member, rfl⟩

theorem cons_mem_only_mul {d : Char} : c :: text ∈ only d * l ↔ c = d ∧ text ∈ l := by
  rw [only, cons_mem_oneOf_mul, beq_iff_eq]

theorem oneOf_add_oneOf :
    oneOf belongs + oneOf belongs' = oneOf fun c => belongs c || belongs' c := by
  ext text
  constructor
  · rintro (⟨c, belong, rfl⟩ | ⟨c, belong, rfl⟩)
    · exact ⟨c, (Bool.or_eq_true _ _).mpr (.inl belong), rfl⟩
    · exact ⟨c, (Bool.or_eq_true _ _).mpr (.inr belong), rfl⟩
  · rintro ⟨c, belong, rfl⟩
    rcases (Bool.or_eq_true _ _).mp belong with first | second
    · exact .inl ⟨c, first, rfl⟩
    · exact .inr ⟨c, second, rfl⟩

end Characters

/-! ## Positions -/

namespace Position

/-- The texts with which an address may go on at a position. -/
def rest (position : Position) : Language Char :=
  {text | ∃ reached, text.foldlM step position = some reached ∧ reached.isEnd = true}

theorem nil_mem_rest {position : Position} : [] ∈ position.rest ↔ position.isEnd = true := by
  constructor
  · rintro ⟨reached, ⟨⟩, ends⟩
    exact ends
  · intro ends
    exact ⟨position, rfl, ends⟩

theorem cons_mem_rest {position : Position} {c : Char} {text : List Char} :
    c :: text ∈ position.rest ↔ ∃ next, position.step c = some next ∧ text ∈ next.rest := by
  constructor
  · rintro ⟨reached, walked, ends⟩
    rw [List.foldlM_cons] at walked
    rcases Option.bind_eq_some_iff.mp walked with ⟨next, stepped, further⟩
    exact ⟨next, stepped, reached, further, ends⟩
  · rintro ⟨next, stepped, reached, further, ends⟩
    refine ⟨reached, ?_, ends⟩
    rw [List.foldlM_cons]
    exact Option.bind_eq_some_iff.mpr ⟨next, stepped, further⟩

/-- How an address ends inside a label: with nothing more if a dot was passed, and not at all
otherwise. -/
def ending (dotted : Bool) : Language Char :=
  if dotted then 1 else 0

/-- What goes on at a position, by the character it begins with. -/
def ahead : Position → Language Char
  | pieceStart => oneOf isLocalChar * piece.rest
  | piece =>
    oneOf isLocalChar * piece.rest +
      (only '.' * pieceStart.rest + only '@' * (labelStart false).rest)
  | labelStart dotted => oneOf Char.isAlphanum * (label dotted).rest
  | label dotted =>
    oneOf Char.isAlphanum * (label dotted).rest +
      (only '-' * (hyphen dotted).rest + (only '.' * (labelStart true).rest + ending dotted))
  | hyphen dotted =>
    oneOf Char.isAlphanum * (label dotted).rest + only '-' * (hyphen dotted).rest

theorem nil_mem_ahead {position : Position} :
    [] ∈ position.ahead ↔ position.isEnd = true := by
  have none : ∀ {belongs : Char → Bool} {l : Language Char}, [] ∉ oneOf belongs * l :=
    nil_notMem_mul nil_notMem_oneOf
  cases position with
  | label dotted =>
      simp only [ahead, Language.mem_add, only, none, false_or]
      cases dotted with
      | true => exact iff_of_true rfl rfl
      | false => exact iff_of_false (Language.notMem_zero _) Bool.false_ne_true
  | _ => simp only [ahead, Language.mem_add, only, none, or_self, isEnd, Bool.false_eq_true]

theorem cons_mem_ahead {position : Position} {c : Char} {text : List Char} :
    c :: text ∈ position.ahead ↔ ∃ next, position.step c = some next ∧ text ∈ next.rest := by
  -- A step tries the classes in some order, which does not matter as they are disjoint.
  have ne_of_isLocal : isLocalChar c = true → c ≠ '.' ∧ c ≠ '@' := by
    intro isLocal
    constructor <;> rintro rfl <;> exact absurd isLocal (by decide)
  have ne_of_isAlphanum : c.isAlphanum = true → c ≠ '-' ∧ c ≠ '.' := by
    intro alphanumeric
    constructor <;> rintro rfl <;> exact absurd alphanumeric (by decide)
  have notEnding : ∀ dotted, c :: text ∉ ending dotted := by
    rintro (_ | _) member
    · exact Language.notMem_zero _ member
    · exact absurd member (List.cons_ne_nil c text)
  cases position <;>
    simp only [ahead, step, Language.mem_add, cons_mem_oneOf_mul, cons_mem_only_mul, notEnding,
      or_false] <;>
    grind

/-- The equation of a position. -/
theorem rest_eq (position : Position) : position.rest = position.ahead := by
  ext text
  cases text with
  | nil => rw [nil_mem_rest, nil_mem_ahead]
  | cons c text => rw [cons_mem_rest, cons_mem_ahead]

end Position

/-! ## Solving the equations -/

open Position

theorem nil_notMem_pieces : [] ∉ pieces :=
  nil_notMem_mul nil_notMem_oneOf

theorem nil_notMem_labels : [] ∉ labels :=
  nil_notMem_mul nil_notMem_oneOf

/-- It is the same to begin with a separated text or to end with one. -/
theorem kstar_mul_comm {l m : Language Char} (nonempty : [] ∉ l) :
    (l * m)∗ * l = l * (m * l)∗ := by
  symm
  rw [← Language.self_eq_mul_add_iff (nil_notMem_mul nonempty)]
  calc
    l * (m * l)∗ = l * (1 + m * l * (m * l)∗) := by
      rw [Language.one_add_self_mul_kstar_eq_kstar]
    _ = l * m * (l * (m * l)∗) + l := by
      rw [mul_add, mul_one, add_comm]
      simp only [mul_assoc]

/-- Inside a label there is what there is behind a hyphen, and the end of the label. -/
theorem rest_label (dotted : Bool) :
    (label dotted).rest =
      (hyphen dotted).rest + (only '.' * (labelStart true).rest + ending dotted) := by
  conv_lhs => rw [rest_eq, ahead, ← add_assoc]
  exact congrArg (· + _) (rest_eq (hyphen dotted)).symm

/-- A label that has begun goes on with some characters and ends with a letter or a digit. -/
theorem rest_hyphen (dotted : Bool) :
    (hyphen dotted).rest =
      (oneOf fun c => c.isAlphanum || c == '-')∗ * oneOf Char.isAlphanum *
        (only '.' * (labelStart true).rest + ending dotted) := by
  -- With the inside of a label replaced, only one language in this equation is unknown.
  rw [mul_assoc, ← Language.self_eq_mul_add_iff nil_notMem_oneOf, ← oneOf_add_oneOf, add_mul,
    add_right_comm, ← mul_add, ← rest_label]
  exact rest_eq (hyphen dotted)

theorem rest_labelStart (dotted : Bool) :
    (labelStart dotted).rest =
      labels * (only '.' * (labelStart true).rest + ending dotted) := by
  rw [rest_eq, ahead, rest_label, rest_hyphen, ← add_one_mul, labels, mul_assoc, add_comm 1]

/-- Behind a dot, further labels follow. -/
theorem rest_labelStart_true : (labelStart true).rest = (labels * only '.')∗ * labels := by
  rw [← Language.self_eq_mul_add_iff (nil_notMem_mul nil_notMem_labels)]
  conv_lhs => rw [rest_labelStart, mul_add, ← mul_assoc, ending, if_pos rfl, mul_one]

theorem rest_labelStart_false :
    (labelStart false).rest = repeated (labels * only '.') * labels := by
  rw [rest_labelStart, rest_labelStart_true, ending, if_neg Bool.false_ne_true, add_zero, repeated]
  simp only [mul_assoc]

theorem rest_piece :
    piece.rest = (oneOf isLocalChar)∗ *
      (only '.' * pieceStart.rest + only '@' * (labelStart false).rest) := by
  rw [← Language.self_eq_mul_add_iff nil_notMem_oneOf]
  exact rest_eq piece

/-- At its start an address goes on with the whole pattern. -/
theorem rest_pieceStart : pieceStart.rest = pattern := by
  have equation : pieceStart.rest =
      pieces * only '.' * pieceStart.rest + pieces * only '@' * (labelStart false).rest := by
    conv_lhs => rw [rest_eq, ahead, rest_piece]
    rw [← mul_assoc, ← repeated, ← pieces, mul_add, mul_assoc, mul_assoc]
  rw [Language.self_eq_mul_add_iff (nil_notMem_mul nil_notMem_pieces)] at equation
  rw [equation, pattern, ← kstar_mul_comm nil_notMem_pieces, rest_labelStart_false]
  simp only [mul_assoc]

/-- The walk accepts the texts of the pattern. -/
theorem isAddress_iff_mem_pattern {text : List Char} :
    isAddress text = true ↔ text ∈ pattern := by
  rw [← rest_pieceStart, isAddress]
  constructor
  · intro accepted
    split at accepted
    next reached walked => exact ⟨reached, walked, accepted⟩
    next => cases accepted
  · rintro ⟨reached, walked, ends⟩
    rw [walked]
    exact ends

end Email
end FilterQuery
