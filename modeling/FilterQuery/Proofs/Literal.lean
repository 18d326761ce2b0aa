import FilterQuery.Text.Blank
import FilterQuery.Proofs.BinaryLiteral
import FilterQuery.Proofs.DurationLiteral

namespace FilterQuery

open Text

/-!
# Literals of values that were read

A value that was read from a literal is written as a literal again, and not always as the
same one: signs, leading zeros, powers of ten and units are not kept.  What is written is
read as the same value by the same kind, so that writing changes a literal at most once.

It is also a single word wherever the literal was one.  A literal is either the text that
was read, in the kinds that keep it, or it is `Numeric`: it begins with a digit or a minus
sign and goes on with few other characters.  All of them are `isPlain`, so no literal
holds a character at which a word ends or which is trimmed away, and a literal that is not
kept is never the word of an operator.
-/

namespace Text

/-- The visible characters of ASCII without the parentheses. -/
def isPlain (c : Char) : Bool :=
  0x21 ≤ c.toNat && c.toNat ≤ 0x7E && c.toNat != 0x28 && c.toNat != 0x29

theorem isPlain_iff {c : Char} :
    isPlain c = true ↔ 0x21 ≤ c.toNat ∧ c.toNat ≤ 0x7E ∧ c.toNat ≠ 0x28 ∧ c.toNat ≠ 0x29 := by
  simp only [isPlain, Bool.and_eq_true, decide_eq_true_eq, bne_iff_ne, ne_eq, and_assoc]

theorem isWhite_of_isPlain {c : Char} (plain : isPlain c = true) : isWhite c = false := by
  rcases isPlain_iff.mp plain with ⟨lower, upper, _, _⟩
  simp only [isWhite, Bool.or_eq_false_iff, Bool.and_eq_false_iff, decide_eq_false_iff_not,
    beq_eq_false_iff_ne]
  omega

/-- A plain character is none at which a word ends. -/
theorem isDelimiter_of_isPlain {c : Char} (plain : isPlain c = true) : isDelimiter c = false := by
  rcases isPlain_iff.mp plain with ⟨_, _, notOpening, notClosing⟩
  have notBlank : isBlank c = false := by
    cases blank : isBlank c with
    | true =>
        rw [← isWhite_of_isPlain plain]
        exact (isWhite_of_isBlank blank).symm
    | false => rfl
  simp only [isDelimiter, notBlank, Bool.false_or, Bool.or_eq_false_iff, beq_eq_false_iff_ne]
  exact ⟨fun same => notOpening (congrArg Char.toNat same),
    fun same => notClosing (congrArg Char.toNat same)⟩

theorem isPlain_of_isAlphanum {c : Char} (alphanumeric : c.isAlphanum = true) :
    isPlain c = true := by
  rw [isPlain_iff]
  change (decide ('A'.val ≤ c.val ∧ c.val ≤ 'Z'.val) ||
      (decide ('a'.val ≤ c.val) && decide (c.val ≤ 'z'.val)) ||
        (decide ('0'.val ≤ c.val) && decide (c.val ≤ '9'.val))) = true at alphanumeric
  simp only [Bool.or_eq_true, Bool.and_eq_true, decide_eq_true_eq,
    UInt32.le_iff_toNat_le] at alphanumeric
  have code : c.val.toNat = c.toNat := rfl
  rw [code] at alphanumeric
  rcases alphanumeric with (⟨lower, upper⟩ | ⟨lower, upper⟩) | ⟨lower, upper⟩
  · change 65 ≤ c.toNat at lower
    change c.toNat ≤ 90 at upper
    omega
  · change 97 ≤ c.toNat at lower
    change c.toNat ≤ 122 at upper
    omega
  · change 48 ≤ c.toNat at lower
    change c.toNat ≤ 57 at upper
    omega

theorem isPlain_of_isDigit {c : Char} (digit : c.isDigit = true) : isPlain c = true :=
  isPlain_of_isAlphanum (by rw [Char.isAlphanum, digit, Bool.or_true])

theorem isPlain_of_isAlpha {c : Char} (letter : c.isAlpha = true) : isPlain c = true :=
  isPlain_of_isAlphanum (by rw [Char.isAlphanum, letter, Bool.true_or])

/-- A text that can only be the literal of a number, a date or a duration. -/
def Numeric (text : List Char) : Prop :=
  (∃ first rest, text = first :: rest ∧ (first.isDigit = true ∨ first = '-')) ∧
    ∀ c ∈ text, isPlain c = true

theorem Numeric.append {text further : List Char} (numeric : Numeric text)
    (plain : ∀ c ∈ further, isPlain c = true) : Numeric (text ++ further) := by
  rcases numeric with ⟨⟨first, rest, rfl, begins⟩, others⟩
  refine ⟨⟨first, rest ++ further, rfl, begins⟩, ?_⟩
  intro c member
  rcases List.mem_append.mp member with inside | behind
  · exact others c inside
  · exact plain c behind

theorem Numeric.negative {text : List Char} (numeric : Numeric text) : Numeric ('-' :: text) := by
  refine ⟨⟨'-', text, rfl, .inr rfl⟩, ?_⟩
  intro c member
  rcases List.mem_cons.mp member with rfl | inside
  · rfl
  · exact numeric.2 c inside

theorem numeric_of_isDigit {digits : List Char} (nonempty : digits ≠ [])
    (all : ∀ c ∈ digits, c.isDigit = true) : Numeric digits := by
  rcases List.exists_cons_of_ne_nil nonempty with ⟨first, rest, rfl⟩
  exact ⟨⟨first, rest, rfl, .inl (all first (by simp))⟩,
    fun c member => isPlain_of_isDigit (all c member)⟩

theorem numeric_integerNumeral (value : Int) : Numeric (integerNumeral value) := by
  have digits := numeric_of_isDigit (numeral_ne_nil value.natAbs)
    (fun _ member => isDigit_of_mem_numeral member)
  rw [integerNumeral]
  split
  next => exact digits.negative
  next => exact digits

end Text

/-! ## Each form of literal -/

/-- A date literal has four digits, two and two, and the date has their values. -/
theorem Date.parts_of_read? {text : List Char} {date : Date}
    (read : Date.read? text = some date) :
    ∃ y₁ y₂ y₃ y₄ m₁ m₂ d₁ d₂, text = [y₁, y₂, y₃, y₄, '-', m₁, m₂, '-', d₁, d₂] ∧
      (∀ c ∈ [y₁, y₂, y₃, y₄, m₁, m₂, d₁, d₂], c.isDigit = true) ∧
      date.year = digitsValue [y₁, y₂, y₃, y₄] ∧ date.month = digitsValue [m₁, m₂] ∧
      date.day = digitsValue [d₁, d₂] := by
  unfold Date.read? at read
  split at read
  case h_2 => cases read
  next y₁ y₂ y₃ y₄ m₁ m₂ d₁ d₂ =>
    split at read
    case isFalse => cases read
    next digits =>
      unfold Date.ofParts? at read
      split at read
      case isFalse => cases read
      next =>
        cases read
        exact ⟨y₁, y₂, y₃, y₄, m₁, m₂, d₁, d₂, rfl, List.all_eq_true.mp digits, rfl, rfl, rfl⟩

/-- A date is written as it was read. -/
theorem Date.literal_of_read? {text : List Char} {date : Date}
    (read : Date.read? text = some date) : date.literal = text := by
  rcases Date.parts_of_read? read with
    ⟨y₁, y₂, y₃, y₄, m₁, m₂, d₁, d₂, rfl, digits, isYear, isMonth, isDay⟩
  simp only [List.forall_mem_cons] at digits
  have year : paddedNumeral 4 (digitsValue [y₁, y₂, y₃, y₄]) = [y₁, y₂, y₃, y₄] :=
    paddedNumeral_digitsValue (List.cons_ne_nil y₁ [y₂, y₃, y₄]) (by simp [digits])
  have month : paddedNumeral 2 (digitsValue [m₁, m₂]) = [m₁, m₂] :=
    paddedNumeral_digitsValue (List.cons_ne_nil m₁ [m₂]) (by simp [digits])
  have day : paddedNumeral 2 (digitsValue [d₁, d₂]) = [d₁, d₂] :=
    paddedNumeral_digitsValue (List.cons_ne_nil d₁ [d₂]) (by simp [digits])
  rw [Date.literal, isYear, isMonth, isDay, if_neg (Int.not_lt.mpr (Int.natCast_nonneg _)),
    Int.natAbs_natCast, year, month, day]
  rfl

theorem Date.numeric_of_read? {text : List Char} {date : Date}
    (read : Date.read? text = some date) : Numeric text := by
  rcases Date.parts_of_read? read with ⟨y₁, y₂, y₃, y₄, m₁, m₂, d₁, d₂, rfl, digits, _⟩
  have hyphen : isPlain '-' = true := by decide
  simp only [List.forall_mem_cons] at digits
  refine ⟨⟨_, _, rfl, .inl digits.1⟩, ?_⟩
  simp only [List.forall_mem_cons, List.not_mem_nil, false_implies, implies_true,
    isPlain_of_isDigit, digits, hyphen, and_self]

theorem Duration.numeric_literal (duration : Duration) : Numeric duration.literal := by
  rw [Duration.literal]
  split
  next => exact (numeric_integerNumeral _).append (List.all_eq_true.mp (by decide))
  next => exact (numeric_integerNumeral _).append (List.all_eq_true.mp (by decide))

theorem Binary.numeric_literal {format : BinaryFormat} (negative : Bool)
    (ordinal : Fin format.infinity) : Numeric (Binary.finite negative ordinal).literal := by
  have positional : Numeric (format.shortest .upper ordinal).positional := by
    rcases (format.shortest .upper ordinal).exists_positional_cons with
      ⟨first, rest, text, digit, others⟩
    rw [text]
    refine ⟨⟨first, rest, rfl, .inl digit⟩, ?_⟩
    intro c member
    rcases List.mem_cons.mp member with rfl | further
    · exact isPlain_of_isDigit digit
    · rcases others c further with digit | rfl
      · exact isPlain_of_isDigit digit
      · rfl
  cases negative with
  | true => exact positional.negative
  | false => exact positional

namespace Email

theorem isPlain_of_isLocalChar {c : Char} (isLocal : isLocalChar c = true) : isPlain c = true := by
  rcases (Bool.or_eq_true _ _).mp isLocal with alphanumeric | sign
  · exact isPlain_of_isAlphanum alphanumeric
  · have all : "!#$%&'*+/=?^_\u0060\x7b|\x7d~-".toList.all isPlain = true := by decide
    exact List.all_eq_true.mp all c (List.contains_iff_mem.mp sign)

/-- The walk along an address meets plain characters only. -/
theorem isPlain_of_step {position next : Position} {c : Char}
    (stepped : position.step c = some next) : isPlain c = true := by
  have ofSign : ∀ sign, isPlain sign = true → c = sign → isPlain c = true := by
    rintro sign plain rfl
    exact plain
  cases position with
  | pieceStart =>
      simp only [Position.step] at stepped
      split at stepped
      next isLocal => exact isPlain_of_isLocalChar isLocal
      next => cases stepped
  | piece =>
      simp only [Position.step] at stepped
      split at stepped
      next isLocal => exact isPlain_of_isLocalChar isLocal
      split at stepped
      next dot => exact ofSign _ rfl dot
      split at stepped
      next at' => exact ofSign _ rfl at'
      next => cases stepped
  | labelStart dotted =>
      simp only [Position.step] at stepped
      split at stepped
      next alphanumeric => exact isPlain_of_isAlphanum alphanumeric
      next => cases stepped
  | label dotted =>
      simp only [Position.step] at stepped
      split at stepped
      next alphanumeric => exact isPlain_of_isAlphanum alphanumeric
      split at stepped
      next hyphen => exact ofSign _ rfl hyphen
      split at stepped
      next dot => exact ofSign _ rfl dot
      next => cases stepped
  | hyphen dotted =>
      simp only [Position.step] at stepped
      split at stepped
      next alphanumeric => exact isPlain_of_isAlphanum alphanumeric
      split at stepped
      next hyphen => exact ofSign _ rfl hyphen
      next => cases stepped

theorem isPlain_of_walk {text : List Char} {position reached : Position}
    (walked : text.foldlM Position.step position = some reached) :
    ∀ c ∈ text, isPlain c = true := by
  induction text generalizing position with
  | nil =>
      intro c member
      cases member
  | cons first rest ih =>
      rw [List.foldlM_cons] at walked
      rcases Option.bind_eq_some_iff.mp walked with ⟨next, stepped, further⟩
      intro c member
      rcases List.mem_cons.mp member with rfl | behind
      · exact isPlain_of_step stepped
      · exact ih further c behind

/-- An address is made of plain characters, and there is at least one. -/
theorem isPlain_of_isAddress {text : List Char} (accepted : isAddress text = true) :
    text ≠ [] ∧ ∀ c ∈ text, isPlain c = true := by
  rw [isAddress] at accepted
  split at accepted
  next position walked =>
    refine ⟨?_, isPlain_of_walk walked⟩
    rintro rfl
    cases walked
    cases accepted
  next => cases accepted

end Email

/-! ## Values -/

theorem int32?_toInt (number : Int32) : int32? number.toInt = some number := by
  rw [int32?, if_pos ⟨number.minValue_le_toInt, number.toInt_le⟩, Int32.ofInt_toInt]

theorem int64?_toInt (number : Int64) : int64? number.toInt = some number := by
  rw [int64?, if_pos ⟨number.minValue_le_toInt, number.toInt_le⟩, Int64.ofInt_toInt]

theorem toInt_of_int32? {number : Int} {narrow : Int32} (fits : int32? number = some narrow) :
    narrow.toInt = number := by
  rw [int32?] at fits
  split at fits <;> cases fits
  next bounded =>
    exact Int32.toInt_ofInt_of_le bounded.1 (Int.lt_of_le_of_lt bounded.2 (by decide))

theorem toInt_of_int64? {number : Int} {narrow : Int64} (fits : int64? number = some narrow) :
    narrow.toInt = number := by
  rw [int64?] at fits
  split at fits <;> cases fits
  next bounded =>
    exact Int64.toInt_ofInt_of_le bounded.1 (Int.lt_of_le_of_lt bounded.2 (by decide))

theorem exists_int64?_of_le {number : Int} (lower : -2 ^ 63 ≤ number)
    (upper : number ≤ 2 ^ 63 - 1) :
    ∃ count, int64? number = some count ∧ count.toInt = number := by
  have fits : int64? number = some (Int64.ofInt number) := if_pos ⟨lower, upper⟩
  exact ⟨Int64.ofInt number, fits, toInt_of_int64? fits⟩

theorem Binary.same_finite {format : BinaryFormat} (negative : Bool)
    (ordinal : Fin format.infinity) :
    (finite negative ordinal).same (finite negative ordinal) = true := by
  simp only [same, BEq.rfl, Bool.true_or, Bool.and_self]

/-- A value was read by a kind, and is read again from its literal.  That literal is the
old one, or cannot be mistaken for a word with another use. -/
structure Kind.Rereads (kind : Kind) (literal : String) (value : Value) : Prop where
  again : kind.read? value.literal = some value
  same : value.same value = true
  spelled : (value.literal = literal ∧ ∀ c ∈ literal.toList, isPlain c = true) ∨
    Numeric value.literal.toList

namespace Kind

theorem rereads_float {format : BinaryFormat} (reach : format.WithinReach) {literal : String}
    {number : Binary format} (read : Binary.readFinite? literal.toList = some number) :
    Binary.readFinite? number.literal = some number ∧ number.same number = true ∧
      Numeric number.literal := by
  rcases Binary.isFinite_of_readFinite? read with ⟨negative, ordinal, rfl⟩
  exact ⟨Binary.readFinite?_literal reach negative ordinal, Binary.same_finite negative ordinal,
    Binary.numeric_literal negative ordinal⟩

/-- Whatever a kind has read, it reads again. -/
theorem rereads_of_read? {kind : Kind} {literal : String} {value : Value}
    (read : kind.read? literal = some value) : kind.Rereads literal value := by
  cases kind with
  | timestamp =>
      rcases Option.map_eq_some_iff.mp read with ⟨date, found, rfl⟩
      have kept : (Value.timestamp date).literal = literal := by
        rw [Value.literal, Date.literal_of_read? found, String.ofList_toList]
      refine ⟨?_, decide_eq_true rfl, .inl ⟨kept, (Date.numeric_of_read? found).2⟩⟩
      rw [kept]
      exact read
  | duration =>
      rcases Option.map_eq_some_iff.mp read with ⟨span, found, rfl⟩
      have again := Duration.read?_literal (Duration.natAbs_le_of_read? found)
      refine ⟨?_, decide_eq_true rfl, .inr ?_⟩
      · simp only [Value.literal, read?, String.toList_ofList, again, Option.map_some]
      · rw [Value.literal, String.toList_ofList]
        exact Duration.numeric_literal span
  | int32 =>
      rcases Option.map_eq_some_iff.mp read with ⟨number, _, rfl⟩
      refine ⟨?_, decide_eq_true rfl, .inr ?_⟩
      · simp only [Value.literal, read?, String.toList_ofList, integer?_integerNumeral,
          Option.bind_some, int32?_toInt, Option.map_some]
      · rw [Value.literal, String.toList_ofList]
        exact numeric_integerNumeral _
  | int64 =>
      rcases Option.map_eq_some_iff.mp read with ⟨number, _, rfl⟩
      refine ⟨?_, decide_eq_true rfl, .inr ?_⟩
      · simp only [Value.literal, read?, String.toList_ofList, integer?_integerNumeral,
          Option.bind_some, int64?_toInt, Option.map_some]
      · rw [Value.literal, String.toList_ofList]
        exact numeric_integerNumeral _
  | float32 =>
      rcases Option.map_eq_some_iff.mp read with ⟨number, found, rfl⟩
      rcases rereads_float BinaryFormat.single_withinReach found with ⟨again, same, numeric⟩
      refine ⟨?_, same, .inr ?_⟩
      · simp only [Value.literal, read?, String.toList_ofList, again, Option.map_some]
      · rw [Value.literal, String.toList_ofList]
        exact numeric
  | float64 =>
      rcases Option.map_eq_some_iff.mp read with ⟨number, found, rfl⟩
      rcases rereads_float BinaryFormat.double_withinReach found with ⟨again, same, numeric⟩
      refine ⟨?_, same, .inr ?_⟩
      · simp only [Value.literal, read?, String.toList_ofList, again, Option.map_some]
      · rw [Value.literal, String.toList_ofList]
        exact numeric
  | text =>
      simp only [read?] at read
      split at read <;> cases read
      next letters =>
        refine ⟨if_pos letters, decide_eq_true rfl, .inl ⟨rfl, ?_⟩⟩
        exact fun c member => isPlain_of_isAlpha (List.all_eq_true.mp letters c member)
  | email =>
      simp only [read?] at read
      split at read <;> cases read
      next accepted =>
        refine ⟨if_pos accepted, decide_eq_true rfl, .inl ⟨rfl, ?_⟩⟩
        exact (Email.isPlain_of_isAddress accepted).2

end Kind

namespace Kind.Rereads

variable {kind : Kind} {literal : String} {value : Value}

/-- No character of the literal ends a word or is trimmed. -/
theorem isPlain_of_mem (rereads : kind.Rereads literal value) :
    ∀ c ∈ value.literal.toList, isPlain c = true := by
  rcases rereads.spelled with ⟨kept, plain⟩ | numeric
  · rw [kept]
    exact plain
  · exact numeric.2

/-- The literal is empty only if the old one was. -/
theorem literal_ne_nil (rereads : kind.Rereads literal value) (nonempty : literal.toList ≠ []) :
    value.literal.toList ≠ [] := by
  rcases rereads.spelled with ⟨kept, _⟩ | ⟨⟨first, rest, same, _⟩, _⟩
  · rw [kept]
    exact nonempty
  · rw [same]
    exact List.cons_ne_nil first rest

/-- The literal spells a combinator only if the old one did. -/
theorem spells_combinator (rereads : kind.Rereads literal value)
    (spells : value.literal = "and" ∨ value.literal = "or") : literal = "and" ∨ literal = "or" := by
  rcases rereads.spelled with ⟨kept, _⟩ | ⟨⟨first, rest, same, begins⟩, _⟩
  · rw [← kept]
    exact spells
  · -- Neither word begins as a number does.
    rcases spells with spelled | spelled <;> rw [spelled] at same <;> cases same <;>
      exact absurd begins (by decide)

end Kind.Rereads

end FilterQuery
