import Mathlib.Data.Rat.Floor
import FilterQuery.Proofs.DurationLiteral

namespace FilterQuery
namespace Duration

open Text

/-!
# The grammar of durations

Reading takes one component after the other off the front of a text, and for each of them
it tries the units in a fixed order.  The grammar here knows no order.  A literal is a sign
or none, and behind it either a bare zero or some components, each of them a number with
the spelling of a unit.

The two agree because it is no choice where a component ends.  A component begins with a
digit or a point, and neither occurs in the spelling of a unit.  The spelling of minutes does
begin that of milliseconds, but the letter that would be left over begins no component.

What a component is worth is stated on rational numbers, as the whole part of a product.
The quotient by which the whole nanoseconds of a fraction are computed is shown to be the
same, and nothing is assumed about the length of the digits.
-/

/-- The spellings of units and the nanoseconds they stand for. -/
def unitSpellings : List (List Char × Nat) :=
  [(['n', 's'], 1), (['u', 's'], 1000), (['\u00b5', 's'], 1000), (['\u03bc', 's'], 1000),
    (['m', 's'], 1000000), (['s'], perSecond), (['m'], 60 * perSecond), (['h'], 3600 * perSecond)]

/-- The signs of a literal, and whether they are a minus. -/
def signSpellings : List (List Char × Bool) :=
  [([], false), (['+'], false), (['-'], true)]

/-- The number that some digits spell behind a point. -/
def fractionValue (digits : List Char) : ℚ :=
  digitsValue digits / 10 ^ digits.length

namespace Component

/-- The whole nanoseconds of a component.  Of its fraction only the first eighteen digits
count. -/
def worth (component : Component) : Nat :=
  digitsValue component.whole * component.unit +
    ⌊fractionValue (component.fraction.take 18) * component.unit⌋₊

/-- The texts of a component: digits, perhaps a point with digits behind it, and a unit. -/
inductive SpelledAs : Component → List Char → Prop where
  | plain {whole spelling : List Char} {unit : Nat} (nonempty : whole ≠ [])
      (digits : ∀ c ∈ whole, c.isDigit = true) (known : (spelling, unit) ∈ unitSpellings) :
      SpelledAs ⟨whole, [], unit⟩ (whole ++ spelling)
  | pointed {whole fraction spelling : List Char} {unit : Nat}
      (nonempty : whole ≠ [] ∨ fraction ≠ []) (digits : ∀ c ∈ whole, c.isDigit = true)
      (further : ∀ c ∈ fraction, c.isDigit = true) (known : (spelling, unit) ∈ unitSpellings) :
      SpelledAs ⟨whole, fraction, unit⟩ (whole ++ '.' :: (fraction ++ spelling))

end Component

/-- The texts of one or more components. -/
inductive Spelled : List Component → List Char → Prop where
  | last {component : Component} {text : List Char} (spelled : component.SpelledAs text) :
      Spelled [component] text
  | more {component : Component} {others : List Component} {front rest : List Char}
      (spelled : component.SpelledAs front) (further : Spelled others rest) :
      Spelled (component :: others) (front ++ rest)

/-- A literal stands for a number of nanoseconds on one side of zero. -/
inductive Denotes : List Char → Bool → Nat → Prop where
  | zero {sign : List Char} {negative : Bool} (signed : (sign, negative) ∈ signSpellings) :
      Denotes (sign ++ ['0']) negative 0
  | sum {sign text : List Char} {negative : Bool} {parts : List Component}
      (signed : (sign, negative) ∈ signSpellings) (spelled : Spelled parts text) :
      Denotes (sign ++ text) negative (parts.map Component.worth).sum

/-! ## Worth -/

/-- The whole part of a fraction of a unit is the quotient that is computed. -/
theorem floor_fractionValue (fraction : List Char) (unit : Nat) :
    ⌊fractionValue (fraction.take 18) * unit⌋₊ = fractionNanoseconds fraction unit := by
  have quotient : fractionValue (fraction.take 18) * unit =
      ((fractionNumerator fraction * unit : Nat) : ℚ) / (fractionScale fraction : Nat) := by
    rw [fractionValue, fractionNumerator, fractionScale]
    push_cast
    ring
  rw [quotient, Rat.natFloor_natCast_div_natCast]
  rfl

theorem Component.worth_eq_nanoseconds (component : Component) :
    component.worth = component.nanoseconds := by
  rw [worth, nanoseconds, floor_fractionValue]

theorem sum_map_worth (parts : List Component) :
    (parts.map Component.worth).sum = Component.sum parts := by
  induction parts with
  | nil => rfl
  | cons part others ih =>
      rw [List.map_cons, List.sum_cons, ih, part.worth_eq_nanoseconds, Component.sum]

/-! ## Units -/

/-- A spelling begins with a character that no number holds. -/
theorem exists_cons_of_mem_unitSpellings {spelling : List Char} {unit : Nat}
    (known : (spelling, unit) ∈ unitSpellings) :
    ∃ first rest, spelling = first :: rest ∧ first.isDigit = false ∧ first ≠ '.' := by
  have all : ∀ entry ∈ unitSpellings, ∃ first, entry.1.head? = some first ∧
      first.isDigit = false ∧ first ≠ '.' := by
    simp [unitSpellings]
  rcases all _ known with ⟨first, begins, noDigit, noPoint⟩
  rcases List.head?_eq_some_iff.mp begins with ⟨rest, same⟩
  exact ⟨first, rest, same, noDigit, noPoint⟩

theorem exists_spelling_of_takeUnit? {text after : List Char} {unit : Nat}
    (taken : takeUnit? text = some (unit, after)) :
    ∃ spelling, (spelling, unit) ∈ unitSpellings ∧ text = spelling ++ after := by
  unfold takeUnit? at taken
  split at taken <;> cases taken
  case h_1 => exact ⟨['n', 's'], by decide, rfl⟩
  case h_2 => exact ⟨['u', 's'], by decide, rfl⟩
  case h_3 => exact ⟨['\u00b5', 's'], by decide, rfl⟩
  case h_4 => exact ⟨['\u03bc', 's'], by decide, rfl⟩
  case h_5 => exact ⟨['m', 's'], by decide, rfl⟩
  case h_6 => exact ⟨['s'], by decide, rfl⟩
  case h_7 => exact ⟨['m'], by decide, rfl⟩
  case h_8 => exact ⟨['h'], by decide, rfl⟩

/-- A spelling is taken as the unit it stands for, if no letter behind it makes it the
beginning of another. -/
theorem takeUnit?_append {spelling rest : List Char} {unit : Nat}
    (known : (spelling, unit) ∈ unitSpellings) (apart : rest.head? ≠ some 's') :
    takeUnit? (spelling ++ rest) = some (unit, rest) := by
  have minutes : takeUnit? ('m' :: rest) = some (60 * perSecond, rest) := by
    cases rest with
    | nil => rfl
    | cons c more =>
        rw [takeUnit?]
        rintro further ⟨⟩
        exact apart rfl
  simp only [unitSpellings, List.mem_cons, Prod.mk.injEq, List.not_mem_nil, or_false] at known
  rcases known with ⟨rfl, rfl⟩ | ⟨rfl, rfl⟩ | ⟨rfl, rfl⟩ | ⟨rfl, rfl⟩ | ⟨rfl, rfl⟩ | ⟨rfl, rfl⟩ |
    ⟨rfl, rfl⟩ | ⟨rfl, rfl⟩
  case inr.inr.inr.inr.inr.inr.inl => exact minutes
  all_goals rfl

/-! ## Components -/

/-- A component begins with a digit or a point. -/
theorem Component.SpelledAs.exists_cons {component : Component} {text : List Char}
    (spelled : component.SpelledAs text) :
    ∃ first rest, text = first :: rest ∧ (first.isDigit = true ∨ first = '.') := by
  cases spelled with
  | plain nonempty digits known =>
      rcases List.exists_cons_of_ne_nil nonempty with ⟨first, others, rfl⟩
      exact ⟨first, _, rfl, .inl (digits first List.mem_cons_self)⟩
  | @pointed whole _ _ _ _ digits _ _ =>
      cases whole with
      | nil => exact ⟨'.', _, rfl, .inr rfl⟩
      | cons first others => exact ⟨first, _, rfl, .inl (digits first List.mem_cons_self)⟩

theorem Spelled.exists_cons {parts : List Component} {text : List Char}
    (spelled : Spelled parts text) :
    ∃ first rest, text = first :: rest ∧ (first.isDigit = true ∨ first = '.') := by
  cases spelled with
  | last spelled => exact spelled.exists_cons
  | more spelled further =>
      rcases spelled.exists_cons with ⟨first, others, rfl, begins⟩
      exact ⟨first, _, rfl, begins⟩

/-- What begins as a component does not go on with the spelling of a unit. -/
theorem Spelled.apart {parts : List Component} {text : List Char} (spelled : Spelled parts text) :
    text.head? ≠ some 's' := by
  rcases spelled.exists_cons with ⟨first, rest, rfl, begins⟩
  rintro ⟨⟩
  exact absurd begins (by decide)

theorem takeFraction_cases (text : List Char) :
    (∃ rest, text = '.' :: rest ∧
        takeFraction text = (rest.takeWhile Char.isDigit, rest.dropWhile Char.isDigit)) ∨
      takeFraction text = ([], text) := by
  unfold takeFraction
  split
  next rest => exact .inl ⟨rest, rfl, rfl⟩
  next => exact .inr rfl

theorem takeFraction_append {fraction rest : List Char} {c : Char}
    (digits : ∀ digit ∈ fraction, digit.isDigit = true) (noDigit : c.isDigit = false) :
    takeFraction ('.' :: (fraction ++ c :: rest)) = (fraction, c :: rest) := by
  rw [takeFraction, List.takeWhile_append_of_pos digits, List.dropWhile_append_of_pos digits,
    List.takeWhile_cons_of_neg (by simp [noDigit]),
    List.dropWhile_cons_of_neg (by simp [noDigit]), List.append_nil]

theorem isDigit_of_mem_takeWhile {text : List Char} {c : Char}
    (member : c ∈ text.takeWhile Char.isDigit) : c.isDigit = true :=
  List.all_eq_true.mp List.all_takeWhile c member

/-- What is taken off the front of a text was spelled there. -/
theorem exists_spelledAs_of_takeComponent? {text after : List Char} {component : Component}
    (taken : takeComponent? text = some (component, after)) :
    ∃ front, component.SpelledAs front ∧ text = front ++ after := by
  simp only [takeComponent?] at taken
  split at taken
  next => cases taken
  next nonempty =>
    rcases Option.map_eq_some_iff.mp taken with ⟨⟨unit, rest⟩, found, same⟩
    cases same
    rcases exists_spelling_of_takeUnit? found with ⟨spelling, known, behind⟩
    have whole : text.takeWhile Char.isDigit ++ text.dropWhile Char.isDigit = text :=
      List.takeWhile_append_dropWhile
    rcases takeFraction_cases (text.dropWhile Char.isDigit) with ⟨more, point, split⟩ | split
    · rw [split] at nonempty behind ⊢
      have fraction : more.takeWhile Char.isDigit ++ more.dropWhile Char.isDigit = more :=
        List.takeWhile_append_dropWhile
      refine ⟨_, .pointed (Decidable.not_and_iff_not_or_not.mp nonempty)
        (fun _ => isDigit_of_mem_takeWhile) (fun _ => isDigit_of_mem_takeWhile) known, ?_⟩
      rw [List.append_assoc, List.cons_append, List.append_assoc, ← behind, fraction, ← point,
        whole]
    · rw [split] at nonempty behind ⊢
      refine ⟨_, .plain (fun none => nonempty ⟨none, rfl⟩)
        (fun _ => isDigit_of_mem_takeWhile) known, ?_⟩
      rw [List.append_assoc, ← behind, whole]

/-- A spelled component is taken off the front of a text, if what follows does not change its
unit. -/
theorem takeComponent?_append {component : Component} {text rest : List Char}
    (spelled : component.SpelledAs text) (apart : rest.head? ≠ some 's') :
    takeComponent? (text ++ rest) = some (component, rest) := by
  cases spelled with
  | plain nonempty digits known =>
      have unit := takeUnit?_append known apart
      rcases exists_cons_of_mem_unitSpellings known with ⟨first, others, rfl, noDigit, noPoint⟩
      rw [List.append_assoc]
      exact takeComponent?_digits nonempty digits noDigit noPoint unit
  | @pointed whole fraction spelling unit nonempty digits further known =>
      have unit := takeUnit?_append known apart
      rcases exists_cons_of_mem_unitSpellings known with ⟨first, others, rfl, noDigit, _⟩
      have apartText : (whole ++ '.' :: (fraction ++ first :: others)) ++ rest =
          whole ++ '.' :: (fraction ++ first :: (others ++ rest)) := by
        simp only [List.append_assoc, List.cons_append]
      rw [apartText, takeComponent?, List.takeWhile_append_of_pos digits,
        List.dropWhile_append_of_pos digits, List.takeWhile_cons_of_neg (by decide),
        List.dropWhile_cons_of_neg (by decide), List.append_nil,
        takeFraction_append further noDigit]
      simp only [not_and_or.mpr nonempty, if_false]
      rw [← List.cons_append, unit, Option.map_some]

/-- The components that are read are those that are spelled. -/
theorem components?_eq_some_iff {text : List Char} {parts : List Component} :
    components? text = some parts ↔ Spelled parts text := by
  constructor
  · intro read
    fun_induction components? text generalizing parts with
    | case1 => cases read
    | case2 text component taken =>
        cases read
        rcases exists_spelledAs_of_takeComponent? taken with ⟨front, spelled, same⟩
        rw [same, List.append_nil]
        exact .last spelled
    | case3 text component after _ taken ih =>
        rcases Option.map_eq_some_iff.mp read with ⟨others, found, rfl⟩
        rcases exists_spelledAs_of_takeComponent? taken with ⟨front, spelled, same⟩
        rw [same]
        exact .more spelled (ih found)
  · intro spelled
    induction spelled with
    | @last component text spelled =>
        have taken : takeComponent? (text ++ []) = some (component, []) :=
          takeComponent?_append spelled (by decide)
        rw [List.append_nil] at taken
        exact components?_of_last taken
    | @more component others front rest spelled further ih =>
        rcases further.exists_cons with ⟨first, behind, same, _⟩
        rw [components?_eq, takeComponent?_append spelled further.apart]
        rw [same] at ih ⊢
        exact congrArg (Option.map (component :: ·)) ih

/-! ## Signs -/

theorem exists_sign_of_takeSign (text : List Char) :
    ∃ sign, (sign, (takeSign text).1) ∈ signSpellings ∧ text = sign ++ (takeSign text).2 := by
  unfold takeSign
  split
  next => exact ⟨['-'], by simp [signSpellings], rfl⟩
  next => exact ⟨['+'], by simp [signSpellings], rfl⟩
  next => exact ⟨[], by simp [signSpellings], rfl⟩

/-- A sign is told apart from what begins with a digit or a point. -/
theorem takeSign_append {sign text : List Char} {negative : Bool}
    (signed : (sign, negative) ∈ signSpellings)
    (begins : ∃ first rest, text = first :: rest ∧ (first.isDigit = true ∨ first = '.')) :
    takeSign (sign ++ text) = (negative, text) := by
  have unsigned : takeSign text = (false, text) := by
    rcases begins with ⟨first, rest, rfl, digit | rfl⟩
    · exact takeSign_cons_of_isDigit digit rest
    · rfl
  simp only [signSpellings, List.mem_cons, Prod.mk.injEq, List.not_mem_nil, or_false] at signed
  rcases signed with ⟨rfl, rfl⟩ | ⟨rfl, rfl⟩ | ⟨rfl, rfl⟩
  · exact unsigned
  · rfl
  · rfl

/-! ## Literals -/

/-- A bare zero is no component. -/
theorem not_spelled_zero (parts : List Component) : ¬Spelled parts ['0'] := by
  intro spelled
  have read := components?_eq_some_iff.mpr spelled
  have nothing : takeComponent? ['0'] = none := rfl
  rw [components?_eq, nothing] at read
  cases read

/-- What a literal is read to stand for is what it denotes. -/
theorem total?_eq_some_iff {text : List Char} {total : Int} :
    total? text = some total ↔
      ∃ negative sum, Denotes text negative sum ∧
        total = if negative then -(sum : Int) else sum := by
  constructor
  · intro found
    rcases exists_sign_of_takeSign text with ⟨sign, signed, same⟩
    simp only [total?] at found
    split at found
    next zero =>
      cases found
      rw [zero] at same
      have denotes := Denotes.zero signed
      rw [← same] at denotes
      refine ⟨_, _, denotes, ?_⟩
      split <;> rfl
    next =>
      rcases Option.map_eq_some_iff.mp found with ⟨parts, read, rfl⟩
      have denotes := Denotes.sum signed (components?_eq_some_iff.mp read)
      rw [← same] at denotes
      refine ⟨_, _, denotes, ?_⟩
      rw [sum_map_worth]
  · rintro ⟨negative, sum, denotes, rfl⟩
    cases denotes with
    | @zero sign negative signed =>
        have split : takeSign (sign ++ ['0']) = (negative, ['0']) :=
          takeSign_append signed ⟨'0', [], rfl, .inl rfl⟩
        simp only [total?, split, if_true, Int.natCast_zero, Int.neg_zero, ite_self]
    | @sum sign text negative parts signed spelled =>
        have notZero : text ≠ ['0'] := by
          rintro rfl
          exact not_spelled_zero parts spelled
        simp only [total?, takeSign_append signed spelled.exists_cons, if_neg notZero,
          components?_eq_some_iff.mpr spelled, Option.map_some, sum_map_worth]

end Duration
end FilterQuery
