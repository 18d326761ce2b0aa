import FilterQuery.Duration
import FilterQuery.Proofs.Digits

namespace FilterQuery
namespace Duration

open Text

/-!
# Reading durations back

A sum of components is computed in words with a limit, and each step of it is checked
several times.  The checks come to one: a component of a positive unit is added if the
new sum is at most `maxSum`, and refused otherwise.  No smaller result on the way can be
too large when the sum is not.

So a literal is read exactly if what it stands for does not exceed `maxSum` on either side
of zero.  A literal that is written has one component, with a whole number of seconds or of
nanoseconds, and therefore whatever was read is read again from its own literal.
-/

/-- The nanoseconds of a component. -/
def Component.nanoseconds (component : Component) : Nat :=
  digitsValue component.whole * component.unit +
    fractionNanoseconds component.fraction component.unit

/-- The nanoseconds of some components together. -/
def Component.sum : List Component → Nat
  | [] => 0
  | part :: others => part.nanoseconds + sum others

/-- The nanoseconds that a literal stands for, however many they are. -/
def total? (text : List Char) : Option Int :=
  let (negative, magnitude) := takeSign text
  if magnitude = ['0'] then some 0
  else (components? magnitude).map fun parts =>
    let sum := Component.sum parts
    if negative then -(sum : Int) else sum

/-! ## One component -/

theorem pos_of_takeUnit? {text after : List Char} {unit : Nat}
    (taken : takeUnit? text = some (unit, after)) : 0 < unit := by
  unfold takeUnit? at taken
  split at taken
  case h_9 => cases taken
  all_goals
    cases taken
    decide

theorem pos_of_takeComponent? {text after : List Char} {component : Component}
    (taken : takeComponent? text = some (component, after)) : 0 < component.unit := by
  simp only [takeComponent?] at taken
  split at taken
  next => cases taken
  next =>
    rcases Option.map_eq_some_iff.mp taken with ⟨⟨unit, rest⟩, found, same⟩
    cases same
    exact pos_of_takeUnit? found

theorem pos_of_components? {text : List Char} {parts : List Component}
    (read : components? text = some parts) : ∀ part ∈ parts, 0 < part.unit := by
  fun_induction components? text generalizing parts with
  | case1 => cases read
  | case2 text component taken =>
      cases read
      intro part member
      rw [List.mem_singleton.mp member]
      exact pos_of_takeComponent? taken
  | case3 text component after _ taken ih =>
      rcases Option.map_eq_some_iff.mp read with ⟨others, found, rfl⟩
      intro part member
      rcases List.mem_cons.mp member with rfl | further
      · exact pos_of_takeComponent? taken
      · exact ih found part further

/-- What is split off digits with a unit behind them. -/
theorem takeComponent?_digits {digits rest after : List Char} {c : Char} {unit : Nat}
    (nonempty : digits ≠ []) (all : ∀ digit ∈ digits, digit.isDigit = true)
    (noDigit : c.isDigit = false) (noPoint : c ≠ '.')
    (taken : takeUnit? (c :: rest) = some (unit, after)) :
    takeComponent? (digits ++ c :: rest) = some (⟨digits, [], unit⟩, after) := by
  have none : takeFraction (c :: rest) = ([], c :: rest) := by
    unfold takeFraction
    split
    next found =>
      cases found
      exact absurd rfl noPoint
    next => rfl
  rw [takeComponent?, List.takeWhile_append_of_pos all, List.dropWhile_append_of_pos all,
    List.takeWhile_cons_of_neg (by simp [noDigit]),
    List.dropWhile_cons_of_neg (by simp [noDigit]), List.append_nil]
  simp only [none, nonempty, false_and, if_false, taken, Option.map_some]

/-- Reading components goes by what is taken off the front. -/
theorem components?_eq (text : List Char) :
    components? text =
      match takeComponent? text with
      | none => none
      | some (component, []) => some [component]
      | some (component, after) => (components? after).map (component :: ·) := by
  rw [components?]
  split
  next taken => rw [taken]
  next taken => rw [taken]
  next component after further taken =>
    rw [taken]
    cases after with
    | nil => exact absurd rfl further
    | cons c rest => rfl

theorem components?_of_last {text : List Char} {component : Component}
    (taken : takeComponent? text = some (component, [])) :
    components? text = some [component] := by
  rw [components?_eq, taken]

/-! ## Sums of components -/

theorem fitting?_eq_some {value : Nat} (fits : value ≤ maxWord) : fitting? value = some value :=
  if_pos fits

theorem eq_of_fitting? {value result : Nat} (found : fitting? value = some result) :
    result = value := by
  rw [fitting?] at found
  split at found <;> cases found
  rfl

/-- A component is added exactly if the new sum is small enough. -/
theorem addComponent?_eq_some_iff {sum total : Nat} {component : Component}
    (positive : 0 < component.unit) :
    addComponent? sum component = some total ↔
      sum + component.nanoseconds = total ∧ total ≤ maxSum := by
  rw [Component.nanoseconds, ← Nat.add_assoc]
  constructor
  · intro added
    simp only [addComponent?, bind, Option.bind_eq_some_iff] at added
    rcases added with
      ⟨whole, wholeFits, scaled, scaledFits, withWhole, withWholeFits, all, allFits, last⟩
    cases eq_of_fitting? wholeFits
    cases eq_of_fitting? scaledFits
    cases eq_of_fitting? withWholeFits
    cases eq_of_fitting? allFits
    split at last <;> cases last
    exact ⟨rfl, ‹_›⟩
  · rintro ⟨rfl, small⟩
    have room : maxSum ≤ maxWord := by decide
    have wholeSmall := Nat.le_mul_of_pos_right (digitsValue component.whole) positive
    simp only [addComponent?, bind]
    rw [fitting?_eq_some (by omega), Option.bind_some, fitting?_eq_some (by omega),
      Option.bind_some, fitting?_eq_some (by omega), Option.bind_some,
      fitting?_eq_some (by omega), Option.bind_some, if_pos small]

/-- Components are added up exactly if their sum is small enough. -/
theorem foldlM_addComponent?_eq_some_iff {parts : List Component} {sum total : Nat}
    (positive : ∀ part ∈ parts, 0 < part.unit) (small : sum ≤ maxSum) :
    parts.foldlM addComponent? sum = some total ↔
      sum + Component.sum parts = total ∧ total ≤ maxSum := by
  induction parts generalizing sum with
  | nil =>
      rw [List.foldlM_nil, Component.sum, Nat.add_zero]
      constructor
      · rintro ⟨⟩
        exact ⟨rfl, small⟩
      · rintro ⟨rfl, _⟩
        rfl
  | cons part others ih =>
      have positivePart := positive part List.mem_cons_self
      have positiveOthers : ∀ other ∈ others, 0 < other.unit := fun other member =>
        positive other (List.mem_cons_of_mem part member)
      rw [List.foldlM_cons, Component.sum, ← Nat.add_assoc]
      constructor
      · intro added
        rcases Option.bind_eq_some_iff.mp added with ⟨next, first, further⟩
        rcases (addComponent?_eq_some_iff positivePart).mp first with ⟨rfl, bounded⟩
        exact (ih positiveOthers bounded).mp further
      · rintro ⟨same, bounded⟩
        have nextBounded : sum + part.nanoseconds ≤ maxSum := by
          rw [← same] at bounded
          exact Nat.le_trans (Nat.le_add_right _ _) bounded
        have first := (addComponent?_eq_some_iff positivePart).mpr ⟨rfl, nextBounded⟩
        exact Option.bind_eq_some_iff.mpr
          ⟨_, first, (ih positiveOthers nextBounded).mpr ⟨same, bounded⟩⟩

/-! ## Literals -/

theorem natAbs_signed (negative : Bool) (sum : Nat) :
    (if negative then -(sum : Int) else sum).natAbs = sum := by
  cases negative with
  | true => exact (Int.natAbs_neg _).trans (Int.natAbs_natCast sum)
  | false => exact Int.natAbs_natCast sum

/-- A literal is read as what it stands for, if that is small enough. -/
theorem read?_eq_some_iff {text : List Char} {duration : Duration} :
    read? text = some duration ↔
      total? text = some duration.nanoseconds ∧ duration.nanoseconds.natAbs ≤ maxSum := by
  simp only [read?, total?]
  split
  next =>
    constructor
    · rintro ⟨⟩
      exact ⟨rfl, by decide⟩
    · rintro ⟨zero, _⟩
      rw [Option.some.inj zero]
  next =>
    cases found : components? (takeSign text).2 with
    | none =>
        constructor
        · intro impossible
          cases impossible
        · rintro ⟨impossible, _⟩
          cases impossible
    | some parts =>
        have summed : ∀ total, parts.foldlM addComponent? 0 = some total ↔
            Component.sum parts = total ∧ total ≤ maxSum := by
          intro total
          rw [foldlM_addComponent?_eq_some_iff (pos_of_components? found) (Nat.zero_le maxSum),
            Nat.zero_add]
        simp only [bind, Option.bind_some, Option.bind_eq_some_iff, summed, Option.map_some,
          Option.some.injEq]
        constructor
        · rintro ⟨_, ⟨rfl, bounded⟩, rfl⟩
          refine ⟨rfl, ?_⟩
          rw [natAbs_signed]
          exact bounded
        · rintro ⟨signed, bounded⟩
          rw [← signed, natAbs_signed] at bounded
          exact ⟨_, ⟨rfl, bounded⟩, by rw [signed]⟩

/-- The largest sum bounds what can be read on both sides of zero. -/
theorem natAbs_le_of_read? {text : List Char} {duration : Duration}
    (read : read? text = some duration) : duration.nanoseconds.natAbs ≤ maxSum :=
  (read?_eq_some_iff.mp read).2

/-- An integer with a unit stands for that many units. -/
theorem total?_integerNumeral_append (value : Int) {c : Char} {rest : List Char} {unit : Nat}
    (noDigit : c.isDigit = false) (noPoint : c ≠ '.')
    (taken : takeUnit? (c :: rest) = some (unit, [])) :
    total? (integerNumeral value ++ c :: rest) = some (value * unit) := by
  have found := components?_of_last (takeComponent?_digits (numeral_ne_nil value.natAbs)
    (fun _ member => isDigit_of_mem_numeral member) noDigit noPoint taken)
  have size : Component.sum [⟨numeral value.natAbs, [], unit⟩] = value.natAbs * unit := by
    rw [Component.sum, Component.sum, Component.nanoseconds, digitsValue_numeral,
      fractionNanoseconds, fractionNumerator, List.take_nil, show digitsValue [] = 0 from rfl,
      Nat.zero_mul, Nat.zero_div, Nat.add_zero]
  have notZero : numeral value.natAbs ++ c :: rest ≠ ['0'] := by
    intro same
    have member : c ∈ ['0'] := by
      rw [← same]
      simp
    rw [List.mem_singleton.mp member] at noDigit
    exact absurd noDigit (by decide)
  simp only [total?, takeSign_integerNumeral_append, if_neg notZero, found, Option.map_some, size]
  rw [Int.natCast_mul]
  rcases Int.lt_or_le value 0 with negative | positive
  · rw [decide_eq_true negative, if_pos rfl, Int.ofNat_natAbs_of_nonpos (by omega),
      Int.neg_mul, Int.neg_neg]
  · rw [decide_eq_false (by omega), if_neg (by decide), Int.natAbs_of_nonneg positive]

/-- A duration's literal stands for that duration, also where it is too large to be read. -/
theorem total?_literal (duration : Duration) :
    total? duration.literal = some duration.nanoseconds := by
  rw [literal]
  split
  next whole =>
    rw [total?_integerNumeral_append _ (by decide) (by decide) rfl,
      Int.ediv_mul_cancel (Int.dvd_of_emod_eq_zero whole)]
  next =>
    rw [total?_integerNumeral_append _ (by decide) (by decide) rfl]
    exact congrArg some (Int.mul_one _)

/-- A duration within the largest sum is read back from its literal. -/
theorem read?_literal {duration : Duration} (bounded : duration.nanoseconds.natAbs ≤ maxSum) :
    read? duration.literal = some duration :=
  read?_eq_some_iff.mpr ⟨total?_literal duration, bounded⟩

end Duration
end FilterQuery
