import FilterQuery.Proofs.DurationGrammar
import FilterQuery.Proofs.Outcome
import FilterQuery.Value

namespace FilterQuery
namespace Duration

open Text

/-!
# Durations in words

A literal is read with numbers of any size, and results on the way are compared with the
largest word where a machine would have to give up.  That hides which operations are guarded.
Here the same sum is computed in words of 128 bits with a sign, one operation after the other.
A guarded operation whose result does not fit refuses the literal.  An operation without a guard
has nothing to fall back on, and its failure is an outcome of its own.

That outcome never arises.  The operations without a guard are those on the fraction, of which
no more than eighteen digits are looked at, and the change of sign at the end, which comes after
the sum was bounded.  What remains is the reading with numbers of any size, and so a literal
is read exactly if it denotes a sum within the bound.
-/

/-- Why a computation in words gives no duration. -/
inductive Fault where
  /-- A guard refused a result. -/
  | refused
  /-- An operation without a guard had no result in a word. -/
  | overflow
  deriving DecidableEq, Repr

/-- The numbers of a word of 128 bits with a sign. -/
def InWord (value : Int) : Prop :=
  -2 ^ 127 ≤ value ∧ value < 2 ^ 127

instance (value : Int) : Decidable (InWord value) :=
  inferInstanceAs (Decidable (_ ∧ _))

/-- The result of an operation on words, or what comes of it if it is too large. -/
def inWord (fault : Fault) (value : Int) : Except Fault Int :=
  if InWord value then .ok value else .error fault

/-- Take one more digit into the numerator of a fraction, and one more zero into the power of
ten below it. -/
def addDigit (state : Int × Int) (digit : Char) : Except Fault (Int × Int) := do
  let shifted ← inWord .overflow (state.1 * 10)
  let numerator ← inWord .overflow (shifted + (digit.toNat - '0'.toNat : Nat))
  let scale ← inWord .overflow (state.2 * 10)
  return (numerator, scale)

/-- Divide, towards zero. -/
def divideInWords (numerator denominator : Int) : Except Fault Int :=
  if denominator = 0 then .error .overflow else inWord .overflow (numerator.tdiv denominator)

/-- The whole nanoseconds in a fraction of a unit. -/
def fractionInWords (fraction : List Char) (unit : Nat) : Except Fault Int := do
  let state ← (fraction.take 18).foldlM addDigit (0, 1)
  let product ← inWord .overflow (state.1 * unit)
  divideInWords product state.2

/-- Add a component to a sum, and refuse sums beyond 64 bits. -/
def addInWords (sum : Int) (component : Component) : Except Fault Int := do
  let whole ← inWord .refused (digitsValue component.whole)
  let scaled ← inWord .refused (whole * component.unit)
  let withWhole ← inWord .refused (sum + scaled)
  let fraction ← fractionInWords component.fraction component.unit
  let total ← inWord .refused (withWhole + fraction)
  if total ≤ 2 ^ 63 - 1 then .ok total else .error .refused

/-- Put the sign on a sum and make it a number of 64 bits. -/
def signInWords (negative : Bool) (sum : Int) : Except Fault Duration := do
  let signed ← if negative then inWord .overflow (-sum) else .ok sum
  if -2 ^ 63 ≤ signed ∧ signed ≤ 2 ^ 63 - 1 then .ok ⟨signed⟩ else .error .refused

/-- Read a duration literal in words. -/
def readInWords (text : List Char) : Except Fault Duration :=
  let (negative, magnitude) := takeSign text
  if magnitude = ['0'] then .ok ⟨0⟩
  else
    match components? magnitude with
    | none => .error .refused
    | some parts => parts.foldlM addInWords 0 >>= signInWords negative

/-! ## Fractions -/

theorem inWord_eq_ok {fault : Fault} {value : Int} (fits : InWord value) :
    inWord fault value = .ok value :=
  if_pos fits

/-- A number that is no more than the largest word is in a word. -/
theorem inWord_of_le {value : Nat} (small : value ≤ maxWord) : InWord (value : Int) := by
  rw [maxWord] at small
  exact ⟨by omega, by omega⟩

/-- One digit more, as long as there are no more than eighteen. -/
theorem addDigit_eq {front : List Char} {digit : Char}
    (digits : ∀ c ∈ front ++ [digit], c.isDigit = true) (short : (front ++ [digit]).length ≤ 18) :
    addDigit (digitsValue front, (10 ^ front.length : Nat)) digit =
      .ok (digitsValue (front ++ [digit]), (10 ^ (front ++ [digit]).length : Nat)) := by
  have small : 10 ^ (front ++ [digit]).length ≤ maxWord :=
    Nat.le_trans (Nat.pow_le_pow_right (by decide) short) (by decide)
  have below := digitsValue_lt digits
  rw [digitsValue_append, digitsValue_singleton, List.length_singleton, Nat.pow_one,
    List.length_append, List.length_singleton, Nat.pow_succ] at below ⊢
  rw [List.length_append, List.length_singleton, Nat.pow_succ] at small
  generalize digitsValue front = value at *
  generalize 10 ^ front.length = scale at *
  rw [maxWord] at small
  have shifted : InWord ((value : Int) * 10) := ⟨by omega, by omega⟩
  have numerator : InWord ((value : Int) * 10 + (digit.toNat - '0'.toNat : Nat)) :=
    ⟨by omega, by omega⟩
  have scaled : InWord ((scale : Int) * 10) := ⟨by omega, by omega⟩
  rw [addDigit, inWord_eq_ok shifted, ok_bind, inWord_eq_ok numerator, ok_bind,
    inWord_eq_ok scaled, ok_bind]
  refine congrArg Except.ok (Prod.ext ?_ ?_)
  · omega
  · omega

/-- The loop over the digits of a fraction spells them out. -/
theorem foldlM_addDigit_eq {front rest : List Char}
    (digits : ∀ c ∈ front ++ rest, c.isDigit = true) (short : (front ++ rest).length ≤ 18) :
    rest.foldlM addDigit (digitsValue front, (10 ^ front.length : Nat)) =
      .ok (digitsValue (front ++ rest), (10 ^ (front ++ rest).length : Nat)) := by
  induction rest generalizing front with
  | nil => rw [List.append_nil, List.foldlM_nil]; rfl
  | cons digit more ih =>
      have apart : front ++ digit :: more = (front ++ [digit]) ++ more := by
        rw [List.append_assoc, List.singleton_append]
      rw [apart] at digits short ⊢
      have first := addDigit_eq (fun c member => digits c (List.mem_append_left _ member))
        (Nat.le_trans (by simp) short)
      rw [List.foldlM_cons, first, ok_bind]
      exact ih digits short

/-- No operation on a fraction leaves the word, and the result is the exact one. -/
theorem fractionInWords_eq {fraction : List Char} {unit : Nat}
    (digits : ∀ c ∈ fraction, c.isDigit = true) (small : unit ≤ 3600 * perSecond) :
    fractionInWords fraction unit = .ok (fractionNanoseconds fraction unit) := by
  have first : ∀ c ∈ [] ++ fraction.take 18, c.isDigit = true :=
    fun c member => digits c (List.mem_of_mem_take member)
  have short : ([] ++ fraction.take 18).length ≤ 18 := List.length_take_le _ _
  have loop : (fraction.take 18).foldlM addDigit (0, 1) =
      .ok ((fractionNumerator fraction : Int), (fractionScale fraction : Int)) :=
    foldlM_addDigit_eq first short
  have positive : fractionScale fraction ≠ 0 := Nat.ne_of_gt (Nat.pow_pos (by decide))
  have below : fractionNumerator fraction ≤ 10 ^ 18 :=
    Nat.le_trans (Nat.le_of_lt (digitsValue_lt first)) (Nat.pow_le_pow_right (by decide) short)
  have room : 10 ^ 18 * (3600 * perSecond) ≤ maxWord := by decide
  have product : fractionNumerator fraction * unit ≤ maxWord :=
    Nat.le_trans (Nat.mul_le_mul below small) room
  have quotient : fractionNumerator fraction * unit / fractionScale fraction ≤ maxWord :=
    Nat.le_trans (Nat.div_le_self _ _) product
  rw [fractionInWords, loop, ok_bind, fractionNanoseconds, ← Int.natCast_mul,
    inWord_eq_ok (inWord_of_le product), ok_bind, divideInWords,
    if_neg (Int.natCast_ne_zero.mpr positive), ← Int.ofNat_tdiv]
  exact inWord_eq_ok (inWord_of_le quotient)

/-! ## Sums -/

/-- A computation in words goes the way of one with numbers of any size that may refuse. -/
def Follows (result : Except Fault Int) (found : Option Nat) : Prop :=
  result = match found with
    | some value => .ok (value : Int)
    | none => .error .refused

namespace Follows

theorem bind {first : Except Fault Int} {found : Option Nat} {proceed : Int → Except Fault Int}
    {further : Nat → Option Nat} (follows : Follows first found)
    (next : ∀ value : Nat, found = some value → Follows (proceed value) (further value)) :
    Follows (first >>= proceed) (found >>= further) := by
  cases found with
  | none => rw [follows]; rfl
  | some value => rw [follows]; exact next value rfl

/-- A guarded operation refuses what `fitting?` refuses. -/
theorem fitting (value : Nat) : Follows (inWord .refused value) (fitting? value) := by
  rw [fitting?]
  split
  next small => exact inWord_eq_ok (inWord_of_le small)
  next large =>
    rw [maxWord] at large
    exact if_neg fun fits => large (by have := fits.2; omega)

end Follows

/-- Adding a component in words refuses what `addComponent?` refuses. -/
theorem follows_addInWords {component : Component}
    (digits : ∀ c ∈ component.fraction, c.isDigit = true)
    (small : component.unit ≤ 3600 * perSecond) (sum : Nat) :
    Follows (addInWords sum component) (addComponent? sum component) := by
  rw [addInWords, addComponent?]
  refine (Follows.fitting _).bind fun whole _ => ?_
  rw [← Int.natCast_mul]
  refine (Follows.fitting _).bind fun scaled _ => ?_
  rw [← Int.natCast_add]
  refine (Follows.fitting _).bind fun withWhole _ => ?_
  rw [fractionInWords_eq digits small, ok_bind, ← Int.natCast_add]
  refine (Follows.fitting _).bind fun total _ => ?_
  have bound : (total : Int) ≤ 2 ^ 63 - 1 ↔ total ≤ maxSum := by
    rw [maxSum]
    omega
  by_cases within : total ≤ maxSum
  · rw [if_pos (bound.mpr within), if_pos within]
    rfl
  · rw [if_neg (mt bound.mp within), if_neg within]
    rfl

theorem follows_foldlM_addInWords {parts : List Component}
    (readable : ∀ part ∈ parts, (∀ c ∈ part.fraction, c.isDigit = true) ∧
      part.unit ≤ 3600 * perSecond) (sum : Nat) :
    Follows (parts.foldlM addInWords sum) (parts.foldlM addComponent? sum) := by
  induction parts generalizing sum with
  | nil => rfl
  | cons part others ih =>
      rcases readable part List.mem_cons_self with ⟨digits, small⟩
      rw [List.foldlM_cons, List.foldlM_cons]
      exact (follows_addInWords digits small sum).bind fun total _ =>
        ih (fun other member => readable other (List.mem_cons_of_mem part member)) total

/-! ## Literals -/

theorem Component.SpelledAs.readable {component : Component} {text : List Char}
    (spelled : component.SpelledAs text) :
    (∀ c ∈ component.fraction, c.isDigit = true) ∧ component.unit ≤ 3600 * perSecond := by
  have largest : ∀ entry ∈ unitSpellings, entry.2 ≤ 3600 * perSecond := by decide
  cases spelled with
  | plain _ _ known => exact ⟨List.forall_mem_nil _, largest _ known⟩
  | pointed _ _ further known => exact ⟨further, largest _ known⟩

/-- The components of a text have digits in their fractions and a unit of at most an hour. -/
theorem Spelled.readable {parts : List Component} {text : List Char}
    (spelled : Spelled parts text) :
    ∀ part ∈ parts, (∀ c ∈ part.fraction, c.isDigit = true) ∧ part.unit ≤ 3600 * perSecond := by
  induction spelled with
  | last spelled =>
      intro part member
      rw [List.mem_singleton.mp member]
      exact spelled.readable
  | more spelled _ ih =>
      intro part member
      rcases List.mem_cons.mp member with rfl | further
      · exact spelled.readable
      · exact ih part further

/-- A bounded sum has its sign put on without fail. -/
theorem signInWords_eq (negative : Bool) {sum : Nat} (small : sum ≤ maxSum) :
    signInWords negative sum = .ok ⟨if negative then -(sum : Int) else sum⟩ := by
  rw [maxSum] at small
  cases negative with
  | false =>
      rw [signInWords, if_neg Bool.false_ne_true, ok_bind, if_neg Bool.false_ne_true]
      exact if_pos ⟨by omega, by omega⟩
  | true =>
      have fits : InWord (-(sum : Int)) := ⟨by omega, by omega⟩
      rw [signInWords, if_pos rfl, inWord_eq_ok fits, ok_bind, if_pos rfl]
      exact if_pos ⟨by omega, by omega⟩

/-- Reading in words refuses what `read?` refuses, and reads everything else as it does. -/
theorem readInWords_eq (text : List Char) :
    readInWords text =
      match read? text with
      | some duration => .ok duration
      | none => .error .refused := by
  rw [readInWords, read?]
  rcases takeSign text with ⟨negative, magnitude⟩
  dsimp only
  split
  next => rfl
  next =>
    cases found : components? magnitude with
    | none => rfl
    | some parts =>
        have follows := follows_foldlM_addInWords (components?_eq_some_iff.mp found).readable 0
        rw [Option.bind_eq_bind, Option.bind_some]
        cases summed : parts.foldlM addComponent? 0 with
        | none =>
            rw [summed] at follows
            exact congrArg (· >>= signInWords negative) follows
        | some sum =>
            rw [summed] at follows
            have small := ((foldlM_addComponent?_eq_some_iff (pos_of_components? found)
              (Nat.zero_le _)).mp summed).2
            exact (congrArg (· >>= signInWords negative) follows).trans
              (signInWords_eq negative small)

end Duration

/-- A literal is a duration exactly if it denotes a number of nanoseconds that is small
enough.  The same durations are read in words, where no operation without a guard fails. -/
theorem valueOf_duration_eq_ok_iff (literal : String) (value : Value) :
    (Kind.duration.valueOf literal = .ok value ↔
      ∃ negative sum, Duration.Denotes literal.toList negative sum ∧ sum ≤ 2 ^ 63 - 1 ∧
        value = .duration ⟨if negative then -(sum : Int) else sum⟩) ∧
    (∀ duration, Duration.readInWords literal.toList = .ok duration ↔
      Kind.duration.valueOf literal = .ok (.duration duration)) ∧
    Duration.readInWords literal.toList ≠ .error .overflow := by
  refine ⟨?_, ?_, ?_⟩
  · rw [Kind.valueOf_eq_ok_iff, Kind.read?, Option.map_eq_some_iff]
    constructor
    · rintro ⟨duration, read, rfl⟩
      rcases Duration.read?_eq_some_iff.mp read with ⟨total, bounded⟩
      rcases Duration.total?_eq_some_iff.mp total with ⟨negative, sum, denotes, same⟩
      rw [same, Duration.natAbs_signed] at bounded
      exact ⟨negative, sum, denotes, bounded, by rw [← same]⟩
    · rintro ⟨negative, sum, denotes, bounded, rfl⟩
      refine ⟨_, Duration.read?_eq_some_iff.mpr ⟨?_, ?_⟩, rfl⟩
      · exact Duration.total?_eq_some_iff.mpr ⟨negative, sum, denotes, rfl⟩
      · rw [Duration.natAbs_signed]
        exact bounded
  · intro duration
    rw [Duration.readInWords_eq, Kind.valueOf_eq_ok_iff, Kind.read?]
    cases Duration.read? literal.toList <;> simp
  · rw [Duration.readInWords_eq]
    split <;> simp

end FilterQuery
