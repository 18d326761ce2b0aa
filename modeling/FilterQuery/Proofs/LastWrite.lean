import Mathlib.Logic.Basic
import FilterQuery.Dictionary

namespace FilterQuery

open Text

/-!
# What repeated writes leave

Pairs are written into a dictionary one after another, and a name may come again among them.
What is found under it afterwards is the last value that was written, or what stood there
before if none was.  `HeldLast` says which pair is the last of its name.  It looks at the list
of pairs alone, so that whatever is made by writes can be described without them.
-/

variable {α β : Type}

/-- A list of pairs has a value last under a name: no pair behind that one has the name. -/
def HeldLast (name : String) (value : α) (pairs : List (String × α)) : Prop :=
  ∃ before after, pairs = before ++ (name, value) :: after ∧ ∀ later ∈ after, later.1 ≠ name

section HeldLast

variable {name other : String} {value held : α} {pairs : List (String × α)}

theorem not_heldLast_nil : ¬HeldLast name value [] := by
  rintro ⟨before, after, impossible, _⟩
  simp at impossible

/-- A pair in front is the last of its name only if the name does not come again. -/
theorem heldLast_cons :
    HeldLast name value ((other, held) :: pairs) ↔
      HeldLast name value pairs ∨
        (name = other ∧ value = held ∧ ∀ later ∈ pairs, later.1 ≠ name) := by
  constructor
  · rintro ⟨before, after, split, none⟩
    rcases List.cons_eq_append_iff.mp split with ⟨rfl, same⟩ | ⟨more, rfl, found⟩
    · cases same
      exact .inr ⟨rfl, rfl, none⟩
    · exact .inl ⟨more, after, found, none⟩
  · rintro (⟨before, after, rfl, none⟩ | ⟨rfl, rfl, none⟩)
    · exact ⟨(other, held) :: before, after, rfl, none⟩
    · exact ⟨[], pairs, rfl, none⟩

theorem HeldLast.mem (last : HeldLast name value pairs) : (name, value) ∈ pairs := by
  rcases last with ⟨before, after, rfl, _⟩
  exact List.mem_append_right before List.mem_cons_self

/-- A name that occurs has a last value. -/
theorem exists_heldLast_iff :
    (∃ value, HeldLast name value pairs) ↔ ∃ pair ∈ pairs, pair.1 = name := by
  constructor
  · rintro ⟨value, last⟩
    exact ⟨_, last.mem, rfl⟩
  · induction pairs with
    | nil =>
        rintro ⟨pair, impossible, _⟩
        cases impossible
    | cons first rest ih =>
        rintro ⟨pair, member, named⟩
        by_cases again : ∃ later ∈ rest, later.1 = name
        · rcases ih again with ⟨value, last⟩
          exact ⟨value, heldLast_cons.mpr (.inl last)⟩
        · rcases List.mem_cons.mp member with rfl | further
          · exact ⟨pair.2, heldLast_cons.mpr (.inr ⟨named.symm, rfl,
              fun later behind same => again ⟨later, behind, same⟩⟩)⟩
          · exact absurd ⟨pair, further, named⟩ again

/-- Values are changed where they stand, so the last one stays the last. -/
theorem heldLast_map (change : String → α → β) {changed : β} :
    HeldLast name changed (pairs.map fun pair => (pair.1, change pair.1 pair.2)) ↔
      ∃ value, HeldLast name value pairs ∧ changed = change name value := by
  induction pairs with
  | nil => simp [not_heldLast_nil]
  | cons first rest ih =>
      rw [List.map_cons, heldLast_cons, ih, List.forall_mem_map]
      constructor
      · rintro (⟨value, last, rfl⟩ | ⟨rfl, rfl, none⟩)
        · exact ⟨value, heldLast_cons.mpr (.inl last), rfl⟩
        · exact ⟨first.2, heldLast_cons.mpr (.inr ⟨rfl, rfl, none⟩), rfl⟩
      · rintro ⟨value, last, rfl⟩
        rcases heldLast_cons.mp last with later | ⟨rfl, rfl, none⟩
        · exact .inl ⟨value, later, rfl⟩
        · exact .inr ⟨rfl, rfl, none⟩

end HeldLast

namespace Dictionary

variable {dictionary : Dictionary α} {name : String} {value : α}

theorem find?_eq_none_iff {entries : List (String × α)} :
    find? name entries = none ↔ ∀ entry ∈ entries, entry.1 ≠ name := by
  induction entries with
  | nil => simp only [find?, List.not_mem_nil, false_implies, implies_true]
  | cons head rest ih =>
      rw [find?, List.forall_mem_cons]
      split
      next same => simp [same]
      next different =>
        rw [ih]
        exact (and_iff_right (Ne.symm different)).symm

/-- A name before all others is none of them. -/
theorem find?_eq_none_of_before {entries : List (String × α)}
    (first : ∀ entry ∈ entries, Before name entry.1) : find? name entries = none := by
  rw [find?_eq_none_iff]
  rintro entry member rfl
  exact Before.irrefl _ (first entry member)

/-- The names are those that have a value. -/
theorem mem_names_iff : name ∈ dictionary.names ↔ ∃ value, dictionary.get? name = some value := by
  rw [← Option.ne_none_iff_exists', get?, ne_eq, find?_eq_none_iff]
  simp only [names, List.mem_map, not_forall, ne_eq, not_not, exists_prop]

/-- Each name is listed once, and the names increase. -/
theorem pairwise_names : dictionary.names.Pairwise Before :=
  List.pairwise_map.mpr dictionary.ordered

/-- The entries are the names with their values. -/
theorem mem_entries_iff :
    (name, value) ∈ dictionary.entries ↔ dictionary.get? name = some value := by
  rcases dictionary with ⟨entries, ordered⟩
  show (name, value) ∈ entries ↔ find? name entries = some value
  induction entries with
  | nil => simp [find?]
  | cons head rest ih =>
      rcases List.pairwise_cons.mp ordered with ⟨first, later⟩
      rw [List.mem_cons, ih later, find?]
      split
      next same =>
        have absent : find? name rest = none := find?_eq_none_of_before (same ▸ first)
        rw [absent, Option.some.injEq]
        constructor
        · rintro (rfl | impossible)
          · rfl
          · cases impossible
        · rintro rfl
          exact .inl (by rw [same])
      next different =>
        rw [or_iff_right]
        rintro rfl
        exact different rfl

/-- After some writes the last one under a name is found, or what stood there if none was. -/
theorem get?_foldl_insert_eq_some_iff {pairs : List (String × α)} :
    (pairs.foldl (fun held pair => held.insert pair.1 pair.2) dictionary).get? name = some value ↔
      HeldLast name value pairs ∨
        (∀ pair ∈ pairs, pair.1 ≠ name) ∧ dictionary.get? name = some value := by
  induction pairs generalizing dictionary with
  | nil => simp [not_heldLast_nil]
  | cons first rest ih =>
      rw [List.foldl_cons, ih, get?_insert, heldLast_cons, List.forall_mem_cons, or_assoc]
      apply or_congr_right
      by_cases same : name = first.1
      · rw [if_pos same, Option.some.injEq]
        constructor
        · rintro ⟨none, rfl⟩
          exact .inl ⟨same, rfl, none⟩
        · rintro (⟨_, rfl, none⟩ | ⟨⟨different, _⟩, _⟩)
          · exact ⟨none, rfl⟩
          · exact absurd same.symm different
      · rw [if_neg same]
        constructor
        · rintro ⟨none, found⟩
          exact .inr ⟨⟨Ne.symm same, none⟩, found⟩
        · rintro (⟨impossible, _⟩ | ⟨⟨_, none⟩, found⟩)
          · exact absurd impossible same
          · exact ⟨none, found⟩

theorem get?_ofList_eq_some_iff {pairs : List (String × α)} :
    (ofList pairs).get? name = some value ↔ HeldLast name value pairs := by
  rw [ofList, get?_foldl_insert_eq_some_iff, get?_empty]
  simp

end Dictionary

end FilterQuery
