import FilterQuery.Text.Bytes

namespace FilterQuery

open Text

/-!
# Dictionaries in the order of their names

Schemas, the registry and the declared part of a configuration all hold one
value per name and all show their names in order.  The order is an invariant of
the type, so that listing is only reading the entries, and two dictionaries
with the same entries are equal.

Writing replaces.  A list of pairs with a repeated name therefore keeps the
last of them, which `ofList` gets by writing the pairs one after another.
-/

/-- One value per name, the names strictly increasing by their UTF-8 bytes. -/
structure Dictionary (α : Type) where
  entries : List (String × α)
  ordered : entries.Pairwise (fun first second => Before first.1 second.1)
  deriving DecidableEq, Repr

namespace Dictionary

variable {α : Type}

/-- Put a value at its place in an ordered list, over the value that has the
same name if there is one. -/
def place (name : String) (value : α) : List (String × α) → List (String × α)
  | [] => [(name, value)]
  | (other, held) :: rest =>
    if name = other then (name, value) :: rest
    else if Before name other then (name, value) :: (other, held) :: rest
    else (other, held) :: place name value rest

theorem mem_place {name : String} {value : α} {entry : String × α}
    {entries : List (String × α)} (member : entry ∈ place name value entries) :
    entry = (name, value) ∨ entry ∈ entries := by
  induction entries with
  | nil => simpa [place] using member
  | cons head rest ih =>
    obtain ⟨other, held⟩ := head
    unfold place at member
    split at member
    · rcases List.mem_cons.1 member with same | inRest
      · exact Or.inl same
      · exact Or.inr (List.mem_cons_of_mem _ inRest)
    · split at member
      · exact (List.mem_cons.1 member).imp_right id
      · rcases List.mem_cons.1 member with same | inRest
        · exact Or.inr (same ▸ List.mem_cons_self)
        · exact (ih inRest).imp_right (List.mem_cons_of_mem _)

theorem place_ordered (name : String) (value : α) {entries : List (String × α)}
    (ordered : entries.Pairwise (fun first second => Before first.1 second.1)) :
    (place name value entries).Pairwise (fun first second => Before first.1 second.1) := by
  induction entries with
  | nil => simp [place]
  | cons head rest ih =>
    obtain ⟨other, held⟩ := head
    obtain ⟨headFirst, restOrdered⟩ := List.pairwise_cons.1 ordered
    unfold place
    split
    next same =>
      subst same
      exact List.pairwise_cons.2 ⟨headFirst, restOrdered⟩
    next distinct =>
      split
      next earlier =>
        refine List.pairwise_cons.2 ⟨fun entry member => ?_, ordered⟩
        rcases List.mem_cons.1 member with same | inRest
        · exact same ▸ earlier
        · exact earlier.trans (headFirst entry inRest)
      next notEarlier =>
        refine List.pairwise_cons.2 ⟨fun entry member => ?_, ih restOrdered⟩
        rcases mem_place member with same | inRest
        · exact same ▸ Before.of_not distinct notEarlier
        · exact headFirst entry inRest

/-- The dictionary without a name. -/
def empty : Dictionary α :=
  ⟨[], List.Pairwise.nil⟩

/-- Write a value under a name.  What stood under that name is replaced. -/
def insert (dictionary : Dictionary α) (name : String) (value : α) : Dictionary α :=
  ⟨place name value dictionary.entries, place_ordered name value dictionary.ordered⟩

/-- Write the pairs of a list one after another. -/
def ofList (pairs : List (String × α)) : Dictionary α :=
  pairs.foldl (fun dictionary pair => dictionary.insert pair.1 pair.2) empty

/-- The value that a list of entries holds first under a name. -/
def find? (name : String) : List (String × α) → Option α
  | [] => none
  | (other, held) :: rest => if name = other then some held else find? name rest

/-- The value under a name. -/
def get? (dictionary : Dictionary α) (name : String) : Option α :=
  find? name dictionary.entries

/-- Whether a name has a value. -/
def contains (dictionary : Dictionary α) (name : String) : Bool :=
  (dictionary.get? name).isSome

/-- The names, in order. -/
def names (dictionary : Dictionary α) : List String :=
  dictionary.entries.map Prod.fst

@[simp]
theorem get?_empty (name : String) : (empty : Dictionary α).get? name = none := rfl

theorem find?_place (name other : String) (value : α) (entries : List (String × α)) :
    find? other (place name value entries) =
      if other = name then some value else find? other entries := by
  induction entries with
  | nil => simp only [place, find?]
  | cons head rest ih =>
    obtain ⟨key, held⟩ := head
    unfold place
    split
    next equal =>
      subst equal
      by_cases same : other = name <;> simp only [find?, same, if_true, if_false]
    next distinct =>
      split
      · simp only [find?]
      · by_cases same : other = key
        · have notName : other ≠ name := fun equal => distinct (equal.symm.trans same)
          simp only [find?, same, if_true, if_neg (same ▸ notName)]
        · simp only [find?, same, if_false, ih]

/-- A write is seen at its name and nowhere else. -/
theorem get?_insert (dictionary : Dictionary α) (name other : String) (value : α) :
    (dictionary.insert name value).get? other =
      if other = name then some value else dictionary.get? other :=
  find?_place name other value dictionary.entries

end Dictionary

end FilterQuery
