namespace FilterQuery
namespace Text

/-!
# Places in a text, counted in bytes

Queries are scanned as lists of characters, while every offset that a reader of
a message sees is counted in bytes of UTF-8.  The three operations here carry
one count to the other: the length of a text in bytes, the text that follows a
number of bytes, and the text that a number of bytes holds.

A count that ends inside a character takes that whole character.  Offsets found
by scanning never do so, because scanning moves by whole characters.

The order of names is the order of their UTF-8 bytes.  It is stated on the
bytes themselves, so that no fact about the encoding is needed to read it.
-/

/-- The number of bytes of UTF-8 that a text takes. -/
def byteLength : List Char → Nat
  | [] => 0
  | c :: rest => c.utf8Size + byteLength rest

/-- The text that follows the first `count` bytes. -/
def dropBytes (count : Nat) : List Char → List Char
  | [] => []
  | c :: rest => if count = 0 then c :: rest else dropBytes (count - c.utf8Size) rest

/-- The text that the first `count` bytes hold. -/
def takeBytes (count : Nat) : List Char → List Char
  | [] => []
  | c :: rest => if count = 0 then [] else c :: takeBytes (count - c.utf8Size) rest

theorem takeBytes_append_dropBytes (count : Nat) (text : List Char) :
    takeBytes count text ++ dropBytes count text = text := by
  induction text generalizing count with
  | nil => rfl
  | cons c rest ih =>
    by_cases zero : count = 0
    · simp only [takeBytes, dropBytes, zero, if_true, List.nil_append]
    · simp only [takeBytes, dropBytes, zero, if_false, List.cons_append, ih]

theorem length_dropBytes_le (count : Nat) (text : List Char) :
    (dropBytes count text).length ≤ text.length := by
  have parts := congrArg List.length (takeBytes_append_dropBytes count text)
  rw [List.length_append] at parts
  omega

theorem length_takeBytes_le (count : Nat) (text : List Char) :
    (takeBytes count text).length ≤ text.length := by
  have parts := congrArg List.length (takeBytes_append_dropBytes count text)
  rw [List.length_append] at parts
  omega

/-- The bytes by which names are put in order. -/
def orderKey (name : String) : List UInt8 :=
  name.toByteArray.data.toList

theorem orderKey_injective {first second : String} (same : orderKey first = orderKey second) :
    first = second :=
  String.toByteArray_inj.1 (ByteArray.ext (Array.toList_inj.1 same))

/-- Strictly earlier in the order of UTF-8 bytes. -/
def Before (first second : String) : Prop :=
  orderKey first < orderKey second

instance (first second : String) : Decidable (Before first second) :=
  inferInstanceAs (Decidable (orderKey first < orderKey second))

theorem Before.irrefl (name : String) : ¬ Before name name :=
  List.lt_irrefl (orderKey name)

theorem Before.trans {first second third : String} (earlier : Before first second)
    (later : Before second third) : Before first third :=
  List.lt_trans earlier later

theorem Before.of_not {first second : String} (distinct : first ≠ second)
    (notBefore : ¬ Before first second) : Before second first := by
  rcases List.le_iff_lt_or_eq.1 (List.not_lt.1 notBefore) with less | equal
  · exact less
  · exact absurd (orderKey_injective equal).symm distinct

end Text
end FilterQuery
