namespace FilterQuery
namespace Text

/-!
# Text from bytes

Batch files have to be well-formed UTF-8; whatever else they hold is refused.
Configuration files are read leniently: each longest ill-formed start of a
character becomes one replacement character, and a byte order mark at the start
is dropped.
-/

/-- The text of well-formed bytes. -/
def decode? (bytes : List UInt8) : Option String :=
  String.fromUTF8? ⟨bytes.toArray⟩

/-- The bytes of a text. -/
def encode (text : String) : List UInt8 :=
  text.toByteArray.data.toList

/-- A byte that continues a character. -/
def isContinuation (byte : UInt8) : Bool :=
  0x80 ≤ byte && byte ≤ 0xBF

/-- The number of bytes that a first byte announces behind it, and the range of
the second byte.  Overlong forms and surrogates are excluded by that range. -/
def announced? (byte : UInt8) : Option (Nat × UInt8 × UInt8) :=
  if byte < 0x80 then some (0, 0x80, 0xBF)
  else if 0xC2 ≤ byte && byte ≤ 0xDF then some (1, 0x80, 0xBF)
  else if byte = 0xE0 then some (2, 0xA0, 0xBF)
  else if byte = 0xED then some (2, 0x80, 0x9F)
  else if 0xE1 ≤ byte && byte ≤ 0xEF then some (2, 0x80, 0xBF)
  else if byte = 0xF0 then some (3, 0x90, 0xBF)
  else if 0xF1 ≤ byte && byte ≤ 0xF3 then some (3, 0x80, 0xBF)
  else if byte = 0xF4 then some (3, 0x80, 0x8F)
  else none

/-- The bytes behind a first byte that go on with its character. -/
def following (count : Nat) (low high : UInt8) (bytes : List UInt8) : List UInt8 :=
  match bytes with
  | [] => []
  | second :: rest =>
    if count = 0 || !(low ≤ second && second ≤ high) then []
    else second :: (rest.take (count - 1)).takeWhile isContinuation

/-- The code of a character, given by its first byte and those behind it. -/
def characterCode (first : UInt8) (others : List UInt8) : Nat :=
  let lead :=
    match others.length with
    | 0 => first.toNat
    | 1 => first.toNat % 0x20
    | 2 => first.toNat % 0x10
    | _ => first.toNat % 0x08
  others.foldl (fun code byte => code * 0x40 + byte.toNat % 0x40) lead

/-- The text of bytes that need not be well-formed. -/
def decodeLossy : List UInt8 → List Char
  | [] => []
  | first :: rest =>
    match announced? first with
    | none => '\ufffd' :: decodeLossy rest
    | some (count, low, high) =>
      let others := following count low high rest
      (if others.length = count then Char.ofNat (characterCode first others) else '\ufffd') ::
        decodeLossy (rest.drop others.length)
termination_by bytes => bytes.length
decreasing_by
  · exact Nat.lt_succ_self _
  · rw [List.length_drop]
    exact Nat.lt_succ_of_le (Nat.sub_le _ _)

/-- The text of a file that is read leniently. -/
def decodeFile (bytes : List UInt8) : List Char :=
  match decodeLossy bytes with
  | '\ufeff' :: rest => rest
  | text => text

end Text
end FilterQuery
