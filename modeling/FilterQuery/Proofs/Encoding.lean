import Mathlib.Data.List.TakeWhile
import Mathlib.Tactic.SplitIfs
import FilterQuery.Text.Bytes
import FilterQuery.Text.Utf8

namespace FilterQuery
namespace Text

/-!
# Texts and their bytes

A text is encoded character by character.  Files are read leniently, and a lenient reader can go
wrong where a strict one stops: it could take the bytes of one character for several, or for
replacements.  It does not.  The first byte of a character announces how many others follow it and
bounds the second one, and both are so for the bytes of every character, as characters have one
form only and surrogates are none.  So a text is read back from its bytes, except for a byte order
mark before it.
-/

theorem encode_ofList (text : List Char) :
    encode (String.ofList text) = text.flatMap String.utf8EncodeChar := by
  rw [encode, String.toByteArray_ofList, List.utf8Encode, List.toList_data_toByteArray]

/-- How a first byte is taken: as a character by itself, or as the first of two to four bytes,
where it bounds the second one. -/
theorem announced?_eq (byte : UInt8) :
    (byte.toNat < 0x80 → announced? byte = some (0, 0x80, 0xBF)) ∧
      (0xC2 ≤ byte.toNat → byte.toNat ≤ 0xDF → announced? byte = some (1, 0x80, 0xBF)) ∧
      (byte.toNat = 0xE0 → announced? byte = some (2, 0xA0, 0xBF)) ∧
      (byte.toNat = 0xED → announced? byte = some (2, 0x80, 0x9F)) ∧
      (0xE1 ≤ byte.toNat → byte.toNat ≤ 0xEF → byte.toNat ≠ 0xED →
        announced? byte = some (2, 0x80, 0xBF)) ∧
      (byte.toNat = 0xF0 → announced? byte = some (3, 0x90, 0xBF)) ∧
      (0xF1 ≤ byte.toNat → byte.toNat ≤ 0xF3 → announced? byte = some (3, 0x80, 0xBF)) ∧
      (byte.toNat = 0xF4 → announced? byte = some (3, 0x80, 0x8F)) := by
  unfold announced?
  simp only [Bool.and_eq_true, decide_eq_true_eq, UInt8.lt_iff_toNat_lt, UInt8.le_iff_toNat_le,
    ← UInt8.toNat_inj, UInt8.reduceToNat]
  refine ⟨?_, ?_, ?_, ?_, ?_, ?_, ?_, ?_⟩
  all_goals
    intros
    split_ifs <;> first | rfl | omega

theorem following_zero (low high : UInt8) (rest : List UInt8) : following 0 low high rest = [] := by
  cases rest <;> rfl

theorem isContinuation_iff {byte : UInt8} :
    isContinuation byte = true ↔ 0x80 ≤ byte.toNat ∧ byte.toNat ≤ 0xBF := by
  simp only [isContinuation, Bool.and_eq_true, decide_eq_true_eq, UInt8.le_iff_toNat_le,
    UInt8.reduceToNat]

/-- As many bytes belong to a character as its first byte announces. -/
theorem following_cons {low high second : UInt8} {others rest : List UInt8}
    (least : low.toNat ≤ second.toNat) (most : second.toNat ≤ high.toNat)
    (continued : ∀ byte ∈ others, 0x80 ≤ byte.toNat ∧ byte.toNat ≤ 0xBF) :
    following (others.length + 1) low high (second :: (others ++ rest)) = second :: others := by
  have range : (low ≤ second && second ≤ high) = true := by
    rw [Bool.and_eq_true, decide_eq_true_iff, decide_eq_true_iff, UInt8.le_iff_toNat_le,
      UInt8.le_iff_toNat_le]
    exact ⟨least, most⟩
  have whole : others.takeWhile isContinuation = others :=
    List.takeWhile_eq_self_iff.mpr fun byte member => isContinuation_iff.mpr (continued byte member)
  rw [following, range, Nat.add_sub_cancel, List.take_left, whole]
  rfl

/-- The bytes of a character are read as that character. -/
theorem decodeLossy_append {c : Char} {first low high : UInt8} {others rest : List UInt8}
    (announced : announced? first = some (others.length, low, high))
    (belong : following others.length low high (others ++ rest) = others)
    (code : characterCode first others = c.toNat) :
    decodeLossy (first :: (others ++ rest)) = c :: decodeLossy rest := by
  rw [decodeLossy, announced]
  simp only [belong, code, if_true, Char.ofNat_toNat, List.drop_left]

/-- The first of three bytes bounds the second one so that neither shorter forms nor surrogates are
read; those of characters keep to that. -/
theorem announced?_three {code : Nat} (least : 0x800 ≤ code) (most : code ≤ 0xFFFF)
    (valid : code < 0xD800 ∨ 0xDFFF < code) :
    ∃ low high : UInt8, announced? (UInt8.ofNat (code / 4096 % 16 + 0xE0)) = some (2, low, high) ∧
      low.toNat ≤ code / 64 % 64 + 0x80 ∧ code / 64 % 64 + 0x80 ≤ high.toNat := by
  rcases announced?_eq (UInt8.ofNat (code / 4096 % 16 + 0xE0)) with
    ⟨_, _, shortest, surrogates, others, _⟩
  rw [UInt8.toNat_ofNat'] at shortest surrogates others
  by_cases isShortest : code / 4096 = 0
  · exact ⟨0xA0, 0xBF, shortest (by omega), by simp only [UInt8.reduceToNat]; omega⟩
  · by_cases isSurrogate : code / 4096 = 13
    · exact ⟨0x80, 0x9F, surrogates (by omega), by simp only [UInt8.reduceToNat]; omega⟩
    · exact ⟨0x80, 0xBF, others (by omega) (by omega) (by omega),
        by simp only [UInt8.reduceToNat]; omega⟩

/-- The same for four bytes, which end with the last character there is. -/
theorem announced?_four {code : Nat} (least : 0x10000 ≤ code) (most : code < 0x110000) :
    ∃ low high : UInt8, announced? (UInt8.ofNat (code / 262144 % 8 + 0xF0)) = some (3, low, high) ∧
      low.toNat ≤ code / 4096 % 64 + 0x80 ∧ code / 4096 % 64 + 0x80 ≤ high.toNat := by
  rcases announced?_eq (UInt8.ofNat (code / 262144 % 8 + 0xF0)) with
    ⟨_, _, _, _, _, shortest, others, last⟩
  rw [UInt8.toNat_ofNat'] at shortest others last
  by_cases isShortest : code / 262144 = 0
  · exact ⟨0x90, 0xBF, shortest (by omega), by simp only [UInt8.reduceToNat]; omega⟩
  · by_cases isLast : code / 262144 = 4
    · exact ⟨0x80, 0x8F, last (by omega), by simp only [UInt8.reduceToNat]; omega⟩
    · exact ⟨0x80, 0xBF, others (by omega) (by omega), by simp only [UInt8.reduceToNat]; omega⟩

/-- A character is read back from its bytes. -/
theorem decodeLossy_utf8EncodeChar (c : Char) (rest : List UInt8) :
    decodeLossy (String.utf8EncodeChar c ++ rest) = c :: decodeLossy rest := by
  have code : c.val.toNat = c.toNat := rfl
  have valid : c.toNat < 0xD800 ∨ 0xDFFF < c.toNat ∧ c.toNat < 0x110000 := c.valid
  simp only [String.utf8EncodeChar, code]
  split_ifs with one two three
  · refine @decodeLossy_append c _ 0x80 0xBF [] rest ?_ (following_zero _ _ _) ?_
    · exact (announced?_eq _).1 (by rw [UInt8.toNat_ofNat']; omega)
    · simp only [characterCode, List.length_nil, List.foldl_nil, UInt8.toNat_ofNat']
      omega
  · refine @decodeLossy_append c _ 0x80 0xBF [_] rest ?_ (following_cons ?_ ?_ ?_) ?_
    · apply (announced?_eq _).2.1 <;> rw [UInt8.toNat_ofNat'] <;> omega
    · simp only [UInt8.toNat_ofNat', UInt8.reduceToNat]
      omega
    · simp only [UInt8.toNat_ofNat', UInt8.reduceToNat]
      omega
    · exact List.forall_mem_nil _
    · simp only [characterCode, List.length_singleton, List.foldl_cons, List.foldl_nil,
        UInt8.toNat_ofNat']
      omega
  · rcases announced?_three (by omega) three (valid.imp_right And.left) with
      ⟨low, high, announced, least, most⟩
    refine @decodeLossy_append c _ low high [_, _] rest announced (following_cons ?_ ?_ ?_) ?_
    · rw [UInt8.toNat_ofNat']
      omega
    · rw [UInt8.toNat_ofNat']
      omega
    · rw [List.forall_mem_singleton, UInt8.toNat_ofNat']
      omega
    · simp only [characterCode, List.length_cons, List.length_nil, List.foldl_cons, List.foldl_nil,
        UInt8.toNat_ofNat']
      omega
  · rcases announced?_four (by omega) (by omega : c.toNat < 0x110000) with
      ⟨low, high, announced, least, most⟩
    refine @decodeLossy_append c _ low high [_, _, _] rest announced (following_cons ?_ ?_ ?_) ?_
    · rw [UInt8.toNat_ofNat']
      omega
    · rw [UInt8.toNat_ofNat']
      omega
    · simp only [List.forall_mem_cons, UInt8.toNat_ofNat']
      refine ⟨by omega, by omega, List.forall_mem_nil _⟩
    · simp only [characterCode, List.length_cons, List.length_nil, List.foldl_cons, List.foldl_nil,
        UInt8.toNat_ofNat']
      omega

/-- A text is read back from its bytes. -/
theorem decodeLossy_encode (text : List Char) :
    decodeLossy (encode (String.ofList text)) = text := by
  rw [encode_ofList]
  induction text with
  | nil => rw [List.flatMap_nil, decodeLossy]
  | cons c rest ih => rw [List.flatMap_cons, decodeLossy_utf8EncodeChar, ih]

/-- So is a file, unless its text begins with a byte order mark. -/
theorem decodeFile_encode {text : List Char} (unmarked : text.head? ≠ some '\ufeff') :
    decodeFile (encode (String.ofList text)) = text := by
  rw [decodeFile, decodeLossy_encode]
  split
  next => exact absurd rfl unmarked
  next => rfl

end Text
end FilterQuery
