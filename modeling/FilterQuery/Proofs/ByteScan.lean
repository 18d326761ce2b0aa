import FilterQuery.Proofs.Encoding
import FilterQuery.Proofs.Scanning

namespace FilterQuery

open Text

/-!
# Scanning by bytes

The scanner carries the text that is still to be read, so none of its steps can miss.  Here the
same scan is written with an offset as its only state.  A blank or a parenthesis is recognised
by the byte at that offset, and a word is read from the text that is cut out between the offset
and the end of the range.  Both can miss: there may be no byte at the offset, and a cut may fall
into a character or behind the text.  A miss is no item and no end of the scan, but an outcome
of its own, which stops everything.

Offsets are machine words of 64 bits.  Those of a text always are.  A pairing may hold any word as
a closing, and behind the largest one there is no offset to go on from: that is a miss too, and
never the start of the text.  The other sums of the scan do not go beyond the end of its range.

At every place that lies in the query the two scans take the same turn, for any pairing that has
an offset behind each of its closings.  Bytes can stand for characters here because no byte of a
character of several bytes is that of a blank or of a parenthesis.
-/

namespace Text

/-- A byte that is a blank by itself. -/
def isBlankByte (byte : UInt8) : Bool :=
  byte == 32 || byte == 9 || byte == 10 || byte == 12 || byte == 13

/-- Cut a text behind a number of bytes, if a character ends there. -/
def cut? (count : Nat) : List Char → Option (List Char × List Char)
  | [] => if count = 0 then some ([], []) else none
  | c :: rest =>
    if count = 0 then some ([], c :: rest)
    else if count < c.utf8Size then none
    else (cut? (count - c.utf8Size) rest).map fun (front, back) => (c :: front, back)

/-- The text between two offsets, if they are in order and characters end at both. -/
def slice? (text : List Char) (start stop : Nat) : Option (List Char) :=
  if stop < start then none
  else (cut? start text).bind fun (_, behind) => (cut? (stop - start) behind).map Prod.fst

/-- The offset behind another one, as the machine adds.  Its words have 64 bits.  The offsets of
a text are such words, since the text is held by the machine. -/
def behind? (text : List Char) (offset : Nat) : Option Nat :=
  if offset < byteLength text ∨ offset + 1 < 2 ^ 64 then some (offset + 1) else none

/-- A character of the text begins at an offset, or the text ends there. -/
def IsBoundary (text : List Char) (offset : Nat) : Prop :=
  ∃ front behind, text = front ++ behind ∧ byteLength front = offset

end Text

/-- What one turn of the scan by bytes gives. -/
inductive Turn where
  /-- The range holds only blanks from here on. -/
  | over
  /-- An item with the offset at which it begins, and the offset at which scanning goes on. -/
  | item (start : Nat) (found : Except Rejection Item) (next : Nat)
  deriving DecidableEq, Repr

namespace ByteScan

/-- The first offset that is not before the end of the range and at a blank. -/
def skipBlanks? (bytes : List UInt8) (stop position : Nat) : Option Nat :=
  if position < stop then
    match bytes[position]? with
    | none => none
    | some byte => if isBlankByte byte then skipBlanks? bytes stop (position + 1) else some position
  else some position
termination_by stop - position

/-- The item at an offset that is not at a blank. -/
def read? (query : List Char) (pairing : Pairing) (stop offset : Nat) : Option Turn :=
  match (encode (String.ofList query))[offset]? with
  | none => none
  | some byte =>
    if byte = 40 then
      match pairing.closing? offset with
      | none => some (.item offset (.error (.unbalancedParenthesis offset)) stop)
      | some closing =>
        (behind? query closing).map fun next => .item offset (.ok (.group offset closing)) next
    else if byte = 41 then some (.item offset (.error (.unbalancedParenthesis offset)) stop)
    else
      (slice? query offset stop).map fun text =>
        match text.takeWhile fun next => !isDelimiter next with
        | [] => .over
        | word => .item offset (.ok (.word (String.ofList word))) (offset + byteLength word)

/-- One turn of the scan.  There is none if a byte, a text or an offset is looked for where none
is. -/
def turn? (query : List Char) (pairing : Pairing) (stop position : Nat) : Option Turn :=
  (skipBlanks? (encode (String.ofList query)) stop position).bind fun offset =>
    if offset < stop then read? query pairing stop offset else some .over

/-- The scan from an offset gives some items and then ends, and no turn of it misses. -/
inductive Yields (query : List Char) (pairing : Pairing) (stop : Nat) :
    Nat → List (Nat × Except Rejection Item) → Prop where
  | over {position : Nat} (turned : turn? query pairing stop position = some .over) :
    Yields query pairing stop position []
  | item {position start next : Nat} {found : Except Rejection Item}
      {items : List (Nat × Except Rejection Item)}
      (turned : turn? query pairing stop position = some (.item start found next))
      (further : Yields query pairing stop next items) :
    Yields query pairing stop position ((start, found) :: items)

end ByteScan

/-- A place lies in a query: its text stands there between its offset and the end of the
range. -/
structure Place.Within (query : List Char) (stop : Nat) (place : Place) : Prop where
  located : ∃ front behind, query = front ++ place.text ++ behind ∧
    byteLength front = place.offset
  reaches : place.offset + byteLength place.text = stop

/-- No pair closes before it opens, and the offset behind each closing is one at which a character
of the query begins or the query has ended.  Nothing is said of what stands at either offset of a
pair. -/
def Pairing.LeadsForward (pairing : Pairing) (query : List Char) : Prop :=
  ∀ opening closing, pairing.closing? opening = some closing →
    opening ≤ closing ∧ ∃ next, behind? query closing = some next ∧
      (byteLength query < next ∨ IsBoundary query next)

/-- The turn that corresponds to what is found at a place. -/
def Found.turn (stop : Nat) : Found → Turn
  | .finished => .over
  | .stray offset => .item offset (.error (.unbalancedParenthesis offset)) stop
  | .word start text after => .item start (.ok (.word text)) after.offset
  | .group opening closing _ after => .item opening (.ok (.group opening closing)) after.offset

/-! ## The bytes of a text -/

namespace Text

theorem length_encode_ofList (text : List Char) :
    (encode (String.ofList text)).length = byteLength text := by
  rw [encode_ofList]
  induction text with
  | nil => rfl
  | cons c rest ih =>
      rw [List.flatMap_cons, List.length_append, ih, String.length_utf8EncodeChar, byteLength]

/-- The first byte of a character of ASCII is its code, and that of any other one is above
those. -/
theorem exists_utf8EncodeChar_cons (c : Char) :
    ∃ byte others, String.utf8EncodeChar c = byte :: others ∧
      ((c.toNat < 128 ∧ byte.toNat = c.toNat) ∨ (128 ≤ c.toNat ∧ 128 ≤ byte.toNat)) := by
  have code : c.val.toNat = c.toNat := rfl
  simp only [String.utf8EncodeChar, code]
  split
  · refine ⟨_, _, rfl, .inl ⟨by omega, ?_⟩⟩
    rw [UInt8.toNat_ofNat']
    omega
  · split
    · refine ⟨_, _, rfl, .inr ⟨by omega, ?_⟩⟩
      rw [UInt8.toNat_ofNat']
      omega
    · split
      · refine ⟨_, _, rfl, .inr ⟨by omega, ?_⟩⟩
        rw [UInt8.toNat_ofNat']
        omega
      · refine ⟨_, _, rfl, .inr ⟨by omega, ?_⟩⟩
        rw [UInt8.toNat_ofNat']
        omega

/-- A character and the byte at which it begins: each of them is a given sign of ASCII if the
other is. -/
def BeginsWith (c : Char) (byte : UInt8) : Prop :=
  ∀ sign : Char, sign.toNat < 128 → (byte.toNat = sign.toNat ↔ c = sign)

/-- The byte at the offset of a character of the text. -/
theorem getElem?_encode (front : List Char) (c : Char) (rest : List Char) :
    ∃ byte, (encode (String.ofList (front ++ c :: rest)))[byteLength front]? = some byte ∧
      BeginsWith c byte := by
  rcases exists_utf8EncodeChar_cons c with ⟨byte, others, encoded, agree⟩
  refine ⟨byte, ?_, fun sign small => ?_⟩
  · have before := length_encode_ofList front
    rw [encode_ofList] at before
    rw [encode_ofList, List.flatMap_append, List.getElem?_append_right (by omega), before,
      Nat.sub_self, List.flatMap_cons, encoded]
    rfl
  · rw [← Char.toNat_inj]
    omega

namespace BeginsWith

variable {c : Char} {byte : UInt8}

theorem eq_iff (begins : BeginsWith c byte) (sign : Char) (code : UInt8)
    (same : code.toNat = sign.toNat) (small : sign.toNat < 128) : byte = code ↔ c = sign := by
  rw [← begins sign small, ← same, UInt8.toNat_inj]

theorem isBlankByte_eq (begins : BeginsWith c byte) : isBlankByte byte = isBlank c := by
  rw [Bool.eq_iff_iff]
  simp only [isBlankByte, isBlank, Bool.or_eq_true, beq_iff_eq]
  rw [begins.eq_iff ' ' 32 (by decide) (by decide),
    begins.eq_iff '\t' 9 (by decide) (by decide),
    begins.eq_iff '\n' 10 (by decide) (by decide),
    begins.eq_iff '\x0c' 12 (by decide) (by decide),
    begins.eq_iff '\r' 13 (by decide) (by decide)]

end BeginsWith

/-- A blank is one byte. -/
theorem utf8Size_of_isBlank {c : Char} (blank : isBlank c = true) : c.utf8Size = 1 := by
  simp only [isBlank, Bool.or_eq_true, beq_iff_eq] at blank
  rcases blank with (((rfl | rfl) | rfl) | rfl) | rfl <;> decide

/-! ## Cutting a text -/

theorem cut?_byteLength (front behind : List Char) :
    cut? (byteLength front) (front ++ behind) = some (front, behind) := by
  induction front with
  | nil => cases behind <;> rfl
  | cons c rest ih =>
      have positive := c.utf8Size_pos
      rw [List.cons_append, byteLength, cut?, if_neg (by omega), if_neg (by omega),
        Nat.add_sub_cancel_left, ih]
      rfl

/-- A text that stands in a query is what is cut out between its ends. -/
theorem slice?_of_append (front text behind : List Char) :
    slice? (front ++ text ++ behind) (byteLength front) (byteLength front + byteLength text) =
      some text := by
  rw [slice?, if_neg (by omega), List.append_assoc, cut?_byteLength, Option.bind_some]
  simp only [Nat.add_sub_cancel_left, cut?_byteLength, Option.map_some]

/-- The nearer of two cuts through a text leaves the other one behind it. -/
theorem exists_between {first second front behind : List Char}
    (same : first ++ second = front ++ behind) (nearer : byteLength first ≤ byteLength front) :
    ∃ middle, front = first ++ middle ∧ second = middle ++ behind := by
  rcases List.append_eq_append_iff.mp same with ⟨middle, found, split⟩ | ⟨middle, found, split⟩
  · exact ⟨middle, found, split⟩
  · rw [found, byteLength_append] at nearer
    cases middle with
    | nil => exact ⟨[], by rw [found, List.append_nil, List.append_nil], split.symm⟩
    | cons c rest =>
        have positive := c.utf8Size_pos
        rw [byteLength] at nearer
        omega

theorem behind?_eq_some_iff {text : List Char} {offset next : Nat} :
    behind? text offset = some next ↔
      (offset < byteLength text ∨ offset + 1 < 2 ^ 64) ∧ next = offset + 1 := by
  rw [behind?]
  split
  next held => simp only [held, true_and, Option.some.injEq, eq_comm]
  next missing => simp only [missing, false_and, reduceCtorEq]

theorem dropBytes_of_byteLength_le {count : Nat} {text : List Char}
    (short : byteLength text ≤ count) : dropBytes count text = [] := by
  induction text generalizing count with
  | nil => rfl
  | cons c rest ih =>
      have positive := c.utf8Size_pos
      rw [byteLength] at short
      rw [dropBytes, if_neg (by omega), ih (by omega)]

end Text

/-! ## The same turns -/

/-- The sum of a closing and one is an offset. -/
theorem Pairing.LeadsForward.behind?_eq {query : List Char} {pairing : Pairing}
    (forward : pairing.LeadsForward query) {opening closing : Nat}
    (closed : pairing.closing? opening = some closing) :
    behind? query closing = some (closing + 1) := by
  rcases forward opening closing closed with ⟨_, next, held, _⟩
  rw [held, (behind?_eq_some_iff.mp held).2]

namespace Place.Within

variable {query : List Char} {stop : Nat} {place : Place}

/-- What is left behind some characters of a place lies in the query. -/
theorem behind (within : place.Within query stop) (front rest : List Char)
    (split : place.text = front ++ rest) :
    (⟨place.offset + byteLength front, rest⟩ : Place).Within query stop := by
  rcases within.located with ⟨before, after, whole, size⟩
  constructor
  · refine ⟨before ++ front, after, ?_, ?_⟩
    · simp only [whole, split, List.append_assoc]
    · rw [byteLength_append, size]
  · have reaches := within.reaches
    rw [split, byteLength_append, ← Nat.add_assoc] at reaches
    exact reaches

/-- The byte at a place is the beginning of its first character. -/
theorem exists_byte (within : place.Within query stop) {c : Char} {rest : List Char}
    (begins : place.text = c :: rest) :
    ∃ byte, (encode (String.ofList query))[place.offset]? = some byte ∧ BeginsWith c byte := by
  rcases within.located with ⟨before, after, whole, size⟩
  rw [whole, begins, ← size, List.append_assoc, List.cons_append]
  exact getElem?_encode before c (rest ++ after)

theorem slice? (within : place.Within query stop) :
    Text.slice? query place.offset stop = some place.text := by
  rcases within.located with ⟨before, after, whole, size⟩
  rw [← within.reaches, whole, ← size, slice?_of_append]

theorem lt_stop_iff (within : place.Within query stop) :
    place.offset < stop ↔ place.text ≠ [] := by
  have reaches := within.reaches
  cases text : place.text with
  | nil =>
      rw [text, byteLength] at reaches
      simp only [ne_eq, not_true_eq_false, iff_false]
      omega
  | cons c rest =>
      have positive := c.utf8Size_pos
      rw [text, byteLength] at reaches
      simp only [ne_eq, reduceCtorEq, not_false_eq_true, iff_true]
      omega

/-- Blanks are skipped to the same offset, and what is left there lies in the query. -/
theorem skipBlanks? (within : place.Within query stop) :
    ByteScan.skipBlanks? (encode (String.ofList query)) stop place.offset =
        some (skipBlanks place.offset place.text).offset ∧
      (skipBlanks place.offset place.text).Within query stop := by
  rcases place with ⟨offset, text⟩
  induction text generalizing offset with
  | nil =>
      have atEnd := within.lt_stop_iff.not.mpr fun nonempty => nonempty rfl
      rw [ByteScan.skipBlanks?, if_neg atEnd]
      exact ⟨rfl, within⟩
  | cons c rest ih =>
      have inside := within.lt_stop_iff.mpr (List.cons_ne_nil c rest)
      rcases within.exists_byte rfl with ⟨byte, found, begins⟩
      rw [ByteScan.skipBlanks?, if_pos inside, found]
      simp only [begins.isBlankByte_eq, skipBlanks]
      cases blank : isBlank c with
      | false => exact ⟨rfl, within⟩
      | true =>
          have size := utf8Size_of_isBlank blank
          have next := within.behind [c] rest rfl
          simp only [byteLength, size, Nat.add_zero] at next
          simp only [if_true, size]
          exact ih (offset + 1) next

/-- An item is read alike at a place that is not before a blank. -/
theorem read? (within : place.Within query stop) {c : Char} {rest : List Char}
    (begins : place.text = c :: rest) (notBlank : isBlank c = false) {pairing : Pairing}
    (forward : pairing.LeadsForward query) :
    ByteScan.read? query pairing stop place.offset =
      some ((read pairing place.offset place.text).turn stop) := by
  rcases within.exists_byte begins with ⟨byte, found, signs⟩
  have sliced := within.slice?
  rw [begins] at sliced ⊢
  simp only [ByteScan.read?, found, signs.eq_iff '(' 40 rfl (by decide),
    signs.eq_iff ')' 41 rfl (by decide), read]
  split
  · cases closed : pairing.closing? place.offset with
    | none => rfl
    | some closing =>
        simp only [forward.behind?_eq closed]
        rfl
  next notOpening =>
    split
    · rfl
    next notClosing =>
      have inWord := isDelimiter_eq_false_iff.mpr ⟨notBlank, notOpening, notClosing⟩
      rw [sliced, Option.map_some, List.takeWhile_cons_of_pos (by simp [inWord])]
      rfl

end Place.Within

namespace ByteScan

variable {query : List Char} {stop : Nat} {pairing : Pairing} {place : Place}

/-- At a place of the query both scans take the same turn. -/
theorem turn?_eq (forward : pairing.LeadsForward query) (within : place.Within query stop) :
    turn? query pairing stop place.offset = some ((place.next pairing).turn stop) := by
  rcases within.skipBlanks? with ⟨skipped, landed⟩
  rcases Place.skipBlanks_split place.offset place.text with ⟨_, _, _, _, notBlank⟩
  rw [turn?, skipped, Option.bind_some, Place.next]
  cases text : (Place.skipBlanks place.offset place.text).text with
  | nil =>
      rw [if_neg (landed.lt_stop_iff.not.mpr fun nonempty => nonempty text)]
      rfl
  | cons c rest =>
      have inside := landed.lt_stop_iff.mpr (by rw [text]; exact List.cons_ne_nil c rest)
      rw [if_pos inside, landed.read? text (notBlank c rest text) forward, text]

end ByteScan

/-! ## The same items -/

namespace Place

variable {query : List Char} {stop : Nat} {pairing : Pairing} {place : Place}

/-- Scanning has a place to go on from: one in the query, or one behind the range. -/
def Continues (query : List Char) (stop : Nat) (place : Place) : Prop :=
  place.Within query stop ∨ stop ≤ place.offset ∧ place.text = []

/-- What is left behind a word lies in the query. -/
theorem Within.after_word (within : place.Within query stop) {start : Nat} {text : String}
    {after : Place} (found : place.next pairing = .word start text after) :
    after.Within query stop := by
  have landed := within.skipBlanks?.2
  rcases skipBlanks_split place.offset place.text with ⟨_, _, _, _, notBlank⟩
  rw [next] at found
  cases text : (skipBlanks place.offset place.text).text with
  | nil =>
      rw [text] at found
      cases found
  | cons c rest =>
      rw [text] at found
      by_cases inWord : isDelimiter c = false
      · rcases read_word pairing _ rest inWord with
          ⟨word, more, same, _, _, reading⟩
        rw [reading] at found
        cases found
        exact landed.behind _ _ (text.trans same)
      · rcases isParenthesis_cases c with rfl | rfl | other
        · simp only [read, if_true] at found
          split at found <;> cases found
        · cases found
        · simp only [isParenthesis, Bool.or_eq_false_iff, beq_eq_false_iff_ne] at other
          exact absurd (isDelimiter_eq_false_iff.mpr ⟨notBlank c rest text, other⟩) inWord

/-- Behind a group that leads forwards scanning goes on in the query or has left the range. -/
theorem Within.after_group (within : place.Within query stop) (forward : pairing.LeadsForward query)
    {opening closing : Nat} {inside after : Place}
    (found : place.next pairing = .group opening closing inside after) :
    opening ≤ closing ∧ after.Continues query stop := by
  have landed := within.skipBlanks?.2
  rw [next] at found
  generalize skipBlanks place.offset place.text = start at landed found
  rcases start with ⟨offset, _ | ⟨c, rest⟩⟩
  · cases found
  rcases isParenthesis_cases c with rfl | rfl | other
  · simp only [read, if_true] at found
    split at found
    next => cases found
    next closed =>
      cases found
      rcases forward _ _ closed with ⟨later, _, held, ends⟩
      rw [(behind?_eq_some_iff.mp held).2] at ends
      refine ⟨later, ?_⟩
      rcases landed.located with ⟨before, behind, whole, size⟩
      have reaches := landed.reaches
      simp only [byteLength, utf8Size_opening] at size reaches
      by_cases inside : closing + 1 ≤ stop
      · rcases ends with outside | ⟨front, tail, split, frontSize⟩
        · rw [whole, byteLength_append, byteLength_append, byteLength, utf8Size_opening] at outside
          omega
        · -- The cut behind the closing falls into what is left of the range.
          have same : (before ++ ['(']) ++ (rest ++ behind) = front ++ tail := by
            rw [← split, whole]
            simp
          rcases exists_between same (by simp [byteLength]; omega) with ⟨middle, rfl, further⟩
          simp only [byteLength_append, byteLength, utf8Size_opening] at frontSize
          rcases exists_between further.symm (by omega) with ⟨more, rfl, _⟩
          have dropped := dropBytes_byteLength_append middle more 0
          rw [Nat.add_zero, dropBytes_zero] at dropped
          have next := landed.behind ('(' :: middle) more rfl
          simp only [byteLength, utf8Size_opening] at next
          rw [show closing - opening = byteLength middle by omega, dropped,
            show closing + 1 = opening + (1 + byteLength middle) by omega]
          exact .inl next
      · exact .inr ⟨by simp only; omega, dropBytes_of_byteLength_le (by omega)⟩
  · cases found
  · simp only [isParenthesis, Bool.or_eq_false_iff, beq_eq_false_iff_ne] at other
    rw [read, if_neg other.1, if_neg other.2] at found
    cases found

end Place

namespace ByteScan

variable {query : List Char} {stop : Nat} {pairing : Pairing} {place : Place}

/-- Behind the range there is nothing left to scan. -/
theorem yields_behind {position : Nat} (behind : stop ≤ position) :
    Yields query pairing stop position [] := by
  apply Yields.over
  rw [turn?, skipBlanks?, if_neg (Nat.not_lt.mpr behind), Option.bind_some,
    if_neg (Nat.not_lt.mpr behind)]

/-- If all pairs lead forwards, the scan by bytes gives the items of the range and misses
nothing. -/
theorem yields_locatedFrom (forward : pairing.LeadsForward query)
    (continues : place.Continues query stop) (range : Range) (unused : List Nat) :
    Yields query pairing stop place.offset (range.locatedFrom pairing unused place) := by
  induction length : place.text.length using Nat.strongRecOn generalizing place with
  | ind count ih =>
      subst length
      rcases continues with within | ⟨behind, nothing⟩
      · have turned := turn?_eq forward within
        cases found : place.next pairing with
        | finished =>
            rw [found] at turned
            rw [Range.locatedFrom_of_finished found]
            exact .over turned
        | stray offset =>
            rw [found] at turned
            rw [Range.locatedFrom_of_stray found]
            exact .item turned (yields_behind (Nat.le_refl stop))
        | word start text after =>
            rw [found] at turned
            rw [Range.locatedFrom_of_word found]
            exact .item turned (ih _ (Place.length_lt_of_next_word found)
              (.inl (within.after_word found)) rfl)
        | group opening closing inside after =>
            rw [found] at turned
            rcases within.after_group forward found with ⟨later, further⟩
            rw [Range.locatedFrom_of_group found later]
            exact .item turned (ih _ (Place.length_lt_of_next_group found).2 further rfl)
      · rw [Range.locatedFrom_of_finished (by rw [Place.next, nothing]; rfl)]
        exact yields_behind behind

end ByteScan

end FilterQuery
