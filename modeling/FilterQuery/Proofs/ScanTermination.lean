import FilterQuery.Proofs.ByteScan
import FilterQuery.Proofs.PerfectMatching

namespace FilterQuery

open Text

/-!
# Scanning ends

Whoever scans a range asks for one item after another, and may go on asking when there is none
left.  What the scanner keeps between two calls is an offset.  It ends because that offset grows:
over blanks, over the bytes of a word, and to the place behind a closing, which is whatever the
table says.  The table need not be the matching of any text, and it need not know of every
parenthesis.  It only has to lead forwards.

Each item begins in the range and leaves the scanner behind its first byte, and so there are no
more items than bytes.  A parenthesis without partner puts the scanner at the end of the range,
where nothing is found any more.  A group may put it far beyond that end, and then nothing is looked
up at all.

Offsets are machine words, and each of them that arises is one: it is no further than the end of
the range, or it is the offset directly behind a closing of the table, as the machine adds.  To
lead forwards, a table has to have that offset.  The largest word cannot be a closing, since what
the machine makes of it and one is not behind it.
-/

namespace ByteScan

/-- One call of the scanner at an offset: the item that it gives, if there is one, and the offset
at which it stands afterwards.  Without an item that is the one behind the blanks. -/
def call? (query : List Char) (pairing : Pairing) (stop position : Nat) :
    Option (Option (Nat × Except Rejection Item) × Nat) :=
  (turn? query pairing stop position).bind fun
    | .over => (skipBlanks? (encode (String.ofList query)) stop position).map fun offset =>
        (none, offset)
    | .item start found next => some (some (start, found), next)

/-- A number of calls: what each of them gives, and the offset at which the last one leaves the
scanner.  There is no result if any of them misses. -/
def calls? (query : List Char) (pairing : Pairing) (stop : Nat) :
    Nat → Nat → Option (List (Option (Nat × Except Rejection Item)) × Nat)
  | 0, position => some ([], position)
  | count + 1, position =>
    (call? query pairing stop position).bind fun (answer, next) =>
      (calls? query pairing stop count next).map fun (answers, reached) =>
        (answer :: answers, reached)

end ByteScan

/-- An offset is no further than a limit, or it is the one directly behind a closing of the
table. -/
def Pairing.Reaches (pairing : Pairing) (query : List Char) (limit offset : Nat) : Prop :=
  offset ≤ limit ∨
    ∃ opening closing, pairing.closing? opening = some closing ∧ behind? query closing = some offset

/-- A parenthesis stands at an offset where scanning cannot go on: an opening one that the table
does not have, or a closing one. -/
def Pairing.Unpaired (pairing : Pairing) (query : List Char) (offset : Nat) : Prop :=
  StandsAt query '(' offset ∧ pairing.closing? offset = none ∨ StandsAt query ')' offset

/-- Items begin one behind the other from an offset on and before the end of a range.  Nothing
follows a parenthesis without partner. -/
inductive Advances (query : List Char) (pairing : Pairing) (stop : Nat) :
    Nat → List (Nat × Except Rejection Item) → Prop where
  | finished {position : Nat} : Advances query pairing stop position []
  | stray {position offset : Nat} (later : position ≤ offset) (inside : offset < stop)
      (unpaired : pairing.Unpaired query offset) :
    Advances query pairing stop position [(offset, .error (.unbalancedParenthesis offset))]
  | item {position start next : Nat} {item : Item} {items : List (Nat × Except Rejection Item)}
      (later : position ≤ start) (inside : start < stop) (further : start < next)
      (tail : Advances query pairing stop next items) :
    Advances query pairing stop position ((start, .ok item) :: items)

/-- What is found from an offset on begins there or later and before the end of a range, and takes
the scanner behind its beginning. -/
def Found.Progresses (query : List Char) (pairing : Pairing) (stop position : Nat) : Found → Prop
  | .finished => True
  | .stray offset => position ≤ offset ∧ offset < stop ∧ pairing.Unpaired query offset
  | .word start _ after => position ≤ start ∧ start < stop ∧ start < after.offset
  | .group opening closing _ after =>
    position ≤ opening ∧ opening < stop ∧ after.offset = closing + 1

/-! ## Calls of the scanner -/

namespace ByteScan

variable {query : List Char} {pairing : Pairing} {stop position offset : Nat}

/-- Behind the blanks there are no more of them. -/
theorem skipBlanks?_again {bytes : List UInt8}
    (skipped : skipBlanks? bytes stop position = some offset) :
    skipBlanks? bytes stop offset = some offset := by
  fun_induction skipBlanks? bytes stop position with
  | case1 => cases skipped
  | case2 position inside byte found blank ih => exact ih skipped
  | case3 position inside byte found visible =>
      cases skipped
      rw [skipBlanks?, if_pos inside, found]
      exact if_neg visible
  | case4 position behind =>
      cases skipped
      rw [skipBlanks?, if_neg behind]

/-- Blanks are skipped no further than to the end of the range. -/
theorem eq_or_le_of_skipBlanks? {bytes : List UInt8}
    (skipped : skipBlanks? bytes stop position = some offset) :
    offset = position ∨ offset ≤ stop := by
  fun_induction skipBlanks? bytes stop position with
  | case1 => cases skipped
  | case2 position inside byte found blank ih =>
      have further := ih skipped
      omega
  | case3 position inside byte found visible =>
      cases skipped
      exact .inl rfl
  | case4 position behind =>
      cases skipped
      exact .inl rfl

/-- Once nothing is found, nothing is found ever after. -/
theorem calls?_of_over (turned : turn? query pairing stop position = some .over) (count : Nat) :
    ∃ reached, calls? query pairing stop count position =
      some (List.replicate count none, reached) := by
  induction count generalizing position with
  | zero => exact ⟨position, rfl⟩
  | succ count ih =>
      rcases Option.bind_eq_some_iff.mp turned with ⟨offset, skipped, found⟩
      have again : turn? query pairing stop offset = some .over := by
        rw [turn?, skipBlanks?_again skipped, Option.bind_some]
        exact found
      rcases ih again with ⟨reached, rest⟩
      refine ⟨reached, ?_⟩
      rw [calls?, call?, turned, Option.bind_some]
      simp only [skipped, Option.map_some, Option.bind_some, rest, List.replicate_succ]

/-- Calls give the items of the scan in order, and nothing once there are no more. -/
theorem calls?_of_yields {items : List (Nat × Except Rejection Item)}
    (yields : Yields query pairing stop position items) (count : Nat) :
    ∃ reached, calls? query pairing stop count position =
      some ((List.range count).map fun number => items[number]?, reached) := by
  induction yields generalizing count with
  | «over» turned =>
      rcases calls?_of_over turned count with ⟨reached, called⟩
      refine ⟨reached, called.trans ?_⟩
      simp
  | item turned further ih =>
      cases count with
      | zero => exact ⟨_, rfl⟩
      | succ count =>
          rcases ih count with ⟨reached, rest⟩
          refine ⟨reached, ?_⟩
          rw [calls?, call?, turned, Option.bind_some]
          simp only [Option.bind_some, rest, Option.map_some, List.range_succ_eq_map,
            List.map_cons, List.map_map]
          rfl

end ByteScan

/-! ## How far the offset goes -/

namespace Text

theorem byteLength_of_cut? {count : Nat} {text front back : List Char}
    (cut : cut? count text = some (front, back)) : byteLength front = count := by
  fun_induction cut? count text generalizing front back with
  | case1 => cases cut; rfl
  | case2 => cases cut
  | case3 => cases cut; rfl
  | case4 => cases cut
  | case5 count c rest nonzero whole ih =>
      rcases Option.map_eq_some_iff.mp cut with ⟨⟨before, after⟩, further, same⟩
      cases same
      have size := ih further
      rw [byteLength]
      omega

theorem byteLength_of_slice? {text found : List Char} {start stop : Nat}
    (sliced : slice? text start stop = some found) : start + byteLength found = stop := by
  rw [slice?] at sliced
  split at sliced
  · cases sliced
  next ordered =>
    rcases Option.bind_eq_some_iff.mp sliced with ⟨⟨_, behind⟩, _, cut⟩
    rcases Option.map_eq_some_iff.mp cut with ⟨⟨front, _⟩, further, rfl⟩
    have size := byteLength_of_cut? further
    show start + byteLength front = stop
    omega

end Text

namespace ByteScan

variable {query : List Char} {pairing : Pairing} {stop position : Nat}

/-- An item leaves the scanner in the range or behind a closing of the table. -/
theorem reaches_of_read? {offset start next : Nat} {found : Except Rejection Item}
    (reading : read? query pairing stop offset = some (.item start found next)) :
    pairing.Reaches query stop next := by
  rw [read?] at reading
  split at reading
  · cases reading
  · split at reading
    · split at reading
      · cases reading
        exact .inl (Nat.le_refl stop)
      next closing paired =>
        rcases Option.map_eq_some_iff.mp reading with ⟨further, held, same⟩
        cases same
        exact .inr ⟨offset, closing, paired, held⟩
    · split at reading
      · cases reading
        exact .inl (Nat.le_refl stop)
      · rcases Option.map_eq_some_iff.mp reading with ⟨text, sliced, same⟩
        split at same
        · cases same
        next word nonempty =>
          cases same
          have whole := congrArg byteLength
            (List.takeWhile_append_dropWhile (p := fun next => !isDelimiter next) (l := text))
          rw [byteLength_append] at whole
          have size := byteLength_of_slice? sliced
          exact .inl (by omega)

/-- One call keeps the offset within bounds. -/
theorem reaches_of_call? {limit next : Nat} {answer : Option (Nat × Except Rejection Item)}
    (ends : stop ≤ limit) (reaches : pairing.Reaches query limit position)
    (called : call? query pairing stop position = some (answer, next)) :
    pairing.Reaches query limit next := by
  rcases Option.bind_eq_some_iff.mp called with ⟨turn, turned, same⟩
  cases turn with
  | «over» =>
      rcases Option.map_eq_some_iff.mp same with ⟨offset, skipped, landed⟩
      cases landed
      rcases eq_or_le_of_skipBlanks? skipped with rfl | inside
      · exact reaches
      · exact .inl (inside.trans ends)
  | item start item further =>
      cases same
      rcases Option.bind_eq_some_iff.mp turned with ⟨offset, _, found⟩
      split at found
      · exact (reaches_of_read? found).imp_left fun inside => inside.trans ends
      · cases found

theorem reaches_of_calls? {limit count reached : Nat}
    {answers : List (Option (Nat × Except Rejection Item))} (ends : stop ≤ limit)
    (reaches : pairing.Reaches query limit position)
    (called : calls? query pairing stop count position = some (answers, reached)) :
    pairing.Reaches query limit reached := by
  induction count generalizing position answers with
  | zero =>
      cases called
      exact reaches
  | succ count ih =>
      rcases Option.bind_eq_some_iff.mp called with ⟨⟨answer, next⟩, first, rest⟩
      rcases Option.map_eq_some_iff.mp rest with ⟨⟨others, last⟩, further, same⟩
      cases same
      exact ih (reaches_of_call? ends reaches first) further

end ByteScan

/-! ## Items one behind the other -/

namespace Place

variable {query : List Char} {pairing : Pairing} {start stop : Nat} {place : Place}

/-- What stands at the start of a place stands in the query. -/
theorem Within.standsAt (within : place.Within query stop) {c : Char} {rest : List Char}
    (begins : place.text = c :: rest) : StandsAt query c place.offset := by
  rcases within.located with ⟨before, after, whole, size⟩
  refine ⟨before, rest ++ after, ?_, size⟩
  rw [whole, begins, List.append_assoc, List.cons_append]

/-- What is found at a place of the query takes the scanner further. -/
theorem Within.progresses_next (within : place.Within query stop) :
    (place.next pairing).Progresses query pairing stop place.offset := by
  rcases skipBlanks_split place.offset place.text with ⟨gap, _, _, located, _⟩
  have landed := within.skipBlanks?.2
  rw [next]
  generalize skipBlanks place.offset place.text = begin at located landed
  have inside := landed.lt_stop_iff
  rcases begin with ⟨offset, _ | ⟨c, rest⟩⟩
  · trivial
  have later : place.offset ≤ offset := Nat.le.intro located
  have before : offset < stop := inside.mpr (List.cons_ne_nil c rest)
  have stands := landed.standsAt rfl
  simp only [read]
  split
  next opening =>
    rw [opening] at stands
    split
    next missing => exact ⟨later, before, .inl ⟨stands, missing⟩⟩
    next closing paired => exact ⟨later, before, rfl⟩
  next =>
    split
    next closing =>
      rw [closing] at stands
      exact ⟨later, before, .inr stands⟩
    next =>
      have positive := c.utf8Size_pos
      refine ⟨later, before, ?_⟩
      simp only [byteLength]
      omega

/-- A range between two boundaries lies in the query, or there is nothing in it. -/
theorem continues_ofRange (begins : IsBoundary query start) (ends : IsBoundary query stop) :
    (ofRange query start stop).Continues query stop := by
  rcases begins with ⟨front, back, rfl, rfl⟩
  rcases ends with ⟨first, behind, same, rfl⟩
  rcases Nat.le_total (byteLength front) (byteLength first) with ordered | reversed
  · rcases exists_between same ordered with ⟨text, rfl, rfl⟩
    rw [byteLength_append, ← List.append_assoc, ofRange_append]
    exact .inl ⟨⟨front, behind, rfl, rfl⟩, rfl⟩
  · rw [ofRange, Nat.sub_eq_zero_of_le reversed, takeBytes_zero]
    exact .inr ⟨reversed, rfl⟩

end Place

/-- If all pairs lead forwards, the items of a range advance. -/
theorem advances_locatedFrom {query : List Char} {pairing : Pairing} {stop : Nat} {place : Place}
    (forward : pairing.LeadsForward query) (continues : place.Continues query stop) (range : Range)
    (unused : List Nat) :
    Advances query pairing stop place.offset (range.locatedFrom pairing unused place) := by
  induction length : place.text.length using Nat.strongRecOn generalizing place with
  | ind count ih =>
      subst length
      rcases continues with within | ⟨_, nothing⟩
      · have progresses : (place.next pairing).Progresses query pairing stop place.offset :=
          within.progresses_next
        cases found : place.next pairing with
        | finished =>
            rw [Range.locatedFrom_of_finished found]
            exact .finished
        | stray offset =>
            rw [found] at progresses
            rw [Range.locatedFrom_of_stray found]
            exact .stray progresses.1 progresses.2.1 progresses.2.2
        | word start text after =>
            rw [found] at progresses
            rcases progresses with ⟨later, inside, further⟩
            rw [Range.locatedFrom_of_word found]
            exact .item later inside further (ih _ (Place.length_lt_of_next_word found)
              (.inl (within.after_word found)) rfl)
        | group opening closing inner after =>
            rw [found] at progresses
            rcases progresses with ⟨later, inside, goesOn⟩
            rcases within.after_group forward found with ⟨ordered, continues⟩
            rw [Range.locatedFrom_of_group found ordered]
            exact .item later inside (by omega)
              (ih _ (Place.length_lt_of_next_group found).2 continues rfl)
      · rw [Range.locatedFrom_of_finished (by rw [Place.next, nothing]; rfl)]
        exact .finished

namespace Advances

variable {query : List Char} {pairing : Pairing} {stop position : Nat}
  {items : List (Nat × Except Rejection Item)}

theorem le_start (advances : Advances query pairing stop position items) :
    ∀ found ∈ items, position ≤ found.1 := by
  induction advances with
  | finished =>
      intro found member
      cases member
  | stray later =>
      intro found member
      rw [List.mem_singleton.mp member]
      exact later
  | item later _ further _ ih =>
      refine List.forall_mem_cons.mpr ⟨later, fun found member => ?_⟩
      have behind := ih found member
      omega

theorem increasing (advances : Advances query pairing stop position items) :
    items.Pairwise fun first second => first.1 < second.1 := by
  induction advances with
  | finished => exact .nil
  | stray => exact List.pairwise_singleton _ _
  | item _ _ further tail ih =>
      exact .cons (fun found member => Nat.lt_of_lt_of_le further (tail.le_start found member)) ih

/-- Each item takes a byte of the range at least. -/
theorem length_le (advances : Advances query pairing stop position items) :
    items.length ≤ stop - position := by
  induction advances with
  | finished => exact Nat.zero_le _
  | stray later inside =>
      rw [List.length_singleton]
      omega
  | item later inside further _ ih =>
      rw [List.length_cons]
      omega

/-- A rejection is that of a parenthesis without partner, and nothing follows it. -/
theorem of_error (advances : Advances query pairing stop position items) {number place : Nat}
    {rejection : Rejection} (found : items[number]? = some (place, .error rejection)) :
    number + 1 = items.length ∧ rejection = .unbalancedParenthesis place ∧
      pairing.Unpaired query place := by
  induction advances generalizing number with
  | finished => cases found
  | stray _ _ unpaired =>
      cases number with
      | zero =>
          cases found
          exact ⟨rfl, rfl, unpaired⟩
      | succ number => cases found
  | item _ _ _ _ ih =>
      cases number with
      | zero => cases found
      | succ number =>
          rcases ih found with ⟨last, rest⟩
          exact ⟨congrArg (· + 1) last, rest⟩

end Advances

/-- A group that is closed behind the range is given, and nothing is looked up behind it. -/
example :
    ByteScan.calls? "é (µ x".toList ⟨[(3, 6)]⟩ 4 3 0 =
      some ([some (0, .ok (.word "é")), some (3, .ok (.group 3 6)), none], 7) := by
  decide +kernel

/-- Nothing is behind the largest offset, and a call that would have to go on there misses. -/
example : ByteScan.call? "(".toList ⟨[(0, 2 ^ 64 - 1)]⟩ 1 0 = none := by decide +kernel

end FilterQuery
