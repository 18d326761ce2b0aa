import FilterQuery.Configuration.Yaml.Token
import FilterQuery.Proofs.NodeText

namespace FilterQuery

open Text

/-!
# Cutting the text of a node into YAML tokens

The text of a node is YAML in flow style, on one line.  Most of what a scan keeps is there for other
texts: no column is noted inside flow style, nothing has to become a key, and no candidate expires
before its colon.  `Flowing` says so, together with the text that is left and the tokens that have
been cut off, and every token of the text leads from one such scan to the next.

A string is one token whether it names an entry or is a value.  Which of them it is shows at the
colon behind it.  The string is the last token by then, so the mark of a key is put right before
it.  From these steps the tokens of a node follow by induction, as `nodeTokens` lists them.
-/

namespace Configuration

namespace Yaml

/-! ## Strings -/

namespace Cursor

variable {cursor : Cursor}

theorem past_past (cursor : Cursor) (first second : Nat) :
    (cursor.past first).past second = cursor.past (first + second) := by
  simp only [past, List.drop_drop, Nat.add_assoc]

/-- Past the front of the text, what is behind it is left. -/
theorem text_past {front rest : List Char} (here : cursor.text = front ++ rest) :
    (cursor.past front.length).text = rest := by
  rw [past, here]
  exact List.drop_left

theorem text_past_one {c : Char} {rest : List Char} (here : cursor.text = c :: rest) :
    (cursor.past 1).text = rest :=
  @text_past _ [c] rest here

/-- Where something else has been on the line, blanks are like other characters. -/
theorem pastBlanks_eq_past (behind : cursor.fresh = false) (count : Nat) :
    cursor.pastBlanks count = cursor.past count := by
  rw [pastBlanks, past, behind]

theorem past_zero (behind : cursor.fresh = false) : cursor.past 0 = cursor := by
  rw [past, ← behind]
  rfl

/-- Markers stand at the start of a line only. -/
theorem atMarker_eq_false (behind : 0 < cursor.column) : cursor.atMarker = false := by
  have column : (cursor.column == 0) = false := beq_false_of_ne (Nat.ne_of_gt behind)
  simp only [atMarker, isMarker, column, Bool.false_and, Bool.or_self]

/-- Behind an indicator there may be nothing to skip. -/
theorem skipComment?_of_visible
    (visible : ∀ c ∈ cursor.text.head?, isSpace c = false ∧ c ≠ '#') :
    cursor.skipComment? isSpace = some ([], cursor) := by
  rcases cursor with ⟨_ | ⟨c, rest⟩, line, column, offset, fresh⟩
  · rfl
  · rcases visible c rfl with ⟨unspaced, uncommented⟩
    simp only [skipComment?, List.takeWhile_cons, unspaced, Bool.false_eq_true, if_false,
      List.length_nil, pastBlanks, List.drop_zero, Nat.add_zero]
    split
    next same =>
      cases same
      exact absurd rfl uncommented
    next => rfl

end Cursor

/-- A written character is read, and what has been read is longer by it. -/
theorem quotedFrom?_escaped {c : Char} {text rest content held : List Char} {cursor : Cursor}
    (escaped : EscapedAs c text) (here : cursor.text = text ++ rest) (behind : 0 < cursor.column)
    (inside : cursor.fresh = false) :
    ∃ read blanks, read.reverse ++ blanks = (content.reverse ++ held) ++ [c] ∧
      quotedFrom? '"' (-1) content (.blanks held) cursor =
        quotedFrom? '"' (-1) read (.blanks blanks) (cursor.past text.length) := by
  have notMarked : cursor.atMarker = false := Cursor.atMarker_eq_false behind
  have indented : ¬(cursor.column : Int) < -1 := by omega
  cases escaped with
  | letter letter json yaml plain width visible =>
      refine ⟨c :: (held.reverse ++ content), [], by simp, ?_⟩
      rw [quotedFrom?]
      split
      next found =>
        rw [here] at found
        cases found
      next found =>
        rw [here] at found
        cases found
        have onLine : letter ≠ '\n' := by
          rintro rfl
          exact absurd visible (by decide)
        simp [isSpace, notMarked, indented, onLine, escape?, width, yaml, Gap.joint, Gap.empty]
  | code high low reads visible =>
      refine ⟨c :: (held.reverse ++ content), [], by simp, ?_⟩
      rw [quotedFrom?]
      split
      next found =>
        rw [here] at found
        cases found
      next found =>
        rw [here] at found
        cases found
        have valid : c.toNat.isValidChar := c.valid
        simp [isSpace, notMarked, indented, escape?, codeWidth?, reads, valid, Gap.joint, Gap.empty]
  | plain unquoted unescaped visible =>
      have onLine : c ≠ '\n' := by
        rintro rfl
        exact absurd visible (by decide)
      rw [quotedFrom?]
      split
      next found =>
        rw [here] at found
        cases found
      next found =>
        rw [here] at found
        cases found
        by_cases blank : isSpace c = true
        · refine ⟨content, held ++ [c], by simp, ?_⟩
          simp only [if_neg onLine, if_pos blank, Cursor.pastBlanks_eq_past inside,
            List.length_singleton]
        · refine ⟨c :: (held.reverse ++ content), [], by simp, ?_⟩
          simp [onLine, blank, notMarked, indented, unquoted, unescaped, Gap.joint, Gap.empty]

/-- A string is read up to its closing quote. -/
theorem quotedFrom?_flatMap (characters : List Char) {rest content held : List Char}
    {cursor : Cursor}
    (here : cursor.text = characters.flatMap FilterQuery.Json.escapeChar ++ '"' :: rest)
    (behind : 0 < cursor.column) (inside : cursor.fresh = false) :
    quotedFrom? '"' (-1) content (.blanks held) cursor =
      some ⟨content.reverse ++ held ++ characters,
        cursor.past ((characters.flatMap FilterQuery.Json.escapeChar).length + 1), false⟩ := by
  induction characters generalizing content held cursor with
  | nil =>
      have notMarked : cursor.atMarker = false := Cursor.atMarker_eq_false behind
      have indented : ¬(cursor.column : Int) < -1 := by omega
      rw [quotedFrom?]
      split
      next found =>
        rw [here] at found
        cases found
      next found =>
        rw [here] at found
        cases found
        simp [isSpace, notMarked, indented, Gap.joint]
  | cons c characters ih =>
      rw [List.flatMap_cons, List.append_assoc] at here
      rcases @quotedFrom?_escaped c _ _ content held cursor (escapedAs_escapeChar c) here behind
        inside with ⟨read, blanks, longer, step⟩
      rw [step, ih _ _ rfl, longer, Cursor.past_past, List.flatMap_cons, List.length_append,
        Nat.add_assoc, List.append_assoc, List.singleton_append]
      · exact Cursor.text_past here
      · exact Nat.lt_of_lt_of_le behind (Nat.le_add_right _ _)

/-- In flow style a string ends before whatever may follow it there. -/
theorem quoted?_quoted (content : String) {stop : Char} {rest : List Char} {cursor : Cursor}
    (here : cursor.text = FilterQuery.Json.quoted content ++ stop :: rest)
    (stops : stop = ':' ∨ stop = ',' ∨ stop = '\x7d') :
    quoted? (-1) true cursor =
      some ⟨content.toList, cursor.past (FilterQuery.Json.quoted content).length, false⟩ := by
  have start : cursor.text =
      '"' :: (content.toList.flatMap FilterQuery.Json.escapeChar ++ '"' :: stop :: rest) := by
    simp [here, FilterQuery.Json.quoted]
  have found : quotedFrom? '"' (-1) [] (.blanks []) (cursor.past 1) =
      some ⟨content.toList, (cursor.past 1).past
        ((content.toList.flatMap FilterQuery.Json.escapeChar).length + 1), false⟩ :=
    quotedFrom?_flatMap content.toList (Cursor.text_past_one start) (Nat.succ_pos _) rfl
  have length : 1 + ((content.toList.flatMap FilterQuery.Json.escapeChar).length + 1) =
      (FilterQuery.Json.quoted content).length := by
    simp only [FilterQuery.Json.quoted, List.length_append, List.length_cons, List.length_nil]
    omega
  rw [Cursor.past_past, length] at found
  have behind : (cursor.past (FilterQuery.Json.quoted content).length).text = stop :: rest :=
    Cursor.text_past here
  have skipped : (cursor.past (FilterQuery.Json.quoted content).length).skipComment? isSpace =
      some ([], cursor.past (FilterQuery.Json.quoted content).length) := by
    apply Cursor.skipComment?_of_visible
    rw [behind]
    rintro c ⟨⟩
    rcases stops with rfl | rfl | rfl <;> decide
  have quote : cursor.text.head? = some '"' := by
    rw [here]
    rfl
  rw [quoted?, quote]
  simp only [Option.bind_eq_bind, Option.bind_some, Gap.empty, found, skipped, behind]
  rcases stops with rfl | rfl | rfl <;> simp

/-! ## Words -/

namespace Cursor

variable {cursor : Cursor} {c : Char} {rest : List Char}

/-- A marker is made of dashes or of dots. -/
theorem isMarker_eq_false (here : cursor.text = c :: rest) (dash : c ≠ '-') (dot : c ≠ '.') :
    cursor.isMarker "---" = false ∧ cursor.isMarker "..." = false := by
  rw [isMarker, isMarker, here]
  have dashes : "---".toList = ['-', '-', '-'] := rfl
  have dots : "...".toList = ['.', '.', '.'] := rfl
  simp [dashes, dots, List.isPrefixOf, Ne.symm dash, Ne.symm dot]

end Cursor

/-- A word of letters goes on to the next character of the flow style. -/
theorem plainFrom?_letters {word content : List Char} {stop : Char} {rest : List Char}
    {indent : Int} {cursor : Cursor} (letters : ∀ c ∈ word, c.isAlpha = true)
    (here : cursor.text = word ++ stop :: rest) (stops : stop = ',' ∨ stop = '\x7d')
    (inside : cursor.fresh = false) (begun : content ≠ [] ∨ word ≠ []) :
    plainFrom? indent true content .empty cursor =
      some ⟨content.reverse ++ word, cursor.past word.length, false⟩ := by
  induction word generalizing content cursor with
  | nil =>
      have begun : content ≠ [] := begun.resolve_right (not_not_intro rfl)
      rw [plainFrom?]
      split
      next found =>
        rw [here] at found
        cases found
      next found =>
        rw [here] at found
        cases found
        rcases stops with rfl | rfl
        all_goals
          simp [isSpace, begun, endsPlain, isFlow, plainBefore?, Gap.isBroken, Gap.empty,
            Cursor.past_zero inside]
  | cons c word ih =>
      rcases List.forall_mem_cons.mp letters with ⟨letter, others⟩
      have different (other : Char) (noLetter : other.isAlpha = false) : c ≠ other := by
        rintro rfl
        rw [letter] at noLetter
        cases noLetter
      have unmarked : cursor.atMarker = false := by
        rcases Cursor.isMarker_eq_false here (different '-' rfl) (different '.' rfl) with
          ⟨dashes, dots⟩
        rw [Cursor.atMarker, dashes, dots]
        rfl
      rw [plainFrom?]
      split
      next found =>
        rw [here] at found
        cases found
      next found =>
        rw [here] at found
        cases found
        simp [different '\n' rfl, isSpace, different ' ' rfl, different '\t' rfl, unmarked,
          different '#' rfl, refusesWord, different '-' rfl, endsPlain, different ':' rfl, isFlow,
          different ',' rfl, different '[' rfl, different ']' rfl, different '\x7b' rfl,
          different '\x7d' rfl, Gap.joint, Gap.empty]
        have behind : (cursor.past 1).text = word ++ stop :: rest := Cursor.text_past_one here
        have later := @ih (c :: content) _ others behind rfl (.inl (List.cons_ne_nil _ _))
        rw [Gap.empty, Cursor.past_past] at later
        rw [later, List.reverse_cons, List.append_assoc, List.singleton_append, Nat.add_comm]

/-! ## Tokens -/

/-- A scan that stands inside flow style, before a text and behind some tokens.  No column has been
noted, and nothing has to become a key. -/
structure Flowing (scan : Scan) (text : List Char) (depth : Nat) (keys : Bool)
    (tokens : List Token) : Prop where
  here : scan.cursor.text = text
  inside : 0 < depth → scan.cursor.fresh = false
  flows : scan.flows = List.replicate depth false
  levels : scan.levels = []
  keys : scan.keyAllowed = keys
  optional : ∀ candidate ∈ scan.candidates, candidate.any Candidate.required = false
  tokens : scan.tokens.reverse.flatten = tokens

namespace Scan

variable {scan after : Scan} {c : Char} {rest : List Char}

theorem toToken?_of_visible (here : scan.cursor.text = c :: rest) (spaced : isSpace c = false)
    (broken : c ≠ '\n') (comment : c ≠ '#') : scan.toToken? = some scan := by
  rw [toToken?, skipGap?]
  split
  next found =>
    rw [here] at found
    cases found
  next found =>
    rw [here] at found
    cases found
    simp [spaced, broken, comment]

theorem closeBeyond_of_levels (levels : scan.levels = []) (column : Int) :
    scan.closeBeyond column = scan := by
  rcases scan with ⟨cursor, tokens, candidates, keyAllowed, levels', flows, adjacentValue⟩
  cases levels
  rw [closeBeyond]
  split <;> rfl

theorem onBlock_of_levels (levels : scan.levels = []) : scan.onBlock = scan := by
  rcases scan with ⟨cursor, tokens, candidates, keyAllowed, levels', flows, adjacentValue⟩
  cases levels
  rfl

/-- What begins at a character that can be seen is the next token. -/
theorem readAll?_of_token? (here : scan.cursor.text = c :: rest) (spaced : isSpace c = false)
    (broken : c ≠ '\n') (comment : c ≠ '#') (levels : scan.levels = [])
    (kept : scan.inFlow = true ∨ scan.candidate? = none) (read : scan.token? = some after)
    (shorter : after.cursor.text.length < scan.cursor.text.length) :
    scan.readAll? = after.readAll? := by
  have kept : scan.expireCandidate? = some scan := by
    rw [expireCandidate?]
    rcases kept with inFlow | none
    · simp [inFlow]
    · simp [none]
  rw [readAll?, toToken?_of_visible here spaced broken comment, Option.bind_some, kept]
  simp only [closeBeyond_of_levels levels, read]
  rw [if_neg (by rw [here]; exact List.cons_ne_nil _ _), dif_pos shorter]

/-- A colon in a table makes the last token a key. -/
theorem value?_of_candidate {cursor : Cursor} {candidate : Candidate} {last : List Token}
    {others : List (List Token)} (colon : pastColon? scan.cursor = some cursor)
    (inFlow : scan.inFlow = true) (inTable : scan.flows.head? = some false)
    (levels : scan.levels = []) (noted : scan.candidate? = some candidate)
    (tokens : scan.tokens = last :: others) (position : candidate.position = others.length) :
    scan.value? = some { scan.withoutCandidate with
      cursor
      tokens := [.value] :: ([.key] ++ last) :: others
      keyAllowed := false } := by
  have inner : ({ scan with cursor } : Scan).inFlow = true := inFlow
  have settled : ({ scan with cursor } : Scan).indentBlock candidate.column =
      ({ scan with cursor }, false) := by
    rw [indentBlock, if_pos inner]
  rw [value?, colon]
  simp only [Option.bind_eq_bind, Option.bind_some, noted, inTable, settled]
  simp [insert, indentValue, levels, tokens, position, allowKeys, emit, Scan.withoutCandidate]

end Scan

/-- A text goes on with something that can be seen, and not with a comment. -/
def Shows (text : List Char) : Prop :=
  ∀ c ∈ text.head?, isSpace c = false ∧ c ≠ '#'

namespace Flowing

variable {scan : Scan} {rest : List Char} {depth : Nat} {keys : Bool} {tokens : List Token}
  {text : List Char}

theorem inFlow (flowing : Flowing scan text (depth + 1) keys tokens) :
    scan.inFlow = true := by
  simp [Scan.inFlow, flowing.flows]

theorem dropCandidate? (flowing : Flowing scan text depth keys tokens) :
    scan.dropCandidate? = some scan.withoutCandidate := by
  have optional : scan.candidate?.any Candidate.required = false := by
    rw [Scan.candidate?]
    cases same : scan.candidates with
    | nil => rfl
    | cons candidate others =>
        exact flowing.optional candidate (same ▸ List.mem_cons_self)
  rw [Scan.dropCandidate?, optional]
  rfl

/-- What is noted as a candidate need not become a key. -/
theorem noteCandidate (flowing : Flowing scan text depth keys tokens) :
    Flowing scan.noteCandidate text depth keys tokens := by
  rw [Scan.noteCandidate]
  split
  · refine ⟨flowing.here, flowing.inside, flowing.flows, flowing.levels, flowing.keys, ?_,
      flowing.tokens⟩
    refine List.forall_mem_cons.mpr ⟨?_, fun candidate member =>
      flowing.optional candidate (List.mem_of_mem_drop member)⟩
    simp [flowing.levels]
  · exact flowing

/-- An indicator is passed. -/
theorem pastIndicator? {c : Char} (here : scan.cursor.text = c :: rest) (shows : Shows rest) :
    scan.pastIndicator? = some ([], { scan with cursor := scan.cursor.past 1 }) := by
  have behind : (scan.cursor.past 1).text = rest := Cursor.text_past_one here
  have skipped : (scan.cursor.past 1).skipComment? isSpace = some ([], scan.cursor.past 1) :=
    Cursor.skipComment?_of_visible (behind ▸ shows)
  simp only [Scan.pastIndicator?, skipped, Option.bind_eq_bind, Option.bind_some]

theorem indent (flowing : Flowing scan text depth keys tokens) : scan.indent = -1 := by
  rw [Scan.indent, flowing.levels]

/-- Every column is indented far enough. -/
theorem column (flowing : Flowing scan text depth keys tokens) :
    ¬(scan.cursor.column : Int) < scan.indent := by
  rw [flowing.indent]
  omega

theorem openFlow?_eq (flowing : Flowing scan ('\x7b' :: rest) depth keys tokens)
    (shallow : depth < Scan.flowLimit) (shows : Shows rest) :
    scan.openFlow? false = some (({ scan.noteCandidate with
      cursor := scan.noteCandidate.cursor.past 1
      candidates := none :: scan.noteCandidate.candidates
      flows := false :: scan.noteCandidate.flows
      keyAllowed := true } : Scan).emit .flowMapping) := by
  have noted := flowing.noteCandidate
  have indented : scan.noteCandidate.indentValue = scan.noteCandidate := by
    rw [Scan.indentValue, noted.levels]
  have room : ¬Scan.flowLimit ≤ scan.flows.length := by
    rw [flowing.flows, List.length_replicate]
    omega
  let opened : Scan := { scan.noteCandidate with
    candidates := none :: scan.noteCandidate.candidates
    flows := false :: scan.noteCandidate.flows
    keyAllowed := true }
  have here : opened.cursor.text = '\x7b' :: rest := noted.here
  rw [Scan.openFlow?, if_neg room, indented]
  exact congrArg (Option.bind · fun step => some (step.2.emit .flowMapping))
    (pastIndicator? here shows)

/-- A table opens. -/
theorem opens (flowing : Flowing scan ('\x7b' :: rest) depth keys tokens)
    (kept : scan.inFlow = true ∨ scan.candidate? = none) (shallow : depth < Scan.flowLimit)
    (shows : Shows rest) :
    ∃ after, scan.readAll? = after.readAll? ∧
      Flowing after rest (depth + 1) true (tokens ++ [.flowMapping]) := by
  have noted := flowing.noteCandidate
  have markers := Cursor.isMarker_eq_false flowing.here (by decide) (by decide)
  have read : scan.token? = scan.openFlow? false := by
    rw [Scan.token?, flowing.here]
    simp [markers, flowing.column]
  rw [flowing.openFlow?_eq shallow shows] at read
  refine ⟨_, Scan.readAll?_of_token? flowing.here (by decide) (by decide) (by decide)
    flowing.levels kept read ?_, ?_, fun _ => rfl, ?_, noted.levels, rfl, ?_, ?_⟩
  · simp [Scan.emit, Cursor.past, noted.here, flowing.here]
  · simp [Scan.emit, Cursor.past, noted.here]
  · simp [Scan.emit, noted.flows, List.replicate_succ]
  · exact List.forall_mem_cons.mpr ⟨rfl, noted.optional⟩
  · simp [Scan.emit, noted.tokens]

/-- What need not become a key is given up. -/
theorem withoutCandidate (flowing : Flowing scan text depth keys tokens) :
    Flowing scan.withoutCandidate text depth keys tokens := by
  refine ⟨flowing.here, flowing.inside, flowing.flows, flowing.levels, flowing.keys, ?_,
    flowing.tokens⟩
  exact List.forall_mem_cons.mpr ⟨rfl, fun candidate member =>
    flowing.optional candidate (List.mem_of_mem_drop member)⟩

/-- A table is closed. -/
theorem closes (flowing : Flowing scan ('\x7d' :: rest) (depth + 1) keys tokens)
    (shows : Shows rest) :
    ∃ after, scan.readAll? = after.readAll? ∧
      Flowing after rest depth false (tokens ++ [.flowMappingEnd]) := by
  have given := flowing.withoutCandidate
  have markers := Cursor.isMarker_eq_false flowing.here (by decide) (by decide)
  have read : scan.token? = scan.closeFlow? .flowMappingEnd := by
    rw [Scan.token?, flowing.here]
    simp [markers, flowing.column]
  let closed : Scan := { scan.withoutCandidate with
    candidates := scan.withoutCandidate.candidates.drop 1
    flows := scan.withoutCandidate.flows.drop 1
    keyAllowed := false }
  have here : closed.cursor.text = '\x7d' :: rest := given.here
  have past := pastIndicator? here shows
  rw [Scan.closeFlow?, if_pos flowing.inFlow, flowing.dropCandidate?, Option.bind_eq_bind,
    Option.bind_some, past] at read
  refine ⟨_, Scan.readAll?_of_token? flowing.here (by decide) (by decide) (by decide)
    flowing.levels (.inl flowing.inFlow) read ?_, ?_, fun _ => rfl, ?_, given.levels, rfl, ?_, ?_⟩
  · simp [closed, Scan.emit, Cursor.past, given.here, flowing.here]
  · simp [closed, Scan.emit, Cursor.past, given.here]
  · simp [closed, Scan.emit, given.flows, List.replicate_succ]
  · exact fun candidate member => given.optional candidate (List.mem_of_mem_drop member)
  · simp [closed, Scan.emit, given.tokens]

/-- Two entries are separated. -/
theorem separates (flowing : Flowing scan (',' :: rest) (depth + 1) keys tokens)
    (shows : Shows rest) :
    ∃ after, scan.readAll? = after.readAll? ∧
      Flowing after rest (depth + 1) true (tokens ++ [.separator]) := by
  have given := flowing.withoutCandidate
  have markers := Cursor.isMarker_eq_false flowing.here (by decide) (by decide)
  have read : scan.token? = scan.separate? := by
    rw [Scan.token?, flowing.here]
    simp [markers, flowing.column]
  have past := pastIndicator? given.here shows
  rw [Scan.separate?, if_pos flowing.inFlow, flowing.dropCandidate?, Option.bind_eq_bind,
    Option.bind_some, past] at read
  refine ⟨_, Scan.readAll?_of_token? flowing.here (by decide) (by decide) (by decide)
    flowing.levels (.inl flowing.inFlow) read ?_, ?_, fun _ => rfl, ?_, given.levels, rfl, ?_, ?_⟩
  · simp [Scan.emit, Scan.allowKeys, Cursor.past, given.here, flowing.here]
  · simp [Scan.emit, Scan.allowKeys, Cursor.past, given.here]
  · exact given.flows
  · exact given.optional
  · simp [Scan.emit, Scan.allowKeys, given.tokens]

/-- The scan behind a string. -/
def behindText (scan : Scan) (content : String) : Scan :=
  let cursor := scan.cursor.past (FilterQuery.Json.quoted content).length
  ({ scan.noteCandidate with
    cursor := cursor
    keyAllowed := false
    adjacentValue := cursor.offset } : Scan).emit (.text content.toList)

theorem cursor_noteCandidate (scan : Scan) : scan.noteCandidate.cursor = scan.cursor := by
  rw [Scan.noteCandidate]
  split <;> rfl

theorem tokens_noteCandidate (scan : Scan) : scan.noteCandidate.tokens = scan.tokens := by
  rw [Scan.noteCandidate]
  split <;> rfl

variable {content : String} {stop : Char}

/-- A string is a token, whether it may become a key or not. -/
theorem readAll?_quoted
    (flowing : Flowing scan (FilterQuery.Json.quoted content ++ stop :: rest) (depth + 1) keys
      tokens)
    (stops : stop = ':' ∨ stop = ',' ∨ stop = '\x7d') :
    scan.readAll? = (behindText scan content).readAll? ∧
      Flowing (behindText scan content) (stop :: rest) (depth + 1) false
        (tokens ++ [.text content.toList]) := by
  have noted := flowing.noteCandidate
  have start : scan.cursor.text = '"' :: (content.toList.flatMap FilterQuery.Json.escapeChar ++
      ['"'] ++ stop :: rest) := flowing.here
  have markers := Cursor.isMarker_eq_false start (by decide) (by decide)
  have token : scan.token? = scan.quoted? := by
    rw [Scan.token?, start]
    simp [markers, flowing.column]
  have behind : (scan.cursor.past (FilterQuery.Json.quoted content).length).text = stop :: rest :=
    Cursor.text_past flowing.here
  have found := Yaml.quoted?_quoted content flowing.here stops
  have read : scan.token? = some (behindText scan content) := by
    have contents : (scan.content false).indent = -1 ∧ (scan.content false).inFlow = true ∧
        (scan.content false).cursor = scan.cursor :=
      ⟨noted.indent, noted.inFlow, cursor_noteCandidate scan⟩
    let ended : Scan := { scan.content false with
      cursor := scan.cursor.past (FilterQuery.Json.quoted content).length }
    have here : ended.cursor.text = stop :: rest := behind
    have next := Scan.toToken?_of_visible here (by rcases stops with rfl | rfl | rfl <;> rfl)
      (by rcases stops with rfl | rfl | rfl <;> decide)
      (by rcases stops with rfl | rfl | rfl <;> decide)
    rw [token, Scan.quoted?]
    simp only [contents, found, Option.bind_eq_bind, Option.bind_some]
    exact congrArg (Option.bind · _) next
  refine ⟨Scan.readAll?_of_token? start (by decide) (by decide) (by decide) flowing.levels
    (.inl flowing.inFlow) read ?_, behind, fun _ => rfl, noted.flows, noted.levels, rfl,
    noted.optional, ?_⟩
  · rw [behindText, Scan.emit]
    simp only [behind, flowing.here, List.length_append, List.length_cons]
    simp [FilterQuery.Json.quoted]
  · simp [behindText, Scan.emit, noted.tokens]

/-- The colon right behind a string makes it a key. -/
theorem names (flowing : Flowing scan (FilterQuery.Json.quoted content ++ ':' :: rest) (depth + 1)
    true tokens) (noTab : rest.head? ≠ some '\t') :
    ∃ after, scan.readAll? = after.readAll? ∧
      Flowing after rest (depth + 1) false (tokens ++ [.key, .text content.toList, .value]) := by
  rcases flowing.readAll?_quoted (.inl rfl) with ⟨step, behind⟩
  have markers := Cursor.isMarker_eq_false behind.here (by decide) (by decide)
  have adjacent : (behindText scan content).cursor.offset =
      (behindText scan content).adjacentValue := rfl
  have token : (behindText scan content).token? = (behindText scan content).value? := by
    rw [Scan.token?, behind.here]
    simp [markers, behind.column, behind.inFlow, adjacent]
  have past : ((behindText scan content).cursor.past 1).text = rest :=
    Cursor.text_past_one behind.here
  have colon : Scan.pastColon? (behindText scan content).cursor =
      some ((behindText scan content).cursor.past 1) := by
    rw [Scan.pastColon?]
    simp only [past, beq_eq_false_iff_ne.mpr noTab]
    rfl
  have noted : ∃ candidate, (behindText scan content).candidate? = some candidate ∧
      candidate.position = scan.tokens.length := by
    simp only [behindText, Scan.emit, Scan.candidate?, Scan.noteCandidate, flowing.keys]
    exact ⟨_, rfl, rfl⟩
  rcases noted with ⟨candidate, noted, position⟩
  have read : (behindText scan content).token? = some
      ({ (behindText scan content).withoutCandidate with
        cursor := (behindText scan content).cursor.past 1
        tokens := [.value] :: [.key, .text content.toList] :: scan.tokens
        keyAllowed := false } : Scan) := by
    rw [token]
    exact Scan.value?_of_candidate colon behind.inFlow (by rw [behind.flows]; rfl) behind.levels
      noted (congrArg (_ :: ·) (tokens_noteCandidate scan)) position
  refine ⟨_, step.trans (Scan.readAll?_of_token? behind.here (by decide) (by decide) (by decide)
    behind.levels (.inl behind.inFlow) read ?_), past, fun _ => rfl, behind.flows, behind.levels,
    rfl, behind.withoutCandidate.optional, ?_⟩
  · simp only [past, behind.here, List.length_cons]
    omega
  · have before : scan.tokens.reverse.flatten = tokens := flowing.tokens
    simp [before]

/-- A word of letters is a token. -/
theorem readAll?_word {c : Char} {word : List Char}
    (flowing : Flowing scan (c :: word ++ stop :: rest) (depth + 1) keys tokens)
    (letters : ∀ letter ∈ c :: word, letter.isAlpha = true) (stops : stop = ',' ∨ stop = '\x7d') :
    ∃ after, scan.readAll? = after.readAll? ∧
      Flowing after (stop :: rest) (depth + 1) false (tokens ++ [.plain (c :: word)]) := by
  have noted := flowing.noteCandidate
  have different (other : Char) (noLetter : other.isAlpha = false) : c ≠ other := by
    rintro rfl
    rw [letters c List.mem_cons_self] at noLetter
    cases noLetter
  have markers := Cursor.isMarker_eq_false flowing.here (different '-' rfl) (different '.' rfl)
  have percent : ¬(scan.cursor.column = 0 ∧ c = '%') := fun both => different '%' rfl both.2
  have token : scan.token? = scan.plain? := by
    rw [Scan.token?, flowing.here]
    simp only [List.cons_append, if_neg percent, markers, Bool.false_eq_true, if_false,
      if_neg flowing.column]
    split
    case h_19 => rfl
    all_goals
      refine (different _ ?_ rfl).elim
      rfl
  have found : plainFrom? 0 true [] .empty scan.cursor =
      some ⟨c :: word, scan.cursor.past (c :: word).length, false⟩ :=
    plainFrom?_letters letters flowing.here stops (flowing.inside (Nat.succ_pos _))
      (.inr (List.cons_ne_nil _ _))
  have contents : (scan.content false).onBlock = scan.content false :=
    Scan.onBlock_of_levels noted.levels
  have place : (scan.content false).indent = -1 ∧ (scan.content false).inFlow = true ∧
      (scan.content false).cursor = scan.cursor :=
    ⟨noted.indent, noted.inFlow, cursor_noteCandidate scan⟩
  have onward : Yaml.plain? (-1 + 1) true scan.cursor =
      some ⟨c :: word, scan.cursor.past (c :: word).length, false⟩ := by
    rw [Yaml.plain?, if_neg (by simp)]
    exact found
  have read : scan.token? = some (({ scan.noteCandidate with
      cursor := scan.cursor.past (c :: word).length
      keyAllowed := false } : Scan).emit (.plain (c :: word))) := by
    rw [token, Scan.plain?]
    simp only [contents, place, onward, Option.bind_eq_bind, Option.bind_some]
    rfl
  have behind : (scan.cursor.past (c :: word).length).text = stop :: rest :=
    Cursor.text_past flowing.here
  refine ⟨_, Scan.readAll?_of_token? flowing.here ?_ (different '\n' rfl) (different '#' rfl)
    flowing.levels (.inl flowing.inFlow) read ?_, behind, fun _ => rfl, noted.flows,
    noted.levels, rfl, noted.optional, ?_⟩
  · simp [isSpace, different ' ' rfl, different '\t' rfl]
  · change (scan.cursor.past (c :: word).length).text.length < scan.cursor.text.length
    have shorter := congrArg List.length behind
    have longer := congrArg List.length flowing.here
    simp only [List.length_append, List.length_cons] at shorter longer ⊢
    omega
  · simp [Scan.emit, noted.tokens]

end Flowing

/-! ## The tokens of a node -/

mutual

/-- The tokens of a node. -/
def nodeTokens : Node → List Token
  | .boolean true => [.plain "true".toList]
  | .boolean false => [.plain "false".toList]
  | .text content => [.text content.toList]
  | .table entries => .flowMapping :: entryTokens entries ++ [.flowMappingEnd]
  | _ => [.plain "null".toList]

/-- The tokens of entries. -/
def entryTokens : List (String × Node) → List Token
  | [] => []
  | [(name, node)] => .key :: .text name.toList :: .value :: nodeTokens node
  | (name, node) :: next :: rest =>
    .key :: .text name.toList :: .value :: nodeTokens node ++
      .separator :: entryTokens (next :: rest)

end

/-- What begins with a character that can be seen. -/
theorem Shows.cons {c : Char} {rest : List Char} (seen : isSpace c = false) (plain : c ≠ '#') :
    Shows (c :: rest) := by
  rintro _ ⟨⟩
  exact ⟨seen, plain⟩

/-- Neither the text of a node nor that of entries begins with a blank. -/
theorem shows_json (node : Node) (rest : List Char) : Shows (node.json ++ rest) := by
  cases node with
  | boolean value => cases value <;> exact Shows.cons rfl (by decide)
  | null | integer | real | text | list | table => exact Shows.cons rfl (by decide)

theorem shows_jsonEntries (entries : List (String × Node)) (rest : List Char) :
    Shows (Node.jsonEntries entries ++ '\x7d' :: rest) := by
  rcases entries with _ | ⟨entry, _ | _⟩ <;> exact Shows.cons rfl (by decide)

theorem Shows.head?_ne {text : List Char} (shows : Shows text) : text.head? ≠ some '\t' := by
  intro tab
  cases (shows '\t' tab).1

namespace Flowing

/-- A table is cut into its tokens if its entries are. -/
theorem readAll?_table {scan : Scan} {depth : Nat} {keys : Bool} {tokens : List Token}
    {entries : List (String × Node)} {rest : List Char}
    (flowing : Flowing scan (Node.json (.table entries) ++ rest) depth keys tokens)
    (kept : scan.inFlow = true ∨ scan.candidate? = none) (shallow : depth < Scan.flowLimit)
    (shows : Shows rest)
    (fills : ∀ {opened : Scan} {before : List Token},
      Flowing opened (Node.jsonEntries entries ++ '\x7d' :: rest) (depth + 1) true before →
        ∃ filled last, opened.readAll? = filled.readAll? ∧
          Flowing filled ('\x7d' :: rest) (depth + 1) last (before ++ entryTokens entries)) :
    ∃ after, scan.readAll? = after.readAll? ∧
      Flowing after rest depth false (tokens ++ nodeTokens (.table entries)) := by
  have text : Node.json (.table entries) ++ rest =
      '\x7b' :: (Node.jsonEntries entries ++ '\x7d' :: rest) := by
    simp [Node.json]
  rw [text] at flowing
  rcases flowing.opens kept shallow (shows_jsonEntries entries rest) with ⟨opened, first, inside⟩
  rcases fills inside with ⟨filled, last, second, full⟩
  rcases full.closes shows with ⟨closed, third, behind⟩
  refine ⟨closed, first.trans (second.trans third), ?_⟩
  rw [nodeTokens, List.cons_append, List.append_cons, ← List.append_assoc]
  exact behind

mutual

/-- A node in a table is cut into its tokens. -/
theorem readAll?_json : (node : Node) → ∀ {room depth : Nat} {scan : Scan} {stop : Char}
    {rest : List Char} {tokens : List Token}, node.Written room →
      depth + 1 + room ≤ Scan.flowLimit → stop = ',' ∨ stop = '\x7d' →
      Flowing scan (node.json ++ stop :: rest) (depth + 1) false tokens →
        ∃ after, scan.readAll? = after.readAll? ∧
          Flowing after (stop :: rest) (depth + 1) false (tokens ++ nodeTokens node)
  | .null, _, _, _, _, _, _, _, _, stops, flowing =>
      flowing.readAll?_word (List.all_eq_true.mp (by decide)) stops
  | .boolean true, _, _, _, _, _, _, _, _, stops, flowing =>
      flowing.readAll?_word (List.all_eq_true.mp (by decide)) stops
  | .boolean false, _, _, _, _, _, _, _, _, stops, flowing =>
      flowing.readAll?_word (List.all_eq_true.mp (by decide)) stops
  | .text content, _, _, _, _, _, _, _, _, stops, flowing =>
      ⟨_, flowing.readAll?_quoted (.inr stops)⟩
  | .table entries, _, _, _, stop, rest, _, ⟨_, nested, written⟩, shallow, stops, flowing => by
      have seen : Shows (stop :: rest) := by
        rcases stops with rfl | rfl <;> exact Shows.cons rfl (by decide)
      exact flowing.readAll?_table (.inl flowing.inFlow) (by omega) seen
        (readAll?_jsonEntries entries written (by omega))

/-- So are the entries of a table. -/
theorem readAll?_jsonEntries : (entries : List (String × Node)) →
    ∀ {room depth : Nat} {scan : Scan} {rest : List Char} {tokens : List Token},
      Node.WrittenEntries room entries → depth + 1 + room ≤ Scan.flowLimit →
      Flowing scan (Node.jsonEntries entries ++ '\x7d' :: rest) (depth + 1) true tokens →
        ∃ after last, scan.readAll? = after.readAll? ∧
          Flowing after ('\x7d' :: rest) (depth + 1) last (tokens ++ entryTokens entries)
  | [], _, _, scan, _, tokens, _, _, flowing => by
      refine ⟨scan, true, rfl, ?_⟩
      rw [entryTokens, List.append_nil]
      exact flowing
  | [(name, node)], _, _, _, _, _, ⟨_, written, _⟩, shallow, flowing => by
      rw [Node.jsonEntries, List.append_assoc, List.cons_append] at flowing
      rcases flowing.names (shows_json node _).head?_ne with ⟨named, first, value⟩
      rcases readAll?_json node written shallow (.inr rfl) value with ⟨read, second, behind⟩
      refine ⟨read, false, first.trans second, ?_⟩
      rw [List.append_assoc] at behind
      exact behind
  | (name, node) :: next :: others, _, _, _, rest, _, ⟨_, written, further⟩, shallow, flowing => by
      have text : Node.jsonEntries ((name, node) :: next :: others) ++ '\x7d' :: rest =
          FilterQuery.Json.quoted name ++ ':' :: (node.json ++
            ',' :: (Node.jsonEntries (next :: others) ++ '\x7d' :: rest)) := by
        simp [Node.jsonEntries]
      rw [text] at flowing
      rcases flowing.names (shows_json node _).head?_ne with ⟨named, first, value⟩
      rcases readAll?_json node written shallow (.inl rfl) value with ⟨read, second, before⟩
      rcases before.separates (shows_jsonEntries (next :: others) _) with ⟨separated, third, onward⟩
      rcases readAll?_jsonEntries (next :: others) further shallow onward with
        ⟨after, last, fourth, behind⟩
      refine ⟨after, last, first.trans (second.trans (third.trans fourth)), ?_⟩
      simp only [List.append_assoc, List.singleton_append] at behind
      rw [entryTokens]
      exact behind

end

/-- At the end of the text the tokens are all there. -/
theorem finishes {scan : Scan} {keys : Bool} {tokens : List Token}
    (flowing : Flowing scan [] 0 keys tokens) : scan.readAll? = some tokens := by
  have here : scan.toToken? = some scan := by
    rw [Scan.toToken?, Scan.skipGap?]
    split
    next => simp
    next found =>
      rw [flowing.here] at found
      cases found
  have kept : ∃ ready, scan.expireCandidate? = some ready ∧ Flowing ready [] 0 keys tokens := by
    rw [Scan.expireCandidate?]
    split
    · exact ⟨_, flowing.dropCandidate?, flowing.withoutCandidate⟩
    · exact ⟨_, rfl, flowing⟩
  rcases kept with ⟨ready, kept, ends⟩
  have optional :
      ready.candidates.any (fun candidate => candidate.any Candidate.required) = false := by
    rw [List.any_eq_false]
    intro candidate member
    rw [ends.optional candidate member]
    exact Bool.false_ne_true
  rw [Scan.readAll?, here, Option.bind_some, kept]
  simp only [Scan.closeBeyond_of_levels ends.levels, ends.here, if_true]
  rw [Scan.finish?, optional, Scan.closeBeyond_of_levels ends.levels, ends.tokens]
  rfl

end Flowing

/-- A table is cut into its tokens. -/
theorem ofText?_json {entries : List (String × Node)} {room : Nat}
    (written : (Node.table entries).Written room) (shallow : room ≤ Scan.flowLimit) :
    Token.ofText? (Node.table entries).json = some (nodeTokens (.table entries)) := by
  rcases written with ⟨inner, nested, written⟩
  have start (text : List Char) : Flowing (Scan.start text) text 0 true [] :=
    ⟨rfl, fun impossible => absurd impossible (Nat.lt_irrefl 0), rfl, rfl, rfl,
      List.forall_mem_singleton.mpr rfl, rfl⟩
  have nothing : Shows [] := by
    rintro _ ⟨⟩
  have begun := start ((Node.table entries).json)
  rw [← List.append_nil (Node.json _)] at begun
  rcases begun.readAll?_table (.inr rfl) (by decide) nothing
    (Flowing.readAll?_jsonEntries entries written (by omega)) with ⟨after, read, behind⟩
  rw [List.append_nil] at read
  rw [Token.ofText?, read, behind.finishes, List.nil_append]

end Yaml

end Configuration

end FilterQuery
