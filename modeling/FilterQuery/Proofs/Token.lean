import FilterQuery.Scan

namespace FilterQuery

open Text

/-!
# The tokens of a text

A text is a sequence of words and single parentheses, with blanks that separate
words and mean nothing else.  The sequence is taken from the text alone: no
pairing is consulted, and parentheses need not match.  It is what a filter says
apart from its layout, so the grammar of filters is stated on it.

The words of a text are its tokens without the parentheses.  `words` is defined
apart from tokens, by one fold from the end of the text, and the agreement of the
two is proved here.
-/

/-- A word, or one parenthesis. -/
inductive Token where
  | word (text : String)
  | opening
  | closing
  deriving DecidableEq, Repr

namespace Token

/-- The tokens of a text in order.  A word is a maximal run of characters that
are no delimiters. -/
def ofText : List Char → List Token
  | [] => []
  | c :: rest =>
    if isBlank c then ofText rest
    else if c = '(' then opening :: ofText rest
    else if c = ')' then closing :: ofText rest
    else
      word (String.ofList (c :: rest.takeWhile fun next => !isDelimiter next)) ::
        ofText (rest.dropWhile fun next => !isDelimiter next)
termination_by text => text.length
decreasing_by
  · exact Nat.lt_succ_self _
  · exact Nat.lt_succ_self _
  · exact Nat.lt_succ_self _
  · exact Nat.lt_succ_of_le (List.dropWhile_sublist _).length_le

/-- The text of a word, and nothing for a parenthesis. -/
def word? : Token → Option String
  | word text => some text
  | _ => none

/-- The parentheses of a token as characters: one or none. -/
def parentheses : Token → List Char
  | word _ => []
  | opening => ['(']
  | closing => [')']

end Token

/-- A character that a word can hold is none of the delimiters. -/
theorem isDelimiter_eq_false_iff {c : Char} :
    isDelimiter c = false ↔ isBlank c = false ∧ c ≠ '(' ∧ c ≠ ')' := by
  simp only [isDelimiter, Bool.or_eq_false_iff, beq_eq_false_iff_ne, and_assoc]

namespace Token

@[simp]
theorem ofText_nil : ofText [] = [] := by
  rw [ofText]

theorem ofText_cons_blank {c : Char} (blank : isBlank c = true) (rest : List Char) :
    ofText (c :: rest) = ofText rest := by
  rw [ofText, if_pos blank]

@[simp]
theorem ofText_cons_opening (rest : List Char) :
    ofText ('(' :: rest) = opening :: ofText rest := by
  rw [ofText, if_neg (by decide), if_pos rfl]

@[simp]
theorem ofText_cons_closing (rest : List Char) :
    ofText (')' :: rest) = closing :: ofText rest := by
  rw [ofText, if_neg (by decide), if_neg (by decide), if_pos rfl]

theorem ofText_cons_word {c : Char} (inWord : isDelimiter c = false) (rest : List Char) :
    ofText (c :: rest) =
      word (String.ofList (c :: rest.takeWhile fun next => !isDelimiter next)) ::
        ofText (rest.dropWhile fun next => !isDelimiter next) := by
  rcases isDelimiter_eq_false_iff.mp inWord with ⟨notBlank, notOpening, notClosing⟩
  rw [ofText, if_neg (by simp [notBlank]), if_neg notOpening, if_neg notClosing]

/-! ## Texts put together at a delimiter -/

/-- The word at the end of a text does not reach over a delimiter. -/
theorem takeWhile_append_delimiter (front : List Char) {d : Char}
    (delimiter : isDelimiter d = true) (rest : List Char) :
    (front ++ d :: rest).takeWhile (fun next => !isDelimiter next) =
      front.takeWhile fun next => !isDelimiter next := by
  induction front with
  | nil =>
      rw [List.nil_append, List.takeWhile_cons_of_neg (by simp [delimiter]), List.takeWhile_nil]
  | cons c more ih => rw [List.cons_append, List.takeWhile_cons, List.takeWhile_cons, ih]

theorem dropWhile_append_delimiter (front : List Char) {d : Char}
    (delimiter : isDelimiter d = true) (rest : List Char) :
    (front ++ d :: rest).dropWhile (fun next => !isDelimiter next) =
      (front.dropWhile fun next => !isDelimiter next) ++ d :: rest := by
  induction front with
  | nil =>
      rw [List.nil_append, List.dropWhile_cons_of_neg (by simp [delimiter]), List.dropWhile_nil,
        List.nil_append]
  | cons c more ih =>
      rw [List.cons_append, List.dropWhile_cons, List.dropWhile_cons, ih]
      split <;> rfl

/-- Texts can be read apart where one begins with a delimiter. -/
theorem ofText_append_delimiter (front : List Char) {d : Char}
    (delimiter : isDelimiter d = true) (rest : List Char) :
    ofText (front ++ d :: rest) = ofText front ++ ofText (d :: rest) := by
  fun_induction ofText front with
  | case1 => rfl
  | case2 c more blank ih => rw [List.cons_append, ofText_cons_blank blank, ih]
  | case3 more _ ih => rw [List.cons_append, ofText_cons_opening, ih, List.cons_append]
  | case4 more _ _ ih => rw [List.cons_append, ofText_cons_closing, ih, List.cons_append]
  | case5 c more notBlank notOpening notClosing ih =>
      have inWord : isDelimiter c = false :=
        isDelimiter_eq_false_iff.mpr ⟨(Bool.not_eq_true _).mp notBlank, notOpening, notClosing⟩
      rw [List.cons_append, ofText_cons_word inWord, takeWhile_append_delimiter more delimiter,
        dropWhile_append_delimiter more delimiter, ih, List.cons_append]

/-! ## Texts that are words -/

end Token

/-- A text that is one word wherever it stands between delimiters. -/
def IsWord (text : String) : Prop :=
  text.toList ≠ [] ∧ ∀ c ∈ text.toList, isDelimiter c = false

theorem isWord_iff {text : String} :
    IsWord text ↔ text.toList ≠ [] ∧ (text.toList.all fun c => !isDelimiter c) = true := by
  simp only [IsWord, List.all_eq_true, Bool.not_eq_true']

/-- A word goes on to the end of its text. -/
theorem IsWord.exists_cons {text : String} (isWord : IsWord text) :
    ∃ first rest, text.toList = first :: rest ∧ isDelimiter first = false ∧
      (rest.takeWhile fun next => !isDelimiter next) = rest ∧
      (rest.dropWhile fun next => !isDelimiter next) = [] := by
  rcases isWord with ⟨nonempty, inWord⟩
  rcases List.exists_cons_of_ne_nil nonempty with ⟨first, rest, same⟩
  rw [same] at inWord
  have others : ∀ c ∈ rest, (!isDelimiter c) = true := by
    intro c member
    rw [inWord c (List.mem_cons_of_mem first member)]
    rfl
  have taken : ((rest ++ []).takeWhile fun next => !isDelimiter next) = rest ++ [] :=
    List.takeWhile_append_of_pos others
  have dropped : ((rest ++ []).dropWhile fun next => !isDelimiter next) = [] :=
    List.dropWhile_append_of_pos others
  rw [List.append_nil] at taken dropped
  exact ⟨first, rest, same, inWord first List.mem_cons_self, taken, dropped⟩

namespace Token

theorem ofText_of_isWord {text : String} (isWord : IsWord text) :
    ofText text.toList = [word text] := by
  rcases isWord.exists_cons with ⟨first, rest, same, inWord, taken, dropped⟩
  rw [same, ofText_cons_word inWord, taken, dropped, ofText_nil, ← same, String.ofList_toList]

/-- A word that goes no further is the first token of its text. -/
theorem ofText_word_append {text : String} (isWord : IsWord text) {rest : List Char}
    (stops : ∀ c ∈ rest.head?, isDelimiter c = true) :
    ofText (text.toList ++ rest) = word text :: ofText rest := by
  cases rest with
  | nil => rw [List.append_nil, ofText_of_isWord isWord, ofText_nil]
  | cons c more =>
      rw [ofText_append_delimiter text.toList (stops c rfl), ofText_of_isWord isWord]
      rfl

/-- Blanks before a text are none of its tokens. -/
theorem ofText_blanks_append {gap : List Char} (blanks : ∀ c ∈ gap, isBlank c = true)
    (rest : List Char) : ofText (gap ++ rest) = ofText rest := by
  induction gap with
  | nil => rfl
  | cons c more ih =>
      rcases List.forall_mem_cons.mp blanks with ⟨blank, others⟩
      rw [List.cons_append, ofText_cons_blank blank, ih others]

/-- The words among the tokens of a text are words. -/
theorem isWord_of_mem_ofText {text : List Char} {found : String}
    (member : word found ∈ ofText text) : IsWord found := by
  fun_induction ofText text with
  | case1 => cases member
  | case2 c rest _ ih => exact ih member
  | case3 rest _ ih =>
      rcases List.mem_cons.mp member with impossible | further
      · cases impossible
      · exact ih further
  | case4 rest _ _ ih =>
      rcases List.mem_cons.mp member with impossible | further
      · cases impossible
      · exact ih further
  | case5 c rest notBlank notOpening notClosing ih =>
      rcases List.mem_cons.mp member with same | further
      · cases same
        rw [IsWord, String.toList_ofList]
        refine ⟨List.cons_ne_nil _ _, fun next inside => ?_⟩
        rcases List.mem_cons.mp inside with rfl | behind
        · exact isDelimiter_eq_false_iff.mpr
            ⟨(Bool.not_eq_true _).mp notBlank, notOpening, notClosing⟩
        · have taken := List.all_eq_true.mp List.all_takeWhile next behind
          simpa using taken
      · exact ih further

/-- A blank between two texts belongs to neither. -/
theorem ofText_append_blank (front rest : List Char) :
    ofText (front ++ ' ' :: rest) = ofText front ++ ofText rest := by
  rw [ofText_append_delimiter front (by decide), ofText_cons_blank (by decide)]

/-- Some tokens between parentheses. -/
def grouped (tokens : List Token) : List Token :=
  opening :: (tokens ++ [closing])

/-- Parentheses are no words. -/
theorem filterMap_word?_grouped (tokens : List Token) :
    (grouped tokens).filterMap word? = tokens.filterMap word? := by
  rw [grouped, List.filterMap_cons_none rfl, List.filterMap_append]
  exact List.append_nil _

theorem ofText_parenthesised (inside : List Char) :
    ofText ('(' :: (inside ++ [')'])) = grouped (ofText inside) := by
  rw [ofText_cons_opening, ofText_append_delimiter inside (by decide), ofText_cons_closing,
    ofText_nil, grouped]

end Token

/-- A fold of `words` that has not met its first delimiter holds the run of word
characters at the start of the text. -/
theorem foldr_prepend (text : List Char) :
    text.foldr OpenWord.prepend ⟨[], []⟩ =
      ⟨text.takeWhile fun next => !isDelimiter next,
        words (text.dropWhile fun next => !isDelimiter next)⟩ := by
  induction text with
  | nil => rfl
  | cons c rest ih =>
      cases delimiter : isDelimiter c with
      | true =>
          rw [List.takeWhile_cons_of_neg (by simp [delimiter]),
            List.dropWhile_cons_of_neg (by simp [delimiter])]
          simp only [words, List.foldr_cons, OpenWord.prepend, delimiter, if_true,
            OpenWord.close]
      | false =>
          rw [List.takeWhile_cons_of_pos (by simp [delimiter]),
            List.dropWhile_cons_of_pos (by simp [delimiter])]
          simp only [List.foldr_cons, ih, OpenWord.prepend, delimiter, Bool.false_eq_true,
            if_false]

theorem words_cons_delimiter {c : Char} (delimiter : isDelimiter c = true) (rest : List Char) :
    words (c :: rest) = words rest := by
  simp only [words, List.foldr_cons, OpenWord.prepend, delimiter, if_true, OpenWord.close]

theorem words_cons_word {c : Char} (inWord : isDelimiter c = false) (rest : List Char) :
    words (c :: rest) =
      String.ofList (c :: rest.takeWhile fun next => !isDelimiter next) ::
        words (rest.dropWhile fun next => !isDelimiter next) := by
  rw [words, foldr_prepend, OpenWord.close, List.takeWhile_cons_of_pos (by simp [inWord]),
    List.dropWhile_cons_of_pos (by simp [inWord]), if_neg (List.cons_ne_nil _ _)]

/-- The words of a text are its tokens without the parentheses. -/
theorem words_eq_filterMap_ofText (text : List Char) :
    words text = (Token.ofText text).filterMap Token.word? := by
  fun_induction Token.ofText text with
  | case1 => rfl
  | case2 c rest blank ih =>
      rw [words_cons_delimiter (by simp [isDelimiter, blank]), ih]
  | case3 rest _ ih =>
      rw [words_cons_delimiter (by decide), ih]
      rfl
  | case4 rest _ _ ih =>
      rw [words_cons_delimiter (by decide), ih]
      rfl
  | case5 c rest notBlank notOpening notClosing ih =>
      have inWord : isDelimiter c = false :=
        isDelimiter_eq_false_iff.mpr ⟨(Bool.not_eq_true _).mp notBlank, notOpening, notClosing⟩
      rw [words_cons_word inWord, ih]
      rfl

end FilterQuery
