import Mathlib.Data.List.DropRight
import FilterQuery.Proofs.Literal
import FilterQuery.Proofs.Traversal

namespace FilterQuery

open Text

/-!
# The text of a condition

The text of a condition is made of strings, with blanks and parentheses where the shape
of the condition asks for them.  `Condition.tokens` is the same without the blanks, and
the two agree as soon as fields and literals are single words.  Those tokens are a chain
that stands for the condition.  So the text is always one that the grammar reads as the
condition again, and whether it compiles is a matter of the limits alone.

Parentheses are put around every operand except a combination on the left, and
`textDepth` counts how many of them are open at once at most.  The count of combinator
words is that of the fields and literals and one for each combination.

The text is also trimmed before it is read.  A combination begins and ends with a
parenthesis, where nothing is trimmed; a comparison begins with its field.
-/

/-- A text with a combinator behind it and a second text in parentheses. -/
def joinedText (front : List Char) (combinator : Combinator) (inside : List Char) : List Char :=
  front ++ ' ' :: (combinator.token.toList ++ ' ' :: '(' :: (inside ++ [')']))

namespace Condition

/-- The tokens of the text of a condition. -/
def tokens : Condition → List Token
  | comparison field comparator value =>
    [.word field, .word comparator.token, .word value.literal]
  | combination combinator left right =>
    let first :=
      match left with
      | comparison _ _ _ => Token.grouped left.tokens
      | combination _ _ _ => left.tokens
    first ++ .word combinator.token :: Token.grouped right.tokens

/-- The text of a condition on the left of a combinator. -/
def leftText : Condition → List Char
  | comparison field comparator value =>
    '(' :: ((comparison field comparator value).text.toList ++ [')'])
  | combination combinator left right => (combination combinator left right).text.toList

/-- The tokens of that text. -/
def leftTokens : Condition → List Token
  | comparison field comparator value =>
    Token.grouped (comparison field comparator value).tokens
  | combination combinator left right => (combination combinator left right).tokens

/-- How many parentheses are open at once in the text of a condition, at most. -/
def textDepth : Condition → Nat
  | comparison _ _ _ => 0
  | combination _ left right =>
    match left with
    | comparison _ _ _ => 1 + right.textDepth
    | combination _ _ _ => max left.textDepth (1 + right.textDepth)

theorem tokens_combination (combinator : Combinator) (left right : Condition) :
    (combination combinator left right).tokens =
      left.leftTokens ++ .word combinator.token :: Token.grouped right.tokens := by
  cases left with
  | comparison _ _ _ => simp only [tokens, leftTokens]
  | combination _ _ _ => simp only [tokens, leftTokens]

theorem toList_text_comparison (field : String) (comparator : Comparator) (value : Value) :
    (comparison field comparator value).text.toList =
      field.toList ++ ' ' :: (comparator.token.toList ++ ' ' :: value.literal.toList) := by
  have blank : " ".toList = [' '] := rfl
  simp only [text, String.toList_append, blank, List.append_assoc, List.cons_append,
    List.nil_append]

theorem toList_parenthesised (inside : String) :
    (parenthesised inside).toList = '(' :: (inside.toList ++ [')']) := by
  simp only [parenthesised, String.toList_append]
  rfl

theorem toList_text_combination (combinator : Combinator) (left right : Condition) :
    (combination combinator left right).text.toList =
      joinedText left.leftText combinator right.text.toList := by
  have blank : " ".toList = [' '] := rfl
  rw [joinedText]
  cases left with
  | comparison _ _ _ =>
      rw [text, leftText]
      simp only [String.toList_append, toList_parenthesised, blank, List.append_assoc,
        List.cons_append, List.nil_append]
  | combination _ _ _ =>
      rw [text, leftText]
      simp only [String.toList_append, toList_parenthesised, blank, List.append_assoc,
        List.cons_append, List.nil_append]

end Condition

theorem Comparator.isWord_token (comparator : Comparator) : IsWord comparator.token := by
  rw [isWord_iff]
  cases comparator <;> decide

theorem Combinator.isWord_token (combinator : Combinator) : IsWord combinator.token := by
  rw [isWord_iff]
  cases combinator <;> decide

theorem ofText_joinedText (front inside : List Char) (combinator : Combinator) :
    Token.ofText (joinedText front combinator inside) =
      Token.ofText front ++ .word combinator.token :: Token.grouped (Token.ofText inside) := by
  rw [joinedText, Token.ofText_append_blank, Token.ofText_append_blank,
    Token.ofText_of_isWord combinator.isWord_token, Token.ofText_parenthesised]
  rfl

/-- A comparison whose text is read again: the field and the literal are words, and the
field's kind reads the literal as the value. -/
structure Writable (schema : Schema) (field : String) (value : Value) : Prop where
  fieldWord : IsWord field
  literalWord : IsWord value.literal
  valued : ∃ kind, schema.kind? field = some kind ∧ kind.valueOf value.literal = .ok value

namespace Condition

variable {schema : Schema} {condition : Condition}

/-! ## Tokens -/

theorem ofText_leftText (agree : Token.ofText condition.text.toList = condition.tokens) :
    Token.ofText condition.leftText = condition.leftTokens := by
  cases condition with
  | comparison _ _ _ => rw [leftText, leftTokens, Token.ofText_parenthesised, agree]
  | combination _ _ _ => exact agree

/-- The tokens of the text are known without the text. -/
theorem ofText_text (writable : condition.EveryLeaf (Writable schema)) :
    Token.ofText condition.text.toList = condition.tokens := by
  induction condition with
  | comparison field comparator value =>
      rw [toList_text_comparison, Token.ofText_append_blank, Token.ofText_append_blank,
        Token.ofText_of_isWord writable.fieldWord, Token.ofText_of_isWord comparator.isWord_token,
        Token.ofText_of_isWord writable.literalWord]
      rfl
  | combination combinator left right ihLeft ihRight =>
      rw [toList_text_combination, ofText_joinedText, ofText_leftText (ihLeft writable.1),
        ihRight writable.2, tokens_combination]

theorem derives_leftTokens (derivation : Derives schema .chain condition.tokens condition) :
    Derives schema .chain condition.leftTokens condition := by
  cases condition with
  | comparison _ _ _ => exact .single (.group derivation)
  | combination _ _ _ => exact derivation

/-- The text says what the condition says. -/
theorem derives_tokens (writable : condition.EveryLeaf (Writable schema)) :
    Derives schema .chain condition.tokens condition := by
  induction condition with
  | comparison field comparator value =>
      rcases writable.valued with ⟨kind, known, valued⟩
      exact .single (.comparison known valued)
  | combination combinator left right ihLeft ihRight =>
      rw [tokens_combination]
      exact .join (derives_leftTokens (ihLeft writable.1)) (.group (ihRight writable.2))

/-! ## Nesting -/

theorem parentheses_tokens_combination (combinator : Combinator) (left right : Condition) :
    (combination combinator left right).tokens.flatMap Token.parentheses =
      left.leftTokens.flatMap Token.parentheses ++
        '(' :: (right.tokens.flatMap Token.parentheses ++ [')']) := by
  rw [tokens_combination, List.flatMap_append, List.flatMap_cons, parentheses_grouped]
  rfl

theorem balanced_leftTokens (balanced : Balanced (condition.tokens.flatMap Token.parentheses)) :
    Balanced (condition.leftTokens.flatMap Token.parentheses) := by
  cases condition with
  | comparison _ _ _ => exact balanced_nil.parenthesised
  | combination _ _ _ => exact balanced

theorem balanced_tokens (condition : Condition) :
    Balanced (condition.tokens.flatMap Token.parentheses) := by
  induction condition with
  | comparison _ _ _ => exact balanced_nil
  | combination combinator left right ihLeft ihRight =>
      rw [parentheses_tokens_combination]
      exact (balanced_leftTokens ihLeft).append ihRight.parenthesised

/-- The depth of the text is the limit within which it just nests. -/
theorem nestsWithin_tokens_iff {limit : Int} (condition : Condition) :
    NestsWithin limit (condition.tokens.flatMap Token.parentheses) ↔
      (condition.textDepth : Int) ≤ limit := by
  induction condition generalizing limit with
  | comparison _ _ _ => exact nestsWithin_nil
  | combination combinator left right ihLeft ihRight =>
      rw [parentheses_tokens_combination,
        nestsWithin_append (balanced_leftTokens left.balanced_tokens),
        nestsWithin_parenthesised right.balanced_tokens, ihRight]
      cases left with
      | comparison _ _ _ =>
          -- The parentheses of a comparison are no deeper than those of the right side.
          rw [leftTokens, parentheses_grouped, nestsWithin_parenthesised (balanced_tokens _),
            ihLeft]
          simp only [textDepth]
          omega
      | combination _ _ _ =>
          rw [leftTokens, ihLeft]
          simp only [textDepth]
          omega

/-- The same depth, measured on the text itself. -/
theorem nestsWithin_text_iff (writable : condition.EveryLeaf (Writable schema)) (limit : Nat) :
    NestsWithin limit condition.text.toList ↔ condition.textDepth ≤ limit := by
  rw [← nestsWithin_parentheses, ofText_text writable]
  exact condition.nestsWithin_tokens_iff.trans Int.ofNat_le

theorem textDepth_combination (combinator : Combinator) (left right : Condition) :
    (combination combinator left right).textDepth = max left.textDepth (1 + right.textDepth) := by
  cases left with
  | comparison _ _ _ => exact (Nat.zero_max _).symm
  | combination _ _ _ => rfl

end Condition

/-- The text of a chain nests at most one level deeper than the chain, and that of an
operand no deeper. -/
theorem Derives.textDepth_le {schema : Schema} {phrase : Phrase} {tokens : List Token}
    {node : Condition} (derivation : Derives schema phrase tokens node) {limit : Int}
    (nests : NestsWithin limit (tokens.flatMap Token.parentheses)) :
    (node.textDepth : Int) ≤ limit + (match phrase with | .chain => 1 | .operand => 0) := by
  induction derivation generalizing limit with
  | comparison =>
      rw [Condition.textDepth, Int.add_zero]
      exact nestsWithin_nil.mp nests
  | group inside ih =>
      rw [← Token.grouped, parentheses_grouped,
        nestsWithin_parenthesised inside.balanced] at nests
      have bounded := ih nests
      simp only at bounded ⊢
      omega
  | single _ ih =>
      have bounded := ih nests
      simp only at bounded ⊢
      omega
  | @join before after combinator left right chain _ ihBefore ihAfter =>
      rw [List.flatMap_append, List.flatMap_cons, nestsWithin_append chain.balanced] at nests
      have first := ihBefore nests.1
      have second := ihAfter nests.2
      rw [Condition.textDepth_combination]
      simp only at first second ⊢
      omega

/-! ## Combinator words -/

/-- How many tokens spell a combinator. -/
def combinatorTokens (tokens : List Token) : Nat :=
  tokens.countP fun token => token = .word "and" ∨ token = .word "or"

theorem combinatorTokens_append (first second : List Token) :
    combinatorTokens (first ++ second) = combinatorTokens first + combinatorTokens second :=
  List.countP_append

theorem combinatorTokens_grouped (tokens : List Token) :
    combinatorTokens (Token.grouped tokens) = combinatorTokens tokens := by
  rw [Token.grouped, ← List.singleton_append, combinatorTokens_append, combinatorTokens_append,
    show combinatorTokens [.opening] = 0 by decide, show combinatorTokens [.closing] = 0 by decide,
    Nat.zero_add, Nat.add_zero]

theorem combinatorTokens_combinator (combinator : Combinator) (rest : List Token) :
    combinatorTokens (.word combinator.token :: rest) = combinatorTokens rest + 1 := by
  cases combinator <;> exact List.countP_cons_of_pos (by decide)

theorem combinatorTokens_word (text : String) :
    combinatorTokens [.word text] = if text = "and" ∨ text = "or" then 1 else 0 := by
  rw [combinatorTokens, List.countP_singleton]
  simp only [Token.word.injEq, decide_eq_true_eq]

/-- A combination has one combinator word more than its sides, whatever its parentheses. -/
theorem Condition.combinatorTokens_combination (combinator : Combinator) (left right : Condition) :
    combinatorTokens (combination combinator left right).tokens =
      combinatorTokens left.tokens + (combinatorTokens right.tokens + 1) := by
  rw [tokens_combination, combinatorTokens_append, combinatorTokens_combinator,
    combinatorTokens_grouped]
  cases left with
  | comparison _ _ _ => rw [leftTokens, combinatorTokens_grouped]
  | combination _ _ _ => rfl

namespace Derives

variable {schema : Schema} {phrase : Phrase} {tokens : List Token} {node : Condition}

/-- The text of a condition has no more combinator words than what it was read from. -/
theorem combinatorTokens_le (derivation : Derives schema phrase tokens node) :
    combinatorTokens node.tokens ≤ combinatorTokens tokens := by
  induction derivation with
  | @comparison field literal comparator kind value _ valued =>
      have rereads := Kind.rereads_of_read? (Kind.valueOf_eq_ok_iff.mp valued)
      have last : combinatorTokens [.word value.literal] ≤ combinatorTokens [.word literal] := by
        rw [combinatorTokens_word, combinatorTokens_word]
        split
        next spells => rw [if_pos (rereads.spells_combinator spells)]
        next => exact Nat.zero_le _
      have front := combinatorTokens_append [.word field, .word comparator.token]
      have new := front [.word value.literal]
      have old := front [.word literal]
      rw [List.cons_append, List.cons_append, List.nil_append] at new old
      rw [Condition.tokens, new, old]
      exact Nat.add_le_add_left last _
  | group _ ih =>
      rw [← Token.grouped, combinatorTokens_grouped]
      exact ih
  | single _ ih => exact ih
  | join _ _ ihBefore ihAfter =>
      rw [Condition.combinatorTokens_combination, combinatorTokens_append,
        combinatorTokens_combinator]
      omega

/-- The comparisons of a phrase can be written and read again. -/
theorem everyLeaf_writable (derivation : Derives schema phrase tokens node)
    (words : ∀ word, .word word ∈ tokens → IsWord word) : node.EveryLeaf (Writable schema) := by
  induction derivation with
  | @comparison field literal comparator kind value known valued =>
      have rereads := Kind.rereads_of_read? (Kind.valueOf_eq_ok_iff.mp valued)
      refine ⟨words field (by simp), ⟨?_, ?_⟩, kind, known,
        Kind.valueOf_eq_ok_iff.mpr rereads.again⟩
      · exact rereads.literal_ne_nil (words literal (by simp)).1
      · exact fun c member => isDelimiter_of_isPlain (rereads.isPlain_of_mem c member)
  | group _ ih => exact ih fun word member => words word (by simp [member])
  | single _ ih => exact ih words
  | join _ _ ihBefore ihAfter =>
      exact ⟨ihBefore fun word member => words word (by simp [member]),
        ihAfter fun word member => words word (by simp [member])⟩

end Derives

theorem Writable.rereads {schema : Schema} {field : String} {value : Value}
    (writable : Writable schema field value) : ∃ kind : Kind, kind.Rereads value.literal value := by
  rcases writable.valued with ⟨kind, _, valued⟩
  exact ⟨kind, Kind.rereads_of_read? (Kind.valueOf_eq_ok_iff.mp valued)⟩

theorem Writable.isPlain_of_mem {schema : Schema} {field : String} {value : Value}
    (writable : Writable schema field value) : ∀ c ∈ value.literal.toList, isPlain c = true := by
  rcases writable.rereads with ⟨kind, rereads⟩
  exact rereads.isPlain_of_mem

/-! ## Ends of the text -/

namespace Text

theorem trim_eq_self {text : List Char} (first : ∀ c ∈ text.head?, isWhite c = false)
    (last : ∀ c ∈ text.getLast?, isWhite c = false) : trim text = text := by
  have kept : text.dropWhile isWhite = text := by
    cases text with
    | nil => rfl
    | cons c rest => exact List.dropWhile_cons_of_neg (by simp [first c rfl])
  rw [trim, kept]
  refine List.rdropWhile_eq_self_iff.mpr fun nonempty => ?_
  rw [last _ (List.getLast?_eq_some_getLast nonempty)]
  exact Bool.false_ne_true

/-- Nothing is trimmed from a joined text that begins visibly: it ends in a parenthesis. -/
theorem trim_joinedText {first : Char} (visible : isWhite first = false) (rest : List Char)
    (combinator : Combinator) (inside : List Char) :
    trim (joinedText (first :: rest) combinator inside) =
      joinedText (first :: rest) combinator inside := by
  apply trim_eq_self
  · rintro c ⟨⟩
    exact visible
  · have ending : joinedText (first :: rest) combinator inside =
        (first :: rest ++ ' ' :: (combinator.token.toList ++ ' ' :: '(' :: inside)) ++ [')'] := by
      simp only [joinedText, List.append_assoc, List.cons_append]
    rw [ending, List.getLast?_concat]
    rintro c ⟨⟩
    exact isWhite_closeParen

theorem trim_sublist (text : List Char) : (trim text).Sublist text :=
  (List.rdropWhile_prefix isWhite _).sublist.trans (List.dropWhile_sublist _)

/-- A trimmed text does not begin with a white character. -/
theorem isWhite_of_trim_eq_cons {text rest : List Char} {c : Char}
    (trimmed : trim text = c :: rest) : isWhite c = false := by
  have isPrefix : c :: rest <+: text.dropWhile isWhite := by
    rw [← trimmed]
    exact List.rdropWhile_prefix isWhite _
  rcases isPrefix with ⟨further, same⟩
  have nonempty : text.dropWhile isWhite ≠ [] := by
    rw [← same]
    exact List.cons_ne_nil _ _
  have notWhite := List.head_dropWhile_not isWhite nonempty
  simpa only [← same, List.cons_append, List.head_cons] using notWhite

/-- Neither does the first word of a trimmed text, if no parenthesis stands before it. -/
theorem isWhite_of_words_trim {text : List Char} {first : String} {others : List String}
    (unparenthesised : ∀ c ∈ text, isDelimiter c = false ∨ isBlank c = true)
    (found : words (trim text) = first :: others) :
    ∀ c ∈ first.toList.head?, isWhite c = false := by
  cases trimmed : trim text with
  | nil =>
      rw [trimmed] at found
      cases found
  | cons c rest =>
      have visible := isWhite_of_trim_eq_cons trimmed
      have inText : c ∈ text := by
        apply (trim_sublist text).subset
        rw [trimmed]
        exact List.mem_cons_self
      have inWord : isDelimiter c = false := by
        rcases unparenthesised c inText with inWord | blank
        · exact inWord
        · rw [isWhite_of_isBlank blank] at visible
          cases visible
      rw [trimmed, words_cons_word inWord] at found
      rw [← (List.cons.inj found).1, String.toList_ofList]
      rintro _ ⟨⟩
      exact visible

end Text

namespace Condition

variable {schema : Schema} {condition : Condition}

/-- The text begins with a character that is not white.  Only a comparison can fail to do
so, when its field does. -/
def BeginsVisibly : Condition → Prop
  | comparison field _ _ => ∀ c ∈ field.toList.head?, isWhite c = false
  | combination _ _ _ => True

theorem exists_leftText_cons (condition : Condition) :
    ∃ rest, condition.leftText = '(' :: rest := by
  induction condition with
  | comparison _ _ _ => exact ⟨_, rfl⟩
  | combination combinator left right ihLeft _ =>
      rcases ihLeft with ⟨rest, same⟩
      rw [leftText, toList_text_combination, same]
      exact ⟨_, rfl⟩

/-- Nothing is trimmed from the text of a combination. -/
theorem trim_text_combination (combinator : Combinator) (left right : Condition) :
    trim (combination combinator left right).text.toList =
      (combination combinator left right).text.toList := by
  rcases left.exists_leftText_cons with ⟨rest, same⟩
  rw [toList_text_combination, same]
  exact trim_joinedText isWhite_openParen rest combinator _

/-- Nor from that of a comparison whose field begins visibly: its literal ends in a plain
character. -/
theorem trim_text_comparison {field : String} {value : Value} (comparator : Comparator)
    (writable : Writable schema field value)
    (visible : (comparison field comparator value).BeginsVisibly) :
    trim (comparison field comparator value).text.toList =
      (comparison field comparator value).text.toList := by
  rw [toList_text_comparison]
  apply trim_eq_self
  · rw [List.head?_append_of_ne_nil _ writable.fieldWord.1]
    exact visible
  · have ending : field.toList ++ ' ' :: (comparator.token.toList ++ ' ' :: value.literal.toList) =
        (field.toList ++ ' ' :: (comparator.token.toList ++ [' '])) ++ value.literal.toList := by
      simp only [List.append_assoc, List.cons_append, List.nil_append]
    rw [ending, List.getLast?_append_of_ne_nil _ writable.literalWord.1]
    exact fun c member =>
      isWhite_of_isPlain (writable.isPlain_of_mem c (List.mem_of_getLast? member))

theorem trim_text (writable : condition.EveryLeaf (Writable schema))
    (visible : condition.BeginsVisibly) :
    trim condition.text.toList = condition.text.toList := by
  cases condition with
  | comparison field comparator value => exact trim_text_comparison comparator writable visible
  | combination combinator left right => exact trim_text_combination combinator left right

end Condition

end FilterQuery
