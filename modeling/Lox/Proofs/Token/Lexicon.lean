import Lox.Token.Scan

/-! The words of the language: what can be written for each kind of token, and what it denotes.

A word says by its first character whether it is an operator, a number, a string, or a name or
keyword. Of all words that a text starts with, those of this one sort alone are in question.
-/

namespace Lox

open Number (isDigit)
open Segment (isBlank isLetter isWordChar oneCharOperator? twoCharOperator?)

-----
-- Words

/-- All operators and marks. -/
def operators : List (List Char × TokenKind) :=
  [
    (['('], .leftParen), ([')'], .rightParen), (['{'], .leftBrace), (['}'], .rightBrace),
    ([','], .comma), (['.'], .dot), (['-'], .minus), (['+'], .plus), ([';'], .semicolon),
    (['/'], .slash), (['*'], .star), (['?'], .question), ([':'], .colon), (['!'], .bang),
    (['!', '='], .bangEqual), (['='], .equal), (['=', '='], .equalEqual), (['>'], .greater),
    (['>', '='], .greaterEqual), (['<'], .less), (['<', '='], .lessEqual), (['-', '>'], .arrow)
  ]

/-- How a token of the kind can be written, and the literal that it then has. -/
inductive Lexeme : TokenKind → List Char → Option Literal → Prop
  | operator {kind text} (listed : (text, kind) ∈ operators) : Lexeme kind text none
  | whole {digit digits} (first : isDigit digit = true) (more : ∀ c ∈ digits, isDigit c = true)
    : Lexeme .number (digit :: digits) (some (.number (Number.ofDecimal (digit :: digits) [] 0)))
  | decimal {digit digits tenths fraction} (first : isDigit digit = true)
    (more : ∀ c ∈ digits, isDigit c = true) (second : isDigit tenths = true)
    (others : ∀ c ∈ fraction, isDigit c = true)
    : Lexeme .number (digit :: (digits ++ '.' :: tenths :: fraction))
        (some (.number (Number.ofDecimal (digit :: digits) (tenths :: fraction) 0)))
  | string {body} (unquoted : '"' ∉ body)
    : Lexeme .string ('"' :: (body ++ ['"'])) (some (.string (String.ofList body)))
  | word {letter rest} (first : isLetter letter = true) (more : ∀ c ∈ rest, isWordChar c = true)
    : Lexeme (TokenKind.ofWord (String.ofList (letter :: rest))) (letter :: rest) none

-----
-- Characters

/-- No letter is a digit. -/
theorem isDigit_of_isLetter {c : Char} (letter : isLetter c = true) : isDigit c = false := by
  have underscore : '_'.toNat = 95 := rfl
  simp only [isLetter, isDigit, Bool.or_eq_true, Bool.and_eq_true, decide_eq_true_eq, beq_iff_eq,
    Bool.and_eq_false_iff, decide_eq_false_iff_not, Char.le_def, UInt32.le_iff_toNat_le]
    at letter ⊢
  rcases letter with (⟨above, _⟩ | ⟨above, _⟩) | rfl
  · refine .inr fun below => absurd (Nat.le_trans above below) (by decide)
  · refine .inr fun below => absurd (Nat.le_trans above below) (by decide)
  · exact .inr (by decide)

/-- What the first character of an operator is not. -/
def StartsOperator (c : Char) : Prop :=
  isBlank c = false ∧ isDigit c = false ∧ isLetter c = false ∧ c ≠ '"'

instance (c : Char) : Decidable (StartsOperator c) :=
  inferInstanceAs (Decidable (_ ∧ _))

-----
-- Operators

/-- The table of operators is what the scanner looks for, entry by entry. -/
theorem operators_tables
    : ∀ entry ∈ operators,
        match entry with
        | ([c], kind) => oneCharOperator? c = some kind ∧ StartsOperator c
        | ([c, second], kind) => twoCharOperator? c second = some kind ∧ StartsOperator c
        | _ => False := by
  simp only [operators, List.forall_mem_cons, List.not_mem_nil, false_implies, implies_true,
    and_true]
  decide

/-- An operator of one character is in the table. -/
theorem mem_operators_one {c : Char} {kind : TokenKind} (found : oneCharOperator? c = some kind)
    : ([c], kind) ∈ operators := by
  unfold oneCharOperator? at found
  split at found
  all_goals first
    | cases found; done
    | (obtain rfl := Option.some.inj found; decide)

/-- An operator of two characters is in the table. -/
theorem mem_operators_two {c second : Char} {kind : TokenKind}
    (found : twoCharOperator? c second = some kind)
    : ([c, second], kind) ∈ operators := by
  unfold twoCharOperator? at found
  split at found
  all_goals first
    | cases found; done
    | (obtain rfl := Option.some.inj found; decide)

/-- An operator has one character or two. -/
theorem cases_of_mem_operators {text : List Char} {kind : TokenKind}
    (listed : (text, kind) ∈ operators)
    : (∃ c, text = [c] ∧ oneCharOperator? c = some kind ∧ StartsOperator c)
      ∨ ∃ c second,
          text = [c, second] ∧ twoCharOperator? c second = some kind ∧ StartsOperator c := by
  have found := operators_tables _ listed
  split at found
  · next c kind' same =>
      obtain ⟨rfl, rfl⟩ := Prod.mk.inj same
      exact .inl ⟨c, rfl, found⟩
  · next c second kind' same =>
      obtain ⟨rfl, rfl⟩ := Prod.mk.inj same
      exact .inr ⟨c, second, rfl, found⟩
  · exact found.elim

-----
-- First characters

namespace Lexeme

variable {kind : TokenKind} {text : List Char} {literal : Option Literal} {c : Char}
  {rest : List Char}

/-- An operator starts with a character that operators start with. -/
theorem startsOperator (listed : (text, kind) ∈ operators) (leads : text <+: c :: rest)
    : StartsOperator c := by
  rcases cases_of_mem_operators listed with ⟨d, rfl, -, starts⟩ | ⟨d, second, rfl, -, starts⟩
  · obtain ⟨rfl, -⟩ := List.cons_prefix_cons.1 leads
    exact starts
  · obtain ⟨rfl, -⟩ := List.cons_prefix_cons.1 leads
    exact starts

/-- What starts with a digit is a number. -/
theorem number_of_isDigit (lexeme : Lexeme kind text literal) (leads : text <+: c :: rest)
    (digit : isDigit c = true)
    : kind = .number
      ∧ ((∃ digits, text = c :: digits ∧ ∀ c ∈ digits, isDigit c = true)
        ∨ ∃ digits tenths fraction,
            text = c :: (digits ++ '.' :: tenths :: fraction)
            ∧ (∀ c ∈ digits, isDigit c = true)
            ∧ isDigit tenths = true
            ∧ ∀ c ∈ fraction, isDigit c = true) := by
  cases lexeme with
  | operator listed =>
      have starts := (startsOperator listed leads).2.1
      rw [digit] at starts
      cases starts
  | whole first more =>
      obtain ⟨rfl, -⟩ := List.cons_prefix_cons.1 leads
      exact ⟨rfl, .inl ⟨_, rfl, more⟩⟩
  | decimal first more second others =>
      obtain ⟨rfl, -⟩ := List.cons_prefix_cons.1 leads
      exact ⟨rfl, .inr ⟨_, _, _, rfl, more, second, others⟩⟩
  | string unquoted =>
      obtain ⟨rfl, -⟩ := List.cons_prefix_cons.1 leads
      cases digit
  | word first more =>
      obtain ⟨rfl, -⟩ := List.cons_prefix_cons.1 leads
      rw [isDigit_of_isLetter first] at digit
      cases digit

/-- What starts with a letter is a name or a keyword. -/
theorem word_of_isLetter (lexeme : Lexeme kind text literal) (leads : text <+: c :: rest)
    (letter : isLetter c = true)
    : kind = TokenKind.ofWord (String.ofList text)
      ∧ ∃ more, text = c :: more ∧ ∀ c ∈ more, isWordChar c = true := by
  have notDigit := isDigit_of_isLetter letter
  cases lexeme with
  | operator listed =>
      have starts := (startsOperator listed leads).2.2.1
      rw [letter] at starts
      cases starts
  | whole first more =>
      obtain ⟨rfl, -⟩ := List.cons_prefix_cons.1 leads
      rw [first] at notDigit
      cases notDigit
  | decimal first more second others =>
      obtain ⟨rfl, -⟩ := List.cons_prefix_cons.1 leads
      rw [first] at notDigit
      cases notDigit
  | string unquoted =>
      obtain ⟨rfl, -⟩ := List.cons_prefix_cons.1 leads
      cases letter
  | word first more =>
      obtain ⟨rfl, -⟩ := List.cons_prefix_cons.1 leads
      exact ⟨rfl, _, rfl, more⟩

/-- What starts with a quote is a string. -/
theorem string_of_quote (lexeme : Lexeme kind text literal) (leads : text <+: '"' :: rest)
    : kind = .string ∧ ∃ body, text = '"' :: (body ++ ['"']) ∧ '"' ∉ body := by
  cases lexeme with
  | operator listed => exact absurd rfl (startsOperator listed leads).2.2.2
  | whole first more =>
      obtain ⟨rfl, -⟩ := List.cons_prefix_cons.1 leads
      cases first
  | decimal first more second others =>
      obtain ⟨rfl, -⟩ := List.cons_prefix_cons.1 leads
      cases first
  | string unquoted => exact ⟨rfl, _, rfl, unquoted⟩
  | word first more =>
      obtain ⟨rfl, -⟩ := List.cons_prefix_cons.1 leads
      cases first

/-- What starts otherwise is an operator. -/
theorem operator_of_other (lexeme : Lexeme kind text literal) (leads : text <+: c :: rest)
    (notDigit : isDigit c = false) (notLetter : isLetter c = false) (notQuote : c ≠ '"')
    : (text, kind) ∈ operators := by
  cases lexeme with
  | operator listed => exact listed
  | whole first more =>
      obtain ⟨rfl, -⟩ := List.cons_prefix_cons.1 leads
      rw [first] at notDigit
      cases notDigit
  | decimal first more second others =>
      obtain ⟨rfl, -⟩ := List.cons_prefix_cons.1 leads
      rw [first] at notDigit
      cases notDigit
  | string unquoted =>
      obtain ⟨rfl, -⟩ := List.cons_prefix_cons.1 leads
      exact absurd rfl notQuote
  | word first more =>
      obtain ⟨rfl, -⟩ := List.cons_prefix_cons.1 leads
      rw [first] at notLetter
      cases notLetter

/-- No word starts with a blank. -/
theorem not_isBlank (lexeme : Lexeme kind text literal) (leads : text <+: c :: rest)
    : isBlank c = false := by
  by_cases blank : isBlank c = true
  · have blanks : c = ' ' ∨ c = '\t' ∨ c = '\r' ∨ c = '\n' := by
      simpa [isBlank, or_assoc] using blank
    have other : isDigit c = false ∧ isLetter c = false ∧ c ≠ '"' := by
      rcases blanks with rfl | rfl | rfl | rfl <;> decide
    obtain ⟨notDigit, notLetter, notQuote⟩ := other
    exact (startsOperator (lexeme.operator_of_other leads notDigit notLetter notQuote) leads).1
  · exact Bool.not_eq_true _ ▸ blank

/-- No token is spelled without characters. -/
theorem text_ne_nil (lexeme : Lexeme kind text literal) : text ≠ [] := by
  cases lexeme with
  | operator listed =>
      rcases cases_of_mem_operators listed with ⟨c, rfl, -⟩ | ⟨c, second, rfl, -⟩
      all_goals exact List.cons_ne_nil _ _
  | _ => exact List.cons_ne_nil _ _

-----
-- Kinds and literals

/-- The literal of a token is the one that its text denotes. -/
theorem ofLexeme?_eq (lexeme : Lexeme kind text literal)
    : Literal.ofLexeme? kind text = literal := by
  cases lexeme with
  | operator listed =>
      have plain : ∀ entry ∈ operators, Literal.ofLexeme? entry.2 entry.1 = none := by
        simp only [operators, List.forall_mem_cons]
        simp [Literal.ofLexeme?]
      exact plain _ listed
  | @whole digit digits first more =>
      have all : ∀ c ∈ digit :: digits, isDigit c = true := List.forall_mem_cons.2 ⟨first, more⟩
      have front
          : ((digit :: digits) ++ []).takeWhile isDigit
              = (digit :: digits) ++ [].takeWhile isDigit :=
        List.takeWhile_append_of_pos all
      have back : ((digit :: digits) ++ []).dropWhile isDigit = [].dropWhile isDigit :=
        List.dropWhile_append_of_pos all
      rw [List.append_nil] at front back
      simp [Literal.ofLexeme?, Literal.ofNumberLexeme, front, back]
  | @decimal digit digits tenths fraction first more second others =>
      have all : ∀ c ∈ digit :: digits, isDigit c = true := List.forall_mem_cons.2 ⟨first, more⟩
      have point : isDigit '.' = false := rfl
      simp only [Literal.ofLexeme?, Literal.ofNumberLexeme, ← List.cons_append,
        List.takeWhile_append_of_pos all, List.dropWhile_append_of_pos all]
      simp [point]
  | string unquoted => simp [Literal.ofLexeme?, Literal.ofStringLexeme]
  | @word letter rest first more =>
      have plain (word : String) : Literal.ofLexeme? (TokenKind.ofWord word) (letter :: rest) = none := by
        unfold TokenKind.ofWord
        split <;> rfl
      exact plain _

/-- The text of a token says of what kind it is. -/
theorem kind_eq {kind' : TokenKind} {literal' : Option Literal} (lexeme : Lexeme kind text literal)
    (other : Lexeme kind' text literal')
    : kind = kind' := by
  obtain ⟨c, rest, rfl⟩ := List.exists_cons_of_ne_nil lexeme.text_ne_nil
  have leads : c :: rest <+: c :: rest := List.prefix_rfl
  by_cases digit : isDigit c = true
  · exact (lexeme.number_of_isDigit leads digit).1.trans (other.number_of_isDigit leads digit).1.symm
  by_cases letter : isLetter c = true
  · exact (lexeme.word_of_isLetter leads letter).1.trans (other.word_of_isLetter leads letter).1.symm
  by_cases quote : c = '"'
  · subst quote
    exact (lexeme.string_of_quote leads).1.trans (other.string_of_quote leads).1.symm
  rw [Bool.not_eq_true] at digit letter
  have listed := lexeme.operator_of_other leads digit letter quote
  have listed' := other.operator_of_other leads digit letter quote
  rcases cases_of_mem_operators listed with ⟨d, same, found, -⟩ | ⟨d, second, same, found, -⟩
  · obtain ⟨rfl, rfl⟩ := List.cons.inj same
    rcases cases_of_mem_operators listed' with ⟨d', same', found', -⟩ | ⟨_, _, same', -⟩
    · obtain ⟨rfl, -⟩ := List.cons.inj same'
      exact Option.some.inj (found.symm.trans found')
    · cases same'
  · obtain ⟨rfl, rfl⟩ := List.cons.inj same
    rcases cases_of_mem_operators listed' with ⟨_, same', -⟩ | ⟨d', second', same', found', -⟩
    · cases same'
    · obtain ⟨rfl, rest⟩ := List.cons.inj same'
      obtain ⟨rfl, -⟩ := List.cons.inj rest
      exact Option.some.inj (found.symm.trans found')

end Lexeme

end Lox
