import Lox.Proofs.Number.Format
import Lox.Proofs.Printing.Nesting

/-! The words of printed expressions.

A printed word is the text of a token, the text of a literal, or a mark of the printer's own. The
text of a token without a literal says everything about it but its line.
-/

namespace Lox

open Number (isDigit)
open Segment (isLetter isWordChar)

-----
-- Tokens by their texts

/-- The kind of the tokens that are written this way. -/
def TokenKind.ofText (text : String) : TokenKind :=
  (operators.lookup text.toList).getD (.ofWord text)

/-- The token that is written this way, on no line. -/
def Token.ofText (text : String) : Token :=
  { kind := .ofText text, lexeme := text, literal := none, line := 0 }

/-- What is left of a token without its line. -/
def Token.bare (token : Token) : Token :=
  { token with line := 0 }

/-- The text of the kinds in question that have only one. -/
def TokenKind.onlyText? : TokenKind → Option String
  | .minus => some "-"
  | .rightParen => some ")"
  | .thisWord => some "this"
  | .superWord => some "super"
  | _ => none

/-- A keyword is spelled in its one way. -/
theorem TokenKind.eq_of_onlyText?_ofWord {word text : String}
    (only : (TokenKind.ofWord word).onlyText? = some text)
    : word = text := by
  unfold ofWord at only
  split at only <;> first | exact Option.some.inj only | cases only

/-- The token is written as its kind asks for, and of one of the kinds. -/
structure Token.Among (kinds : List TokenKind) (token : Token) : Prop where
  written : Lexeme token.kind token.lexeme.toList token.literal
  kind : token.kind ∈ kinds

/-- Only numbers and strings have a literal. -/
theorem Lexeme.literal_eq_none {kind : TokenKind} {text : List Char} {literal : Option Literal}
    (lexeme : Lexeme kind text literal) (plain : kind ∉ [.number, .string])
    : literal = none := by
  cases lexeme with
  | operator | word => rfl
  | whole | decimal | string => exact absurd (by simp) plain

/-- Operators are found by their texts. -/
theorem operators_lookup : ∀ entry ∈ operators, operators.lookup entry.1 = some entry.2 := by
  simp only [operators, List.forall_mem_cons, List.not_mem_nil, false_implies, implies_true,
    and_true]
  decide

/-- What is looked up among the operators is one of them. -/
theorem mem_operators_of_lookup {text : List Char} {kind : TokenKind}
    (found : operators.lookup text = some kind)
    : (text, kind) ∈ operators := by
  obtain ⟨front, back, split, -⟩ := List.lookup_eq_some_iff.1 found
  simp [split]

/-- The kind of a token is given by its spelling, unless it is a number or a string. -/
theorem Lexeme.ofText_eq {kind : TokenKind} {text : String} (lexeme : Lexeme kind text.toList none)
    : TokenKind.ofText text = kind := by
  unfold TokenKind.ofText
  cases found : operators.lookup text.toList with
  | some other => exact (Lexeme.operator (mem_operators_of_lookup found)).kind_eq lexeme
  | none =>
      generalize chars : text.toList = characters at lexeme found
      cases lexeme with
      | operator listed =>
          rw [operators_lookup _ listed] at found
          cases found
      | word first more => rw [← chars, String.ofList_toList, Option.getD_none]

namespace Token.Among

variable {kinds : List TokenKind} {token : Token}

/-- A token of a kind without literals has none. -/
theorem literal_eq_none (among : token.Among kinds)
    (plain : ∀ kind ∈ kinds, kind ∉ [.number, .string])
    : token.literal = none :=
  among.written.literal_eq_none (plain _ among.kind)

/-- The kind of a token of such kinds is given by its spelling. -/
theorem ofText_kind (among : token.Among kinds)
    (plain : ∀ kind ∈ kinds, kind ∉ [.number, .string])
    : TokenKind.ofText token.lexeme = token.kind :=
  Lexeme.ofText_eq (among.literal_eq_none plain ▸ among.written)

/-- The text of a token without a literal says everything but its line. -/
theorem bare_eq (among : token.Among kinds) (plain : ∀ kind ∈ kinds, kind ∉ [.number, .string])
    : token.bare = .ofText token.lexeme := by
  unfold Token.bare Token.ofText
  rw [among.ofText_kind plain, ← among.literal_eq_none plain]

/-- A keyword or mark that has only one text has it. -/
theorem lexeme_eq {kind : TokenKind} {text : String} (among : token.Among [kind])
    (only : kind.onlyText? = some text)
    : token.lexeme = text := by
  have plain : kind ∉ [.number, .string] := by
    rintro member
    rcases List.mem_cons.1 member with rfl | member
    · cases only
    · obtain rfl := List.mem_singleton.1 member
      cases only
  have found := among.ofText_kind (by simpa using plain)
  rw [List.mem_singleton.1 among.kind] at found
  unfold TokenKind.ofText at found
  cases entry : operators.lookup token.lexeme.toList with
  | some other =>
      rw [entry, Option.getD_some] at found
      have marks
          : operators.all (fun entry => entry.2.onlyText?.all (·.toList == entry.1)) = true := by
        decide
      have same := List.all_eq_true.1 marks _ (mem_operators_of_lookup entry)
      rw [found, only] at same
      exact (String.toList_inj.1 (by simpa using same)).symm
  | none =>
      rw [entry, Option.getD_none] at found
      exact TokenKind.eq_of_onlyText?_ofWord (found ▸ only)

/-- A keyword is its spelling alone. -/
theorem bare_keyword {kind : TokenKind} {text : String} (among : token.Among [kind])
    (plain : kind ∉ [.number, .string]) (only : kind.onlyText? = some text)
    : token.bare = .ofText text := by
  rw [among.bare_eq (by simpa using plain), among.lexeme_eq only]

end Token.Among

-----
-- Names and numbers

/-- The text is a run of letters and digits that a letter starts. Keywords are among them. -/
def isName (text : String) : Bool :=
  match text.toList with
  | [] => false
  | letter :: rest => isLetter letter && rest.all isWordChar

/-- Words of this kind are written with letters. -/
theorem Lexeme.isName_eq {kind : TokenKind} {text : String} (lexeme : Lexeme kind text.toList none)
    (noOperator : ∀ entry ∈ operators, entry.2 ≠ kind)
    : isName text = true := by
  unfold isName
  generalize text.toList = chars at lexeme
  cases lexeme with
  | operator listed => exact absurd rfl (noOperator _ listed)
  | word first more => simpa [first] using more

/-- The spelling of a name is a name. -/
theorem Token.Among.isName_lexeme {token : Token} (among : token.Among [.identifier])
    : isName token.lexeme = true := by
  have written := among.written
  rw [among.literal_eq_none (by decide)] at written
  exact written.isName_eq (List.mem_singleton.1 among.kind ▸ by decide)

/-- A number is no name. -/
theorem IsNumberWord.isName_eq {text : String} (number : IsNumberWord text.toList)
    : isName text = false := by
  unfold isName
  split
  · rfl
  · next letter rest split =>
      refine Bool.eq_false_iff.2 fun name => number.noName ⟨letter, rest, split, ?_⟩
      simpa using name

/-- A name consists of letters, digits and underscores. -/
theorem isWordChar_of_isName {text : String} (name : isName text = true)
    : ∀ c ∈ text.toList, isWordChar c = true := by
  unfold isName at name
  split at name
  · cases name
  · next letter rest split =>
      obtain ⟨first, more⟩ := Bool.and_eq_true_iff.1 name
      rw [split]
      exact List.forall_mem_cons.2 ⟨by simp [isWordChar, first], List.all_eq_true.1 more⟩

/-- Operators have nothing that words have, and keywords have nothing but letters. -/
theorem ofText_eq_identifier {text : String} (inWord : ∃ c ∈ text.toList, isWordChar c = true)
    (other : ∃ c ∈ text.toList, isLetter c = false)
    : TokenKind.ofText text = .identifier := by
  obtain ⟨mark, markInside, isMark⟩ := inWord
  obtain ⟨c, inside, noLetter⟩ := other
  unfold TokenKind.ofText
  cases found : operators.lookup text.toList with
  | some kind =>
      have plain : operators.all (fun entry => entry.1.all fun c => !isWordChar c) = true := by
        decide
      have noWord : ∀ c ∈ text.toList, isWordChar c = false := by
        simpa using List.all_eq_true.1 plain _ (mem_operators_of_lookup found)
      rw [noWord mark markInside] at isMark
      cases isMark
  | none =>
      have letters {word : List Char} (all : word.all isLetter = true) : text.toList ≠ word := by
        rintro rfl
        rw [List.all_eq_true.1 all c inside] at noLetter
        cases noLetter
      rw [Option.getD_none]
      unfold TokenKind.ofWord
      split
      all_goals first
        | exact absurd rfl (letters (by decide))
        | rfl

/-- The spelling of a number is the spelling of no keyword. -/
theorem IsNumberWord.ofText_eq {text : String} (number : IsNumberWord text.toList)
    : TokenKind.ofText text = .identifier := by
  obtain ⟨digit, inside, isDigit⟩ := number.digit
  have noLetter : isLetter digit = false := by
    refine Bool.eq_false_iff.2 fun letter => ?_
    rw [isDigit_of_isLetter letter] at isDigit
    cases isDigit
  exact ofText_eq_identifier ⟨digit, inside, by simp [isWordChar, isDigit]⟩ ⟨digit, inside, noLetter⟩

-----
-- Plain words

instance (text : String) : Decidable (IsPlainWord text) :=
  decidable_of_iff (text.toList ≠ [] ∧ text.toList.all isPlain = true)
    ⟨fun ⟨nonempty, chars⟩ => ⟨nonempty, List.all_eq_true.1 chars⟩,
      fun plain => ⟨plain.nonempty, List.all_eq_true.2 plain.chars⟩⟩

/-- A character of a word is no bracket and no blank. -/
theorem isPlain_of_isWordChar {c : Char} (inWord : isWordChar c = true) : isPlain c = true := by
  have others : c ≠ ' ' ∧ c ≠ '(' ∧ c ≠ ')' := by
    refine ⟨?_, ?_, ?_⟩ <;> rintro rfl <;> cases inWord
  simp [isPlain, others]

/-- A digit is no bracket and no blank. -/
theorem isPlain_of_isDigit {c : Char} (digit : isDigit c = true) : isPlain c = true :=
  isPlain_of_isWordChar (by simp [isWordChar, digit])

/-- The spelling of a number is a plain word. -/
theorem IsNumberWord.isPlainWord {text : String} (number : IsNumberWord text.toList)
    : IsPlainWord text := by
  obtain ⟨digit, inside, -⟩ := number.digit
  refine ⟨List.ne_nil_of_mem inside, fun c member => ?_⟩
  rcases number.chars c member with digit | mark
  · exact isPlain_of_isDigit digit
  · have marks : ['.', 'e', '+', '-'].all isPlain = true := by decide
    exact List.all_eq_true.1 marks c mark

/-- Of all tokens without literals only parentheses are no words. -/
theorem Lexeme.isPlainWord {kind : TokenKind} {text : String} (lexeme : Lexeme kind text.toList none)
    (noParen : kind ∉ [.leftParen, .rightParen])
    : IsPlainWord text := by
  refine ⟨lexeme.text_ne_nil, ?_⟩
  generalize text.toList = chars at lexeme
  cases lexeme with
  | operator listed =>
      have plain
          : operators.all
              (fun entry => [.leftParen, .rightParen].contains entry.2 || entry.1.all isPlain)
            = true := by
        decide
      have word := (Bool.or_eq_true_iff.1 (List.all_eq_true.1 plain _ listed)).resolve_left
        fun paren => noParen (List.contains_iff_mem.1 paren)
      exact List.all_eq_true.1 word
  | word first more =>
      refine List.forall_mem_cons.2 ⟨isPlain_of_isWordChar ?_, fun c member => ?_⟩
      · simp [isWordChar, first]
      · exact isPlain_of_isWordChar (more c member)

/-- The spelling of a token is a plain word, unless it is a parenthesis. -/
theorem Token.Among.isPlainWord {kinds : List TokenKind} {token : Token} (among : token.Among kinds)
    (plain : ∀ kind ∈ kinds, kind ∉ [.number, .string])
    (noParen : ∀ kind ∈ kinds, kind ∉ [.leftParen, .rightParen])
    : IsPlainWord token.lexeme :=
  Lexeme.isPlainWord (among.literal_eq_none plain ▸ among.written) (noParen _ among.kind)

end Lox
