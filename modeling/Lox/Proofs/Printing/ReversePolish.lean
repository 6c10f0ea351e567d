import Lox.Proofs.Printing.Parenthesized

/-! Expressions with the operators behind, read back.

The words of the reverse Polish text are read onto a stack. Each says how many parts it takes from
it and what it makes of them. In the end the stack holds the nest that the parenthesized text of the
expression without its groupings has.
-/

namespace Lox

open Grammar (SourceExpr binaryKinds)
open Number (isDigit)
open Segment (isWordChar)

variable {ρ : Type}

-----
-- Groupings

mutual
/-- The expression without its groupings, whose operands stand in their places. -/
def Expr.ungrouped : Expr ρ → Expr ρ
  | .literal value => .literal value
  | .grouping inner => inner.ungrouped
  | .unary operator operand => .unary operator operand.ungrouped
  | .binary left operator right => .binary left.ungrouped operator right.ungrouped
  | .logical left operator right => .logical left.ungrouped operator right.ungrouped
  | .conditional condition thenCase elseCase =>
      .conditional condition.ungrouped thenCase.ungrouped elseCase.ungrouped
  | .variable target => .variable target
  | .assign target value => .assign target value.ungrouped
  | .call callee paren arguments => .call callee.ungrouped paren (ungroupedExprs arguments)
  | .get object name => .get object.ungrouped name
  | .set object name value => .set object.ungrouped name value.ungrouped
  | .this keyword => .this keyword
  | .super keyword method => .super keyword method
  | .function function => .function function

def ungroupedExprs : List (Expr ρ) → List (Expr ρ)
  | [] => []
  | first :: rest => first.ungrouped :: ungroupedExprs rest
end

/-- Leaving out groups keeps the number of expressions. -/
theorem length_ungroupedExprs (exprs : List (Expr ρ))
    : (ungroupedExprs exprs).length = exprs.length := by
  induction exprs with
  | nil => rfl
  | cons first rest ih => simp [ungroupedExprs, ih]

/-- Every expression has its nest. -/
theorem length_exprNests (exprs : List (Expr ρ)) : (exprNests exprs).length = exprs.length := by
  induction exprs with
  | nil => rfl
  | cons first rest ih => simp [exprNests, ih]

section

variable {admitted : Literal → Prop}

mutual
/-- Without its groups an expression can still be printed, by induction on the tree. -/
theorem Expr.ungrouped_printable
    : ∀ expr : Expr ρ, expr.Printable admitted → expr.ungrouped.Printable admitted
  | .literal _, printable | .variable _, printable | .this _, printable => printable
  | .super _ _, printable | .function _, printable => printable
  | .grouping inner, printable => inner.ungrouped_printable printable
  | .unary _ operand, ⟨operator, printable⟩ => ⟨operator, operand.ungrouped_printable printable⟩
  | .binary left _ right, ⟨operator, first, second⟩ =>
      ⟨operator, left.ungrouped_printable first, right.ungrouped_printable second⟩
  | .logical left _ right, ⟨operator, first, second⟩ =>
      ⟨operator, left.ungrouped_printable first, right.ungrouped_printable second⟩
  | .conditional condition thenCase elseCase, ⟨first, second, third⟩ =>
      ⟨condition.ungrouped_printable first, thenCase.ungrouped_printable second,
        elseCase.ungrouped_printable third⟩
  | .assign _ value, ⟨name, printable⟩ => ⟨name, value.ungrouped_printable printable⟩
  | .call callee _ arguments, ⟨paren, first, others⟩ =>
      ⟨paren, callee.ungrouped_printable first, ungroupedExprs_printable arguments others⟩
  | .get object _, ⟨name, printable⟩ => ⟨name, object.ungrouped_printable printable⟩
  | .set object _ value, ⟨name, first, second⟩ =>
      ⟨name, object.ungrouped_printable first, value.ungrouped_printable second⟩

/-- Without their groups expressions can still be printed. -/
theorem ungroupedExprs_printable
    : ∀ exprs : List (Expr ρ),
        exprsPrintable admitted exprs → exprsPrintable admitted (ungroupedExprs exprs)
  | [], _ => trivial
  | first :: rest, ⟨printable, others⟩ =>
      ⟨first.ungrouped_printable printable, ungroupedExprs_printable rest others⟩
end

end

/-- Baring expressions keeps their number. -/
theorem length_bareExprs (exprs : List (Expr ρ)) : (bareExprs exprs).length = exprs.length := by
  induction exprs with
  | nil => rfl
  | cons first rest ih => simp [bareExprs, ih]

mutual
/-- Neither groupings nor lines nor the bodies of functions are printed. -/
theorem Expr.words_ungrouped_bare
    : ∀ expr : Expr ρ, expr.ungrouped.bare.reversePolishWords = expr.reversePolishWords
  | .literal _ | .variable _ | .this _ | .super _ _ => rfl
  | .function function => by
      simp [Expr.ungrouped, Expr.bare, Expr.reversePolishWords, Lambda.parameters,
        Function.comp_def]
  | .grouping inner => inner.words_ungrouped_bare
  | .unary _ operand => by
      simp [Expr.ungrouped, Expr.bare, Expr.reversePolishWords, operand.words_ungrouped_bare,
        unaryWord, Token.bare]
  | .binary left _ right | .logical left _ right => by
      simp [Expr.ungrouped, Expr.bare, Expr.reversePolishWords, left.words_ungrouped_bare,
        right.words_ungrouped_bare]
  | .conditional condition thenCase elseCase => by
      simp [Expr.ungrouped, Expr.bare, Expr.reversePolishWords, condition.words_ungrouped_bare,
        thenCase.words_ungrouped_bare, elseCase.words_ungrouped_bare]
  | .assign _ value => by
      simp [Expr.ungrouped, Expr.bare, Expr.reversePolishWords, value.words_ungrouped_bare]
  | .call callee _ arguments => by
      simp [Expr.ungrouped, Expr.bare, Expr.reversePolishWords, callee.words_ungrouped_bare,
        arguments_ungrouped_bare arguments, length_bareExprs, length_ungroupedExprs]
  | .get object _ => by
      simp [Expr.ungrouped, Expr.bare, Expr.reversePolishWords, object.words_ungrouped_bare]
  | .set object _ value => by
      simp [Expr.ungrouped, Expr.bare, Expr.reversePolishWords, object.words_ungrouped_bare,
        value.words_ungrouped_bare]

/-- Arguments print alike without their groups. -/
theorem arguments_ungrouped_bare
    : ∀ exprs : List (Expr ρ),
        reversePolishArguments (bareExprs (ungroupedExprs exprs)) = reversePolishArguments exprs
  | [] => rfl
  | first :: rest => by
      simp [ungroupedExprs, bareExprs, reversePolishArguments, first.words_ungrouped_bare,
        arguments_ungrouped_bare rest]
end

-----
-- Reading words

namespace Nest

/-- How many parts a word takes from the stack, and what it makes of them. -/
structure Role where
  taken : Nat
  form : List Nest → Nest

/-- The word stands for itself. -/
def Role.operand (text : String) : Role :=
  { taken := 0, form := fun _ => .word text }

/-- The parts are put behind another word. -/
def Role.operator (taken : Nat) (head : String) : Role :=
  { taken, form := fun parts => .list (.word head :: parts) }

/-- The name of a variable stands behind the value that is assigned. -/
def assignment : List Nest → Nest
  | [value, name] => .list [.word "=", name, value]
  | parts => .list parts

/-- A method of the superclass is read like a property. -/
def property : List Nest → Nest
  | [.word "super", method] => .list [.word "super", method]
  | parts => .list (.word "." :: parts)

/-- The name of a property stands behind the value that is assigned. -/
def change : List Nest → Nest
  | [object, value, name] => .list [.word "=", .list [.word ".", object, name], value]
  | parts => .list parts

/-- A word with a mark that is in no operator of the language. -/
def Role.ofChars (text : String) : List Char → Role
  | ['~'] => .operator 1 "-"
  | ['?', ':'] => .operator 3 "?:"
  | ['.', '='] => { taken := 3, form := change }
  | 'c' :: 'a' :: 'l' :: 'l' :: '/' :: digits => .operator (Nat.ofDigitChars 10 digits 0 + 1) "call"
  | 'f' :: 'u' :: 'n' :: '/' :: digits =>
      {
        taken := Nat.ofDigitChars 10 digits 0,
        form := fun parts => .list [.word "fun", .list parts]
      }
  | _ => .operand text

def Role.ofText (text : String) : Role :=
  if TokenKind.ofText text ∈ .andWord :: .orWord :: binaryKinds then .operator 2 text
  else
    match TokenKind.ofText text with
    | .bang => .operator 1 text
    | .equal => { taken := 2, form := assignment }
    | .dot => { taken := 2, form := property }
    | _ => .ofChars text text.toList

/-- The part that was pushed last stands first in the stack. -/
def shift (stack : List Nest) (text : String) : List Nest :=
  (Role.ofText text).form (stack.take (Role.ofText text).taken).reverse
    :: stack.drop (Role.ofText text).taken

/-- A word takes as many nests from the stack as its role says. -/
theorem shift_eq {text : String} {role : Role} (found : Role.ofText text = role)
    (parts stack : List Nest) (taken : role.taken = parts.length)
    : shift (parts.reverse ++ stack) text = role.form parts :: stack := by
  have length : parts.reverse.length = role.taken := by rw [List.length_reverse, taken]
  rw [shift, found, List.take_left' length, List.drop_left' length, List.reverse_reverse]

end Nest

-----
-- Roles of words

/-- Without the marks of the printer a word stands for itself. -/
theorem Nest.Role.ofChars_eq_operand {text : String} {chars : List Char}
    (plain : ∀ c ∈ chars, c ∉ ['~', '?', '=', '/'])
    : Role.ofChars text chars = .operand text := by
  unfold Role.ofChars
  split
  all_goals first
    | rfl
    | simp at plain

/-- The role of a word that is no keyword is given by its characters. -/
theorem Nest.Role.ofText_eq_ofChars {text : String} (kind : TokenKind.ofText text = .identifier)
    : Role.ofText text = .ofChars text text.toList := by
  simp [Role.ofText, kind, binaryKinds]

/-- The text of a literal is an operand. -/
theorem Nest.Role.ofText_literal {read : String → Float} {literal : Literal}
    (readable : literal.ReadBy read)
    : Role.ofText literal.text = .operand literal.text := by
  cases literal with
  | nil => rfl
  | boolean value => cases value <;> rfl
  | number value =>
      have word := isNumberWord_numberText readable.1
      refine (Role.ofText_eq_ofChars word.ofText_eq).trans (Role.ofChars_eq_operand ?_)
      intro c member mark
      have listed := word.chars c member
      simp only [List.mem_cons, List.not_mem_nil, or_false] at mark
      rcases mark with rfl | rfl | rfl | rfl <;> exact absurd listed (by decide)
  | string value => exact readable.elim

/-- The spelling of a name is an operand. -/
theorem Nest.Role.ofText_name {token : Token} (among : token.Among [.identifier])
    : Role.ofText token.lexeme = .operand token.lexeme := by
  have kind : TokenKind.ofText token.lexeme = .identifier :=
    (among.ofText_kind (by decide)).trans (List.mem_singleton.1 among.kind)
  refine (Role.ofText_eq_ofChars kind).trans (Role.ofChars_eq_operand fun c member mark => ?_)
  have inWord := isWordChar_of_isName among.isName_lexeme c member
  simp only [List.mem_cons, List.not_mem_nil, or_false] at mark
  rcases mark with rfl | rfl | rfl | rfl <;> cases inWord

/-- All operators with two operands but those that name something. -/
theorem Nest.Role.ofText_operator {kinds : List TokenKind} {token : Token}
    (among : token.Among kinds) (plain : ∀ kind ∈ kinds, kind ∉ [.number, .string])
    (infixed : ∀ kind ∈ kinds, kind ∈ .andWord :: .orWord :: binaryKinds)
    : Role.ofText token.lexeme = .operator 2 token.lexeme := by
  have listed := infixed _ among.kind
  rw [← among.ofText_kind plain] at listed
  exact if_pos listed

/-- A negation is told apart from a difference. -/
theorem Nest.Role.ofText_unaryWord {token : Token} (among : token.Among [.bang, .minus])
    : Role.ofText (unaryWord token) = .operator 1 token.lexeme := by
  have kind := among.ofText_kind (by decide)
  rcases List.mem_cons.1 among.kind with bang | minus
  · rw [bang] at kind
    simp [unaryWord, bang, Role.ofText, kind, binaryKinds]
  · have single : token.Among [.minus] := ⟨among.written, minus⟩
    rw [unaryWord, if_pos (List.mem_singleton.1 minus), single.lexeme_eq rfl]
    rfl

/-- A call takes its arguments and the callee. -/
theorem Nest.Role.ofText_call (count : Nat)
    : Role.ofText ("call/" ++ toString count) = .operator (count + 1) "call" := by
  have chars
      : ("call/" ++ toString count).toList
        = 'c' :: 'a' :: 'l' :: 'l' :: '/' :: Nat.toDigits 10 count := by
    simp [Nat.toString_eq_repr, Nat.toList_repr]
  have kind : TokenKind.ofText ("call/" ++ toString count) = .identifier :=
    ofText_eq_identifier ⟨'c', by simp, by decide⟩ ⟨'/', by simp, by decide⟩
  rw [Role.ofText_eq_ofChars kind, chars, Role.ofChars,
    Nat.ofDigitChars_toDigits (by decide) (by decide)]

/-- A function takes its parameters. -/
theorem Nest.Role.ofText_fun (count : Nat)
    : Role.ofText ("fun/" ++ toString count)
        = { taken := count, form := fun parts => .list [.word "fun", .list parts] } := by
  have chars
      : ("fun/" ++ toString count).toList = 'f' :: 'u' :: 'n' :: '/' :: Nat.toDigits 10 count := by
    simp [Nat.toString_eq_repr, Nat.toList_repr]
  have kind : TokenKind.ofText ("fun/" ++ toString count) = .identifier :=
    ofText_eq_identifier ⟨'f', by simp, by decide⟩ ⟨'/', by simp, by decide⟩
  rw [Role.ofText_eq_ofChars kind, chars, Role.ofChars,
    Nat.ofDigitChars_toDigits (by decide) (by decide)]

-----
-- Reading expressions

section

variable {read : String → Float}

/-- Nothing else is printed like the keyword of a method of the superclass. -/
theorem Expr.nest_ne_super {expr : SourceExpr} (printable : expr.Printable (Literal.ReadBy read))
    : expr.nest ≠ .word "super" := by
  intro same
  have bare : (Nest.word "super").expr read = expr.bare := same ▸ expr.expr_nest printable
  cases expr with
  | «variable» target =>
      have name : Token.ofText "super" = target.name.bare :=
        congrArg Reference.name (Expr.variable.inj bare)
      have kind : TokenKind.superWord = target.name.kind := congrArg Token.kind name
      cases kind.trans (List.mem_singleton.1 printable.kind)
  | _ => cases bare

/-- A property of any object other than `super` is a list with a dot. -/
theorem Nest.property_of_ne {object name : Nest} (other : object ≠ .word "super")
    : property [object, name] = .list [.word ".", object, name] := by
  unfold property
  split
  · next same =>
      obtain ⟨rfl, -⟩ := List.cons.inj same
      exact absurd rfl other
  · rfl

/-- A name is put on the stack. -/
theorem Nest.shift_name {token : Token} (among : token.Among [.identifier]) (stack : List Nest)
    : shift stack token.lexeme = .word token.lexeme :: stack :=
  shift_eq (Role.ofText_name among) [] stack rfl

/-- Words that stand for themselves are pushed. -/
theorem Nest.foldl_operands {texts : List String} (stack : List Nest)
    (operands : ∀ text ∈ texts, Role.ofText text = .operand text)
    : texts.foldl shift stack = (texts.map .word).reverse ++ stack := by
  induction texts generalizing stack with
  | nil => rfl
  | cons text rest ih =>
      obtain ⟨first, others⟩ := List.forall_mem_cons.1 operands
      have pushed : shift stack text = .word text :: stack := shift_eq first [] stack rfl
      rw [List.foldl_cons, pushed, ih _ others]
      simp

mutual
/-- Reading the words of a printable expression pushes its nest. -/
theorem Expr.foldl_words
    : ∀ (expr : SourceExpr) (stack : List Nest),
        expr.Printable (Literal.ReadBy read)
        → expr.reversePolishWords.foldl Nest.shift stack = expr.ungrouped.nest :: stack
  | .literal _, stack, printable => Nest.shift_eq (Nest.Role.ofText_literal printable) [] stack rfl
  | .grouping inner, stack, printable => inner.foldl_words stack printable
  | .unary _ operand, stack, ⟨operator, printable⟩ => by
      rw [Expr.reversePolishWords, List.foldl_append, operand.foldl_words stack printable]
      exact Nest.shift_eq (Nest.Role.ofText_unaryWord operator) [operand.ungrouped.nest] stack rfl
  | .binary left _ right, stack, ⟨operator, first, second⟩ => by
      have role := Nest.Role.ofText_operator operator (by decide) (by decide)
      rw [Expr.reversePolishWords, List.foldl_append, List.foldl_append,
        left.foldl_words stack first, right.foldl_words _ second]
      exact Nest.shift_eq role [left.ungrouped.nest, right.ungrouped.nest] stack rfl
  | .logical left _ right, stack, ⟨operator, first, second⟩ => by
      have role := Nest.Role.ofText_operator operator (by decide) (by decide)
      rw [Expr.reversePolishWords, List.foldl_append, List.foldl_append,
        left.foldl_words stack first, right.foldl_words _ second]
      exact Nest.shift_eq role [left.ungrouped.nest, right.ungrouped.nest] stack rfl
  | .conditional condition thenCase elseCase, stack, ⟨first, second, third⟩ => by
      have role : Nest.Role.ofText "?:" = .operator 3 "?:" := rfl
      rw [Expr.reversePolishWords, List.foldl_append, List.foldl_append, List.foldl_append,
        condition.foldl_words stack first, thenCase.foldl_words _ second,
        elseCase.foldl_words _ third]
      exact Nest.shift_eq role
        [condition.ungrouped.nest, thenCase.ungrouped.nest, elseCase.ungrouped.nest] stack rfl
  | .variable _, stack, name => Nest.shift_eq (Nest.Role.ofText_name name) [] stack rfl
  | .assign target value, stack, ⟨name, printable⟩ => by
      have pushed := Nest.shift_name name (value.ungrouped.nest :: stack)
      rw [Expr.reversePolishWords, List.foldl_append, value.foldl_words stack printable,
        List.foldl_cons, pushed]
      exact Nest.shift_eq rfl [value.ungrouped.nest, .word target.name.lexeme] stack rfl
  | .call callee _ arguments, stack, ⟨_, first, others⟩ => by
      have role := Nest.Role.ofText_call arguments.length
      have count
          : arguments.length + 1
            = (callee.ungrouped.nest :: exprNests (ungroupedExprs arguments)).length := by
        rw [List.length_cons, length_exprNests, length_ungroupedExprs]
      have stacked := Nest.shift_eq role _ stack count
      rw [List.reverse_cons, List.append_assoc] at stacked
      rw [Expr.reversePolishWords, List.foldl_append, List.foldl_append,
        callee.foldl_words stack first, foldl_arguments arguments _ others]
      exact stacked
  | .get object name, stack, ⟨among, printable⟩ => by
      have pushed := Nest.shift_name among (object.ungrouped.nest :: stack)
      have other := Expr.nest_ne_super (object.ungrouped_printable printable)
      rw [Expr.reversePolishWords, List.foldl_append, object.foldl_words stack printable,
        List.foldl_cons, pushed, Expr.ungrouped, Expr.nest, ← Nest.property_of_ne other]
      exact Nest.shift_eq rfl [object.ungrouped.nest, .word name.lexeme] stack rfl
  | .set object name value, stack, ⟨among, first, second⟩ => by
      have pushed := Nest.shift_name among
        (value.ungrouped.nest :: object.ungrouped.nest :: stack)
      rw [Expr.reversePolishWords, List.foldl_append, List.foldl_append,
        object.foldl_words stack first, value.foldl_words _ second, List.foldl_cons, pushed]
      exact Nest.shift_eq rfl
        [object.ungrouped.nest, value.ungrouped.nest, .word name.lexeme] stack rfl
  | .this _, stack, _ => Nest.shift_eq rfl [] stack rfl
  | .super _ method, stack, ⟨_, among⟩ => by
      have keyword : Nest.shift stack "super" = .word "super" :: stack :=
        Nest.shift_eq rfl [] stack rfl
      have pushed := Nest.shift_name among (.word "super" :: stack)
      rw [Expr.reversePolishWords, List.foldl_cons, keyword, List.foldl_cons, pushed]
      exact Nest.shift_eq rfl [.word "super", .word method.lexeme] stack rfl
  | .function function, stack, parameters => by
      have operands : ∀ text ∈ function.parameters.map (·.lexeme),
          Nest.Role.ofText text = .operand text := by
        rintro text member
        obtain ⟨parameter, listed, rfl⟩ := List.mem_map.1 member
        exact Nest.Role.ofText_name (parameters parameter listed)
      have count : function.parameters.length
          = ((function.parameters.map (·.lexeme)).map Nest.word).length := by
        simp
      rw [Expr.reversePolishWords, List.foldl_append, Nest.foldl_operands stack operands,
        List.foldl_cons, List.foldl_nil,
        Nest.shift_eq (Nest.Role.ofText_fun function.parameters.length) _ stack count,
        List.map_map]
      rfl

/-- Arguments put their nests on the stack, by induction on them. -/
theorem foldl_arguments
    : ∀ (exprs : List SourceExpr) (stack : List Nest),
        exprsPrintable (Literal.ReadBy read) exprs
        → (reversePolishArguments exprs).foldl Nest.shift stack
          = (exprNests (ungroupedExprs exprs)).reverse ++ stack
  | [], _, _ => rfl
  | first :: rest, stack, ⟨printable, others⟩ => by
      rw [reversePolishArguments, List.foldl_append, first.foldl_words stack printable,
        foldl_arguments rest _ others]
      simp [ungroupedExprs, exprNests]
end

-----
-- Plain words

/-- A plain mark followed by a number is a plain word. -/
theorem isPlainWord_counted {mark : String} (plain : IsPlainWord mark) (count : Nat)
    : IsPlainWord (mark ++ toString count) := by
  have chars : (mark ++ toString count).toList = mark.toList ++ Nat.toDigits 10 count := by
    simp [Nat.toString_eq_repr, Nat.toList_repr]
  refine ⟨?_, fun c member => ?_⟩
  · rw [chars]
    exact List.append_ne_nil_of_left_ne_nil plain.nonempty _
  · rw [chars] at member
    rcases List.mem_append.1 member with member | member
    · exact plain.chars c member
    · exact isPlain_of_isDigit (Nat.isDigit_of_mem_toDigits (by decide) (by decide) member)

/-- The word of a unary operator is a plain word. -/
theorem isPlainWord_unaryWord {token : Token} (among : token.Among [.bang, .minus])
    : IsPlainWord (unaryWord token) := by
  unfold unaryWord
  split
  · decide
  · exact among.isPlainWord (by decide) (by decide)

mutual
/-- All words of an expression are plain, by induction on the tree. -/
theorem Expr.plain_words
    : ∀ expr : SourceExpr,
        expr.Printable (Literal.ReadBy read) → ∀ text ∈ expr.reversePolishWords, IsPlainWord text
  | .literal _, printable => List.forall_mem_singleton.2 printable.isPlainWord
  | .grouping inner, printable => inner.plain_words printable
  | .unary _ operand, ⟨operator, printable⟩ =>
      List.forall_mem_append.2
        ⟨operand.plain_words printable, List.forall_mem_singleton.2 (isPlainWord_unaryWord operator)⟩
  | .binary left _ right, ⟨operator, first, second⟩
  | .logical left _ right, ⟨operator, first, second⟩ => by
      have word := operator.isPlainWord (by decide) (by decide)
      exact List.forall_mem_append.2
        ⟨List.forall_mem_append.2 ⟨left.plain_words first, right.plain_words second⟩,
          List.forall_mem_singleton.2 word⟩
  | .conditional condition thenCase elseCase, ⟨first, second, third⟩ => by
      have operands := List.forall_mem_append.2
        ⟨List.forall_mem_append.2 ⟨condition.plain_words first, thenCase.plain_words second⟩,
          elseCase.plain_words third⟩
      exact List.forall_mem_append.2 ⟨operands, List.forall_mem_singleton.2 (by decide)⟩
  | .variable _, name => List.forall_mem_singleton.2 (name.isPlainWord (by decide) (by decide))
  | .assign _ value, ⟨name, printable⟩ => by
      have word := name.isPlainWord (by decide) (by decide)
      exact List.forall_mem_append.2
        ⟨value.plain_words printable,
          List.forall_mem_cons.2 ⟨word, List.forall_mem_singleton.2 (by decide)⟩⟩
  | .call callee _ arguments, ⟨_, first, others⟩ =>
      List.forall_mem_append.2
        ⟨List.forall_mem_append.2 ⟨callee.plain_words first, plain_arguments arguments others⟩,
          List.forall_mem_singleton.2 (isPlainWord_counted (by decide) _)⟩
  | .get object _, ⟨name, printable⟩ => by
      have word := name.isPlainWord (by decide) (by decide)
      exact List.forall_mem_append.2
        ⟨object.plain_words printable,
          List.forall_mem_cons.2 ⟨word, List.forall_mem_singleton.2 (by decide)⟩⟩
  | .set object _ value, ⟨name, first, second⟩ => by
      have word := name.isPlainWord (by decide) (by decide)
      exact List.forall_mem_append.2
        ⟨List.forall_mem_append.2 ⟨object.plain_words first, value.plain_words second⟩,
          List.forall_mem_cons.2 ⟨word, List.forall_mem_singleton.2 (by decide)⟩⟩
  | .this _, _ => List.forall_mem_singleton.2 (by decide)
  | .super _ _, ⟨_, method⟩ => by
      have word := method.isPlainWord (by decide) (by decide)
      exact List.forall_mem_cons.2
        ⟨by decide, List.forall_mem_cons.2 ⟨word, List.forall_mem_singleton.2 (by decide)⟩⟩
  | .function function, parameters => by
      refine List.forall_mem_append.2 ⟨fun text member => ?_, ?_⟩
      · obtain ⟨parameter, listed, rfl⟩ := List.mem_map.1 member
        exact (parameters parameter listed).isPlainWord (by decide) (by decide)
      · exact List.forall_mem_singleton.2 (isPlainWord_counted (by decide) _)

/-- All words of arguments are plain. -/
theorem plain_arguments
    : ∀ exprs : List SourceExpr,
        exprsPrintable (Literal.ReadBy read) exprs
        → ∀ text ∈ reversePolishArguments exprs, IsPlainWord text
  | [], _ => fun _ none => absurd none List.not_mem_nil
  | first :: rest, ⟨printable, others⟩ =>
      List.forall_mem_append.2 ⟨first.plain_words printable, plain_arguments rest others⟩
end

-----
-- Texts

/-- Expressions have the same reverse Polish text just if what is printed of them is the same. -/
theorem Expr.reversePolish_eq_iff {left right : SourceExpr}
    (leftPrintable : left.Printable (Literal.ReadBy read))
    (rightPrintable : right.Printable (Literal.ReadBy read))
    : left.reversePolish = right.reversePolish ↔ left.ungrouped.bare = right.ungrouped.bare := by
  constructor
  · intro same
    have texts : left.reversePolishWords = right.reversePolishWords :=
      words_inj (left.plain_words leftPrintable) (right.plain_words rightPrintable) same
    have pushed : [left.ungrouped.nest] = [right.ungrouped.nest] := by
      rw [← left.foldl_words [] leftPrintable, texts, right.foldl_words [] rightPrintable]
    rw [← left.ungrouped.expr_nest (left.ungrouped_printable leftPrintable),
      List.singleton_inj.1 pushed,
      right.ungrouped.expr_nest (right.ungrouped_printable rightPrintable)]
  · intro same
    rw [Expr.reversePolish, Expr.reversePolish, ← left.words_ungrouped_bare, same,
      right.words_ungrouped_bare]

end

end Lox
