import Lox.Proofs.Grammar.Pieces
import Lox.Proofs.Printing.Words

/-! Expressions with the operators in front, read back.

The parenthesized text of an expression is a nest of words. Each list in it says by its first word
and by the number of parts behind it which sort of expression it stands for.
-/

namespace Lox

open Grammar (SourceExpr reference binaryKinds)

variable {ρ : Type}

-----
-- What is printed of an expression

mutual
/-- What is left of an expression without the lines of its tokens and the bodies of its functions.
-/
def Expr.bare : Expr ρ → Expr ρ
  | .literal value => .literal value
  | .grouping inner => .grouping inner.bare
  | .unary operator operand => .unary operator.bare operand.bare
  | .binary left operator right => .binary left.bare operator.bare right.bare
  | .logical left operator right => .logical left.bare operator.bare right.bare
  | .conditional condition thenCase elseCase =>
      .conditional condition.bare thenCase.bare elseCase.bare
  | .variable target => .variable { target with name := target.name.bare }
  | .assign target value => .assign { target with name := target.name.bare } value.bare
  | .call callee paren arguments => .call callee.bare paren.bare (bareExprs arguments)
  | .get object name => .get object.bare name.bare
  | .set object name value => .set object.bare name.bare value.bare
  | .this keyword => .this { keyword with name := keyword.name.bare }
  | .super keyword method => .super { keyword with name := keyword.name.bare } method.bare
  | .function function => .function (.mk (function.parameters.map Token.bare) [])

def bareExprs : List (Expr ρ) → List (Expr ρ)
  | [] => []
  | first :: rest => first.bare :: bareExprs rest
end

mutual
/-- The literals that are printed, in their order. The bodies of functions are left out. -/
def Expr.literals : Expr ρ → List Literal
  | .literal value => [value]
  | .variable _ | .this _ | .super _ _ | .function _ => []
  | .grouping inner => inner.literals
  | .unary _ operand => operand.literals
  | .binary left _ right => left.literals ++ right.literals
  | .logical left _ right => left.literals ++ right.literals
  | .conditional condition thenCase elseCase =>
      condition.literals ++ (thenCase.literals ++ elseCase.literals)
  | .assign _ value => value.literals
  | .call callee _ arguments => callee.literals ++ exprsLiterals arguments
  | .get object _ => object.literals
  | .set object _ value => object.literals ++ value.literals

def exprsLiterals : List (Expr ρ) → List Literal
  | [] => []
  | first :: rest => first.literals ++ exprsLiterals rest
end

mutual
/-- The tokens that are printed are of the kinds that their places ask for, and so are the
literals. -/
def Expr.Printable (admitted : Literal → Prop) : Expr ρ → Prop
  | .literal value => admitted value
  | .grouping inner => inner.Printable admitted
  | .unary operator operand =>
      operator.Among [.bang, .minus] ∧ operand.Printable admitted
  | .binary left operator right =>
      operator.Among binaryKinds ∧ left.Printable admitted ∧ right.Printable admitted
  | .logical left operator right =>
      operator.Among [.andWord, .orWord] ∧ left.Printable admitted ∧ right.Printable admitted
  | .conditional condition thenCase elseCase =>
      condition.Printable admitted ∧ thenCase.Printable admitted ∧ elseCase.Printable admitted
  | .variable target => target.name.Among [.identifier]
  | .assign target value => target.name.Among [.identifier] ∧ value.Printable admitted
  | .call callee paren arguments =>
      paren.Among [.rightParen] ∧ callee.Printable admitted ∧ exprsPrintable admitted arguments
  | .get object name => name.Among [.identifier] ∧ object.Printable admitted
  | .set object name value =>
      name.Among [.identifier] ∧ object.Printable admitted ∧ value.Printable admitted
  | .this keyword => keyword.name.Among [.thisWord]
  | .super keyword method => keyword.name.Among [.superWord] ∧ method.Among [.identifier]
  | .function function => ∀ parameter ∈ function.parameters, parameter.Among [.identifier]

def exprsPrintable (admitted : Literal → Prop) : List (Expr ρ) → Prop
  | [] => True
  | first :: rest => first.Printable admitted ∧ exprsPrintable admitted rest
end

-----
-- Nests

mutual
def Expr.nest : Expr ρ → Nest
  | .literal value => .word value.text
  | .grouping inner => .list [.word "group", inner.nest]
  | .unary operator operand => .list [.word operator.lexeme, operand.nest]
  | .binary left operator right => .list [.word operator.lexeme, left.nest, right.nest]
  | .logical left operator right => .list [.word operator.lexeme, left.nest, right.nest]
  | .conditional condition thenCase elseCase =>
      .list [.word "?:", condition.nest, thenCase.nest, elseCase.nest]
  | .variable target => .word target.name.lexeme
  | .assign target value => .list [.word "=", .word target.name.lexeme, value.nest]
  | .call callee _ arguments => .list (.word "call" :: callee.nest :: exprNests arguments)
  | .get object name => .list [.word ".", object.nest, .word name.lexeme]
  | .set object name value =>
      .list [.word "=", .list [.word ".", object.nest, .word name.lexeme], value.nest]
  | .this _ => .word "this"
  | .super _ method => .list [.word "super", .word method.lexeme]
  | .function function =>
      .list [.word "fun", .list (function.parameters.map (.word ·.lexeme))]

def exprNests : List (Expr ρ) → List Nest
  | [] => []
  | first :: rest => first.nest :: exprNests rest
end

mutual
/-- The text of the nest is what is printed, by induction on the tree. -/
theorem Expr.text_nest : ∀ expr : Expr ρ, expr.nest.text = expr.parenthesized
  | .literal _ | .variable _ | .this _ => rfl
  | .super _ _ => by simp [Expr.nest, Nest.text, nestTexts, Expr.parenthesized]
  | .function function => by
      simp [Expr.nest, Nest.text, nestTexts, nestTexts_eq_map, Expr.parenthesized,
        Function.comp_def]
  | .grouping inner => by
      simp [Expr.nest, Nest.text, nestTexts, Expr.parenthesized, inner.text_nest]
  | .unary _ operand => by
      simp [Expr.nest, Nest.text, nestTexts, Expr.parenthesized, operand.text_nest]
  | .binary left _ right | .logical left _ right => by
      simp [Expr.nest, Nest.text, nestTexts, Expr.parenthesized, left.text_nest, right.text_nest]
  | .conditional condition thenCase elseCase => by
      simp [Expr.nest, Nest.text, nestTexts, Expr.parenthesized, condition.text_nest,
        thenCase.text_nest, elseCase.text_nest]
  | .assign _ value => by
      simp [Expr.nest, Nest.text, nestTexts, Expr.parenthesized, value.text_nest]
  | .call callee _ arguments => by
      simp [Expr.nest, Nest.text, nestTexts, Expr.parenthesized, callee.text_nest,
        nestTexts_exprNests arguments]
  | .get object _ => by
      simp [Expr.nest, Nest.text, nestTexts, Expr.parenthesized, object.text_nest]
  | .set object _ value => by
      simp [Expr.nest, Nest.text, nestTexts, Expr.parenthesized, object.text_nest,
        value.text_nest]

/-- The texts of the nests are what is printed for the arguments. -/
theorem nestTexts_exprNests
    : ∀ exprs : List (Expr ρ), nestTexts (exprNests exprs) = parenthesizedArguments exprs
  | [] => rfl
  | first :: rest => by
      simp [exprNests, nestTexts, parenthesizedArguments, first.text_nest,
        nestTexts_exprNests rest]
end

/-- A bare token has the same spelling. -/
@[simp] theorem Token.bare_lexeme (token : Token) : token.bare.lexeme = token.lexeme :=
  rfl

mutual
/-- Lines and bodies of functions are not printed. -/
theorem Expr.nest_bare : ∀ expr : Expr ρ, expr.bare.nest = expr.nest
  | .literal _ | .variable _ | .this _ | .super _ _ => rfl
  | .function function => by
      simp [Expr.bare, Expr.nest, Lambda.parameters, Function.comp_def]
  | .grouping inner => by simp [Expr.bare, Expr.nest, inner.nest_bare]
  | .unary _ operand => by simp [Expr.bare, Expr.nest, operand.nest_bare]
  | .binary left _ right | .logical left _ right => by
      simp [Expr.bare, Expr.nest, left.nest_bare, right.nest_bare]
  | .conditional condition thenCase elseCase => by
      simp [Expr.bare, Expr.nest, condition.nest_bare, thenCase.nest_bare, elseCase.nest_bare]
  | .assign _ value => by simp [Expr.bare, Expr.nest, value.nest_bare]
  | .call callee _ arguments => by
      simp [Expr.bare, Expr.nest, callee.nest_bare, exprNests_bareExprs arguments]
  | .get object _ => by simp [Expr.bare, Expr.nest, object.nest_bare]
  | .set object _ value => by simp [Expr.bare, Expr.nest, object.nest_bare, value.nest_bare]

/-- Bare expressions have the same nests. -/
theorem exprNests_bareExprs : ∀ exprs : List (Expr ρ), exprNests (bareExprs exprs) = exprNests exprs
  | [] => rfl
  | first :: rest => by
      simp [bareExprs, exprNests, first.nest_bare, exprNests_bareExprs rest]
end

-----
-- Literals

/-- Other values cannot be confused with names, and the number can be told from its text. -/
def Literal.ReadBy (read : String → Float) : Literal → Prop
  | .nil | .boolean _ => True
  | .number value => value.isFinite = true ∧ read (numberText value) = value
  | .string _ => False

/-- The text of a literal that can be read is a plain word. -/
theorem Literal.ReadBy.isPlainWord {read : String → Float} {literal : Literal}
    (readable : literal.ReadBy read)
    : IsPlainWord literal.text := by
  cases literal with
  | nil => decide
  | boolean value => cases value <;> decide
  | number value => exact (isNumberWord_numberText readable.1).isPlainWord
  | string value => exact readable.elim

section

variable {admitted : Literal → Prop}

mutual
/-- Nothing but words is printed of a printable expression. -/
theorem Expr.plain_nest (plain : ∀ literal, admitted literal → IsPlainWord literal.text)
    : ∀ expr : Expr ρ, expr.Printable admitted → expr.nest.Plain
  | .literal value, printable => plain value printable
  | .grouping inner, printable =>
      ⟨show IsPlainWord "group" by decide, inner.plain_nest plain printable, trivial⟩
  | .unary _ operand, ⟨operator, printable⟩ =>
      ⟨operator.isPlainWord (by decide) (by decide), operand.plain_nest plain printable, trivial⟩
  | .binary left _ right, ⟨operator, first, second⟩ =>
      ⟨operator.isPlainWord (by decide) (by decide), left.plain_nest plain first,
        right.plain_nest plain second, trivial⟩
  | .logical left _ right, ⟨operator, first, second⟩ =>
      ⟨operator.isPlainWord (by decide) (by decide), left.plain_nest plain first,
        right.plain_nest plain second, trivial⟩
  | .conditional condition thenCase elseCase, ⟨first, second, third⟩ =>
      ⟨show IsPlainWord "?:" by decide, condition.plain_nest plain first,
        thenCase.plain_nest plain second, elseCase.plain_nest plain third, trivial⟩
  | .variable _, name => name.isPlainWord (by decide) (by decide)
  | .assign _ value, ⟨name, printable⟩ =>
      ⟨show IsPlainWord "=" by decide, name.isPlainWord (by decide) (by decide),
        value.plain_nest plain printable, trivial⟩
  | .call callee _ arguments, ⟨_, first, others⟩ =>
      ⟨show IsPlainWord "call" by decide, callee.plain_nest plain first,
        plain_exprNests plain arguments others⟩
  | .get object _, ⟨name, printable⟩ =>
      ⟨show IsPlainWord "." by decide, object.plain_nest plain printable,
        name.isPlainWord (by decide) (by decide), trivial⟩
  | .set object _ value, ⟨name, first, second⟩ =>
      ⟨show IsPlainWord "=" by decide,
        ⟨show IsPlainWord "." by decide, object.plain_nest plain first,
          name.isPlainWord (by decide) (by decide), trivial⟩,
        value.plain_nest plain second, trivial⟩
  | .this _, _ => show IsPlainWord "this" by decide
  | .super _ _, ⟨_, method⟩ =>
      ⟨show IsPlainWord "super" by decide, method.isPlainWord (by decide) (by decide), trivial⟩
  | .function function, parameters => by
      refine ⟨show IsPlainWord "fun" by decide, (nestsPlain_iff _).2 ?_, trivial⟩
      rintro part member
      obtain ⟨parameter, listed, rfl⟩ := List.mem_map.1 member
      exact (parameters parameter listed).isPlainWord (by decide) (by decide)

/-- The nests of expressions that can be printed have plain words only. -/
theorem plain_exprNests (plain : ∀ literal, admitted literal → IsPlainWord literal.text)
    : ∀ exprs : List (Expr ρ), exprsPrintable admitted exprs → NestsPlain (exprNests exprs)
  | [], _ => trivial
  | first :: rest, ⟨printable, others⟩ =>
      ⟨first.plain_nest plain printable, plain_exprNests plain rest others⟩
end

end

-----
-- Reading nests

namespace Nest

/-- What a word stands for on its own. -/
def leaf (read : String → Float) (text : String) : SourceExpr :=
  match TokenKind.ofText text with
  | .nilWord => .literal .nil
  | .trueWord => .literal (.boolean true)
  | .falseWord => .literal (.boolean false)
  | .thisWord => .this (reference (.ofText text))
  | _ =>
      if isName text then .variable (reference (.ofText text))
      else .literal (.number (read text))

def word? : Nest → Option String
  | .word text => some text
  | .list _ => none

/-- The words inside parentheses. -/
def words : Nest → List String
  | .word _ => []
  | .list parts => parts.filterMap word?

/-- What the words say that the printer puts in front of its own accord. -/
def marked : String → List SourceExpr → SourceExpr
  | "group", [inner] => .grouping inner
  | "?:", [condition, thenCase, elseCase] => .conditional condition thenCase elseCase
  | "call", callee :: arguments => .call callee (.ofText ")") arguments
  | _, _ => .literal .nil

/-- What a list stands for, by its first word, the parts behind it and what those stand for. What is
not printed of any expression is read as `nil`. -/
def applied (head : String) (parts : List Nest) (operands : List SourceExpr) : SourceExpr :=
  match TokenKind.ofText head, operands with
  | .identifier, operands => marked head operands
  | .funWord, _ => .function (.mk ((parts.flatMap words).map .ofText) [])
  | .superWord, [.variable method] => .super (reference (.ofText head)) method.name
  | .dot, [object, .variable name] => .get object name.name
  | .equal, [.variable target, value] => .assign target value
  | .equal, [.get object name, value] => .set object name value
  | .andWord, [left, right] | .orWord, [left, right] => .logical left (.ofText head) right
  | _, [operand] => .unary (.ofText head) operand
  | _, [left, right] => .binary left (.ofText head) right
  | _, _ => .literal .nil

mutual
def expr (read : String → Float) : Nest → SourceExpr
  | .word text => leaf read text
  | .list (.word head :: parts) => applied head parts (exprs read parts)
  | .list _ => .literal .nil

def exprs (read : String → Float) : List Nest → List SourceExpr
  | [] => []
  | part :: rest => part.expr read :: exprs read rest
end

end Nest

-----
-- Printing and reading

section

variable {read : String → Float}

/-- A literal is read from its text. -/
theorem Literal.ReadBy.expr_word {literal : Literal} (readable : literal.ReadBy read)
    : (Nest.word literal.text).expr read = .literal literal := by
  cases literal with
  | nil => rfl
  | boolean value => cases value <;> rfl
  | number value =>
      have word := isNumberWord_numberText readable.1
      simp [Nest.expr, Nest.leaf, Literal.text, word.ofText_eq, word.isName_eq, readable.2]
  | string value => exact readable.elim

/-- A variable is read from its spelling. -/
theorem Token.Among.expr_word (read : String → Float) {token : Token}
    (among : token.Among [.identifier])
    : (Nest.word token.lexeme).expr read = .variable (reference token.bare) := by
  have kind : TokenKind.ofText token.lexeme = .identifier :=
    (among.ofText_kind (by decide)).trans (List.mem_singleton.1 among.kind)
  simp [Nest.expr, Nest.leaf, kind, among.isName_lexeme, among.bare_eq]

/-- A property is read from its dot. -/
theorem Nest.expr_property (object : Nest) {name : Token} (among : name.Among [.identifier])
    : (Nest.list [.word ".", object, .word name.lexeme]).expr read
        = .get (object.expr read) name.bare := by
  rw [Nest.expr, Nest.exprs, Nest.exprs, Nest.exprs, among.expr_word]
  rfl

/-- A function is read from its parameters. -/
theorem Nest.expr_function {parameters : List Token}
    (among : ∀ parameter ∈ parameters, parameter.Among [.identifier])
    : (Nest.list [.word "fun", .list (parameters.map (.word ·.lexeme))]).expr read
        = .function (.mk (parameters.map Token.bare) []) := by
  have words
      : [Nest.list (parameters.map (.word ·.lexeme))].flatMap Nest.words
        = parameters.map (·.lexeme) := by
    simp [Nest.words, Nest.word?, List.filterMap_map, Function.comp_def]
  have tokens : parameters.map Token.bare = (parameters.map (·.lexeme)).map .ofText := by
    rw [List.map_map]
    exact List.map_congr_left fun parameter listed => (among parameter listed).bare_eq (by decide)
  rw [tokens, ← words]
  rfl

mutual
/-- A printable expression is read back but for what is not printed of it. -/
theorem Expr.expr_nest
    : ∀ expr : SourceExpr, expr.Printable (Literal.ReadBy read) → expr.nest.expr read = expr.bare
  | .literal _, printable => printable.expr_word
  | .grouping inner, printable => by
      have ih := inner.expr_nest printable
      simp only [Expr.nest, Nest.expr, Nest.exprs, ih]
      rfl
  | .unary _ operand, ⟨operator, printable⟩ => by
      have ih := operand.expr_nest printable
      have kind := operator.ofText_kind (by decide)
      have token := operator.bare_eq (by decide)
      simp only [Expr.nest, Nest.expr, Nest.exprs, ih, Nest.applied, kind, Expr.bare, token]
      rcases List.mem_cons.1 operator.kind with negates | negates
      · simp only [negates]
      · simp only [List.mem_singleton.1 negates]
  | .binary left _ right, ⟨operator, first, second⟩ => by
      have ih := left.expr_nest first
      have ih' := right.expr_nest second
      have kind := operator.ofText_kind (by decide)
      have token := operator.bare_eq (by decide)
      simp only [Expr.nest, Nest.expr, Nest.exprs, ih, ih', Nest.applied, kind, Expr.bare, token]
      have listed := operator.kind
      simp only [binaryKinds, List.mem_cons, List.not_mem_nil, or_false] at listed
      rcases listed with same | same | same | same | same | same | same | same | same | same | same
      all_goals simp only [same]
  | .logical left _ right, ⟨operator, first, second⟩ => by
      have ih := left.expr_nest first
      have ih' := right.expr_nest second
      have kind := operator.ofText_kind (by decide)
      have token := operator.bare_eq (by decide)
      simp only [Expr.nest, Nest.expr, Nest.exprs, ih, ih', Nest.applied, kind, Expr.bare, token]
      rcases List.mem_cons.1 operator.kind with same | same
      · simp only [same]
      · simp only [List.mem_singleton.1 same]
  | .conditional condition thenCase elseCase, ⟨first, second, third⟩ => by
      have ih := condition.expr_nest first
      have ih' := thenCase.expr_nest second
      have ih'' := elseCase.expr_nest third
      simp only [Expr.nest, Nest.expr, Nest.exprs, ih, ih', ih'']
      rfl
  | .variable _, name => name.expr_word read
  | .assign _ value, ⟨name, printable⟩ => by
      have ih := value.expr_nest printable
      rw [Expr.nest, Nest.expr, Nest.exprs, Nest.exprs, Nest.exprs, name.expr_word, ih]
      rfl
  | .call callee _ arguments, ⟨paren, first, others⟩ => by
      have ih := callee.expr_nest first
      have ih' := exprs_exprNests arguments others
      simp only [Expr.nest, Nest.expr, Nest.exprs, ih, ih', Expr.bare,
        paren.bare_keyword (by decide) rfl]
      rfl
  | .get object _, ⟨name, printable⟩ => by
      rw [Expr.nest, Nest.expr_property _ name, object.expr_nest printable, Expr.bare]
  | .set object _ value, ⟨name, first, second⟩ => by
      rw [Expr.nest, Nest.expr, Nest.exprs, Nest.exprs, Nest.exprs, Nest.expr_property _ name,
        object.expr_nest first, value.expr_nest second]
      rfl
  | .this _, keyword => by
      simp only [Expr.nest, Expr.bare, keyword.bare_keyword (by decide) rfl]
      rfl
  | .super _ _, ⟨keyword, method⟩ => by
      rw [Expr.nest, Nest.expr, Nest.exprs, Nest.exprs, method.expr_word, Expr.bare,
        keyword.bare_keyword (by decide) rfl]
      rfl
  | .function _, parameters => Nest.expr_function parameters

/-- Arguments are read from their nests. -/
theorem exprs_exprNests
    : ∀ exprs : List SourceExpr,
        exprsPrintable (Literal.ReadBy read) exprs
        → Nest.exprs read (exprNests exprs) = bareExprs exprs
  | [], _ => rfl
  | first :: rest, ⟨printable, others⟩ => by
      simp only [exprNests, Nest.exprs, bareExprs, first.expr_nest printable,
        exprs_exprNests rest others]
end

-----
-- Texts

/-- Expressions have the same parenthesized text just if what is printed of them is the same. -/
theorem Expr.parenthesized_eq_iff {left right : SourceExpr}
    (leftPrintable : left.Printable (Literal.ReadBy read))
    (rightPrintable : right.Printable (Literal.ReadBy read))
    : left.parenthesized = right.parenthesized ↔ left.bare = right.bare := by
  have plain (literal : Literal) (readable : literal.ReadBy read) : IsPlainWord literal.text :=
    readable.isPlainWord
  constructor
  · intro same
    have nests : left.nest = right.nest := by
      refine Nest.text_inj (left.plain_nest plain leftPrintable)
        (right.plain_nest plain rightPrintable) ?_
      rw [left.text_nest, right.text_nest, same]
    rw [← left.expr_nest leftPrintable, nests, right.expr_nest rightPrintable]
  · intro same
    rw [← left.text_nest, ← left.nest_bare, same, right.nest_bare, right.text_nest]

end

end Lox
