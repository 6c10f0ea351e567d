import Lox.Proofs.Grammar.Gathering
import Lox.Proofs.Printing.ReversePolish
import Lox.Proofs.Token.Layout

/-! Printed expressions are uniquely readable.

Every expression that is read from a source text is printable: its tokens are those of the text, at
the places that the grammar has for them. If it holds no strings and its numbers can be told apart,
the expression can be told from either of its texts.
-/

namespace Lox

open Grammar (SourceExpr SourceStmt Piece Place parameterNames?)

variable {ρ : Type}

-----
-- Expressions inside trees

mutual
/-- The expression and all others in it, those in the bodies of functions included. -/
def Expr.within : Expr ρ → List (Expr ρ)
  | .literal value => [.literal value]
  | .grouping inner => .grouping inner :: inner.within
  | .unary operator operand => .unary operator operand :: operand.within
  | .binary left operator right => .binary left operator right :: (left.within ++ right.within)
  | .logical left operator right => .logical left operator right :: (left.within ++ right.within)
  | .conditional condition thenCase elseCase =>
      .conditional condition thenCase elseCase
        :: (condition.within ++ (thenCase.within ++ elseCase.within))
  | .variable target => [.variable target]
  | .assign target value => .assign target value :: value.within
  | .call callee paren arguments =>
      .call callee paren arguments :: (callee.within ++ exprsWithin arguments)
  | .get object name => .get object name :: object.within
  | .set object name value => .set object name value :: (object.within ++ value.within)
  | .this keyword => [.this keyword]
  | .super keyword method => [.super keyword method]
  | .function function => .function function :: function.within

def exprsWithin : List (Expr ρ) → List (Expr ρ)
  | [] => []
  | first :: rest => first.within ++ exprsWithin rest

def optionalWithin : Option (Expr ρ) → List (Expr ρ)
  | none => []
  | some value => value.within

def Stmt.within : Stmt ρ → List (Expr ρ)
  | .expression value | .print value => value.within
  | .printLine value => optionalWithin value
  | .variable _ initial => optionalWithin initial
  | .block statements => stmtsWithin statements
  | .branch condition thenBranch elseBranch =>
      condition.within ++ (thenBranch.within ++ elseWithin elseBranch)
  | .loop condition body => condition.within ++ body.within
  | .breakLoop _ => []
  | .returnValue _ value => optionalWithin value
  | .function _ function => function.within
  | .class _ _ methods => methodsWithin methods

def stmtsWithin : List (Stmt ρ) → List (Expr ρ)
  | [] => []
  | first :: rest => first.within ++ stmtsWithin rest

def elseWithin : Option (Stmt ρ) → List (Expr ρ)
  | none => []
  | some branch => branch.within

def Lambda.within : Lambda ρ → List (Expr ρ)
  | .mk _ body => stmtsWithin body

def methodsWithin : List (Method ρ) → List (Expr ρ)
  | [] => []
  | .mk _ function :: rest => function.within ++ methodsWithin rest
end

/-- An expression is among those within it. -/
theorem Expr.mem_within (expr : Expr ρ) : expr ∈ expr.within := by
  cases expr <;> simp [Expr.within]

/-- The expressions within a row are those within each. -/
theorem exprsWithin_eq_flatMap (exprs : List (Expr ρ))
    : exprsWithin exprs = exprs.flatMap Expr.within := by
  induction exprs with
  | nil => rfl
  | cons first rest ih => simp [exprsWithin, ih]

/-- The expressions within an optional one are those within it. -/
theorem optionalWithin_eq_flatMap (value : Option (Expr ρ))
    : optionalWithin value = value.toList.flatMap Expr.within := by
  cases value <;> simp [optionalWithin]

/-- The expressions within statements are those within each. -/
theorem stmtsWithin_eq_flatMap (stmts : List (Stmt ρ))
    : stmtsWithin stmts = stmts.flatMap Stmt.within := by
  induction stmts with
  | nil => rfl
  | cons first rest ih => simp [stmtsWithin, ih]

/-- The expressions within a branch are those within it. -/
theorem elseWithin_eq_flatMap (branch : Option (Stmt ρ))
    : elseWithin branch = branch.toList.flatMap Stmt.within := by
  cases branch <;> simp [elseWithin]

/-- The expressions within methods are those within their functions. -/
theorem methodsWithin_eq_flatMap (methods : List (Method ρ))
    : methodsWithin methods = methods.flatMap (·.function.within) := by
  induction methods with
  | nil => rfl
  | cons first rest ih =>
      obtain ⟨name, function⟩ := first
      simp [methodsWithin, Method.function, ih]

/-- The expression is part of what is read from some source text, at some depth, with mistakes in it
or without. -/
def Expr.IsRead (expr : SourceExpr) : Prop :=
  ∃ allowExpression source depth,
    expr ∈ stmtsWithin (parse allowExpression (scan source).tokens depth).statements

-----
-- What is read

/-- An expression is printable as far as its literals are. -/
def Expr.Written (expr : Expr ρ) : Prop :=
  ∀ admitted : Literal → Prop,
    (∀ literal ∈ expr.literals, admitted literal) → expr.Printable admitted

/-- Written expressions can be printed if their literals can. -/
theorem exprsPrintable_of_written {exprs : List (Expr ρ)} (written : ∀ expr ∈ exprs, expr.Written)
    {admitted : Literal → Prop} (all : ∀ literal ∈ exprsLiterals exprs, admitted literal)
    : exprsPrintable admitted exprs := by
  induction exprs with
  | nil => trivial
  | cons first rest ih =>
      obtain ⟨front, back⟩ := List.forall_mem_append.1 all
      obtain ⟨firstWritten, others⟩ := List.forall_mem_cons.1 written
      exact ⟨firstWritten admitted front, ih others back⟩

/-- Names listed in parentheses were read as variables. -/
theorem among_of_parameterNames? {admitted : Literal → Prop}
    : ∀ {inner : SourceExpr},
        inner.Printable admitted
        → ∀ {parameters : List Token},
            parameterNames? inner = some parameters
            → ∀ parameter ∈ parameters, parameter.Among [.identifier]
  | .variable _, name, _, listed => by
      obtain rfl := Option.some.inj listed
      exact List.forall_mem_singleton.2 name
  | .binary left operator right, ⟨_, first, second⟩, _, listed => by
      by_cases comma : operator.kind = .comma
      · rw [parameterNames?, if_pos comma] at listed
        obtain ⟨front, frontListed, rest⟩ := Option.bind_eq_some_iff.1 listed
        obtain ⟨back, backListed, joined⟩ := Option.bind_eq_some_iff.1 rest
        obtain rfl := Option.some.inj joined
        exact List.forall_mem_append.2
          ⟨among_of_parameterNames? first frontListed, among_of_parameterNames? second backListed⟩
      · rw [parameterNames?, if_neg comma] at listed
        cases listed
  | .literal _, _, _, listed | .grouping _, _, _, listed | .unary _ _, _, _, listed
  | .logical _ _ _, _, _, listed | .conditional _ _ _, _, _, listed | .assign _ _, _, _, listed
  | .call _ _ _, _, _, listed | .get _ _, _, _, listed | .set _ _ _, _, _, listed
  | .this _, _, _, listed | .super _ _, _, _, listed | .function _, _, _, listed => by
      cases listed

namespace Grammar

/-- The expressions in a piece. -/
def Piece.within : Piece → List SourceExpr
  | .token _ | .name _ => []
  | .expression value => value.within
  | .statement _ stmt | .declaration _ stmt => stmt.within
  | .function literal => literal.within
  | .method declared => declared.function.within

/-- The tokens of a piece are at their places. -/
def Piece.Placed : Piece → Prop
  | .token word => Lexeme word.kind word.lexeme.toList word.literal
  | .name word => word.Among [.identifier]
  | .function literal => ∀ parameter ∈ literal.parameters, parameter.Among [.identifier]
  | _ => True

/-- All expressions in the piece are written as they should be. -/
structure Piece.Sound (piece : Piece) : Prop where
  placed : piece.Placed
  written : ∀ expr ∈ piece.within, expr.Written

/-- An expression that was read from tokens is written. -/
theorem Piece.Sound.expression {value : SourceExpr} (sound : (Piece.expression value).Sound)
    : value.Written :=
  sound.written value value.mem_within

/-- An expression in a larger piece is in a piece of it, if it is not the larger piece itself. -/
theorem Forms.within {pieces : List Piece} {piece : Piece} (forms : Forms pieces piece)
    {expr : SourceExpr} (found : expr ∈ piece.within)
    : piece = .expression expr ∨ expr ∈ pieces.flatMap Piece.within := by
  cases forms
  all_goals
    simp_all [Piece.within, Expr.within, Stmt.within, Lambda.within, Method.function,
      exprsWithin_eq_flatMap, optionalWithin_eq_flatMap, stmtsWithin_eq_flatMap,
      elseWithin_eq_flatMap, methodsWithin_eq_flatMap, List.flatMap_map, or_comm, eq_comm]
  -- The target of an assignment is left out of the larger piece.
  case assign => exact found.imp_right .inr
  case set => exact found.imp_right .inr

section

variable {pieces : List Piece}

/-- A larger piece has its tokens at their places, if its pieces are as they should be. -/
theorem Forms.placed {piece : Piece} (forms : Forms pieces piece)
    (sound : ∀ part ∈ pieces, part.Sound)
    : piece.Placed := by
  cases forms with
  | name kind =>
      have written := (sound _ List.mem_cons_self).placed
      exact ⟨written, List.mem_singleton.2 kind⟩
  | function =>
      intro parameter member
      exact (sound (.name parameter)
        (List.mem_append_left _ (List.mem_map_of_mem member))).placed
  | arrow listed =>
      have inner := (sound _ List.mem_cons_self).expression
      exact among_of_parameterNames? (inner _ fun _ => id) listed
  | _ => trivial

/-- So is a larger expression. -/
theorem Forms.written {expr : SourceExpr} (forms : Forms pieces (.expression expr))
    (sound : ∀ part ∈ pieces, part.Sound)
    : expr.Written := by
  intro admitted all
  cases forms with
  | falseWord | trueWord | always | nilWord | literal => exact all _ List.mem_cons_self
  | @this token kind =>
      exact ⟨(sound (.token token) (by simp)).placed, List.mem_singleton.2 kind⟩
  | @«variable» name => exact (sound (.name name) (by simp)).placed
  | @super keyword method kind =>
      exact ⟨⟨(sound (.token keyword) (by simp)).placed, List.mem_singleton.2 kind⟩,
        (sound (.name method) (by simp)).placed⟩
  | @grouping inner => exact (sound (.expression inner) (by simp)).expression admitted all
  | @unary operator operand negates =>
      exact ⟨⟨(sound (.token operator) (by simp)).placed, negates⟩,
        (sound (.expression operand) (by simp)).expression admitted all⟩
  | @binary left operator right joined | @logical left operator right joined =>
      obtain ⟨front, back⟩ := List.forall_mem_append.1 all
      exact ⟨⟨(sound (.token operator) (by simp)).placed, joined⟩,
        (sound (.expression left) (by simp)).expression admitted front,
        (sound (.expression right) (by simp)).expression admitted back⟩
  | @conditional condition thenCase elseCase =>
      obtain ⟨front, others⟩ := List.forall_mem_append.1 all
      obtain ⟨middle, back⟩ := List.forall_mem_append.1 others
      exact ⟨(sound (.expression condition) (by simp)).expression admitted front,
        (sound (.expression thenCase) (by simp)).expression admitted middle,
        (sound (.expression elseCase) (by simp)).expression admitted back⟩
  | @assign target value =>
      have name := (sound (.expression (.variable target)) (by simp)).expression admitted nofun
      exact ⟨name, (sound (.expression value) (by simp)).expression admitted all⟩
  | @set object name value =>
      obtain ⟨front, back⟩ := List.forall_mem_append.1 all
      obtain ⟨among, printable⟩ :=
        (sound (.expression (.get object name)) (by simp)).expression admitted front
      exact ⟨among, printable, (sound (.expression value) (by simp)).expression admitted back⟩
  | @get object name =>
      exact ⟨(sound (.name name) (by simp)).placed,
        (sound (.expression object) (by simp)).expression admitted all⟩
  | @call callee paren arguments closes =>
      obtain ⟨front, back⟩ := List.forall_mem_append.1 all
      have written : ∀ argument ∈ arguments, argument.Written := fun argument member =>
        (sound (.expression argument) (by simp [member])).expression
      exact ⟨⟨(sound (.token paren) (by simp)).placed, List.mem_singleton.2 closes⟩,
        (sound (.expression callee) (by simp)).expression admitted front,
        exprsPrintable_of_written written back⟩
  | @literalFunction function => exact (sound (.function function) (by simp)).placed

/-- What is formed of pieces that are as they should be is so, too. -/
theorem kept_sound : Kept Piece.Sound where
  forms forms sound := by
    refine ⟨forms.placed sound, fun expr found => ?_⟩
    rcases forms.within found with rfl | found
    · exact forms.written sound
    · obtain ⟨part, member, inside⟩ := List.mem_flatMap.1 found
      exact (sound part member).written expr inside
  breakLoop _ _ := ⟨trivial, nofun⟩

end

end Grammar

/-- Every expression that is read is written as it should be. -/
theorem Expr.IsRead.written {expr : SourceExpr} (isRead : expr.IsRead) : expr.Written := by
  obtain ⟨allowExpression, source, depth, found⟩ := isRead
  obtain ⟨rest, gathered⟩ := Grammar.parse_gathers allowExpression (scan source).tokens depth
  have words : Place.Holds Piece.Sound { ahead := (scan source).tokens, errors := [] } := by
    intro token member inside
    rw [scan_tokens] at member
    rcases List.mem_append.1 member with member | member
    · exact ⟨lexemes_words source token member, nofun⟩
    · obtain rfl := List.mem_singleton.1 member
      exact absurd rfl inside
  rw [stmtsWithin_eq_flatMap] at found
  obtain ⟨stmt, member, inside⟩ := List.mem_flatMap.1 found
  obtain ⟨-, sound⟩ := gathered.kept Grammar.kept_sound words
  exact (sound (.declaration false stmt) (List.mem_map_of_mem member)).written expr inside

-----
-- Unique readability

section

variable {literals : List Literal} (noStrings : ∀ text, .string text ∉ literals)
  (finite : ∀ number, .number number ∈ literals → number.isFinite = true)
  (apart
    : ∀ first second,
        .number first ∈ literals
        → .number second ∈ literals
        → Number.text first = Number.text second
        → first = second)
include noStrings finite apart

/-- Numbers with texts of their own can be told from what a program prints for them. -/
theorem exists_readBy : ∃ read, ∀ literal ∈ literals, literal.ReadBy read := by
  classical
  refine ⟨fun text =>
    if found : ∃ number, .number number ∈ literals ∧ numberText number = text then found.choose
    else 0, fun literal member => ?_⟩
  cases literal with
  | nil | boolean => trivial
  | string text => exact noStrings text member
  | number value =>
      have found : ∃ number, .number number ∈ literals ∧ numberText number = numberText value :=
        ⟨value, member, rfl⟩
      obtain ⟨chosen, same⟩ := found.choose_spec
      have texts : Number.text found.choose = Number.text value :=
        text_eq_of_numberText_eq (finite _ chosen) (finite _ member) same
      exact ⟨finite value member, (dif_pos found).trans (apart _ _ chosen member texts)⟩

end

/-- Expressions that were read, without strings and with finite numbers, can be told from their
texts, as far as different numbers have different texts. Not printed are only lines and the bodies
of functions, and in the reverse Polish text groupings. -/
theorem expressions_uniquely_readable {left right : SourceExpr} (leftRead : left.IsRead)
    (rightRead : right.IsRead)
    (noStrings : ∀ text, .string text ∉ left.literals ++ right.literals)
    (finite
      : ∀ number, .number number ∈ left.literals ++ right.literals → number.isFinite = true)
    (apart
      : ∀ first second,
          .number first ∈ left.literals ++ right.literals
          → .number second ∈ left.literals ++ right.literals
          → Number.text first = Number.text second
          → first = second)
    : (left.parenthesized = right.parenthesized ↔ left.bare = right.bare)
      ∧ (left.reversePolish = right.reversePolish
        ↔ left.ungrouped.bare = right.ungrouped.bare) := by
  obtain ⟨read, readable⟩ := exists_readBy noStrings finite apart
  obtain ⟨leftReadable, rightReadable⟩ := List.forall_mem_append.1 readable
  have leftPrintable := leftRead.written _ leftReadable
  have rightPrintable := rightRead.written _ rightReadable
  exact ⟨Expr.parenthesized_eq_iff leftPrintable rightPrintable,
    Expr.reversePolish_eq_iff leftPrintable rightPrintable⟩

/-- The first expression that is read from a text. -/
def firstExpression (source : String) : SourceExpr :=
  (stmtsWithin
    (parse false (scan source).tokens Grammar.standardDepth).statements).headD (.literal .nil)

/-- The first expression of a text is one that was read. -/
theorem isRead_firstExpression {source : String}
    (some
      : (stmtsWithin
          (parse false (scan source).tokens Grammar.standardDepth).statements).isEmpty = false)
    : (firstExpression source).IsRead := by
  refine ⟨false, source, Grammar.standardDepth, ?_⟩
  unfold firstExpression
  cases found : stmtsWithin (parse false (scan source).tokens Grammar.standardDepth).statements with
  | nil => simp [found] at some
  | cons first rest => exact List.mem_cons_self

/-- On other lines and with another numeral the same is printed, and the same was read. -/
theorem expressions_uniquely_readable_numeral
    : (firstExpression "print f(a, -1);").bare = (firstExpression "print f\n(a, -1.0);").bare
      ∧ (firstExpression "print f(a, -1);").ungrouped.bare
        = (firstExpression "print f\n(a, -1.0);").ungrouped.bare := by
  have leftRead : (firstExpression "print f(a, -1);").IsRead :=
    isRead_firstExpression (by decide +kernel)
  have rightRead : (firstExpression "print f\n(a, -1.0);").IsRead :=
    isRead_firstExpression (by decide +kernel)
  have literals
      : (firstExpression "print f(a, -1);").literals
          ++ (firstExpression "print f\n(a, -1.0);").literals
        = [.number 1.0, .number 1.0] := by
    decide +kernel
  have finite : (1.0 : Float).isFinite = true := by decide +kernel
  obtain ⟨parenthesized, reversePolish⟩ :=
    expressions_uniquely_readable leftRead rightRead (by rw [literals]; simp)
      (by rw [literals]; simpa using finite) (by rw [literals]; simp)
  exact ⟨parenthesized.1 (by decide +kernel), reversePolish.1 (by decide +kernel)⟩

end Lox
