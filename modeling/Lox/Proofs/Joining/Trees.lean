import Lox.Diagnostic
import Lox.Syntax.Basic

/-! Trees whose tokens stand on other lines.

A source text keeps its tokens when other text is put in front of it, but not their lines. What is
true of a tree up to lines is said by moving it from the lines it has to those it is to have.
-/

namespace Lox

variable {ρ : Type}

-----
-- Tokens

/-- The token on another line. -/
def Token.moved (move : Nat → Nat) (token : Token) : Token :=
  { token with line := move token.line }

/-- Moving a token keeps its kind. -/
@[simp]
theorem Token.moved_kind (move : Nat → Nat) (token : Token)
    : (token.moved move).kind = token.kind :=
  rfl

/-- Moving a token keeps its spelling. -/
@[simp]
theorem Token.moved_lexeme (move : Nat → Nat) (token : Token)
    : (token.moved move).lexeme = token.lexeme :=
  rfl

/-- The same problem on another line. -/
def Diagnostic.moved (move : Nat → Nat) (diagnostic : Diagnostic) : Diagnostic :=
  { diagnostic with line := move diagnostic.line }

/-- A report at a moved token is the moved report. -/
theorem Diagnostic.atToken_moved (move : Nat → Nat) (token : Token) (problem : Problem)
    : Diagnostic.atToken (token.moved move) problem = (atToken token problem).moved move :=
  rfl

/-- Moving changes a name, and nothing that is known about it. -/
def Reference.moved (move : Nat → Nat) (reference : Reference ρ) : Reference ρ :=
  { reference with name := reference.name.moved move }

-----
-- Trees

mutual
def Expr.moved (move : Nat → Nat) : Expr ρ → Expr ρ
  | .literal value => .literal value
  | .grouping inner => .grouping (inner.moved move)
  | .unary operator operand => .unary (operator.moved move) (operand.moved move)
  | .binary left operator right =>
      .binary (left.moved move) (operator.moved move) (right.moved move)
  | .logical left operator right =>
      .logical (left.moved move) (operator.moved move) (right.moved move)
  | .conditional condition thenCase elseCase =>
      .conditional (condition.moved move) (thenCase.moved move) (elseCase.moved move)
  | .variable target => .variable (target.moved move)
  | .assign target value => .assign (target.moved move) (value.moved move)
  | .call callee paren arguments =>
      .call (callee.moved move) (paren.moved move) (movedExprs move arguments)
  | .get object name => .get (object.moved move) (name.moved move)
  | .set object name value => .set (object.moved move) (name.moved move) (value.moved move)
  | .this keyword => .this (keyword.moved move)
  | .super keyword method => .super (keyword.moved move) (method.moved move)
  | .function function => .function (function.moved move)

def movedExprs (move : Nat → Nat) : List (Expr ρ) → List (Expr ρ)
  | [] => []
  | first :: rest => first.moved move :: movedExprs move rest

def movedOptional (move : Nat → Nat) : Option (Expr ρ) → Option (Expr ρ)
  | none => none
  | some value => some (value.moved move)

def Stmt.moved (move : Nat → Nat) : Stmt ρ → Stmt ρ
  | .expression value => .expression (value.moved move)
  | .print value => .print (value.moved move)
  | .printLine value => .printLine (movedOptional move value)
  | .variable name initial => .variable (name.moved move) (movedOptional move initial)
  | .block statements => .block (movedStmts move statements)
  | .branch condition thenBranch elseBranch =>
      .branch (condition.moved move) (thenBranch.moved move) (movedElse move elseBranch)
  | .loop condition body => .loop (condition.moved move) (body.moved move)
  | .breakLoop keyword => .breakLoop (keyword.moved move)
  | .returnValue keyword value =>
      .returnValue (keyword.moved move) (movedOptional move value)
  | .function name function => .function (name.moved move) (function.moved move)
  | .class name superclass methods =>
      .class (name.moved move) (superclass.map (·.moved move)) (movedMethods move methods)

def movedStmts (move : Nat → Nat) : List (Stmt ρ) → List (Stmt ρ)
  | [] => []
  | first :: rest => first.moved move :: movedStmts move rest

def movedElse (move : Nat → Nat) : Option (Stmt ρ) → Option (Stmt ρ)
  | none => none
  | some branch => some (branch.moved move)

def Lambda.moved (move : Nat → Nat) : Lambda ρ → Lambda ρ
  | .mk parameters body => .mk (parameters.map (·.moved move)) (movedStmts move body)

def movedMethods (move : Nat → Nat) : List (Method ρ) → List (Method ρ)
  | [] => []
  | .mk name function :: rest =>
      .mk (name.moved move) (function.moved move) :: movedMethods move rest
end

-----
-- Parts of trees

section

variable (move : Nat → Nat)

/-- Expressions are moved one by one. -/
theorem movedExprs_eq_map (exprs : List (Expr ρ))
    : movedExprs move exprs = exprs.map (·.moved move) := by
  induction exprs with
  | nil => rfl
  | cons first rest ih => simp [movedExprs, ih]

/-- The parameters of a moved function are the moved ones. -/
@[simp]
theorem Lambda.moved_parameters (function : Lambda ρ)
    : (function.moved move).parameters = function.parameters.map (·.moved move) := by
  cases function
  rfl

end

end Lox
