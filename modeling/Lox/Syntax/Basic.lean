import Lox.Token.Basic

/-! Syntax trees.

A tree is parameterised by what its references carry: nothing when it has been read from tokens,
and the distance of the scope they are bound to once scopes are known.
-/

namespace Lox

/-- A use of a name, with what is known about its binding. -/
structure Reference (ρ : Type) where
  name : Token
  binding : ρ
deriving DecidableEq, Repr

mutual
/-- Expressions yield a value. -/
inductive Expr (ρ : Type) where
  | literal (value : Literal)
  | grouping (inner : Expr ρ)
  | unary (operator : Token) (operand : Expr ρ)
  /-- Arithmetic, comparison, equality, and the comma that yields its right operand. -/
  | binary (left : Expr ρ) (operator : Token) (right : Expr ρ)
  | logical (left : Expr ρ) (operator : Token) (right : Expr ρ)
  | conditional (condition thenCase elseCase : Expr ρ)
  | variable (target : Reference ρ)
  | assign (target : Reference ρ) (value : Expr ρ)
  | call (callee : Expr ρ) (paren : Token) (arguments : List (Expr ρ))
  | get (object : Expr ρ) (name : Token)
  | set (object : Expr ρ) (name : Token) (value : Expr ρ)
  | this (keyword : Reference ρ)
  | super (keyword : Reference ρ) (method : Token)
  | function (function : Lambda ρ)

/-- Statements are run for their effect. A `for` is written with the others. -/
inductive Stmt (ρ : Type) where
  | expression (value : Expr ρ)
  | print (value : Expr ρ)
  | printLine (value : Option (Expr ρ))
  | variable (name : Token) (initial : Option (Expr ρ))
  | block (statements : List (Stmt ρ))
  | branch (condition : Expr ρ) (thenBranch : Stmt ρ) (elseBranch : Option (Stmt ρ))
  | loop (condition : Expr ρ) (body : Stmt ρ)
  | breakLoop (keyword : Token)
  | returnValue (keyword : Token) (value : Option (Expr ρ))
  | function (name : Token) (function : Lambda ρ)
  | class (name : Token) (superclass : Option (Reference ρ)) (methods : List (Method ρ))

/-- Parameters and body, shared by declarations, methods and function literals. -/
inductive Lambda (ρ : Type) where
  | mk (parameters : List Token) (body : List (Stmt ρ))

/-- A function that a class gives a name to. -/
inductive Method (ρ : Type) where
  | mk (name : Token) (function : Lambda ρ)
end

variable {ρ : Type}

def Lambda.parameters : Lambda ρ → List Token
  | .mk parameters _ => parameters

def Lambda.body : Lambda ρ → List (Stmt ρ)
  | .mk _ body => body

def Method.name : Method ρ → Token
  | .mk name _ => name

def Method.function : Method ρ → Lambda ρ
  | .mk _ function => function

end Lox
