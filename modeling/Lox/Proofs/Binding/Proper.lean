import Lox.Grammar.Program

/-! Trees that reading yields: names are no keywords, and declarations stand in lists only. -/

namespace Lox

/-- The name is one that a program can introduce. -/
def Token.IsName (token : Token) : Prop :=
  token.kind = .identifier ∧ token.lexeme ≠ "this" ∧ token.lexeme ≠ "super"

/-- The name that a statement introduces into the scope it stands in. -/
def Stmt.introduces? {ρ : Type} : Stmt ρ → Option Token
  | .variable name _ | .function name _ | .class name _ _ => some name
  | _ => none

mutual
def Expr.Proper : Expr Unit → Prop
  | .literal _ => True
  | .grouping inner => inner.Proper
  | .unary _ operand => operand.Proper
  | .binary left _ right => left.Proper ∧ right.Proper
  | .logical left _ right => left.Proper ∧ right.Proper
  | .conditional condition thenCase elseCase =>
      condition.Proper ∧ thenCase.Proper ∧ elseCase.Proper
  | .variable target => target.name.IsName
  | .assign target value => target.name.IsName ∧ value.Proper
  | .call callee _ arguments => callee.Proper ∧ ProperExprs arguments
  | .get object _ => object.Proper
  | .set object _ value => object.Proper ∧ value.Proper
  | .this keyword => keyword.name.lexeme = "this"
  | .super keyword _ => keyword.name.lexeme = "super"
  | .function function => function.Proper

def ProperExprs : List (Expr Unit) → Prop
  | [] => True
  | first :: rest => first.Proper ∧ ProperExprs rest

def ProperOptional : Option (Expr Unit) → Prop
  | none => True
  | some value => value.Proper

/-- Only a list of statements holds declarations: branches and loop bodies introduce nothing. -/
def Stmt.Proper : Stmt Unit → Prop
  | .expression value => value.Proper
  | .print value => value.Proper
  | .printLine value => ProperOptional value
  | .variable name initial => name.IsName ∧ ProperOptional initial
  | .block statements => ProperStmts statements
  | .branch condition thenBranch elseBranch =>
      condition.Proper
      ∧ (thenBranch.Proper ∧ thenBranch.introduces? = none)
      ∧ ProperElse elseBranch
  | .loop condition body => condition.Proper ∧ body.Proper ∧ body.introduces? = none
  | .breakLoop _ => True
  | .returnValue _ value => ProperOptional value
  | .function name function => name.IsName ∧ function.Proper
  | .class name superclass methods =>
      name.IsName ∧ (∀ target ∈ superclass, target.name.IsName) ∧ ProperMethods methods

def ProperStmts : List (Stmt Unit) → Prop
  | [] => True
  | first :: rest => first.Proper ∧ ProperStmts rest

def ProperElse : Option (Stmt Unit) → Prop
  | none => True
  | some branch => branch.Proper ∧ branch.introduces? = none

def Lambda.Proper : Lambda Unit → Prop
  | .mk parameters body => (∀ name ∈ parameters, name.IsName) ∧ ProperStmts body

def ProperMethods : List (Method Unit) → Prop
  | [] => True
  | .mk _ function :: rest => function.Proper ∧ ProperMethods rest
end

/-- What a statement introduces is a name. -/
theorem Stmt.Proper.isName {stmt : Stmt Unit} (proper : stmt.Proper) {name : Token}
    (introduces : stmt.introduces? = some name)
    : name.IsName := by
  cases stmt with
  | «variable» | function =>
      obtain rfl := Option.some.inj introduces
      exact proper.1
  | «class» =>
      obtain rfl := Option.some.inj introduces
      exact proper.1
  | _ => cases introduces

/-- The parameters of a proper function are names. -/
theorem Lambda.Proper.parameters {function : Lambda Unit} (proper : function.Proper)
    : ∀ name ∈ function.parameters, name.IsName := by
  cases function
  exact proper.1

/-- The body of a proper function is proper. -/
theorem Lambda.Proper.body {function : Lambda Unit} (proper : function.Proper)
    : ProperStmts function.body := by
  cases function
  exact proper.2

end Lox
