import Lox.Binding.Scopes

/-! Binding every reference of a program to a scope.

The tree is walked once, in the order of the text. A reference is given the number of scopes
between its place and the scope that declares it, or none if only the global scope can.
-/

namespace Lox

/-- Trees whose references carry the distance of their scope. -/
abbrev BoundExpr := Expr (Option Nat)

abbrev BoundStmt := Stmt (Option Nat)

abbrev BoundLambda := Lambda (Option Nat)

namespace Binding

/-- A reference to `this` has a receiver only inside a class. -/
def bindThis (keyword : Token) : Binder (Option Nat) :=
  fun scopes =>
    match scopes.classContext with
    | .outside => (none, scopes.error keyword .thisOutsideClass)
    | .plain | .subclass => bindNearest keyword scopes

/-- A reference to `super` needs a class that has a superclass. -/
def bindSuper (keyword : Token) : Binder (Option Nat) :=
  fun scopes =>
    match scopes.classContext with
    | .outside => (none, scopes.error keyword .superOutsideClass)
    | .plain => (none, scopes.error keyword .superWithoutSuperclass)
    | .subclass => bindNearest keyword scopes

def checkBreak (keyword : Token) : Binder Unit :=
  modify fun scopes =>
    if scopes.loopDepth = 0 then scopes.error keyword .breakOutsideLoop else scopes

def checkReturn (keyword : Token) : Binder Unit :=
  modify fun scopes =>
    if scopes.inFunction then scopes else scopes.error keyword .returnOutsideFunction

/-- From its superclass clause on, a class is a subclass. -/
def enterSubclass (name superclass : Token) : Binder Unit :=
  modify fun scopes =>
    let entered := scopes.enteredClass .subclass
    if superclass.lexeme = name.lexeme then entered.error superclass .selfInheritance
    else entered

/-- The superclass is looked up after the class itself is declared. -/
def bindSuperclass (name : Token) (superclass : Reference Unit)
    : Binder (Reference (Option Nat)) := do
  enterSubclass name superclass.name
  return { name := superclass.name, binding := ← bindRead superclass.name }

mutual
def bindExpr : Expr Unit → Binder BoundExpr
  | .literal value => return .literal value
  | .grouping inner => return .grouping (← bindExpr inner)
  | .unary operator operand => return .unary operator (← bindExpr operand)
  | .binary left operator right => do
      let left ← bindExpr left
      let right ← bindExpr right
      return .binary left operator right
  | .logical left operator right => do
      let left ← bindExpr left
      let right ← bindExpr right
      return .logical left operator right
  | .conditional condition thenCase elseCase => do
      let condition ← bindExpr condition
      let thenCase ← bindExpr thenCase
      let elseCase ← bindExpr elseCase
      return .conditional condition thenCase elseCase
  | .variable target =>
      return .variable { name := target.name, binding := ← bindRead target.name }
  | .assign target value => do
      let value ← bindExpr value
      let binding ← bindNearest target.name
      return .assign { name := target.name, binding } value
  | .call callee paren arguments => do
      let callee ← bindExpr callee
      let arguments ← bindExprs arguments
      return .call callee paren arguments
  | .get object name => return .get (← bindExpr object) name
  | .set object name value => do
      let value ← bindExpr value
      let object ← bindExpr object
      return .set object name value
  | .this keyword => return .this { name := keyword.name, binding := ← bindThis keyword.name }
  | .super keyword method =>
      return .super { name := keyword.name, binding := ← bindSuper keyword.name } method
  | .function function => return .function (← bindFunction function)

def bindExprs : List (Expr Unit) → Binder (List BoundExpr)
  | [] => return []
  | first :: rest => do
      let first ← bindExpr first
      let rest ← bindExprs rest
      return first :: rest

def bindOptional : Option (Expr Unit) → Binder (Option BoundExpr)
  | none => return none
  | some value => return some (← bindExpr value)

def bindStmt : Stmt Unit → Binder BoundStmt
  | .expression value => return .expression (← bindExpr value)
  | .print value => return .print (← bindExpr value)
  | .printLine value => return .printLine (← bindOptional value)
  | .variable name initial => do
      declare name
      let initial ← bindOptional initial
      define name
      return .variable name initial
  | .block statements => return .block (← inScope (bindStmts statements))
  | .branch condition thenBranch elseBranch => do
      let condition ← bindExpr condition
      let thenBranch ← bindStmt thenBranch
      let elseBranch ← bindElse elseBranch
      return .branch condition thenBranch elseBranch
  | .loop condition body => do
      let condition ← bindExpr condition
      let body ← inLoop (bindStmt body)
      return .loop condition body
  | .breakLoop keyword => do
      checkBreak keyword
      return .breakLoop keyword
  | .returnValue keyword value => do
      checkReturn keyword
      return .returnValue keyword (← bindOptional value)
  | .function name function => do
      declare name
      define name
      return .function name (← bindFunction function)
  | .class name none methods => inClass do
      declare name
      define name
      let methods ← inScope do
        defineImplicit "this"
        bindMethods methods
      return .class name none methods
  | .class name (some superclass) methods => inClass do
      declare name
      define name
      let superclass ← bindSuperclass name superclass
      let methods ← inScope do
        defineImplicit "super"
        inScope do
          defineImplicit "this"
          bindMethods methods
      return .class name (some superclass) methods

def bindStmts : List (Stmt Unit) → Binder (List BoundStmt)
  | [] => return []
  | first :: rest => do
      let first ← bindStmt first
      let rest ← bindStmts rest
      return first :: rest

def bindElse : Option (Stmt Unit) → Binder (Option BoundStmt)
  | none => return none
  | some branch => return some (← bindStmt branch)

/-- Parameters and body share one scope. -/
def bindFunction : Lambda Unit → Binder BoundLambda
  | .mk parameters body => inFunction (inScope do
      parameters.forM declareParameter
      return .mk parameters (← bindStmts body))

def bindMethods : List (Method Unit) → Binder (List (Method (Option Nat)))
  | [] => return []
  | .mk name function :: rest => do
      let function ← bindFunction function
      let rest ← bindMethods rest
      return .mk name function :: rest
end

end Binding

-----
-- Whole programs

/-- A program with its references bound, and what was found wrong with them. -/
structure Bound where
  statements : List BoundStmt
  errors : List Diagnostic
  warnings : List Diagnostic
  /-- The global names, and whether each is defined. -/
  globals : Table Bool

/-- Binds all statements. Errors do not stop the walk. -/
def bind (knownGlobals : List String) (statements : List (Stmt Unit)) : Bound :=
  let (statements, scopes) := (Binding.bindStmts statements).run (.start knownGlobals)
  {
    statements,
    errors := scopes.errors,
    warnings := scopes.warnings,
    globals := scopes.globals
  }

end Lox
