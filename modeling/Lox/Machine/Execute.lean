import Lox.Machine.Evaluate

/-! Statements, and the evaluator that all levels together make. -/

namespace Lox

namespace Evaluator

-----
-- Loops

/-- Runs a body as long as a test holds. A `break` ends the loop, a `return` leaves it. -/
def repeatWhile (test : Run Value) (body : Run Completion) : Nat → Run Completion
  | 0 => throw .tooManyRounds
  | rounds + 1 => do
      let condition ← test
      if condition.isTruthy then
        match ← body with
        | .normal => repeatWhile test body rounds
        | .broke => return .normal
        | .returned value => return .returned value
      else
        return .normal

-----
-- Classes

/-- The class that a superclass clause names. -/
def readSuperclass (target : Reference (Option Nat)) : Run Lineage := do
  match ← Run.readVariable target with
  | .class lineage => return lineage
  | _ => Run.failAt target.name .superclassNotClass

def findSuperclass : Option (Reference (Option Nat)) → Run (Option Lineage)
  | none => return none
  | some target => some <$> readSuperclass target

/-- A later method of the same name replaces an earlier one. -/
def createMethods (scope : Nat) (table : Table Closure)
    : List (Method (Option Nat)) → Run (Table Closure)
  | [] => return table
  | method :: rest => do
      let name := method.name.lexeme
      let closure ← Run.newClosure method.function scope (some name) (name = "init")
      createMethods scope (table.insert name closure) rest

/-- Methods of a subclass see the superclass as `super` in a scope around their own. -/
def methodScope (superclass : Option Lineage) : Run Nat := do
  let current ← Run.currentScope
  match superclass with
  | none => return current
  | some lineage =>
      let scope ← Run.newScope current
      Run.defineIn scope "super" (.class lineage)
      return scope

def createClass (name : Token) (superclass : Option Lineage)
    (methods : List (Method (Option Nat)))
    : Run Lineage := do
  let scope ← methodScope superclass
  let methods ← createMethods scope .empty methods
  let body : ClassBody := { id := ← Run.freshId, name := name.lexeme, methods }
  return match superclass with
    | none => { head := body, ancestors := [] }
    | some lineage => lineage.extend body

/-- The name is defined before the class exists, so that methods can refer to it. -/
def declareClass (name : Token) (superclass : Option (Reference (Option Nat)))
    (methods : List (Method (Option Nat)))
    : Run Unit := do
  let superclass ← findSuperclass superclass
  Run.define name .nil
  let lineage ← createClass name superclass methods
  Run.assignFrom (← Run.currentScope) name (.class lineage)
  Run.tell
    (.defineClass name.lexeme (superclass.map Lineage.name) lineage.head.methods.size)

-----
-- Statements

def evaluateOptional (parts : Evaluator) : Option BoundExpr → Run Value
  | none => return .nil
  | some value => parts.evaluate value

def executeStep (rounds : Nat) (parts : Evaluator) : BoundStmt → Run Completion
  | .expression value => do
      let _ ← parts.evaluate value
      return .normal
  | .print value => do
      let value ← parts.evaluate value
      Run.print value.text
      return .normal
  | .printLine none => do
      Run.print "\n"
      return .normal
  | .printLine (some value) => do
      let value ← parts.evaluate value
      Run.print (value.text ++ "\n")
      return .normal
  | .variable name initial => do
      let value ← parts.evaluateOptional initial
      Run.define name value
      Run.tell (.defineVariable name.lexeme value)
      return .normal
  | .block statements => do
      let scope ← Run.newScope (← Run.currentScope)
      Run.within scope (parts.executeAll statements)
  | .branch condition thenBranch elseBranch => do
      let condition ← parts.evaluate condition
      Run.tell (.condition condition)
      if condition.isTruthy then
        parts.execute thenBranch
      else
        match elseBranch with
        | none => return .normal
        | some elseBranch => parts.execute elseBranch
  | .loop condition body =>
      repeatWhile (parts.evaluate condition) (parts.execute body) rounds
  | .breakLoop _ => return .broke
  | .returnValue _ value => do
      let value ← parts.evaluateOptional value
      return .returned value
  | .function name function => do
      let scope ← Run.currentScope
      let closure ← Run.newClosure function scope (some name.lexeme) false
      Run.define name (.closure closure)
      Run.tell (.defineFunction name.lexeme)
      return .normal
  | .class name superclass methods => do
      declareClass name superclass methods
      return .normal

-----
-- All levels

/-- The evaluator for places inside which so many levels may be nested. -/
def ofNesting (rounds : Nat) : Nat → Evaluator
  | 0 => .exhausted
  | nesting + 1 =>
      let parts := ofNesting rounds nesting
      { evaluate := parts.evaluateStep, execute := executeStep rounds parts }

/-- Runs the statements of a whole program, which has no loop or function around it. -/
def executeProgram (evaluator : Evaluator) : List BoundStmt → Run Unit
  | [] => return ()
  | first :: rest => do
      let _ ← evaluator.execute first
      evaluator.executeProgram rest

end Evaluator

end Lox
