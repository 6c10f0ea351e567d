import Lox.Machine.Basic

/-! One level of evaluation.

An expression or statement is run with the help of an evaluator for its parts. Evaluation nests
only so deep: the evaluator for the parts is the next level down.
-/

namespace Lox

-----
-- Evaluators

/-- How a statement ended. -/
inductive Completion where
  | normal
  | broke
  | returned (value : Value)

/-- Runs the parts of an expression or statement. -/
structure Evaluator where
  evaluate : BoundExpr → Run Value
  execute : BoundStmt → Run Completion

/-- An evaluator for a place where nothing may be nested any more. -/
def Evaluator.exhausted : Evaluator where
  evaluate _ := throw .tooDeep
  execute _ := throw .tooDeep

namespace Evaluator

/-- Values of several expressions, from left to right. -/
def evaluateAll (parts : Evaluator) : List BoundExpr → Run (List Value)
  | [] => return []
  | first :: rest => do
      let value ← parts.evaluate first
      let values ← parts.evaluateAll rest
      return value :: values

/-- Statements run in order until one of them does not end normally. -/
def executeAll (parts : Evaluator) : List BoundStmt → Run Completion
  | [] => return .normal
  | first :: rest => do
      match ← parts.execute first with
      | .normal => parts.executeAll rest
      | completion => return completion

-----
-- Calls

def defineAll (scope : Nat) : List (Token × Value) → Run Unit
  | [] => return ()
  | (name, value) :: rest => do
      Run.defineIn scope name.lexeme value
      defineAll scope rest

/-- Runs the body of a function in a new scope inside the one it was created in. -/
def invoke (parts : Evaluator) (closure : Closure) (arguments : List Value) : Run Value := do
  let scope ← Run.newScope closure.scope
  defineAll scope (closure.function.parameters.zip arguments)
  let completion ← Run.within scope (parts.executeAll closure.function.body)
  if closure.isInitializer then
    Run.receiverIn closure.scope
  else
    match completion with
    | .returned value => return value
    | _ => return .nil

/-- Creates an instance, and prepares it if its class has an initializer. -/
def construct (parts : Evaluator) (lineage : Lineage) (arguments : List Value) : Run Value := do
  let object ← Run.newObject lineage
  match lineage.initializer? with
  | none => return object
  | some initializer =>
      let bound ← Run.bindMethod initializer object
      let _ ← parts.invoke bound arguments
      return object

/-- Nesting too deep inside a call is an error of the program at that call. -/
def limitNesting (paren : Token) (call : Run Value) : Run Value :=
  fun machine =>
    match call machine with
    | .error .tooDeep after =>
        .error (.runtime { token := paren, problem := .stackOverflow }) after
    | outcome => outcome

def apply (parts : Evaluator) (callee : Callable) (arguments : List Value) : Run Value :=
  match callee with
  | .closure function => parts.invoke function arguments
  | .class lineage => parts.construct lineage arguments
  | .native .clock => Run.readClock

/-- Arguments are counted before the call is told about and made. -/
def call (parts : Evaluator) (callee : Value) (arguments : List Value) (paren : Token)
    : Run Value := do
  match callee.callable? with
  | none => Run.failAt paren .notCallable
  | some callable =>
      if arguments.length = callable.arity then
        Run.tell (.call callee arguments.length paren.line)
        limitNesting paren (parts.apply callable arguments)
      else
        Run.failAt paren (.wrongArity callable.arity arguments.length)

-----
-- Expressions

/-- `or` yields the first operand that is true, and `and` the first that is not. -/
def decidesEarly (operator : Token) (left : Value) : Bool :=
  if operator.kind = .orWord then left.isTruthy else !left.isTruthy

def evaluateStep (parts : Evaluator) : BoundExpr → Run Value
  | .literal value => return .literal value
  | .grouping inner => parts.evaluate inner
  | .unary operator operand => do
      let operand ← parts.evaluate operand
      Run.ofExcept (Value.applyUnary operator operand)
  | .binary left operator right => do
      let left ← parts.evaluate left
      let right ← parts.evaluate right
      Run.ofExcept (Value.applyBinary operator left right)
  | .logical left operator right => do
      let left ← parts.evaluate left
      if decidesEarly operator left then return left else parts.evaluate right
  | .conditional condition thenCase elseCase => do
      let condition ← parts.evaluate condition
      if condition.isTruthy then parts.evaluate thenCase else parts.evaluate elseCase
  | .variable target => Run.readVariable target
  | .assign target value => do
      let value ← parts.evaluate value
      Run.writeVariable target value
      return value
  | .call callee paren arguments => do
      let callee ← parts.evaluate callee
      let arguments ← parts.evaluateAll arguments
      parts.call callee arguments paren
  | .get object name => do
      let object ← parts.evaluate object
      Run.readProperty object name
  | .set object name value => do
      match ← parts.evaluate object with
      | .object address _ =>
          let value ← parts.evaluate value
          Run.setField address name.lexeme value
          return value
      | _ => Run.failAt name .fieldOfNonInstance
  | .this keyword => Run.readVariable keyword
  | .super keyword method => Run.readSuper keyword method
  | .function function => do
      let scope ← Run.currentScope
      return .closure (← Run.newClosure function scope none false)

end Evaluator

end Lox
