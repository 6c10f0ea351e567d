import Lox.Proofs.Machine
import Lox.Proofs.Scoping.Watch

/-! The evaluator of a watched machine.

It walks the tree as it was read, with the site of every part, and does at each node what the
evaluator does at the bound node. Parts are taken in the order of the run, and their sites in the
order of the text.
-/

namespace Lox.Scoping

open Binding
open Grammar (SourceExpr SourceStmt)

-----
-- Watchers

/-- Runs the parts of an expression or statement, each at its site. -/
structure Watcher where
  evaluate : Site → SourceExpr → Watch Value
  execute : Site → SourceStmt → Watch Completion

def Watcher.exhausted : Watcher where
  evaluate _ _ := Watch.lift (throw .tooDeep)
  execute _ _ := Watch.lift (throw .tooDeep)

namespace Watcher

def evaluateAll (parts : Watcher) (site : Site) : List SourceExpr → Watch (List Value)
  | [] => return []
  | first :: rest => do
      let value ← parts.evaluate (site.child 0) first
      let values ← parts.evaluateAll ((site.after (bindExpr first)).child 1) rest
      return value :: values

def executeAll (parts : Watcher) (site : Site) : List SourceStmt → Watch Completion
  | [] => return .normal
  | first :: rest => do
      match ← parts.execute (site.child 0) first with
      | .normal => parts.executeAll ((site.after (bindStmt first)).child 1) rest
      | completion => return completion

-----
-- Calls

/-- Runs a body at the place where the binder met it. -/
def invokeFrom (parts : Watcher) (origin : Origin) (closure : Closure) (arguments : List Value)
    : Watch Value := do
  let scope ← Watch.openScope { kind := .function, place := origin.site.place } closure.scope
  Watch.lift (Evaluator.defineAll scope (closure.function.parameters.zip arguments))
  let completion ← Watch.within scope
    (parts.executeAll (origin.site.inside origin.function) origin.function.body)
  if closure.isInitializer then
    Watch.lift (Run.receiverIn closure.scope)
  else
    match completion with
    | .returned value => return value
    | _ => return .nil

def invoke (parts : Watcher) (closure : Closure) (arguments : List Value) : Watch Value := do
  parts.invokeFrom ((← get).originOf closure.id) closure arguments

def construct (parts : Watcher) (lineage : Lineage) (arguments : List Value) : Watch Value := do
  let object ← Watch.lift (Run.newObject lineage)
  match lineage.initializer? with
  | none => return object
  | some initializer =>
      let bound ← Watch.bindMethod initializer object
      let _ ← parts.invoke bound arguments
      return object

def limitNesting (paren : Token) (call : Watch Value) : Watch Value :=
  fun watched =>
    match call watched with
    | .error .tooDeep after =>
        .error (.runtime { token := paren, problem := .stackOverflow }) after
    | outcome => outcome

section

variable {paren : Token} {call : Watch Value} {before after : Watched}

/-- A call that succeeds is watched without a limit. -/
theorem limitNesting_ok {value : Value} (run : call before = .ok value after)
    : limitNesting paren call before = .ok value after := by
  unfold limitNesting
  rw [run]

/-- A call that fails is watched with its fault limited. -/
theorem limitNesting_error {fault : Fault} (run : call before = .error fault after)
    : limitNesting paren call before = .error (fault.limited paren) after := by
  unfold limitNesting
  rw [run]
  cases fault <;> rfl

end

def apply (parts : Watcher) (callee : Callable) (arguments : List Value) : Watch Value :=
  match callee with
  | .closure function => parts.invoke function arguments
  | .class lineage => parts.construct lineage arguments
  | .native .clock => Watch.lift Run.readClock

def call (parts : Watcher) (callee : Value) (arguments : List Value) (paren : Token)
    : Watch Value := do
  match callee.callable? with
  | none => Watch.lift (Run.failAt paren .notCallable)
  | some callable =>
      if arguments.length = callable.arity then
        Watch.lift (Run.tell (.call callee arguments.length paren.line))
        limitNesting paren (parts.apply callable arguments)
      else
        Watch.lift (Run.failAt paren (.wrongArity callable.arity arguments.length))

-----
-- Expressions

/-- A closure of a function that stands at the site. -/
def newFunction (site : Site) (function : Lambda Unit) (scope : Nat) (name : Option String)
    (isInitializer : Bool)
    : Watch Closure :=
  Watch.newClosure { function, site } (bindFunction function site.scopes).1 scope name
    isInitializer

def evaluateStep (parts : Watcher) (site : Site) : SourceExpr → Watch Value
  | .literal value => return .literal value
  | .grouping inner => parts.evaluate (site.child 0) inner
  | .unary operator operand => do
      let operand ← parts.evaluate (site.child 0) operand
      Watch.lift (Run.ofExcept (Value.applyUnary operator operand))
  | .binary left operator right => do
      let leftValue ← parts.evaluate (site.child 0) left
      let rightValue ← parts.evaluate ((site.after (bindExpr left)).child 1) right
      Watch.lift (Run.ofExcept (Value.applyBinary operator leftValue rightValue))
  | .logical left operator right => do
      let leftValue ← parts.evaluate (site.child 0) left
      if Evaluator.decidesEarly operator leftValue then
        return leftValue
      else
        parts.evaluate ((site.after (bindExpr left)).child 1) right
  | .conditional condition thenCase elseCase => do
      let thenSite := site.after (bindExpr condition)
      let value ← parts.evaluate (site.child 0) condition
      if value.isTruthy then
        parts.evaluate (thenSite.child 1) thenCase
      else
        parts.evaluate ((thenSite.after (bindExpr thenCase)).child 2) elseCase
  | .variable target => Watch.readVariable site (.read target.name)
  | .assign target value => do
      let assigned ← parts.evaluate (site.child 0) value
      Watch.writeVariable (site.after (bindExpr value)) target.name assigned
      return assigned
  | .call callee paren arguments => do
      let calleeValue ← parts.evaluate (site.child 0) callee
      let values ← parts.evaluateAll ((site.after (bindExpr callee)).child 1) arguments
      parts.call calleeValue values paren
  | .get object name => do
      let objectValue ← parts.evaluate (site.child 0) object
      Watch.readProperty objectValue name
  | .set object name value => do
      match ← parts.evaluate ((site.after (bindExpr value)).child 0) object with
      | .object address _ =>
          let assigned ← parts.evaluate (site.child 1) value
          Watch.lift (Run.setField address name.lexeme assigned)
          return assigned
      | _ => Watch.lift (Run.failAt name .fieldOfNonInstance)
  | .this keyword => Watch.readVariable site (.this keyword.name)
  | .super keyword method => Watch.readSuper site keyword.name method
  | .function function => do
      let scope ← Watch.lift Run.currentScope
      return .closure (← newFunction (site.child 0) function scope none false)

-----
-- Loops and classes

def repeatWhile (test : Watch Value) (body : Watch Completion) : Nat → Watch Completion
  | 0 => Watch.lift (throw .tooManyRounds)
  | rounds + 1 => do
      let condition ← test
      if condition.isTruthy then
        match ← body with
        | .normal => repeatWhile test body rounds
        | .broke => return .normal
        | .returned value => return .returned value
      else
        return .normal

def readSuperclass (site : Site) (target : Token) : Watch Lineage := do
  match ← Watch.readVariable site (.read target) with
  | .class lineage => return lineage
  | _ => Watch.lift (Run.failAt target .superclassNotClass)

def findSuperclass (site : Site) (name : Token)
    : Option (Reference Unit) → Watch (Option Lineage)
  | none => return none
  | some target => some <$> readSuperclass (site.inheriting name target.name) target.name

def createMethods (site : Site) (scope : Nat) (table : Table Closure)
    : List (Method Unit) → Watch (Table Closure)
  | [] => return table
  | .mk name function :: rest => do
      let closure ←
        newFunction (site.child 0) function scope (some name.lexeme) (name.lexeme = "init")
      createMethods ((site.after (bindFunction function)).child 1) scope
        (table.insert name.lexeme closure) rest

def methodScope (site : Site) (superclass : Option Lineage) : Watch Nat := do
  let current ← Watch.lift Run.currentScope
  match superclass with
  | none => return current
  | some lineage =>
      let scope ← Watch.openScope { kind := .superclass, place := site.place } current
      Watch.lift (Run.defineIn scope "super" (.class lineage))
      return scope

def createClass (site : Site) (name : Token) (clause : Option (Reference Unit))
    (superclass : Option Lineage) (methods : List (Method Unit))
    : Watch Lineage := do
  let scope ← methodScope site superclass
  let methods ← createMethods (site.amongMethods name clause) scope .empty methods
  let body : ClassBody := { id := ← Watch.lift Run.freshId, name := name.lexeme, methods }
  return match superclass with
    | none => { head := body, ancestors := [] }
    | some lineage => lineage.extend body

def declareClass (site : Site) (name : Token) (clause : Option (Reference Unit))
    (methods : List (Method Unit))
    : Watch Unit := do
  let superclass ← findSuperclass site name clause
  Watch.lift (Run.define name .nil)
  let lineage ← createClass site name clause superclass methods
  let current ← Watch.lift Run.currentScope
  Watch.lift (Run.assignFrom current name (.class lineage))
  Watch.lift
    (Run.tell
      (.defineClass name.lexeme (superclass.map Lineage.name) lineage.head.methods.size))

-----
-- Statements

def evaluateOptional (parts : Watcher) (site : Site) : Option SourceExpr → Watch Value
  | none => return .nil
  | some value => parts.evaluate (site.child 0) value

def executeStep (rounds : Nat) (parts : Watcher) (site : Site) : SourceStmt → Watch Completion
  | .expression value => do
      let _ ← parts.evaluate (site.child 0) value
      return .normal
  | .print value => do
      let value ← parts.evaluate (site.child 0) value
      Watch.lift (Run.print value.text)
      return .normal
  | .printLine none => do
      Watch.lift (Run.print "\n")
      return .normal
  | .printLine (some value) => do
      let value ← parts.evaluate (site.child 0) value
      Watch.lift (Run.print (value.text ++ "\n"))
      return .normal
  | .variable name initial => do
      let value ← parts.evaluateOptional (site.declaring name) initial
      Watch.complete site name value
      Watch.lift (Run.tell (.defineVariable name.lexeme value))
      return .normal
  | .block statements => do
      let current ← Watch.lift Run.currentScope
      let scope ← Watch.openScope { kind := .block, place := site.place } current
      Watch.within scope (parts.executeAll (site.opened .block) statements)
  | .branch condition thenBranch elseBranch => do
      let thenSite := site.after (bindExpr condition)
      let value ← parts.evaluate (site.child 0) condition
      Watch.lift (Run.tell (.condition value))
      if value.isTruthy then
        parts.execute (thenSite.child 1) thenBranch
      else
        match elseBranch with
        | none => return .normal
        | some elseBranch =>
            parts.execute ((thenSite.after (bindStmt thenBranch)).child 2) elseBranch
  | .loop condition body =>
      repeatWhile (parts.evaluate (site.child 0) condition)
        (parts.execute ((site.after (bindExpr condition)).looping.child 1) body) rounds
  | .breakLoop _ => return .broke
  | .returnValue keyword value => do
      let value ← parts.evaluateOptional (site.after (checkReturn keyword)) value
      return .returned value
  | .function name function => do
      let scope ← Watch.lift Run.currentScope
      let closure ←
        newFunction ((site.introducing name).child 0) function scope (some name.lexeme) false
      Watch.lift (Run.define name (.closure closure))
      Watch.lift (Run.tell (.defineFunction name.lexeme))
      return .normal
  | .class name superclass methods => do
      declareClass site name superclass methods
      return .normal

-----
-- All levels

def ofNesting (rounds : Nat) : Nat → Watcher
  | 0 => .exhausted
  | nesting + 1 =>
      let parts := ofNesting rounds nesting
      { evaluate := parts.evaluateStep, execute := executeStep rounds parts }

def executeProgram (watcher : Watcher) (site : Site) : List SourceStmt → Watch Unit
  | [] => return ()
  | first :: rest => do
      let _ ← watcher.execute (site.child 0) first
      watcher.executeProgram ((site.after (bindStmt first)).child 1) rest

end Watcher

-----
-- Sessions

namespace Watched

/-- Runs a source text, the text of the given number, and watches the run. -/
def runSource (limits : Limits) (number : Nat) (allowExpression : Bool) (source : String)
    (watched : Watched)
    : Report × Watched :=
  let known := watched.machine.globalNames
  let program := Program.ofSource allowExpression known source limits.depth
  if program.accepted then
    let watcher := Watcher.ofNesting limits.rounds limits.nesting
    let statements := (parse allowExpression (scan source).tokens limits.depth).statements
    let fresh := { watched with machine := { watched.machine with output := "" } }
    match watcher.executeProgram (.start number known) statements fresh with
    | .ok _ after =>
        ({ diagnostics := program.diagnostics, output := after.machine.output, fault := none },
          after)
    | .error fault after =>
        ({
            diagnostics := program.diagnostics,
            output := after.machine.output,
            fault := some fault
          },
          after)
  else
    ({ diagnostics := program.diagnostics, output := "", fault := none }, watched)

/-- Runs source texts one after another, numbering them from the given number on. -/
def runSession (limits : Limits) (number : Nat)
    : List (Bool × String) → Watched → List Report × Watched
  | [], watched => ([], watched)
  | (allowExpression, source) :: rest, watched =>
      let (report, after) := watched.runSource limits number allowExpression source
      let (reports, last) := after.runSession limits (number + 1) rest
      (report :: reports, last)

end Watched

end Lox.Scoping
