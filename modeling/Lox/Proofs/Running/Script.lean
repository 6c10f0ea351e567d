import Lox.Machine.Execute

/-! What a run is made of.

Everything that the evaluator does is a task, and the script of a task says which other tasks it
asks for, one after another, and what it does by itself in between. Running the script is running
the task, so that no part of a run is left out. A moment is a task that is about to be run on a
machine; the moments of a run form a tree.
-/

namespace Lox.Running

-----
-- Tasks

/-- What can be asked for in the course of a run. -/
inductive Task where
  | evaluate (expr : BoundExpr)
  | evaluateAll (exprs : List BoundExpr)
  | execute (stmt : BoundStmt)
  | executeAll (stmts : List BoundStmt)
  /-- What is left of a loop that may take so many rounds more. -/
  | repeatWhile (condition : BoundExpr) (body : BoundStmt) (rounds : Nat)
  /-- Statements that are run in a scope of their own, in which some names have values already. -/
  | enter (parent : Nat) (bindings : List (Token × Value)) (stmts : List BoundStmt)
  | call (callee : Value) (arguments : List Value) (paren : Token)
  /-- A call whose arguments have been counted. -/
  | limited (paren : Token) (callee : Callable) (arguments : List Value)
  | apply (callee : Callable) (arguments : List Value)
  /-- An activation of a function. -/
  | invoke (closure : Closure) (arguments : List Value)
  | program (stmts : List BoundStmt)

/-- What a task that succeeds hands back. -/
@[reducible]
def Task.Answer : Task → Type
  | .evaluate _ | .call .. | .limited .. | .apply .. | .invoke .. => Value
  | .evaluateAll _ => List Value
  | .execute _ | .executeAll _ | .repeatWhile .. | .enter .. => Completion
  | .program _ => Unit

/-- A new scope in which some names have values already. -/
def openScope (parent : Nat) (bindings : List (Token × Value)) : Run Nat := do
  let scope ← Run.newScope parent
  Evaluator.defineAll scope bindings
  return scope

/-- Opening a scope is making it and defining what belongs into it. -/
theorem openScope_bind {α : Type} (parent : Nat) (bindings : List (Token × Value))
    (next : Nat → Run α)
    : openScope parent bindings >>= next
        = Run.newScope parent >>= fun scope =>
            Evaluator.defineAll scope bindings >>= fun _ => next scope := by
  simp only [openScope, bind_assoc, pure_bind]

/-- Tasks as the evaluator runs them. -/
def Task.run (evaluator : Evaluator) : (task : Task) → Run task.Answer
  | .evaluate expr => evaluator.evaluate expr
  | .evaluateAll exprs => evaluator.evaluateAll exprs
  | .execute stmt => evaluator.execute stmt
  | .executeAll stmts => evaluator.executeAll stmts
  | .repeatWhile condition body rounds =>
      Evaluator.repeatWhile (evaluator.evaluate condition) (evaluator.execute body) rounds
  | .enter parent bindings stmts => do
      let scope ← openScope parent bindings
      Run.within scope (evaluator.executeAll stmts)
  | .call callee arguments paren => evaluator.call callee arguments paren
  | .limited paren callee arguments =>
      Evaluator.limitNesting paren (evaluator.apply callee arguments)
  | .apply callee arguments => evaluator.apply callee arguments
  | .invoke closure arguments => evaluator.invoke closure arguments
  | .program stmts => evaluator.executeProgram stmts

-----
-- Scripts

/-- What is done by itself and what is asked for, in order. -/
inductive Script (α : Type) : Type 1 where
  | done (value : α)
  | act {β : Type} (action : Run β) (next : β → Script α)
  | ask (task : Task) (next : task.Answer → Script α)

namespace Script

variable {α β : Type}

def bind : Script α → (α → Script β) → Script β
  | .done value, next => next value
  | .act action rest, next => .act action fun value => (rest value).bind next
  | .ask task rest, next => .ask task fun answer => (rest answer).bind next

instance : Monad Script where
  pure := .done
  bind := Script.bind

/-- An action of the machine that asks for nothing. -/
def does (action : Run α) : Script α :=
  .act action .done

def asks (task : Task) : Script task.Answer :=
  .ask task .done

/-- The evaluator runs all that is asked for. -/
def run (evaluator : Evaluator) : Script α → Run α
  | .done value => pure value
  | .act action rest => do
      let value ← action
      (rest value).run evaluator
  | .ask task rest => do
      let answer ← task.run evaluator
      (rest answer).run evaluator

end Script

-----
-- The scripts of the evaluator

open Script (does asks)

def evaluateAllScript : List BoundExpr → Script (List Value)
  | [] => return []
  | first :: rest => do
      let value ← asks (.evaluate first)
      let values ← asks (.evaluateAll rest)
      return value :: values

def executeAllScript : List BoundStmt → Script Completion
  | [] => return .normal
  | first :: rest => do
      match ← asks (.execute first) with
      | .normal => asks (.executeAll rest)
      | completion => return completion

def invokeScript (closure : Closure) (arguments : List Value) : Script Value := do
  let bindings := closure.function.parameters.zip arguments
  let completion ← asks (.enter closure.scope bindings closure.function.body)
  if closure.isInitializer then
    does (Run.receiverIn closure.scope)
  else
    match completion with
    | .returned value => return value
    | _ => return .nil

def constructScript (lineage : Lineage) (arguments : List Value) : Script Value := do
  let object ← does (Run.newObject lineage)
  match lineage.initializer? with
  | none => return object
  | some initializer =>
      let bound ← does (Run.bindMethod initializer object)
      let _ ← asks (.invoke bound arguments)
      return object

def applyScript (arguments : List Value) : Callable → Script Value
  | .closure function => asks (.invoke function arguments)
  | .class lineage => constructScript lineage arguments
  | .native .clock => does Run.readClock

def callScript (callee : Value) (arguments : List Value) (paren : Token) : Script Value :=
  match callee.callable? with
  | none => does (Run.failAt paren .notCallable)
  | some callable =>
      if arguments.length = callable.arity then do
        does (Run.tell (.call callee arguments.length paren.line))
        asks (.limited paren callable arguments)
      else
        does (Run.failAt paren (.wrongArity callable.arity arguments.length))

def evaluateScript : BoundExpr → Script Value
  | .literal value => return .literal value
  | .grouping inner => asks (.evaluate inner)
  | .unary operator operand => do
      let operand ← asks (.evaluate operand)
      does (Run.ofExcept (Value.applyUnary operator operand))
  | .binary left operator right => do
      let left ← asks (.evaluate left)
      let right ← asks (.evaluate right)
      does (Run.ofExcept (Value.applyBinary operator left right))
  | .logical left operator right => do
      let left ← asks (.evaluate left)
      if Evaluator.decidesEarly operator left then return left else asks (.evaluate right)
  | .conditional condition thenCase elseCase => do
      let condition ← asks (.evaluate condition)
      if condition.isTruthy then asks (.evaluate thenCase) else asks (.evaluate elseCase)
  | .variable target => does (Run.readVariable target)
  | .assign target value => do
      let value ← asks (.evaluate value)
      does (Run.writeVariable target value)
      return value
  | .call callee paren arguments => do
      let callee ← asks (.evaluate callee)
      let arguments ← asks (.evaluateAll arguments)
      asks (.call callee arguments paren)
  | .get object name => do
      let object ← asks (.evaluate object)
      does (Run.readProperty object name)
  | .set object name value => do
      match ← asks (.evaluate object) with
      | .object address _ =>
          let value ← asks (.evaluate value)
          does (Run.setField address name.lexeme value)
          return value
      | _ => does (Run.failAt name .fieldOfNonInstance)
  | .this keyword => does (Run.readVariable keyword)
  | .super keyword method => does (Run.readSuper keyword method)
  | .function function => do
      let scope ← does Run.currentScope
      return .closure (← does (Run.newClosure function scope none false))

def repeatWhileScript (condition : BoundExpr) (body : BoundStmt) : Nat → Script Completion
  | 0 => does (throw .tooManyRounds)
  | rounds + 1 => do
      let test ← asks (.evaluate condition)
      if test.isTruthy then
        match ← asks (.execute body) with
        | .normal => asks (.repeatWhile condition body rounds)
        | .broke => return .normal
        | .returned value => return .returned value
      else
        return .normal

def evaluateOptionalScript : Option BoundExpr → Script Value
  | none => return .nil
  | some value => asks (.evaluate value)

def executeScript (rounds : Nat) : BoundStmt → Script Completion
  | .expression value => do
      let _ ← asks (.evaluate value)
      return .normal
  | .print value => do
      let value ← asks (.evaluate value)
      does (Run.print value.text)
      return .normal
  | .printLine none => do
      does (Run.print "\n")
      return .normal
  | .printLine (some value) => do
      let value ← asks (.evaluate value)
      does (Run.print (value.text ++ "\n"))
      return .normal
  | .variable name initial => do
      let value ← evaluateOptionalScript initial
      does (Run.define name value)
      does (Run.tell (.defineVariable name.lexeme value))
      return .normal
  | .block statements => do
      let current ← does Run.currentScope
      asks (.enter current [] statements)
  | .branch condition thenBranch elseBranch => do
      let condition ← asks (.evaluate condition)
      does (Run.tell (.condition condition))
      if condition.isTruthy then
        asks (.execute thenBranch)
      else
        match elseBranch with
        | none => return .normal
        | some elseBranch => asks (.execute elseBranch)
  | .loop condition body => asks (.repeatWhile condition body rounds)
  | .breakLoop _ => return .broke
  | .returnValue _ value => do
      let value ← evaluateOptionalScript value
      return .returned value
  | .function name function => do
      let scope ← does Run.currentScope
      let closure ← does (Run.newClosure function scope (some name.lexeme) false)
      does (Run.define name (.closure closure))
      does (Run.tell (.defineFunction name.lexeme))
      return .normal
  | .class name superclass methods => do
      does (Evaluator.declareClass name superclass methods)
      return .normal

def programScript : List BoundStmt → Script Unit
  | [] => return ()
  | first :: rest => do
      let _ ← asks (.execute first)
      asks (.program rest)

-----
-- Scripts do what the evaluator does

namespace Script

variable {α : Type} (evaluator : Evaluator)

/-- Running an action is the action. -/
@[simp]
theorem run_does (action : Run α) : (does action).run evaluator = action :=
  bind_pure action

/-- Running a task is what the evaluator does for it. -/
theorem run_asks (task : Task) : (asks task).run evaluator = task.run evaluator :=
  bind_pure _

/-- Running either of two scripts is running the chosen one. -/
theorem run_ite {condition : Prop} [Decidable condition] (yes no : Script α)
    : (if condition then yes else no).run evaluator
        = if condition then yes.run evaluator else no.run evaluator :=
  apply_ite _ _ _ _

end Script

variable (evaluator : Evaluator)

/-- The script of expressions in a row runs as they do, by induction on them. -/
theorem run_evaluateAllScript (exprs : List BoundExpr)
    : (evaluateAllScript exprs).run evaluator = evaluator.evaluateAll exprs := by
  cases exprs <;> rfl

/-- The script of statements in a row runs as they do, by induction on them. -/
theorem run_executeAllScript (stmts : List BoundStmt)
    : (executeAllScript stmts).run evaluator = evaluator.executeAll stmts := by
  cases stmts with
  | nil => rfl
  | cons first rest =>
      refine bind_congr fun completion => ?_
      cases completion with
      | normal => exact Script.run_asks evaluator (.executeAll rest)
      | _ => rfl

/-- The script of an invocation runs as it does. -/
theorem run_invokeScript (closure : Closure) (arguments : List Value)
    : (invokeScript closure arguments).run evaluator = evaluator.invoke closure arguments := by
  refine (bind_assoc _ _ _).trans ((openScope_bind _ _ _).trans ?_)
  refine bind_congr fun scope => bind_congr fun _ => bind_congr fun (completion : Completion) => ?_
  refine (Script.run_ite evaluator _ _).trans ?_
  refine ite_congr rfl (fun _ => Script.run_does evaluator _) fun _ => ?_
  cases completion <;> rfl

/-- The script of a new instance runs as making it does. -/
theorem run_constructScript (lineage : Lineage) (arguments : List Value)
    : (constructScript lineage arguments).run evaluator
        = evaluator.construct lineage arguments := by
  refine bind_congr fun object => ?_
  cases lineage.initializer? <;> rfl

/-- The script of an application runs as it does. -/
theorem run_applyScript (callee : Callable) (arguments : List Value)
    : (applyScript arguments callee).run evaluator = evaluator.apply callee arguments := by
  cases callee with
  | closure function => exact Script.run_asks evaluator (.invoke function arguments)
  | «class» lineage => exact run_constructScript evaluator lineage arguments
  | native function =>
      cases function
      exact Script.run_does evaluator _

/-- The script of a call runs as it does. -/
theorem run_callScript (callee : Value) (arguments : List Value) (paren : Token)
    : (callScript callee arguments paren).run evaluator
        = evaluator.call callee arguments paren := by
  unfold callScript Evaluator.call
  cases callee.callable? with
  | none => exact Script.run_does evaluator _
  | some callable =>
      simp only
      split
      · exact bind_congr fun _ => Script.run_asks evaluator (.limited paren callable arguments)
      · exact Script.run_does evaluator _

/-- The script of an expression runs as its step does, by cases on it. -/
theorem run_evaluateScript (expr : BoundExpr)
    : (evaluateScript expr).run evaluator = evaluator.evaluateStep expr := by
  cases expr with
  | grouping inner => exact Script.run_asks evaluator (.evaluate inner)
  | unary operator operand => exact bind_congr fun _ => Script.run_does evaluator _
  | binary left operator right =>
      exact bind_congr fun _ => bind_congr fun _ => Script.run_does evaluator _
  | logical left operator right =>
      refine bind_congr fun value => (Script.run_ite evaluator _ _).trans ?_
      exact ite_congr rfl (fun _ => rfl) fun _ => Script.run_asks evaluator (.evaluate right)
  | conditional condition thenCase elseCase =>
      refine bind_congr fun value => (Script.run_ite evaluator _ _).trans ?_
      exact ite_congr rfl (fun _ => Script.run_asks evaluator (.evaluate thenCase))
        fun _ => Script.run_asks evaluator (.evaluate elseCase)
  | «variable» target => exact Script.run_does evaluator _
  | call callee paren arguments =>
      exact bind_congr fun value => bind_congr fun values =>
        Script.run_asks evaluator (.call value values paren)
  | get object name => exact bind_congr fun _ => Script.run_does evaluator _
  | set object name value =>
      refine bind_congr fun receiver => ?_
      cases receiver with
      | object address lineage => rfl
      | _ => exact Script.run_does evaluator _
  | this keyword => exact Script.run_does evaluator _
  | super keyword method => exact Script.run_does evaluator _
  | _ => rfl

/-- The script of a loop runs as it does, by induction on the rounds that are left. -/
theorem run_repeatWhileScript (condition : BoundExpr) (body : BoundStmt) (rounds : Nat)
    : (repeatWhileScript condition body rounds).run evaluator
        = Evaluator.repeatWhile (evaluator.evaluate condition) (evaluator.execute body) rounds := by
  cases rounds with
  | zero => exact Script.run_does evaluator _
  | succ rounds =>
      refine bind_congr fun test => (Script.run_ite evaluator _ _).trans ?_
      refine ite_congr rfl (fun _ => bind_congr fun completion => ?_) fun _ => rfl
      cases completion with
      | normal => exact Script.run_asks evaluator (.repeatWhile condition body rounds)
      | _ => rfl

/-- The script of a statement runs as its step does, by cases on it. -/
theorem run_executeScript (rounds : Nat) (stmt : BoundStmt)
    : (executeScript rounds stmt).run evaluator = evaluator.executeStep rounds stmt := by
  cases stmt with
  | printLine value => cases value <;> rfl
  | «variable» name initial => cases initial <;> rfl
  | block statements =>
      exact bind_congr fun current => Script.run_asks evaluator (.enter current [] statements)
  | branch condition thenBranch elseBranch =>
      refine bind_congr fun test => bind_congr fun _ => (Script.run_ite evaluator _ _).trans ?_
      refine ite_congr rfl (fun _ => Script.run_asks evaluator (.execute thenBranch)) fun _ => ?_
      cases elseBranch with
      | none => rfl
      | some elseBranch => exact Script.run_asks evaluator (.execute elseBranch)
  | loop condition body =>
      exact Script.run_asks evaluator (.repeatWhile condition body rounds)
  | returnValue keyword value => cases value <;> rfl
  | _ => rfl

/-- The script of a program runs as it does. -/
theorem run_programScript (stmts : List BoundStmt)
    : (programScript stmts).run evaluator = evaluator.executeProgram stmts := by
  cases stmts with
  | nil => rfl
  | cons first rest =>
      exact bind_congr fun _ => Script.run_asks evaluator (.program rest)

end Lox.Running
