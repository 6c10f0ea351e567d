import Lox.Proofs.Running.Script

/-! What the single actions of a run satisfy, the whole run satisfies.

A claim about runs that goes from one action to the next needs no induction of its own: it is
enough that the actions satisfy it that scripts are made of, and that it goes into a scope and out
of one.
-/

namespace Lox.Running

-----
-- Tasks in their order

namespace Task

/-- Tasks of one level ask for others of the level in this order only. -/
def rank : Task → Nat
  | .evaluate _ | .execute _ => 0
  | .evaluateAll _ | .executeAll _ | .repeatWhile .. | .program _ => 1
  | .enter .. => 2
  | .invoke .. => 3
  | .apply .. => 4
  | .limited .. => 5
  | .call .. => 6

/-- How much of a list or a loop is left. -/
def length : Task → Nat
  | .evaluateAll exprs => exprs.length
  | .executeAll stmts | .program stmts => stmts.length
  | .repeatWhile _ _ rounds => rounds
  | _ => 0

def Below (task other : Task) : Prop :=
  Prod.Lex (· < ·) (· < ·) (task.rank, task.length) (other.rank, other.length)

/-- A task of a smaller rank is below one of a greater. -/
theorem Below.of_rank {task other : Task} (less : task.rank < other.rank) : task.Below other :=
  .left _ _ less

/-- The task lies a level further down, or is next to be asked for on its level. -/
def Smaller (nesting : Nat) (task : Task) (nesting' : Nat) (task' : Task) : Prop :=
  Prod.Lex (· < ·) (Prod.Lex (· < ·) (· < ·)) (nesting, task.rank, task.length)
    (nesting', task'.rank, task'.length)

/-- With one call more open every task is smaller. -/
theorem Smaller.nested {task task' : Task} (nesting : Nat)
    : Smaller nesting task (nesting + 1) task' :=
  .left _ _ (Nat.lt_succ_self nesting)

/-- A task below another is smaller with as many calls open. -/
theorem Below.smaller {task task' : Task} (below : task.Below task') (nesting : Nat)
    : Smaller nesting task nesting task' :=
  .right _ below

end Task

-----
-- Regular scripts

/-- All that the script does by itself satisfies the claim, and it asks for what is allowed only. -/
def Script.Regular (holds : ∀ {α : Type}, Run α → Prop) (allowed : Task → Prop) {α : Type}
    : Script α → Prop
  | .done _ => True
  | .act action next => holds action ∧ ∀ value, (next value).Regular holds allowed
  | .ask task next => allowed task ∧ ∀ answer, (next answer).Regular holds allowed

namespace Script.Regular

variable {holds : ∀ {α : Type}, Run α → Prop} {allowed : Task → Prop} {α β : Type}

/-- A value alone is regular. -/
theorem done {value : α} : Script.Regular holds allowed (pure value) :=
  trivial

/-- An allowed action is regular. -/
theorem does {action : Run α} (here : holds action)
    : (Script.does action).Regular holds allowed :=
  ⟨here, fun _ => trivial⟩

/-- An allowed task is regular to ask for. -/
theorem asks {task : Task} (asked : allowed task) : (Script.asks task).Regular holds allowed :=
  ⟨asked, fun _ => trivial⟩

/-- An allowed action in front of a regular script is regular. -/
theorem doesThen {action : Run β} {next : β → Script α} (here : holds action)
    (rest : ∀ value, (next value).Regular holds allowed)
    : (Script.does action >>= next).Regular holds allowed :=
  ⟨here, rest⟩

/-- An allowed task in front of a regular script is regular. -/
theorem asksThen {task : Task} {next : task.Answer → Script α} (asked : allowed task)
    (rest : ∀ answer, (next answer).Regular holds allowed)
    : (Script.asks task >>= next).Regular holds allowed :=
  ⟨asked, rest⟩

/-- Two regular scripts in a row are regular. -/
theorem bind {script : Script β} {next : β → Script α} (front : script.Regular holds allowed)
    (rest : ∀ value, (next value).Regular holds allowed)
    : (script >>= next).Regular holds allowed := by
  change (script.bind next).Regular holds allowed
  induction script with
  | done value => exact rest value
  | act action beyond ih => exact ⟨front.1, fun value => ih value (front.2 value)⟩
  | ask task beyond ih => exact ⟨front.1, fun answer => ih answer (front.2 answer)⟩

end Script.Regular

-----
-- Actions

/-- All actions that scripts are made of satisfy the claim. -/
structure Acts (holds : ∀ {α : Type}, Run α → Prop) : Prop where
  currentScope : holds Run.currentScope
  print (text : String) : holds (Run.print text)
  tell (event : TraceEvent) : holds (Run.tell event)
  readClock : holds Run.readClock
  define (name : Token) (value : Value) : holds (Run.define name value)
  failAt {α : Type} (token : Token) (problem : RuntimeProblem)
    : holds (Run.failAt token problem : Run α)
  ofExcept (result : Except RuntimeError Value) : holds (Run.ofExcept result)
  readVariable (target : Reference (Option Nat)) : holds (Run.readVariable target)
  writeVariable (target : Reference (Option Nat)) (value : Value)
    : holds (Run.writeVariable target value)
  newClosure (function : BoundLambda) (scope : Nat) (name : Option String) (isInitializer : Bool)
    : holds (Run.newClosure function scope name isInitializer)
  bindMethod (method : Closure) (receiver : Value) : holds (Run.bindMethod method receiver)
  receiverIn (scope : Nat) : holds (Run.receiverIn scope)
  newObject (lineage : Lineage) : holds (Run.newObject lineage)
  setField (address : Nat) (name : String) (value : Value)
    : holds (Run.setField address name value)
  readProperty (object : Value) (name : Token) : holds (Run.readProperty object name)
  readSuper (keyword : Reference (Option Nat)) (method : Token)
    : holds (Run.readSuper keyword method)
  declareClass (name : Token) (superclass : Option (Reference (Option Nat)))
    (methods : List (Method (Option Nat)))
    : holds (Evaluator.declareClass name superclass methods)
  tooManyRounds : holds (throw .tooManyRounds : Run Completion)

section

variable (holds : ∀ {α : Type}, Run α → Prop)

/-- Expressions in a row ask for tasks below their own, by induction on them. -/
theorem regular_evaluateAll (exprs : List BoundExpr)
    : (evaluateAllScript exprs).Regular holds (·.Below (.evaluateAll exprs)) := by
  cases exprs with
  | nil => exact .done
  | cons first rest =>
      refine .asksThen (.of_rank Nat.zero_lt_one) fun value => ?_
      exact .asksThen (.right _ (Nat.lt_succ_self _)) fun values => .done

/-- Statements in a row ask for tasks below their own, by induction on them. -/
theorem regular_executeAll (stmts : List BoundStmt)
    : (executeAllScript stmts).Regular holds (·.Below (.executeAll stmts)) := by
  cases stmts with
  | nil => exact .done
  | cons first rest =>
      refine .asksThen (.of_rank Nat.zero_lt_one) fun completion => ?_
      cases completion with
      | normal => exact .asks (.right _ (Nat.lt_succ_self _))
      | _ => exact .done

/-- A program asks for tasks below its own. -/
theorem regular_program (stmts : List BoundStmt)
    : (programScript stmts).Regular holds (·.Below (.program stmts)) := by
  cases stmts with
  | nil => exact .done
  | cons first rest =>
      refine .asksThen (.of_rank Nat.zero_lt_one) fun completion => ?_
      exact .asks (.right _ (Nat.lt_succ_self _))

/-- An expression that may be missing is regular. -/
theorem regular_evaluateOptional (value : Option BoundExpr)
    : (evaluateOptionalScript value).Regular holds fun _ => True := by
  cases value with
  | none => exact .done
  | some value => exact .asks trivial

variable {holds} (acts : Acts holds)

include acts

/-- A loop asks for tasks below its own, by induction on the rounds that are left. -/
theorem regular_repeatWhile (condition : BoundExpr) (body : BoundStmt) (rounds : Nat)
    : (repeatWhileScript condition body rounds).Regular holds
        (·.Below (.repeatWhile condition body rounds)) := by
  cases rounds with
  | zero => exact .does acts.tooManyRounds
  | succ rounds =>
      refine .asksThen (.of_rank Nat.zero_lt_one) fun test => ?_
      split
      · refine .asksThen (.of_rank Nat.zero_lt_one) fun completion => ?_
        cases completion with
        | normal => exact .asks (.right _ (Nat.lt_succ_self _))
        | _ => exact .done
      · exact .done

/-- Invoking a closure asks for tasks below its own. -/
theorem regular_invoke (closure : Closure) (arguments : List Value)
    : (invokeScript closure arguments).Regular holds (·.Below (.invoke closure arguments)) := by
  refine .asksThen (.of_rank (Nat.lt_succ_self 2)) fun completion => ?_
  split
  · exact .does (acts.receiverIn _)
  · cases completion <;> exact .done

/-- Applying a function or a class asks for tasks below its own. -/
theorem regular_apply (callee : Callable) (arguments : List Value)
    : (applyScript arguments callee).Regular holds (·.Below (.apply callee arguments)) := by
  have lower (closure : Closure)
      : (Task.invoke closure arguments).Below (.apply callee arguments) :=
    .of_rank (Nat.lt_succ_self 3)
  cases callee with
  | closure function => exact .asks (lower function)
  | «class» lineage =>
      refine .doesThen (acts.newObject lineage) fun object => ?_
      cases lineage.initializer? with
      | none => exact .done
      | some initializer =>
          refine .doesThen (acts.bindMethod initializer object) fun bound => ?_
          exact .asksThen (lower bound) fun _ => .done
  | native function =>
      cases function
      exact .does acts.readClock

/-- A call asks for tasks below its own, and for none where the value cannot be called. -/
theorem regular_call (callee : Value) (arguments : List Value) (paren : Token)
    : (callScript callee arguments paren).Regular holds
        (·.Below (.call callee arguments paren)) := by
  unfold callScript
  cases callee.callable? with
  | none => exact .does (acts.failAt _ _)
  | some callable =>
      simp only
      split
      · refine .doesThen (acts.tell _) fun _ => ?_
        exact .asks (.of_rank (Nat.lt_succ_self 5))
      · exact .does (acts.failAt _ _)

/-- An expression is regular, by cases on it. -/
theorem regular_evaluate (expr : BoundExpr)
    : (evaluateScript expr).Regular holds fun _ => True := by
  cases expr with
  | literal value => exact .done
  | grouping inner => exact .asks trivial
  | unary operator operand =>
      exact .asksThen trivial fun _ => .does (acts.ofExcept _)
  | binary left operator right =>
      exact .asksThen trivial fun _ => .asksThen trivial fun _ =>
        .does (acts.ofExcept _)
  | logical left operator right =>
      refine .asksThen trivial fun _ => ?_
      split
      · exact .done
      · exact .asks trivial
  | conditional condition thenCase elseCase =>
      refine .asksThen trivial fun _ => ?_
      split <;> exact .asks trivial
  | «variable» target => exact .does (acts.readVariable target)
  | assign target value =>
      exact .asksThen trivial fun _ =>
        .doesThen (acts.writeVariable target _) fun _ => .done
  | call callee paren arguments =>
      exact .asksThen trivial fun _ => .asksThen trivial fun _ => .asks trivial
  | get object name => exact .asksThen trivial fun _ => .does (acts.readProperty _ name)
  | set object name value =>
      refine .asksThen trivial fun object => ?_
      cases object with
      | object address lineage =>
          exact .asksThen trivial fun value =>
            .doesThen (acts.setField address name.lexeme value) fun _ => .done
      | _ => exact .does (acts.failAt name _)
  | this keyword => exact .does (acts.readVariable keyword)
  | super keyword method => exact .does (acts.readSuper keyword method)
  | function function =>
      exact .doesThen acts.currentScope fun scope =>
        .doesThen (acts.newClosure _ _ _ _) fun _ => .done

/-- A statement is regular, by cases on it. -/
theorem regular_execute (rounds : Nat) (stmt : BoundStmt)
    : (executeScript rounds stmt).Regular holds fun _ => True := by
  cases stmt with
  | expression value => exact .asksThen trivial fun _ => .done
  | print value => exact .asksThen trivial fun _ => .doesThen (acts.print _) fun _ => .done
  | printLine value =>
      cases value with
      | none => exact .doesThen (acts.print _) fun _ => .done
      | some value => exact .asksThen trivial fun _ => .doesThen (acts.print _) fun _ => .done
  | «variable» name initial =>
      exact (regular_evaluateOptional holds initial).bind fun value =>
        .doesThen (acts.define name value) fun _ => .doesThen (acts.tell _) fun _ => .done
  | block statements =>
      exact .doesThen acts.currentScope fun _ => .asks trivial
  | branch condition thenBranch elseBranch =>
      refine .asksThen trivial fun _ => .doesThen (acts.tell _) fun _ => ?_
      split
      · exact .asks trivial
      · cases elseBranch with
        | none => exact .done
        | some elseBranch => exact .asks trivial
  | loop condition body => exact .asks trivial
  | breakLoop keyword => exact .done
  | returnValue keyword value => exact (regular_evaluateOptional holds value).bind fun _ => .done
  | function name function =>
      exact .doesThen acts.currentScope fun scope =>
        .doesThen (acts.newClosure _ _ _ _) fun closure =>
          .doesThen (acts.define name _) fun _ => .doesThen (acts.tell _) fun _ => .done
  | «class» name superclass methods =>
      exact .doesThen (acts.declareClass name superclass methods) fun _ => .done

end

-----
-- Runs

/-- The claim holds of all actions and goes from one to the next. -/
structure Conduct (holds : ∀ {α : Type}, Run α → Prop) : Prop extends Acts holds where
  pure {α : Type} (value : α) : holds (Pure.pure value : Run α)
  bind {α β : Type} {action : Run α} {next : α → Run β} (front : holds action)
    (back : ∀ value, holds (next value))
    : holds (action >>= next)
  tooDeep {α : Type} : holds (throw .tooDeep : Run α)
  openScope (parent : Nat) (bindings : List (Token × Value)) : holds (openScope parent bindings)
  within {α : Type} (scope : Nat) {action : Run α} (inside : holds action)
    : holds (Run.within scope action)
  limitNesting (paren : Token) {action : Run Value} (inside : holds action)
    : holds (Evaluator.limitNesting paren action)

namespace Conduct

variable {holds : ∀ {α : Type}, Run α → Prop} (conduct : Conduct holds)

include conduct

/-- What a regular script runs holds if it does for each of its parts. -/
theorem script {evaluator : Evaluator} {allowed : Task → Prop} {α : Type} {script : Script α}
    {action : Run α} (regular : script.Regular holds allowed)
    (runs : script.run evaluator = action)
    (parts : ∀ task, allowed task → holds (task.run evaluator))
    : holds action := by
  subst runs
  induction script with
  | done value => exact conduct.pure value
  | act action next ih => exact conduct.bind regular.1 fun value => ih value (regular.2 value)
  | ask task next ih =>
      exact conduct.bind (parts task regular.1) fun answer => ih answer (regular.2 answer)

/-- A task satisfies the claim if all smaller ones do. -/
theorem task_of_smaller {rounds nesting : Nat} {task : Task}
    (smaller
      : ∀ nesting' task',
          Task.Smaller nesting' task' nesting task
          → holds (task'.run (Evaluator.ofNesting rounds nesting')))
    : holds (task.run (Evaluator.ofNesting rounds nesting)) := by
  have acts := conduct.toActs
  have level (task' : Task) (below : task'.Below task)
      : holds (task'.run (Evaluator.ofNesting rounds nesting)) :=
    smaller nesting task' (below.smaller nesting)
  cases task with
  | evaluate expr =>
      cases nesting with
      | zero => exact conduct.tooDeep
      | succ nesting =>
          refine conduct.script (regular_evaluate acts expr) (run_evaluateScript _ expr) ?_
          exact fun part _ => smaller nesting part (.nested nesting)
  | execute stmt =>
      cases nesting with
      | zero => exact conduct.tooDeep
      | succ nesting =>
          refine conduct.script (regular_execute acts rounds stmt) (run_executeScript _ _ stmt) ?_
          exact fun part _ => smaller nesting part (.nested nesting)
  | evaluateAll exprs =>
      exact conduct.script (regular_evaluateAll holds exprs) (run_evaluateAllScript _ exprs) level
  | executeAll stmts =>
      exact conduct.script (regular_executeAll holds stmts) (run_executeAllScript _ stmts) level
  | repeatWhile condition body left =>
      exact conduct.script (regular_repeatWhile acts condition body left)
        (run_repeatWhileScript _ condition body left) level
  | enter parent bindings stmts =>
      refine conduct.bind (conduct.openScope parent bindings) fun scope => ?_
      exact conduct.within scope (level (.executeAll stmts) (.of_rank (Nat.lt_succ_self 1)))
  | call callee arguments paren =>
      exact conduct.script (regular_call acts callee arguments paren)
        (run_callScript _ callee arguments paren) level
  | limited paren callee arguments =>
      refine conduct.limitNesting paren ?_
      exact level (.apply callee arguments) (.of_rank (Nat.lt_succ_self 4))
  | apply callee arguments =>
      exact conduct.script (regular_apply acts callee arguments)
        (run_applyScript _ callee arguments) level
  | invoke closure arguments =>
      exact conduct.script (regular_invoke acts closure arguments)
        (run_invokeScript _ closure arguments) level
  | program stmts =>
      exact conduct.script (regular_program holds stmts) (run_programScript _ stmts) level

/-- However deep they go, all tasks satisfy the claim. -/
theorem every (rounds nesting : Nat) (task : Task)
    : holds (task.run (Evaluator.ofNesting rounds nesting)) :=
  conduct.task_of_smaller fun nesting' task' _ => every rounds nesting' task'
termination_by (nesting, task.rank, task.length)
decreasing_by assumption

end Conduct

end Lox.Running
