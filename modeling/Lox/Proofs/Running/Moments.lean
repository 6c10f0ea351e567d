import Lox.Proofs.Machine
import Lox.Proofs.Running.Script
import Lox.Proofs.Scope.Forest
import Lox.Session

/-! The moments of a run.

A moment is a task that is about to be run on a machine. The tasks that its script then asks for
are its parts, and these have parts again, so that the moments of a run form a tree. A path tells
which part to go down into at every step.
-/

namespace Lox

namespace Running

-----
-- Moments

/-- A task on a machine, below which so many levels may still be nested. -/
structure Moment where
  nesting : Nat
  task : Task
  machine : Machine

/-- The machine that an action leaves behind, also when it fails. -/
def leaves {α : Type} (action : Run α) (machine : Machine) : Machine :=
  match action machine with
  | .ok _ after | .error _ after => after

section

variable {α β : Type} {action : Run α} {before after : Machine}

/-- An action that yields a value leaves the machine it yields it in. -/
theorem leaves_ok {value : α} (run : action before = .ok value after)
    : leaves action before = after := by
  unfold leaves
  rw [run]

/-- An action that fails leaves the machine it fails in. -/
theorem leaves_error {fault : Fault} (run : action before = .error fault after)
    : leaves action before = after := by
  unfold leaves
  rw [run]

/-- Behind a value the machine is what the next step leaves. -/
theorem leaves_bind_ok {next : α → Run β} {value : α} (run : action before = .ok value after)
    : leaves (action >>= next) before = leaves (next value) after := by
  unfold leaves
  rw [bind_ok run]

/-- A failure leaves what the first step leaves. -/
theorem leaves_bind_error {next : α → Run β} {fault : Fault}
    (run : action before = .error fault after)
    : leaves (action >>= next) before = after := by
  unfold leaves
  rw [bind_error run]

/-- Inside of a scope the same machine is left, with the scope moved back. -/
theorem leaves_within (scope : Nat) (action : Run α) (machine : Machine)
    : leaves (Run.within scope action) machine
        = { leaves action { machine with current := scope } with current := machine.current } := by
  unfold leaves Run.within
  cases action { machine with current := scope } <;> rfl

/-- A fault that has become another one has left the same machine behind. -/
theorem leaves_limitNesting (paren : Token) (action : Run Value) (machine : Machine)
    : leaves (Evaluator.limitNesting paren action) machine = leaves action machine := by
  cases run : action machine with
  | ok value after => rw [leaves_ok run, leaves_ok (Evaluator.limitNesting_ok run)]
  | error fault after => rw [leaves_error run, leaves_error (Evaluator.limitNesting_error run)]

end

namespace Moment

def outcome (rounds : Nat) (moment : Moment)
    : EStateM.Result Fault Machine moment.task.Answer :=
  moment.task.run (Evaluator.ofNesting rounds moment.nesting) moment.machine

def after (rounds : Nat) (moment : Moment) : Machine :=
  leaves (moment.task.run (Evaluator.ofNesting rounds moment.nesting)) moment.machine

/-- The moment at which a program starts. -/
def start (limits : Limits) (statements : List BoundStmt) (machine : Machine) : Moment :=
  {
    nesting := limits.nesting,
    task := .program statements,
    machine := { machine with output := "" }
  }

/-- A program is run as the moment at its start is. -/
theorem after_start (limits : Limits) (program : Program) (machine : Machine)
    : (start limits program.statements machine).after limits.rounds
        = (machine.runProgram limits program).2 := by
  change leaves ((Evaluator.ofNesting limits.rounds limits.nesting).executeProgram
    program.statements) { machine with output := "" } = _
  unfold leaves Machine.runProgram
  simp only
  cases (Evaluator.ofNesting limits.rounds limits.nesting).executeProgram program.statements
    { machine with output := "" } <;> rfl

end Moment

-----
-- Parts

/-- The moments that a script asks for when it is run on a machine, in order. -/
def Script.parts {α : Type} (rounds nesting : Nat) : Script α → Machine → List Moment
  | .done _, _ => []
  | .act action next, machine =>
      match action machine with
      | .ok value after => (next value).parts rounds nesting after
      | .error _ _ => []
  | .ask task next, machine =>
      { nesting, task, machine } ::
        match task.run (Evaluator.ofNesting rounds nesting) machine with
        | .ok answer after => (next answer).parts rounds nesting after
        | .error _ _ => []

namespace Moment

/-- The moments that a moment consists of. Only expressions and statements go a level down. -/
def parts (rounds : Nat) (moment : Moment) : List Moment :=
  match moment.task, moment.nesting with
  | .evaluate _, 0 | .execute _, 0 => []
  | .evaluate expr, nesting + 1 =>
      (evaluateScript expr).parts rounds nesting moment.machine
  | .execute stmt, nesting + 1 =>
      (executeScript rounds stmt).parts rounds nesting moment.machine
  | .evaluateAll exprs, nesting =>
      (evaluateAllScript exprs).parts rounds nesting moment.machine
  | .executeAll stmts, nesting =>
      (executeAllScript stmts).parts rounds nesting moment.machine
  | .repeatWhile condition body left, nesting =>
      (repeatWhileScript condition body left).parts rounds nesting moment.machine
  | .call callee arguments paren, nesting =>
      (callScript callee arguments paren).parts rounds nesting moment.machine
  | .apply callee arguments, nesting =>
      (applyScript arguments callee).parts rounds nesting moment.machine
  | .invoke closure arguments, nesting =>
      (invokeScript closure arguments).parts rounds nesting moment.machine
  | .program stmts, nesting =>
      (programScript stmts).parts rounds nesting moment.machine
  | .limited _ callee arguments, nesting =>
      [{ nesting, task := .apply callee arguments, machine := moment.machine }]
  | .enter parent bindings stmts, nesting =>
      match openScope parent bindings moment.machine with
      | .ok scope opened =>
          [{ nesting, task := .executeAll stmts, machine := { opened with current := scope } }]
      | .error _ _ => []

/-- The moment that a path leads to. -/
def at? (rounds : Nat) (moment : Moment) : List Nat → Option Moment
  | [] => some moment
  | index :: path =>
      (moment.parts rounds)[index]?.bind fun part => part.at? rounds path

end Moment

end Running

-----
-- Scopes that are entered

/-- What a scope holds once the bindings have been made in order. -/
def held (bindings : List (Token × Value)) : Table Value :=
  bindings.foldl (fun table binding => table.insert binding.1.lexeme binding.2) .empty

/-- The machine inside of a new scope in which some names have values already. -/
def Machine.entered (machine : Machine) (parent : Nat) (bindings : List (Token × Value))
    : Machine :=
  {
    machine with
    scopes := ⟨machine.scopes.scopes.push { parent := some parent, values := held bindings }⟩,
    current := machine.scopes.size
  }

namespace Running

/-- Definitions in the last scope are put into it, by induction on them. -/
theorem defineAll_last (machine : Machine) (bindings : List (Token × Value))
    (last : Scope Value)
    : Evaluator.defineAll machine.scopes.size bindings
          { machine with scopes := ⟨machine.scopes.scopes.push last⟩ }
        = .ok ()
            {
              machine with
              scopes :=
                ⟨machine.scopes.scopes.push
                  {
                    last with
                    values :=
                      bindings.foldl
                        (fun table binding => table.insert binding.1.lexeme binding.2) last.values
                  }⟩
            } := by
  induction bindings generalizing last with
  | nil => rfl
  | cons first rest ih =>
      have written := Forest.put_last machine.scopes.scopes last first.1.lexeme first.2
      have defined
          : Run.defineIn machine.scopes.size first.1.lexeme first.2
                { machine with scopes := ⟨machine.scopes.scopes.push last⟩ }
              = .ok ()
                  {
                    machine with
                    scopes :=
                      ⟨machine.scopes.scopes.push
                        { last with values := last.values.insert first.1.lexeme first.2 }⟩
                  } := by
        rw [← written]
        rfl
      exact (bind_ok defined).trans (ih _)

/-- A scope is opened as the next one, with its bindings. -/
theorem openScope_run (machine : Machine) (parent : Nat) (bindings : List (Token × Value))
    : openScope parent bindings machine
        = .ok machine.scopes.size
            { machine.entered parent bindings with current := machine.current } := by
  have opened
      : Run.newScope parent machine
          = .ok machine.scopes.size
              { machine with scopes := machine.scopes.push (some parent) } :=
    rfl
  have defined := defineAll_last machine bindings { parent := some parent, values := .empty }
  exact (bind_ok opened).trans (bind_ok defined)

namespace Moment

/-- An activation enters a scope inside of the one that its function was created in. -/
def entering (moment : Moment) (closure : Closure) (arguments : List Value) : Moment :=
  {
    moment with
    task :=
      .enter closure.scope (closure.function.parameters.zip arguments) closure.function.body
  }

/-- The body of the function, where it is run. -/
def body (moment : Moment) (closure : Closure) (arguments : List Value) : Moment :=
  {
    nesting := moment.nesting,
    task := .executeAll closure.function.body,
    machine :=
      moment.machine.entered closure.scope (closure.function.parameters.zip arguments)
  }

/-- A path that goes on leads to a moment of the one it leads to. -/
theorem at?_append (rounds : Nat) (moment : Moment) (path more : List Nat)
    : moment.at? rounds (path ++ more)
        = (moment.at? rounds path).bind fun inner => inner.at? rounds more := by
  induction path generalizing moment with
  | nil => rfl
  | cons index path ih =>
      change (moment.parts rounds)[index]?.bind _ = ((moment.parts rounds)[index]?.bind _).bind _
      rw [Option.bind_assoc]
      exact congrArg _ (funext fun part => ih part)

/-- Statements in a new scope are run there and nowhere else. -/
theorem parts_enter (rounds : Nat) {moment : Moment} {parent : Nat}
    {bindings : List (Token × Value)} {stmts : List BoundStmt}
    (entering : moment.task = .enter parent bindings stmts)
    : moment.parts rounds
        = [{
            moment with
            task := .executeAll stmts,
            machine := moment.machine.entered parent bindings
          }] := by
  obtain ⟨nesting, task, machine⟩ := moment
  obtain rfl : task = _ := entering
  unfold parts
  simp only [openScope_run]
  rfl

/-- An activation enters its scope, and does the rest by itself. -/
theorem parts_invoke (rounds : Nat) {moment : Moment} {closure : Closure}
    {arguments : List Value} (invoking : moment.task = .invoke closure arguments)
    : moment.parts rounds = [moment.entering closure arguments] := by
  obtain ⟨nesting, task, machine⟩ := moment
  obtain rfl : task = _ := invoking
  change Script.parts rounds nesting (.ask _ _) machine = _
  unfold Script.parts
  refine congrArg (List.cons _) ?_
  cases (Task.enter _ _ _).run (Evaluator.ofNesting rounds nesting) machine with
  | error fault after => rfl
  | ok completion after =>
      change Script.parts rounds nesting (if closure.isInitializer then _ else _) after = _
      split
      · unfold Script.does Script.parts
        cases Run.receiverIn closure.scope after <;> rfl
      · cases completion <;> rfl

/-- The body is run in the scope that the activation entered. -/
theorem at?_body (rounds : Nat) {moment : Moment} {closure : Closure} {arguments : List Value}
    (invoking : moment.task = .invoke closure arguments)
    : moment.at? rounds [0, 0] = some (moment.body closure arguments) := by
  unfold at?
  rw [parts_invoke rounds invoking]
  change (Moment.parts rounds _)[0]?.bind _ = _
  rw [parts_enter rounds rfl]
  rfl

end Moment

end Running

end Lox
