import Lox.Proofs.Program
import Lox.Proofs.Running.Confinement
import Lox.Proofs.Running.Discipline

/-! How statements end when an accepted program runs.

Nothing breaks out of a function or of the whole program, and nothing returns from the program. A
value that is returned passes through every statement on its way to the innermost call, and the
call ends with it.
-/

namespace Lox

/-- How a statement may end, given what stands around it. -/
def Completion.Allowed (inFunction inLoop : Bool) : Completion → Prop
  | .normal => True
  | .broke => inLoop = true
  | .returned _ => inFunction = true

namespace Running

-----
-- How statements end

/-- If the action succeeds, its result is as told. -/
def Ensures {α : Type} (action : Run α) (post : α → Prop) : Prop :=
  ∀ before value after, action before = .ok value after → post value

namespace Ensures

variable {α β : Type} {action : Run α} {post : α → Prop}

/-- A value alone ensures what holds of it. -/
theorem pure {value : α} (holds : post value) : Ensures (Pure.pure value) post := by
  intro before result after run
  cases run
  exact holds

/-- A fault ensures anything, since there is no value. -/
theorem throw (fault : Fault) : Ensures (MonadExcept.throw fault : Run α) post := by
  intro before result after run
  cases run

/-- Two steps in a row ensure what the second one does. -/
theorem bind {next : α → Run β} {post' : β → Prop} (first : Ensures action post)
    (second : ∀ value, post value → Ensures (next value) post')
    : Ensures (action >>= next) post' := by
  intro before result after run
  cases ran : action before with
  | error fault between =>
      rw [bind_error ran] at run
      cases run
  | ok value between =>
      rw [bind_ok ran] at run
      exact second value (first before value between ran) between result after run

/-- Whatever an action hands on, the next one ensures what is told. -/
theorem behind {next : α → Run β} {post' : β → Prop} (second : ∀ value, Ensures (next value) post')
    : Ensures (action >>= next) post' :=
  bind (fun _ _ _ _ => trivial) fun value (_ : True) => second value

/-- What is ensured inside of a scope is ensured around it. -/
theorem within {scope : Nat} (ensures : Ensures action post)
    : Ensures (Run.within scope action) post := by
  intro before result after run
  unfold Run.within at run
  split at run
  · next value last ran =>
      cases run
      exact ensures _ _ _ ran
  · cases run

end Ensures

/-- Statements that keep the rules end as they may. -/
def EndsStatements (evaluator : Evaluator) : Prop :=
  ∀ stmt inFunction inLoop,
    stmt.Keeps inFunction inLoop
    → Ensures (evaluator.execute stmt) (·.Allowed inFunction inLoop)

namespace EndsStatements

variable {evaluator : Evaluator} {inFunction inLoop : Bool}

/-- Statements in a row end as each of them may, by induction on them. -/
theorem executeAll (ends : EndsStatements evaluator) {stmts : List BoundStmt}
    (keeps : KeepsStmts inFunction inLoop stmts)
    : Ensures (evaluator.executeAll stmts) (·.Allowed inFunction inLoop) := by
  induction stmts with
  | nil => exact .pure trivial
  | cons first rest ih =>
      refine (ends first inFunction inLoop keeps.1).bind fun completion allowed => ?_
      cases completion with
      | normal => exact ih keeps.2
      | broke => exact .pure allowed
      | returned value => exact .pure allowed

/-- A loop takes care of what breaks out of its body. -/
theorem repeatWhile {test : Run Value} {body : Run Completion}
    (ends : Ensures body (·.Allowed inFunction true)) (rounds : Nat)
    : Ensures (Evaluator.repeatWhile test body rounds) (·.Allowed inFunction inLoop) := by
  induction rounds with
  | zero => exact .throw .tooManyRounds
  | succ rounds ih =>
      refine .behind fun condition => ?_
      split
      · refine ends.bind fun completion allowed => ?_
        cases completion with
        | normal => exact ih
        | broke => exact .pure trivial
        | returned value => exact .pure allowed
      · exact .pure trivial

/-- A statement only ends as its place allows, by cases on it. -/
theorem executeStep (ends : EndsStatements evaluator) (rounds : Nat) (stmt : BoundStmt)
    (keeps : stmt.Keeps inFunction inLoop)
    : Ensures (Evaluator.executeStep rounds evaluator stmt) (·.Allowed inFunction inLoop) := by
  cases stmt with
  | expression value => exact .behind fun _ => .pure trivial
  | print value => exact .behind fun _ => .behind fun _ => .pure trivial
  | printLine value =>
      cases value with
      | none => exact .behind fun _ => .pure trivial
      | some value => exact .behind fun _ => .behind fun _ => .pure trivial
  | «variable» name initial => exact .behind fun _ => .behind fun _ => .behind fun _ => .pure trivial
  | block statements =>
      exact .behind fun _ => .behind fun _ => (ends.executeAll keeps).within
  | branch condition thenBranch elseBranch =>
      refine .behind fun condition => .behind fun _ => ?_
      split
      · exact ends thenBranch inFunction inLoop keeps.1
      · cases elseBranch with
        | none => exact .pure trivial
        | some elseBranch => exact ends elseBranch inFunction inLoop keeps.2
  | loop condition body => exact repeatWhile (ends body inFunction true keeps) rounds
  | breakLoop keyword => exact .pure keeps
  | returnValue keyword value => exact .behind fun _ => .pure keeps
  | function name function =>
      exact .behind fun _ => .behind fun _ => .behind fun _ => .behind fun _ => .pure trivial
  | «class» name superclass methods => exact .behind fun _ => .pure trivial

/-- Statements only end as their place allows for every limit on open calls, by induction on it. -/
theorem ofNesting (rounds nesting : Nat)
    : EndsStatements (Evaluator.ofNesting rounds nesting) := by
  induction nesting with
  | zero => exact fun _ _ _ _ => .throw .tooDeep
  | succ nesting ih => exact fun stmt _ _ keeps => ih.executeStep rounds stmt keeps

end EndsStatements

-----
-- How moments end

/-- How a task that runs statements ended. -/
def Task.completion? : (task : Task) → task.Answer → Option Completion
  | .execute _, completion | .executeAll _, completion | .repeatWhile .., completion
  | .enter .., completion => some completion
  | .evaluate _, _ | .evaluateAll _, _ | .call .., _ | .limited .., _ | .apply .., _
  | .invoke .., _ | .program _, _ => none

/-- The moment ends, and its statements end as told. -/
def Moment.Completes (rounds : Nat) (moment : Moment) (completion : Completion) : Prop :=
  ∃ answer after,
    moment.outcome rounds = .ok answer after ∧ moment.task.completion? answer = some completion

/-- Statements that are run in a new scope end as they may. -/
theorem ensures_enter {rounds nesting : Nat} {inFunction inLoop : Bool} {parent : Nat}
    {bindings : List (Token × Value)} {stmts : List BoundStmt}
    (keeps : KeepsStmts inFunction inLoop stmts)
    : Ensures ((Task.enter parent bindings stmts).run (Evaluator.ofNesting rounds nesting))
        (Completion.Allowed inFunction inLoop) :=
  .behind fun _ => ((EndsStatements.ofNesting rounds nesting).executeAll keeps).within

/-- However its body goes on, a loop breaks out of nothing. -/
theorem Moment.loop_completes {rounds : Nat} {moment : Moment} {stmt : BoundStmt}
    (isLoop : stmt.IsLoop) (executing : moment.task = .execute stmt)
    : ¬moment.Completes rounds .broke := by
  obtain ⟨nesting, task, machine⟩ := moment
  obtain rfl : task = _ := executing
  rintro ⟨completion, after, run, broke⟩
  obtain rfl := Option.some.inj broke
  have allowed := EndsStatements.ofNesting rounds nesting stmt true false isLoop.keeps
    machine _ after run
  cases allowed

-----
-- Returned values on their way

/-- Whatever the script asks for that ends by returning the value, the script ends with it, too. -/
def Script.Relays (value : Value) {α : Type} (relayed : α → Prop) : Script α → Prop
  | .done _ => True
  | .act _ next => ∀ result, (next result).Relays value relayed
  | .ask task next =>
      ∀ answer,
        (task.completion? answer = some (.returned value)
          → ∃ result, next answer = .done result ∧ relayed result)
        ∧ (next answer).Relays value relayed

namespace Script.Relays

variable {value : Value} {α β : Type} {relayed : α → Prop}

/-- A value alone relays no return. -/
theorem done (result : α) : (pure result : Script α).Relays value relayed :=
  trivial

/-- An action relays no return, since it runs no statement. -/
theorem does (action : Run α) : (Script.does action).Relays value relayed :=
  fun _ => trivial

/-- Behind an action a script relays what it would without it. -/
theorem doesThen {action : Run β} {next : β → Script α}
    (rest : ∀ result, (next result).Relays value relayed)
    : (Script.does action >>= next).Relays value relayed :=
  rest

/-- A task that runs no statements does not end by returning anything. -/
theorem asksQuiet {task : Task} {next : task.Answer → Script α}
    (quiet : ∀ answer, task.completion? answer = none)
    (rest : ∀ answer, (next answer).Relays value relayed)
    : (Script.asks task >>= next).Relays value relayed := by
  refine fun answer => ⟨fun returned => ?_, rest answer⟩
  rw [quiet] at returned
  cases returned

/-- A task relays a return if its answer is relayed. -/
theorem asks {task : Task} {relayed : task.Answer → Prop}
    (relays : ∀ answer, task.completion? answer = some (.returned value) → relayed answer)
    : (Script.asks task).Relays value relayed :=
  fun answer => ⟨fun returned => ⟨answer, rfl, relays answer returned⟩, trivial⟩

/-- A script behind one without returns relays what it would without it. -/
theorem bind {script : Script β} {next : β → Script α}
    (front : script.Relays value fun _ => False)
    (rest : ∀ result, (next result).Relays value relayed)
    : (script >>= next).Relays value relayed := by
  change (script.bind next).Relays value relayed
  induction script with
  | done result => exact rest result
  | act action beyond ih => exact fun result => ih result (front result)
  | ask task beyond ih =>
      refine fun answer => ⟨fun returned => ?_, ih answer (front answer).2⟩
      obtain ⟨_, _, never⟩ := (front answer).1 returned
      exact never.elim

/-- If a part returns the value, the script ends with it. -/
theorem ends {rounds nesting : Nat} {script : Script α} (relays : script.Relays value relayed)
    {machine : Machine} {part : Moment} (listed : part ∈ script.parts rounds nesting machine)
    (returns : part.Completes rounds (.returned value))
    : ∃ result after,
        script.run (Evaluator.ofNesting rounds nesting) machine = .ok result after
        ∧ relayed result := by
  induction script generalizing machine with
  | done result => cases listed
  | act action next ih =>
      unfold Script.parts at listed
      unfold Script.run
      cases run : action machine with
      | error fault after =>
          rw [run] at listed
          cases listed
      | ok result after =>
          rw [run] at listed
          rw [bind_ok run]
          exact ih result (relays result) listed
  | ask task next ih =>
      unfold Script.parts at listed
      unfold Script.run
      rcases List.mem_cons.1 listed with rfl | later
      · obtain ⟨answer, after, run, returned⟩ := returns
        obtain ⟨result, last, holds⟩ := (relays answer).1 returned
        refine ⟨result, after, ?_, holds⟩
        exact (bind_ok run).trans (by rw [last]; rfl)
      · cases run : task.run (Evaluator.ofNesting rounds nesting) machine with
        | error fault after =>
            rw [run] at later
            cases later
        | ok answer after =>
            rw [run] at later
            rw [bind_ok run]
            exact ih answer (relays answer).2 later

end Script.Relays

section

variable (value : Value)

/-- Evaluating expressions in a row relays no return. -/
theorem evaluateAll_relays (exprs : List BoundExpr)
    : (evaluateAllScript exprs).Relays value fun _ => False := by
  cases exprs with
  | nil => exact .done _
  | cons first rest =>
      exact .asksQuiet (fun _ => rfl) fun _ => .asksQuiet (fun _ => rfl) fun _ => .done _

/-- No part of an expression runs statements. -/
theorem evaluate_relays (expr : BoundExpr)
    : (evaluateScript expr).Relays value fun _ => False := by
  have last expr : (Script.asks (.evaluate expr)).Relays value fun _ => False := .asks nofun
  cases expr with
  | literal value => exact .done _
  | grouping inner => exact last inner
  | unary operator operand => exact .asksQuiet (fun _ => rfl) fun _ => .does _
  | binary left operator right =>
      exact .asksQuiet (fun _ => rfl) fun _ => .asksQuiet (fun _ => rfl) fun _ => .does _
  | logical left operator right =>
      refine .asksQuiet (fun _ => rfl) fun left => ?_
      split
      · exact .done _
      · exact last right
  | conditional condition thenCase elseCase =>
      refine .asksQuiet (fun _ => rfl) fun condition => ?_
      split
      · exact last thenCase
      · exact last elseCase
  | «variable» target => exact .does _
  | assign target value =>
      exact .asksQuiet (fun _ => rfl) fun _ => .doesThen fun _ => .done _
  | call callee paren arguments =>
      exact .asksQuiet (fun _ => rfl) fun _ => .asksQuiet (fun _ => rfl) fun _ => .asks nofun
  | get object name => exact .asksQuiet (fun _ => rfl) fun _ => .does _
  | set object name value =>
      refine .asksQuiet (fun _ => rfl) fun object => ?_
      cases object with
      | object address lineage =>
          exact .asksQuiet (fun _ => rfl) fun _ => .doesThen fun _ => .done _
      | _ => exact .does _
  | this keyword => exact .does _
  | super keyword method => exact .does _
  | function function => exact .doesThen fun _ => .doesThen fun _ => .done _

/-- Evaluating an optional expression relays no return. -/
theorem evaluateOptional_relays (initial : Option BoundExpr)
    : (evaluateOptionalScript initial).Relays value fun _ => False := by
  cases initial with
  | none => exact .done _
  | some initial => exact .asks nofun

/-- Applying a function or a class relays no return, which ends in its call. -/
theorem apply_relays (callee : Callable) (arguments : List Value)
    : (applyScript arguments callee).Relays value fun _ => False := by
  cases callee with
  | closure function => exact .asks nofun
  | «class» lineage =>
      refine .doesThen fun object => ?_
      cases lineage.initializer? with
      | none => exact .done _
      | some initializer => exact .doesThen fun _ => .asksQuiet (fun _ => rfl) fun _ => .done _
  | native function =>
      cases function
      exact .does _

/-- A call relays no return, which ends in it. -/
theorem call_relays (callee : Value) (arguments : List Value) (paren : Token)
    : (callScript callee arguments paren).Relays value fun _ => False := by
  unfold callScript
  split
  · exact .does _
  · split
    · exact .doesThen fun _ => .asks nofun
    · exact .does _

/-- Statements in a row relay the return of the one that ends them. -/
theorem executeAll_relays (stmts : List BoundStmt)
    : (executeAllScript stmts).Relays value (· = .returned value) := by
  cases stmts with
  | nil => exact .done _
  | cons first rest =>
      intro completion
      cases completion with
      | normal => exact ⟨nofun, .asks fun _ returned => Option.some.inj returned⟩
      | broke => exact ⟨nofun, .done _⟩
      | returned other => exact ⟨fun returned => ⟨_, rfl, Option.some.inj returned⟩, .done _⟩

/-- A loop relays the return of its body. -/
theorem repeatWhile_relays (condition : BoundExpr) (body : BoundStmt) (rounds : Nat)
    : (repeatWhileScript condition body rounds).Relays value (· = .returned value) := by
  cases rounds with
  | zero => exact .does _
  | succ rounds =>
      refine .asksQuiet (fun _ => rfl) fun test => ?_
      split
      · intro completion
        cases completion with
        | normal => exact ⟨nofun, .asks fun _ returned => Option.some.inj returned⟩
        | broke => exact ⟨nofun, .done _⟩
        | returned other => exact ⟨fun returned => ⟨_, rfl, Option.some.inj returned⟩, .done _⟩
      · exact .done _

/-- A statement relays the return that is inside of it. -/
theorem execute_relays (rounds : Nat) (stmt : BoundStmt)
    : (executeScript rounds stmt).Relays value (· = .returned value) := by
  cases stmt with
  | expression value => exact .asksQuiet (fun _ => rfl) fun _ => .done _
  | print value => exact .asksQuiet (fun _ => rfl) fun _ => .doesThen fun _ => .done _
  | printLine value =>
      cases value with
      | none => exact .doesThen fun _ => .done _
      | some value => exact .asksQuiet (fun _ => rfl) fun _ => .doesThen fun _ => .done _
  | «variable» name initial =>
      exact (evaluateOptional_relays value initial).bind fun _ =>
        .doesThen fun _ => .doesThen fun _ => .done _
  | block statements => exact .doesThen fun _ => .asks fun _ returned => Option.some.inj returned
  | branch condition thenBranch elseBranch =>
      refine .asksQuiet (fun _ => rfl) fun _ => .doesThen fun _ => ?_
      split
      · exact .asks fun _ returned => Option.some.inj returned
      · cases elseBranch with
        | none => exact .done _
        | some elseBranch => exact .asks fun _ returned => Option.some.inj returned
  | loop condition body => exact .asks fun _ returned => Option.some.inj returned
  | breakLoop keyword => exact .done _
  | returnValue keyword result =>
      exact (evaluateOptional_relays value result).bind fun _ => .done _
  | function name function =>
      exact .doesThen fun _ => .doesThen fun _ => .doesThen fun _ => .doesThen fun _ => .done _
  | «class» name superclass methods => exact .doesThen fun _ => .done _

end

/-- The call ends with the value that its body returned, or with its receiver if it is that of an
initializer. -/
def Moment.EndsWith (rounds : Nat) (moment : Moment) (closure : Closure) (arguments : List Value)
    (value : Value)
    : Prop :=
  ∃ after,
    (Evaluator.ofNesting rounds moment.nesting).invoke closure arguments moment.machine
      = if closure.isInitializer then Run.receiverIn closure.scope after else .ok value after

/-- A scope ends as the statements in it do. -/
theorem Moment.enter_completes {rounds : Nat} {moment part : Moment} {parent : Nat}
    {bindings : List (Token × Value)} {stmts : List BoundStmt} {completion : Completion}
    (entering : moment.task = .enter parent bindings stmts) (listed : part ∈ moment.parts rounds)
    (completes : part.Completes rounds completion)
    : moment.Completes rounds completion := by
  rw [parts_enter rounds entering] at listed
  obtain rfl := List.mem_singleton.1 listed
  obtain ⟨nesting, task, machine⟩ := moment
  obtain rfl : task = _ := entering
  obtain ⟨answer, after, run, same⟩ := completes
  obtain rfl := Option.some.inj same
  refine ⟨answer, { after with current := machine.current }, ?_, rfl⟩
  exact (bind_ok (openScope_run machine parent bindings)).trans (Run.within_ok run)

/-- A call whose body returns a value ends with it. -/
theorem Moment.invoke_endsWith {rounds : Nat} {moment part : Moment} {closure : Closure}
    {arguments : List Value} {value : Value} (invoking : moment.task = .invoke closure arguments)
    (listed : part ∈ moment.parts rounds) (returns : part.Completes rounds (.returned value))
    : moment.EndsWith rounds closure arguments value := by
  rw [parts_invoke rounds invoking] at listed
  obtain rfl := List.mem_singleton.1 listed
  obtain ⟨nesting, task, machine⟩ := moment
  obtain rfl : task = _ := invoking
  obtain ⟨answer, after, run, same⟩ := returns
  obtain rfl := Option.some.inj same
  refine ⟨after, ?_⟩
  rw [← run_invokeScript]
  refine (bind_ok run).trans ?_
  change Script.run _ (if closure.isInitializer then _ else _) after = _
  split
  · rw [Script.run_does]
  · rfl

/-- What a part returns is what the moment returns, unless a call ends with it, or it is dropped
by the program. -/
theorem Moment.returned_by_part {rounds : Nat} {moment part : Moment} {value : Value}
    (listed : part ∈ moment.parts rounds) (returns : part.Completes rounds (.returned value))
    : moment.Completes rounds (.returned value)
      ∨ (∃ closure arguments,
        moment.task = .invoke closure arguments ∧ moment.EndsWith rounds closure arguments value)
      ∨ ∃ stmts, moment.task = .program stmts := by
  obtain ⟨nesting, task, machine⟩ := moment
  cases task with
  | evaluate expr =>
      cases nesting with
      | zero => cases listed
      | succ nesting =>
          obtain ⟨_, _, _, never⟩ := (evaluate_relays value expr).ends listed returns
          exact never.elim
  | evaluateAll exprs =>
      obtain ⟨_, _, _, never⟩ := (evaluateAll_relays value exprs).ends listed returns
      exact never.elim
  | execute stmt =>
      cases nesting with
      | zero => cases listed
      | succ nesting =>
          obtain ⟨_, after, run, rfl⟩ := (execute_relays value rounds stmt).ends listed returns
          rw [run_executeScript] at run
          exact .inl ⟨_, after, run, rfl⟩
  | executeAll stmts =>
      obtain ⟨_, after, run, rfl⟩ := (executeAll_relays value stmts).ends listed returns
      rw [run_executeAllScript] at run
      exact .inl ⟨_, after, run, rfl⟩
  | repeatWhile condition body left =>
      obtain ⟨_, after, run, rfl⟩ :=
        (repeatWhile_relays value condition body left).ends listed returns
      rw [run_repeatWhileScript] at run
      exact .inl ⟨_, after, run, rfl⟩
  | enter parent bindings stmts => exact .inl (enter_completes rfl listed returns)
  | call callee arguments paren =>
      obtain ⟨_, _, _, never⟩ := (call_relays value callee arguments paren).ends listed returns
      exact never.elim
  | limited paren callee arguments =>
      obtain rfl := List.mem_singleton.1 listed
      obtain ⟨_, _, _, none⟩ := returns
      cases none
  | apply callee arguments =>
      obtain ⟨_, _, _, never⟩ := (apply_relays value callee arguments).ends listed returns
      exact never.elim
  | invoke closure arguments =>
      exact .inr (.inl ⟨closure, arguments, rfl, invoke_endsWith rfl listed returns⟩)
  | program stmts => exact .inr (.inr ⟨stmts, rfl⟩)

end Running

end Lox
