import Lox.Proofs.Program
import Lox.Proofs.Running.Frame
import Lox.Proofs.Running.Operations

/-! Sessions in which something goes wrong.

However a run ends, the machine is back in the scope it was in. A text with errors leaves it alone,
and a run that stops keeps what its operations did until one of them failed.
-/

namespace Lox

/-- But for the scopes that they are in, the machines are the same. -/
def Machine.Alike (one other : Machine) : Prop :=
  { one with current := globalScope } = { other with current := globalScope }

namespace Machine.Alike

variable {one other third : Machine}

/-- Every machine is like itself. -/
theorem refl (machine : Machine) : machine.Alike machine :=
  rfl

/-- Machines like the same one are like each other. -/
theorem trans (front : one.Alike other) (back : other.Alike third) : one.Alike third :=
  Eq.trans front back

/-- What one machine is like is like it. -/
theorem symm (alike : one.Alike other) : other.Alike one :=
  Eq.symm alike

/-- A machine is like itself in another scope. -/
theorem moved (machine : Machine) (scope : Nat)
    : machine.Alike { machine with current := scope } :=
  rfl

/-- Machines that are in the same scope, too, are the same altogether. -/
theorem eq_of_current (alike : one.Alike other) (current : one.current = other.current)
    : one = other := by
  have back := congrArg (fun machine : Machine => { machine with current := one.current }) alike
  exact back.trans (congrArg (fun scope => { other with current := scope }) current)

end Machine.Alike

namespace Running

-----
-- Faults

/-- How the action fails on the machine, if it does. -/
def failure? {α : Type} (action : Run α) (machine : Machine) : Option Fault :=
  match action machine with
  | .ok _ _ => none
  | .error fault _ => some fault

section

variable {α β : Type} {action : Run α} {next : α → Run β} {before after : Machine}

/-- An action that yields a value has no failure. -/
theorem failure?_ok {value : α} (run : action before = .ok value after)
    : failure? action before = none := by
  unfold failure?
  rw [run]

/-- An action that fails has that failure. -/
theorem failure?_error {fault : Fault} (run : action before = .error fault after)
    : failure? action before = some fault := by
  unfold failure?
  rw [run]

/-- Behind a value the failure is that of the next step. -/
theorem failure?_bind_ok {value : α} (run : action before = .ok value after)
    : failure? (action >>= next) before = failure? (next value) after := by
  unfold failure?
  rw [bind_ok run]

/-- A failure is the failure of what it ends. -/
theorem failure?_bind_error {fault : Fault} (run : action before = .error fault after)
    : failure? (action >>= next) before = some fault :=
  failure?_error (bind_error run)

/-- Being in another scope has no failure of its own. -/
theorem failure?_within (scope : Nat) (action : Run α) (machine : Machine)
    : failure? (Run.within scope action) machine
        = failure? action { machine with current := scope } := by
  unfold failure? Run.within
  cases action { machine with current := scope } <;> rfl

end

/-- A fault ends a run as it is, or as the error of the call that it was too deep for. -/
def BecomesFault (cause fault : Fault) : Prop :=
  fault = cause
  ∨ cause = .tooDeep ∧ ∃ paren, fault = .runtime { token := paren, problem := .stackOverflow }

section

variable (paren : Token) {action : Run Value} {machine : Machine}

/-- At the limit on open calls a fault becomes the one that is reported. -/
theorem BecomesFault.limited {cause fault : Fault} (becomes : BecomesFault cause fault)
    : BecomesFault cause (fault.limited paren) := by
  rcases becomes with rfl | ⟨deep, other, rfl⟩
  · cases fault with
    | tooDeep => exact .inr ⟨rfl, paren, rfl⟩
    | _ => exact .inl rfl
  · exact .inr ⟨deep, other, rfl⟩

/-- The limit on open calls only changes which failure it is. -/
theorem failure?_limitNesting (action : Run Value) (machine : Machine)
    : failure? (Evaluator.limitNesting paren action) machine
        = (failure? action machine).map (Fault.limited paren) := by
  cases run : action machine with
  | ok value after =>
      rw [failure?_ok run, failure?_ok (Evaluator.limitNesting_ok run)]
      rfl
  | error fault after =>
      rw [failure?_error run, failure?_error (Evaluator.limitNesting_error run)]
      rfl

/-- A call that succeeds is not limited. -/
theorem limitNesting_succeeds (succeeded : failure? action machine = none)
    : failure? (Evaluator.limitNesting paren action) machine = none := by
  rw [failure?_limitNesting, succeeded]
  rfl

/-- A call that fails does so behind the limit as well. -/
theorem limitNesting_fails {cause fault : Fault} (failed : failure? action machine = some fault)
    (becomes : BecomesFault cause fault)
    : ∃ found,
        failure? (Evaluator.limitNesting paren action) machine = some found
        ∧ BecomesFault cause found := by
  refine ⟨fault.limited paren, ?_, becomes.limited paren⟩
  rw [failure?_limitNesting, failed]
  rfl

end

-----
-- Operations one after another

/-- Each operation finds what the one before it left, wherever the machine may be then. -/
def Follow : Machine → List Operation → Machine → Prop
  | machine, [], last => machine.Alike last
  | machine, operation :: rest, last =>
      machine.Alike operation.before ∧ Follow operation.after rest last

/-- The operations lead from one machine to the other. If one fails, it is the last, changes
nothing, and gives the fault. -/
def Leads : Machine → List Operation → Machine → Option Fault → Prop
  | machine, [], last, fault => machine.Alike last ∧ fault = none
  | machine, operation :: rest, last, fault =>
      machine.Alike operation.before
      ∧ match operation.fault with
        | none => Leads operation.after rest last fault
        | some cause =>
            rest = []
            ∧ operation.after = operation.before
            ∧ operation.before.Alike last
            ∧ ∃ found, fault = some found ∧ BecomesFault cause found

namespace Leads

variable {first between last : Machine} {operations later : List Operation} {fault : Option Fault}

/-- No operations lead from a machine to itself. -/
theorem empty (machine : Machine) : Leads machine [] machine none :=
  ⟨.refl machine, rfl⟩

/-- An operation that succeeded stands in front of those that follow. -/
theorem succeed (leads : Leads between operations last fault)
    : Leads first ({ before := first, after := between, fault := none } :: operations) last
        fault :=
  ⟨.refl first, leads⟩

/-- A failed operation is the last one. -/
theorem fail (machine : Machine) (fault : Fault)
    : Leads machine [{ before := machine, after := machine, fault := some fault }] machine
        (some fault) :=
  ⟨.refl machine, rfl, rfl, .refl machine, fault, rfl, .inl rfl⟩

/-- Operations lead on from a machine that is like the first. -/
theorem start (alike : first.Alike between) (leads : Leads between operations last fault)
    : Leads first operations last fault := by
  cases operations with
  | nil => exact ⟨alike.trans leads.1, leads.2⟩
  | cons operation rest => exact ⟨alike.trans leads.1, leads.2⟩

/-- Operations that succeeded stand in front of those that lead on. -/
theorem append (front : Leads first operations between none)
    (back : Leads between later last fault)
    : Leads first (operations ++ later) last fault := by
  induction operations generalizing first with
  | nil => exact back.start front.1
  | cons operation rest ih =>
      obtain ⟨alike, front⟩ := front
      refine ⟨alike, ?_⟩
      cases failed : operation.fault with
      | none =>
          rw [failed] at front
          exact ih front
      | some cause =>
          rw [failed] at front
          obtain ⟨-, -, -, found, none, -⟩ := front
          cases none

/-- Where the run ends and what its fault is may be told otherwise. -/
theorem finish (leads : Leads first operations between fault) (alike : between.Alike last)
    {fault' : Option Fault}
    (ends
      : ∀ cause found,
          fault = some found
          → BecomesFault cause found
          → ∃ found', fault' = some found' ∧ BecomesFault cause found')
    (succeeds : fault = none → fault' = none)
    : Leads first operations last fault' := by
  induction operations generalizing first with
  | nil => exact ⟨leads.1.trans alike, succeeds leads.2⟩
  | cons operation rest ih =>
      obtain ⟨same, leads⟩ := leads
      refine ⟨same, ?_⟩
      cases failed : operation.fault with
      | none =>
          rw [failed] at leads
          exact ih leads
      | some cause =>
          rw [failed] at leads
          obtain ⟨none, unchanged, before, found, isFault, becomes⟩ := leads
          exact ⟨none, unchanged, before.trans alike, ends cause found isFault becomes⟩

/-- A run that fails keeps what was done before its last operation. -/
theorem stopped {found : Fault} (leads : Leads first operations last (some found))
    : ∃ made failing cause,
        operations = made ++ [failing]
        ∧ (∀ operation ∈ made, operation.fault = none)
        ∧ Follow first made failing.before
        ∧ failing.fault = some cause
        ∧ BecomesFault cause found
        ∧ failing.after = failing.before
        ∧ failing.before.Alike last := by
  induction operations generalizing first with
  | nil => cases leads.2
  | cons operation rest ih =>
      obtain ⟨alike, leads⟩ := leads
      cases failed : operation.fault with
      | none =>
          rw [failed] at leads
          obtain ⟨made, failing, cause, rfl, succeeded, follow, others⟩ := ih leads
          refine ⟨operation :: made, failing, cause, rfl, ?_, ⟨alike, follow⟩, others⟩
          exact List.forall_mem_cons.2 ⟨failed, succeeded⟩
      | some cause =>
          rw [failed] at leads
          obtain ⟨rfl, unchanged, ended, other, same, becomes⟩ := leads
          obtain rfl := Option.some.inj same
          exact ⟨[], operation, cause, rfl, fun _ none => (nomatch none), alike, failed, becomes,
            unchanged, ended⟩

end Leads

-----
-- Moments

namespace Moment

variable (rounds : Nat) (moment : Moment)

/-- However it ends, a moment leaves the machine in the scope it was in. -/
theorem after_current : (moment.after rounds).current = moment.machine.current :=
  (moment.inside_whole.outcome rounds).spares.current

/-- Scopes are never taken away. -/
theorem size_le_after : moment.machine.scopes.size ≤ (moment.after rounds).scopes.size :=
  (moment.inside_whole.outcome rounds).spares.moreScopes

def fault? : Option Fault :=
  failure? (moment.task.run (Evaluator.ofNesting rounds moment.nesting)) moment.machine

/-- The operations of the moment are all that happens to the machine. -/
def Led : Prop :=
  Leads moment.machine (moment.operations rounds) (moment.after rounds) (moment.fault? rounds)

end Moment

def Piece.operations (rounds : Nat) : Piece → List Operation
  | .own operation => [operation]
  | .part inner => inner.operations rounds

/-- The operations of a moment are those of its pieces, in a row. -/
theorem Moment.operations_eq (rounds : Nat) (moment : Moment)
    : moment.operations rounds = (moment.pieces rounds).flatMap (Piece.operations rounds) := by
  have all := List.flatMap_map Subtype.val (Piece.operations rounds) (moment.pieces rounds).attach
  rw [List.attach_map_subtype_val] at all
  rw [Moment.operations, all]
  refine congrArg (List.flatMap · _) (funext fun piece => ?_)
  obtain ⟨piece, listed⟩ := piece
  cases piece <;> rfl

/-- The operations of a regular script lead from its start to its end if those of all that it asks
for do. -/
theorem Script.Regular.leads {rounds nesting : Nat} {allowed : Task → Prop} {α : Type}
    {script : Script α} {action : Run α} (regular : script.Regular AllOrNothing allowed)
    (runs : script.run (Evaluator.ofNesting rounds nesting) = action)
    (parts
      : ∀ task machine,
          allowed task
          → machine.current < machine.scopes.size
          → Moment.Led rounds { nesting, task, machine })
    {machine : Machine} (here : machine.current < machine.scopes.size)
    : Leads machine ((script.pieces rounds nesting machine).flatMap (Piece.operations rounds))
        (leaves action machine) (failure? action machine) := by
  subst runs
  induction script generalizing machine with
  | done value => exact .empty machine
  | act action next ih =>
      obtain ⟨whole, regular⟩ := regular
      unfold Script.pieces Script.run
      rcases whole machine here with ⟨value, after, run, widens⟩ | ⟨fault, run⟩
      · have there : after.current < after.scopes.size :=
          widens.current.symm ▸ Nat.lt_of_lt_of_le here widens.size
        rw [leaves_bind_ok run, failure?_bind_ok run, run]
        exact (ih value (regular value) there).succeed
      · rw [leaves_bind_error run, failure?_bind_error run, run]
        exact .fail machine fault
  | ask task next ih =>
      obtain ⟨asked, regular⟩ := regular
      let part : Moment := { nesting, task, machine }
      have led : Leads machine (part.operations rounds) (part.after rounds) (part.fault? rounds) :=
        parts task machine asked here
      unfold Script.pieces Script.run
      rw [List.flatMap_cons]
      cases run : task.run (Evaluator.ofNesting rounds nesting) machine with
      | ok answer after =>
          have ended : part.after rounds = after := leaves_ok run
          have succeeded : part.fault? rounds = none := failure?_ok run
          have there : after.current < after.scopes.size := by
            rw [← ended, part.after_current]
            exact Nat.lt_of_lt_of_le here (part.size_le_after rounds)
          rw [ended, succeeded] at led
          rw [leaves_bind_ok run, failure?_bind_ok run]
          exact led.append (ih answer (regular answer) there)
      | error fault after =>
          have ended : part.after rounds = after := leaves_error run
          have failed : part.fault? rounds = some fault := failure?_error run
          rw [ended, failed] at led
          rw [leaves_bind_error run, failure?_bind_error run, List.flatMap_nil, List.append_nil]
          exact led

/-- The operations of a moment lead from its start to its end if those of all smaller ones do. -/
theorem Moment.led_of_smaller {rounds : Nat} {moment : Moment}
    (smaller
      : ∀ part : Moment,
          part.Smaller moment
          → part.machine.current < part.machine.scopes.size
          → part.Led rounds)
    (here : moment.machine.current < moment.machine.scopes.size)
    : moment.Led rounds := by
  have acts := acts_allOrNothing
  obtain ⟨nesting, task, machine⟩ := moment
  unfold Led
  rw [operations_eq]
  have level (task' : Task) (machine' : Machine) (below : task'.Below task)
      : machine'.current < machine'.scopes.size
        → Moment.Led rounds { nesting, task := task', machine := machine' } :=
    smaller { nesting, task := task', machine := machine' } (below.smaller nesting)
  cases task with
  | evaluate expr =>
      cases nesting with
      | zero => exact .fail machine .tooDeep
      | succ nesting =>
          refine (regular_evaluate acts expr).leads (run_evaluateScript _ expr) ?_ here
          exact fun task' machine' _ =>
            smaller { nesting, task := task', machine := machine' } (.nested nesting)
  | execute stmt =>
      cases nesting with
      | zero => exact .fail machine .tooDeep
      | succ nesting =>
          refine (regular_execute acts rounds stmt).leads (run_executeScript _ rounds stmt) ?_ here
          exact fun task' machine' _ =>
            smaller { nesting, task := task', machine := machine' } (.nested nesting)
  | evaluateAll exprs =>
      exact (regular_evaluateAll AllOrNothing exprs).leads (run_evaluateAllScript _ exprs) level
        here
  | executeAll stmts =>
      exact (regular_executeAll AllOrNothing stmts).leads (run_executeAllScript _ stmts) level here
  | repeatWhile condition body left =>
      exact (regular_repeatWhile acts condition body left).leads
        (run_repeatWhileScript _ condition body left) level here
  | enter parent bindings stmts =>
      have inside : machine.scopes.size < (machine.entered parent bindings).scopes.size := by
        simp [Machine.entered, Forest.size]
      have led := level (.executeAll stmts) (machine.entered parent bindings)
        (.of_rank (Nat.lt_succ_self 1)) inside
      have finished := led.finish (Machine.Alike.moved _ machine.current)
        (fun cause found failed becomes => ⟨found, failed, becomes⟩) id
      have opened := openScope_run machine parent bindings
      unfold after fault? Task.run
      rw [leaves_bind_ok opened, failure?_bind_ok opened, leaves_within, failure?_within]
      simp only [pieces, List.flatMap_cons, List.flatMap_nil, Piece.operations, List.append_nil]
      exact .succeed (.start (.moved _ machine.scopes.size) finished)
  | call callee arguments paren =>
      exact (regular_call acts callee arguments paren).leads
        (run_callScript _ callee arguments paren) level here
  | limited paren callee arguments =>
      have led := level (.apply callee arguments) machine (.of_rank (Nat.lt_succ_self 4)) here
      unfold after fault? Task.run
      rw [leaves_limitNesting]
      simp only [pieces, List.flatMap_cons, List.flatMap_nil, Piece.operations, List.append_nil]
      exact led.finish (.refl _) (fun _ _ => limitNesting_fails paren) (limitNesting_succeeds paren)
  | apply callee arguments =>
      exact (regular_apply acts callee arguments).leads (run_applyScript _ callee arguments) level
        here
  | invoke closure arguments =>
      exact (regular_invoke acts closure arguments).leads (run_invokeScript _ closure arguments)
        level here
  | program stmts =>
      exact (regular_program AllOrNothing stmts).leads (run_programScript _ stmts) level here

/-- The operations of a moment lead from its start to its end. -/
theorem Moment.led (rounds : Nat) (moment : Moment)
    (here : moment.machine.current < moment.machine.scopes.size)
    : moment.Led rounds :=
  led_of_smaller (fun part _ there => part.led rounds there) here
termination_by (moment.nesting, moment.task.rank, moment.task.length)
decreasing_by exact ‹part.Smaller moment›

/-- What is to be told about a program is told by the moment at its start. -/
theorem Moment.report_start (limits : Limits) (program : Program) (machine : Machine)
    : let begun := start limits program.statements machine
      (machine.runProgram limits program).1
        = {
            diagnostics := program.diagnostics,
            output := (begun.after limits.rounds).output,
            fault := begun.fault? limits.rounds
          } := by
  intro begun
  let action :=
    (Evaluator.ofNesting limits.rounds limits.nesting).executeProgram program.statements
  cases ran : action { machine with output := "" } with
  | ok _ after =>
      have left : begun.after limits.rounds = after := leaves_ok ran
      have none : begun.fault? limits.rounds = none := failure?_ok ran
      rw [Machine.runProgram_ok ran, left, none]
  | error fault after =>
      have left : begun.after limits.rounds = after := leaves_error ran
      have failed : begun.fault? limits.rounds = some fault := failure?_error ran
      rw [Machine.runProgram_error ran, left, failed]

end Running

open Running (Moment Follow BecomesFault)

-----
-- Steps of a session

/-- The machine is outside of all scopes but the global one. -/
structure Machine.Settled (machine : Machine) : Prop where
  current : machine.current = globalScope
  global : globalScope < machine.scopes.size

/-- The machine starts between two steps. -/
theorem Machine.start_settled (traceLevel : Nat) (readings : Nat → Float)
    : (start traceLevel readings).Settled :=
  ⟨rfl, Nat.zero_lt_one⟩

/-- What a step of a session comes to that runs a program on the machine. -/
structure StepIntegrity (limits : Limits) (program : Program) (machine : Machine)
    (report : Report) (after : Machine) : Prop where
  /-- However the step ends, the machine is back in the global scope. -/
  current : after.current = globalScope
  /-- A text with errors changes nothing, and nothing but its diagnostics is printed. -/
  rejected
    : report.exitCode = 65
      → after = machine
        ∧ report.outText = Report.lines (report.warnings.map Diagnostic.text)
        ∧ report.errorText = Report.lines (report.errors.map Diagnostic.text)
  /-- A run that stops has done all that it did before the operation that failed, in order, and
  nothing else. -/
  stopped
    : report.exitCode = 70
      → ∃ made failing cause fault,
          (Moment.start limits program.statements machine).operations limits.rounds
            = made ++ [failing]
          ∧ (∀ operation ∈ made, operation.fault = none)
          ∧ Follow { machine with output := "" } made failing.before
          ∧ failing.fault = some cause
          ∧ failing.after = failing.before
          ∧ report.fault = some fault
          ∧ BecomesFault cause fault
          ∧ after = { failing.before with current := globalScope }
          ∧ report.output = failing.before.output

section

variable {machine : Machine} (limits : Limits)

/-- An accepted program leaves the machine between two steps, with its integrity kept. -/
theorem Machine.Settled.runProgram (settled : machine.Settled) (program : Program)
    (accepted : program.accepted = true)
    : (machine.runProgram limits program).2.Settled
      ∧ StepIntegrity limits program machine (machine.runProgram limits program).1
          (machine.runProgram limits program).2 := by
  let begun := Moment.start limits program.statements machine
  have ended : (machine.runProgram limits program).2 = begun.after limits.rounds :=
    (Moment.after_start limits program machine).symm
  rw [Moment.report_start, ended]
  have current : (begun.after limits.rounds).current = globalScope :=
    (begun.after_current limits.rounds).trans settled.current
  have here : begun.machine.current < begun.machine.scopes.size :=
    settled.current.symm ▸ settled.global
  have larger := begun.size_le_after limits.rounds
  refine ⟨⟨current, Nat.lt_of_lt_of_le settled.global larger⟩, current, fun code => ?_,
    fun code => ?_⟩
  · exact absurd (List.isEmpty_iff.1 accepted) (Report.exitCode_rejected.1 code)
  · obtain ⟨fault, failed⟩ := Option.isSome_iff_exists.1 (Report.exitCode_stopped.1 code).2
    have led := begun.led limits.rounds here
    unfold Moment.Led at led
    rw [show begun.fault? limits.rounds = some fault from failed] at led
    obtain ⟨made, failing, cause, operations, succeeded, follow, fails, becomes, unchanged, last⟩ :=
      led.stopped
    have same : begun.after limits.rounds = { failing.before with current := globalScope } :=
      (last.symm.trans (.moved _ _)).eq_of_current current
    have output : (begun.after limits.rounds).output = failing.before.output := by rw [same]
    exact ⟨made, failing, cause, fault, operations, succeeded, follow, fails, unchanged, failed,
      becomes, same, output⟩

/-- A source that was run leaves the machine between two steps, accepted or not. -/
theorem Machine.Settled.runSource (settled : machine.Settled) (allowExpression : Bool)
    (source : String)
    : (machine.runSource limits allowExpression source).2.Settled
      ∧ StepIntegrity limits (.ofSource allowExpression machine.globalNames source limits.depth)
          machine
          (machine.runSource limits allowExpression source).1
          (machine.runSource limits allowExpression source).2 := by
  let program := Program.ofSource allowExpression machine.globalNames source limits.depth
  cases accepted : program.accepted with
  | true =>
      rw [runSource_accepted accepted]
      exact settled.runProgram limits _ accepted
  | false =>
      rw [runSource_rejected accepted]
      refine ⟨settled, settled.current, fun _ => ⟨rfl, String.append_empty, ?_⟩, fun code => ?_⟩
      · unfold Report.errorText
        rw [Option.toList_none, List.map_nil, List.append_nil]
      · cases (Report.exitCode_stopped.1 code).2

/-- A session leaves the machine between two steps, by induction on its steps. -/
theorem Machine.Settled.runSession (settled : machine.Settled) (steps : List (Bool × String))
    : (machine.runSession limits steps).2.Settled := by
  induction steps generalizing machine with
  | nil => exact settled
  | cons step rest ih => exact ih (settled.runSource limits step.1 step.2).1

end

/-- Whatever is run on a machine, it ends in the scope that it started in. So every step of a
session ends in the global scope, one with errors changes nothing else either, and one that stops
keeps all that was done before the operation that failed. -/
theorem session_integrity (limits : Limits) (traceLevel : Nat) (readings : Nat → Float)
    (steps : List (Bool × String))
    : let machine := ((Machine.start traceLevel readings).runSession limits steps).2
      (∀ rounds (moment : Moment), (moment.after rounds).current = moment.machine.current)
      ∧ ∀ allowExpression source,
          StepIntegrity limits (.ofSource allowExpression machine.globalNames source limits.depth)
            machine
            (machine.runSource limits allowExpression source).1
            (machine.runSource limits allowExpression source).2 := by
  intro machine
  refine ⟨fun rounds moment => moment.after_current rounds, fun allowExpression source => ?_⟩
  have settled := (Machine.start_settled traceLevel readings).runSession limits steps
  exact (settled.runSource limits allowExpression source).2

/-- The first step stops inside of a block, after one assignment and before another. -/
example
    : let steps :=
        [(false, "var a = true; \x7b a = false; print a; none(); a = nil; \x7d"), (true, "a")]
      let limits : Limits := { nesting := 20, rounds := 1 }
      let reports := ((Machine.start 0 fun _ => 0).runSession limits steps).1
      reports.map Report.exitCode = [70, 0]
      ∧ reports.map Report.output = ["false", "false\n"] := by
  decide +kernel

end Lox
