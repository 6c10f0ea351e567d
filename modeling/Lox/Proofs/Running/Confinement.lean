import Lox.Proofs.Running.Actions
import Lox.Proofs.Running.Moments

/-! Whole runs stay inside of a region.

A script is safe if all that it does by itself stays inside, and all that it asks for is given
nothing but what lies inside. Levels of nesting are put on one another.
-/

namespace Lox

open Running (Region)

def Completion.In (region : Region) : Completion → Prop
  | .normal | .broke => True
  | .returned value => value.In region

namespace Running

-----
-- Tasks inside of a region

/-- Everything that the task starts with lies in the region. Calls do not depend on the scope that
they are made in. -/
def Task.Inside (region : Region) (current : Nat) : Task → Prop
  | .evaluate expr => region.scope current ∧ expr.Every region.function
  | .evaluateAll exprs => region.scope current ∧ EveryExprs region.function exprs
  | .execute stmt => region.scope current ∧ stmt.Every region.function
  | .executeAll stmts => region.scope current ∧ EveryStmts region.function stmts
  | .program stmts =>
      region.scope current
      ∧ EveryStmts region.function stmts
      ∧ ∀ stmt ∈ stmts, region.outermost stmt
  | .repeatWhile condition body _ =>
      region.scope current ∧ condition.Every region.function ∧ body.Every region.function
  | .enter parent bindings stmts =>
      region.scope parent
      ∧ (∀ binding ∈ bindings, binding.2.In region)
      ∧ EveryStmts region.function stmts
  | .call callee arguments _ => callee.In region ∧ ∀ value ∈ arguments, value.In region
  | .limited _ callee arguments | .apply callee arguments =>
      callee.In region ∧ ∀ value ∈ arguments, value.In region
  | .invoke closure arguments => closure.In region ∧ ∀ value ∈ arguments, value.In region

/-- What the task hands back lies in the region. -/
def Task.Good (region : Region) : (task : Task) → task.Answer → Prop
  | .evaluate _, value | .call .., value | .limited .., value | .apply .., value
  | .invoke .., value => value.In region
  | .evaluateAll _, values => ∀ value ∈ values, value.In region
  | .execute _, completion | .executeAll _, completion | .repeatWhile .., completion
  | .enter .., completion => completion.In region
  | .program _, _ => True

def Moment.Inside (region : Region) (moment : Moment) : Prop :=
  region.Closed moment.machine.scopes moment.machine.objects
  ∧ moment.task.Inside region moment.machine.current

/-- The task is given what lies inside, and then stays inside. -/
def Region.Admits (region : Region) (evaluator : Evaluator) (current : Nat) (task : Task)
    : Prop :=
  task.Inside region current
  ∧ region.Confines current (task.run evaluator) (task.Good region)

-----
-- Parts one behind another

/-- What an action leaves is spared if its end spares it. -/
theorem Region.SparesEnd.spares {region : Region} {α : Type} {action : Run α} {post : α → Prop}
    {before : Machine} (ends : region.SparesEnd before post (action before))
    : region.Spares before (leaves action before) := by
  unfold leaves
  cases run : action before with
  | ok value after =>
      rw [run] at ends
      exact ends.1
  | error fault after =>
      rw [run] at ends
      exact ends

/-- The moments lie inside, between two sizes of the machine, one behind another. -/
structure Parts (region : Region) (rounds first last : Nat) (parts : List Moment) : Prop where
  inside : ∀ part ∈ parts, part.Inside region
  starts : ∀ part ∈ parts, first ≤ part.machine.scopes.size
  ends : ∀ part ∈ parts, (part.after rounds).scopes.size ≤ last
  apart
    : parts.Pairwise fun earlier later =>
        (earlier.after rounds).scopes.size ≤ later.machine.scopes.size

namespace Parts

variable {region : Region} {rounds first last : Nat}

/-- No parts fit between any two sizes of the forest. -/
theorem nil : Parts region rounds first last [] :=
  ⟨fun _ => (nomatch ·), fun _ => (nomatch ·), fun _ => (nomatch ·), .nil⟩

/-- A part fits in front of others if it ends where they start. -/
theorem cons {part : Moment} {parts : List Moment} (inside : part.Inside region)
    (starts : first ≤ part.machine.scopes.size) (ends : (part.after rounds).scopes.size ≤ last)
    (later : Parts region rounds (part.after rounds).scopes.size last parts)
    (grows : first ≤ (part.after rounds).scopes.size)
    : Parts region rounds first last (part :: parts) where
  inside := List.forall_mem_cons.2 ⟨inside, later.inside⟩
  starts :=
    List.forall_mem_cons.2 ⟨starts, fun other listed => Nat.le_trans grows (later.starts other listed)⟩
  ends := List.forall_mem_cons.2 ⟨ends, later.ends⟩
  apart := .cons later.starts later.apart

/-- Parts still fit if the forest was smaller before them. -/
theorem earlier {first' : Nat} {parts : List Moment} (grows : first' ≤ first)
    (spaced : Parts region rounds first last parts)
    : Parts region rounds first' last parts :=
  { spaced with starts := fun part listed => Nat.le_trans grows (spaced.starts part listed) }

end Parts

-----
-- Safe scripts

/-- Whatever the script does or asks for stays inside, and what it ends with is as told. -/
def Script.Safe (region : Region) (evaluator : Evaluator) (current : Nat) {α : Type}
    (post : α → Prop)
    : Script α → Prop
  | .done value => post value
  | .act action next =>
      ∃ between,
        region.Confines current action between
        ∧ ∀ value, between value → (next value).Safe region evaluator current post
  | .ask task next =>
      region.Admits evaluator current task
      ∧ ∀ answer,
          task.Good region answer → (next answer).Safe region evaluator current post

namespace Script.Safe

variable {region : Region} {evaluator : Evaluator} {current : Nat} {α β : Type}
  {post : α → Prop}

/-- A value alone is safe. -/
theorem done {value : α} (holds : post value)
    : Script.Safe region evaluator current post (pure value) :=
  holds

/-- An action that stays in the region is safe. -/
theorem does {action : Run α} (confines : region.Confines current action post)
    : (Script.does action).Safe region evaluator current post :=
  ⟨post, confines, fun _ holds => holds⟩

/-- A task that is admitted is safe to ask for. -/
theorem asks {task : Task} {post : task.Answer → Prop}
    (admits : region.Admits evaluator current task)
    (good : ∀ answer, task.Good region answer → post answer)
    : (Script.asks task).Safe region evaluator current post :=
  ⟨admits, good⟩

/-- An action in front of a script is safe if what follows is, for every value it may yield. -/
theorem doesThen {action : Run β} {between : β → Prop} {next : β → Script α}
    (confines : region.Confines current action between)
    (rest : ∀ value, between value → (next value).Safe region evaluator current post)
    : (Script.does action >>= next).Safe region evaluator current post :=
  ⟨between, confines, rest⟩

/-- A task in front of a script is safe if what follows is, for every good answer. -/
theorem asksThen {task : Task} {next : task.Answer → Script α}
    (admits : region.Admits evaluator current task)
    (rest
      : ∀ answer, task.Good region answer → (next answer).Safe region evaluator current post)
    : (Script.asks task >>= next).Safe region evaluator current post :=
  ⟨admits, rest⟩

/-- A safe script stays in the region. -/
theorem confines {script : Script α} (safe : script.Safe region evaluator current post)
    : region.Confines current (script.run evaluator) post := by
  induction script with
  | done value => exact .pure safe
  | act action next ih =>
      obtain ⟨between, confines, rest⟩ := safe
      exact confines.bind fun value holds => ih value (rest value holds)
  | ask task next ih =>
      obtain ⟨admits, rest⟩ := safe
      exact admits.2.bind fun answer good => ih answer (rest answer good)

/-- Two safe scripts in a row are safe. -/
theorem bind {script : Script β} {between : β → Prop} {next : β → Script α}
    (front : script.Safe region evaluator current between)
    (rest : ∀ value, between value → (next value).Safe region evaluator current post)
    : (script >>= next).Safe region evaluator current post := by
  change (script.bind next).Safe region evaluator current post
  induction script with
  | done value => exact rest value front
  | act action beyond ih =>
      obtain ⟨held, confines, safe⟩ := front
      exact ⟨held, confines, fun value holds => ih value (safe value holds)⟩
  | ask task beyond ih =>
      obtain ⟨admits, safe⟩ := front
      exact ⟨admits, fun answer good => ih answer (safe answer good)⟩

/-- A task whose script is safe stays inside. -/
theorem admits {task : Task} {script : Script task.Answer}
    (safe : script.Safe region evaluator current (task.Good region))
    (runs : script.run evaluator = task.run evaluator) (inside : task.Inside region current)
    : region.Admits evaluator current task :=
  ⟨inside, runs ▸ safe.confines⟩

/-- The moments that a safe script comes to lie inside, each behind the end of the one before. -/
theorem parts {rounds nesting : Nat} {script : Script α}
    (safe : script.Safe region (Evaluator.ofNesting rounds nesting) current post)
    {machine : Machine} (here : machine.current = current)
    (closed : region.Closed machine.scopes machine.objects)
    : Parts region rounds machine.scopes.size
        (leaves (script.run (Evaluator.ofNesting rounds nesting)) machine).scopes.size
        (script.parts rounds nesting machine) := by
  induction script generalizing machine with
  | done value => exact .nil
  | act action next ih =>
      obtain ⟨between, confines, rest⟩ := safe
      have ends := confines machine here closed
      unfold Script.parts Script.run
      cases run : action machine with
      | error fault after => exact .nil
      | ok value after =>
          rw [run] at ends
          rw [leaves_bind_ok run]
          have later := ih value (rest value ends.2) (ends.1.current.trans here) ends.1.closed
          exact later.earlier ends.1.moreScopes
  | ask task next ih =>
      obtain ⟨⟨inside, confines⟩, rest⟩ := safe
      have ends := confines machine here closed
      have grows := ends.spares.moreScopes
      have within : Moment.Inside region { nesting, task, machine } := ⟨closed, here ▸ inside⟩
      unfold Script.parts Script.run
      cases run : task.run (Evaluator.ofNesting rounds nesting) machine with
      | error fault after =>
          have ended : Moment.after rounds { nesting, task, machine } = after := leaves_error run
          rw [leaves_bind_error run]
          refine .cons within (Nat.le_refl _) (Nat.le_of_eq ?_) .nil grows
          rw [ended]
      | ok answer after =>
          have ended : Moment.after rounds { nesting, task, machine } = after := leaves_ok run
          rw [run] at ends
          have safe := rest answer ends.2
          have there := ends.1.current.trans here
          have later := ih answer safe there ends.1.closed
          have more := (safe.confines after there ends.1.closed).spares.moreScopes
          rw [leaves_bind_ok run]
          refine .cons within (Nat.le_refl _) ?_ ?_ grows
          · rw [ended]
            exact more
          · rw [ended]
            exact later

end Script.Safe

-----
-- Tasks of one level

/-- The evaluator stays inside wherever it is given what lies inside. -/
structure Region.Holds (region : Region) (evaluator : Evaluator) : Prop where
  evaluate
    : ∀ current expr,
        (Task.evaluate expr).Inside region current
        → region.Confines current (evaluator.evaluate expr) (·.In region)
  execute
    : ∀ current stmt,
        (Task.execute stmt).Inside region current
        → region.Confines current (evaluator.execute stmt) (·.In region)

namespace Region.Holds

variable {region : Region} {evaluator : Evaluator} {current : Nat}

/-- Evaluating an expression of the region is admitted. -/
theorem admitsEvaluate (holds : region.Holds evaluator) (inside : region.scope current)
    {expr : BoundExpr} (allowed : expr.Every region.function)
    : region.Admits evaluator current (.evaluate expr) :=
  ⟨⟨inside, allowed⟩, holds.evaluate current expr ⟨inside, allowed⟩⟩

/-- Executing a statement of the region is admitted. -/
theorem admitsExecute (holds : region.Holds evaluator) (inside : region.scope current)
    {stmt : BoundStmt} (allowed : stmt.Every region.function)
    : region.Admits evaluator current (.execute stmt) :=
  ⟨⟨inside, allowed⟩, holds.execute current stmt ⟨inside, allowed⟩⟩

/-- Evaluating expressions in a row is safe, by induction on them. -/
theorem safeEvaluateAll (holds : region.Holds evaluator) (inside : region.scope current)
    {exprs : List BoundExpr} (allowed : EveryExprs region.function exprs)
    : (evaluateAllScript exprs).Safe region evaluator current (∀ value ∈ ·, value.In region) := by
  induction exprs with
  | nil => exact .done fun _ listed => nomatch listed
  | cons first rest ih =>
      have tail : region.Admits evaluator current (.evaluateAll rest) :=
        (ih allowed.2).admits (run_evaluateAllScript evaluator rest) ⟨inside, allowed.2⟩
      exact .asksThen (holds.admitsEvaluate inside allowed.1) fun value within =>
        .asksThen tail fun values others => .done (List.forall_mem_cons.2 ⟨within, others⟩)

/-- Evaluating expressions in a row is admitted. -/
theorem admitsEvaluateAll (holds : region.Holds evaluator) (inside : region.scope current)
    {exprs : List BoundExpr} (allowed : EveryExprs region.function exprs)
    : region.Admits evaluator current (.evaluateAll exprs) :=
  (holds.safeEvaluateAll inside allowed).admits (run_evaluateAllScript evaluator exprs)
    ⟨inside, allowed⟩

/-- Executing statements in a row is safe, by induction on them. -/
theorem safeExecuteAll (holds : region.Holds evaluator) (inside : region.scope current)
    {stmts : List BoundStmt} (allowed : EveryStmts region.function stmts)
    : (executeAllScript stmts).Safe region evaluator current (·.In region) := by
  induction stmts with
  | nil => exact .done trivial
  | cons first rest ih =>
      have tail : region.Admits evaluator current (.executeAll rest) :=
        (ih allowed.2).admits (run_executeAllScript evaluator rest) ⟨inside, allowed.2⟩
      refine .asksThen (holds.admitsExecute inside allowed.1) fun completion within => ?_
      cases completion with
      | normal => exact .asks tail fun _ good => good
      | broke => exact .done trivial
      | returned value => exact .done within

/-- Executing statements in a row is admitted. -/
theorem admitsExecuteAll (holds : region.Holds evaluator) (inside : region.scope current)
    {stmts : List BoundStmt} (allowed : EveryStmts region.function stmts)
    : region.Admits evaluator current (.executeAll stmts) :=
  (holds.safeExecuteAll inside allowed).admits (run_executeAllScript evaluator stmts)
    ⟨inside, allowed⟩

/-- A loop is safe, by induction on the rounds that are left. -/
theorem safeRepeatWhile (holds : region.Holds evaluator) (inside : region.scope current)
    {condition : BoundExpr} (allowed : condition.Every region.function) {body : BoundStmt}
    (allowedBody : body.Every region.function) (rounds : Nat)
    : (repeatWhileScript condition body rounds).Safe region evaluator current (·.In region) := by
  induction rounds with
  | zero => exact .does (.throw .tooManyRounds)
  | succ rounds ih =>
      have again : region.Admits evaluator current (.repeatWhile condition body rounds) :=
        ih.admits (run_repeatWhileScript evaluator condition body rounds)
          ⟨inside, allowed, allowedBody⟩
      refine .asksThen (holds.admitsEvaluate inside allowed) fun test _ => ?_
      split
      · refine .asksThen (holds.admitsExecute inside allowedBody) fun completion within => ?_
        cases completion with
        | normal => exact .asks again fun _ good => good
        | broke => exact .done trivial
        | returned value => exact .done within
      · exact .done trivial

/-- A loop is admitted. -/
theorem admitsRepeatWhile (holds : region.Holds evaluator) (inside : region.scope current)
    {condition : BoundExpr} (allowed : condition.Every region.function) {body : BoundStmt}
    (allowedBody : body.Every region.function) (rounds : Nat)
    : region.Admits evaluator current (.repeatWhile condition body rounds) :=
  (holds.safeRepeatWhile inside allowed allowedBody rounds).admits
    (run_repeatWhileScript evaluator condition body rounds) ⟨inside, allowed, allowedBody⟩

/-- A program is safe in its global scope. -/
theorem safeProgram (holds : region.Holds evaluator) {stmts : List BoundStmt}
    (inside : (Task.program stmts).Inside region current)
    : (programScript stmts).Safe region evaluator current fun _ => True := by
  induction stmts with
  | nil => exact .done trivial
  | cons first rest ih =>
      obtain ⟨inside, allowed, outermost⟩ := inside
      have others : (Task.program rest).Inside region current :=
        ⟨inside, allowed.2, fun stmt listed => outermost stmt (List.mem_cons_of_mem _ listed)⟩
      have tail : region.Admits evaluator current (.program rest) :=
        (ih others).admits (run_programScript evaluator rest) others
      exact .asksThen (holds.admitsExecute inside allowed.1) fun _ _ => .asks tail fun _ good => good

-----
-- Calls

/-- The new scope lies inside, since everything new does. -/
theorem confinesOpenScope {parent : Nat} (inside : region.scope parent)
    {bindings : List (Token × Value)} (within : ∀ binding ∈ bindings, binding.2.In region)
    : region.Confines current (openScope parent bindings) region.scope :=
  (confines_newScope inside).bind fun _ opened =>
    (confines_defineAll opened within).bind fun _ _ => .pure opened

/-- A block is admitted with the bindings of its new scope. -/
theorem admitsEnter (holds : region.Holds evaluator) {parent : Nat}
    {bindings : List (Token × Value)} {stmts : List BoundStmt}
    (inside : (Task.enter parent bindings stmts).Inside region current)
    : region.Admits evaluator current (.enter parent bindings stmts) :=
  ⟨inside, (confinesOpenScope inside.1 inside.2.1).bind fun _ opened =>
    (holds.admitsExecuteAll opened inside.2.2).2.within⟩

/-- Calling a closure of the region is safe. -/
theorem safeInvoke (holds : region.Holds evaluator) {closure : Closure} {arguments : List Value}
    (inside : (Task.invoke closure arguments).Inside region current)
    : (invokeScript closure arguments).Safe region evaluator current (·.In region) := by
  have entered
      : (Task.enter closure.scope (closure.function.parameters.zip arguments)
          closure.function.body).Inside region current :=
    ⟨inside.1.1, fun _ listed => inside.2 _ (List.of_mem_zip listed).2, inside.1.2.body⟩
  refine .asksThen (holds.admitsEnter entered) fun completion within => ?_
  split
  · exact .does (confines_receiverIn inside.1.1)
  · cases completion with
    | returned value => exact .done within
    | _ => exact .done trivial

/-- Calling a closure of the region is admitted. -/
theorem admitsInvoke (holds : region.Holds evaluator) {closure : Closure}
    {arguments : List Value} (inside : (Task.invoke closure arguments).Inside region current)
    : region.Admits evaluator current (.invoke closure arguments) :=
  (holds.safeInvoke inside).admits (run_invokeScript evaluator closure arguments) inside

/-- Applying a function or a class of the region is safe. -/
theorem safeApply (holds : region.Holds evaluator) {callee : Callable} {arguments : List Value}
    (inside : (Task.apply callee arguments).Inside region current)
    : (applyScript arguments callee).Safe region evaluator current (·.In region) := by
  cases callee with
  | closure function => exact .asks (holds.admitsInvoke inside) fun _ good => good
  | «class» lineage =>
      refine .doesThen (confines_newObject inside.1) fun object created => ?_
      cases found : lineage.initializer? with
      | none => exact .done created
      | some initializer =>
          have within := Lineage.In.method? inside.1 found
          refine .doesThen (confines_bindMethod within created) fun bound binds => ?_
          exact .asksThen (holds.admitsInvoke ⟨binds, inside.2⟩) fun _ _ => .done created
  | native function =>
      cases function
      exact .does confines_readClock

/-- Applying a function or a class of the region is admitted. -/
theorem admitsApply (holds : region.Holds evaluator) {callee : Callable}
    {arguments : List Value} (inside : (Task.apply callee arguments).Inside region current)
    : region.Admits evaluator current (.apply callee arguments) :=
  (holds.safeApply inside).admits (run_applyScript evaluator callee arguments) inside

/-- A change of the fault leaves everything else as it is. -/
theorem admitsLimited (holds : region.Holds evaluator) {paren : Token} {callee : Callable}
    {arguments : List Value}
    (inside : (Task.limited paren callee arguments).Inside region current)
    : region.Admits evaluator current (.limited paren callee arguments) := by
  refine ⟨inside, fun before here closed => ?_⟩
  have ends := (holds.admitsApply inside).2 before here closed
  change region.SparesEnd before _ (evaluator.apply callee arguments before) at ends
  change region.SparesEnd before _
    (Evaluator.limitNesting paren (evaluator.apply callee arguments) before)
  unfold Evaluator.limitNesting
  cases run : evaluator.apply callee arguments before with
  | ok value after =>
      rw [run] at ends
      exact ends
  | error fault after =>
      rw [run] at ends
      cases fault <;> exact ends

/-- A call of any value of the region is safe, also where it cannot be called. -/
theorem safeCall (holds : region.Holds evaluator) {callee : Value} {arguments : List Value}
    (paren : Token) (inside : (Task.call callee arguments paren).Inside region current)
    : (callScript callee arguments paren).Safe region evaluator current (·.In region) := by
  have refused problem
      : (Script.does (Run.failAt paren problem)).Safe region evaluator current
          (Value.In region) :=
    .does (confines_failAt paren problem)
  have made (callable : Callable) (within : callable.In region)
      : (if arguments.length = callable.arity then do
            Script.does (Run.tell (.call callee arguments.length paren.line))
            Script.asks (.limited paren callable arguments)
          else Script.does (Run.failAt paren (.wrongArity callable.arity arguments.length))
          : Script Value).Safe region evaluator current (Value.In region) := by
    split
    · exact .doesThen (confines_tell _) fun _ _ =>
        .asks (holds.admitsLimited ⟨within, inside.2⟩) fun _ good => good
    · exact refused _
  cases callee with
  | closure function => exact made (.closure function) inside.1
  | «class» lineage => exact made (.class lineage) inside.1
  | native function => exact made (.native function) trivial
  | _ => exact refused .notCallable

/-- A call of any value of the region is admitted. -/
theorem admitsCall (holds : region.Holds evaluator) {callee : Value} {arguments : List Value}
    {paren : Token} (inside : (Task.call callee arguments paren).Inside region current)
    : region.Admits evaluator current (.call callee arguments paren) :=
  (holds.safeCall paren inside).admits (run_callScript evaluator callee arguments paren) inside

-----
-- Expressions and statements

/-- An expression is safe, by cases on it. -/
theorem safeEvaluate (holds : region.Holds evaluator) (inside : region.scope current)
    {expr : BoundExpr} (allowed : expr.Every region.function)
    : (evaluateScript expr).Safe region evaluator current (·.In region) := by
  cases expr with
  | literal value => exact .done trivial
  | grouping inner => exact .asks (holds.admitsEvaluate inside allowed) fun _ good => good
  | unary operator operand =>
      refine .asksThen (holds.admitsEvaluate inside allowed) fun value _ => ?_
      exact .does (confines_ofExcept fun _ => applyUnary_in operator value)
  | binary left operator right =>
      refine .asksThen (holds.admitsEvaluate inside allowed.1) fun left _ => ?_
      refine .asksThen (holds.admitsEvaluate inside allowed.2) fun right within => ?_
      exact .does (confines_ofExcept fun _ => applyBinary_in operator left within)
  | logical left operator right =>
      refine .asksThen (holds.admitsEvaluate inside allowed.1) fun left within => ?_
      split
      · exact .done within
      · exact .asks (holds.admitsEvaluate inside allowed.2) fun _ good => good
  | conditional condition thenCase elseCase =>
      refine .asksThen (holds.admitsEvaluate inside allowed.1) fun condition _ => ?_
      split
      · exact .asks (holds.admitsEvaluate inside allowed.2.1) fun _ good => good
      · exact .asks (holds.admitsEvaluate inside allowed.2.2) fun _ good => good
  | «variable» target => exact .does (confines_readVariable inside target)
  | assign target value =>
      refine .asksThen (holds.admitsEvaluate inside allowed) fun value within => ?_
      exact .doesThen (confines_writeVariable inside target within) fun _ _ => .done within
  | call callee paren arguments =>
      refine .asksThen (holds.admitsEvaluate inside allowed.1) fun callee within => ?_
      refine .asksThen (holds.admitsEvaluateAll inside allowed.2) fun arguments others => ?_
      exact .asks (holds.admitsCall ⟨within, others⟩) fun _ good => good
  | get object name =>
      refine .asksThen (holds.admitsEvaluate inside allowed) fun object within => ?_
      exact .does (confines_readProperty within name)
  | set object name value =>
      refine .asksThen (holds.admitsEvaluate inside allowed.1) fun object within => ?_
      cases object with
      | object address lineage =>
          refine .asksThen (holds.admitsEvaluate inside allowed.2) fun value good => ?_
          exact .doesThen (confines_setField within.1 name.lexeme good) fun _ _ => .done good
      | _ => exact .does (confines_failAt name _)
  | this keyword => exact .does (confines_readVariable inside keyword)
  | super keyword method => exact .does (confines_readSuper inside keyword method)
  | function function =>
      refine .doesThen confines_currentScope fun scope here => ?_
      obtain rfl := here
      exact .doesThen (confines_newClosure allowed inside none false) fun _ created =>
        .done created

/-- An expression that may be missing is safe. -/
theorem safeEvaluateOptional (holds : region.Holds evaluator) (inside : region.scope current)
    {value : Option BoundExpr} (allowed : EveryOptional region.function value)
    : (evaluateOptionalScript value).Safe region evaluator current (·.In region) := by
  cases value with
  | none => exact .done trivial
  | some value => exact .asks (holds.admitsEvaluate inside allowed) fun _ good => good

/-- A statement is safe, by cases on it. -/
theorem safeExecute (holds : region.Holds evaluator) (inside : region.scope current)
    (rounds : Nat) {stmt : BoundStmt} (allowed : stmt.Every region.function)
    : (executeScript rounds stmt).Safe region evaluator current (·.In region) := by
  cases stmt with
  | expression value =>
      exact .asksThen (holds.admitsEvaluate inside allowed) fun _ _ => .done trivial
  | print value =>
      exact .asksThen (holds.admitsEvaluate inside allowed) fun value _ =>
        .doesThen (confines_print _) fun _ _ => .done trivial
  | printLine value =>
      cases value with
      | none => exact .doesThen (confines_print _) fun _ _ => .done trivial
      | some value =>
          exact .asksThen (holds.admitsEvaluate inside allowed) fun value _ =>
            .doesThen (confines_print _) fun _ _ => .done trivial
  | «variable» name initial =>
      refine (holds.safeEvaluateOptional inside allowed).bind fun value within => ?_
      refine .doesThen (confines_define inside name within) fun _ _ => ?_
      exact .doesThen (confines_tell _) fun _ _ => .done trivial
  | block statements =>
      refine .doesThen confines_currentScope fun scope here => ?_
      obtain rfl := here
      have entered : (Task.enter scope [] statements).Inside region scope :=
        ⟨inside, fun _ listed => (nomatch listed), allowed⟩
      exact .asks (holds.admitsEnter entered) fun _ good => good
  | branch condition thenBranch elseBranch =>
      obtain ⟨allowed, allowedThen, allowedElse⟩ := allowed
      refine .asksThen (holds.admitsEvaluate inside allowed) fun condition _ => ?_
      refine .doesThen (confines_tell _) fun _ _ => ?_
      split
      · exact .asks (holds.admitsExecute inside allowedThen) fun _ good => good
      · cases elseBranch with
        | none => exact .done trivial
        | some elseBranch =>
            exact .asks (holds.admitsExecute inside allowedElse) fun _ good => good
  | loop condition body =>
      exact .asks (holds.admitsRepeatWhile inside allowed.1 allowed.2 rounds) fun _ good => good
  | breakLoop keyword => exact .done trivial
  | returnValue keyword value =>
      exact (holds.safeEvaluateOptional inside allowed).bind fun _ within => .done within
  | function name function =>
      refine .doesThen confines_currentScope fun scope here => ?_
      obtain rfl := here
      refine .doesThen (confines_newClosure allowed inside _ _) fun closure created => ?_
      have within : (Value.closure closure).In region := created
      refine .doesThen (confines_define inside name within) fun _ _ => ?_
      exact .doesThen (confines_tell _) fun _ _ => .done trivial
  | «class» name superclass methods =>
      exact .doesThen (confines_declareClass inside name superclass allowed) fun _ _ =>
        .done trivial

/-- Every level of nesting stays inside, since the level below it does. -/
theorem ofNesting (rounds nesting : Nat) : region.Holds (Evaluator.ofNesting rounds nesting) := by
  induction nesting with
  | zero => exact ⟨fun _ _ _ => .throw .tooDeep, fun _ _ _ => .throw .tooDeep⟩
  | succ nesting ih =>
      constructor
      · intro current expr inside
        have confines := (ih.safeEvaluate inside.1 inside.2).confines
        rw [run_evaluateScript] at confines
        exact confines
      · intro current stmt inside
        have confines := (ih.safeExecute inside.1 rounds inside.2).confines
        rw [run_executeScript] at confines
        exact confines

end Region.Holds

-----
-- Moments

namespace Moment.Inside

variable {region : Region} {moment : Moment}

/-- A task that is given what lies inside stays inside. -/
theorem outcome (inside : moment.Inside region) (rounds : Nat)
    : region.SparesEnd moment.machine (moment.task.Good region) (moment.outcome rounds) := by
  obtain ⟨nesting, task, machine⟩ := moment
  obtain ⟨closed, inside⟩ := inside
  have holds : region.Holds _ := .ofNesting rounds nesting
  have admits : region.Admits (Evaluator.ofNesting rounds nesting) machine.current task := by
    cases task with
    | evaluate expr => exact holds.admitsEvaluate inside.1 inside.2
    | evaluateAll exprs => exact holds.admitsEvaluateAll inside.1 inside.2
    | execute stmt => exact holds.admitsExecute inside.1 inside.2
    | executeAll stmts => exact holds.admitsExecuteAll inside.1 inside.2
    | repeatWhile condition body left =>
        exact holds.admitsRepeatWhile inside.1 inside.2.1 inside.2.2 left
    | enter parent bindings stmts => exact holds.admitsEnter inside
    | call callee arguments paren => exact holds.admitsCall inside
    | limited paren callee arguments => exact holds.admitsLimited inside
    | apply callee arguments => exact holds.admitsApply inside
    | invoke closure arguments => exact holds.admitsInvoke inside
    | program stmts =>
        exact (holds.safeProgram inside).admits (run_programScript _ stmts) inside
  exact admits.2 machine rfl closed

/-- The parts of a moment inside lie inside, one behind another, between its start and end. -/
theorem parts (inside : moment.Inside region) (rounds : Nat)
    : Parts region rounds moment.machine.scopes.size (moment.after rounds).scopes.size
        (moment.parts rounds) := by
  obtain ⟨nesting, task, machine⟩ := moment
  obtain ⟨closed, inside⟩ := inside
  have holds : region.Holds _ := .ofNesting rounds nesting
  cases task with
  | evaluate expr =>
      cases nesting with
      | zero => exact .nil
      | succ nesting =>
          have holds : region.Holds _ := .ofNesting rounds nesting
          have spaced := (holds.safeEvaluate inside.1 inside.2).parts rfl closed
          rw [run_evaluateScript] at spaced
          exact spaced
  | evaluateAll exprs =>
      have spaced := (holds.safeEvaluateAll inside.1 inside.2).parts rfl closed
      rw [run_evaluateAllScript] at spaced
      exact spaced
  | execute stmt =>
      cases nesting with
      | zero => exact .nil
      | succ nesting =>
          have holds : region.Holds _ := .ofNesting rounds nesting
          have spaced := (holds.safeExecute inside.1 rounds inside.2).parts rfl closed
          rw [run_executeScript] at spaced
          exact spaced
  | executeAll stmts =>
      have spaced := (holds.safeExecuteAll inside.1 inside.2).parts rfl closed
      rw [run_executeAllScript] at spaced
      exact spaced
  | repeatWhile condition body left =>
      have spaced := (holds.safeRepeatWhile inside.1 inside.2.1 inside.2.2 left).parts rfl closed
      rw [run_repeatWhileScript] at spaced
      exact spaced
  | enter parent bindings stmts =>
      have ends := Region.Holds.confinesOpenScope inside.1 inside.2.1 machine rfl closed
      have left
          : Moment.after rounds { nesting, task := .enter parent bindings stmts, machine }
              = leaves (openScope parent bindings >>= fun scope =>
                  Run.within scope ((Evaluator.ofNesting rounds nesting).executeAll stmts))
                machine :=
        rfl
      rw [left]
      unfold Moment.parts
      simp only
      cases run : openScope parent bindings machine with
      | error fault after => exact .nil
      | ok scope opened =>
          rw [run] at ends
          rw [leaves_bind_ok run, leaves_within]
          have entered
              : Moment.Inside region
                  {
                    nesting,
                    task := .executeAll stmts,
                    machine := { opened with current := scope }
                  } :=
            ⟨ends.1.closed, ends.2, inside.2.2⟩
          have more := (entered.outcome rounds).spares.moreScopes
          exact .cons entered ends.1.moreScopes (Nat.le_refl _) .nil
            (Nat.le_trans ends.1.moreScopes more)
  | call callee arguments paren =>
      have spaced := (holds.safeCall paren inside).parts rfl closed
      rw [run_callScript] at spaced
      exact spaced
  | limited paren callee arguments =>
      have left
          : Moment.after rounds { nesting, task := .limited paren callee arguments, machine }
              = Moment.after rounds { nesting, task := .apply callee arguments, machine } :=
        leaves_limitNesting paren _ machine
      have applied
          : Moment.Inside region { nesting, task := .apply callee arguments, machine } :=
        ⟨closed, inside⟩
      rw [left]
      exact .cons applied (Nat.le_refl _) (Nat.le_refl _) .nil
        (applied.outcome rounds).spares.moreScopes
  | apply callee arguments =>
      have spaced := (holds.safeApply inside).parts rfl closed
      rw [run_applyScript] at spaced
      exact spaced
  | invoke closure arguments =>
      have spaced := (holds.safeInvoke inside).parts rfl closed
      rw [run_invokeScript] at spaced
      exact spaced
  | program stmts =>
      have spaced := (holds.safeProgram inside).parts rfl closed
      rw [run_programScript] at spaced
      exact spaced

/-- A moment that a path leads to lies inside, between the start and the end. -/
theorem at? (inside : moment.Inside region) {rounds : Nat} {inner : Moment} {path : List Nat}
    (found : moment.at? rounds path = some inner)
    : inner.Inside region
      ∧ moment.machine.scopes.size ≤ inner.machine.scopes.size
      ∧ (inner.after rounds).scopes.size ≤ (moment.after rounds).scopes.size := by
  induction path generalizing moment with
  | nil =>
      obtain rfl := Option.some.inj found
      exact ⟨inside, Nat.le_refl _, Nat.le_refl _⟩
  | cons index path ih =>
      obtain ⟨part, there, beyond⟩ := Option.bind_eq_some_iff.1 found
      have listed := List.mem_of_getElem? there
      have spaced := inside.parts rounds
      obtain ⟨within, starts, ends⟩ := ih (spaced.inside part listed) beyond
      exact ⟨within, Nat.le_trans (spaced.starts part listed) starts,
        Nat.le_trans ends (spaced.ends part listed)⟩

end Moment.Inside

end Running

end Lox
