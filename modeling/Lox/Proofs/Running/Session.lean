import Lox.Proofs.Running.Signals

/-! Control flow in sessions: what accepted programs do with `break` and `return`. -/

namespace Lox

open Running (Region Moment)

-----
-- Machines after a session

/-- Everything, as long as functions break out of nothing and return from nothing but themselves,
and the program does neither. -/
def Running.disciplined : Region :=
  .whole Lambda.Disciplined (Stmt.Keeps false false)

/-- All functions on the machine are disciplined. -/
def Machine.Disciplined (machine : Machine) : Prop :=
  Running.disciplined.Closed machine.scopes machine.objects

namespace Machine

/-- The machine starts without any function. -/
theorem start_disciplined (traceLevel : Nat) (readings : Nat → Float)
    : (start traceLevel readings).Disciplined where
  global := trivial
  newScopes _ _ := trivial
  newAddresses _ _ := trivial
  parents _ _ _ _ := trivial
  cells scope name value _ found := by
    obtain ⟨-, rfl⟩ := start_cell? found
    trivial
  fields _ _ _ _ _ there _ := by cases there

/-- An accepted program starts with nothing but disciplined functions. -/
theorem Disciplined.start_inside {machine : Machine} (functions : machine.Disciplined)
    (limits : Limits) {allowExpression : Bool} {known : List String} {source : String}
    {depth : Nat}
    (accepted : (Program.ofSource allowExpression known source depth).accepted = true)
    : (Moment.start limits (Program.ofSource allowExpression known source depth).statements
        machine).Inside Running.disciplined := by
  obtain ⟨scanned, parsed, bound⟩ := Program.accepted_iff.1 accepted
  have proper := (Grammar.parse_proper allowExpression source depth).1
  rw [Program.ofSource_clean scanned parsed]
  generalize (parse allowExpression (scan source).tokens depth).statements = statements
    at bound proper
  obtain ⟨allowed, keeps⟩ := Binding.bindStmts_disciplined statements (.start known) proper bound
  exact ⟨functions, trivial, allowed, KeepsStmts.each keeps⟩

/-- A source leaves disciplined functions only. -/
theorem Disciplined.runSource {machine : Machine} (functions : machine.Disciplined)
    (limits : Limits) (allowExpression : Bool) (source : String)
    : (machine.runSource limits allowExpression source).2.Disciplined := by
  unfold Machine.runSource
  simp only
  split
  · next accepted =>
      rw [← Moment.after_start]
      exact ((functions.start_inside limits accepted).outcome limits.rounds).spares.closed
  · exact functions

/-- A session leaves disciplined functions only, by induction on its steps. -/
theorem Disciplined.runSession {machine : Machine} (functions : machine.Disciplined)
    (limits : Limits) (steps : List (Bool × String))
    : (machine.runSession limits steps).2.Disciplined := by
  induction steps generalizing machine with
  | nil => exact functions
  | cons step rest ih => exact ih (functions.runSource limits step.1 step.2)

end Machine

namespace Running

-----
-- Returned values

/-- The call at the outer place ends with the value, and every statement from there inwards passes
the value on. -/
def Moment.Catches (rounds : Nat) (start : Moment) (outer inner : List Nat) (value : Value)
    : Prop :=
  (∃ frame closure arguments,
    start.at? rounds outer = some frame
    ∧ frame.task = .invoke closure arguments
    ∧ frame.EndsWith rounds closure arguments value)
  ∧ ∀ front,
      front ≠ []
      → front <+: inner
      → ∃ moment,
          start.at? rounds (outer ++ front) = some moment
          ∧ moment.Completes rounds (.returned value)

variable {rounds : Nat} {start moment : Moment}

/-- In a disciplined run, statements of the program end normally. -/
theorem Moment.Inside.program_completes (inside : moment.Inside disciplined)
    {stmts : List BoundStmt} (running : moment.task = .program stmts) {part : Moment}
    (listed : part ∈ moment.parts rounds) {completion : Completion}
    (completes : part.Completes rounds completion)
    : completion = .normal := by
  obtain ⟨nesting, task, machine⟩ := moment
  obtain rfl : task = _ := running
  cases stmts with
  | nil => cases listed
  | cons first rest =>
      change part ∈ Script.parts rounds nesting (.ask (.execute first) _) machine at listed
      unfold Script.parts at listed
      obtain ⟨ending, after, run, same⟩ := completes
      rcases List.mem_cons.1 listed with rfl | later
      · obtain rfl := Option.some.inj same
        have keeps : first.Keeps false false := inside.2.2.2 first List.mem_cons_self
        have allowed := EndsStatements.ofNesting rounds nesting first false false keeps
          machine _ after run
        cases ending with
        | normal => rfl
        | broke => cases allowed
        | returned value => cases allowed
      · split at later
        · change part ∈ Script.parts rounds nesting (.ask (.program rest) .done) _ at later
          unfold Script.parts at later
          rcases List.mem_cons.1 later with rfl | none
          · cases same
          · split at none <;> cases none
        · cases later

/-- In a disciplined run, nothing breaks out of a function. -/
theorem Moment.Inside.body_completes (inside : moment.Inside disciplined) {closure : Closure}
    {arguments : List Value} (invoking : moment.task = .invoke closure arguments) {part : Moment}
    (listed : part ∈ moment.parts rounds)
    : ¬part.Completes rounds .broke := by
  rw [parts_invoke rounds invoking] at listed
  obtain rfl := List.mem_singleton.1 listed
  obtain ⟨nesting, task, machine⟩ := moment
  obtain rfl : task = _ := invoking
  rintro ⟨completion, after, run, broke⟩
  obtain rfl := Option.some.inj broke
  have keeps : closure.function.Disciplined := inside.2.1.2.allowed
  cases ensures_enter keeps machine _ after run

/-- What is returned passes through everything on the way up to a place, if no call on the way
ends with it. -/
theorem Moment.Inside.returned_from (inside : start.Inside disciplined) {path : List Nat}
    {value : Value} (reached : start.at? rounds path = some moment)
    (returns : moment.Completes rounds (.returned value))
    : (∃ outer inner, path = outer ++ inner ∧ start.Catches rounds outer inner value)
      ∨ ∀ front,
          front <+: path
          → ∃ moment,
              start.at? rounds front = some moment
              ∧ moment.Completes rounds (.returned value) := by
  induction path generalizing start with
  | nil =>
      refine .inr fun front leads => ?_
      obtain rfl := List.prefix_nil.1 leads
      exact ⟨moment, reached, returns⟩
  | cons index path ih =>
      obtain ⟨part, there, beyond⟩ := Option.bind_eq_some_iff.1 reached
      have listed := List.mem_of_getElem? there
      have further (more : List Nat)
          : start.at? rounds (index :: more) = part.at? rounds more := by
        change (start.parts rounds)[index]?.bind _ = _
        rw [there]
        rfl
      rcases ih ((inside.parts rounds).inside part listed) beyond with caught | passed
      · obtain ⟨outer, inner, rfl, ⟨frame, closure, arguments, found, ends⟩, between⟩ := caught
        refine .inl ⟨index :: outer, inner, rfl, ?_, fun front some leads => ?_⟩
        · exact ⟨frame, closure, arguments, (further outer).trans found, ends⟩
        · obtain ⟨within, found, returns⟩ := between front some leads
          exact ⟨within, (further (outer ++ front)).trans found, returns⟩
      · have passes front (some : front ≠ []) (leads : front <+: index :: path)
            : ∃ moment,
                start.at? rounds front = Option.some moment
                ∧ moment.Completes rounds (.returned value) := by
          cases front with
          | nil => exact absurd rfl some
          | cons first front =>
              obtain ⟨rfl, others⟩ := List.cons_prefix_cons.1 leads
              obtain ⟨within, found, returns⟩ := passed front others
              exact ⟨within, (further front).trans found, returns⟩
        obtain ⟨first, found, returned⟩ := passed [] List.nil_prefix
        obtain rfl := Option.some.inj found
        rcases returned_by_part listed returned with higher | ⟨closure, arguments, ends⟩ | top
        · refine .inr fun front leads => ?_
          cases front with
          | nil => exact ⟨start, rfl, higher⟩
          | cons first front => exact passes (first :: front) (List.cons_ne_nil _ _) leads
        · exact .inl ⟨[], index :: path, rfl, ⟨start, closure, arguments, rfl, ends⟩, passes⟩
        · obtain ⟨stmts, running⟩ := top
          cases inside.program_completes running listed returned

/-- Whatever is returned in a disciplined run of a program is caught by a call. -/
theorem Moment.Inside.returned (inside : start.Inside disciplined) {stmts : List BoundStmt}
    (running : start.task = .program stmts) {path : List Nat} {value : Value}
    (reached : start.at? rounds path = some moment)
    (returns : moment.Completes rounds (.returned value))
    : ∃ outer inner, path = outer ++ inner ∧ start.Catches rounds outer inner value := by
  rcases inside.returned_from reached returns with caught | passed
  · exact caught
  · obtain ⟨first, found, returned⟩ := passed [] List.nil_prefix
    obtain rfl := Option.some.inj found
    obtain ⟨nesting, task, machine⟩ := start
    obtain rfl : task = _ := running
    obtain ⟨_, _, _, none⟩ := returned
    cases none

-----
-- Accepted programs

/-- What a run of a program does with `break` and `return`. -/
structure SignalsCaught (limits : Limits) (program : Program) (machine : Machine) : Prop where
  /-- Statements of the program itself neither break nor return. -/
  outermost
    : ∀ path moment stmts part completion,
        (Moment.start limits program.statements machine).at? limits.rounds path = some moment
        → moment.task = .program stmts
        → part ∈ moment.parts limits.rounds
        → part.Completes limits.rounds completion
        → completion = .normal
  /-- Nothing breaks out of the body of a function, a method or an initializer. -/
  bodies
    : ∀ path moment closure arguments part,
        (Moment.start limits program.statements machine).at? limits.rounds path = some moment
        → moment.task = .invoke closure arguments
        → part ∈ moment.parts limits.rounds
        → ¬part.Completes limits.rounds .broke
  /-- Nothing breaks out of a `while`, or of what a `for` stands for. -/
  loops
    : ∀ path moment stmt,
        (Moment.start limits program.statements machine).at? limits.rounds path = some moment
        → moment.task = .execute stmt
        → stmt.IsLoop
        → ¬moment.Completes limits.rounds .broke
  /-- A returned value passes through all that lies around the statement, up to the innermost
  call, and the call ends with it. -/
  returned
    : ∀ path moment value,
        (Moment.start limits program.statements machine).at? limits.rounds path = some moment
        → moment.Completes limits.rounds (.returned value)
        → ∃ outer inner,
            path = outer ++ inner
            ∧ (Moment.start limits program.statements machine).Catches limits.rounds outer inner
                value

/-- On any machine that a session leads to, an accepted text runs with every `break` caught by a
loop and every `return` by a call. -/
theorem signals_caught (limits : Limits) (traceLevel : Nat) (readings : Nat → Float)
    (steps : List (Bool × String)) (allowExpression : Bool) (source : String) (depth : Nat)
    (accepted
      : (Program.ofSource allowExpression
          ((Machine.start traceLevel readings).runSession limits steps).2.globalNames
          source depth).accepted = true)
    : SignalsCaught limits
        (.ofSource allowExpression
          ((Machine.start traceLevel readings).runSession limits steps).2.globalNames source depth)
        ((Machine.start traceLevel readings).runSession limits steps).2 := by
  have functions := (Machine.start_disciplined traceLevel readings).runSession limits steps
  have inside := functions.start_inside limits accepted
  refine ⟨?_, ?_, ?_, ?_⟩
  · intro path moment stmts part completion reached running listed completes
    exact (inside.at? reached).1.program_completes running listed completes
  · intro path moment closure arguments part reached invoking listed
    exact (inside.at? reached).1.body_completes invoking listed
  · intro path moment stmt _ executing isLoop
    exact Moment.loop_completes isLoop executing
  · intro path moment value reached returns
    exact inside.returned rfl reached returns

/-- A function returns from inside of a loop, which breaks at its next call. -/
theorem signals_caught_in_loop
    : let program :=
        Program.ofSource false [Native.clock.name]
          "fun f(x) \x7b while (true) \x7b if (x) return x; break; \x7d \x7d f(true); f(false);" 30
      SignalsCaught { nesting := 30, rounds := 3 } program (.start 0 fun _ => 0) :=
  signals_caught { nesting := 30, rounds := 3 } 0 (fun _ => 0) [] false _ 30 (by decide +kernel)

end Running

end Lox
