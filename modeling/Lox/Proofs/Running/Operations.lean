import Lox.Proofs.Running.Moments
import Lox.Proofs.Running.Settling

/-! What a run does, one operation after another.

Whatever a moment does by itself is an operation, and so are the operations of its parts. In the
order in which they are made they lead from the machine at the start to the machine at the end:
each finds what the one before it left, but for the current scope. Only the last one can fail, and
that one changes nothing.
-/

namespace Lox.Running

-----
-- Operations

/-- A single action of the machine: what it found, what it left and how it failed, if it did. -/
structure Operation where
  before : Machine
  after : Machine
  fault : Option Fault

/-- What is done by itself, or a moment that is asked for. -/
inductive Piece where
  | own (operation : Operation)
  | part (moment : Moment)

/-- What a script comes to when it is run on a machine, in order. -/
def Script.pieces {α : Type} (rounds nesting : Nat) : Script α → Machine → List Piece
  | .done _, _ => []
  | .act action next, machine =>
      match action machine with
      | .ok value after =>
          .own { before := machine, after, fault := none }
            :: (next value).pieces rounds nesting after
      | .error fault after => [.own { before := machine, after, fault := some fault }]
  | .ask task next, machine =>
      .part { nesting, task, machine } ::
        match task.run (Evaluator.ofNesting rounds nesting) machine with
        | .ok answer after => (next answer).pieces rounds nesting after
        | .error _ _ => []

namespace Moment

/-- What a moment comes to. Where nothing may be nested any more, it fails at once. -/
def pieces (rounds : Nat) (moment : Moment) : List Piece :=
  match moment.task, moment.nesting with
  | .evaluate _, 0 | .execute _, 0 =>
      [.own { before := moment.machine, after := moment.machine, fault := some .tooDeep }]
  | .evaluate expr, nesting + 1 =>
      (evaluateScript expr).pieces rounds nesting moment.machine
  | .execute stmt, nesting + 1 =>
      (executeScript rounds stmt).pieces rounds nesting moment.machine
  | .evaluateAll exprs, nesting =>
      (evaluateAllScript exprs).pieces rounds nesting moment.machine
  | .executeAll stmts, nesting =>
      (executeAllScript stmts).pieces rounds nesting moment.machine
  | .repeatWhile condition body left, nesting =>
      (repeatWhileScript condition body left).pieces rounds nesting moment.machine
  | .call callee arguments paren, nesting =>
      (callScript callee arguments paren).pieces rounds nesting moment.machine
  | .apply callee arguments, nesting =>
      (applyScript arguments callee).pieces rounds nesting moment.machine
  | .invoke closure arguments, nesting =>
      (invokeScript closure arguments).pieces rounds nesting moment.machine
  | .program stmts, nesting =>
      (programScript stmts).pieces rounds nesting moment.machine
  | .limited _ callee arguments, nesting =>
      [.part { nesting, task := .apply callee arguments, machine := moment.machine }]
  | .enter parent bindings stmts, nesting =>
      let opened := moment.machine.entered parent bindings
      [.own
          {
            before := moment.machine,
            after := { opened with current := moment.machine.current },
            fault := none
          },
        .part { nesting, task := .executeAll stmts, machine := opened }]

end Moment

-----
-- Smaller moments

/-- The moment lies a level further down, or is next to be asked for on its level. -/
def Moment.Smaller (moment other : Moment) : Prop :=
  Task.Smaller moment.nesting moment.task other.nesting other.task

/-- The moments among the pieces of a regular script are allowed. -/
theorem Script.Regular.part {holds : ∀ {α : Type}, Run α → Prop} {allowed : Task → Prop}
    {α : Type} {script : Script α} (regular : script.Regular holds allowed) {rounds nesting : Nat}
    {machine : Machine} {moment : Moment}
    (listed : Piece.part moment ∈ script.pieces rounds nesting machine)
    : moment.nesting = nesting ∧ allowed moment.task := by
  induction script generalizing machine with
  | done value => cases listed
  | act action next ih =>
      unfold Script.pieces at listed
      split at listed
      · rcases List.mem_cons.1 listed with same | listed
        · cases same
        · exact ih _ (regular.2 _) listed
      · cases List.mem_singleton.1 listed
  | ask task next ih =>
      unfold Script.pieces at listed
      rcases List.mem_cons.1 listed with same | listed
      · obtain rfl := Piece.part.inj same
        exact ⟨rfl, regular.1⟩
      · split at listed
        · exact ih _ (regular.2 _) listed
        · cases listed

/-- The parts of a moment are smaller than the moment. -/
theorem Moment.smaller_of_part {rounds : Nat} {moment part : Moment}
    (listed : .part part ∈ moment.pieces rounds)
    : part.Smaller moment := by
  have acts := acts_allOrNothing
  obtain ⟨nesting, task, machine⟩ := moment
  have level (below : part.nesting = nesting ∧ part.task.Below task)
      : part.Smaller { nesting, task, machine } := by
    obtain ⟨nesting', task', machine'⟩ := part
    obtain ⟨rfl, below⟩ := below
    exact below.smaller nesting'
  cases task with
  | evaluate expr =>
      cases nesting with
      | zero => cases List.mem_singleton.1 listed
      | succ nesting =>
          obtain ⟨rfl, -⟩ := (regular_evaluate acts expr).part listed
          exact .nested part.nesting
  | execute stmt =>
      cases nesting with
      | zero => cases List.mem_singleton.1 listed
      | succ nesting =>
          obtain ⟨rfl, -⟩ := (regular_execute acts rounds stmt).part listed
          exact .nested part.nesting
  | evaluateAll exprs => exact level ((regular_evaluateAll AllOrNothing exprs).part listed)
  | executeAll stmts => exact level ((regular_executeAll AllOrNothing stmts).part listed)
  | repeatWhile condition body left =>
      exact level ((regular_repeatWhile acts condition body left).part listed)
  | enter parent bindings stmts =>
      rcases List.mem_cons.1 listed with same | listed
      · cases same
      · obtain rfl := Piece.part.inj (List.mem_singleton.1 listed)
        exact level ⟨rfl, .of_rank (Nat.lt_succ_self 1)⟩
  | call callee arguments paren =>
      exact level ((regular_call acts callee arguments paren).part listed)
  | limited paren callee arguments =>
      obtain rfl := Piece.part.inj (List.mem_singleton.1 listed)
      exact level ⟨rfl, .of_rank (Nat.lt_succ_self 4)⟩
  | apply callee arguments => exact level ((regular_apply acts callee arguments).part listed)
  | invoke closure arguments => exact level ((regular_invoke acts closure arguments).part listed)
  | program stmts => exact level ((regular_program AllOrNothing stmts).part listed)

/-- All operations of a moment and of its parts, in the order in which they are made. -/
def Moment.operations (rounds : Nat) (moment : Moment) : List Operation :=
  (moment.pieces rounds).attach.flatMap fun
    | ⟨.own operation, _⟩ => [operation]
    | ⟨.part part, _⟩ => part.operations rounds
termination_by (moment.nesting, moment.task.rank, moment.task.length)
decreasing_by exact Moment.smaller_of_part ‹_›

end Lox.Running
