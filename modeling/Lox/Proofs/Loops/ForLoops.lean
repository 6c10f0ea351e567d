import Lox.Proofs.Loops.Desugaring
import Lox.Proofs.Loops.Ground
import Lox.Proofs.Running.Integrity

/-! Every `for` does what it means, wherever it stands and whenever it is run. -/

namespace Lox

open Running (failure? leaves)

-----
-- Runs that end alike

namespace Comparison.Ends

variable {α β : Type} {action : Run α} {action' : Run β} {machine machine' : Machine}
  {before : Footing} {post : α → β → Footing → Prop}

/-- What the actions leave behind can still be compared. -/
theorem leaves (ended : omission.Ends before post (action machine) (action' machine'))
    : ∃ after,
        before.Extends after
        ∧ (leaves action machine).Omits after (leaves action' machine') := by
  unfold Running.leaves
  revert ended
  cases action machine <;> cases action' machine' <;> intro ended
  · obtain ⟨after, more, machines, -⟩ := ended
    exact ⟨after, more, machines⟩
  · exact ended.elim
  · exact ended.elim
  · obtain ⟨-, after, more, machines⟩ := ended
    exact ⟨after, more, machines⟩

/-- Errors of the program are the same. -/
theorem runtime_iff (ended : omission.Ends before post (action machine) (action' machine'))
    (error : RuntimeError)
    : failure? action machine = some (.runtime error)
        ↔ failure? action' machine' = some (.runtime error) := by
  unfold failure?
  revert ended
  cases action machine <;> cases action' machine' <;> intro ended
  · exact Iff.rfl
  · exact ended.elim
  · exact ended.elim
  · obtain ⟨faults, -⟩ := ended
    cases faults with
    | same fault => exact Iff.rfl
    | missing => exact ⟨nofun, nofun⟩

end Comparison.Ends

/-- The actions end alike on the machine, with the same effects. -/
structure SameRun (machine : Machine) (action action' : Run Completion) : Prop where
  /-- Both end in the same way, and what is kept in variables and fields is the same but for the
  hollow scopes. -/
  ends
    : omission.Ends (.whole machine) (LaidOut Completion.Like) (action machine) (action' machine)
  errors
    : ∀ error,
        failure? action machine = some (.runtime error)
        ↔ failure? action' machine = some (.runtime error)
  output : (leaves action' machine).output = (leaves action machine).output
  /-- Afterwards, both are in the scope that they started in. -/
  current : (leaves action machine).current = machine.current
  current' : (leaves action' machine).current = machine.current

/-- What runs together with no gap at the start is the same run. -/
theorem SameRun.of_together {machine : Machine} (closed : machine.Closed)
    {action action' : Run Completion}
    (together : omission.Together (.whole machine) action action' (LaidOut Completion.Like))
    : SameRun machine action action' := by
  have ended := together machine machine closed.omits
  obtain ⟨after, more, omits⟩ := ended.leaves
  refine ⟨ended, ended.runtime_iff, omits.output, omits.current.trans more.current, ?_⟩
  obtain ⟨gap, here⟩ := omits.current'
  have started : (Footing.whole machine).layout machine.current = some (none, machine.current) :=
    Layout.whole_of_lt closed.here
  rw [more.current] at here
  exact (congrArg Prod.snd (Option.some.inj ((more.layout _ _ started).symm.trans here))).symm

-----
-- Loops

open Binding Loops

/-- The tree does what the loop means. Whatever is run next finds no difference, either. -/
structure ForLoop.Meant (limit nesting : Nat) (machine : Machine) (tree : BoundStmt)
    (loop : ForLoop (Option Nat))
    : Prop where
  alone
    : SameRun machine ((Evaluator.ofNesting limit nesting).execute tree)
        (loop.execute limit nesting)
  followed
    : ∀ rest,
        SameRun machine
          (ForLoop.followedBy ((Evaluator.ofNesting limit nesting).execute tree)
            ((Evaluator.ofNesting limit nesting).executeAll rest))
          (ForLoop.followedBy (loop.execute limit nesting)
            ((Evaluator.ofNesting limit nesting).executeAll rest))

/-- The tree of a loop runs as the loop that is meant, for every limit. -/
theorem ForLoop.Desugars.meant {tree : BoundStmt} {loop : ForLoop (Option Nat)}
    (desugars : ForLoop.Desugars tree loop) {machine : Machine} (closed : machine.Closed)
    (limit nesting : Nat)
    : loop.Meant limit nesting machine tree := by
  obtain ⟨body, rfl, round⟩ := round_of_desugars limit desugars
  have runs := together_for round nesting closed.whole_at
  refine ⟨.of_together closed runs, fun rest => .of_together closed ?_⟩
  exact together_followedBy runs fun more =>
    together_executeAll (omits_ofNesting limit nesting) (closed.whole_at.extend more)
      (omitsStmts_self rest)

/-- A `for` is read as its clauses and its body, and becomes a tree of blocks and loops. Wherever
the tree stands in a program, and on whatever machine a session comes to it, it does what the loop
means whose parts are bound in the order of the text. Binding a program visits all statements of
it, however deep they stand, so no tree is left out. -/
theorem for_loops_meant (limits : Limits) (traceLevel : Nat) (readings : Nat → Float)
    (steps : List (Bool × String))
    : (∀ allowExpression rules,
        Grammar.forStatement allowExpression rules
          = ForLoop.tree <$> ForLoop.read allowExpression rules)
      ∧ (∀ source, (Grammar.Cursor.start (scan source).tokens).Legible)
      ∧ (∀ allowExpression nesting,
          Grammar.Yields (ForLoop.read allowExpression (Grammar.rules allowExpression nesting))
            ForLoop.Proper)
      ∧ (∀ knownGlobals program,
          (allVisits program (.start knownGlobals)).map Visit.bound
            = allStmts (bind knownGlobals program).statements)
      ∧ ∀ history moment,
          Reached limits steps (.start traceLevel readings) history moment
          → ∀ knownGlobals program,
              ProperStmts program
              → ∀ visit ∈ allVisits program (.start knownGlobals), ∀ loop : ForLoop Unit,
                  loop.Proper
                  → visit.stmt = loop.tree
                  → ∀ nesting,
                      (loop.bound visit.scopes).1.Meant limits.rounds nesting moment.machine
                        visit.bound := by
  refine ⟨ForLoop.forStatement_read, Grammar.legible_start, ?_,
    fun _ program => allVisits_bound program _, ?_⟩
  · exact fun allowExpression nesting =>
      ForLoop.yields_read (Grammar.gather_rules allowExpression nesting) allowExpression
  · intro history moment reached knownGlobals program proper visit listed loop properLoop same
      nesting
    have based := allVisits_based program proper (.start knownGlobals) visit listed
    have desugars := bindStmt_desugars properLoop based
    rw [← same] at desugars
    exact desugars.meant reached.closed limits.rounds nesting

/-- All rounds share one scope, which a function keeps after the loop. -/
example
    : let steps :=
        [(false, "var f; for (var go = true; go; go = false) f = () -> \x7b return go; \x7d;"),
          (false, "print f(); for (;;) \x7b f = nil; break; \x7d print f;")]
      let limits : Limits := { nesting := 40, rounds := 2 }
      let reports := ((Machine.start 0 fun _ => 0).runSession limits steps).1
      reports.map Report.output = ["", "falsenil"] := by
  decide +kernel

end Lox
