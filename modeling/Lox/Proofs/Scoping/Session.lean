import Lox.Proofs.Program
import Lox.Proofs.Scoping.Execution
import Lox.Proofs.Scoping.Noting

/-! Sessions: whole source texts, run and watched one after another.

Watching changes nothing, and every lookup of every run goes as the binder said.
-/

namespace Lox

/-- The known names are those with a global cell. -/
theorem Machine.mem_globalNames {machine : Machine} {name : String}
    : name ∈ machine.globalNames ↔ (machine.scopes.cell? globalScope name).isSome = true := by
  unfold Machine.globalNames Forest.names Forest.cell?
  cases machine.scopes.scopes[globalScope]? with
  | none => simp
  | some scope => exact Table.mem_names

/-- A session with one more step runs that step first. -/
theorem Machine.runSession_cons (limits : Limits) (allowExpression : Bool) (source : String)
    (rest : List (Bool × String)) (machine : Machine)
    : machine.runSession limits ((allowExpression, source) :: rest)
        = (((machine.runSource limits allowExpression source).1
              :: ((machine.runSource limits allowExpression source).2.runSession limits rest).1),
            ((machine.runSource limits allowExpression source).2.runSession limits rest).2) :=
  rfl

end Lox

namespace Lox.Scoping

open Binding
open Grammar (SourceStmt)

-----
-- Between two source texts

/-- No program is running. -/
structure Watched.Idle (watched : Watched) : Prop where
  sound : watched.Sound
  current : watched.machine.current = globalScope

/-- The machine starts between two steps, with nothing watched. -/
theorem Watched.idle_start (traceLevel : Nat) (readings : Nat → Float)
    : (Watched.start (Machine.start traceLevel readings)).Idle := by
  refine ⟨⟨Machine.start_parent? globalScope, ?_, ?_, ?_, ?_, ?_, ?_, ?_⟩, rfl⟩
  · exact Nat.zero_lt_one
  · intro scope name value held
    obtain ⟨-, rfl⟩ := Machine.start_cell? held
    trivial
  · intro address table name value held
    cases held
  · intro scope parent found
    have none := (Machine.start_parent? scope).symm.trans found
    cases none
  · intro scope parent found
    have none := (Machine.start_parent? scope).symm.trans found
    cases none
  · exact fun _ member => absurd member List.not_mem_nil
  · exact fun _ member => absurd member List.not_mem_nil

/-- Where a program starts, the names that have values are the names that are known. -/
theorem Watched.Idle.at {watched : Watched} (idle : watched.Idle) (number : Nat)
    : watched.At (.start number watched.machine.globalNames) := by
  refine ⟨⟨idle.current ▸ .outermost, fun name known => ?_⟩, .start number _⟩
  refine Machine.mem_globalNames.1 ?_
  have marked := Table.get?_marked watched.machine.globalNames .empty name
  change (watched.machine.globalNames.foldl (fun table name => table.insert name true)
    Table.empty).get? name = some true at known
  rw [marked] at known
  split at known
  · assumption
  · cases known

-----
-- Source texts

/-- The names that a program declares outside of all scopes. -/
def Declares (statements : List SourceStmt) (name : String) : Prop :=
  ∃ stmt ∈ statements, ∃ token, stmt.introduces? = some token ∧ token.lexeme = name

section

variable {watched : Watched} {allowExpression : Bool} {source : String}

/-- The program of an accepted text, run and watched. -/
theorem tracks_program (idle : watched.Idle) (limits : Limits) (number : Nat)
    (clean : Clean allowExpression watched.machine.globalNames source limits.depth)
    : let statements := (parse allowExpression (scan source).tokens limits.depth).statements
      let site := Site.start number watched.machine.globalNames
      Tracks (Declares statements)
        ((Evaluator.ofNesting limits.rounds limits.nesting).executeProgram
          (bind watched.machine.globalNames statements).statements)
        ((Watcher.ofNesting limits.rounds limits.nesting).executeProgram site statements)
        { watched with machine := { watched.machine with output := "" } }
        (fun _ after =>
          after.FitsAt after.machine.current (site.after (bindStmts statements))) := by
  intro statements site
  have grows
      : watched.Grows (Declares statements)
          { watched with machine := { watched.machine with output := "" } } :=
    .quiet rfl (Nat.le_refl _) rfl
  have sound := idle.sound.quiet grows rfl Watched.sameFields
  have reached := (idle.at number).grows grows
  have follows := Watcher.follows_ofNesting (Declares statements) limits.rounds limits.nesting
  refine follows.executeProgram sound reached
    (Grammar.parse_proper allowExpression source limits.depth).1 clean.bind rfl rfl
    fun stmt member _ name introduced => ?_
  exact ⟨stmt, member, name, introduced, rfl⟩

/-- After the run of an accepted text, what was there still is, and only declared names are new
among the globals. -/
theorem Watched.Idle.runSource_grows (idle : watched.Idle) (limits : Limits)
    (clean : Clean allowExpression watched.machine.globalNames source limits.depth)
    : ∃ after : Watched,
        { watched with machine := { watched.machine with output := "" } }.Grows
          (Declares (parse allowExpression (scan source).tokens limits.depth).statements) after
        ∧ (watched.machine.runSource limits allowExpression source).2 = after.machine := by
  obtain ⟨after, grows, ends⟩ := (tracks_program idle limits 0 clean).ends
  refine ⟨after, grows, ?_⟩
  unfold Machine.runSource Machine.runProgram
  rw [if_pos (Program.accepted_iff.2 clean), Program.ofSource_clean clean.scan clean.parse]
  rcases ends with ⟨value, ends⟩ | ⟨fault, ends⟩ <;> simp only [ends]

/-- Watching a run leaves it as it is, and the machine is then as fit to run as before. -/
structure Watched.Agrees (outcome : Report × Watched) (run : Report × Machine) : Prop where
  report : outcome.1 = run.1
  machine : outcome.2.machine = run.2
  idle : outcome.2.Idle
  ordinary : ∀ fault, outcome.1.fault = some fault → Ordinary fault

/-- A source is watched alike and leaves the machine between two steps. -/
theorem Watched.Idle.runSource (idle : watched.Idle) (limits : Limits) (number : Nat)
    (allowExpression : Bool) (source : String)
    : Watched.Agrees (watched.runSource limits number allowExpression source)
        (watched.machine.runSource limits allowExpression source) := by
  let known := watched.machine.globalNames
  by_cases accepted : (Program.ofSource allowExpression known source limits.depth).accepted = true
  · have clean := Program.accepted_iff.1 accepted
    have bound
        : (Program.ofSource allowExpression known source limits.depth).statements
            = (bind known (parse allowExpression (scan source).tokens
                limits.depth).statements).statements := by
      rw [Program.ofSource_clean clean.scan clean.parse]
    have tracks := tracks_program idle limits number clean
    unfold Watched.runSource Machine.runSource
    rw [if_pos accepted, if_pos accepted]
    unfold Machine.runProgram
    rw [bound]
    unfold Tracks at tracks
    simp only at tracks ⊢
    revert tracks
    generalize Watcher.executeProgram _ _ _ _ = outcome
    intro tracks
    cases outcome with
    | ok value after =>
        obtain ⟨run, grows, sound, -⟩ := tracks
        rw [run]
        exact ⟨rfl, rfl, ⟨sound, grows.current.trans idle.current⟩, fun _ none => nomatch none⟩
    | error fault after =>
        obtain ⟨run, grows, sound, ordinary⟩ := tracks
        rw [run]
        refine ⟨rfl, rfl, ⟨sound, grows.current.trans idle.current⟩, fun found same => ?_⟩
        exact Option.some.inj same ▸ ordinary
  · unfold Watched.runSource Machine.runSource
    rw [if_neg accepted, if_neg accepted]
    exact ⟨rfl, rfl, idle, fun _ none => nomatch none⟩

end

/-- A watched session with one more step runs that step first. -/
theorem Watched.runSession_cons (limits : Limits) (number : Nat) (allowExpression : Bool)
    (source : String) (rest : List (Bool × String)) (watched : Watched)
    : watched.runSession limits number ((allowExpression, source) :: rest)
        = (((watched.runSource limits number allowExpression source).1
              :: ((watched.runSource limits number allowExpression source).2.runSession limits
                  (number + 1) rest).1),
            ((watched.runSource limits number allowExpression source).2.runSession limits
              (number + 1) rest).2) :=
  rfl

/-- The same for whole sessions, whatever the texts before have done to the machine. -/
theorem Watched.Idle.runSession {watched : Watched} (idle : watched.Idle) (limits : Limits)
    (number : Nat) (steps : List (Bool × String))
    : let outcome := watched.runSession limits number steps
      (outcome.1, outcome.2.machine) = watched.machine.runSession limits steps
      ∧ outcome.2.Idle
      ∧ ∀ report ∈ outcome.1, ∀ fault, report.fault = some fault → Ordinary fault := by
  induction steps generalizing watched number with
  | nil => exact ⟨rfl, idle, fun _ member => absurd member List.not_mem_nil⟩
  | cons step rest ih =>
      obtain ⟨allowExpression, source⟩ := step
      obtain ⟨sameReport, sameMachine, idleAfter, ordinary⟩ :=
        idle.runSource limits number allowExpression source
      obtain ⟨same, last, ordinaryRest⟩ := ih idleAfter (number + 1)
      rw [Watched.runSession_cons, Machine.runSession_cons, ← sameReport, ← sameMachine, ← same]
      refine ⟨rfl, last, fun report member => ?_⟩
      rcases List.mem_cons.1 member with rfl | member
      · exact ordinary
      · exact ordinaryRest report member

-----
-- Every lookup of every session

/-- Whenever a name is looked up while a session runs, the scopes around are one instance of each
scope that the binder had open there, in the same order. Watching changes nothing, and no run ends
but by an error of the program or at the limits of the machine. Every evaluation of a variable, an
assignment, `this`, `super` or a superclass clause is among the lookups. -/
theorem lookups_aligned (limits : Limits) (traceLevel : Nat) (readings : Nat → Float)
    (steps : List (Bool × String))
    : let machine := Machine.start traceLevel readings
      let (reports, watched) := (Watched.start machine).runSession limits 0 steps
      (reports, watched.machine) = machine.runSession limits steps
      ∧ (∀ lookup ∈ watched.lookups, lookup.Aligned)
      ∧ (∀ report ∈ reports, ∀ fault, report.fault = some fault → Ordinary fault)
      ∧ ∀ nesting,
          (Watcher.ofNesting limits.rounds (nesting + 1)).Notes
            (Watcher.ofNesting limits.rounds nesting) := by
  obtain ⟨same, idle, ordinary⟩ :=
    (Watched.idle_start traceLevel readings).runSession limits 0 steps
  exact ⟨same, fun lookup member => (idle.sound.lookups lookup member).1, ordinary,
    Watcher.notes_ofNesting limits.rounds⟩

/-- A read of what the binder knew to be defined always succeeds. A read of a local that fails
stands in a function inside the initial value of that very local, which is not yet complete. Every
read that a run evaluates is among the lookups. -/
theorem reads_definite (limits : Limits) (traceLevel : Nat) (readings : Nat → Float)
    (steps : List (Bool × String))
    : let machine := Machine.start traceLevel readings
      let (reports, watched) := (Watched.start machine).runSession limits 0 steps
      (reports, watched.machine) = machine.runSession limits steps
      ∧ (∀ lookup ∈ watched.lookups, lookup.Definite)
      ∧ ∀ nesting,
          (Watcher.ofNesting limits.rounds (nesting + 1)).Notes
            (Watcher.ofNesting limits.rounds nesting) := by
  obtain ⟨same, idle, -⟩ := (Watched.idle_start traceLevel readings).runSession limits 0 steps
  exact ⟨same, fun lookup member => (idle.sound.lookups lookup member).2,
    Watcher.notes_ofNesting limits.rounds⟩

end Lox.Scoping
