import Lox.Proofs.Usage.Watching

/-! Whatever a watched run looks up is noted down, and no note is struck out.

An expression that looks a name up is noted behind its parts, and a class statement with the lookup
of its superclass. So the book of a run has an entry for each variable, assignment, `this`, `super`
and superclass clause that the run evaluates.
-/

namespace Lox.Scoping

open Binding
open Grammar (SourceExpr SourceStmt)

-----
-- What notes nothing down

/-- The action looks nothing up that is noted down. -/
def Watch.Silent {α : Type} (action : Watch α) : Prop :=
  ∀ before, (stateOf (action before)).lookups = before.lookups

namespace Watch.Silent

variable {α β : Type}

/-- What the machine does by itself is not noted down. -/
theorem lift (action : Run α) : Silent (Watch.lift action) := by
  intro before
  unfold Watch.lift
  cases action before.machine <;> rfl

/-- Two silent actions in a row are silent, whether the first fails or not. -/
theorem bind {action : Watch α} {next : α → Watch β} (front : Silent action)
    (back : ∀ value, Silent (next value))
    : Silent (action >>= next) := by
  intro before
  have first := front before
  cases run : action before with
  | ok value between =>
      rw [run] at first
      rw [bind_ok run]
      exact (back value between).trans first
  | error fault between =>
      rw [run] at first
      rw [bind_error run]
      exact first

/-- What was noted down before a silent action is all that there is behind it. -/
theorem behind {action : Watch α} {next : α → Watch β} (silent : ∀ value, Silent (next value))
    (before : Watched)
    : (stateOf ((action >>= next) before)).lookups = (stateOf (action before)).lookups := by
  cases run : action before with
  | ok value between =>
      rw [bind_ok run]
      exact silent value between
  | error fault between => rw [bind_error run]; rfl

/-- A lookup of a method of a superclass notes nothing down by itself. -/
theorem superMethod (keyword : Reference (Option Nat)) (method : Token)
    : Silent (Watch.superMethod keyword method) := by
  unfold Watch.superMethod
  cases keyword.binding with
  | none => exact lift _
  | some distance =>
      refine (lift _).bind fun superclass before => ?_
      refine ((lift _).bind fun scope => (lift _).bind fun receiver => ?_) before
      cases superclass with
      | «class» lineage =>
          simp only
          cases lineage.method? method.lexeme with
          | some found => exact fun _ => rfl
          | none => exact lift _
      | literal | native | closure | object => exact lift _

/-- Creating the methods of a class looks nothing up, by induction on the methods. -/
theorem createMethods (site : Site) (scope : Nat) (table : Table Closure)
    (methods : List (Method Unit))
    : Silent (Watcher.createMethods site scope table methods) := by
  induction methods generalizing site table with
  | nil => exact fun _ => rfl
  | cons first rest ih =>
      obtain ⟨name, function⟩ := first
      have created : Silent (Watcher.newFunction (site.child 0) function scope (some name.lexeme)
          (name.lexeme = "init")) :=
        fun _ => rfl
      exact created.bind fun closure => ih _ _

/-- Creating a class looks nothing up once its superclass is known. -/
theorem createClass (site : Site) (name : Token) (clause : Option (Reference Unit))
    (superclass : Option Lineage) (methods : List (Method Unit))
    : Silent (Watcher.createClass site name clause superclass methods) := by
  have opened : Silent (Watcher.methodScope site superclass) := by
    cases superclass with
    | none => exact fun _ => rfl
    | some lineage => exact fun _ => rfl
  refine opened.bind fun scope => (createMethods _ scope .empty methods).bind fun table => ?_
  exact (lift Run.freshId).bind fun id => fun _ => rfl

end Watch.Silent

/-- A silent action that is noted down leaves one entry, with the state before it and its fault. -/
theorem Watch.note_lookups {α : Type} {action : Watch α} (silent : Silent action) (site : Site)
    (use : Use) (before : Watched)
    : (stateOf (note site use action before)).lookups
        = before.lookups ++ [before.entry site use (faultOf (note site use action before))] := by
  have same := silent before
  unfold note
  cases run : action before with
  | ok value after =>
      rw [run] at same
      exact congrArg (· ++ _) same
  | error fault after =>
      rw [run] at same
      exact congrArg (· ++ _) same

-----
-- Expressions and class statements

/-- The lookup that an expression makes itself. Its parts make their own. -/
def Site.lookup? (site : Site) : SourceExpr → Option (Site × Use)
  | .variable target => some (site, .read target.name)
  | .assign target value => some (site.after (bindExpr value), .write target.name)
  | .this keyword => some (site, .this keyword.name)
  | .super keyword method => some (site, .super keyword.name method)
  | _ => none

/-- What an expression evaluates before it looks up a name itself: only an assignment has a value to
evaluate. -/
def Watcher.prepare (parts : Watcher) (site : Site) : SourceExpr → Watch Unit
  | .assign _ value => do
      let _ ← parts.evaluate (site.child 0) value
      return ()
  | _ => return ()

/-- Behind its parts an expression that looks a name up leaves one entry, by cases on the
expression. -/
theorem Watcher.evaluateStep_lookups {parts : Watcher} {site place : Site} {use : Use}
    {expr : SourceExpr} {before reached : Watched} (looksUp : site.lookup? expr = some (place, use))
    (prepared : parts.prepare site expr before = .ok () reached)
    : let outcome := parts.evaluateStep site expr before
      (stateOf outcome).lookups
        = reached.lookups ++ [reached.entry place use (faultOf outcome)] := by
  cases expr with
  | «variable» target =>
      cases looksUp
      cases prepared
      exact Watch.note_lookups (.lift _) _ _ _
  | this keyword =>
      cases looksUp
      cases prepared
      exact Watch.note_lookups (.lift _) _ _ _
  | super keyword method =>
      cases looksUp
      cases prepared
      exact Watch.note_lookups (.superMethod _ _) _ _ _
  | assign target value =>
      cases looksUp
      obtain ⟨assigned, between, evaluated, ended⟩ := bind_succeeds prepared
      cases ended
      let write := Watch.writeVariable (site.after (bindExpr value)) target.name assigned
      have noted
          : (stateOf (write reached)).lookups
            = reached.lookups
              ++ [reached.entry (site.after (bindExpr value)) (.write target.name)
                  (faultOf (write reached))] :=
        Watch.note_lookups (.lift _) _ _ _
      have step
          : parts.evaluateStep site (.assign target value) before
            = (do write; return assigned) reached :=
        bind_ok evaluated
      have fault : faultOf ((do write; return assigned) reached) = faultOf (write reached) := by
        cases written : write reached with
        | ok value after => rw [bind_ok written]; rfl
        | error fault after => rw [bind_error written]; rfl
      simp only
      rw [step, fault, Watch.Silent.behind (fun _ _ => rfl) reached]
      exact noted
  | literal | grouping | unary | binary | logical | conditional | call | get | set | function =>
      cases looksUp

/-- Whatever is read for a superclass, the read is noted down and no other. -/
theorem Watcher.readSuperclass_lookups (site : Site) (target : Token) (before : Watched)
    : (stateOf (readSuperclass site target before)).lookups
        = before.lookups
          ++ [before.entry site (.read target)
              (faultOf (Watch.readVariable site (.read target) before))] := by
  unfold readSuperclass
  refine (Watch.Silent.behind (fun value => ?_) before).trans (Watch.note_lookups (.lift _) _ _ _)
  cases value with
  | «class» lineage => exact fun _ => rfl
  | literal | native | closure | object => exact .lift _

/-- A class statement leaves one entry for its superclass clause, and no other. -/
theorem Watcher.declareClass_lookups (site : Site) (name : Token) (target : Reference Unit)
    (methods : List (Method Unit)) (before : Watched)
    : let place := site.inheriting name target.name
      let read := Watch.readVariable place (.read target.name)
      (stateOf (declareClass site name (some target) methods before)).lookups
        = before.lookups ++ [before.entry place (.read target.name) (faultOf (read before))] := by
  simp only [declareClass, findSuperclass, map_eq_pure_bind, bind_assoc, pure_bind]
  refine (Watch.Silent.behind (fun superclass => ?_) before).trans
    (readSuperclass_lookups (site.inheriting name target.name) target.name before)
  refine (Watch.Silent.lift _).bind fun _ => ?_
  refine (Watch.Silent.createClass _ _ _ _ _).bind fun lineage => ?_
  exact (Watch.Silent.lift _).bind fun current => (Watch.Silent.lift _).bind fun _ => .lift _

-----
-- Watchers

/-- The watcher notes down whatever it looks up, given the watcher of the parts, and strikes out
nothing. -/
structure Watcher.Notes (watcher parts : Watcher) : Prop where
  /-- A variable, an assignment, `this` or `super`: behind its parts there is one entry, with the
  state that the name was looked up in. -/
  expressions
    : ∀ {site place : Site} {use : Use} {expr : SourceExpr} {before reached : Watched},
        site.lookup? expr = some (place, use)
        → parts.prepare site expr before = .ok () reached
        → let outcome := watcher.evaluate site expr before
          (stateOf outcome).lookups
            = reached.lookups ++ [reached.entry place use (faultOf outcome)]
  /-- A superclass clause. -/
  classes
    : ∀ (site : Site) (name : Token) (target : Reference Unit) (methods : List (Method Unit))
        (before : Watched),
        let place := site.inheriting name target.name
        let read := Watch.readVariable place (.read target.name)
        (stateOf (watcher.execute site (.class name (some target) methods) before)).lookups
          = before.lookups ++ [before.entry place (.read target.name) (faultOf (read before))]
  /-- Whatever is run, what was noted down before it stays. -/
  evaluates
    : ∀ site expr (before : Watched),
        before.lookups <+: (stateOf (watcher.evaluate site expr before)).lookups
  executes
    : ∀ site stmt (before : Watched),
        before.lookups <+: (stateOf (watcher.execute site stmt before)).lookups
  runs
    : ∀ site stmts (before : Watched),
        before.lookups <+: (stateOf (watcher.executeProgram site stmts before)).lookups

/-- At every level of nesting all lookups are noted down. -/
theorem Watcher.notes_ofNesting (rounds nesting : Nat)
    : (Watcher.ofNesting rounds (nesting + 1)).Notes (Watcher.ofNesting rounds nesting) := by
  have confined := Watcher.confined_ofNesting (fun _ => True) rounds (nesting + 1)
  have anything (survey : Survey) : survey.All fun _ => True := fun _ _ => trivial
  have holds (watched : Watched) : watched.Listed fun _ => True :=
    ⟨fun _ _ => trivial, fun _ => anything _⟩
  exact {
    expressions := Watcher.evaluateStep_lookups
    classes := fun site name target methods before => by
      have declared := Watcher.declareClass_lookups site name target methods before
      intro place read
      exact (Watch.Silent.behind (fun _ _ => rfl) before).trans declared
    evaluates := fun _ _ before => (confined.evaluate (anything _) before (holds before)).2
    executes := fun _ _ before => (confined.execute (anything _) before (holds before)).2
    runs := fun _ _ before => (confined.executeProgram (anything _) before (holds before)).2
  }

end Lox.Scoping
