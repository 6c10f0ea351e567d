import Lox.Proofs.Objects.Properties
import Lox.Proofs.Scoping.Inheriting
import Lox.Proofs.Scoping.Session

/-! Methods of superclasses.

Which method `super` stands for is settled by the class statement around it: the search starts at
the class that the clause of the statement was evaluated to when the statement was executed.
-/

namespace Lox.Scoping

open Binding

-----
-- Sessions

/-- A source text has been run, and the report tells of what went wrong in a lookup. -/
structure Watched.Concludes (before : Watched) (outcome : Report × Watched) : Prop where
  anchored : outcome.2.Anchored
  lookups
    : ∃ lookups,
        outcome.2.lookups = before.lookups ++ lookups
        ∧ ∀ lookup ∈ lookups, ∀ error,
            lookup.fault = some (.runtime error) → outcome.1.fault = some (.runtime error)

/-- At the start no superclass was read. -/
theorem Watched.anchored_start (machine : Machine) : (Watched.start machine).Anchored :=
  {
    origins := fun _ => ⟨.start 0 [], nofun, trivial⟩
    stems := fun _ _ kind => nomatch kind
    lookups := fun earlier _ _ _ _ split => by cases earlier <;> cases split
  }

/-- A source leaves every superclass where its clause says. -/
theorem Watched.Anchored.runSource {watched : Watched} (anchored : watched.Anchored)
    (limits : Limits) (number : Nat) (allowExpression : Bool) (source : String)
    : watched.Concludes (watched.runSource limits number allowExpression source) := by
  unfold Watched.runSource
  simp only
  split
  · let known := watched.machine.globalNames
    let fresh : Watched := { watched with machine := { watched.machine with output := "" } }
    have begins : fresh.Anchored := anchored.with anchored.origins anchored.stems rfl
    have obeys := Watcher.Obeys.ofNesting Watch.Anchors.conduct limits.rounds limits.nesting
    obtain ⟨ended, lookups, made, failing⟩ :=
      obeys.executeProgram Watch.Anchors.conduct (.start number known)
        (Grammar.parse_proper allowExpression source limits.depth).1 fresh begins
    revert ended made failing
    generalize Watcher.executeProgram _ _ _ _ = outcome
    intro ended made failing
    cases outcome with
    | ok value after =>
        refine ⟨ended, lookups, made, fun lookup member error failed => ?_⟩
        cases failing lookup member error failed
    | error fault after =>
        exact ⟨ended, lookups, made, failing⟩
  · exact ⟨anchored, [], (List.append_nil _).symm, fun _ member => nomatch member⟩

/-- A session leaves every superclass where its clauses say, by induction on its steps. -/
theorem Watched.Anchored.runSession {watched : Watched} (anchored : watched.Anchored)
    (limits : Limits) (number : Nat) (steps : List (Bool × String))
    : (watched.runSession limits number steps).2.Anchored := by
  induction steps generalizing watched number with
  | nil => exact anchored
  | cons step rest ih =>
      obtain ⟨allowExpression, source⟩ := step
      exact ih (anchored.runSource limits number allowExpression source).anchored (number + 1)

-----
-- Classes

/-- The machine where the class itself is created. Its name is defined already. -/
def Inheritance.declared (made : Inheritance) : Machine :=
  let machine := made.clause.machine
  { machine with scopes := machine.scopes.put machine.current made.name.lexeme .nil }

/-- The statement goes on to create the class: it inherits from the superclass, and its own methods
stand in the scope that holds the superclass. -/
structure Inheritance.Creates (made : Inheritance) (methods : List (Method (Option Nat)))
    (lineage : Lineage)
    : Prop where
  run
    : ∃ after,
        Evaluator.createClass made.name (some made.superclass) methods made.declared
            = .ok lineage after
        ∧ after.scopes.cell? made.scope "super" = some (.class made.superclass)
  superclass : lineage.superclass? = some made.superclass
  methods
    : ∀ name method,
        lineage.head.methods.get? name = some method → method.scope = made.scope

/-- Methods of a class all stand in its scope, by induction on them. -/
theorem createMethods_run (scope : Nat) (table : Table Closure)
    (methods : List (Method (Option Nat))) (machine : Machine)
    (there : ∀ name method, table.get? name = some method → method.scope = scope)
    : ∃ table' after,
        Evaluator.createMethods scope table methods machine = .ok table' after
        ∧ after.scopes = machine.scopes
        ∧ ∀ name method, table'.get? name = some method → method.scope = scope := by
  induction methods generalizing table machine with
  | nil => exact ⟨table, machine, rfl, rfl, there⟩
  | cons method rest ih =>
      let closure : Closure := {
        id := machine.nextId, function := method.function, scope,
        name := some method.name.lexeme, isInitializer := method.name.lexeme = "init"
      }
      obtain ⟨table', after, run, same, held⟩ :=
        ih (table.insert method.name.lexeme closure) { machine with nextId := machine.nextId + 1 }
          fun name found has => by
            rw [Table.get?_insert] at has
            split at has
            · exact Option.some.inj has ▸ rfl
            · exact there name found has
      exact ⟨table', after, run, same, held⟩

/-- A class is made of its methods and the superclass that its clause evaluated to. -/
theorem Inheritance.creates (made : Inheritance) (methods : List (Method (Option Nat)))
    : ∃ lineage, made.Creates methods lineage := by
  let machine := made.declared
  let superclass : Value := .class made.superclass
  let opened := (machine.scopes.push (some machine.current)).put machine.scopes.size "super" superclass
  have scope
      : Evaluator.methodScope (some made.superclass) machine
          = .ok machine.scopes.size { machine with scopes := opened } :=
    rfl
  have size : machine.scopes.size = made.scope := Forest.size_put _ _ _ _
  obtain ⟨table, after, created, same, there⟩ :=
    createMethods_run machine.scopes.size .empty methods { machine with scopes := opened }
      fun _ _ none => by cases none
  let body : ClassBody := { id := after.nextId, name := made.name.lexeme, methods := table }
  refine ⟨made.superclass.extend body, ⟨{ after with nextId := after.nextId + 1 }, ?_, ?_⟩, rfl, ?_⟩
  · exact (bind_ok scope).trans ((bind_ok created).trans rfl)
  · change after.scopes.cell? made.scope "super" = some superclass
    rw [same, ← size]
    refine Forest.cell?_put_self _ ?_ _ _
    rw [Forest.size_push]
    exact Nat.lt_succ_self _
  · exact fun name method has => (there name method has).trans size

-----
-- Lookups

/-- The lookup is made inside a method of the class, or in functions nested in the method to any
depth, and in no class nested in it. The scopes around it are those of the class that the statement
has created. -/
def Lookup.StandsIn (lookup : Lookup) (made : Inheritance) : Prop :=
  ∃ front receiver rest,
    lookup.site.frames = front ++ receiver :: made.frame :: rest
    ∧ receiver.kind = .receiver
    ∧ (∀ frame ∈ front, frame.kind = .block ∨ frame.kind = .function)
    ∧ lookup.machine.scopes.ancestor? lookup.machine.current (front.length + 1) = some made.scope

/-- The method is the first of the name on the way up from the superclass, bound to the receiver.
If there is none, the run fails there. -/
def Lookup.Dispatches (lookup : Lookup) (method : Token) (superclass : Lineage) (receiver : Value)
    (ended : Option Fault)
    : Prop :=
  let outcome := Run.readSuper (lookup.site.reference lookup.use) method lookup.machine
  match superclass.chain.findSome? fun body => body.methods.get? method.lexeme with
  | some found =>
      outcome
          = .ok (.closure (lookup.machine.bound found)) (lookup.machine.binding found receiver)
      ∧ lookup.fault = none
  | none =>
      let error : RuntimeError := { token := method, problem := .undefinedProperty }
      outcome = .error (.runtime error) lookup.machine
      ∧ lookup.fault = some (.runtime error)
      ∧ ended = some (.runtime error)
      ∧ error.message = "Undefined property '" ++ method.lexeme ++ "'."

/-- A method of a superclass is looked up as the class statement around it says, and for the
instance that `this` stands for. -/
structure Lookup.Static (lookup : Lookup) (method : Token) (made : Inheritance)
    (ended : Option Fault)
    : Prop where
  stands : lookup.StandsIn made
  dispatches
    : ∃ address lineage,
        (∀ keyword : Token,
          keyword.lexeme = "this"
          → Run.readVariable (lookup.site.reference (.this keyword)) lookup.machine
              = .ok (.object address lineage) lookup.machine)
        ∧ lookup.Dispatches method made.superclass (.object address lineage) ended

/-- A method found at `super` comes from the class that the clause evaluated to. -/
theorem Lookup.Stems.static {lookup : Lookup} {earlier : List Lookup} {keyword method : Token}
    (stems : lookup.Stems earlier keyword method) (isSuper : lookup.use = .super keyword method)
    (aligned : lookup.Aligned) {ended : Option Fault}
    (failing : ∀ error, lookup.fault = some (.runtime error) → ended = some (.runtime error))
    : ∃ made : Inheritance,
        made.clause ∈ earlier ∧ made.Made ∧ lookup.Static method made ended := by
  obtain ⟨nearer, outer, inner, superclass, address, lineage, bound, there, held, there', held'⟩ :=
    aligned.super keyword method isSuper
  have inSubclass : lookup.site.scopes.classContext = .subclass := by
    rw [isSuper] at bound
    change (bindSuper keyword lookup.site.scopes).1 = _ at bound
    unfold bindSuper at bound
    split at bound
    · cases bound
    · cases bound
    · assumption
  obtain ⟨front, receiver, frame, rest, split, isReceiver, isSuperclass, plain, boundSuper, boundThis⟩ :=
    stems.site.subclass inSubclass
  have distance : nearer = front.length := by
    rw [isSuper] at bound
    have same := bound.symm.trans (boundSuper keyword stems.spelled)
    exact Nat.succ.inj (Option.some.inj same)
  subst distance
  have here : lookup.site.frames[front.length + 1]? = some frame := by simp [split]
  obtain ⟨scope, around, -, isFrame⟩ := aligned.instances _ frame here
  obtain rfl : outer = scope := Option.some.inj (there.symm.trans around)
  obtain ⟨made, member, isMade, sameFrame, sameScope, same⟩ :=
    stems.stems outer _ (isFrame ▸ isSuperclass) held
  obtain rfl : superclass = made.superclass := Value.class.inj same
  refine ⟨made, member, isMade, ?_, address, lineage, ?_, ?_⟩
  · refine ⟨front, receiver, rest, ?_, isReceiver, plain, sameScope ▸ there⟩
    rw [split, sameFrame, isFrame]
  · intro this spelled
    have run := readVariable_bound lookup.machine (lookup.site.reference (.this this))
      (boundThis this spelled) there'
    have named : (lookup.site.reference (.this this)).name.lexeme = "this" := spelled
    rw [named, held'] at run
    exact run
  · have reaches
        : Reaches lookup.machine front.length (.object address lineage) made.superclass :=
      ⟨⟨inner, there', held'⟩, outer, there, held⟩
    have target
        : lookup.site.reference lookup.use
            = { name := keyword, binding := some (front.length + 1) } := by
      rw [isSuper]
      exact congrArg (fun binding => ({ name := keyword, binding } : Reference (Option Nat)))
        (boundSuper keyword stems.spelled)
    obtain ⟨before, sameMachine, outcome⟩ := stems.outcome
    have run := reaches.readSuper stems.spelled method
    have reaches
        : Reaches before.machine front.length (.object address lineage) made.superclass :=
      sameMachine ▸ reaches
    have watched := reaches.superMethod stems.spelled method
    rw [← target] at run watched
    rw [watched] at outcome
    change lookup.fault = _ at outcome
    unfold Lookup.Dispatches
    simp only
    rw [run]
    unfold Lineage.method? at outcome ⊢
    unfold Lineage.chain
    cases found : (made.superclass.head :: made.superclass.ancestors).findSome? fun body =>
        body.methods.get? method.lexeme with
    | some chosen =>
        rw [found] at outcome
        exact ⟨bind_ok (Run.bindMethod_run chosen _ lookup.machine), outcome⟩
    | none =>
        rw [found] at outcome
        exact ⟨rfl, outcome, failing _ outcome, rfl⟩

-----
-- All sessions

/-- Dispatch on a superclass is static. Whatever the class of the instance, however the method was
reached, and whatever has been assigned to any variable since: a method of a superclass is searched
from the class on that the clause around the method was evaluated to, and found for the instance
that `this` stands for. Every `super` that a run evaluates is among the lookups, and so is every
superclass clause. -/
theorem super_static (limits : Limits) (traceLevel : Nat) (readings : Nat → Float)
    (steps : List (Bool × String)) (text : Bool × String)
    : let start := Machine.start traceLevel readings
      let before := ((Watched.start start).runSession limits 0 steps).2
      let (report, after) := before.runSource limits steps.length text.1 text.2
      before.machine = (start.runSession limits steps).2
      ∧ (report, after.machine) = before.machine.runSource limits text.1 text.2
      ∧ (∀ nesting,
          (Watcher.ofNesting limits.rounds (nesting + 1)).Notes
            (Watcher.ofNesting limits.rounds nesting))
      ∧ ∃ lookups,
          after.lookups = before.lookups ++ lookups
          ∧ ∀ front lookup back keyword method,
              lookups = front ++ lookup :: back
              → lookup.use = .super keyword method
              → ∃ made : Inheritance,
                  made.clause ∈ before.lookups ++ front
                  ∧ made.Made
                  ∧ (∀ methods, ∃ lineage, made.Creates methods lineage)
                  ∧ lookup.Static method made report.fault := by
  intro start before
  have session := (Watched.idle_start traceLevel readings).runSession limits 0 steps
  have held : before.machine = (start.runSession limits steps).2 := congrArg Prod.snd session.1
  have idle : before.Idle := session.2.1
  have anchored : before.Anchored := (Watched.anchored_start start).runSession limits 0 steps
  -- From here on it does not matter how the machine came to be.
  clear_value before
  obtain ⟨sameReport, sameMachine, idle, -⟩ :=
    idle.runSource limits steps.length text.1 text.2
  obtain ⟨anchored, lookups, made, failing⟩ :=
    anchored.runSource limits steps.length text.1 text.2
  refine ⟨held, Prod.ext sameReport sameMachine, Watcher.notes_ofNesting limits.rounds, lookups,
    made, ?_⟩
  intro front lookup back keyword method split isSuper
  have member : lookup ∈ lookups := by simp [split]
  have whole
      : (before.runSource limits steps.length text.1 text.2).2.lookups
          = (before.lookups ++ front) ++ lookup :: back := by
    rw [made, split, List.append_assoc]
  have listed : lookup ∈ (before.runSource limits steps.length text.1 text.2).2.lookups := by
    simp [whole]
  have stems := anchored.lookups _ lookup back keyword method whole isSuper
  obtain ⟨inheritance, earlier, isMade, static⟩ :=
    stems.static isSuper (idle.sound.lookups lookup listed).1 (failing lookup member)
  exact ⟨inheritance, earlier, isMade, inheritance.creates, static⟩

/-- A function nested in a method of `B` is run for an instance of a class below `B`, after all three
names have been assigned to, and still finds the method of the first `A`. -/
example
    : let steps :=
        [(false, "class A \x7b m() \x7b return true; \x7d \x7d"),
          (false, "class B < A \x7b m() \x7b \x7d f() \x7b fun g() \x7b print super.m(); \x7d return g; \x7d \x7d"),
          (false, "class C < B \x7b m() \x7b \x7d \x7d var g = C().f(); A = nil; B = C; C = A; g();")]
      let limits : Limits := { nesting := 40, rounds := 1 }
      let reports := ((Machine.start 0 fun _ => 0).runSession limits steps).1
      reports.map Report.output = ["", "", "true"] := by
  decide +kernel

end Lox.Scoping
