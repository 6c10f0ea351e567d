import Lox.Proofs.Scoping.Watcher
import Lox.Proofs.Usage.Survey

/-! A run looks up what the survey of its program lists, and nothing else.

Calls make no difference: a function comes from a place that has been surveyed as well.
-/

namespace Lox.Scoping

open Binding
open Grammar (SourceExpr SourceStmt)

/-- Every use that the survey lists is one of these. -/
def Survey.All (listed : Site × Use → Prop) (survey : Survey) : Prop :=
  ∀ entry ∈ survey.uses, listed entry

/-- All uses of two surveys are listed if those of each are. -/
theorem Survey.All.append {listed : Site × Use → Prop} {front back : Survey}
    : (front ++ back).All listed ↔ front.All listed ∧ back.All listed :=
  List.forall_mem_append

-----
-- The book

/-- All that was looked up is listed, and all that the functions can look up. -/
structure Watched.Listed (listed : Site × Use → Prop) (watched : Watched) : Prop where
  lookups : ∀ lookup ∈ watched.lookups, listed (lookup.site, lookup.use)
  origins
    : ∀ id, (surveyFunction (watched.originOf id).site (watched.originOf id).function).All listed

/-- The action looks up nothing but what is listed, and strikes out nothing of what was noted. -/
def Watch.Keeps (listed : Site × Use → Prop) {α : Type} (action : Watch α) : Prop :=
  ∀ before : Watched,
    before.Listed listed
    → (stateOf (action before)).Listed listed
      ∧ before.lookups <+: (stateOf (action before)).lookups

namespace Watch.Keeps

variable {listed : Site × Use → Prop} {α β : Type}

/-- An action that leaves the state as it is keeps the book. -/
theorem pure (value : α) : Keeps listed (Pure.pure value : Watch α) :=
  fun _ holds => ⟨holds, List.prefix_rfl⟩

/-- What two actions keep is kept by both in a row, whether the first fails or not. -/
theorem bind {action : Watch α} {next : α → Watch β} (front : Keeps listed action)
    (back : ∀ value, Keeps listed (next value))
    : Keeps listed (action >>= next) := by
  intro before holds
  have middle := front before holds
  cases ran : action before with
  | ok value between =>
      rw [ran] at middle
      rw [bind_ok ran]
      obtain ⟨last, further⟩ := back value between middle.1
      exact ⟨last, middle.2.trans further⟩
  | error fault between =>
      rw [ran] at middle
      rw [bind_error ran]
      exact middle

/-- Changing what an action yields changes nothing in the book. -/
theorem map {action : Watch α} (keeps : Keeps listed action) (change : α → β)
    : Keeps listed (change <$> action) :=
  keeps.bind fun value => pure (change value)

/-- What follows may depend on the book, which is in order. -/
theorem get {next : Watched → Watch β}
    (back : ∀ watched, watched.Listed listed → Keeps listed (next watched))
    : Keeps listed (MonadState.get >>= next) :=
  fun before holds => back before holds before holds

/-- What the machine does by itself keeps the book. -/
theorem lift (action : Run α) : Keeps listed (lift action) := by
  intro before holds
  unfold Watch.lift
  cases action before.machine <;> exact ⟨⟨holds.lookups, holds.origins⟩, List.prefix_rfl⟩

/-- Opening a scope keeps the book. -/
theorem openScope (frame : Frame) (parent : Nat) : Keeps listed (openScope frame parent) :=
  fun before holds =>
    lift (Run.newScope parent) { before with frameOf := _ } ⟨holds.lookups, holds.origins⟩

/-- A new function must come from a place that has been surveyed. -/
theorem newClosure {origin : Origin}
    (surveyed : (surveyFunction origin.site origin.function).All listed) (function : BoundLambda)
    (scope : Nat) (name : Option String) (isInitializer : Bool)
    : Keeps listed (newClosure origin function scope name isInitializer) := by
  intro before holds
  refine lift (Run.newClosure function scope name isInitializer)
    { before with originOf := setAt before.originOf before.machine.nextId origin }
    ⟨holds.lookups, fun id => ?_⟩
  simp only [setAt]
  split
  · exact surveyed
  · exact holds.origins id

/-- A bound method comes from where the method came from, so the book is kept. -/
theorem bindMethod (method : Closure) (receiver : Value)
    : Keeps listed (bindMethod method receiver) :=
  get fun _ holds =>
    (openScope _ _).bind fun _ =>
      (lift _).bind fun _ => newClosure (holds.origins method.id) _ _ _ _

/-- Completing a declaration keeps what was looked up. -/
theorem complete (site : Site) (name : Token) (value : Value)
    : Keeps listed (complete site name value) :=
  (lift _).bind fun _ _ holds => ⟨⟨holds.lookups, holds.origins⟩, List.prefix_rfl⟩

/-- A use that is listed may be noted down. -/
theorem note {site : Site} {use : Use} (member : listed (site, use)) {action : Watch α}
    (keeps : Keeps listed action)
    : Keeps listed (note site use action) := by
  intro before holds
  have after := keeps before holds
  have noted {watched : Watched} (holds : watched.Listed listed) (fault : Option Fault)
      : (noted watched (before.entry site use fault)).Listed listed := by
    refine ⟨fun lookup found => ?_, holds.origins⟩
    rcases List.mem_append.1 found with found | found
    · exact holds.lookups lookup found
    · obtain rfl := List.mem_singleton.1 found
      exact member
  unfold Watch.note
  cases ran : action before with
  | ok value between =>
      rw [ran] at after
      exact ⟨noted after.1 none, after.2.trans (List.prefix_append _ _)⟩
  | error fault between =>
      rw [ran] at after
      exact ⟨noted after.1 (some fault), after.2.trans (List.prefix_append _ _)⟩

/-- Running an action in another scope keeps what the action keeps. -/
theorem within (scope : Nat) {action : Watch α} (keeps : Keeps listed action)
    : Keeps listed (within scope action) := by
  intro before holds
  have after := keeps { before with machine := { before.machine with current := scope } }
    ⟨holds.lookups, holds.origins⟩
  unfold Watch.within
  simp only
  cases ran : action _ with
  | ok value between =>
      rw [ran] at after
      exact ⟨⟨after.1.lookups, after.1.origins⟩, after.2⟩
  | error fault between =>
      rw [ran] at after
      exact ⟨⟨after.1.lookups, after.1.origins⟩, after.2⟩

-----
-- Lookups

/-- A read notes its own use, which is listed. -/
theorem readVariable {site : Site} {use : Use} (member : listed (site, use))
    : Keeps listed (readVariable site use) :=
  note member (lift _)

/-- A write notes its own use, which is listed. -/
theorem writeVariable {site : Site} {name : Token} (member : listed (site, .write name))
    (value : Value)
    : Keeps listed (writeVariable site name value) :=
  note member (lift _)

/-- Reading a property notes nothing. -/
theorem readProperty (object : Value) (name : Token)
    : Keeps listed (readProperty object name) := by
  cases object with
  | object address lineage =>
      refine (lift _).bind fun field => ?_
      cases field with
      | some value => exact pure value
      | none =>
          simp only
          cases lineage.method? name.lexeme with
          | some method => exact (bindMethod method _).bind fun closure => pure _
          | none => exact lift _
  | literal | native | closure | «class» => exact lift (Run.failAt name .propertyOfNonInstance)

/-- Finding a method of the superclass notes nothing. -/
theorem superMethod (keyword : Reference (Option Nat)) (method : Token)
    : Keeps listed (superMethod keyword method) := by
  unfold Watch.superMethod
  cases keyword.binding with
  | none => exact lift _
  | some distance =>
      refine (lift _).bind fun superclass => get fun _ _ => ?_
      refine (lift _).bind fun scope => (lift _).bind fun receiver => ?_
      cases superclass with
      | «class» lineage =>
          simp only
          cases lineage.method? method.lexeme with
          | some found => exact (bindMethod found _).bind fun closure => pure _
          | none => exact lift _
      | literal | native | closure | object => exact lift _

/-- A `super` notes its own use, which is listed. -/
theorem readSuper {site : Site} {keyword method : Token}
    (member : listed (site, .super keyword method))
    : Keeps listed (readSuper site keyword method) :=
  note member (superMethod _ _)

end Watch.Keeps

-----
-- Watchers

/-- The watcher looks up nothing but what is listed, provided that it is given parts of which all
uses are listed. -/
structure Watcher.Confined (listed : Site × Use → Prop) (parts : Watcher) : Prop where
  evaluate
    : ∀ {site : Site} {expr : SourceExpr},
        (surveyExpr site expr).All listed → Watch.Keeps listed (parts.evaluate site expr)
  execute
    : ∀ {site : Site} {stmt : SourceStmt},
        (surveyStmt site stmt).All listed → Watch.Keeps listed (parts.execute site stmt)

/-- Without any nesting left nothing is noted. -/
theorem Watcher.confined_exhausted (listed : Site × Use → Prop)
    : Watcher.exhausted.Confined listed :=
  {
    evaluate := fun _ => .lift (throw .tooDeep : Run Value)
    execute := fun _ => .lift (throw .tooDeep : Run Completion)
  }

/-- The uses of a function are those of its body. -/
theorem all_surveyFunction {listed : Site × Use → Prop} {site : Site} {function : Lambda Unit}
    (all : (surveyFunction site function).All listed)
    : (surveyStmts (site.inside function) function.body).All listed := by
  obtain ⟨parameters, body⟩ := function
  exact (Survey.All.append.1 all).1

namespace Watcher.Confined

open Watch (Keeps)

variable {listed : Site × Use → Prop} {parts : Watcher} (confined : parts.Confined listed)

include confined

/-- Expressions in a row note listed uses, by induction on them. -/
theorem evaluateAll {exprs : List SourceExpr} {site : Site}
    (all : (surveyExprs site exprs).All listed)
    : Keeps listed (parts.evaluateAll site exprs) := by
  induction exprs generalizing site with
  | nil => exact .pure _
  | cons first rest ih =>
      obtain ⟨front, back⟩ := Survey.All.append.1 all
      exact (confined.evaluate front).bind fun _ => (ih back).bind fun _ => .pure _

/-- Statements in a row note listed uses, by induction on them. -/
theorem executeAll {stmts : List SourceStmt} {site : Site}
    (all : (surveyStmts site stmts).All listed)
    : Keeps listed (parts.executeAll site stmts) := by
  induction stmts generalizing site with
  | nil => exact .pure _
  | cons first rest ih =>
      obtain ⟨front, back⟩ := Survey.All.append.1 all
      refine (confined.execute front).bind fun completion => ?_
      cases completion with
      | normal => exact ih back
      | broke | returned => exact .pure _

/-- An expression that may be missing notes listed uses. -/
theorem evaluateOptional {value : Option SourceExpr} {site : Site}
    (all : (surveyOptional site value).All listed)
    : Keeps listed (parts.evaluateOptional site value) := by
  cases value with
  | none => exact .pure _
  | some value => exact confined.evaluate all

-----
-- Calls

/-- A function called from a listed origin notes what its body lists. -/
theorem invokeFrom {origin : Origin}
    (surveyed : (surveyFunction origin.site origin.function).All listed) (closure : Closure)
    (arguments : List Value)
    : Keeps listed (parts.invokeFrom origin closure arguments) := by
  refine (Keeps.openScope _ _).bind fun scope => (Keeps.lift _).bind fun _ => ?_
  refine (Keeps.within _ (confined.executeAll (all_surveyFunction surveyed))).bind
    fun completion => ?_
  split
  · exact .lift _
  · cases completion with
    | returned value => exact .pure _
    | normal | broke => exact .pure _

/-- A closure notes what the function that it comes from lists. -/
theorem invoke (closure : Closure) (arguments : List Value)
    : Keeps listed (parts.invoke closure arguments) :=
  .get fun _ holds => confined.invokeFrom (holds.origins closure.id) closure arguments

/-- An instance is made and its initializer notes what it lists. -/
theorem construct (lineage : Lineage) (arguments : List Value)
    : Keeps listed (parts.construct lineage arguments) := by
  refine (Keeps.lift _).bind fun object => ?_
  cases lineage.initializer? with
  | none => exact .pure _
  | some initializer =>
      exact (Keeps.bindMethod _ _).bind fun bound =>
        (confined.invoke bound arguments).bind fun _ => .pure _

/-- Applying a function or a class notes listed uses. -/
theorem apply (callee : Callable) (arguments : List Value)
    : Keeps listed (parts.apply callee arguments) := by
  cases callee with
  | closure function => exact confined.invoke function arguments
  | «class» lineage => exact confined.construct lineage arguments
  | native function =>
      cases function
      exact .lift Run.readClock

omit confined in
/-- The limit on open calls notes nothing. -/
theorem limitNesting (paren : Token) {call : Watch Value} (inner : Keeps listed call)
    : Keeps listed (Watcher.limitNesting paren call) := by
  intro before holds
  have after := inner before holds
  cases run : call before with
  | ok value between =>
      rw [run] at after
      rw [Watcher.limitNesting_ok run]
      exact after
  | error fault between =>
      rw [run] at after
      rw [Watcher.limitNesting_error run]
      exact after

/-- A call of any value notes listed uses, and none where it cannot be called. -/
theorem call (callee : Value) (arguments : List Value) (paren : Token)
    : Keeps listed (parts.call callee arguments paren) := by
  unfold Watcher.call
  cases callee.callable? with
  | none => exact .lift _
  | some callable =>
      simp only
      split
      · exact (Keeps.lift _).bind fun _ => limitNesting paren (confined.apply callable arguments)
      · exact .lift _

-----
-- Expressions

omit confined in
/-- A new closure remembers a function whose uses are listed. -/
theorem newFunction {site : Site} {function : Lambda Unit}
    (all : (surveyFunction site function).All listed) (scope : Nat) (name : Option String)
    (isInitializer : Bool)
    : Keeps listed (Watcher.newFunction site function scope name isInitializer) :=
  .newClosure all _ _ _ _

/-- An expression notes the uses that its survey lists, by cases on it. -/
theorem evaluateStep {site : Site} {expr : SourceExpr} (all : (surveyExpr site expr).All listed)
    : Keeps listed (parts.evaluateStep site expr) := by
  cases expr with
  | literal value => exact .pure _
  | grouping inner => exact confined.evaluate all
  | unary operator operand =>
      have inside : (surveyExpr (site.child 0) operand).All listed := all
      exact (confined.evaluate inside).bind fun _ => .lift _
  | binary left operator right =>
      obtain ⟨front, back⟩ := Survey.All.append.1 all
      exact (confined.evaluate front).bind fun _ => (confined.evaluate back).bind fun _ => .lift _
  | logical left operator right =>
      obtain ⟨front, back⟩ := Survey.All.append.1 all
      refine (confined.evaluate front).bind fun value => ?_
      split
      · exact .pure _
      · exact confined.evaluate back
  | conditional condition thenCase elseCase =>
      obtain ⟨front, last⟩ := Survey.All.append.1 all
      obtain ⟨tested, first⟩ := Survey.All.append.1 front
      refine (confined.evaluate tested).bind fun value => ?_
      split
      · exact confined.evaluate first
      · exact confined.evaluate last
  | «variable» target => exact .readVariable (all _ List.mem_cons_self)
  | assign target value =>
      obtain ⟨front, back⟩ := Survey.All.append.1 all
      exact (confined.evaluate front).bind fun assigned =>
        (Keeps.writeVariable (back _ List.mem_cons_self) assigned).bind fun _ => .pure _
  | call callee paren arguments =>
      obtain ⟨front, back⟩ := Survey.All.append.1 all
      exact (confined.evaluate front).bind fun callee =>
        (confined.evaluateAll back).bind fun values => confined.call callee values paren
  | get object name =>
      have inside : (surveyExpr (site.child 0) object).All listed := all
      exact (confined.evaluate inside).bind fun value => .readProperty value name
  | set object name value =>
      obtain ⟨front, back⟩ := Survey.All.append.1 all
      refine (confined.evaluate back).bind fun object => ?_
      cases object with
      | object address lineage =>
          exact (confined.evaluate front).bind fun _ => (Keeps.lift _).bind fun _ => .pure _
      | literal | native | closure | «class» => exact .lift (Run.failAt name .fieldOfNonInstance)
  | this keyword => exact .readVariable (all _ List.mem_cons_self)
  | super keyword method => exact .readSuper (all _ List.mem_cons_self)
  | function function =>
      exact (Keeps.lift _).bind fun scope =>
        (newFunction all scope none false).bind fun _ => .pure _

-----
-- Loops and classes

omit confined in
/-- A loop notes what its condition and its body note, by induction on the rounds that are left. -/
theorem repeatWhile {test : Watch Value} {body : Watch Completion} (tested : Keeps listed test)
    (repeated : Keeps listed body) (rounds : Nat)
    : Keeps listed (Watcher.repeatWhile test body rounds) := by
  induction rounds with
  | zero => exact .lift _
  | succ rounds ih =>
      refine tested.bind fun condition => ?_
      split
      · refine repeated.bind fun completion => ?_
        cases completion with
        | normal => exact ih
        | broke | returned => exact .pure _
      · exact .pure _

omit confined in
/-- A superclass clause notes the read of its name. -/
theorem findSuperclass {site : Site} {name : Token} {superclass : Option (Reference Unit)}
    (all : (surveyClause site name superclass).All listed)
    : Keeps listed (Watcher.findSuperclass site name superclass) := by
  cases superclass with
  | none => exact .pure _
  | some target =>
      refine Keeps.map ((Keeps.readVariable (all _ List.mem_cons_self)).bind fun value => ?_) _
      cases value with
      | «class» lineage => exact .pure _
      | literal | native | closure | object => exact .lift (Run.failAt _ .superclassNotClass)

omit confined in
/-- Methods are created from functions whose uses are listed, by induction on them. -/
theorem createMethods {methods : List (Method Unit)} {site : Site}
    (all : (surveyMethods site methods).All listed) (scope : Nat) (table : Table Closure)
    : Keeps listed (Watcher.createMethods site scope table methods) := by
  induction methods generalizing site table with
  | nil => exact .pure _
  | cons first rest ih =>
      obtain ⟨name, function⟩ := first
      obtain ⟨front, back⟩ := Survey.All.append.1 all
      exact (newFunction front _ _ _).bind fun closure => ih back _

omit confined in
/-- The scope of the methods notes nothing. -/
theorem methodScope (site : Site) (superclass : Option Lineage)
    : Keeps listed (Watcher.methodScope site superclass) := by
  refine (Keeps.lift _).bind fun current => ?_
  cases superclass with
  | none => exact .pure _
  | some lineage =>
      exact (Keeps.openScope _ _).bind fun scope => (Keeps.lift _).bind fun _ => .pure _

omit confined in
/-- A class declaration notes the use of its superclass clause. -/
theorem declareClass {site : Site} {name : Token} {superclass : Option (Reference Unit)}
    {methods : List (Method Unit)}
    (all : (surveyStmt site (.class name superclass methods)).All listed)
    : Keeps listed (Watcher.declareClass site name superclass methods) := by
  obtain ⟨clause, members⟩ := Survey.All.append.1 all
  refine (findSuperclass clause).bind fun lineage => (Keeps.lift _).bind fun _ => ?_
  have created : Keeps listed (Watcher.createClass site name superclass lineage methods) :=
    (methodScope site lineage).bind fun scope =>
      (createMethods members scope .empty).bind fun _ => (Keeps.lift _).bind fun _ => .pure _
  exact created.bind fun _ => (Keeps.lift _).bind fun _ => (Keeps.lift _).bind fun _ => .lift _

-----
-- Statements

/-- A statement notes the uses that its survey lists, by cases on it. -/
theorem executeStep (rounds : Nat) {site : Site} {stmt : SourceStmt}
    (all : (surveyStmt site stmt).All listed)
    : Keeps listed (Watcher.executeStep rounds parts site stmt) := by
  cases stmt with
  | expression value => exact (confined.evaluate all).bind fun _ => .pure _
  | print value =>
      exact (confined.evaluate all).bind fun _ => (Keeps.lift _).bind fun _ => .pure _
  | printLine value =>
      cases value with
      | none => exact (Keeps.lift _).bind fun _ => .pure _
      | some value =>
          exact (confined.evaluate all).bind fun _ => (Keeps.lift _).bind fun _ => .pure _
  | «variable» name initial =>
      exact (confined.evaluateOptional all).bind fun value =>
        (Keeps.complete site name value).bind fun _ => (Keeps.lift _).bind fun _ => .pure _
  | block statements =>
      have inside := confined.executeAll (Survey.All.append.1 all).1
      exact (Keeps.lift _).bind fun current =>
        (Keeps.openScope _ _).bind fun scope => .within scope inside
  | branch condition thenBranch elseBranch =>
      obtain ⟨front, last⟩ := Survey.All.append.1 all
      obtain ⟨tested, first⟩ := Survey.All.append.1 front
      refine (confined.evaluate tested).bind fun value => (Keeps.lift _).bind fun _ => ?_
      split
      · exact confined.execute first
      · cases elseBranch with
        | none => exact .pure _
        | some branch => exact confined.execute last
  | loop condition body =>
      obtain ⟨tested, repeated⟩ := Survey.All.append.1 all
      exact repeatWhile (confined.evaluate tested) (confined.execute repeated) rounds
  | breakLoop keyword => exact .pure _
  | returnValue keyword value => exact (confined.evaluateOptional all).bind fun _ => .pure _
  | function name function =>
      exact (Keeps.lift _).bind fun scope =>
        (newFunction all scope _ false).bind fun closure =>
          (Keeps.lift _).bind fun _ => (Keeps.lift _).bind fun _ => .pure _
  | «class» name superclass methods => exact (declareClass all).bind fun _ => .pure _

/-- A program notes the uses that its survey lists. -/
theorem executeProgram {stmts : List SourceStmt} {site : Site}
    (all : (surveyStmts site stmts).All listed)
    : Keeps listed (parts.executeProgram site stmts) := by
  induction stmts generalizing site with
  | nil => exact .pure _
  | cons first rest ih =>
      obtain ⟨front, back⟩ := Survey.All.append.1 all
      exact (confined.execute front).bind fun _ => ih back

end Watcher.Confined

/-- At all levels of nesting. -/
theorem Watcher.confined_ofNesting (listed : Site × Use → Prop) (rounds nesting : Nat)
    : (Watcher.ofNesting rounds nesting).Confined listed := by
  induction nesting with
  | zero => exact confined_exhausted listed
  | succ nesting ih => exact ⟨ih.evaluateStep, ih.executeStep rounds⟩

end Lox.Scoping
