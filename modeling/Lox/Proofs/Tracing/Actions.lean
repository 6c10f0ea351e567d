import Lox.Proofs.Machine
import Lox.Proofs.Running.Regular

/-! Runs on machines that are traced in different ways.

What a run tells of depends on the machine, but for what the machine knows of its trace. So two
machines that differ in nothing else tell of the same events, and what becomes of these is the only
difference between them in the end.
-/

namespace Lox

-----
-- Traces

/-- What a machine knows of its trace. -/
structure Tracing where
  level : Nat
  fileOpen : Bool
  file : Array TraceEvent
  console : Array TraceEvent

namespace Tracing

/-- Only events up to the trace level are told. -/
def tell (tracing : Tracing) (event : TraceEvent) : Tracing :=
  if event.level ≤ tracing.level then
    if tracing.fileOpen then { tracing with file := tracing.file.push event }
    else { tracing with console := tracing.console.push event }
  else
    tracing

def tellAll (tracing : Tracing) (events : List TraceEvent) : Tracing :=
  events.foldl tell tracing

/-- Telling two lists of events one behind the other tells them joined. -/
theorem tellAll_append (tracing : Tracing) (front back : List TraceEvent)
    : tracing.tellAll (front ++ back) = (tracing.tellAll front).tellAll back :=
  List.foldl_append

end Tracing

/-- The machine with another trace. -/
def Machine.traced (machine : Machine) (tracing : Tracing) : Machine :=
  {
    machine with
    traceLevel := tracing.level,
    traceFileOpen := tracing.fileOpen,
    fileTrace := tracing.file,
    consoleTrace := tracing.console
  }

def Machine.tracing (machine : Machine) : Tracing :=
  {
    level := machine.traceLevel,
    fileOpen := machine.traceFileOpen,
    file := machine.fileTrace,
    console := machine.consoleTrace
  }

/-- An event told to a traced machine goes to its tracing alone. -/
theorem Machine.told_traced (machine : Machine) (tracing : Tracing) (event : TraceEvent)
    : (machine.traced tracing).told event = machine.traced (tracing.tell event) := by
  unfold told Tracing.tell
  change (if event.level ≤ tracing.level then if tracing.fileOpen then _ else _ else _) = _
  split
  · split <;> rfl
  · rfl

namespace Running

-----
-- Actions

/-- The outcome of an action, with another trace. -/
def retraced {α : Type} (tracing : Tracing)
    : EStateM.Result Fault Machine α → EStateM.Result Fault Machine α
  | .ok value after => .ok value (after.traced tracing)
  | .error fault after => .error fault (after.traced tracing)

section

variable {α β : Type}

/-- However the machine is traced, the outcome is the same and so are the events told of. -/
def Traces (action : Run α) : Prop :=
  ∀ machine, ∃ events, ∀ tracing : Tracing,
    action (machine.traced tracing) = retraced (tracing.tellAll events) (action machine)

/-- The action tells of nothing, and looks at no trace. -/
def Silent (action : Run α) : Prop :=
  ∀ (machine : Machine) (tracing : Tracing),
    action (machine.traced tracing) = retraced tracing (action machine)

variable {action : Run α} {next : α → Run β}

/-- An action without events runs alike under every tracing. -/
theorem Silent.traces (silent : Silent action) : Traces action :=
  fun machine => ⟨[], silent machine⟩

namespace Traces

/-- Tracing does no harm to two actions in a row if it does none to either. -/
theorem bind (front : Traces action) (back : ∀ value, Traces (next value))
    : Traces (action >>= next) := by
  intro machine
  obtain ⟨events, traced⟩ := front machine
  cases run : action machine with
  | ok value between =>
      obtain ⟨later, tracedNext⟩ := back value between
      refine ⟨events ++ later, fun tracing => ?_⟩
      have first := traced tracing
      rw [run] at first
      rw [bind_ok run, bind_ok first, tracing.tellAll_append]
      exact tracedNext (tracing.tellAll events)
  | error fault between =>
      refine ⟨events, fun tracing => ?_⟩
      have first := traced tracing
      rw [run] at first
      rw [bind_error run, bind_error first]
      rfl

/-- Tracing does no harm inside of a scope, which is left in the same way. -/
theorem within (scope : Nat) (inside : Traces action) : Traces (Run.within scope action) := by
  intro machine
  obtain ⟨events, traced⟩ := inside { machine with current := scope }
  refine ⟨events, fun tracing => ?_⟩
  have run := traced tracing
  cases outcome : action { machine with current := scope } with
  | ok value after =>
      rw [outcome] at run
      rw [Run.within_ok outcome, Run.within_ok run]
      rfl
  | error fault after =>
      rw [outcome] at run
      rw [Run.within_error outcome, Run.within_error run]
      rfl

/-- Tracing does no harm inside of a call, and the limit on open calls counts alike. -/
theorem limitNesting (paren : Token) {action : Run Value} (inside : Traces action)
    : Traces (Evaluator.limitNesting paren action) := by
  intro machine
  obtain ⟨events, traced⟩ := inside machine
  refine ⟨events, fun tracing => ?_⟩
  unfold Evaluator.limitNesting
  rw [traced tracing]
  cases action machine with
  | ok value after => rfl
  | error fault after => cases fault <;> rfl

end Traces

namespace Silent

/-- A value alone tells nothing. -/
theorem pure (value : α) : Silent (Pure.pure value) :=
  fun _ _ => rfl

/-- A fault alone tells nothing. -/
theorem throw (fault : Fault) : Silent (MonadExcept.throw fault : Run α) :=
  fun _ _ => rfl

/-- Two silent actions in a row are silent. -/
theorem bind (front : Silent action) (back : ∀ value, Silent (next value))
    : Silent (action >>= next) := by
  intro machine tracing
  have first := front machine tracing
  cases run : action machine with
  | ok value between =>
      rw [run] at first
      rw [bind_ok run, bind_ok first]
      exact back value between tracing
  | error fault between =>
      rw [run] at first
      rw [bind_error run, bind_error first]
      rfl

/-- Looking at the machine is silent if it is not the trace that is looked at. -/
theorem get {next : Machine → Run α}
    (apart : ∀ machine tracing, next (machine.traced tracing) = next machine)
    (back : ∀ machine, Silent (next machine))
    : Silent (MonadState.get >>= next) := by
  intro machine tracing
  change next (machine.traced tracing) (machine.traced tracing)
    = retraced tracing (next machine machine)
  rw [apart]
  exact back machine machine tracing

end Silent

end

-----
-- Actions that tell of nothing

section

variable {α : Type}

/-- A failure at a token tells nothing. -/
theorem silent_failAt (token : Token) (problem : RuntimeProblem)
    : Silent (Run.failAt token problem : Run α) :=
  .throw _

/-- A result that is there already tells nothing, whichever it is. -/
theorem silent_ofExcept (result : Except RuntimeError α) : Silent (Run.ofExcept result) := by
  cases result with
  | ok value => exact .pure value
  | error error => exact .throw _

/-- The result of an access tells nothing, whichever it is. -/
theorem silent_ofAccess (name : Token) (result : Except AccessError α)
    : Silent (Run.ofAccess name result) := by
  cases result with
  | ok value => exact .pure value
  | error error => exact .throw _

end

/-- Reading the current scope tells nothing. -/
theorem silent_currentScope : Silent Run.currentScope :=
  fun _ _ => rfl

/-- What the program prints is no event of the trace. -/
theorem silent_print (text : String) : Silent (Run.print text) :=
  fun _ _ => rfl

/-- Reading the clock tells nothing. -/
theorem silent_readClock : Silent Run.readClock :=
  fun _ _ => rfl

/-- A new scope tells nothing by itself. -/
theorem silent_newScope (parent : Nat) : Silent (Run.newScope parent) :=
  fun _ _ => rfl

/-- A definition in a scope tells nothing. -/
theorem silent_defineIn (scope : Nat) (name : String) (value : Value)
    : Silent (Run.defineIn scope name value) :=
  fun _ _ => rfl

/-- A definition in the current scope tells nothing. -/
theorem silent_define (name : Token) (value : Value) : Silent (Run.define name value) :=
  silent_currentScope.bind fun _ => silent_defineIn _ _ _

/-- A fresh number tells nothing. -/
theorem silent_freshId : Silent Run.freshId :=
  fun _ _ => rfl

/-- Creating a function value tells nothing. -/
theorem silent_newClosure (function : BoundLambda) (scope : Nat) (name : Option String)
    (isInitializer : Bool)
    : Silent (Run.newClosure function scope name isInitializer) :=
  silent_freshId.bind fun _ => .pure _

/-- Binding a method to its receiver tells nothing. -/
theorem silent_bindMethod (method : Closure) (receiver : Value)
    : Silent (Run.bindMethod method receiver) :=
  (silent_newScope _).bind fun _ => (silent_defineIn _ _ _).bind fun _ => silent_newClosure _ _ _ _

/-- Creating an instance tells nothing. -/
theorem silent_newObject (lineage : Lineage) : Silent (Run.newObject lineage) :=
  fun _ _ => rfl

/-- Setting a field tells nothing. -/
theorem silent_setField (address : Nat) (name : String) (value : Value)
    : Silent (Run.setField address name value) :=
  fun _ _ => rfl

/-- Reading a field tells nothing. -/
theorem silent_field? (address : Nat) (name : String) : Silent (Run.field? address name) :=
  fun _ _ => rfl

/-- Reading the receiver of a method tells nothing. -/
theorem silent_receiverIn (scope : Nat) : Silent (Run.receiverIn scope) := by
  refine .get (fun _ _ => rfl) fun machine => ?_
  cases machine.scopes.cell? scope "this" with
  | none => exact .throw _
  | some receiver => exact .pure receiver

/-- An assignment along the enclosing scopes tells nothing. -/
theorem silent_assignFrom (scope : Nat) (name : Token) (value : Value)
    : Silent (Run.assignFrom scope name value) := by
  refine .get (fun _ _ => rfl) fun machine => ?_
  cases machine.scopes.holder? scope name.lexeme with
  | none => exact silent_failAt name _
  | some holder => exact silent_defineIn holder _ value

/-- Reading a variable tells nothing, found or not. -/
theorem silent_readVariable (target : Reference (Option Nat))
    : Silent (Run.readVariable target) := by
  refine .get (fun _ _ => rfl) fun machine => ?_
  cases target.binding with
  | some distance => exact silent_ofAccess _ _
  | none =>
      simp only
      cases machine.scopes.get? globalScope target.name.lexeme with
      | none => exact silent_failAt _ _
      | some value => exact .pure value

/-- Writing a variable tells nothing, found or not. -/
theorem silent_writeVariable (target : Reference (Option Nat)) (value : Value)
    : Silent (Run.writeVariable target value) := by
  unfold Run.writeVariable
  cases target.binding with
  | none => exact silent_assignFrom globalScope target.name value
  | some distance =>
      refine .get (fun _ _ => rfl) fun machine => ?_
      exact (silent_ofAccess _ _).bind fun scope => silent_defineIn scope _ value

/-- Reading a property tells nothing, whether a field or a method answers. -/
theorem silent_readProperty (object : Value) (name : Token)
    : Silent (Run.readProperty object name) := by
  cases object with
  | object address lineage =>
      refine (silent_field? address name.lexeme).bind fun found => ?_
      cases found with
      | some value => exact .pure value
      | none =>
          simp only
          cases lineage.method? name.lexeme with
          | none => exact silent_failAt name _
          | some method => exact (silent_bindMethod method _).bind fun _ => .pure _
  | _ => exact silent_failAt name _

/-- Reading a method of the superclass tells nothing. -/
theorem silent_readSuper (keyword : Reference (Option Nat)) (method : Token)
    : Silent (Run.readSuper keyword method) := by
  unfold Run.readSuper
  cases keyword.binding with
  | none => exact .throw _
  | some distance =>
      refine (silent_readVariable keyword).bind fun superclass => ?_
      refine .get (fun _ _ => rfl) fun machine => (silent_ofAccess _ _).bind fun scope => ?_
      refine (silent_receiverIn scope).bind fun receiver => ?_
      cases superclass with
      | «class» lineage =>
          simp only
          cases lineage.method? method.lexeme with
          | none => exact silent_failAt method _
          | some found => exact (silent_bindMethod found receiver).bind fun _ => .pure _
      | _ => exact .throw _

/-- Definitions in a row tell nothing, by induction on them. -/
theorem silent_defineAll (scope : Nat) (bindings : List (Token × Value))
    : Silent (Evaluator.defineAll scope bindings) := by
  induction bindings with
  | nil => exact .pure ()
  | cons first rest ih => exact (silent_defineIn scope _ _).bind fun _ => ih

/-- Opening a scope with its bindings tells nothing. -/
theorem silent_openScope (parent : Nat) (bindings : List (Token × Value))
    : Silent (openScope parent bindings) :=
  (silent_newScope parent).bind fun _ => (silent_defineAll _ bindings).bind fun _ => .pure _

-----
-- Classes

/-- Looking up the superclass tells nothing, whether the clause is there or not. -/
theorem silent_findSuperclass (superclass : Option (Reference (Option Nat)))
    : Silent (Evaluator.findSuperclass superclass) := by
  cases superclass with
  | none => exact .pure none
  | some target =>
      have found : Silent (Evaluator.readSuperclass target) := by
        refine (silent_readVariable target).bind fun value => ?_
        cases value with
        | «class» lineage => exact .pure lineage
        | _ => exact silent_failAt _ _
      exact found.bind fun _ => .pure _

/-- Creating the methods of a class tells nothing, by induction on them. -/
theorem silent_createMethods (scope : Nat) (table : Table Closure)
    (methods : List (Method (Option Nat)))
    : Silent (Evaluator.createMethods scope table methods) := by
  induction methods generalizing table with
  | nil => exact .pure table
  | cons first rest ih => exact (silent_newClosure _ _ _ _).bind fun _ => ih _

/-- Creating a class from its methods tells nothing. -/
theorem silent_createClass (name : Token) (superclass : Option Lineage)
    (methods : List (Method (Option Nat)))
    : Silent (Evaluator.createClass name superclass methods) := by
  have scope : Silent (Evaluator.methodScope superclass) := by
    refine silent_currentScope.bind fun current => ?_
    cases superclass with
    | none => exact .pure current
    | some lineage =>
        exact (silent_newScope current).bind fun _ => (silent_defineIn _ _ _).bind fun _ => .pure _
  refine scope.bind fun _ => (silent_createMethods _ _ methods).bind fun _ => ?_
  refine silent_freshId.bind fun _ => ?_
  cases superclass <;> exact .pure _

-----
-- All actions

/-- Telling an event does no harm itself. -/
theorem traces_tell (event : TraceEvent) : Traces (Run.tell event) := by
  refine fun machine => ⟨[event], fun tracing => ?_⟩
  obtain ⟨file, console, told⟩ := machine.told_eq event
  change EStateM.Result.ok () ((machine.traced tracing).told event)
    = .ok () ((machine.told event).traced (tracing.tell event))
  rw [machine.told_traced, told]
  rfl

/-- A class declaration tells its events and is declared alike under every tracing. -/
theorem traces_declareClass (name : Token) (superclass : Option (Reference (Option Nat)))
    (methods : List (Method (Option Nat)))
    : Traces (Evaluator.declareClass name superclass methods) := by
  refine (silent_findSuperclass superclass).traces.bind fun found => ?_
  refine (silent_define name .nil).traces.bind fun _ => ?_
  refine (silent_createClass name found methods).traces.bind fun lineage => ?_
  refine silent_currentScope.traces.bind fun current => ?_
  exact (silent_assignFrom current name _).traces.bind fun _ => traces_tell _

/-- Whatever is run, it comes to the same on all machines that differ in their traces only. -/
theorem conduct_traces : Conduct Traces where
  currentScope := silent_currentScope.traces
  print text := (silent_print text).traces
  tell := traces_tell
  readClock := silent_readClock.traces
  define name value := (silent_define name value).traces
  failAt token problem := (silent_failAt token problem).traces
  ofExcept result := (silent_ofExcept result).traces
  readVariable target := (silent_readVariable target).traces
  writeVariable target value := (silent_writeVariable target value).traces
  newClosure function scope name isInitializer :=
    (silent_newClosure function scope name isInitializer).traces
  bindMethod method receiver := (silent_bindMethod method receiver).traces
  receiverIn scope := (silent_receiverIn scope).traces
  newObject lineage := (silent_newObject lineage).traces
  setField address name value := (silent_setField address name value).traces
  readProperty object name := (silent_readProperty object name).traces
  readSuper keyword method := (silent_readSuper keyword method).traces
  declareClass := traces_declareClass
  tooManyRounds := (Silent.throw _).traces
  pure value := (Silent.pure value).traces
  bind := Traces.bind
  tooDeep := (Silent.throw _).traces
  openScope parent bindings := (silent_openScope parent bindings).traces
  within scope := Traces.within scope
  limitNesting paren := Traces.limitNesting paren

end Running

end Lox
