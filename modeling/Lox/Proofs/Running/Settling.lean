import Lox.Proofs.Machine
import Lox.Proofs.Running.Regular
import Lox.Proofs.Scope.Forest

/-! Single actions of the machine happen as a whole or not at all.

An action that fails has changed nothing yet: it looks up all that can be missing before it writes
anywhere. Scripts do nothing by themselves but through such actions.
-/

namespace Lox.Running

-----
-- Machines before and after

/-- Scopes and definitions stay, and the machine is in the scope it was in. -/
structure Widens (before after : Machine) : Prop where
  current : after.current = before.current
  size : before.scopes.size ≤ after.scopes.size
  cell
    : ∀ scope name,
        (before.scopes.cell? scope name).isSome = true
        → (after.scopes.cell? scope name).isSome = true

namespace Widens

/-- A machine widens itself. -/
theorem refl (machine : Machine) : Widens machine machine :=
  ⟨rfl, Nat.le_refl _, fun _ _ => id⟩

/-- A machine that is widened twice is widened. -/
theorem trans {before between after : Machine} (front : Widens before between)
    (back : Widens between after)
    : Widens before after where
  current := back.current.trans front.current
  size := Nat.le_trans front.size back.size
  cell scope name := back.cell scope name ∘ front.cell scope name

/-- Giving a name a value widens the machine. -/
theorem put (machine : Machine) (scope : Nat) (name : String) (value : Value)
    : Widens machine { machine with scopes := machine.scopes.put scope name value } where
  current := rfl
  size := Nat.le_of_eq (Forest.size_put _ _ _ _).symm
  cell _ _ := Forest.cell?_put_isSome _

/-- Opening a scope widens the machine. -/
theorem push (machine : Machine) (parent : Option Nat)
    : Widens machine { machine with scopes := machine.scopes.push parent } where
  current := rfl
  size := Nat.le_of_lt (Nat.lt_of_lt_of_eq (Nat.lt_succ_self _) (Forest.size_push _ _).symm)
  cell scope name found := (congrArg Option.isSome (Forest.cell?_push _ _ scope name)).trans found

end Widens

-----
-- Three kinds of actions

section

variable {α β : Type}

/-- The action succeeds wherever it is run. -/
def Succeeds (action : Run α) : Prop :=
  ∀ machine, ∃ value after, action machine = .ok value after ∧ Widens machine after

/-- The action changes nothing, whether it fails or not. -/
def Peeks (action : Run α) : Prop :=
  ∀ machine,
    (∃ value, action machine = .ok value machine) ∨ ∃ fault, action machine = .error fault machine

/-- On a machine that is in one of its scopes, the action fails only without having changed
anything. -/
def AllOrNothing (action : Run α) : Prop :=
  ∀ machine,
    machine.current < machine.scopes.size
    → (∃ value after, action machine = .ok value after ∧ Widens machine after)
      ∨ ∃ fault, action machine = .error fault machine

variable {action : Run α} {next : α → Run β}

namespace Succeeds

/-- Doing nothing succeeds. -/
theorem pure (value : α) : Succeeds (Pure.pure value) :=
  fun machine => ⟨value, machine, rfl, .refl machine⟩

/-- Two actions in a row succeed if each does. -/
theorem bind (first : Succeeds action) (second : ∀ value, Succeeds (next value))
    : Succeeds (action >>= next) := by
  intro machine
  obtain ⟨value, between, run, widens⟩ := first machine
  obtain ⟨result, after, runNext, further⟩ := second value between
  exact ⟨result, after, (bind_ok run).trans runNext, widens.trans further⟩

/-- An action that always succeeds never fails halfway. -/
theorem allOrNothing (succeeds : Succeeds action) : AllOrNothing action :=
  fun machine _ => .inl (succeeds machine)

end Succeeds

namespace Peeks

/-- Doing nothing changes nothing. -/
theorem pure (value : α) : Peeks (Pure.pure value) :=
  fun _ => .inl ⟨value, rfl⟩

/-- Failing changes nothing. -/
theorem throw (fault : Fault) : Peeks (MonadExcept.throw fault : Run α) :=
  fun _ => .inr ⟨fault, rfl⟩

/-- Looking at the machine changes nothing. -/
theorem get : Peeks (MonadState.get : Run Machine) :=
  fun machine => .inl ⟨machine, rfl⟩

/-- Two actions that change nothing change nothing in a row. -/
theorem bind (first : Peeks action) (second : ∀ value, Peeks (next value))
    : Peeks (action >>= next) := by
  intro machine
  rcases first machine with ⟨value, run⟩ | ⟨fault, run⟩
  · rw [bind_ok run]
    exact second value machine
  · exact .inr ⟨fault, bind_error run⟩

/-- Behind an action that changes nothing an action still changes all or nothing. -/
theorem bindAllOrNothing (first : Peeks action) (second : ∀ value, AllOrNothing (next value))
    : AllOrNothing (action >>= next) := by
  intro machine inside
  rcases first machine with ⟨value, run⟩ | ⟨fault, run⟩
  · rw [bind_ok run]
    exact second value machine inside
  · exact .inr ⟨fault, bind_error run⟩

/-- Changing what an action yields changes nothing on the machine. -/
theorem map (peeks : Peeks action) (change : α → β) : Peeks (change <$> action) :=
  peeks.bind fun value => .pure (change value)

/-- An action that changes nothing fails without having changed anything. -/
theorem allOrNothing (peeks : Peeks action) : AllOrNothing action := by
  intro machine _
  rcases peeks machine with ⟨value, run⟩ | failed
  · exact .inl ⟨value, machine, run, .refl machine⟩
  · exact .inr failed

end Peeks

end

-----
-- Actions that look something up

section

variable {α : Type}

/-- An error of the program changes nothing by itself. -/
theorem peeks_failAt (token : Token) (problem : RuntimeProblem)
    : Peeks (Run.failAt token problem : Run α) :=
  .throw _

/-- What an operator yields changes nothing. -/
theorem peeks_ofExcept (result : Except RuntimeError α) : Peeks (Run.ofExcept result) := by
  cases result with
  | ok value => exact .pure value
  | error error => exact .throw _

/-- What an access to scopes yields changes nothing. -/
theorem peeks_ofAccess (name : Token) (result : Except AccessError α)
    : Peeks (Run.ofAccess name result) := by
  cases result with
  | ok value => exact .pure value
  | error error => exact .throw _

/-- Reading a variable changes nothing, whether it is there or not. -/
theorem peeks_readVariable (target : Reference (Option Nat))
    : Peeks (Run.readVariable target) := by
  obtain ⟨name, binding⟩ := target
  refine .bind .get fun machine => ?_
  cases binding with
  | some distance => exact peeks_ofAccess _ _
  | none =>
      simp only
      cases machine.scopes.get? globalScope name.lexeme with
      | some value => exact .pure value
      | none => exact peeks_failAt _ _

/-- Looking for the receiver changes nothing, whether it is there or not. -/
theorem peeks_receiverIn (scope : Nat) : Peeks (Run.receiverIn scope) := by
  refine .bind .get fun machine => ?_
  cases machine.scopes.cell? scope "this" with
  | some receiver => exact .pure receiver
  | none => exact .throw _

/-- Looking for a field changes nothing. -/
theorem peeks_field? (address : Nat) (name : String) : Peeks (Run.field? address name) :=
  .bind .get fun _ => .pure _

/-- Reading a superclass changes nothing, whether it is a class or not. -/
theorem peeks_readSuperclass (target : Reference (Option Nat))
    : Peeks (Evaluator.readSuperclass target) := by
  refine .bind (peeks_readVariable target) fun value => ?_
  cases value with
  | «class» lineage => exact .pure lineage
  | _ => exact peeks_failAt _ _

/-- A superclass clause changes nothing, whether it is there or not. -/
theorem peeks_findSuperclass (superclass : Option (Reference (Option Nat)))
    : Peeks (Evaluator.findSuperclass superclass) := by
  cases superclass with
  | none => exact .pure none
  | some target => exact (peeks_readSuperclass target).map some

end

-----
-- Actions that always succeed

/-- The current scope can always be asked for. -/
theorem succeeds_currentScope : Succeeds Run.currentScope :=
  fun machine => ⟨machine.current, machine, rfl, .refl machine⟩

/-- Printing succeeds. -/
theorem succeeds_print (text : String) : Succeeds (Run.print text) :=
  fun _ => ⟨(), _, rfl, rfl, Nat.le_refl _, fun _ _ => id⟩

/-- Telling an event succeeds, to the file or to the console. -/
theorem succeeds_tell (event : TraceEvent) : Succeeds (Run.tell event) := by
  intro machine
  obtain ⟨fileTrace, consoleTrace, told⟩ := machine.told_eq event
  refine ⟨(), machine.told event, rfl, ?_⟩
  rw [told]
  exact ⟨rfl, Nat.le_refl _, fun _ _ => id⟩

/-- The clock can always be read. -/
theorem succeeds_readClock : Succeeds Run.readClock :=
  fun _ => ⟨_, _, rfl, rfl, Nat.le_refl _, fun _ _ => id⟩

/-- Opening a scope succeeds and keeps the others. -/
theorem succeeds_newScope (parent : Nat) : Succeeds (Run.newScope parent) :=
  fun machine => ⟨_, _, rfl, .push machine (some parent)⟩

/-- Defining a name in a scope succeeds. -/
theorem succeeds_defineIn (scope : Nat) (name : String) (value : Value)
    : Succeeds (Run.defineIn scope name value) :=
  fun machine => ⟨(), _, rfl, .put machine scope name value⟩

/-- Defining a variable succeeds. -/
theorem succeeds_define (name : Token) (value : Value) : Succeeds (Run.define name value) :=
  succeeds_currentScope.bind fun scope => succeeds_defineIn scope name.lexeme value

/-- A new number can always be had. -/
theorem succeeds_freshId : Succeeds Run.freshId :=
  fun _ => ⟨_, _, rfl, rfl, Nat.le_refl _, fun _ _ => id⟩

/-- Creating a function succeeds. -/
theorem succeeds_newClosure (function : BoundLambda) (scope : Nat) (name : Option String)
    (isInitializer : Bool)
    : Succeeds (Run.newClosure function scope name isInitializer) :=
  succeeds_freshId.bind fun _ => .pure _

/-- Binding a method succeeds and opens a scope for its receiver. -/
theorem succeeds_bindMethod (method : Closure) (receiver : Value)
    : Succeeds (Run.bindMethod method receiver) :=
  (succeeds_newScope method.scope).bind fun scope =>
    (succeeds_defineIn scope "this" receiver).bind fun _ => succeeds_newClosure _ _ _ _

/-- Creating an instance succeeds. -/
theorem succeeds_newObject (lineage : Lineage) : Succeeds (Run.newObject lineage) :=
  fun _ => ⟨_, _, rfl, rfl, Nat.le_refl _, fun _ _ => id⟩

/-- Setting a field succeeds. -/
theorem succeeds_setField (address : Nat) (name : String) (value : Value)
    : Succeeds (Run.setField address name value) :=
  fun _ => ⟨(), _, rfl, rfl, Nat.le_refl _, fun _ _ => id⟩

/-- The scope of methods can always be opened. -/
theorem succeeds_methodScope (superclass : Option Lineage)
    : Succeeds (Evaluator.methodScope superclass) := by
  refine succeeds_currentScope.bind fun current => ?_
  cases superclass with
  | none => exact .pure current
  | some lineage =>
      exact (succeeds_newScope current).bind fun scope =>
        (succeeds_defineIn scope "super" _).bind fun _ => .pure scope

/-- Creating methods succeeds, by induction on the methods. -/
theorem succeeds_createMethods (scope : Nat) (table : Table Closure)
    (methods : List (Method (Option Nat)))
    : Succeeds (Evaluator.createMethods scope table methods) := by
  induction methods generalizing table with
  | nil => exact .pure table
  | cons method rest ih => exact (succeeds_newClosure _ _ _ _).bind fun _ => ih _

/-- Creating a class succeeds once its superclass is known. -/
theorem succeeds_createClass (name : Token) (superclass : Option Lineage)
    (methods : List (Method (Option Nat)))
    : Succeeds (Evaluator.createClass name superclass methods) :=
  (succeeds_methodScope superclass).bind fun scope =>
    (succeeds_createMethods scope .empty methods).bind fun _ =>
      succeeds_freshId.bind fun _ => .pure _

-----
-- Actions that write once nothing can be missing any more

/-- An assignment that finds no variable changes nothing. -/
theorem allOrNothing_assignFrom (scope : Nat) (name : Token) (value : Value)
    : AllOrNothing (Run.assignFrom scope name value) := by
  refine Peeks.get.bindAllOrNothing fun machine => ?_
  cases machine.scopes.holder? scope name.lexeme with
  | some holder => exact (succeeds_defineIn holder name.lexeme value).allOrNothing
  | none => exact (peeks_failAt name _).allOrNothing

/-- Writing a variable changes all or nothing, whether it is bound to a scope or not. -/
theorem allOrNothing_writeVariable (target : Reference (Option Nat)) (value : Value)
    : AllOrNothing (Run.writeVariable target value) := by
  unfold Run.writeVariable
  cases target.binding with
  | none => exact allOrNothing_assignFrom globalScope target.name value
  | some distance =>
      refine Peeks.get.bindAllOrNothing fun machine => ?_
      exact (peeks_ofAccess _ _).bindAllOrNothing fun scope =>
        (succeeds_defineIn scope _ value).allOrNothing

/-- Reading a property changes all or nothing: a method is bound or the property is missing. -/
theorem allOrNothing_readProperty (object : Value) (name : Token)
    : AllOrNothing (Run.readProperty object name) := by
  cases object with
  | object address lineage =>
      refine (peeks_field? address name.lexeme).bindAllOrNothing fun found => ?_
      cases found with
      | some value => exact (Succeeds.pure value).allOrNothing
      | none =>
          simp only
          cases lineage.method? name.lexeme with
          | some method =>
              exact ((succeeds_bindMethod method _).bind fun _ => .pure _).allOrNothing
          | none => exact (peeks_failAt name _).allOrNothing
  | _ => exact (peeks_failAt name _).allOrNothing

/-- Reading a method of the superclass changes all or nothing. -/
theorem allOrNothing_readSuper (keyword : Reference (Option Nat)) (method : Token)
    : AllOrNothing (Run.readSuper keyword method) := by
  unfold Run.readSuper
  cases keyword.binding with
  | none => exact (Peeks.throw .unboundSuper).allOrNothing
  | some distance =>
      refine (peeks_readVariable keyword).bindAllOrNothing fun superclass => ?_
      refine Peeks.get.bindAllOrNothing fun machine => ?_
      refine (peeks_ofAccess _ _).bindAllOrNothing fun scope => ?_
      refine (peeks_receiverIn scope).bindAllOrNothing fun receiver => ?_
      cases superclass with
      | «class» lineage =>
          simp only
          cases lineage.method? method.lexeme with
          | some found =>
              exact ((succeeds_bindMethod found receiver).bind fun _ => .pure _).allOrNothing
          | none => exact (peeks_failAt method _).allOrNothing
      | _ => exact (Peeks.throw .superNotClass).allOrNothing

/-- A class is assigned to the name that was defined for it just before. -/
theorem allOrNothing_declareClass (name : Token) (superclass : Option (Reference (Option Nat)))
    (methods : List (Method (Option Nat)))
    : AllOrNothing (Evaluator.declareClass name superclass methods) := by
  refine (peeks_findSuperclass superclass).bindAllOrNothing fun found machine inside => .inl ?_
  let defined : Machine :=
    { machine with scopes := machine.scopes.put machine.current name.lexeme .nil }
  have define : Run.define name .nil machine = .ok () defined := rfl
  have wider : Widens machine defined := .put machine machine.current name.lexeme .nil
  obtain ⟨lineage, created, create, further⟩ := succeeds_createClass name found methods defined
  have held : (created.scopes.cell? created.current name.lexeme).isSome = true := by
    rw [further.current]
    refine further.cell _ _ ?_
    change ((machine.scopes.put machine.current name.lexeme .nil).cell? machine.current
      name.lexeme).isSome = true
    rw [Forest.cell?_put_self _ inside]
    rfl
  have current : Run.currentScope created = .ok created.current created := rfl
  have assign
      : Run.assignFrom created.current name (.class lineage) created
          = Run.defineIn created.current name.lexeme (.class lineage) created :=
    Run.assignFrom_held (Forest.holder?_of_isSome held)
  obtain ⟨_, assigned, write, beyond⟩ :=
    succeeds_defineIn created.current name.lexeme (.class lineage) created
  obtain ⟨_, told, tell, last⟩ := succeeds_tell
    (.defineClass name.lexeme (found.map Lineage.name) lineage.head.methods.size) assigned
  refine ⟨(), told, ?_, ((wider.trans further).trans beyond).trans last⟩
  refine (bind_ok define).trans ((bind_ok create).trans ((bind_ok current).trans ?_))
  exact (bind_ok (assign.trans write)).trans tell

/-- Scripts do nothing by halves. -/
theorem acts_allOrNothing : Acts AllOrNothing where
  currentScope := succeeds_currentScope.allOrNothing
  print text := (succeeds_print text).allOrNothing
  tell event := (succeeds_tell event).allOrNothing
  readClock := succeeds_readClock.allOrNothing
  define name value := (succeeds_define name value).allOrNothing
  failAt token problem := (peeks_failAt token problem).allOrNothing
  ofExcept result := (peeks_ofExcept result).allOrNothing
  readVariable target := (peeks_readVariable target).allOrNothing
  writeVariable := allOrNothing_writeVariable
  newClosure function scope name isInitializer :=
    (succeeds_newClosure function scope name isInitializer).allOrNothing
  bindMethod method receiver := (succeeds_bindMethod method receiver).allOrNothing
  receiverIn scope := (peeks_receiverIn scope).allOrNothing
  newObject lineage := (succeeds_newObject lineage).allOrNothing
  setField address name value := (succeeds_setField address name value).allOrNothing
  readProperty := allOrNothing_readProperty
  readSuper := allOrNothing_readSuper
  declareClass := allOrNothing_declareClass
  tooManyRounds := (Peeks.throw _).allOrNothing

end Lox.Running
