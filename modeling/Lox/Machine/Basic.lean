import Lox.Machine.Trace
import Lox.Scope.Forest
import Lox.Value.Operator

/-! The machine that runs programs: its state, how a step can fail, and its single actions. -/

namespace Lox

-----
-- State

/-- Everything that a run can change, and the settings it runs under. -/
structure Machine where
  scopes : Forest Value
  /-- The fields of every instance, by its address. -/
  objects : Array (Table Value)
  /-- The scope that the statement being executed stands in. -/
  current : Nat
  /-- The number that the next function or class is created with. -/
  nextId : Nat
  /-- What the running program has printed. -/
  output : String
  traceLevel : Nat
  /-- Events are told to a file while it is open, and to the console afterwards. -/
  traceFileOpen : Bool
  fileTrace : Array TraceEvent
  consoleTrace : Array TraceEvent
  /-- What the clock shows when it is read for the first time, the second time and so on. -/
  readings : Nat → Float
  readingsTaken : Nat

/-- The scope outside of all others. -/
def globalScope : Nat := 0

/-- A machine that has run nothing. Its only scope holds the native functions. -/
def Machine.start (traceLevel : Nat) (readings : Nat → Float) : Machine :=
  {
    scopes :=
      (Forest.empty.push none).put globalScope Native.clock.name (.native .clock),
    objects := #[],
    current := globalScope,
    nextId := 0,
    output := "",
    traceLevel,
    traceFileOpen := 0 < traceLevel,
    fileTrace := #[],
    consoleTrace := #[],
    readings,
    readingsTaken := 0
  }

def Machine.closeTrace (machine : Machine) : Machine :=
  { machine with traceFileOpen := false }

/-- Only events up to the trace level are told. -/
def Machine.told (machine : Machine) (event : TraceEvent) : Machine :=
  if event.level ≤ machine.traceLevel then
    if machine.traceFileOpen then
      { machine with fileTrace := machine.fileTrace.push event }
    else
      { machine with consoleTrace := machine.consoleTrace.push event }
  else
    machine

-----
-- Failing

/-- Why a run stops before its end. Only runtime errors are the program's own doing. -/
inductive Fault where
  | runtime (error : RuntimeError)
  /-- Evaluation is nested more deeply than the machine goes. -/
  | tooDeep
  /-- A loop takes more rounds than the machine waits for. -/
  | tooManyRounds
  | noEnclosingScope (distance : Nat)
  | unboundSuper
  | superNotClass
  | receiverMissing
deriving DecidableEq, Repr

def Fault.text : Fault → String
  | .runtime error => error.text
  | .tooDeep => "evaluation is nested too deeply"
  | .tooManyRounds => "a loop does not end"
  | .noEnclosingScope distance => "no enclosing scope at distance " ++ toString distance
  | .unboundSuper => "a reference to super has no scope"
  | .superNotClass => "the value of super is no class"
  | .receiverMissing => "a method has no receiver"

/-- An action of the machine. What it did before it failed stays done. -/
abbrev Run (α : Type) := EStateM Fault Machine α

namespace Run

def failAt {α : Type} (token : Token) (problem : RuntimeProblem) : Run α :=
  throw (.runtime { token, problem })

def ofExcept {α : Type} : Except RuntimeError α → Run α
  | .ok value => return value
  | .error error => throw (.runtime error)

-----
-- Output and trace

def print (text : String) : Run Unit :=
  modify fun machine => { machine with output := machine.output ++ text }

def tell (event : TraceEvent) : Run Unit :=
  modify fun machine => machine.told event

def readClock : Run Value :=
  modifyGet fun machine =>
    (.number (machine.readings machine.readingsTaken),
      { machine with readingsTaken := machine.readingsTaken + 1 })

-----
-- Scopes

def currentScope : Run Nat :=
  return (← get).current

def newScope (parent : Nat) : Run Nat :=
  modifyGet fun machine =>
    (machine.scopes.size, { machine with scopes := machine.scopes.push (some parent) })

def defineIn (scope : Nat) (name : String) (value : Value) : Run Unit :=
  modify fun machine => { machine with scopes := machine.scopes.put scope name value }

def define (name : Token) (value : Value) : Run Unit := do
  defineIn (← currentScope) name.lexeme value

/-- Runs an action in another scope and comes back, also when the action fails. -/
def within {α : Type} (scope : Nat) (action : Run α) : Run α :=
  fun machine =>
    let previous := machine.current
    match action { machine with current := scope } with
    | .ok value after => .ok value { after with current := previous }
    | .error fault after => .error fault { after with current := previous }

def accessFault (name : Token) : AccessError → Fault
  | .undefined => .runtime { token := name, problem := .undefinedVariable }
  | .noEnclosingScope distance => .noEnclosingScope distance

/-- The outcome of looking for something in the scopes on account of a name. -/
def ofAccess {α : Type} (name : Token) : Except AccessError α → Run α
  | .ok value => return value
  | .error error => throw (accessFault name error)

/-- Overwrites the nearest definition of a name outwards from a scope. -/
def assignFrom (scope : Nat) (name : Token) (value : Value) : Run Unit := do
  match (← get).scopes.holder? scope name.lexeme with
  | some holder => defineIn holder name.lexeme value
  | none => failAt name .undefinedVariable

/-- A name bound to a distance lives in that scope alone, and any other name is global. -/
def readVariable (target : Reference (Option Nat)) : Run Value := do
  let machine ← get
  let name := target.name
  match target.binding with
  | some distance => ofAccess name (machine.scopes.valueAt machine.current distance name.lexeme)
  | none =>
      match machine.scopes.get? globalScope name.lexeme with
      | some value => return value
      | none => failAt name .undefinedVariable

def writeVariable (target : Reference (Option Nat)) (value : Value) : Run Unit := do
  match target.binding with
  | none => assignFrom globalScope target.name value
  | some distance =>
      let machine ← get
      let scope ← ofAccess target.name (machine.scopes.ancestor machine.current distance)
      defineIn scope target.name.lexeme value

-----
-- Functions and instances

def freshId : Run Nat :=
  modifyGet fun machine => (machine.nextId, { machine with nextId := machine.nextId + 1 })

def newClosure (function : BoundLambda) (scope : Nat) (name : Option String)
    (isInitializer : Bool)
    : Run Closure := do
  return { id := ← freshId, function, scope, name, isInitializer }

/-- A method bound to its receiver sees the receiver as `this` in a scope of its own. -/
def bindMethod (method : Closure) (receiver : Value) : Run Closure := do
  let scope ← newScope method.scope
  defineIn scope "this" receiver
  newClosure method.function scope method.name method.isInitializer

/-- The receiver that a bound method was given. -/
def receiverIn (scope : Nat) : Run Value := do
  match (← get).scopes.cell? scope "this" with
  | some receiver => return receiver
  | none => throw .receiverMissing

def newObject (lineage : Lineage) : Run Value :=
  modifyGet fun machine =>
    (.object machine.objects.size lineage,
      { machine with objects := machine.objects.push .empty })

def field? (address : Nat) (name : String) : Run (Option Value) :=
  return (← get).objects[address]?.bind fun fields => fields.get? name

def setField (address : Nat) (name : String) (value : Value) : Run Unit :=
  modify fun machine =>
    {
      machine with
      objects := machine.objects.modify address fun fields => fields.insert name value
    }

/-- Fields hide methods. A method is bound to the instance anew each time it is read. -/
def readProperty (object : Value) (name : Token) : Run Value := do
  match object with
  | .object address lineage =>
      match ← field? address name.lexeme with
      | some value => return value
      | none =>
          match lineage.method? name.lexeme with
          | some method => return .closure (← bindMethod method object)
          | none => failAt name .undefinedProperty
  | _ => failAt name .propertyOfNonInstance

/-- The method of the superclass, bound to the receiver of the method that asks for it. The scope
of `this` lies just inside the scope of `super`. -/
def readSuper (keyword : Reference (Option Nat)) (method : Token) : Run Value := do
  let some distance := keyword.binding | throw .unboundSuper
  let superclass ← readVariable keyword
  let machine ← get
  let scope ← ofAccess keyword.name (machine.scopes.ancestor machine.current (distance - 1))
  let receiver ← receiverIn scope
  match superclass with
  | .class lineage =>
      match lineage.method? method.lexeme with
      | some found => return .closure (← bindMethod found receiver)
      | none => failAt method .undefinedProperty
  | _ => throw .superNotClass

end Run

end Lox
