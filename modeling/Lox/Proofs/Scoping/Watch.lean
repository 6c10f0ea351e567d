import Lox.Proofs.Scoping.Site

/-! Running a program while watching it.

A watched run does what the machine does, and keeps book beside it: which scope of which program
text every scope of the machine is an instance of, where every function was met by the binder,
which declarations were completed, and every lookup with the state it was made in. The machine
never looks into the book.
-/

namespace Lox.Scoping

-----
-- The book

/-- A function of a program text, and the place where the binder met it. -/
structure Origin where
  function : Lambda Unit
  site : Site

/-- One evaluation of a node that looks a name up. -/
structure Lookup where
  site : Site
  use : Use
  /-- The machine before the lookup. -/
  machine : Machine
  /-- What the scopes of the machine were instances of. -/
  frameOf : Nat → Frame
  /-- The declarations completed so far, with the scopes they were completed in. -/
  completed : List (Declaration × Nat)
  /-- How the lookup failed, if it did. -/
  fault : Option Fault

/-- A machine and the book about it. -/
structure Watched where
  machine : Machine
  /-- What a scope of the machine is an instance of. -/
  frameOf : Nat → Frame
  /-- Where a function came from, by its number. -/
  originOf : Nat → Origin
  completed : List (Declaration × Nat)
  lookups : List Lookup

/-- An action of a watched machine. -/
abbrev Watch (α : Type) := EStateM Fault Watched α

/-- A table with one entry changed. -/
def setAt {α : Type} (table : Nat → α) (place : Nat) (entry : α) : Nat → α :=
  fun other => if other = place then entry else table other

/-- Nothing has been watched yet. -/
def Watched.start (machine : Machine) : Watched :=
  {
    machine,
    frameOf := fun _ => { kind := .block, place := [] },
    originOf := fun _ => { function := .mk [] [], site := .start 0 [] },
    completed := [],
    lookups := []
  }

/-- The state behind an action, whether it failed or not. -/
def stateOf {σ α : Type} : EStateM.Result Fault σ α → σ
  | .ok _ after => after
  | .error _ after => after

/-- How an action failed, if it did. -/
def faultOf {σ α : Type} : EStateM.Result Fault σ α → Option Fault
  | .ok _ _ => none
  | .error fault _ => some fault

/-- What is noted down about a lookup: the state it was made in, and its outcome. -/
def Watched.entry (watched : Watched) (site : Site) (use : Use) (fault : Option Fault) : Lookup :=
  {
    site, use, fault,
    machine := watched.machine,
    frameOf := watched.frameOf,
    completed := watched.completed
  }

namespace Watch

variable {α : Type}

/-- What the machine does by itself leaves the book alone. -/
def lift (action : Run α) : Watch α :=
  fun watched =>
    match action watched.machine with
    | .ok value machine => .ok value { watched with machine }
    | .error fault machine => .error fault { watched with machine }

-----
-- Keeping book

/-- Opens an instance of a scope of the program text. -/
def openScope (frame : Frame) (parent : Nat) : Watch Nat :=
  fun watched =>
    let scope := watched.machine.scopes.size
    lift (Run.newScope parent) { watched with frameOf := setAt watched.frameOf scope frame }

def newClosure (origin : Origin) (function : BoundLambda) (scope : Nat) (name : Option String)
    (isInitializer : Bool)
    : Watch Closure :=
  fun watched =>
    let id := watched.machine.nextId
    lift (Run.newClosure function scope name isInitializer)
      { watched with originOf := setAt watched.originOf id origin }

/-- A bound method comes from where the method came from. -/
def bindMethod (method : Closure) (receiver : Value) : Watch Closure := do
  let origin := (← get).originOf method.id
  let frame := origin.site.frames.headD { kind := .receiver, place := [] }
  let scope ← openScope frame method.scope
  lift (Run.defineIn scope "this" receiver)
  newClosure origin method.function scope method.name method.isInitializer

/-- Defines a variable, which completes its declaration. -/
def complete (site : Site) (name : Token) (value : Value) : Watch Unit := do
  lift (Run.define name value)
  let declaration : Declaration :=
    { name := name.lexeme, place := site.place, frames := site.frames }
  modify fun watched =>
    { watched with completed := (declaration, watched.machine.current) :: watched.completed }

def noted (watched : Watched) (entry : Lookup) : Watched :=
  { watched with lookups := watched.lookups ++ [entry] }

/-- Runs a lookup and notes it down, with the state before it and its outcome. -/
def note (site : Site) (use : Use) (action : Watch α) : Watch α :=
  fun before =>
    match action before with
    | .ok value after => .ok value (noted after (before.entry site use none))
    | .error fault after => .error fault (noted after (before.entry site use (some fault)))

/-- Runs an action in another scope and comes back, also when the action fails. -/
def within (scope : Nat) (action : Watch α) : Watch α :=
  fun watched =>
    let previous := watched.machine.current
    let restore (after : Watched) : Watched :=
      { after with machine := { after.machine with current := previous } }
    match action { watched with machine := { watched.machine with current := scope } } with
    | .ok value after => .ok value (restore after)
    | .error fault after => .error fault (restore after)

-----
-- Lookups

def readVariable (site : Site) (use : Use) : Watch Value :=
  note site use (lift (Run.readVariable (site.reference use)))

def writeVariable (site : Site) (name : Token) (value : Value) : Watch Unit :=
  note site (.write name) (lift (Run.writeVariable (site.reference (.write name)) value))

def readProperty (object : Value) (name : Token) : Watch Value := do
  match object with
  | .object address lineage =>
      match ← lift (Run.field? address name.lexeme) with
      | some value => return value
      | none =>
          match lineage.method? name.lexeme with
          | some method => return .closure (← bindMethod method object)
          | none => lift (Run.failAt name .undefinedProperty)
  | _ => lift (Run.failAt name .propertyOfNonInstance)

def superMethod (keyword : Reference (Option Nat)) (method : Token) : Watch Value := do
  let some distance := keyword.binding | lift (throw .unboundSuper)
  let superclass ← lift (Run.readVariable keyword)
  let machine := (← get).machine
  let scope ← lift
    (Run.ofAccess keyword.name (machine.scopes.ancestor machine.current (distance - 1)))
  let receiver ← lift (Run.receiverIn scope)
  match superclass with
  | .class lineage =>
      match lineage.method? method.lexeme with
      | some found => return .closure (← bindMethod found receiver)
      | none => lift (Run.failAt method .undefinedProperty)
  | _ => lift (throw .superNotClass)

def readSuper (site : Site) (keyword method : Token) : Watch Value :=
  note site (.super keyword method)
    (superMethod (site.reference (.super keyword method)) method)

end Watch

end Lox.Scoping
