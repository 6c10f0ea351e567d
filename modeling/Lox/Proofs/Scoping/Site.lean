import Lox.Session

/-! Places of a program, as the binder meets them.

A site is a place of a program together with everything the binder knows on reaching it. A run
that knows at which site it is can be compared with what the binder knew there.
-/

namespace Lox.Scoping

open Binding

-----
-- Scopes of a program text

/-- What a scope of a program text belongs to. -/
inductive FrameKind where
  | block
  | function
  /-- Around the methods of a class, where `this` stands for the receiver. -/
  | receiver
  /-- Around the methods of a class and its receiver, where `super` stands for the superclass. -/
  | superclass
deriving DecidableEq, Repr

/-- A scope of a program text. The place tells it from all others. -/
structure Frame where
  kind : FrameKind
  place : List Nat
deriving DecidableEq, Repr

/-- A variable declaration, and the scopes that are open around it. -/
structure Declaration where
  name : String
  place : List Nat
  frames : List Frame
deriving DecidableEq, Repr

-----
-- Sites

/-- A place of a program and what the binder knows there. -/
structure Site where
  /-- The way to the place from the outermost level, the last step first. -/
  place : List Nat
  /-- The scopes that are open, the innermost first. -/
  frames : List Frame
  /-- The declarations whose initial value the place is part of, the innermost first. -/
  pending : List Declaration
  /-- The state of the binder on reaching the place. -/
  scopes : Scopes

namespace Site

/-- Where a whole program starts. Programs are numbered. -/
def start (number : Nat) (knownGlobals : List String) : Site :=
  { place := [number], frames := [], pending := [], scopes := .start knownGlobals }

/-- A part of what stands at the place. -/
def child (site : Site) (number : Nat) : Site :=
  { site with place := number :: site.place }

/-- Where the binder gets by an action. -/
def after {α : Type} (site : Site) (action : Binder α) : Site :=
  { site with scopes := (action site.scopes).2 }

/-- A scope is opened for what stands at the place. -/
def opened (site : Site) (kind : FrameKind) : Site :=
  {
    site with
    frames := { kind, place := site.place } :: site.frames,
    scopes := site.scopes.opened
  }

/-- Inside the initial value of a variable that is declared at the place. -/
def declaring (site : Site) (name : Token) : Site :=
  let declaration : Declaration :=
    { name := name.lexeme, place := site.place, frames := site.frames }
  { site.after (declare name) with pending := declaration :: site.pending }

/-- Behind a name that is complete as soon as it is declared. -/
def introducing (site : Site) (name : Token) : Site :=
  (site.after (declare name)).after (define name)

/-- Inside the body of a function that stands at the place. -/
def inside (site : Site) (function : Lambda Unit) : Site :=
  let entered : Site := { site with scopes := site.scopes.enteredFunction }
  (entered.opened .function).after (function.parameters.forM declareParameter)

/-- Inside the body of a loop that stands at the place. -/
def looping (site : Site) : Site :=
  { site with scopes := site.scopes.enteredLoop }

/-- Inside a class of the name, whose superclass is still to be looked up. -/
def declaringClass (site : Site) (name : Token) : Site :=
  let entered : Site := { site with scopes := site.scopes.enteredClass .plain }
  entered.introducing name

/-- At the superclass clause of a class of the name. -/
def inheriting (site : Site) (name superclass : Token) : Site :=
  (site.declaringClass name).after (enterSubclass name superclass)

/-- Among the methods of a class. -/
def withReceiver (site : Site) : Site :=
  (site.opened .receiver).after (defineImplicit "this")

/-- Around the receiver of a class with a superclass. -/
def withSuperclass (site : Site) : Site :=
  (site.opened .superclass).after (defineImplicit "super")

/-- Among the methods of a class that stands at the place. -/
def amongMethods (site : Site) (name : Token) : Option (Reference Unit) → Site
  | none => (site.declaringClass name).withReceiver
  | some superclass =>
      let inheriting := site.inheriting name superclass.name
      ((inheriting.after (bindRead superclass.name)).withSuperclass).withReceiver

end Site

-----
-- Uses of names

/-- A node that looks a name up. -/
inductive Use where
  | read (name : Token)
  | write (name : Token)
  | this (keyword : Token)
  | super (keyword method : Token)

/-- How the binder binds the node. -/
def Use.bound : Use → Binder (Option Nat)
  | .read name => bindRead name
  | .write name => bindNearest name
  | .this keyword => bindThis keyword
  | .super keyword _ => bindSuper keyword

/-- The token that names what is looked up. -/
def Use.token : Use → Token
  | .read name | .write name | .this name | .super name _ => name

/-- The distance that the binder records for a node. -/
def Site.distance (site : Site) (use : Use) : Option Nat :=
  (use.bound site.scopes).1

def Site.reference (site : Site) (use : Use) : Reference (Option Nat) :=
  { name := use.token, binding := site.distance use }

end Lox.Scoping
