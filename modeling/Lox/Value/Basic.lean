import Lox.Binding.Bind

/-! What a running program computes with.

Functions, classes and instances are told apart by the number they were created with, not by
what they hold. A class carries its superclasses with it, so a chain of classes is finite.
-/

namespace Lox

-----
-- Functions

/-- A function together with the scope it was created in. -/
structure Closure where
  id : Nat
  function : BoundLambda
  /-- The scope that the body sees around it, by its place among all scopes. -/
  scope : Nat
  name : Option String
  /-- A call hands back the receiver, whatever the body returns. -/
  isInitializer : Bool

def Closure.arity (closure : Closure) : Nat :=
  closure.function.parameters.length

def Closure.text (closure : Closure) : String :=
  "<fn " ++ closure.name.getD "anonymous" ++ ">"

/-- Functions that every program starts with. -/
inductive Native where
  | clock
deriving DecidableEq, Repr

def Native.name : Native → String
  | .clock => "clock"

def Native.arity : Native → Nat
  | .clock => 0

-----
-- Classes

/-- A class without its superclasses. -/
structure ClassBody where
  id : Nat
  name : String
  methods : Table Closure

/-- A class and the chain of its superclasses, the nearest first. -/
structure Lineage where
  head : ClassBody
  ancestors : List ClassBody

namespace Lineage

def name (lineage : Lineage) : String :=
  lineage.head.name

/-- The method of the nearest class that has one of the name. -/
def method? (lineage : Lineage) (name : String) : Option Closure :=
  (lineage.head :: lineage.ancestors).findSome? fun body => body.methods.get? name

/-- The method that prepares a new instance. -/
def initializer? (lineage : Lineage) : Option Closure :=
  lineage.method? "init"

/-- A class takes the arguments of its initializer. -/
def arity (lineage : Lineage) : Nat :=
  (lineage.initializer?.map Closure.arity).getD 0

/-- The class as the superclass of another. -/
def extend (superclass : Lineage) (body : ClassBody) : Lineage :=
  { head := body, ancestors := superclass.head :: superclass.ancestors }

end Lineage

-----
-- Values

/-- Plain values, functions, classes and instances. -/
inductive Value where
  | literal (value : Literal)
  | native (function : Native)
  | closure (closure : Closure)
  | class (lineage : Lineage)
  /-- An instance, whose fields are kept under its address. -/
  | object (address : Nat) (lineage : Lineage)

namespace Value

@[match_pattern]
abbrev nil : Value := .literal .nil

@[match_pattern]
abbrev boolean (value : Bool) : Value := .literal (.boolean value)

@[match_pattern]
abbrev number (value : Float) : Value := .literal (.number value)

@[match_pattern]
abbrev string (value : String) : Value := .literal (.string value)

/-- Only nil and false count as false. -/
def isTruthy : Value → Bool
  | .nil => false
  | .boolean value => value
  | _ => true

/-- Values of different types are unequal, and not-a-number equals nothing. -/
def equal : Value → Value → Bool
  | .nil, .nil => true
  | .boolean a, .boolean b => a == b
  | .number a, .number b => a == b
  | .string a, .string b => a == b
  | .native a, .native b => a = b
  | .closure a, .closure b => a.id == b.id
  | .class a, .class b => a.head.id == b.head.id
  | .object a _, .object b _ => a == b
  | _, _ => false

/-- What printing a value shows. -/
def text : Value → String
  | .literal value => value.text
  | .native _ => "<native fn>"
  | .closure function => function.text
  | .class lineage => lineage.name
  | .object _ lineage => lineage.name ++ " instance"

end Value

-----
-- Calls

/-- A value that can be called. -/
inductive Callable where
  | closure (closure : Closure)
  | class (lineage : Lineage)
  | native (function : Native)

/-- How many arguments a call takes. -/
def Callable.arity : Callable → Nat
  | .closure function => function.arity
  | .class lineage => lineage.arity
  | .native function => function.arity

def Value.callable? : Value → Option Callable
  | .closure function => some (.closure function)
  | .class lineage => some (.class lineage)
  | .native function => some (.native function)
  | .literal _ | .object .. => none

end Lox
