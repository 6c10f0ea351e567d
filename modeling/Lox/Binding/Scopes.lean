import Lox.Diagnostic
import Lox.Syntax.Basic
import Lox.Table

/-! The scopes that are open at a place of a program, and what is known about their names.

A name is declared when its declaration begins and defined when it is complete. In between it is
pending: a read inside its own initializer looks past it.
-/

namespace Lox.Binding

-----
-- State

/-- What is known about the names of one open scope. -/
structure LocalScope where
  /-- The names declared so far, and whether each is defined. -/
  names : Table Bool
  /-- The declarations that no use has been bound to since. -/
  unused : Table Token

def LocalScope.empty : LocalScope :=
  { names := .empty, unused := .empty }

/-- The class that the place stands in. -/
inductive ClassContext where
  | outside
  | plain
  | subclass
deriving DecidableEq

/-- All that is known at the place reached. -/
structure Scopes where
  /-- The open scopes, the innermost first. The global scope is none of them. -/
  locals : List LocalScope
  globals : Table Bool
  errors : List Diagnostic
  warnings : List Diagnostic
  inFunction : Bool
  classContext : ClassContext
  loopDepth : Nat
  /-- How many scopes are open around the innermost function. -/
  functionBase : Nat

/-- No scope is open, and the given globals are defined. -/
def Scopes.start (knownGlobals : List String) : Scopes :=
  {
    locals := [],
    globals := knownGlobals.foldl (fun table name => table.insert name true) .empty,
    errors := [],
    warnings := [],
    inFunction := false,
    classContext := .outside,
    loopDepth := 0,
    functionBase := 0
  }

/-- A step of the walk through a program. -/
abbrev Binder (α : Type) := StateM Scopes α

-----
-- Problems

def Scopes.error (scopes : Scopes) (token : Token) (problem : Problem) : Scopes :=
  { scopes with errors := scopes.errors ++ [Diagnostic.atToken token problem] }

-----
-- Opening and closing scopes

def Scopes.opened (scopes : Scopes) : Scopes :=
  { scopes with locals := .empty :: scopes.locals }

def LocalScope.unusedWarnings (scope : LocalScope) : List Diagnostic :=
  scope.unused.entries.map fun entry => Diagnostic.atToken entry.2 (.unusedLocal entry.1)

/-- Closing a scope warns about its unused names in the order of their declarations. -/
def Scopes.closed (scopes : Scopes) : Scopes :=
  match scopes.locals with
  | [] => scopes
  | scope :: outer =>
      { scopes with locals := outer, warnings := scopes.warnings ++ scope.unusedWarnings }

def inScope {α : Type} (action : Binder α) : Binder α := do
  modify Scopes.opened
  let result ← action
  modify Scopes.closed
  return result

-----
-- Declaring and defining names

/-- A redeclaration leaves the earlier binding readable. -/
def LocalScope.declared (scope : LocalScope) (name : Token) (tracked : Bool) : LocalScope :=
  {
    names := scope.names.insertIfNew name.lexeme false,
    unused := if tracked then scope.unused.insert name.lexeme name else scope.unused
  }

def LocalScope.defined (scope : LocalScope) (name : String) : LocalScope :=
  { scope with names := scope.names.insert name true }

def Scopes.declared (scopes : Scopes) (name : Token) (tracked : Bool) : Scopes :=
  match scopes.locals with
  | [] => { scopes with globals := scopes.globals.insertIfNew name.lexeme false }
  | scope :: outer => { scopes with locals := scope.declared name tracked :: outer }

def Scopes.defined (scopes : Scopes) (name : String) : Scopes :=
  match scopes.locals with
  | [] => { scopes with globals := scopes.globals.insert name true }
  | scope :: outer => { scopes with locals := scope.defined name :: outer }

/-- A declared name whose use, or lack of use, is of interest. -/
def declare (name : Token) : Binder Unit :=
  modify fun scopes => scopes.declared name true

def define (name : Token) : Binder Unit :=
  modify fun scopes => scopes.defined name.lexeme

/-- Parameters are complete at once, and may stay unused. -/
def declareParameter (name : Token) : Binder Unit :=
  modify fun scopes => (scopes.declared name false).defined name.lexeme

/-- Names such as `this` that no declaration introduces. -/
def defineImplicit (name : String) : Binder Unit :=
  modify fun scopes => scopes.defined name

-----
-- Looking names up

/-- The distance of the innermost scope that declares the name. -/
def nearest? (name : String) (locals : List LocalScope) : Option Nat :=
  locals.findIdx? fun scope => scope.names.contains name

/-- What a read finds in the open scopes. -/
structure Search where
  distance : Option Nat
  /-- A pending binding of the same function was passed over. -/
  passedPending : Bool
deriving DecidableEq

/-- Searches outwards. The `own` innermost scopes belong to the function that reads; among these
a pending binding is looked past. -/
def searchFrom (name : String) (own distance : Nat) (passedPending : Bool)
    : List LocalScope → Search
  | [] => { distance := none, passedPending }
  | scope :: outer =>
      match scope.names.get? name with
      | none => searchFrom name own (distance + 1) passedPending outer
      | some defined =>
          if !defined && distance < own then
            searchFrom name own (distance + 1) true outer
          else
            { distance := some distance, passedPending }

def Scopes.search (scopes : Scopes) (name : String) : Search :=
  searchFrom name (scopes.locals.length - scopes.functionBase) 0 false scopes.locals

/-- The name is used in the scope at the distance. -/
def Scopes.used (scopes : Scopes) (distance : Nat) (name : String) : Scopes :=
  {
    scopes with
    locals := scopes.locals.modify distance fun scope =>
      { scope with unused := scope.unused.erase name }
  }

/-- Binds a use other than a read. Pending names are bound like all others. -/
def bindNearest (name : Token) : Binder (Option Nat) :=
  fun scopes =>
    match nearest? name.lexeme scopes.locals with
    | none => (none, scopes)
    | some distance => (some distance, scopes.used distance name.lexeme)

/-- A read finds nothing but pending bindings of its own, or a global still pending, and no
defined global stands behind them. -/
def Scopes.readsItself (scopes : Scopes) (name : String) (passedPending : Bool) : Bool :=
  let globalPending := !scopes.inFunction && scopes.globals.get? name = some false
  (passedPending || globalPending) && scopes.globals.get? name ≠ some true

/-- Binds a read, or reports that it reads a variable that it helps to initialize. -/
def bindRead (name : Token) : Binder (Option Nat) :=
  fun scopes =>
    let search := scopes.search name.lexeme
    match search.distance with
    | some distance => (some distance, scopes.used distance name.lexeme)
    | none =>
        if scopes.readsItself name.lexeme search.passedPending then
          (none, scopes.error name .readInOwnInitializer)
        else
          (none, scopes)

-----
-- Contexts

/-- On entering a function, which lies outside of the loops around it. -/
def Scopes.enteredFunction (scopes : Scopes) : Scopes :=
  { scopes with inFunction := true, loopDepth := 0, functionBase := scopes.locals.length }

/-- On leaving a function for the place it was entered from. -/
def Scopes.leftFunction (scopes before : Scopes) : Scopes :=
  {
    scopes with
    inFunction := before.inFunction,
    loopDepth := before.loopDepth,
    functionBase := before.functionBase
  }

def inFunction {α : Type} (action : Binder α) : Binder α := do
  let before ← get
  set before.enteredFunction
  let result ← action
  modify fun after => after.leftFunction before
  return result

def Scopes.enteredLoop (scopes : Scopes) : Scopes :=
  { scopes with loopDepth := scopes.loopDepth + 1 }

def inLoop {α : Type} (action : Binder α) : Binder α := do
  modify Scopes.enteredLoop
  let result ← action
  modify fun scopes => { scopes with loopDepth := scopes.loopDepth - 1 }
  return result

def Scopes.enteredClass (scopes : Scopes) (context : ClassContext) : Scopes :=
  { scopes with classContext := context }

def inClass {α : Type} (action : Binder α) : Binder α := do
  let before := (← get).classContext
  modify fun scopes => scopes.enteredClass .plain
  let result ← action
  modify fun scopes => scopes.enteredClass before
  return result

end Lox.Binding
