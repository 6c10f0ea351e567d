import Lox.Table

/-! Scopes at run time.

Every scope but an outermost one has a parent that was created before it, so all scopes together
are a forest. Several scopes may share a parent, and a write through one chain of scopes is seen
through every other chain that reaches the same scope.
-/

namespace Lox

/-- The names of one scope, and the scope around it. -/
structure Scope (α : Type) where
  parent : Option Nat
  values : Table α

/-- All scopes, each known by its place. -/
structure Forest (α : Type) where
  scopes : Array (Scope α)

/-- Why a scope or a name could not be reached. -/
inductive AccessError where
  | undefined
  | noEnclosingScope (distance : Nat)
deriving DecidableEq, Repr

namespace Forest

variable {α : Type}

def empty : Forest α :=
  ⟨#[]⟩

def size (forest : Forest α) : Nat :=
  forest.scopes.size

-----
-- Single scopes

def parent? (forest : Forest α) (scope : Nat) : Option Nat :=
  forest.scopes[scope]?.bind (·.parent)

/-- The value of a name in one scope alone. -/
def cell? (forest : Forest α) (scope : Nat) (name : String) : Option α :=
  forest.scopes[scope]?.bind fun found => found.values.get? name

/-- The names of one scope alone, in the order of their definition. -/
def names (forest : Forest α) (scope : Nat) : List String :=
  (forest.scopes[scope]?.map fun found => found.values.names).getD []

/-- A new scope comes last, and is empty. -/
def push (forest : Forest α) (parent : Option Nat) : Forest α :=
  ⟨forest.scopes.push { parent, values := .empty }⟩

def put (forest : Forest α) (scope : Nat) (name : String) (value : α) : Forest α :=
  ⟨forest.scopes.modify scope fun found =>
    { found with values := found.values.insert name value }⟩

-----
-- Chains

/-- The nearest scope from here outwards that defines the name. The steps bound the chain. -/
def holderWithin? (forest : Forest α) (name : String) : Nat → Nat → Option Nat
  | 0, _ => none
  | steps + 1, scope =>
      if (forest.cell? scope name).isSome then
        some scope
      else
        (forest.parent? scope).bind (holderWithin? forest name steps)

/-- Parents come before their children, so a chain is no longer than the place it starts at. -/
def holder? (forest : Forest α) (scope : Nat) (name : String) : Option Nat :=
  forest.holderWithin? name (scope + 1) scope

/-- The value that a name has as seen from a scope. -/
def get? (forest : Forest α) (scope : Nat) (name : String) : Option α :=
  (forest.holder? scope name).bind fun holder => forest.cell? holder name

/-- Overwrites the value that a name has as seen from a scope. -/
def assign? (forest : Forest α) (scope : Nat) (name : String) (value : α)
    : Option (Forest α) :=
  (forest.holder? scope name).map fun holder => forest.put holder name value

-----
-- Distances

def ancestor? (forest : Forest α) (scope : Nat) : Nat → Option Nat
  | 0 => some scope
  | distance + 1 => (forest.parent? scope).bind fun outer => forest.ancestor? outer distance

/-- The scope that lies so many scopes further out. -/
def ancestor (forest : Forest α) (scope distance : Nat) : Except AccessError Nat :=
  match forest.ancestor? scope distance with
  | some outer => .ok outer
  | none => .error (.noEnclosingScope distance)

def valueAt (forest : Forest α) (scope distance : Nat) (name : String)
    : Except AccessError α := do
  let outer ← forest.ancestor scope distance
  match forest.cell? outer name with
  | some value => .ok value
  | none => .error .undefined

/-- The name need not be defined at the distance before. -/
def putAt (forest : Forest α) (scope distance : Nat) (name : String) (value : α)
    : Except AccessError (Forest α) := do
  let outer ← forest.ancestor scope distance
  return forest.put outer name value

end Forest

end Lox
