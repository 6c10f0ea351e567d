/-! Tables from names to values that remember the order in which names were added. -/

namespace Lox

/-- A list of entries in which a name is meant to stand once. -/
structure Table (α : Type) where
  entries : List (String × α)
deriving Repr

namespace Table

variable {α : Type}

def empty : Table α :=
  ⟨[]⟩

def get? (table : Table α) (name : String) : Option α :=
  table.entries.lookup name

def contains (table : Table α) (name : String) : Bool :=
  (table.get? name).isSome

def insertEntry (name : String) (value : α) : List (String × α) → List (String × α)
  | [] => [(name, value)]
  | (other, old) :: rest =>
      if other = name then (other, value) :: rest
      else (other, old) :: insertEntry name value rest

/-- A name that is present keeps its place, and a new one comes last. -/
def insert (table : Table α) (name : String) (value : α) : Table α :=
  ⟨insertEntry name value table.entries⟩

/-- The value of a name that is present is left alone. -/
def insertIfNew (table : Table α) (name : String) (value : α) : Table α :=
  if table.contains name then table else table.insert name value

def erase (table : Table α) (name : String) : Table α :=
  ⟨table.entries.filter fun entry => entry.1 != name⟩

def names (table : Table α) : List String :=
  table.entries.map (·.1)

def size (table : Table α) : Nat :=
  table.entries.length

end Table

end Lox
