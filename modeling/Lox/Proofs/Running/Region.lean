import Lox.Machine.Execute
import Lox.Proofs.Scope.Forest

/-! Parts of a machine that are closed under everything that can be reached from them.

An action that is given nothing but what lies in such a part stays inside of it: it changes nothing
outside, and hands nothing out that lies outside. What is created on the way lies inside.
-/

namespace Lox

variable {ρ : Type}

-----
-- Functions inside of trees

mutual
/-- All functions that stand in the expression, at any depth, are allowed. -/
def Expr.Every (allowed : Lambda ρ → Prop) : Expr ρ → Prop
  | .literal _ | .variable _ | .this _ | .super _ _ => True
  | .grouping inner => inner.Every allowed
  | .unary _ operand => operand.Every allowed
  | .binary left _ right => left.Every allowed ∧ right.Every allowed
  | .logical left _ right => left.Every allowed ∧ right.Every allowed
  | .conditional condition thenCase elseCase =>
      condition.Every allowed ∧ thenCase.Every allowed ∧ elseCase.Every allowed
  | .assign _ value => value.Every allowed
  | .call callee _ arguments => callee.Every allowed ∧ EveryExprs allowed arguments
  | .get object _ => object.Every allowed
  | .set object _ value => object.Every allowed ∧ value.Every allowed
  | .function function => function.Every allowed

def EveryExprs (allowed : Lambda ρ → Prop) : List (Expr ρ) → Prop
  | [] => True
  | first :: rest => first.Every allowed ∧ EveryExprs allowed rest

def EveryOptional (allowed : Lambda ρ → Prop) : Option (Expr ρ) → Prop
  | none => True
  | some value => value.Every allowed

def Stmt.Every (allowed : Lambda ρ → Prop) : Stmt ρ → Prop
  | .expression value => value.Every allowed
  | .print value => value.Every allowed
  | .printLine value => EveryOptional allowed value
  | .variable _ initial => EveryOptional allowed initial
  | .block statements => EveryStmts allowed statements
  | .branch condition thenBranch elseBranch =>
      condition.Every allowed ∧ thenBranch.Every allowed ∧ EveryElse allowed elseBranch
  | .loop condition body => condition.Every allowed ∧ body.Every allowed
  | .breakLoop _ => True
  | .returnValue _ value => EveryOptional allowed value
  | .function _ function => function.Every allowed
  | .class _ _ methods => EveryMethods allowed methods

def EveryStmts (allowed : Lambda ρ → Prop) : List (Stmt ρ) → Prop
  | [] => True
  | first :: rest => first.Every allowed ∧ EveryStmts allowed rest

def EveryElse (allowed : Lambda ρ → Prop) : Option (Stmt ρ) → Prop
  | none => True
  | some branch => branch.Every allowed

def Lambda.Every (allowed : Lambda ρ → Prop) : Lambda ρ → Prop
  | .mk parameters body => allowed (.mk parameters body) ∧ EveryStmts allowed body

def EveryMethods (allowed : Lambda ρ → Prop) : List (Method ρ) → Prop
  | [] => True
  | .mk _ function :: rest => function.Every allowed ∧ EveryMethods allowed rest
end

/-- A function of which every part is allowed is allowed itself. -/
theorem Lambda.Every.allowed {allowed : Lambda ρ → Prop} {function : Lambda ρ}
    (every : function.Every allowed)
    : allowed function := by
  cases function
  exact every.1

/-- Every function in the body of an allowed one is allowed. -/
theorem Lambda.Every.body {allowed : Lambda ρ → Prop} {function : Lambda ρ}
    (every : function.Every allowed)
    : EveryStmts allowed function.body := by
  cases function
  exact every.2

namespace Running

-----
-- Regions

/-- Scopes, addresses of instances, and the code that is allowed to occur. -/
structure Region where
  scope : Nat → Prop
  address : Nat → Prop
  function : BoundLambda → Prop
  /-- Statements that may stand outside of all others. -/
  outermost : BoundStmt → Prop

/-- Everything on the machine, as long as the code is allowed. -/
def Region.whole (function : BoundLambda → Prop) (outermost : BoundStmt → Prop) : Region :=
  { scope := fun _ => True, address := fun _ => True, function, outermost }

end Running

open Running (Region)

def Closure.In (region : Region) (closure : Closure) : Prop :=
  region.scope closure.scope ∧ closure.function.Every region.function

def ClassBody.In (region : Region) (body : ClassBody) : Prop :=
  ∀ name method, body.methods.get? name = some method → method.In region

def Lineage.In (region : Region) (lineage : Lineage) : Prop :=
  ∀ body ∈ lineage.head :: lineage.ancestors, body.In region

/-- What a value refers to lies in the region. -/
def Value.In (region : Region) : Value → Prop
  | .literal _ | .native _ => True
  | .closure function => function.In region
  | .class lineage => lineage.In region
  | .object address lineage => region.address address ∧ lineage.In region

def Callable.In (region : Region) : Callable → Prop
  | .closure function => function.In region
  | .class lineage => lineage.In region
  | .native _ => True

namespace Running

/-- The region has the global scope and room for all that is new, and nothing in it leads out. -/
structure Region.Closed (region : Region) (scopes : Forest Value)
    (objects : Array (Table Value))
    : Prop where
  global : region.scope globalScope
  newScopes : ∀ scope, scopes.size ≤ scope → region.scope scope
  newAddresses : ∀ address, objects.size ≤ address → region.address address
  parents
    : ∀ scope parent,
        region.scope scope → scopes.parent? scope = some parent → region.scope parent
  cells
    : ∀ scope name value,
        region.scope scope → scopes.cell? scope name = some value → value.In region
  fields
    : ∀ address fields name value,
        region.address address
        → objects[address]? = some fields
        → fields.get? name = some value
        → value.In region

/-- The region is still closed, and everything outside of it is as it was. -/
structure Region.Spares (region : Region) (before after : Machine) : Prop where
  closed : region.Closed after.scopes after.objects
  current : after.current = before.current
  moreScopes : before.scopes.size ≤ after.scopes.size
  moreObjects : before.objects.size ≤ after.objects.size
  scope
    : ∀ scope,
        ¬region.scope scope → after.scopes.scopes[scope]? = before.scopes.scopes[scope]?
  object : ∀ address, ¬region.address address → after.objects[address]? = before.objects[address]?

variable {region : Region}

/-- A machine is spared by doing nothing. -/
theorem Region.Spares.refl {machine : Machine}
    (closed : region.Closed machine.scopes machine.objects)
    : region.Spares machine machine :=
  ⟨closed, rfl, Nat.le_refl _, Nat.le_refl _, fun _ _ => rfl, fun _ _ => rfl⟩

/-- What spares the outside twice spares it altogether. -/
theorem Region.Spares.trans {first second third : Machine} (front : region.Spares first second)
    (back : region.Spares second third)
    : region.Spares first third where
  closed := back.closed
  current := back.current.trans front.current
  moreScopes := Nat.le_trans front.moreScopes back.moreScopes
  moreObjects := Nat.le_trans front.moreObjects back.moreObjects
  scope scope outside := (back.scope scope outside).trans (front.scope scope outside)
  object address outside := (back.object address outside).trans (front.object address outside)

-----
-- What closed regions contain

namespace Region.Closed

variable {scopes : Forest Value} {objects : Array (Table Value)}

/-- A walk up from a scope of the region stays in the region. -/
theorem ancestor? (closed : region.Closed scopes objects) {distance scope outer : Nat}
    (inside : region.scope scope) (there : scopes.ancestor? scope distance = some outer)
    : region.scope outer := by
  induction distance generalizing scope with
  | zero => exact Option.some.inj there ▸ inside
  | succ distance ih =>
      obtain ⟨parent, above, beyond⟩ := Option.bind_eq_some_iff.1 there
      exact ih (closed.parents _ _ inside above) beyond

/-- A name seen from the region is held in the region. -/
theorem holder? (closed : region.Closed scopes objects) {name : String} {scope holder : Nat}
    (inside : region.scope scope) (found : scopes.holder? scope name = some holder)
    : region.scope holder := by
  unfold Forest.holder? at found
  generalize scope + 1 = steps at found
  induction steps generalizing scope with
  | zero => cases found
  | succ steps ih =>
      unfold Forest.holderWithin? at found
      split at found
      · exact Option.some.inj found ▸ inside
      · obtain ⟨parent, above, beyond⟩ := Option.bind_eq_some_iff.1 found
        exact ih (closed.parents _ _ inside above) beyond

/-- A walk that succeeds ends in the region. -/
theorem ancestor (closed : region.Closed scopes objects) {distance scope outer : Nat}
    (inside : region.scope scope) (reached : scopes.ancestor scope distance = .ok outer)
    : region.scope outer := by
  unfold Forest.ancestor at reached
  split at reached
  · next there => exact Except.ok.inj reached ▸ closed.ancestor? inside there
  · cases reached

/-- A value read at a distance is in the region. -/
theorem valueAt (closed : region.Closed scopes objects) {distance scope : Nat} {name : String}
    {value : Value} (inside : region.scope scope)
    (read : scopes.valueAt scope distance name = .ok value)
    : value.In region := by
  cases there : scopes.ancestor? scope distance with
  | none =>
      unfold Forest.valueAt Forest.ancestor at read
      rw [there] at read
      cases read
  | some outer =>
      rw [Forest.valueAt_of_ancestor? name there] at read
      split at read
      · next found =>
          exact Except.ok.inj read ▸ closed.cells _ _ _ (closed.ancestor? inside there) found
      · cases read

/-- A value found from a scope of the region is in the region. -/
theorem get? (closed : region.Closed scopes objects) {scope : Nat} {name : String} {value : Value}
    (inside : region.scope scope) (found : scopes.get? scope name = some value)
    : value.In region := by
  obtain ⟨holder, held, has⟩ := Option.bind_eq_some_iff.1 found
  exact closed.cells _ _ _ (closed.holder? inside held) has

/-- A new scope below one of the region leaves it closed. -/
theorem push (closed : region.Closed scopes objects) {parent : Nat} (inside : region.scope parent)
    : region.Closed (scopes.push (some parent)) objects where
  global := closed.global
  newScopes scope new := by
    rw [Forest.size_push] at new
    exact closed.newScopes scope (by omega)
  newAddresses := closed.newAddresses
  parents scope outer within above := by
    rw [Forest.parent?_push] at above
    split at above
    · exact Option.some.inj above ▸ inside
    · exact closed.parents scope outer within above
  cells scope name value within found := by
    rw [Forest.cell?_push] at found
    exact closed.cells scope name value within found
  fields := closed.fields

/-- A value of the region may be put into any scope. -/
theorem put (closed : region.Closed scopes objects) (scope : Nat) (name : String) {value : Value}
    (inside : value.In region)
    : region.Closed (scopes.put scope name value) objects where
  global := closed.global
  newScopes other new := closed.newScopes other (by rwa [Forest.size_put] at new)
  newAddresses := closed.newAddresses
  parents other outer within above := by
    rw [Forest.parent?_put] at above
    exact closed.parents other outer within above
  cells other name' found within there := by
    rw [Forest.cell?_put] at there
    split at there
    · exact Option.some.inj there ▸ inside
    · exact closed.cells other name' found within there
  fields := closed.fields

/-- A new instance leaves the region closed. -/
theorem create (closed : region.Closed scopes objects)
    : region.Closed scopes (objects.push .empty) where
  global := closed.global
  newScopes := closed.newScopes
  newAddresses address new := by
    rw [Array.size_push] at new
    exact closed.newAddresses address (by omega)
  parents := closed.parents
  cells := closed.cells
  fields address fields name value within there found := by
    rw [Array.getElem?_push] at there
    split at there
    · obtain rfl := Option.some.inj there
      cases found
    · exact closed.fields address fields name value within there found

/-- A value of the region may be set as a field of any instance. -/
theorem setField (closed : region.Closed scopes objects) (address : Nat) (name : String)
    {value : Value} (inside : value.In region)
    : region.Closed scopes (objects.modify address fun fields => fields.insert name value) where
  global := closed.global
  newScopes := closed.newScopes
  newAddresses other new := closed.newAddresses other (by rwa [Array.size_modify] at new)
  parents := closed.parents
  cells := closed.cells
  fields other fields name' found within there has := by
    rw [Array.getElem?_modify] at there
    split at there
    · obtain ⟨old, before, rfl⟩ := Option.map_eq_some_iff.1 there
      rw [Table.get?_insert] at has
      split at has
      · exact Option.some.inj has ▸ inside
      · exact closed.fields other old name' found within before has
    · exact closed.fields other fields name' found within there has

end Region.Closed

-----
-- Actions that stay inside

/-- An action ends with nothing changed outside of the region, and hands out what it may. -/
def Region.SparesEnd (region : Region) (before : Machine) {α : Type} (post : α → Prop)
    : EStateM.Result Fault Machine α → Prop
  | .ok value after => region.Spares before after ∧ post value
  | .error _ after => region.Spares before after

/-- Started in a scope, the action stays inside of any machine's closed region. -/
def Region.Confines (region : Region) (current : Nat) {α : Type} (action : Run α)
    (post : α → Prop)
    : Prop :=
  ∀ before : Machine,
    before.current = current
    → region.Closed before.scopes before.objects
    → region.SparesEnd before post (action before)

namespace Region.Confines

variable {current : Nat} {α β : Type} {action : Run α} {post : α → Prop}

/-- A value alone stays in the region. -/
theorem pure {value : α} (holds : post value)
    : region.Confines current (Pure.pure value) post :=
  fun _ _ closed => ⟨.refl closed, holds⟩

/-- A fault stays in the region. -/
theorem throw (fault : Fault) : region.Confines current (MonadExcept.throw fault) post :=
  fun _ _ closed => .refl closed

/-- Two steps in a row stay in the region if each does. -/
theorem bind {next : α → Run β} {post' : β → Prop} (first : region.Confines current action post)
    (second : ∀ value, post value → region.Confines current (next value) post')
    : region.Confines current (action >>= next) post' := by
  intro before here closed
  have front := first before here closed
  change region.SparesEnd before post' (EStateM.bind action next before)
  unfold EStateM.bind
  cases run : action before with
  | error fault between =>
      rw [run] at front
      exact front
  | ok value between =>
      rw [run] at front
      obtain ⟨spares, holds⟩ := front
      have back := second value holds between (spares.current.trans here) spares.closed
      change region.SparesEnd before post' (next value between)
      cases rest : next value between with
      | ok result after =>
          rw [rest] at back
          exact ⟨spares.trans back.1, back.2⟩
      | error fault after =>
          rw [rest] at back
          exact spares.trans back

/-- Changing the value that an action yields stays in the region. -/
theorem map {post' : β → Prop} {make : α → β} (confines : region.Confines current action post)
    (made : ∀ value, post value → post' (make value))
    : region.Confines current (make <$> action) post' :=
  confines.bind fun value holds => .pure (made value holds)

/-- What is done in another scope of the region stays inside as well. -/
theorem within {scope : Nat} (confines : region.Confines scope action post)
    : region.Confines current (Run.within scope action) post := by
  intro before here closed
  have ends := confines { before with current := scope } rfl closed
  unfold Run.within
  cases run : action { before with current := scope } with
  | ok value after =>
      rw [run] at ends
      exact ⟨{ ends.1 with current := rfl }, ends.2⟩
  | error fault after =>
      rw [run] at ends
      exact { ends with current := rfl }

end Region.Confines

end Running

end Lox
