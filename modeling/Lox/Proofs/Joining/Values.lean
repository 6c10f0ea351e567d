import Lox.Machine.Execute
import Lox.Proofs.Joining.Trees
import Lox.Proofs.Scope.Forest

/-! Values whose functions stand on other lines.

Nothing that a program can find out about a value depends on lines.
-/

namespace Lox

-----
-- Tables

namespace Table

variable {α β : Type} (image : α → β)

def map (table : Table α) : Table β :=
  ⟨table.entries.map fun entry => (entry.1, image entry.2)⟩

/-- The image of no entries has none. -/
@[simp]
theorem map_empty : (empty : Table α).map image = empty :=
  rfl

/-- What a name is mapped to is the image of its value. -/
@[simp]
theorem get?_map (table : Table α) (name : String)
    : (table.map image).get? name = (table.get? name).map image := by
  obtain ⟨entries⟩ := table
  change (entries.map _).lookup name = (entries.lookup name).map image
  induction entries with
  | nil => rfl
  | cons entry rest ih =>
      obtain ⟨other, value⟩ := entry
      by_cases same : name = other
      · simp [same]
      · have differs : (name == other) = false := beq_eq_false_iff_ne.2 same
        simp [List.lookup_cons, differs, ih]

/-- An entry may be inserted before or behind the mapping. -/
@[simp]
theorem map_insert (table : Table α) (name : String) (value : α)
    : (table.insert name value).map image = (table.map image).insert name (image value) := by
  obtain ⟨entries⟩ := table
  have inserted (entries : List (String × α))
      : (insertEntry name value entries).map (fun entry => (entry.1, image entry.2))
          = insertEntry name (image value) (entries.map fun entry => (entry.1, image entry.2)) := by
    induction entries with
    | nil => rfl
    | cons entry rest ih =>
        by_cases same : entry.1 = name
        · simp [insertEntry, same]
        · simp [insertEntry, same, ih]
  exact congrArg Table.mk (inserted entries)

/-- The names stay when values are mapped. -/
@[simp]
theorem names_map (table : Table α) : (table.map image).names = table.names := by
  simp [names, map, Function.comp_def]

end Table

-----
-- Scopes

namespace Forest

variable {α β : Type} (image : α → β)

def map (forest : Forest α) : Forest β :=
  ⟨forest.scopes.map fun scope =>
    { parent := scope.parent, values := scope.values.map image }⟩

/-- The image of a forest without scopes has none. -/
@[simp]
theorem map_empty : (empty : Forest α).map image = empty := by
  simp [map, empty]

/-- The image has as many scopes. -/
@[simp]
theorem size_map (forest : Forest α) : (forest.map image).size = forest.size := by
  simp [size, map]

/-- The image has the same parents. -/
@[simp]
theorem parent?_map (forest : Forest α) (scope : Nat)
    : (forest.map image).parent? scope = forest.parent? scope := by
  unfold parent? map
  rw [Array.getElem?_map]
  cases forest.scopes[scope]? <;> rfl

/-- The cells of the image are the images of the cells. -/
@[simp]
theorem cell?_map (forest : Forest α) (scope : Nat) (name : String)
    : (forest.map image).cell? scope name = (forest.cell? scope name).map image := by
  unfold cell? map
  rw [Array.getElem?_map]
  cases forest.scopes[scope]? with
  | none => rfl
  | some found => exact Table.get?_map image found.values name

/-- The image has the same names in each scope. -/
@[simp]
theorem names_map (forest : Forest α) (scope : Nat)
    : (forest.map image).names scope = forest.names scope := by
  unfold names map
  rw [Array.getElem?_map]
  cases forest.scopes[scope]? with
  | none => rfl
  | some found => exact Table.names_map image found.values

/-- A scope may be pushed before or behind the mapping. -/
@[simp]
theorem map_push (forest : Forest α) (parent : Option Nat)
    : (forest.push parent).map image = (forest.map image).push parent := by
  simp [push, map]

/-- A value may be put before or behind the mapping. -/
@[simp]
theorem map_put (forest : Forest α) (scope : Nat) (name : String) (value : α)
    : (forest.put scope name value).map image
        = (forest.map image).put scope name (image value) := by
  refine congrArg Forest.mk (Array.ext_getElem? fun index => ?_)
  simp only [put, map, Array.getElem?_map, Array.getElem?_modify]
  cases forest.scopes[index]? with
  | none => by_cases here : scope = index <;> simp [here]
  | some found => by_cases here : scope = index <;> simp [here]

/-- A name is held by the same scope. -/
@[simp]
theorem holder?_map (forest : Forest α) (scope : Nat) (name : String)
    : (forest.map image).holder? scope name = forest.holder? scope name := by
  have within (steps scope : Nat)
      : (forest.map image).holderWithin? name steps scope
          = forest.holderWithin? name steps scope := by
    induction steps generalizing scope with
    | zero => rfl
    | succ steps ih =>
        unfold holderWithin?
        rw [cell?_map, Option.isSome_map, parent?_map, funext ih]
  exact within _ scope

/-- A name is found in the image with the image of its value. -/
@[simp]
theorem get?_map (forest : Forest α) (scope : Nat) (name : String)
    : (forest.map image).get? scope name = (forest.get? scope name).map image := by
  unfold get?
  rw [holder?_map]
  cases forest.holder? scope name with
  | none => rfl
  | some holder => exact cell?_map image forest holder name

/-- A walk up the image ends where the walk up the forest ends. -/
@[simp]
theorem ancestor?_map (forest : Forest α) (scope distance : Nat)
    : (forest.map image).ancestor? scope distance = forest.ancestor? scope distance := by
  induction distance generalizing scope with
  | zero => rfl
  | succ distance ih =>
      unfold ancestor?
      rw [parent?_map, funext ih]

/-- A walk up the image fails where the walk up the forest fails. -/
@[simp]
theorem ancestor_map (forest : Forest α) (scope distance : Nat)
    : (forest.map image).ancestor scope distance = forest.ancestor scope distance := by
  unfold ancestor
  rw [ancestor?_map]

/-- A value at a distance is the image of the value at that distance. -/
@[simp]
theorem valueAt_map (forest : Forest α) (scope distance : Nat) (name : String)
    : (forest.map image).valueAt scope distance name
        = (forest.valueAt scope distance name).map image := by
  cases there : forest.ancestor? scope distance with
  | none =>
      rw [valueAt_of_none name there, valueAt_of_none name (by simpa using there)]
      rfl
  | some outer =>
      rw [valueAt_of_ancestor? name there, valueAt_of_ancestor? name (by simpa using there),
        cell?_map]
      cases forest.cell? outer name <;> rfl

end Forest

-----
-- Values

section

variable (move : Nat → Nat)

def Closure.moved (closure : Closure) : Closure :=
  { closure with function := closure.function.moved move }

def ClassBody.moved (body : ClassBody) : ClassBody :=
  { body with methods := body.methods.map (·.moved move) }

def Lineage.moved (lineage : Lineage) : Lineage :=
  { head := lineage.head.moved move, ancestors := lineage.ancestors.map (·.moved move) }

def Value.moved : Value → Value
  | .literal value => .literal value
  | .native function => .native function
  | .closure function => .closure (function.moved move)
  | .class lineage => .class (lineage.moved move)
  | .object address lineage => .object address (lineage.moved move)

def Callable.moved : Callable → Callable
  | .closure function => .closure (function.moved move)
  | .class lineage => .class (lineage.moved move)
  | .native function => .native function

/-- Moving a function to other lines keeps its arity. -/
@[simp]
theorem Closure.moved_arity (closure : Closure) : (closure.moved move).arity = closure.arity := by
  simp [arity, moved]

/-- A method is found in the moved class under the same name. -/
@[simp]
theorem Lineage.moved_method? (lineage : Lineage) (name : String)
    : (lineage.moved move).method? name = (lineage.method? name).map (·.moved move) := by
  have found (bodies : List ClassBody)
      : (bodies.map (·.moved move)).findSome? (fun body => body.methods.get? name)
          = (bodies.findSome? fun body => body.methods.get? name).map (·.moved move) := by
    induction bodies with
    | nil => rfl
    | cons body rest ih =>
        have here
            : (body.moved move).methods.get? name
                = (body.methods.get? name).map (·.moved move) :=
          Table.get?_map _ _ _
        rw [List.map_cons, List.findSome?_cons, List.findSome?_cons, here, ih]
        cases body.methods.get? name <;> rfl
  exact found (lineage.head :: lineage.ancestors)

/-- The initializer of the moved class is the moved one. -/
@[simp]
theorem Lineage.moved_initializer? (lineage : Lineage)
    : (lineage.moved move).initializer? = lineage.initializer?.map (·.moved move) :=
  lineage.moved_method? move "init"

/-- Moving a class to other lines keeps its arity. -/
@[simp]
theorem Lineage.moved_arity (lineage : Lineage) : (lineage.moved move).arity = lineage.arity := by
  unfold arity
  rw [moved_initializer?]
  cases lineage.initializer? with
  | none => rfl
  | some initializer => exact initializer.moved_arity move

namespace Value

/-- Moving a value keeps whether it counts as true. -/
@[simp]
theorem moved_isTruthy (value : Value) : (value.moved move).isTruthy = value.isTruthy := by
  cases value <;> rfl

/-- No text shows the line that a value comes from. -/
@[simp]
theorem moved_text (value : Value) : (value.moved move).text = value.text := by
  cases value <;> rfl

/-- Values compare alike when both are moved. -/
@[simp]
theorem moved_equal (left right : Value)
    : (left.moved move).equal (right.moved move) = left.equal right := by
  cases left with
  | literal value => cases value <;> cases right <;> rfl
  | _ => cases right <;> rfl

/-- What can be called can be called after it was moved. -/
@[simp]
theorem moved_callable? (value : Value)
    : (value.moved move).callable? = value.callable?.map (·.moved move) := by
  cases value <;> rfl

end Value

/-- Moving a callable keeps its arity. -/
@[simp]
theorem Callable.moved_arity (callable : Callable)
    : (callable.moved move).arity = callable.arity := by
  cases callable with
  | closure function => exact function.moved_arity move
  | «class» lineage => exact lineage.moved_arity move
  | native function => rfl

end

-----
-- Errors

/-- The error at the same token on another line. -/
def RuntimeError.moved (move : Nat → Nat) (error : RuntimeError) : RuntimeError :=
  { error with token := error.token.moved move }

/-- Only errors of the program are blamed on tokens. -/
def Fault.moved (move : Nat → Nat) : Fault → Fault
  | .runtime error => .runtime (error.moved move)
  | fault => fault

section

variable (move : Nat → Nat)

/-- Operators do not look at lines, and blame their own token. -/
def movedResult : Except RuntimeError Value → Except RuntimeError Value
  | .ok value => .ok (value.moved move)
  | .error error => .error (error.moved move)

/-- A unary operator yields the moved result, or fails at the moved token. -/
theorem applyUnary_moved (operator : Token) (operand : Value)
    : Value.applyUnary (operator.moved move) (operand.moved move)
        = movedResult move (Value.applyUnary operator operand) := by
  unfold Value.applyUnary
  rw [Token.moved_kind]
  cases operator.kind with
  | bang =>
      simp only [Value.moved_isTruthy]
      rfl
  | minus => rcases operand with ⟨_ | _ | _ | _⟩ | _ | _ | _ | _ <;> rfl
  | _ => rfl

/-- A sum is the moved sum, or fails at the moved token. -/
theorem add_moved (operator : Token) (left right : Value)
    : Value.add (operator.moved move) (left.moved move) (right.moved move)
        = movedResult move (Value.add operator left right) := by
  rcases left with ⟨_ | _ | _ | _⟩ | _ | _ | _ | _
    <;> rcases right with ⟨_ | _ | _ | _⟩ | _ | _ | _ | _ <;> rfl

/-- An operation on numbers yields the same number, or fails at the moved token. -/
theorem applyNumeric_moved (operator : Token) (a b : Float)
    : Value.applyNumeric (operator.moved move) a b
        = movedResult move (Value.applyNumeric operator a b) := by
  unfold Value.applyNumeric
  rw [Token.moved_kind]
  split <;> rfl

/-- A binary operator yields the moved result, or fails at the moved token. -/
theorem applyBinary_moved (operator : Token) (left right : Value)
    : Value.applyBinary (operator.moved move) (left.moved move) (right.moved move)
        = movedResult move (Value.applyBinary operator left right) := by
  unfold Value.applyBinary
  rw [Token.moved_kind]
  split
  · rfl
  · rw [Value.moved_equal]
    rfl
  · rw [Value.moved_equal]
    rfl
  · exact add_moved move operator left right
  · have numeric := applyNumeric_moved move operator
    rcases left with ⟨_ | _ | _ | _⟩ | _ | _ | _ | _
      <;> rcases right with ⟨_ | _ | _ | _⟩ | _ | _ | _ | _ <;> first | rfl | exact numeric _ _

end

end Lox
