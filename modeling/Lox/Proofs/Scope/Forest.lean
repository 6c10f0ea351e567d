import Lox.Proofs.Table
import Lox.Scope.Forest

/-! How opening a scope and writing to a scope change the others: not at all. -/

namespace Lox.Forest

variable {α : Type} (forest : Forest α)

-----
-- Places

/-- A scope with a parent is in the forest. -/
theorem lt_size_of_parent? {forest : Forest α} {scope parent : Nat}
    (found : forest.parent? scope = some parent)
    : scope < forest.size := by
  obtain ⟨held, there, -⟩ := Option.bind_eq_some_iff.1 found
  exact (Array.getElem?_eq_some_iff.1 there).1

/-- A scope with a cell is in the forest. -/
theorem lt_size_of_cell? {forest : Forest α} {scope : Nat} {name : String} {value : α}
    (found : forest.cell? scope name = some value)
    : scope < forest.size := by
  obtain ⟨held, there, -⟩ := Option.bind_eq_some_iff.1 found
  exact (Array.getElem?_eq_some_iff.1 there).1

/-- Outside of the forest there are no cells. -/
theorem cell?_of_size_le {forest : Forest α} {scope : Nat} (outside : forest.size ≤ scope)
    (name : String)
    : forest.cell? scope name = none := by
  cases found : forest.cell? scope name with
  | none => rfl
  | some value => exact absurd (lt_size_of_cell? found) (Nat.not_lt_of_le outside)

-----
-- Opening a scope

/-- One scope more is there behind a new one. -/
@[simp]
theorem size_push (parent : Option Nat) : (forest.push parent).size = forest.size + 1 :=
  Array.size_push _

/-- The new scope has its parent, and the others have theirs. -/
theorem parent?_push (parent : Option Nat) (scope : Nat)
    : (forest.push parent).parent? scope
        = if scope = forest.size then parent else forest.parent? scope := by
  by_cases last : scope = forest.size
  · rw [if_pos last]
    have last : scope = forest.scopes.size := last
    simp [parent?, push, last]
  · rw [if_neg last]
    have last : scope ≠ forest.scopes.size := last
    simp [parent?, push, Array.getElem?_push, last]

/-- A new scope has no names yet. -/
@[simp]
theorem cell?_push (parent : Option Nat) (scope : Nat) (name : String)
    : (forest.push parent).cell? scope name = forest.cell? scope name := by
  simp only [cell?, push, Array.getElem?_push]
  split
  · next last =>
      rw [last, Array.getElem?_eq_none (Nat.le_refl _)]
      rfl
  · rfl

-----
-- Writing to a scope

/-- Putting a value adds no scope. -/
@[simp]
theorem size_put (scope : Nat) (name : String) (value : α)
    : (forest.put scope name value).size = forest.size :=
  Array.size_modify

/-- Putting a value moves no scope. -/
@[simp]
theorem parent?_put (scope : Nat) (name : String) (value : α) (other : Nat)
    : (forest.put scope name value).parent? other = forest.parent? other := by
  simp only [parent?, put, Array.getElem?_modify]
  split <;> cases forest.scopes[other]? <;> rfl

/-- The value is in its cell if the scope exists, and the other cells are as before. -/
theorem cell?_put (scope : Nat) (name : String) (value : α) (other : Nat) (name' : String)
    : (forest.put scope name value).cell? other name'
        = if other = scope ∧ scope < forest.size ∧ name' = name then some value
          else forest.cell? other name' := by
  have run
      : (forest.put scope name value).cell? other name'
          = ((if scope = other then
                forest.scopes[other]?.map fun held : Scope α =>
                  { held with values := held.values.insert name value }
              else forest.scopes[other]?).bind fun held => held.values.get? name') := by
    simp only [cell?, put, Array.getElem?_modify]
  rw [run]
  by_cases here : scope = other
  · subst here
    rw [if_pos rfl]
    cases found : forest.scopes[scope]? with
    | none =>
        have outside : ¬scope < forest.size := Nat.not_lt_of_le (Array.getElem?_eq_none_iff.1 found)
        simp [outside, cell?, found]
    | some held =>
        have inside : scope < forest.size := (Array.getElem?_eq_some_iff.1 found).1
        change (held.values.insert name value).get? name' = _
        rw [Table.get?_insert]
        by_cases same : name' = name <;> simp [same, inside, cell?, found]
  · rw [if_neg here, if_neg (fun both => here both.1.symm)]
    rfl

/-- The value is in its cell. -/
theorem cell?_put_self {scope : Nat} (inside : scope < forest.size) (name : String) (value : α)
    : (forest.put scope name value).cell? scope name = some value := by
  rw [cell?_put, if_pos ⟨rfl, inside, rfl⟩]

/-- The cells of other names are as before. -/
theorem cell?_put_of_ne (scope : Nat) {name name' : String} (value : α) (other : Nat)
    (apart : name' ≠ name)
    : (forest.put scope name value).cell? other name' = forest.cell? other name' := by
  rw [cell?_put, if_neg fun both => apart both.2.2]

/-- What is defined stays defined. -/
theorem cell?_put_isSome {scope other : Nat} {name name' : String} {value : α}
    (defined : (forest.cell? other name').isSome = true)
    : ((forest.put scope name value).cell? other name').isSome = true := by
  rw [cell?_put]
  split
  · rfl
  · exact defined

/-- Writing to the scope that comes last. -/
theorem put_last (scopes : Array (Scope α)) (last : Scope α) (name : String)
    (value : α)
    : (⟨scopes.push last⟩ : Forest α).put scopes.size name value
        = ⟨scopes.push { last with values := last.values.insert name value }⟩ := by
  unfold put
  congr 1
  apply Array.ext_getElem?
  intro index
  rw [Array.getElem?_modify, Array.getElem?_push, Array.getElem?_push]
  by_cases here : index = scopes.size
  · rw [if_pos here.symm, if_pos here, if_pos here]
    rfl
  · rw [if_neg (Ne.symm here), if_neg here, if_neg here]

-----
-- Chains

/-- Where a name is held there is a cell. -/
theorem holderWithin?_isSome {forest : Forest α} {name : String} {steps scope holder : Nat}
    (found : forest.holderWithin? name steps scope = some holder)
    : (forest.cell? holder name).isSome = true := by
  induction steps generalizing scope with
  | zero => cases found
  | succ steps ih =>
      unfold holderWithin? at found
      split at found
      · next defined => exact Option.some.inj found ▸ defined
      · obtain ⟨outer, -, beyond⟩ := Option.bind_eq_some_iff.1 found
        exact ih beyond

/-- Whatever holds a name has a value for it. -/
theorem holder?_isSome {forest : Forest α} {name : String} {scope holder : Nat}
    (found : forest.holder? scope name = some holder)
    : (forest.cell? holder name).isSome = true :=
  holderWithin?_isSome found

/-- A scope holds the names that it defines itself. -/
theorem holder?_of_isSome {forest : Forest α} {scope : Nat} {name : String}
    (defined : (forest.cell? scope name).isSome = true)
    : forest.holder? scope name = some scope :=
  if_pos defined

-----
-- Distances

/-- A walk that stays in the forest ends in a scope. -/
theorem ancestor_of_ancestor? {forest : Forest α} {scope distance outer : Nat}
    (there : forest.ancestor? scope distance = some outer)
    : forest.ancestor scope distance = .ok outer := by
  unfold ancestor
  rw [there]

/-- A chain that is too short has no value. -/
theorem valueAt_of_none {forest : Forest α} {scope distance : Nat} (name : String)
    (beyond : forest.ancestor? scope distance = none)
    : forest.valueAt scope distance name = .error (.noEnclosingScope distance) := by
  unfold valueAt ancestor
  rw [beyond]
  rfl

/-- A walk out of the forest is an error. -/
theorem ancestor_of_none {forest : Forest α} {scope distance : Nat}
    (beyond : forest.ancestor? scope distance = none)
    : forest.ancestor scope distance = .error (.noEnclosingScope distance) := by
  unfold ancestor
  rw [beyond]

/-- The value at a distance is the one in the scope that the walk ends in. -/
theorem valueAt_of_ancestor? {forest : Forest α} {scope distance outer : Nat} (name : String)
    (there : forest.ancestor? scope distance = some outer)
    : forest.valueAt scope distance name
        = match forest.cell? outer name with
          | some value => .ok value
          | none => .error .undefined := by
  unfold valueAt
  rw [ancestor_of_ancestor? there]
  rfl

/-- A cell that is there is read. -/
theorem valueAt_held {forest : Forest α} {scope distance outer : Nat} {name : String} {value : α}
    (there : forest.ancestor? scope distance = some outer)
    (held : forest.cell? outer name = some value)
    : forest.valueAt scope distance name = .ok value := by
  rw [valueAt_of_ancestor? name there, held]

/-- A cell that is missing is an error. -/
theorem valueAt_missing {forest : Forest α} {scope distance outer : Nat} {name : String}
    (there : forest.ancestor? scope distance = some outer)
    (missing : forest.cell? outer name = none)
    : forest.valueAt scope distance name = .error .undefined := by
  rw [valueAt_of_ancestor? name there, missing]

end Lox.Forest
