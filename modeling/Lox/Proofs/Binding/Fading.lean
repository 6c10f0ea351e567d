import Lox.Proofs.Binding.Lookup

/-! Declarations of the open scopes, and how they come into use.

Binding a use takes its name off the unused ones. Apart from declarations nothing puts a name among
them, and no name is ever forgotten.
-/

namespace Lox.Binding

-----
-- One scope

/-- Names are kept, and nothing becomes unused. -/
structure LocalScope.Fades (before after : LocalScope) : Prop where
  names : ∀ name, before.names.contains name = true → after.names.contains name = true
  unused
    : ∀ name token,
        after.unused.get? name = some token → before.unused.get? name = some token
  distinct : before.unused.Distinct → after.unused.Distinct

/-- The name is there, and it is not unused. -/
structure LocalScope.Spent (scope : LocalScope) (name : String) : Prop where
  known : scope.names.contains name = true
  used : scope.unused.get? name = none

namespace LocalScope.Fades

variable {before between after : LocalScope}

/-- A scope that stays the same fades. -/
theorem refl (scope : LocalScope) : scope.Fades scope :=
  ⟨fun _ => id, fun _ _ => id, id⟩

/-- A scope that fades twice fades. -/
theorem trans (front : before.Fades between) (back : between.Fades after)
    : before.Fades after :=
  {
    names := fun name known => back.names name (front.names name known)
    unused := fun name token left => front.unused name token (back.unused name token left)
    distinct := fun distinct => back.distinct (front.distinct distinct)
  }

/-- A scope without one of its unused names has faded. -/
theorem erased (scope : LocalScope) (name : String)
    : scope.Fades { scope with unused := scope.unused.erase name } := by
  refine ⟨fun _ => id, fun other token left => ?_, fun distinct => distinct.erase name⟩
  rw [Table.get?_erase] at left
  split at left
  · cases left
  · exact left

/-- A name that is defined on both sides makes no difference. -/
theorem defined (fades : before.Fades after) (name : String)
    : (before.defined name).Fades (after.defined name) := by
  refine ⟨fun other known => ?_, fades.unused, fades.distinct⟩
  rcases Table.contains_insert.1 known with same | known
  · exact Table.contains_insert.2 (.inl same)
  · exact Table.contains_insert.2 (.inr (fades.names other known))

end LocalScope.Fades

/-- A name that is spent stays spent while its scope fades. -/
theorem LocalScope.Spent.fades {before after : LocalScope} {name : String}
    (spent : before.Spent name) (fades : before.Fades after)
    : after.Spent name := by
  refine ⟨fades.names name spent.known, ?_⟩
  cases left : after.unused.get? name with
  | none => rfl
  | some token => exact absurd (fades.unused name token left) (by simp [spent.used])

-----
-- Changes of the open scopes

namespace Scopes

/-- A declaration changes the current scope alone. -/
theorem locals_declared (scopes : Scopes) (name : Token) (tracked : Bool)
    : (scopes.declared name tracked).locals
        = scopes.locals.modifyHead (·.declared name tracked) := by
  unfold declared
  cases scopes.locals <;> rfl

/-- A definition changes the current scope alone. -/
theorem locals_defined (scopes : Scopes) (name : String)
    : (scopes.defined name).locals = scopes.locals.modifyHead (·.defined name) := by
  unfold defined
  cases scopes.locals <;> rfl

/-- A declaration warns of nothing. -/
theorem warnings_declared (scopes : Scopes) (name : Token) (tracked : Bool)
    : (scopes.declared name tracked).warnings = scopes.warnings := by
  unfold declared
  cases scopes.locals <;> rfl

/-- A definition warns of nothing. -/
theorem warnings_defined (scopes : Scopes) (name : String)
    : (scopes.defined name).warnings = scopes.warnings := by
  unfold defined
  cases scopes.locals <;> rfl

/-- Closing takes the current scope away. -/
theorem locals_closed (scopes : Scopes) : scopes.closed.locals = scopes.locals.tail := by
  unfold closed
  cases split : scopes.locals with
  | nil => exact split
  | cons scope outer => rfl

/-- Closing warns of the names that are unused in the current scope. -/
theorem warnings_closed (scopes : Scopes)
    : scopes.closed.warnings
        = scopes.warnings ++ (scopes.locals.headD .empty).unusedWarnings := by
  unfold closed
  cases scopes.locals with
  | nil => exact (List.append_nil _).symm
  | cons scope outer => rfl

/-- What is introduced is a matter of the innermost scope. -/
theorem locals_introduced (scopes : Scopes) (name : Option Token)
    : (scopes.introduced name).locals.length = scopes.locals.length
      ∧ (∀ distance, (scopes.introduced name).locals[distance + 1]? = scopes.locals[distance + 1]?)
      ∧ (scopes.introduced name).warnings = scopes.warnings := by
  cases name with
  | none => exact ⟨rfl, fun _ => rfl, rfl⟩
  | some name =>
      refine ⟨?_, fun distance => ?_, ?_⟩
      · rw [introduced, locals_defined, List.length_modifyHead, locals_declared,
          List.length_modifyHead]
      · rw [introduced, locals_defined, List.getElem?_modifyHead, if_neg (Nat.succ_ne_zero _),
          locals_declared, List.getElem?_modifyHead, if_neg (Nat.succ_ne_zero _)]
      · rw [introduced, warnings_defined, warnings_declared]

end Scopes

-----
-- Uses

/-- A name was found nowhere, or it is now used in a scope that has it. -/
def Scopes.Uses (scopes : Scopes) (name : String) (outcome : Option Nat × Scopes) : Prop :=
  (outcome.1 = none
    ∧ outcome.2.locals = scopes.locals
    ∧ outcome.2.warnings = scopes.warnings)
  ∨ ∃ distance scope,
      outcome = (some distance, scopes.used distance name)
      ∧ scopes.locals[distance]? = some scope
      ∧ scope.names.contains name = true

/-- An assignment uses its name at the distance that it is bound to. -/
theorem bindNearest_uses (name : Token) (scopes : Scopes)
    : scopes.Uses name.lexeme (bindNearest name scopes) := by
  cases found : nearest? name.lexeme scopes.locals with
  | none =>
      rw [bindNearest_of_none found]
      exact .inl ⟨rfl, rfl, rfl⟩
  | some distance =>
      obtain ⟨⟨scope, here, has⟩, -⟩ := nearest?_some found
      exact .inr ⟨distance, scope, bindNearest_of_nearest found, here, has⟩

/-- A read uses its name at the distance that it is bound to. -/
theorem bindRead_uses (name : Token) (scopes : Scopes)
    : scopes.Uses name.lexeme (bindRead name scopes) := by
  cases found : (scopes.search name.lexeme).distance with
  | none =>
      rw [bindRead_of_missing found]
      refine .inl ⟨rfl, ?_, ?_⟩ <;>
        · split <;> rfl
  | some distance =>
      obtain ⟨steps, scope, flag, total, here, has, -⟩ := searchFrom_some found
      obtain rfl : distance = steps := by omega
      refine .inr ⟨distance, scope, bindRead_of_found found, here, ?_⟩
      simp [Table.contains, has]

end Lox.Binding
