import Lox.Proofs.Binding.Balance
import Lox.Proofs.Table

/-! What the binder finds for a name in the scopes that are open. -/

namespace Lox.Binding

-----
-- Names of open scopes

/-- Whether the scope at a distance has the name, and whether it is defined there. -/
def flagAt? (views : List (Table Bool)) (distance : Nat) (name : String) : Option Bool :=
  views[distance]?.bind (·.get? name)

/-- At distance zero stands the current scope. -/
@[simp]
theorem flagAt?_zero (view : Table Bool) (views : List (Table Bool)) (name : String)
    : flagAt? (view :: views) 0 name = view.get? name :=
  rfl

/-- One distance more is one scope further out. -/
@[simp]
theorem flagAt?_succ (view : Table Bool) (views : List (Table Bool)) (distance : Nat)
    (name : String)
    : flagAt? (view :: views) (distance + 1) name = flagAt? views distance name :=
  rfl

/-- Outside of all scopes nothing is declared. -/
theorem flagAt?_nil (distance : Nat) (name : String) : flagAt? [] distance name = none :=
  rfl

/-- Only open scopes have names. -/
theorem lt_of_flagAt? {views : List (Table Bool)} {distance : Nat} {name : String} {flag : Bool}
    (found : flagAt? views distance name = some flag)
    : distance < views.length := by
  obtain ⟨view, here, -⟩ := Option.bind_eq_some_iff.1 found
  exact (List.getElem?_eq_some_iff.1 here).1

/-- There are as many views as local scopes. -/
theorem Scopes.views_length (scopes : Scopes) : scopes.views.length = scopes.locals.length :=
  List.length_map _

/-- The view of a scope has the names of the scope. -/
theorem flagAt?_views (scopes : Scopes) (distance : Nat) (name : String)
    : flagAt? scopes.views distance name
        = scopes.locals[distance]?.bind (·.names.get? name) := by
  unfold flagAt? Scopes.views
  rw [List.getElem?_map, Option.bind_map]
  rfl

/-- Declaring and defining change the innermost scope alone. -/
theorem Scopes.views_declared {scopes : Scopes} {view : Table Bool} {views : List (Table Bool)}
    (split : scopes.views = view :: views) (name : Token) (tracked : Bool)
    : (scopes.declared name tracked).views = view.insertIfNew name.lexeme false :: views := by
  obtain ⟨scope, others, found, rfl, rfl⟩ := List.map_eq_cons_iff.1 split
  simp [Scopes.declared, found, Scopes.views, LocalScope.declared]

/-- A definition is one of the innermost view. -/
theorem Scopes.views_defined {scopes : Scopes} {view : Table Bool} {views : List (Table Bool)}
    (split : scopes.views = view :: views) (name : String)
    : (scopes.defined name).views = view.insert name true :: views := by
  obtain ⟨scope, others, found, rfl, rfl⟩ := List.map_eq_cons_iff.1 split
  simp [Scopes.defined, found, Scopes.views, LocalScope.defined]

/-- Outside of all scopes, declarations are global. -/
theorem Scopes.locals_of_views_nil {scopes : Scopes} (none : scopes.views = [])
    : scopes.locals = [] :=
  List.map_eq_nil_iff.1 none

/-- What is known of the names of the scope that declarations go to has changed so. -/
def Scopes.Changes (change : Table Bool → Table Bool) (before after : Scopes) : Prop :=
  before.views = [] ∧ after.views = [] ∧ after.globals = change before.globals
  ∨ ∃ view views,
      before.views = view :: views
      ∧ after.views = change view :: views
      ∧ after.globals = before.globals

/-- A declaration adds its name to the current scope, unless it is there already. -/
theorem Scopes.declared_changes (scopes : Scopes) (name : Token) (tracked : Bool)
    : scopes.Changes (fun view => view.insertIfNew name.lexeme false)
        (scopes.declared name tracked) := by
  unfold Changes
  cases split : scopes.locals with
  | nil => exact .inl (by simp [views, declared, split])
  | cons scope outer => exact .inr (by simp [views, declared, split, LocalScope.declared])

/-- A definition makes its name readable in the current scope. -/
theorem Scopes.defined_changes (scopes : Scopes) (name : String)
    : scopes.Changes (fun view => view.insert name true) (scopes.defined name) := by
  unfold Changes
  cases split : scopes.locals with
  | nil => exact .inl (by simp [views, defined, split])
  | cons scope outer => exact .inr (by simp [views, defined, split, LocalScope.defined])

/-- Two changes in a row change the current scope by one after the other. -/
theorem Scopes.Changes.trans {before between after : Scopes}
    {change change' : Table Bool → Table Bool} (front : before.Changes change between)
    (back : between.Changes change' after)
    : before.Changes (fun view => change' (change view)) after := by
  rcases front with ⟨before, none, globals⟩ | ⟨view, views, before, split, globals⟩
  · rcases back with ⟨-, after, globals'⟩ | ⟨view', views', split, -⟩
    · exact .inl ⟨before, after, by rw [globals', globals]⟩
    · rw [none] at split
      cases split
  · rcases back with ⟨none, -⟩ | ⟨view', views', split', after, globals'⟩
    · rw [none] at split
      cases split
    · obtain ⟨rfl, rfl⟩ := List.cons.inj (split.symm.trans split')
      exact .inr ⟨view, views, before, after, globals'.trans globals⟩

/-- Names that the change leaves alone. -/
theorem Scopes.Changes.other {before after : Scopes} {change : Table Bool → Table Bool}
    (changes : before.Changes change after) {name : String}
    (same : ∀ view, (change view).get? name = view.get? name)
    : (∀ distance, flagAt? after.views distance name = flagAt? before.views distance name)
      ∧ after.globals.get? name = before.globals.get? name := by
  rcases changes with ⟨before, after, globals⟩ | ⟨view, views, before, after, globals⟩
  · exact ⟨fun _ => by rw [before, after], by rw [globals, same]⟩
  · refine ⟨fun distance => ?_, by rw [globals]⟩
    rw [before, after]
    cases distance with
    | zero => exact same view
    | succ distance => rfl

/-- A new scope has no names. -/
@[simp]
theorem LocalScope.get?_empty (name : String) : LocalScope.empty.names.get? name = none :=
  rfl

-----
-- Parameters

/-- The names of a scope to which parameters have been added. -/
def withParameters (view : Table Bool) (parameters : List Token) : Table Bool :=
  parameters.foldl
    (fun view name => (view.insertIfNew name.lexeme false).insert name.lexeme true) view

/-- Behind the parameters each of them is readable. -/
theorem get?_withParameters (view : Table Bool) (parameters : List Token) (name : String)
    : (withParameters view parameters).get? name
        = if name ∈ parameters.map (·.lexeme) then some true else view.get? name := by
  induction parameters generalizing view with
  | nil => simp [withParameters]
  | cons first rest ih =>
      refine (ih _).trans ?_
      rw [Table.get?_insert]
      by_cases same : name = first.lexeme
      · simp [same]
      · rw [if_neg same, Table.get?_insertIfNew_of_ne view false same]
        simp [same]

/-- Declaring parameters makes each of them readable in the innermost view, by induction on them. -/
theorem declareParameters_views {scopes : Scopes} {view : Table Bool}
    {views : List (Table Bool)} (split : scopes.views = view :: views) (parameters : List Token)
    : (parameters.forM declareParameter scopes).2.views
        = withParameters view parameters :: views := by
  induction parameters generalizing scopes view with
  | nil => exact split
  | cons first rest ih =>
      have declared := scopes.views_declared split first false
      exact ih (Scopes.views_defined declared first.lexeme)

/-- Parameters are not global. -/
theorem declareParameters_globals (parameters : List Token) {scopes : Scopes} {scope : LocalScope}
    {outer : List LocalScope} (inner : scopes.locals = scope :: outer)
    : (parameters.forM declareParameter scopes).2.globals = scopes.globals := by
  induction parameters generalizing scopes scope with
  | nil => rfl
  | cons first rest ih =>
      have declared
          : (scopes.declared first false).defined first.lexeme
              = { scopes with
                  locals := (scope.declared first false).defined first.lexeme :: outer } := by
        simp [Scopes.declared, Scopes.defined, inner]
      have split
          : ((scopes.declared first false).defined first.lexeme).locals
              = (scope.declared first false).defined first.lexeme :: outer := by
        rw [declared]
      refine (ih split).trans ?_
      rw [declared]

/-- Declaring parameters changes what is known of names, and nothing else. -/
theorem declareParameters_eq (parameters : List Token) (scopes : Scopes)
    : ∃ locals globals,
        (parameters.forM declareParameter scopes).2
          = { scopes with locals := locals, globals := globals } := by
  induction parameters generalizing scopes with
  | nil => exact ⟨scopes.locals, scopes.globals, rfl⟩
  | cons first rest ih =>
      obtain ⟨locals, globals, declared⟩ := scopes.declared_eq first false
      obtain ⟨locals', globals', defined⟩ :=
        (scopes.declared first false).defined_eq first.lexeme
      obtain ⟨locals'', globals'', others⟩ :=
        ih ((scopes.declared first false).defined first.lexeme)
      refine ⟨locals'', globals'', others.trans ?_⟩
      rw [defined, declared]

-----
-- Uses other than reads

/-- The nearest scope with a name has it, and no scope further in does. -/
theorem nearest?_some {name : String} {locals : List LocalScope} {distance : Nat}
    (found : nearest? name locals = some distance)
    : (∃ scope, locals[distance]? = some scope ∧ scope.names.contains name = true)
      ∧ ∀ nearer < distance, ∀ scope,
          locals[nearer]? = some scope → scope.names.contains name = false := by
  obtain ⟨bound, here, before⟩ := List.findIdx?_eq_some_iff_getElem.1 found
  refine ⟨⟨locals[distance], List.getElem?_eq_getElem bound, here⟩, ?_⟩
  intro nearer less scope there
  obtain ⟨_, rfl⟩ := List.getElem?_eq_some_iff.1 there
  simpa using before nearer less

/-- A name is missing in a view if nothing is found for it. -/
theorem contains_eq_false_iff {view : Table Bool} {name : String}
    : view.contains name = false ↔ view.get? name = none := by
  unfold Table.contains
  cases view.get? name <;> simp

/-- An assignment to a name of no scope is bound to no distance. -/
theorem bindNearest_of_none {name : Token} {scopes : Scopes}
    (missing : nearest? name.lexeme scopes.locals = none)
    : bindNearest name scopes = (none, scopes) := by
  unfold bindNearest
  rw [missing]

/-- An assignment is bound to the nearest scope with its name, whose entry is used then. -/
theorem bindNearest_of_nearest {name : Token} {scopes : Scopes} {distance : Nat}
    (found : nearest? name.lexeme scopes.locals = some distance)
    : bindNearest name scopes = (some distance, scopes.used distance name.lexeme) := by
  unfold bindNearest
  rw [found]

/-- A use that is no read is bound to the nearest scope with the name. -/
theorem bindNearest_some {name : Token} {scopes : Scopes} {distance : Nat}
    (found : (bindNearest name scopes).1 = some distance)
    : (∃ flag, flagAt? scopes.views distance name.lexeme = some flag)
      ∧ ∀ nearer < distance, flagAt? scopes.views nearer name.lexeme = none := by
  have nearest : nearest? name.lexeme scopes.locals = some distance := by
    unfold bindNearest at found
    split at found
    · cases found
    · next other some => exact some.trans found
  obtain ⟨⟨scope, here, has⟩, before⟩ := nearest?_some nearest
  refine ⟨Option.isSome_iff_exists.1 ?_, fun nearer less => ?_⟩
  · rw [flagAt?_views, here]
    exact has
  · rw [flagAt?_views]
    cases there : scopes.locals[nearer]? with
    | none => rfl
    | some scope => exact contains_eq_false_iff.1 (before nearer less scope there)

/-- Where a scope has the name, a use is bound. -/
theorem bindNearest_of_flag {name : Token} {scopes : Scopes} {distance : Nat} {flag : Bool}
    (has : flagAt? scopes.views distance name.lexeme = some flag)
    : ∃ nearest ≤ distance, (bindNearest name scopes).1 = some nearest := by
  rw [flagAt?_views] at has
  obtain ⟨scope, here, named⟩ := Option.bind_eq_some_iff.1 has
  have contains : scope.names.contains name.lexeme = true := by
    simp [Table.contains, named]
  unfold bindNearest
  cases found : nearest? name.lexeme scopes.locals with
  | none =>
      have missing := List.findIdx?_eq_none_iff.1 found scope (List.mem_of_getElem? here)
      rw [contains] at missing
      cases missing
  | some nearest =>
      refine ⟨nearest, Nat.le_of_not_lt fun less => ?_, rfl⟩
      have before := (nearest?_some found).2 distance less scope here
      rw [contains] at before
      cases before

-----
-- Reads

/-- The entry that the search ends at is readable, and none further in is. -/
theorem searchFrom_some {name : String} {own start : Nat} {passed : Bool}
    {locals : List LocalScope} {distance : Nat}
    (found : (searchFrom name own start passed locals).distance = some distance)
    : ∃ steps scope flag,
        distance = start + steps
        ∧ locals[steps]? = some scope
        ∧ scope.names.get? name = some flag
        ∧ (flag = false → own ≤ distance) := by
  induction locals generalizing start passed with
  | nil => cases found
  | cons scope outer ih =>
      unfold searchFrom at found
      split at found
      · obtain ⟨steps, scope', flag, total, rest⟩ := ih found
        exact ⟨steps + 1, scope', flag, by omega, rest⟩
      · next flag has =>
          split at found
          · obtain ⟨steps, scope', flag, total, rest⟩ := ih found
            exact ⟨steps + 1, scope', flag, by omega, rest⟩
          · next stops =>
              obtain rfl : start = distance := Option.some.inj found
              refine ⟨0, scope, flag, rfl, rfl, has, ?_⟩
              rintro rfl
              simpa using stops

/-- A read is bound to the entry that the search ends at, which is used then. -/
theorem bindRead_of_found {name : Token} {scopes : Scopes} {distance : Nat}
    (found : (scopes.search name.lexeme).distance = some distance)
    : bindRead name scopes = (some distance, scopes.used distance name.lexeme) := by
  unfold bindRead
  simp only [found]

/-- A read that finds nothing is bound to no distance, and reported if it is one of itself. -/
theorem bindRead_of_missing {name : Token} {scopes : Scopes}
    (missing : (scopes.search name.lexeme).distance = none)
    : bindRead name scopes
        = (none,
            if scopes.readsItself name.lexeme (scopes.search name.lexeme).passedPending then
              scopes.error name .readInOwnInitializer
            else
              scopes) := by
  unfold bindRead
  simp only [missing]
  split <;> rfl

/-- A read is bound to a scope with the name. If the name is pending there, the scope lies outside
of the function that reads. -/
theorem bindRead_some {name : Token} {scopes : Scopes} {distance : Nat}
    (found : (bindRead name scopes).1 = some distance)
    : ∃ flag,
        flagAt? scopes.views distance name.lexeme = some flag
        ∧ (flag = false → scopes.views.length - scopes.functionBase ≤ distance) := by
  have searched : (scopes.search name.lexeme).distance = some distance := by
    unfold bindRead at found
    simp only at found
    split at found
    · next other some => exact some.trans found
    · split at found <;> cases found
  obtain ⟨steps, scope, flag, total, here, has, outside⟩ := searchFrom_some searched
  obtain rfl : distance = steps := by omega
  refine ⟨flag, ?_, ?_⟩
  · rw [flagAt?_views, here]
    exact has
  · rw [scopes.views_length]
    exact outside

end Lox.Binding
