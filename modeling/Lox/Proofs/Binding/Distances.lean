import Lox.Proofs.Binding.Lookup
import Lox.Proofs.Binding.Reads
import Lox.Proofs.Grammar.Naming
import Mathlib.Data.List.Forall2

/-! The walk through a program gives every read the distance that the text tells.

What the binder knows of a scope agrees with the statements of the scope up to the place reached:
a name is defined in it where it is declared and not pending. So a search of the open scopes and a
search of the text stop at the same scope.
-/

namespace Lox

/-- What gives a name its initial value introduces the name, by cases on the statement. -/
theorem Stmt.introduces_of_initializes {ρ : Type} (stmt : Stmt ρ) {name : String}
    (initializes : stmt.initializes name = true)
    : stmt.introduces name = true := by
  cases stmt <;> simp_all [Stmt.initializes, Stmt.introduces, Stmt.introduces?]

namespace Binding

-----
-- What is known of a name

namespace Enclosing

variable {scope : Enclosing} {stmt : Stmt Unit}

/-- Whether the scope declares the name, and whether it is defined there. -/
def flag? (scope : Enclosing) (name : String) : Option Bool :=
  if scope.declares name then some (!scope.pending name) else none

/-- Only what is declared can be pending. -/
theorem declares_of_pending {name : String} (pending : scope.pending name = true)
    : scope.declares name = true := by
  simp only [Enclosing.pending, Bool.and_eq_true, Option.any_eq_true] at pending
  obtain ⟨-, stmt, current, initializes⟩ := pending
  simp [declares, current, stmt.introduces_of_initializes initializes]

/-- Between two statements everything that a scope declares is defined. -/
theorem flag?_of_idle (idle : scope.current? = none) (name : String)
    : scope.flag? name
        = if scope.hasParameter name || scope.earlier.any (·.introduces name) then some true
          else none := by
  simp [flag?, declares, pending, idle]

/-- On coming to a statement a name is defined if it was before, and pending if the statement
initializes it. -/
theorem flag?_entered (idle : scope.current? = none) (stmt : Stmt Unit) (name : String)
    : (scope.entered stmt).flag? name
        = if scope.flag? name = some true then some true
          else if stmt.initializes name then some false
          else if stmt.introduces name then some true
          else none := by
  have introduces : stmt.initializes name = true → stmt.introduces name = true :=
    stmt.introduces_of_initializes
  have parameters : (scope.entered stmt).hasParameter name = scope.hasParameter name := rfl
  rw [flag?_of_idle idle, flag?, declares, pending, parameters]
  simp only [entered, Option.toList_some, List.any_append, List.any_cons, List.any_nil,
    Bool.or_false, Option.any_some]
  cases scope.hasParameter name <;> cases scope.earlier.any (·.introduces name) <;>
    cases begun : stmt.initializes name <;> cases named : stmt.introduces name <;> simp_all

/-- Behind a statement the name that it introduces is defined, and the others are as before. -/
theorem flag?_passed (idle : scope.current? = none) (stmt : Stmt Unit) (name : String)
    : (scope.passed stmt).flag? name
        = if stmt.introduces name then some true else scope.flag? name := by
  rw [flag?_of_idle idle, flag?_of_idle (show (scope.passed stmt).current? = none from rfl)]
  simp only [passed, hasParameter, List.any_append, List.any_cons, List.any_nil, Bool.or_false]
  cases stmt.introduces name <;> simp

end Enclosing

/-- What is known of the names of a scope is what its text tells. Names such as `this`, which no
text introduces, are left open. -/
def Shows (knownGlobals : List String) (view : Table Bool) (scope : Enclosing) : Prop :=
  ∀ name,
    name ≠ "this"
    → name ≠ "super"
    → view.get? name = if knownGlobals.contains name then some true else scope.flag? name

-----
-- Statements

/-- What is known of the names of a scope when the parts of a statement are walked through. -/
def beginning (stmt : Stmt Unit) (view : Table Bool) : Table Bool :=
  match stmt with
  | .variable name _ => view.insertIfNew name.lexeme false
  | .function name _ | .class name _ _ =>
      (view.insertIfNew name.lexeme false).insert name.lexeme true
  | _ => view

def introducing (name? : Option Token) (view : Table Bool) : Table Bool :=
  match name? with
  | none => view
  | some name => (view.insertIfNew name.lexeme false).insert name.lexeme true

/-- Introducing a name defines it and leaves the other names as they are. -/
theorem get?_introducing (name? : Option Token) (view : Table Bool) (name : String)
    : (introducing name? view).get? name
        = if name?.any (·.lexeme = name) then some true else view.get? name := by
  cases name? with
  | none => rfl
  | some declared =>
      by_cases same : name = declared.lexeme
      · simp [introducing, Table.get?_insert, same]
      · have apart : ¬declared.lexeme = name := fun found => same found.symm
        simp [introducing, Table.get?_insert, Table.get?_insertIfNew, same, apart]

/-- What a variable declaration finds defined stays so. -/
theorem get?_beginning (stmt : Stmt Unit) (view : Table Bool) (name : String)
    : (beginning stmt view).get? name
        = if stmt.initializes name then some ((view.get? name).getD false)
          else if stmt.introduces name then some true
          else view.get? name := by
  match stmt with
  | .variable declared _ =>
      by_cases same : name = declared.lexeme
      · subst same
        cases found : view.get? declared.lexeme <;>
          simp [beginning, Stmt.initializes, Table.get?_insertIfNew, found]
      · have apart : ¬declared.lexeme = name := fun found => same found.symm
        simp [beginning, Stmt.initializes, Stmt.introduces, Stmt.introduces?,
          Table.get?_insertIfNew, same, apart]
  | .function declared _ => exact get?_introducing (some declared) view name
  | .class declared _ _ => exact get?_introducing (some declared) view name
  | .expression _ | .print _ | .printLine _ | .block _ | .branch _ _ _ | .loop _ _ | .breakLoop _
  | .returnValue _ _ => rfl

namespace Shows

variable {knownGlobals : List String} {view : Table Bool} {scope : Enclosing}

/-- On coming to a statement the names still show what the text tells. -/
theorem entered (shows : Shows knownGlobals view scope) (idle : scope.current? = none)
    (stmt : Stmt Unit)
    : Shows knownGlobals (beginning stmt view) (scope.entered stmt) := by
  intro name notThis notSuper
  rw [get?_beginning, Enclosing.flag?_entered idle, shows name notThis notSuper,
    Enclosing.flag?_of_idle idle]
  cases knownGlobals.contains name <;>
    cases scope.hasParameter name || scope.earlier.any (·.introduces name) <;>
    cases stmt.initializes name <;> cases stmt.introduces name <;> rfl

/-- Behind a statement the names still show what the text tells. -/
theorem passed (shows : Shows knownGlobals view scope) (idle : scope.current? = none)
    (stmt : Stmt Unit)
    : Shows knownGlobals (introducing stmt.introduces? view) (scope.passed stmt) := by
  intro name notThis notSuper
  rw [get?_introducing, Enclosing.flag?_passed idle, shows name notThis notSuper]
  change (if stmt.introduces name then _ else _) = _
  split <;> simp

end Shows

-----
-- Contexts

/-- How many scopes belong to the function that the place is in. -/
def ownScopes : List Enclosing → Nat
  | [] => 0
  | scope :: outer => if scope.isFunction then 1 else ownScopes outer + 1

/-- The scopes of a function are those with distances below their number. -/
theorem Context.owns_iff {context : Context} {distance : Nat}
    (bound : distance < context.locals.length)
    : context.owns distance = true ↔ distance < ownScopes context.locals := by
  obtain ⟨locals, top⟩ := context
  change (locals.take distance).all (!·.isFunction) = true ↔ distance < ownScopes locals
  replace bound : distance < locals.length := bound
  induction locals generalizing distance with
  | nil => exact absurd bound (Nat.not_lt_zero _)
  | cons scope outer ih =>
      unfold ownScopes
      cases distance with
      | zero => split <;> simp
      | succ distance =>
          have further := ih (Nat.lt_of_succ_lt_succ bound)
          cases function : scope.isFunction <;> simp [function, further]

/-- The binder knows at a place what the text around it tells. -/
structure Context.Describes (context : Context) (knownGlobals : List String) (scopes : Scopes)
    : Prop where
  locals : List.Forall₂ (Shows []) scopes.views context.locals
  globals : Shows knownGlobals scopes.globals context.top
  inFunction : scopes.inFunction = context.inFunction
  functionBase : scopes.functionBase + ownScopes context.locals = context.locals.length
  top : context.top.parameters? = none

/-- The place lies between the statements of the innermost scope. -/
def Context.Idle (context : Context) : Prop :=
  match context.locals with
  | [] => context.top.current? = none
  | scope :: _ => scope.current? = none

/-- Behind a statement none is under way. -/
theorem Context.Idle.passed (context : Context) (stmt : Stmt Unit)
    : (context.passed stmt).Idle := by
  obtain ⟨locals, top⟩ := context
  cases locals <;> rfl

namespace Context.Describes

variable {context : Context} {knownGlobals : List String} {scopes after : Scopes}

/-- What describes a state describes any other with the same names, globals and functions. -/
theorem congr (describes : context.Describes knownGlobals scopes)
    (views : after.views = scopes.views) (globals : after.globals = scopes.globals)
    (inFunction : after.inFunction = scopes.inFunction)
    (functionBase : after.functionBase = scopes.functionBase)
    : context.Describes knownGlobals after :=
  {
    locals := views ▸ describes.locals
    globals := globals ▸ describes.globals
    inFunction := inFunction.trans describes.inFunction
    functionBase := by rw [functionBase, describes.functionBase]
    top := describes.top
  }

/-- An action that keeps the scopes keeps what describes them. -/
theorem kept (describes : context.Describes knownGlobals scopes) (kept : scopes.Kept after)
    : context.Describes knownGlobals after :=
  describes.congr kept.views kept.globals kept.inFunction kept.functionBase

/-- A change of what is known goes with the change of the text that it is due to. -/
theorem changed (describes : context.Describes knownGlobals scopes) (idle : context.Idle)
    {change : Table Bool → Table Bool} {changed : Enclosing → Enclosing}
    (shows
      : ∀ {knownGlobals view scope},
          Shows knownGlobals view scope
          → scope.current? = none
          → Shows knownGlobals (change view) (changed scope))
    (parameters : ∀ scope, (changed scope).parameters? = scope.parameters?)
    (changes : scopes.Changes change after) (inFunction : after.inFunction = scopes.inFunction)
    (functionBase : after.functionBase = scopes.functionBase)
    : (context.changed changed).Describes knownGlobals after := by
  obtain ⟨locals, globals, within, base, noParameters⟩ := describes
  obtain ⟨around, top⟩ := context
  have function (scope : Enclosing) : (changed scope).isFunction = scope.isFunction := by
    rw [Enclosing.isFunction, parameters, Enclosing.isFunction]
  rcases changes with ⟨none, none', changedGlobals⟩ | ⟨view, views, split, split', same⟩
  · rw [none, List.forall₂_nil_left_iff] at locals
    subst locals
    exact {
      locals := none' ▸ .nil
      globals := changedGlobals ▸ shows globals idle
      inFunction := inFunction.trans within
      functionBase := functionBase ▸ base
      top := (parameters top).trans noParameters
    }
  · rw [split, List.forall₂_cons_left_iff] at locals
    obtain ⟨scope, outer, known, others, rfl⟩ := locals
    exact {
      locals := split' ▸ .cons (shows known idle) others
      globals := same ▸ globals
      inFunction := by
        rw [inFunction, within]
        simp [Context.inFunction, Context.changed, function]
      functionBase := by
        rw [functionBase]
        simpa [Context.changed, ownScopes, function] using base
      top := noParameters
    }

/-- A scope opens in which nothing is known yet, or a name that no text introduces. -/
theorem opened (describes : context.Describes knownGlobals scopes) {view : Table Bool}
    (views : after.views = view :: scopes.views)
    (empty : ∀ name, name ≠ "this" → name ≠ "super" → view.get? name = none)
    (globals : after.globals = scopes.globals) (inFunction : after.inFunction = scopes.inFunction)
    (functionBase : after.functionBase = scopes.functionBase)
    : (context.inside .block).Describes knownGlobals after where
  locals := views ▸ .cons empty describes.locals
  globals := globals ▸ describes.globals
  inFunction := by
    rw [inFunction, describes.inFunction]
    simp [Context.inFunction, inside, Enclosing.block, Enclosing.isFunction]
  functionBase := by
    have base := describes.functionBase
    simp only [inside, ownScopes, Enclosing.block, Enclosing.isFunction, Option.isSome_none,
      Bool.false_eq_true, if_false, List.length_cons, functionBase]
    omega
  top := describes.top

/-- Opening a block adds a scope without any names. -/
theorem inBlock (describes : context.Describes knownGlobals scopes)
    : (context.inside .block).Describes knownGlobals scopes.opened :=
  describes.opened rfl (fun _ _ _ => rfl) rfl rfl rfl

/-- Opening a scope for `this` or `super` adds one without any names of the text. -/
theorem inImplicit (describes : context.Describes knownGlobals scopes) {implicit : String}
    (unnamed : implicit = "this" ∨ implicit = "super")
    : (context.inside .block).Describes knownGlobals (scopes.opened.defined implicit) := by
  refine describes.opened (Scopes.views_defined rfl implicit) (fun name notThis notSuper => ?_) rfl
    rfl rfl
  rw [Table.get?_insert_of_ne]
  · rfl
  · rcases unnamed with rfl | rfl
    · exact notThis
    · exact notSuper

/-- A function starts with its parameters. -/
theorem inLambda (describes : context.Describes knownGlobals scopes) (parameters : List Token)
    : (context.inside (.function parameters)).Describes knownGlobals
        (parameters.forM declareParameter scopes.enteredFunction.opened).2 := by
  have views
      : (parameters.forM declareParameter scopes.enteredFunction.opened).2.views
          = withParameters .empty parameters :: scopes.views :=
    declareParameters_views rfl parameters
  have globals
      : (parameters.forM declareParameter scopes.enteredFunction.opened).2.globals
          = scopes.globals :=
    declareParameters_globals parameters rfl
  obtain ⟨_, _, others⟩ := declareParameters_eq parameters scopes.enteredFunction.opened
  exact {
    locals := by
      rw [views]
      refine .cons (fun name _ _ => ?_) describes.locals
      rw [get?_withParameters, Enclosing.flag?_of_idle rfl]
      simp [Enclosing.hasParameter, Enclosing.function, Table.get?_empty]
    globals := globals ▸ describes.globals
    inFunction := by
      rw [others]
      rfl
    functionBase := by
      rw [others]
      have length := describes.locals.length_eq
      rw [scopes.views_length] at length
      exact congrArg Nat.succ length
    top := describes.top
  }

end Context.Describes

/-- When the parts of a statement are walked through, a function or class has been defined, and a
variable declared. -/
def Scopes.begun (scopes : Scopes) : Stmt Unit → Scopes
  | .variable name _ => scopes.declared name true
  | .function name _ | .class name _ _ => scopes.introduced (some name)
  | _ => scopes

/-- Nothing changes in the names of the scopes. -/
theorem Scopes.Changes.refl (scopes : Scopes) : scopes.Changes id scopes := by
  unfold Changes
  cases split : scopes.views with
  | nil => exact .inl ⟨rfl, rfl, rfl⟩
  | cons view views => exact .inr ⟨view, views, rfl, rfl, rfl⟩

/-- Introducing a name changes the innermost scope only. -/
theorem Scopes.introduced_changes (scopes : Scopes) (name? : Option Token)
    : scopes.Changes (introducing name?) (scopes.introduced name?) := by
  cases name? with
  | none => exact .refl scopes
  | some name => exact (scopes.declared_changes name true).trans (defined_changes _ name.lexeme)

/-- On coming to a statement the names of the innermost scope change only. -/
theorem Scopes.begun_changes (scopes : Scopes) (stmt : Stmt Unit)
    : scopes.Changes (beginning stmt) (scopes.begun stmt) := by
  match stmt with
  | .variable name _ => exact scopes.declared_changes name true
  | .function name _ | .class name _ _ => exact scopes.introduced_changes (some name)
  | .expression _ | .print _ | .printLine _ | .block _ | .branch _ _ _ | .loop _ _ | .breakLoop _
  | .returnValue _ _ => exact .refl scopes

/-- On coming to a statement nothing but names changes. -/
theorem Scopes.begun_eq (scopes : Scopes) (stmt : Stmt Unit)
    : ∃ locals globals,
        scopes.begun stmt = { scopes with locals := locals, globals := globals } := by
  match stmt with
  | .variable name _ => exact scopes.declared_eq name true
  | .function name _ | .class name _ _ => exact scopes.introduced_eq (some name)
  | .expression _ | .print _ | .printLine _ | .block _ | .branch _ _ _ | .loop _ _ | .breakLoop _
  | .returnValue _ _ => exact ⟨scopes.locals, scopes.globals, rfl⟩

namespace Context.Describes

variable {context : Context} {knownGlobals : List String} {scopes after : Scopes}

/-- The text describes the state on coming to a statement. -/
theorem entered (describes : context.Describes knownGlobals scopes) (idle : context.Idle)
    (stmt : Stmt Unit)
    : (context.entered stmt).Describes knownGlobals (scopes.begun stmt) := by
  obtain ⟨locals, globals, begun⟩ := scopes.begun_eq stmt
  exact describes.changed idle (fun shows idle => shows.entered idle stmt) (fun _ => rfl)
    (scopes.begun_changes stmt) (by rw [begun]) (by rw [begun])

/-- The text describes the state behind a statement. -/
theorem passed (describes : context.Describes knownGlobals scopes) (idle : context.Idle)
    {stmt : Stmt Unit} (proper : stmt.Proper)
    : (context.passed stmt).Describes knownGlobals (bindStmt stmt scopes).2 := by
  obtain ⟨locals, globals, introduced⟩ := scopes.introduced_eq stmt.introduces?
  have introduces
      : (context.passed stmt).Describes knownGlobals (scopes.introduced stmt.introduces?) :=
    describes.changed idle (fun shows idle => shows.passed idle stmt) (fun _ => rfl)
      (scopes.introduced_changes stmt.introduces?) (by rw [introduced]) (by rw [introduced])
  exact introduces.kept (bindStmt_introduces stmt scopes proper)

end Context.Describes

-----
-- Searching

/-- The scope at the distance has the name pending, and is one of those to be looked past. -/
def skipsAt (around : List Enclosing) (name : String) (own start distance : Nat) : Bool :=
  around[distance]?.any (·.pending name) && start + distance < own

/-- The scope at the distance has the name, and is none of those to be looked past. -/
def holdsAt (around : List Enclosing) (name : String) (own start distance : Nat) : Bool :=
  around[distance]?.any (·.declares name) && !skipsAt around name own start distance

section

variable (scope : Enclosing) (outer : List Enclosing) (name : String) (own start : Nat)

/-- The scope at a distance in the outer scopes is at one more from inside. -/
theorem skipsAt_succ (distance : Nat)
    : skipsAt (scope :: outer) name own start (distance + 1)
        = skipsAt outer name own (start + 1) distance := by
  simp [skipsAt, Nat.add_assoc, Nat.add_comm 1]

/-- The scope at a distance in the outer scopes is at one more from inside, holding what it holds.
-/
theorem holdsAt_succ (distance : Nat)
    : holdsAt (scope :: outer) name own start (distance + 1)
        = holdsAt outer name own (start + 1) distance := by
  simp [holdsAt, skipsAt_succ]

/-- A scope is skipped if the innermost one is, or if one of the others is. -/
theorem any_skipsAt_cons
    : (List.range (outer.length + 1)).any (skipsAt (scope :: outer) name own start)
        = (scope.pending name && decide (start < own)
          || (List.range outer.length).any (skipsAt outer name own (start + 1))) := by
  rw [List.range_succ_eq_map, List.any_cons, List.any_map]
  have further
      : skipsAt (scope :: outer) name own start ∘ Nat.succ = skipsAt outer name own (start + 1) :=
    funext (skipsAt_succ scope outer name own start)
  rw [further]
  rfl

/-- The innermost scope holds the name if it declares and does not skip it, and otherwise an outer
one does. -/
theorem find?_holdsAt_cons
    : (List.range (outer.length + 1)).find? (holdsAt (scope :: outer) name own start)
        = if scope.declares name && !(scope.pending name && decide (start < own)) then some 0
          else ((List.range outer.length).find? (holdsAt outer name own (start + 1))).map (· + 1) := by
  rw [List.range_succ_eq_map, List.find?_cons, List.find?_map]
  have further
      : holdsAt (scope :: outer) name own start ∘ Nat.succ = holdsAt outer name own (start + 1) :=
    funext (holdsAt_succ scope outer name own start)
  rw [further]
  change (match scope.declares name && !(scope.pending name && decide (start < own)) with
    | true => some 0
    | false => _) = _
  split <;> simp_all

end

/-- A search of the open scopes stops where the text says. If it does not stop it has told whether
it passed over a pending name. -/
theorem searchFrom_shows {name : String} (notThis : name ≠ "this") (notSuper : name ≠ "super")
    {locals : List LocalScope} {around : List Enclosing}
    (shows : List.Forall₂ (Shows []) (locals.map (·.names)) around) (own start : Nat)
    (passed : Bool)
    : (searchFrom name own start passed locals).distance
          = ((List.range around.length).find? (holdsAt around name own start)).map (start + ·)
      ∧ ((searchFrom name own start passed locals).distance = none
        → (searchFrom name own start passed locals).passedPending
            = (passed || (List.range around.length).any (skipsAt around name own start))) := by
  induction around generalizing locals start passed with
  | nil =>
      obtain rfl : locals = [] := by simpa using shows
      simp [searchFrom]
  | cons scope outer ih =>
      cases locals with
      | nil => cases shows
      | cons opened others =>
          obtain ⟨known, further⟩ := List.forall₂_cons.1 shows
          have rest := ih further (start + 1)
          have flag : opened.names.get? name = scope.flag? name := known name notThis notSuper
          have shifted (found : Option Nat)
              : (found.map (· + 1)).map (start + ·) = found.map (start + 1 + ·) := by
            cases found <;> simp [Nat.add_comm, Nat.add_left_comm]
          rw [List.length_cons, find?_holdsAt_cons, any_skipsAt_cons, searchFrom, flag,
            Enclosing.flag?]
          cases declared : scope.declares name with
          | false =>
              have settled : scope.pending name = false := by
                cases pending : scope.pending name with
                | false => rfl
                | true => exact absurd (Enclosing.declares_of_pending pending) (by simp [declared])
              simp only [settled, Bool.false_and, Bool.false_or, Bool.false_eq_true, if_false,
                shifted]
              exact rest passed
          | true =>
              simp only [if_true, Bool.not_not, Bool.true_and]
              cases scope.pending name && decide (start < own) with
              | false => simp
              | true => simpa [shifted] using rest true

-----
-- Reads

namespace Context.Describes

variable {context : Context} {knownGlobals : List String} {scopes : Scopes} {name : Token}

/-- The scopes that the binder counts to the function are those that the text does. -/
theorem own (describes : context.Describes knownGlobals scopes)
    : scopes.locals.length - scopes.functionBase = ownScopes context.locals := by
  have length := describes.locals.length_eq
  have base := describes.functionBase
  rw [scopes.views_length] at length
  omega

/-- The scopes that the binder skips are those that the text skips. -/
theorem skipsAt_eq (describes : context.Describes knownGlobals scopes) (name : String)
    : skipsAt context.locals name (scopes.locals.length - scopes.functionBase) 0
        = context.skips name := by
  funext distance
  rw [describes.own]
  unfold skipsAt Context.skips
  by_cases bound : distance < context.locals.length
  · congr 1
    rw [Bool.eq_iff_iff, context.owns_iff bound]
    simp
  · rw [List.getElem?_eq_none (Nat.le_of_not_lt bound)]
    rfl

/-- The scopes that hold a name for the binder are those that hold it in the text. -/
theorem holdsAt_eq (describes : context.Describes knownGlobals scopes) (name : String)
    : holdsAt context.locals name (scopes.locals.length - scopes.functionBase) 0
        = context.holds name := by
  funext distance
  rw [holdsAt, describes.skipsAt_eq]
  rfl

/-- A search of the open scopes finds what the text tells. -/
theorem search (describes : context.Describes knownGlobals scopes) (isName : name.IsName)
    : (scopes.search name.lexeme).distance = context.distance? name.lexeme
      ∧ ((scopes.search name.lexeme).distance = none
        → (scopes.search name.lexeme).passedPending
            = (List.range context.locals.length).any (context.skips name.lexeme)) := by
  obtain ⟨-, notThis, notSuper⟩ := isName
  have searched :=
    searchFrom_shows notThis notSuper describes.locals
      (scopes.locals.length - scopes.functionBase) 0 false
  rw [describes.holdsAt_eq, describes.skipsAt_eq] at searched
  simpa [Scopes.search, Context.distance?] using searched

/-- Among the globals only the variable that is being initialized is not defined. -/
theorem globals_get? (describes : context.Describes knownGlobals scopes) (isName : name.IsName)
    : scopes.globals.get? name.lexeme
        = if context.hasGlobal knownGlobals name.lexeme then some true
          else if context.top.current?.any (·.initializes name.lexeme) then some false
          else none := by
  obtain ⟨-, notThis, notSuper⟩ := isName
  have noParameter : context.top.hasParameter name.lexeme = false := by
    rw [Enclosing.hasParameter, describes.top]
    rfl
  rw [describes.globals name.lexeme notThis notSuper]
  unfold Enclosing.flag? Enclosing.declares Enclosing.pending Context.hasGlobal
  cases current : context.top.current? with
  | none =>
      simp only [noParameter, Option.toList_none, List.append_nil, Option.any_none]
      cases knownGlobals.contains name.lexeme <;>
        cases context.top.earlier.any (·.introduces name.lexeme) <;> rfl
  | some stmt =>
      have introduces
          : stmt.initializes name.lexeme = true → stmt.introduces name.lexeme = true :=
        stmt.introduces_of_initializes
      simp only [noParameter, Option.toList_some, List.any_append, List.any_cons, List.any_nil,
        Option.any_some, Bool.or_false]
      cases knownGlobals.contains name.lexeme <;>
        cases context.top.earlier.any (·.introduces name.lexeme) <;>
        by_cases begun : stmt.initializes name.lexeme = true <;>
        by_cases named : stmt.introduces name.lexeme = true <;> simp_all

/-- A read is one in its own initializer for the binder just if it is in the text. -/
theorem readsItself (describes : context.Describes knownGlobals scopes) (isName : name.IsName)
    (missing : context.distance? name.lexeme = none)
    : scopes.readsItself name.lexeme
          ((List.range context.locals.length).any (context.skips name.lexeme))
        = context.readsItself knownGlobals name.lexeme := by
  unfold Scopes.readsItself Context.readsItself Context.initializesGlobal
  rw [describes.globals_get? isName, describes.inFunction, missing]
  cases context.hasGlobal knownGlobals name.lexeme <;>
    cases context.top.current?.any (·.initializes name.lexeme) <;> simp

/-- A read is given the distance that the text tells, and is reported if it reads itself. -/
theorem bindRead (describes : context.Describes knownGlobals scopes) (isName : name.IsName)
    : (bindRead name scopes).1 = context.distance? name.lexeme
      ∧ (Binding.bindRead name scopes).2.errors
          = scopes.errors
            ++ if context.readsItself knownGlobals name.lexeme then
                [Diagnostic.atToken name .readInOwnInitializer]
              else
                [] := by
  obtain ⟨found, passed⟩ := describes.search isName
  cases told : context.distance? name.lexeme with
  | some distance =>
      rw [told] at found
      rw [bindRead_of_found found, Context.readsItself, told]
      exact ⟨rfl, by simp [Scopes.used]⟩
  | none =>
      rw [told] at found
      rw [bindRead_of_missing found, passed found, describes.readsItself isName told]
      refine ⟨rfl, ?_⟩
      simp only
      split <;> simp [Scopes.error]

end Context.Describes

-----
-- What a walk reports

/-- Reads of a variable in its own initializer, among all mistakes. -/
def selfReads (errors : List Diagnostic) : List Diagnostic :=
  errors.filter (·.problem = .readInOwnInitializer)

/-- The reads have been given their distances, and those that read themselves are reported. -/
structure Reports (knownGlobals : List String) (reads : List Read)
    (references : List (Reference (Option Nat))) (before after : Scopes)
    : Prop where
  bindings : references = reads.map Read.bound
  errors
    : selfReads after.errors
        = selfReads before.errors
          ++ (reads.filter (·.readsItself knownGlobals)).map Read.diagnostic

namespace Reports

variable {knownGlobals : List String} {before between after : Scopes} {front back : List Read}
  {references others : List (Reference (Option Nat))}

/-- Where no read of its own initializer is reported there is nothing to account for. -/
theorem silent (same : selfReads after.errors = selfReads before.errors)
    : Reports knownGlobals [] [] before after :=
  ⟨rfl, by simp [same]⟩

/-- Reports of two parts are those of the first and then those of the second. -/
theorem append (first : Reports knownGlobals front references before between)
    (second : Reports knownGlobals back others between after)
    : Reports knownGlobals (front ++ back) (references ++ others) before after where
  bindings := by rw [first.bindings, second.bindings, List.map_append]
  errors := by
    rw [second.errors, first.errors, List.filter_append, List.map_append, List.append_assoc]

/-- Nothing but the mistakes on record matters. -/
theorem congr {before' after' : Scopes}
    (reports : Reports knownGlobals front references before after)
    (same : selfReads before'.errors = selfReads before.errors)
    (same' : selfReads after'.errors = selfReads after.errors)
    : Reports knownGlobals front references before' after' :=
  ⟨reports.bindings, by rw [same', same, reports.errors]⟩

end Reports

/-- A mistake of another kind is no read of its own initializer. -/
theorem selfReads_error (scopes : Scopes) (token : Token) {problem : Problem}
    (other : problem ≠ .readInOwnInitializer)
    : selfReads (scopes.error token problem).errors = selfReads scopes.errors := by
  simp [selfReads, Scopes.error, Diagnostic.atToken, other]

/-- Looking for the nearest declaration records no mistake. -/
theorem bindNearest_errors (name : Token) (scopes : Scopes)
    : (bindNearest name scopes).2.errors = scopes.errors := by
  unfold bindNearest
  split <;> rfl

/-- Binding `this` reports no read of its own initializer. -/
theorem bindThis_selfReads (keyword : Token) (scopes : Scopes)
    : selfReads (bindThis keyword scopes).2.errors = selfReads scopes.errors := by
  unfold bindThis
  split
  · exact selfReads_error scopes keyword nofun
  · rw [bindNearest_errors]
  · rw [bindNearest_errors]

/-- Binding `super` reports no read of its own initializer. -/
theorem bindSuper_selfReads (keyword : Token) (scopes : Scopes)
    : selfReads (bindSuper keyword scopes).2.errors = selfReads scopes.errors := by
  unfold bindSuper
  split
  · exact selfReads_error scopes keyword nofun
  · exact selfReads_error scopes keyword nofun
  · rw [bindNearest_errors]

/-- A misplaced `break` is no read of its own initializer. -/
theorem checkBreak_selfReads (keyword : Token) (scopes : Scopes)
    : selfReads (checkBreak keyword scopes).2.errors = selfReads scopes.errors := by
  change selfReads (if scopes.loopDepth = 0 then _ else _ : Scopes).errors = _
  split
  · exact selfReads_error scopes keyword nofun
  · rfl

/-- A misplaced `return` is no read of its own initializer. -/
theorem checkReturn_selfReads (keyword : Token) (scopes : Scopes)
    : selfReads (checkReturn keyword scopes).2.errors = selfReads scopes.errors := by
  change selfReads (if scopes.inFunction then _ else _ : Scopes).errors = _
  split
  · rfl
  · exact selfReads_error scopes keyword nofun

/-- A class that inherits from itself is no read of its own initializer. -/
theorem enterSubclass_selfReads (name superclass : Token) (scopes : Scopes)
    : selfReads (enterSubclass name superclass scopes).2.errors = selfReads scopes.errors := by
  change selfReads (if superclass.lexeme = name.lexeme then _ else _ : Scopes).errors = _
  split
  · exact selfReads_error (scopes.enteredClass .subclass) superclass nofun
  · rfl

/-- A single read is bound and reported as the text tells. -/
theorem Context.Describes.reports {context : Context} {knownGlobals : List String}
    {scopes : Scopes} {name : Token} (describes : context.Describes knownGlobals scopes)
    (isName : name.IsName)
    : Reports knownGlobals [{ name, context }]
        [{ name, binding := (Binding.bindRead name scopes).1 }] scopes
        (Binding.bindRead name scopes).2 := by
  obtain ⟨distance, errors⟩ := describes.bindRead isName
  refine ⟨by rw [distance]; rfl, ?_⟩
  rw [errors, selfReads, List.filter_append]
  congr 1
  rw [List.filter_cons]
  change _ = List.map _ (if context.readsItself knownGlobals name.lexeme then _ else _)
  split <;> rfl

-----
-- Whole trees

section

variable {knownGlobals : List String}

/-- A scope in which nothing is under way stays so inside of another. -/
theorem Context.Idle.inside (context : Context) {scope : Enclosing} (idle : scope.current? = none)
    : (context.inside scope).Idle :=
  idle

/-- Declaring a name records no mistake. -/
theorem Scopes.declared_errors (scopes : Scopes) (name : Token) (tracked : Bool)
    : (scopes.declared name tracked).errors = scopes.errors := by
  obtain ⟨locals, globals, declared⟩ := scopes.declared_eq name tracked
  rw [declared]

/-- Defining a name records no mistake. -/
theorem Scopes.defined_errors (scopes : Scopes) (name : String)
    : (scopes.defined name).errors = scopes.errors := by
  obtain ⟨locals, globals, defined⟩ := scopes.defined_eq name
  rw [defined]

/-- Introducing a name records no mistake. -/
theorem Scopes.introduced_errors (scopes : Scopes) (name? : Option Token)
    : (scopes.introduced name?).errors = scopes.errors := by
  obtain ⟨locals, globals, introduced⟩ := scopes.introduced_eq name?
  rw [introduced]

/-- Declaring parameters records no mistake, by induction on the parameters. -/
theorem declareParameters_errors (parameters : List Token) (scopes : Scopes)
    : (parameters.forM declareParameter scopes).2.errors = scopes.errors := by
  obtain ⟨locals, globals, declared⟩ := declareParameters_eq parameters scopes
  rw [declared]

/-- Coming to a statement that introduces nothing changes nothing. -/
theorem Scopes.begun_of_nothing {stmt : Stmt Unit} (nothing : stmt.introduces? = none)
    (scopes : Scopes)
    : scopes.begun stmt = scopes := by
  cases stmt <;> first | rfl | contradiction

/-- The class that a place stands in has nothing to do with what is read there. -/
theorem Context.Describes.inClass {context : Context} {scopes : Scopes} {name : Token}
    (describes : context.Describes knownGlobals (scopes.introduced (some name)))
    (classContext : ClassContext)
    : context.Describes knownGlobals
        ((scopes.enteredClass classContext).introduced (some name)) := by
  rw [scopes.introduced_enteredClass]
  exact describes.congr rfl rfl rfl rfl

mutual
/-- The reads of an expression are bound and reported as the text tells, by cases on the expression.
-/
theorem bindExpr_reports
    : ∀ (expr : Expr Unit) {context : Context} {scopes : Scopes},
        expr.Proper
        → context.Describes knownGlobals scopes
        → Reports knownGlobals (exprReads context expr) (exprVariables (bindExpr expr scopes).1)
            scopes (bindExpr expr scopes).2
  | .literal _, _, _, _, _ => .silent rfl
  | .grouping inner, _, _, proper, describes => bindExpr_reports inner proper describes
  | .unary _ operand, _, _, proper, describes => bindExpr_reports operand proper describes
  | .binary left _ right, _, scopes, ⟨properLeft, properRight⟩, describes =>
      (bindExpr_reports left properLeft describes).append
        (bindExpr_reports right properRight (describes.kept (bindExpr_kept left scopes properLeft)))
  | .logical left _ right, _, scopes, ⟨properLeft, properRight⟩, describes =>
      (bindExpr_reports left properLeft describes).append
        (bindExpr_reports right properRight (describes.kept (bindExpr_kept left scopes properLeft)))
  | .conditional condition thenCase elseCase, _, scopes, ⟨tested, first, second⟩, describes =>
      let describesThen := describes.kept (bindExpr_kept condition scopes tested)
      let describesElse := describesThen.kept (bindExpr_kept thenCase _ first)
      ((bindExpr_reports condition tested describes).append
        (bindExpr_reports thenCase first describesThen)).append
        (bindExpr_reports elseCase second describesElse)
  | .variable _, _, _, isName, describes => describes.reports isName
  | .assign target value, _, scopes, ⟨_, proper⟩, describes =>
      (bindExpr_reports value proper describes).congr rfl
        (congrArg selfReads (bindNearest_errors target.name (bindExpr value scopes).2))
  | .call callee _ arguments, _, scopes, ⟨properCallee, properArguments⟩, describes =>
      (bindExpr_reports callee properCallee describes).append
        (bindExprs_reports arguments properArguments
          (describes.kept (bindExpr_kept callee scopes properCallee)))
  | .get object _, _, _, proper, describes => bindExpr_reports object proper describes
  | .set object _ value, _, scopes, ⟨properObject, properValue⟩, describes =>
      (bindExpr_reports value properValue describes).append
        (bindExpr_reports object properObject
          (describes.kept (bindExpr_kept value scopes properValue)))
  | .this keyword, _, scopes, _, _ => .silent (bindThis_selfReads keyword.name scopes)
  | .super keyword _, _, scopes, _, _ => .silent (bindSuper_selfReads keyword.name scopes)
  | .function function, _, _, proper, describes => bindFunction_reports function proper describes

/-- The reads of expressions are bound and reported one behind the other. -/
theorem bindExprs_reports
    : ∀ (exprs : List (Expr Unit)) {context : Context} {scopes : Scopes},
        ProperExprs exprs
        → context.Describes knownGlobals scopes
        → Reports knownGlobals (exprsReads context exprs) (exprsVariables (bindExprs exprs scopes).1)
            scopes (bindExprs exprs scopes).2
  | [], _, _, _, _ => .silent rfl
  | first :: rest, _, scopes, ⟨properFirst, properRest⟩, describes =>
      (bindExpr_reports first properFirst describes).append
        (bindExprs_reports rest properRest
          (describes.kept (bindExpr_kept first scopes properFirst)))

/-- The reads of an expression that may be left out are bound and reported as the text tells. -/
theorem bindOptional_reports
    : ∀ (value : Option (Expr Unit)) {context : Context} {scopes : Scopes},
        ProperOptional value
        → context.Describes knownGlobals scopes
        → Reports knownGlobals (optionalReads context value)
            (optionalVariables (bindOptional value scopes).1) scopes (bindOptional value scopes).2
  | none, _, _, _, _ => .silent rfl
  | some value, _, _, proper, describes => bindExpr_reports value proper describes

/-- The context describes what is known when the statement has begun. -/
theorem bindStmt_reports
    : ∀ (stmt : Stmt Unit) {context : Context} {scopes : Scopes},
        stmt.Proper
        → context.Describes knownGlobals (scopes.begun stmt)
        → Reports knownGlobals (stmtReads context stmt) (stmtVariables (bindStmt stmt scopes).1)
            scopes (bindStmt stmt scopes).2
  | .expression value, _, _, proper, describes => bindExpr_reports value proper describes
  | .print value, _, _, proper, describes => bindExpr_reports value proper describes
  | .printLine value, _, _, proper, describes => bindOptional_reports value proper describes
  | .variable name initial, _, scopes, ⟨_, proper⟩, describes =>
      (bindOptional_reports initial proper describes).congr
        (congrArg selfReads (scopes.declared_errors name true).symm)
        (congrArg selfReads (Scopes.defined_errors _ name.lexeme))
  | .block statements, context, scopes, proper, describes =>
      (bindStmts_reports statements proper (.inside context rfl) describes.inBlock).congr rfl
        (congrArg selfReads (Scopes.closed_errors _))
  | .branch condition thenBranch elseBranch, _, scopes, ⟨tested, ⟨first, nothing⟩, second⟩,
      describes => by
      have describesThen := describes.kept (bindExpr_kept condition scopes tested)
      have thenKept := bindStmt_introduces thenBranch (bindExpr condition scopes).2 first
      rw [nothing] at thenKept
      rw [← Scopes.begun_of_nothing nothing (bindExpr condition scopes).2] at describesThen
      have describesElse := (Scopes.begun_of_nothing nothing _ ▸ describesThen).kept thenKept
      exact ((bindExpr_reports condition tested describes).append
        (bindStmt_reports thenBranch first describesThen)).append
        (bindElse_reports elseBranch second describesElse)
  | .loop condition body, context, scopes, ⟨tested, proper, nothing⟩, describes => by
      have describesBody
          : context.Describes knownGlobals
              ((bindExpr condition scopes).2.enteredLoop.begun body) := by
        rw [Scopes.begun_of_nothing nothing]
        exact (describes.kept (bindExpr_kept condition scopes tested)).congr rfl rfl rfl rfl
      exact (bindExpr_reports condition tested describes).append
        ((bindStmt_reports body proper describesBody).congr rfl rfl)
  | .breakLoop keyword, _, scopes, _, _ => .silent (checkBreak_selfReads keyword scopes)
  | .returnValue keyword value, _, scopes, proper, describes =>
      (bindOptional_reports value proper
        (describes.kept (checkReturn_kept keyword scopes))).congr
        (checkReturn_selfReads keyword scopes).symm rfl
  | .function name function, _, scopes, ⟨_, proper⟩, describes =>
      (bindFunction_reports function proper describes).congr
        (congrArg selfReads (scopes.introduced_errors (some name)).symm) rfl
  | .class name none methods, _, scopes, ⟨_, _, proper⟩, describes =>
      (bindMethods_reports methods proper
        ((describes.inClass .plain).inImplicit (.inl rfl))).congr
        (congrArg selfReads
          (Scopes.introduced_errors (scopes.enteredClass .plain) (some name)).symm)
        (congrArg selfReads (Scopes.closed_errors _))
  | .class name (some superclass) methods, context, scopes, ⟨_, named, proper⟩, describes => by
      let header := (scopes.enteredClass .plain).introduced (some name)
      let clause := (enterSubclass name superclass.name header).2
      have describesHeader : context.Describes knownGlobals header := describes.inClass .plain
      have entered : context.Describes knownGlobals (header.enteredClass .subclass) :=
        describesHeader.congr rfl rfl rfl rfl
      have describesClause : context.Describes knownGlobals clause :=
        entered.kept (enterSubclass_kept name superclass.name header)
      have describesRead := describesClause.kept (bindRead_kept superclass.name clause)
      have inside := (describesRead.inImplicit (.inr rfl)).inImplicit (.inl rfl)
      have toClause : selfReads clause.errors = selfReads scopes.errors :=
        (enterSubclass_selfReads name superclass.name header).trans
          (congrArg selfReads (Scopes.introduced_errors (scopes.enteredClass .plain) (some name)))
      have methodsReport := bindMethods_reports methods proper inside
      exact ((describesClause.reports (named superclass rfl)).congr toClause.symm rfl).append
        (methodsReport.congr rfl
          (congrArg selfReads ((Scopes.closed_errors _).trans (Scopes.closed_errors _))))

/-- The reads of statements are bound and reported in order, each behind the statements before it.
-/
theorem bindStmts_reports
    : ∀ (stmts : List (Stmt Unit)) {context : Context} {scopes : Scopes},
        ProperStmts stmts
        → context.Idle
        → context.Describes knownGlobals scopes
        → Reports knownGlobals (stmtsReads context stmts) (stmtsVariables (bindStmts stmts scopes).1)
            scopes (bindStmts stmts scopes).2
  | [], _, _, _, _, _ => .silent rfl
  | first :: rest, context, _, ⟨properFirst, properRest⟩, idle, describes =>
      (bindStmt_reports first properFirst (describes.entered idle first)).append
        (bindStmts_reports rest properRest (.passed context first)
          (describes.passed idle properFirst))

/-- The reads of a branch that may be left out are bound and reported as the text tells. -/
theorem bindElse_reports
    : ∀ (branch : Option (Stmt Unit)) {context : Context} {scopes : Scopes},
        ProperElse branch
        → context.Describes knownGlobals scopes
        → Reports knownGlobals (elseReads context branch) (elseVariables (bindElse branch scopes).1)
            scopes (bindElse branch scopes).2
  | none, _, _, _, _ => .silent rfl
  | some branch, _, scopes, ⟨proper, nothing⟩, describes =>
      bindStmt_reports branch proper ((Scopes.begun_of_nothing nothing scopes).symm ▸ describes)

/-- The reads of a function are bound and reported as the text tells, from inside its scope. -/
theorem bindFunction_reports
    : ∀ (function : Lambda Unit) {context : Context} {scopes : Scopes},
        function.Proper
        → context.Describes knownGlobals scopes
        → Reports knownGlobals (functionReads context function)
            (functionVariables (bindFunction function scopes).1) scopes
            (bindFunction function scopes).2
  | .mk parameters body, context, scopes, ⟨_, proper⟩, describes =>
      (bindStmts_reports body proper (.inside context rfl) (describes.inLambda parameters)).congr
        (congrArg selfReads
          (declareParameters_errors parameters scopes.enteredFunction.opened).symm)
        (congrArg selfReads (Scopes.closed_errors _))

/-- The reads of methods are bound and reported one method behind the other. -/
theorem bindMethods_reports
    : ∀ (methods : List (Method Unit)) {context : Context} {scopes : Scopes},
        ProperMethods methods
        → context.Describes knownGlobals scopes
        → Reports knownGlobals (methodsReads context methods)
            (methodsVariables (bindMethods methods scopes).1) scopes (bindMethods methods scopes).2
  | [], _, _, _, _ => .silent rfl
  | .mk _ function :: rest, _, scopes, ⟨properFirst, properRest⟩, describes =>
      (bindFunction_reports function properFirst describes).append
        (bindMethods_reports rest properRest
          (describes.kept (bindFunction_kept function scopes properFirst)))
end

end

-----
-- Whole programs

/-- At the start no scope is open, and the globals are those that are known. -/
theorem Context.start_describes (knownGlobals : List String)
    : Context.start.Describes knownGlobals (.start knownGlobals) where
  locals := .nil
  globals := fun name _ _ => by
    have marked := Table.get?_marked knownGlobals .empty name
    refine marked.trans ?_
    simp [start, Enclosing.flag?_of_idle, Enclosing.block, Enclosing.hasParameter,
      Table.get?_empty]
  inFunction := rfl
  functionBase := rfl
  top := rfl

/-- Every read of a program that the text yields is bound to the innermost scope that declares the
name, except where that is pending in the function that reads. The reads that find nothing but what
they help to initialize are reported, in the order of the text, and no others are. -/
theorem reads_bound (allowExpression : Bool) (knownGlobals : List String) (source : String)
    (depth : Nat)
    : let program := (parse allowExpression (scan source).tokens depth).statements
      let bound := bind knownGlobals program
      stmtsVariables bound.statements = (reads program).map Read.bound
      ∧ bound.errors.filter (·.problem = .readInOwnInitializer)
          = ((reads program).filter (·.readsItself knownGlobals)).map Read.diagnostic := by
  intro program bound
  have proper : ProperStmts program := (Grammar.parse_proper allowExpression source depth).1
  have idle : Context.start.Idle := rfl
  -- Any proper tree will do.
  clear_value program
  have report := bindStmts_reports program proper idle (Context.start_describes knownGlobals)
  exact ⟨report.bindings, report.errors⟩

end Binding

end Lox
