import Lox.Proofs.Binding.Lookup
import Lox.Proofs.Loops.Trees

/-! Binding a tree in a place where one more scope is open, which holds no names.

Only the names of the open scopes, the function and the class that a place stands in decide what a
reference is bound to. A scope without names adds to the distances of what lies further out.
-/

namespace Lox.Binding

-----
-- What decides a binding

/-- The distance that a read is bound to. The `own` innermost scopes belong to the function that
reads, and a pending binding is looked past there. -/
def readable? (name : String) : Nat → List (Table Bool) → Option Nat
  | _, [] => none
  | own, view :: views =>
      match view.get? name with
      | none => (readable? name (own - 1) views).map (· + 1)
      | some defined =>
          if !defined && 0 < own then (readable? name (own - 1) views).map (· + 1) else some 0

/-- The search finds the first entry that is readable, counted from where it started. -/
theorem searchFrom_distance (name : String) (own start : Nat) (passed : Bool)
    (locals : List LocalScope)
    : (searchFrom name own start passed locals).distance
        = (readable? name (own - start) (locals.map (·.names))).map (start + ·) := by
  induction locals generalizing start passed with
  | nil => rfl
  | cons scope outer ih =>
      have further (passed : Bool)
          : (searchFrom name own (start + 1) passed outer).distance
              = ((readable? name (own - start - 1) (outer.map (·.names))).map (· + 1)).map
                  (start + ·) := by
        rw [ih, Option.map_map]
        congr 1
        funext distance
        exact Nat.add_right_comm start 1 distance
      have own_iff : start < own ↔ 0 < own - start := by omega
      rw [List.map_cons]
      unfold searchFrom readable?
      cases scope.names.get? name with
      | none => exact further passed
      | some defined =>
          simp only [own_iff]
          split
          · exact further true
          · rfl

/-- How many of the open scopes belong to the innermost function. -/
def Scopes.own (scopes : Scopes) : Nat :=
  scopes.locals.length - scopes.functionBase

/-- A read is bound to the nearest entry that is readable from the function it stands in. -/
theorem bindRead_binding (name : Token) (scopes : Scopes)
    : (bindRead name scopes).1 = readable? name.lexeme scopes.own scopes.views := by
  have found : (bindRead name scopes).1 = (scopes.search name.lexeme).distance := by
    cases found : (scopes.search name.lexeme).distance with
    | some distance => rw [bindRead_of_found found]
    | none => rw [bindRead_of_missing found]
  rw [found]
  refine (searchFrom_distance _ _ _ _ _).trans ?_
  simp only [Nat.zero_add, Nat.sub_zero]
  exact Option.map_id'

/-- An assignment is bound to the nearest scope with its name. -/
theorem bindNearest_binding (name : Token) (scopes : Scopes)
    : (bindNearest name scopes).1 = scopes.views.findIdx? (·.contains name.lexeme) := by
  have found : (bindNearest name scopes).1 = nearest? name.lexeme scopes.locals := by
    cases found : nearest? name.lexeme scopes.locals with
    | some distance => rw [bindNearest_of_nearest found]
    | none => rw [bindNearest_of_none found]
  rw [found, Scopes.views, List.findIdx?_map]
  rfl

-----
-- One more scope

/-- The same scopes are open, and one more that holds no names. It stands in a scope that does not
hold `super`. -/
inductive Widened : Gap → List (Table Bool) → List (Table Bool) → Prop
  | same (views : List (Table Bool)) : Widened none views views
  | here {views : List (Table Bool)}
    (plain : ∀ view ∈ views.head?, view.get? "super" = none)
    : Widened (some 0) (.empty :: views) views
  | inside (view : Table Bool) {gap : Gap} {views views' : List (Table Bool)}
    (around : Widened gap views views')
    : Widened gap.inner (view :: views) (view :: views')

namespace Widened

variable {gap : Gap} {views views' : List (Table Bool)}

/-- The nearest scope with a name is the same one, counted across the gap. -/
theorem findIdx? (widened : Widened gap views views') (name : String)
    : views.findIdx? (·.contains name)
        = (views'.findIdx? (·.contains name)).map gap.across := by
  induction widened with
  | same views => exact (Gap.across_none _).symm
  | here => exact List.findIdx?_cons
  | @inside view gap views views' _ ih =>
      rw [List.findIdx?_cons, List.findIdx?_cons]
      split
      · simp
      · simp [ih, Function.comp_def]

/-- So many scopes belong to the function on either side. -/
theorem readable? (widened : Widened gap views views') (name : String) {own own' : Nat}
    (same : ∀ distance, gap.across distance < own ↔ distance < own')
    : Binding.readable? name own views
        = (Binding.readable? name own' views').map gap.across := by
  induction widened generalizing own own' with
  | same views =>
      obtain rfl : own = own' :=
        Nat.le_antisymm (Nat.le_of_not_lt fun less => Nat.lt_irrefl _ ((same own').1 less))
          (Nat.le_of_not_lt fun less => Nat.lt_irrefl _ ((same own).2 less))
      exact (Gap.across_none _).symm
  | here =>
      have less (distance : Nat) : distance + 1 < own ↔ distance < own' := same distance
      obtain rfl : own - 1 = own' := by
        have first := less (own - 1)
        have second := less own'
        omega
      rfl
  | @inside view gap views views' _ ih =>
      have outside : 0 < own ↔ 0 < own' := by simpa using same 0
      have further := @ih (own - 1) (own' - 1) fun distance => by
        have next := same (distance + 1)
        rw [Gap.across_inner_succ] at next
        omega
      have passes
          : (Binding.readable? name (own - 1) views).map (· + 1)
              = ((Binding.readable? name (own' - 1) views').map (· + 1)).map gap.inner.across := by
        rw [further, Option.map_map, Option.map_map]
        congr 1
        funext distance
        exact (gap.across_inner_succ distance).symm
      unfold Binding.readable?
      cases view.get? name with
      | none => exact passes
      | some defined =>
          simp only [outside]
          split
          · exact passes
          · simp

/-- Right around the scope without names, there is none that holds `super`. -/
theorem plain (widened : Widened gap views views') {hollow : Nat} (here : gap = some hollow)
    : ∀ view ∈ views'[hollow]?, view.get? "super" = none := by
  induction widened generalizing hollow with
  | same => cases here
  | @here views plain =>
      obtain rfl := Option.some.inj here
      rwa [List.head?_eq_getElem?] at plain
  | @inside view gap views views' _ ih =>
      obtain ⟨around, there, rfl⟩ := Option.map_eq_some_iff.1 here
      exact ih there

/-- The innermost scope changes in the same way, unless it is the one without names. -/
theorem cons {view view' : Table Bool} (widened : Widened gap (view :: views) (view' :: views'))
    (real : gap ≠ some 0) (changed : Table Bool)
    : view = view' ∧ Widened gap (changed :: views) (changed :: views') := by
  cases widened with
  | same => exact ⟨rfl, .same _⟩
  | here => exact absurd rfl real
  | inside _ around => exact ⟨rfl, .inside changed around⟩

/-- A gap that stands behind the first scope leaves a scope on both sides or on neither. -/
theorem nil_iff (widened : Widened gap views views') (real : gap ≠ some 0)
    : views = [] ↔ views' = [] := by
  cases widened with
  | same => exact .rfl
  | here => exact absurd rfl real
  | inside => simp

/-- Without a gap there is one stack of scopes. -/
theorem eq_of_none (widened : Widened gap views views') (none : gap = none) : views = views' := by
  induction widened with
  | same => rfl
  | here => cases none
  | inside view _ ih => exact congrArg (view :: ·) (ih (Option.map_eq_none_iff.1 none))

end Widened

/-- One more scope is open in the wide place, at the gap, and it holds no names. -/
structure Scopes.Widens (gap : Gap) (wide narrow : Scopes) : Prop where
  views : Widened gap wide.views narrow.views
  own : ∀ distance, gap.across distance < wide.own ↔ distance < narrow.own
  based : wide.functionBase ≤ wide.locals.length
  based' : narrow.functionBase ≤ narrow.locals.length
  classContext : wide.classContext = narrow.classContext

/-- As many scopes are open, around the same function and in the same class. -/
structure Scopes.Beside (before after : Scopes) : Prop where
  length : after.locals.length = before.locals.length
  functionBase : after.functionBase = before.functionBase
  classContext : after.classContext = before.classContext

/-- What keeps the scopes stays beside them. -/
theorem Scopes.Kept.beside {before after : Scopes} (kept : before.Kept after)
    : before.Beside after := by
  refine ⟨?_, kept.functionBase, kept.classContext⟩
  rw [← after.views_length, kept.views, before.views_length]

/-- A declaration stays beside the scopes. -/
theorem Scopes.declared_beside (scopes : Scopes) (name : Token) (tracked : Bool)
    : scopes.Beside (scopes.declared name tracked) := by
  unfold declared
  cases split : scopes.locals <;> exact ⟨by simp [split], rfl, rfl⟩

/-- A definition stays beside the scopes. -/
theorem Scopes.defined_beside (scopes : Scopes) (name : String)
    : scopes.Beside (scopes.defined name) := by
  unfold defined
  cases split : scopes.locals <;> exact ⟨by simp [split], rfl, rfl⟩

namespace Scopes.Widens

variable {gap : Gap} {wide narrow wide' narrow' : Scopes}

/-- Every stack of scopes widens itself, without a gap. -/
theorem self (scopes : Scopes) (based : scopes.functionBase ≤ scopes.locals.length)
    : scopes.Widens none scopes :=
  ⟨.same _, fun _ => .rfl, based, based, rfl⟩

/-- Two stacks stay apart by the gap if their views do and nothing else moves. -/
theorem beside (widens : wide.Widens gap narrow) (left : wide.Beside wide')
    (right : narrow.Beside narrow') (views : Widened gap wide'.views narrow'.views)
    : wide'.Widens gap narrow' where
  views
  own distance := by
    unfold Scopes.own
    rw [left.length, left.functionBase, right.length, right.functionBase]
    exact widens.own distance
  based := by
    rw [left.length, left.functionBase]
    exact widens.based
  based' := by
    rw [right.length, right.functionBase]
    exact widens.based'
  classContext := left.classContext.trans (widens.classContext.trans right.classContext.symm)

/-- Two stacks stay apart by the gap through whatever keeps both. -/
theorem kept (widens : wide.Widens gap narrow) (left : wide.Kept wide')
    (right : narrow.Kept narrow')
    : wide'.Widens gap narrow' := by
  refine widens.beside left.beside right.beside ?_
  have views : wide'.views = wide.views := left.views
  have views' : narrow'.views = narrow.views := right.views
  rw [views, views']
  exact widens.views

/-- In an inner scope the gap stands one scope further out. -/
theorem opened (widens : wide.Widens gap narrow) : wide.opened.Widens gap.inner narrow.opened where
  views := .inside _ widens.views
  own distance := by
    have based := widens.based
    have based' := widens.based'
    have more : wide.opened.own = wide.own + 1 := Nat.succ_sub based
    have more' : narrow.opened.own = narrow.own + 1 := Nat.succ_sub based'
    rw [more, more']
    cases distance with
    | zero => simp
    | succ distance =>
        rw [Gap.across_inner_succ, Nat.succ_lt_succ_iff, Nat.succ_lt_succ_iff]
        exact widens.own distance
  based := Nat.le_succ_of_le widens.based
  based' := Nat.le_succ_of_le widens.based'
  classContext := widens.classContext

/-- A scope that will hold no names is opened on one side alone. -/
theorem openedHollow (widens : wide.Widens none narrow)
    (plain : ∀ view ∈ narrow.views.head?, view.get? "super" = none)
    : wide.opened.Widens (some 0) narrow where
  views := by
    have same := widens.views.eq_of_none rfl
    change Widened (some 0) (.empty :: wide.views) narrow.views
    rw [same]
    exact .here plain
  own distance := by
    have more : wide.opened.own = wide.own + 1 := Nat.succ_sub widens.based
    rw [more]
    exact Nat.succ_lt_succ_iff.trans (widens.own distance)
  based := Nat.le_succ_of_le widens.based
  based' := widens.based'
  classContext := widens.classContext

/-- Entering a function leaves the gap where it is. -/
theorem enteredFunction (widens : wide.Widens gap narrow)
    : wide.enteredFunction.Widens gap narrow.enteredFunction where
  views := widens.views
  own distance := by
    have none : wide.enteredFunction.own = 0 := Nat.sub_self _
    have none' : narrow.enteredFunction.own = 0 := Nat.sub_self _
    rw [none, none']
    exact ⟨fun less => absurd less (Nat.not_lt_zero _), fun less => absurd less (Nat.not_lt_zero _)⟩
  based := Nat.le_refl _
  based' := Nat.le_refl _
  classContext := widens.classContext

/-- Entering a loop leaves the gap where it is. -/
theorem enteredLoop (widens : wide.Widens gap narrow)
    : wide.enteredLoop.Widens gap narrow.enteredLoop :=
  { widens with }

/-- Entering a class leaves the gap where it is. -/
theorem enteredClass (widens : wide.Widens gap narrow) (context : ClassContext)
    : (wide.enteredClass context).Widens gap (narrow.enteredClass context) :=
  { widens with classContext := rfl }

/-- The scope that declarations go to has changed in the same way. -/
theorem changed (widens : wide.Widens gap narrow) (real : gap ≠ some 0)
    {change : Table Bool → Table Bool} (changes : wide.Changes change wide')
    (changes' : narrow.Changes change narrow') (left : wide.Beside wide')
    (right : narrow.Beside narrow')
    : wide'.Widens gap narrow' := by
  refine widens.beside left right ?_
  have widened := widens.views
  rcases changes with ⟨before, after, -⟩ | ⟨view, views, before, after, -⟩ <;>
    rcases changes' with ⟨before', after', -⟩ | ⟨view', views', before', after', -⟩ <;>
    rw [before, before'] at widened <;>
    rw [after, after']
  · exact widened
  · cases (widened.nil_iff real).1 rfl
  · cases (widened.nil_iff real).2 rfl
  · obtain ⟨rfl, changed⟩ := widened.cons real (change view)
    exact changed

/-- A declaration on both sides leaves the gap where it is, unless it is the current scope. -/
theorem declared (widens : wide.Widens gap narrow) (real : gap ≠ some 0) (name : Token)
    (tracked : Bool)
    : (wide.declared name tracked).Widens gap (narrow.declared name tracked) :=
  widens.changed real (wide.declared_changes name tracked) (narrow.declared_changes name tracked)
    (wide.declared_beside name tracked) (narrow.declared_beside name tracked)

/-- A definition on both sides leaves the gap where it is, unless it is the current scope. -/
theorem defined (widens : wide.Widens gap narrow) (real : gap ≠ some 0) (name : String)
    : (wide.defined name).Widens gap (narrow.defined name) :=
  widens.changed real (wide.defined_changes name) (narrow.defined_changes name)
    (wide.defined_beside name) (narrow.defined_beside name)

/-- What a statement introduces on both sides leaves the gap where it is. -/
theorem introduced (widens : wide.Widens gap narrow) (name : Option Token)
    (real : gap = some 0 → name = none)
    : (wide.introduced name).Widens gap (narrow.introduced name) := by
  cases name with
  | none => exact widens
  | some name =>
      have real : gap ≠ some 0 := fun here => nomatch real here
      exact (widens.declared real name true).defined real name.lexeme

/-- Parameters declared on both sides leave the gap where it is, by induction on them. -/
theorem parameters (widens : wide.Widens gap narrow) (real : gap ≠ some 0)
    (parameters : List Token)
    : Scopes.Widens gap (parameters.forM declareParameter wide).2
        (parameters.forM declareParameter narrow).2 := by
  induction parameters generalizing wide narrow with
  | nil => exact widens
  | cons name rest ih => exact ih ((widens.declared real name false).defined real name.lexeme)

-----
-- Names

/-- A read is bound to the same entry on both sides, counted across the gap. -/
theorem bindRead (widens : wide.Widens gap narrow) (name : Token)
    : (Binding.bindRead name wide).1 = (Binding.bindRead name narrow).1.map gap.across := by
  rw [bindRead_binding, bindRead_binding]
  exact widens.views.readable? name.lexeme widens.own

/-- An assignment is bound to the same entry on both sides, counted across the gap. -/
theorem bindNearest (widens : wide.Widens gap narrow) (name : Token)
    : (Binding.bindNearest name wide).1 = (Binding.bindNearest name narrow).1.map gap.across := by
  rw [bindNearest_binding, bindNearest_binding]
  exact widens.views.findIdx? name.lexeme

/-- `this` is bound to the same scope on both sides, counted across the gap. -/
theorem bindThis (widens : wide.Widens gap narrow) (keyword : Token)
    : (Binding.bindThis keyword wide).1 = (Binding.bindThis keyword narrow).1.map gap.across := by
  unfold Binding.bindThis
  rw [widens.classContext]
  cases narrow.classContext with
  | outside => rfl
  | plain | subclass => exact widens.bindNearest keyword

/-- `super` is bound to the same scope on both sides, and the receiver in front of it too. -/
theorem bindSuper (widens : wide.Widens gap narrow) {keyword : Token}
    (spelled : keyword.lexeme = "super")
    : (Binding.bindSuper keyword wide).1 = (Binding.bindSuper keyword narrow).1.map gap.across
      ∧ ∀ distance, (Binding.bindSuper keyword narrow).1 = some distance → gap ≠ some distance := by
  unfold Binding.bindSuper
  rw [widens.classContext]
  cases narrow.classContext with
  | outside | plain => exact ⟨rfl, fun _ none => nomatch none⟩
  | subclass =>
      refine ⟨widens.bindNearest keyword, fun distance found here => ?_⟩
      obtain ⟨⟨flag, has⟩, -⟩ := bindNearest_some found
      obtain ⟨view, there, holds⟩ := Option.bind_eq_some_iff.1 has
      rw [spelled, widens.views.plain here view there] at holds
      cases holds

end Scopes.Widens

-----
-- Trees

section

variable {gap : Gap} {wide narrow : Scopes}

/-- Behind an expression that both walks have come past. -/
theorem Scopes.Widens.afterExpr (widens : wide.Widens gap narrow) {expr : Expr Unit}
    (proper : expr.Proper)
    : Scopes.Widens gap (bindExpr expr wide).2 (bindExpr expr narrow).2 :=
  widens.kept (bindExpr_kept expr wide proper) (bindExpr_kept expr narrow proper)

/-- Behind a statement the two stacks are as far apart as in front of it. -/
theorem Scopes.Widens.afterStmt (widens : wide.Widens gap narrow) {stmt : Stmt Unit}
    (proper : stmt.Proper) (real : gap = some 0 → stmt.introduces? = none)
    : Scopes.Widens gap (bindStmt stmt wide).2 (bindStmt stmt narrow).2 :=
  (widens.introduced _ real).kept (bindStmt_introduces stmt wide proper)
    (bindStmt_introduces stmt narrow proper)

/-- Behind a function the two stacks are as far apart as in front of it. -/
theorem Scopes.Widens.afterFunction (widens : wide.Widens gap narrow) {function : Lambda Unit}
    (proper : function.Proper)
    : Scopes.Widens gap (bindFunction function wide).2 (bindFunction function narrow).2 :=
  widens.kept (bindFunction_kept function wide proper) (bindFunction_kept function narrow proper)

end

mutual
/-- An expression is bound alike on both sides, up to the gap, by induction on the tree. -/
theorem bindExpr_omits
    : ∀ (expr : Expr Unit) {gap : Gap} {wide narrow : Scopes},
        expr.Proper
        → wide.Widens gap narrow
        → (bindExpr expr wide).1.Omits gap (bindExpr expr narrow).1
  | .literal _, _, _, _, _, _ => rfl
  | .grouping inner, _, _, _, proper, widens => ⟨_, rfl, bindExpr_omits inner proper widens⟩
  | .unary _ operand, _, _, _, proper, widens => ⟨_, rfl, bindExpr_omits operand proper widens⟩
  | .binary left _ right, _, _, _, ⟨first, second⟩, widens =>
      ⟨_, _, rfl, bindExpr_omits left first widens,
        bindExpr_omits right second (widens.afterExpr first)⟩
  | .logical left _ right, _, _, _, ⟨first, second⟩, widens =>
      ⟨_, _, rfl, bindExpr_omits left first widens,
        bindExpr_omits right second (widens.afterExpr first)⟩
  | .conditional condition thenCase elseCase, _, _, _, ⟨tested, first, second⟩, widens =>
      ⟨_, _, _, rfl, bindExpr_omits condition tested widens,
        bindExpr_omits thenCase first (widens.afterExpr tested),
        bindExpr_omits elseCase second ((widens.afterExpr tested).afterExpr first)⟩
  | .variable target, _, _, _, _, widens => ⟨_, rfl, rfl, widens.bindRead target.name⟩
  | .assign target value, _, _, _, ⟨_, proper⟩, widens =>
      ⟨_, _, rfl, ⟨rfl, (widens.afterExpr proper).bindNearest target.name⟩,
        bindExpr_omits value proper widens⟩
  | .call callee _ arguments, _, _, _, ⟨first, second⟩, widens =>
      ⟨_, _, rfl, bindExpr_omits callee first widens,
        bindExprs_omits arguments second (widens.afterExpr first)⟩
  | .get object _, _, _, _, proper, widens => ⟨_, rfl, bindExpr_omits object proper widens⟩
  | .set object _ value, _, _, _, ⟨properObject, properValue⟩, widens =>
      ⟨_, _, rfl, bindExpr_omits object properObject (widens.afterExpr properValue),
        bindExpr_omits value properValue widens⟩
  | .this keyword, _, _, _, _, widens => ⟨_, rfl, rfl, widens.bindThis keyword.name⟩
  | .super _ _, _, _, _, spelled, widens =>
      ⟨_, rfl, ⟨rfl, (widens.bindSuper spelled).1⟩, (widens.bindSuper spelled).2⟩
  | .function function, _, _, _, proper, widens =>
      ⟨_, rfl, bindFunction_omits function proper widens⟩

/-- Expressions in a row are bound alike on both sides, up to the gap. -/
theorem bindExprs_omits
    : ∀ (exprs : List (Expr Unit)) {gap : Gap} {wide narrow : Scopes},
        ProperExprs exprs
        → wide.Widens gap narrow
        → OmitsExprs gap (bindExprs exprs wide).1 (bindExprs exprs narrow).1
  | [], _, _, _, _, _ => rfl
  | first :: rest, _, _, _, ⟨properFirst, properRest⟩, widens =>
      ⟨_, _, rfl, bindExpr_omits first properFirst widens,
        bindExprs_omits rest properRest (widens.afterExpr properFirst)⟩

/-- An expression that may be missing is bound alike on both sides, up to the gap. -/
theorem bindOptional_omits
    : ∀ (value : Option (Expr Unit)) {gap : Gap} {wide narrow : Scopes},
        ProperOptional value
        → wide.Widens gap narrow
        → OmitsOptional gap (bindOptional value wide).1 (bindOptional value narrow).1
  | none, _, _, _, _, _ => rfl
  | some value, _, _, _, proper, widens => ⟨_, rfl, bindExpr_omits value proper widens⟩

/-- Declarations do not stand directly in the scope without names. -/
theorem bindStmt_omits
    : ∀ (stmt : Stmt Unit) {gap : Gap} {wide narrow : Scopes},
        stmt.Proper
        → (gap = some 0 → stmt.introduces? = none)
        → wide.Widens gap narrow
        → (bindStmt stmt wide).1.Omits gap (bindStmt stmt narrow).1
  | .expression value, _, _, _, proper, _, widens => ⟨_, rfl, bindExpr_omits value proper widens⟩
  | .print value, _, _, _, proper, _, widens => ⟨_, rfl, bindExpr_omits value proper widens⟩
  | .printLine value, _, _, _, proper, _, widens =>
      ⟨_, rfl, bindOptional_omits value proper widens⟩
  | .variable name initial, _, _, _, ⟨_, proper⟩, real, widens =>
      have real := fun here => nomatch real here
      ⟨real, _, rfl, bindOptional_omits initial proper (widens.declared real name true)⟩
  | .block statements, _, _, _, proper, _, widens =>
      ⟨_, rfl, bindStmts_omits statements proper (Gap.inner_ne_zero _) widens.opened⟩
  | .branch condition thenBranch elseBranch, _, _, _, ⟨tested, ⟨first, nothing⟩, second⟩, _,
      widens =>
      have between := widens.afterExpr tested
      ⟨_, _, _, rfl, bindExpr_omits condition tested widens,
        bindStmt_omits thenBranch first (fun _ => nothing) between,
        bindElse_omits elseBranch second (between.afterStmt first fun _ => nothing)⟩
  | .loop condition body, _, _, _, ⟨tested, proper, nothing⟩, _, widens =>
      ⟨_, _, rfl, bindExpr_omits condition tested widens,
        bindStmt_omits body proper (fun _ => nothing) (widens.afterExpr tested).enteredLoop⟩
  | .breakLoop _, _, _, _, _, _, _ => rfl
  | .returnValue _ value, _, wide, narrow, proper, _, widens =>
      have checked := widens.kept (checkReturn_kept _ wide) (checkReturn_kept _ narrow)
      ⟨_, rfl, bindOptional_omits value proper checked⟩
  | .function name function, _, _, _, ⟨_, proper⟩, real, widens =>
      have introduced := widens.introduced (some name) real
      ⟨(fun here => nomatch real here), _, rfl, bindFunction_omits function proper introduced⟩
  | .class name none methods, _, _, _, ⟨_, _, proper⟩, real, widens =>
      have introduced := (widens.enteredClass .plain).introduced (some name) real
      have inside := introduced.opened.defined (Gap.inner_ne_zero _) "this"
      ⟨(fun here => nomatch real here), _, rfl, bindMethods_omits methods proper inside⟩
  | .class name (some superclass) methods, _, _, _, ⟨_, _, proper⟩, real, widens =>
      have introduced := (widens.enteredClass .plain).introduced (some name) real
      have subclass :=
        (introduced.enteredClass .subclass).kept (enterSubclass_kept name superclass.name _)
          (enterSubclass_kept name superclass.name _)
      have clause :=
        subclass.kept (bindRead_kept superclass.name _) (bindRead_kept superclass.name _)
      have around := clause.opened.defined (Gap.inner_ne_zero _) "super"
      have inside := around.opened.defined (Gap.inner_ne_zero _) "this"
      ⟨(fun here => nomatch real here), _, _, rfl, ⟨rfl, subclass.bindRead superclass.name⟩,
        bindMethods_omits methods proper inside⟩

/-- Statements in a row are bound alike on both sides, unless the gap is the current scope. -/
theorem bindStmts_omits
    : ∀ (stmts : List (Stmt Unit)) {gap : Gap} {wide narrow : Scopes},
        ProperStmts stmts
        → gap ≠ some 0
        → wide.Widens gap narrow
        → OmitsStmts gap (bindStmts stmts wide).1 (bindStmts stmts narrow).1
  | [], _, _, _, _, _, _ => rfl
  | first :: rest, _, _, _, ⟨properFirst, properRest⟩, real, widens =>
      ⟨_, _, rfl, bindStmt_omits first properFirst (fun here => absurd here real) widens,
        bindStmts_omits rest properRest real
          (widens.afterStmt properFirst fun here => absurd here real)⟩

/-- A branch that may be missing is bound alike on both sides, up to the gap. -/
theorem bindElse_omits
    : ∀ (branch : Option (Stmt Unit)) {gap : Gap} {wide narrow : Scopes},
        ProperElse branch
        → wide.Widens gap narrow
        → OmitsElse gap (bindElse branch wide).1 (bindElse branch narrow).1
  | none, _, _, _, _, _ => rfl
  | some branch, _, _, _, ⟨proper, nothing⟩, widens =>
      ⟨_, rfl, bindStmt_omits branch proper (fun _ => nothing) widens⟩

/-- A function is bound alike on both sides, its parameters declared in front of its body. -/
theorem bindFunction_omits
    : ∀ (function : Lambda Unit) {gap : Gap} {wide narrow : Scopes},
        function.Proper
        → wide.Widens gap narrow
        → (bindFunction function wide).1.Omits gap (bindFunction function narrow).1
  | .mk parameters body, _, _, _, ⟨_, proper⟩, widens =>
      have inside := widens.enteredFunction.opened.parameters (Gap.inner_ne_zero _) parameters
      ⟨_, rfl, bindStmts_omits body proper (Gap.inner_ne_zero _) inside⟩

/-- Methods in a row are bound alike on both sides, up to the gap. -/
theorem bindMethods_omits
    : ∀ (methods : List (Method Unit)) {gap : Gap} {wide narrow : Scopes},
        ProperMethods methods
        → wide.Widens gap narrow
        → OmitsMethods gap (bindMethods methods wide).1 (bindMethods methods narrow).1
  | [], _, _, _, _, _ => rfl
  | .mk _ function :: rest, _, _, _, ⟨properFirst, properRest⟩, widens =>
      ⟨_, _, rfl, bindFunction_omits function properFirst widens,
        bindMethods_omits rest properRest (widens.afterFunction properFirst)⟩
end

end Lox.Binding
