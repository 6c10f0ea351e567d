import Lox.Proofs.Binding.Lookup
import Lox.Proofs.Renaming.Relation

/-! Binding a tree in which a name has been replaced.

The new name occurs nowhere in the old tree, so in the new one it is found where the old name was
found before, and nowhere else. Every use gets the distance that it had, and nothing becomes an
error.
-/

namespace Lox

-----
-- Binding keeps the tree

namespace Binding

mutual
/-- Binding adds distances and leaves the rest of the tree as it was read. -/
theorem bindExpr_unbound
    : ∀ (expr : Expr Unit) (scopes : Scopes), (bindExpr expr scopes).1.unbound = expr
  | .literal _, _ => rfl
  | .grouping inner, scopes => congrArg Expr.grouping (bindExpr_unbound inner scopes)
  | .unary operator operand, scopes =>
      congrArg (Expr.unary operator) (bindExpr_unbound operand scopes)
  | .binary left operator right, scopes =>
      congr (congrArg (Expr.binary · operator) (bindExpr_unbound left scopes))
        (bindExpr_unbound right _)
  | .logical left operator right, scopes =>
      congr (congrArg (Expr.logical · operator) (bindExpr_unbound left scopes))
        (bindExpr_unbound right _)
  | .conditional condition thenCase elseCase, scopes =>
      congr (congr (congrArg Expr.conditional (bindExpr_unbound condition scopes))
        (bindExpr_unbound thenCase _)) (bindExpr_unbound elseCase _)
  | .variable _, _ => rfl
  | .assign target value, scopes =>
      congrArg (Expr.assign target) (bindExpr_unbound value scopes)
  | .call callee paren arguments, scopes =>
      congr (congrArg (Expr.call · paren) (bindExpr_unbound callee scopes))
        (bindExprs_unbound arguments _)
  | .get object name, scopes => congrArg (Expr.get · name) (bindExpr_unbound object scopes)
  | .set object name value, scopes =>
      congr (congrArg (Expr.set · name) (bindExpr_unbound object _))
        (bindExpr_unbound value scopes)
  | .this _, _ => rfl
  | .super _ _, _ => rfl
  | .function function, scopes => congrArg Expr.function (bindFunction_unbound function scopes)

/-- Without their distances the bound expressions are those that were read. -/
theorem bindExprs_unbound
    : ∀ (exprs : List (Expr Unit)) (scopes : Scopes), unboundExprs (bindExprs exprs scopes).1 = exprs
  | [], _ => rfl
  | first :: rest, scopes =>
      congr (congrArg List.cons (bindExpr_unbound first scopes)) (bindExprs_unbound rest _)

/-- Without its distances a bound expression is the one that was read, if there is one. -/
theorem bindOptional_unbound
    : ∀ (value : Option (Expr Unit)) (scopes : Scopes), unboundOptional (bindOptional value scopes).1 = value
  | none, _ => rfl
  | some value, scopes => congrArg some (bindExpr_unbound value scopes)

/-- Without its distances a bound statement is the one that was read, by cases on the statement. -/
theorem bindStmt_unbound
    : ∀ (stmt : Stmt Unit) (scopes : Scopes), (bindStmt stmt scopes).1.unbound = stmt
  | .expression value, scopes => congrArg Stmt.expression (bindExpr_unbound value scopes)
  | .print value, scopes => congrArg Stmt.print (bindExpr_unbound value scopes)
  | .printLine value, scopes => congrArg Stmt.printLine (bindOptional_unbound value scopes)
  | .variable name initial, _ => congrArg (Stmt.variable name) (bindOptional_unbound initial _)
  | .block statements, _ => congrArg Stmt.block (bindStmts_unbound statements _)
  | .branch condition thenBranch elseBranch, scopes =>
      congr (congr (congrArg Stmt.branch (bindExpr_unbound condition scopes))
        (bindStmt_unbound thenBranch _)) (bindElse_unbound elseBranch _)
  | .loop condition body, scopes =>
      congr (congrArg Stmt.loop (bindExpr_unbound condition scopes)) (bindStmt_unbound body _)
  | .breakLoop _, _ => rfl
  | .returnValue keyword value, _ =>
      congrArg (Stmt.returnValue keyword) (bindOptional_unbound value _)
  | .function name function, _ =>
      congrArg (Stmt.function name) (bindFunction_unbound function _)
  | .class name none methods, _ =>
      congrArg (Stmt.class name none) (bindMethods_unbound methods _)
  | .class name (some superclass) methods, _ =>
      congrArg (Stmt.class name (some superclass)) (bindMethods_unbound methods _)

/-- Without their distances the bound statements are those that were read. -/
theorem bindStmts_unbound
    : ∀ (stmts : List (Stmt Unit)) (scopes : Scopes), unboundStmts (bindStmts stmts scopes).1 = stmts
  | [], _ => rfl
  | first :: rest, scopes =>
      congr (congrArg List.cons (bindStmt_unbound first scopes)) (bindStmts_unbound rest _)

/-- Without its distances a bound branch is the one that was read, if there is one. -/
theorem bindElse_unbound
    : ∀ (branch : Option (Stmt Unit)) (scopes : Scopes), unboundElse (bindElse branch scopes).1 = branch
  | none, _ => rfl
  | some branch, scopes => congrArg some (bindStmt_unbound branch scopes)

/-- Without its distances a bound function is the one that was read. -/
theorem bindFunction_unbound
    : ∀ (function : Lambda Unit) (scopes : Scopes), (bindFunction function scopes).1.unbound = function
  | .mk parameters body, _ => congrArg (Lambda.mk parameters) (bindStmts_unbound body _)

/-- Without their distances the bound methods are those that were read. -/
theorem bindMethods_unbound
    : ∀ (methods : List (Method Unit)) (scopes : Scopes), unboundMethods (bindMethods methods scopes).1 = methods
  | [], _ => rfl
  | .mk name function :: rest, scopes =>
      congr (congrArg (List.cons ∘ Method.mk name) (bindFunction_unbound function scopes))
        (bindMethods_unbound rest _)
end

-----
-- Names of open scopes

/-- What is known of the names of a scope, before and after. Nothing is known of the new name
before. -/
structure NamesTurn (rename : Renaming) (mark : Bool) (view view' : Table Bool) : Prop where
  same
    : ∀ name name', rename.Turns mark name name' → view'.get? name' = view.get? name
  gone (marked : mark = true) : view'.get? rename.old = none
  fresh : view.get? rename.new = none

/-- The same scopes are open, and their names are the same but for the renaming. -/
inductive LocalsTurn (rename : Renaming) : List Bool → List LocalScope → List LocalScope → Prop
  | nil : LocalsTurn rename [] [] []
  | cons {mark : Bool} {marks : List Bool} {scope scope' : LocalScope}
    {outer outer' : List LocalScope} (names : NamesTurn rename mark scope.names scope'.names)
    (rest : LocalsTurn rename marks outer outer')
    : LocalsTurn rename (mark :: marks) (scope :: outer) (scope' :: outer')

/-- The old tree and the new one at the same place. There are no errors in the new one unless there
are some in the old one. -/
structure Scopes.Turns (rename : Renaming) (marks : List Bool) (scopes scopes' : Scopes)
    : Prop where
  locals : LocalsTurn rename marks scopes.locals scopes'.locals
  globals : scopes'.globals = scopes.globals
  errors (clean : scopes.errors = []) : scopes'.errors = []
  inFunction : scopes'.inFunction = scopes.inFunction
  classContext : scopes'.classContext = scopes.classContext
  loopDepth : scopes'.loopDepth = scopes.loopDepth
  functionBase : scopes'.functionBase = scopes.functionBase

section

variable {rename : Renaming}

namespace NamesTurn

variable {mark : Bool} {view view' : Table Bool}

/-- Scopes without names turn into each other. -/
theorem empty (mark : Bool) : NamesTurn rename mark .empty .empty :=
  ⟨fun _ _ _ => rfl, fun _ => rfl, rfl⟩

/-- A name that is looked for is known as it was, or not at all. -/
theorem same_or_none (turns : NamesTurn rename mark view view') {name name' : String}
    (fresh : name ≠ rename.new) (candidate : name' = name ∨ name = rename.old ∧ name' = rename.new)
    : view'.get? name' = view.get? name ∨ view'.get? name' = none := by
  rcases candidate with rfl | ⟨rfl, rfl⟩
  · by_cases affected : mark = true ∧ name' = rename.old
    · obtain ⟨marked, rfl⟩ := affected
      exact .inr (turns.gone marked)
    · refine .inl (turns.same _ _ (.kept fun marked => ⟨fun same => ?_, fresh⟩))
      exact affected ⟨marked, same⟩
  · cases mark with
    | false =>
        refine .inr ?_
        rw [turns.same _ _ (.unmarked rename.new)]
        exact turns.fresh
    | true => exact .inl (turns.same _ _ .replaced)

/-- An entry for a name, and one for what the name becomes. -/
theorem insert (turns : NamesTurn rename mark view view') {name name' : String}
    (turnsName : rename.Turns mark name name') (fresh : name ≠ rename.new) (flag : Bool)
    : NamesTurn rename mark (view.insert name flag) (view'.insert name' flag) := by
  refine ⟨fun other other' turnsOther => ?_, fun marked => ?_, ?_⟩
  · rw [Table.get?_insert, Table.get?_insert, turns.same _ _ turnsOther]
    simp only [turnsName.eq_iff turnsOther]
  · have apart : rename.old ≠ name' := by
      cases turnsName with
      | kept apart => exact (apart marked).1.symm
      | replaced => exact rename.apart
    rw [Table.get?_insert_of_ne _ _ apart]
    exact turns.gone marked
  · rw [Table.get?_insert_of_ne _ _ fresh.symm]
    exact turns.fresh

/-- A new entry under a name turns into one under its new name, if the new name is not in use. -/
theorem insertIfNew (turns : NamesTurn rename mark view view') {name name' : String}
    (turnsName : rename.Turns mark name name') (fresh : name ≠ rename.new) (flag : Bool)
    : NamesTurn rename mark (view.insertIfNew name flag) (view'.insertIfNew name' flag) := by
  unfold Table.insertIfNew Table.contains
  rw [turns.same _ _ turnsName]
  split
  · exact turns
  · exact turns.insert turnsName fresh flag

end NamesTurn
-----
-- Searches

namespace LocalsTurn

variable {marks : List Bool} {locals locals' : List LocalScope}

/-- As many scopes are open under the new names. -/
theorem length (turns : LocalsTurn rename marks locals locals')
    : locals'.length = locals.length := by
  induction turns with
  | nil => rfl
  | cons _ _ ih => exact congrArg (· + 1) ih

/-- Where no scope is open none is open under the new names. -/
theorem of_nil (turns : LocalsTurn rename [] locals locals') : locals = [] ∧ locals' = [] := by
  cases turns
  exact ⟨rfl, rfl⟩

/-- The innermost scopes turn into each other, and so do the others. -/
theorem of_cons {mark : Bool} (turns : LocalsTurn rename (mark :: marks) locals locals')
    : ∃ scope outer scope' outer',
        locals = scope :: outer
        ∧ locals' = scope' :: outer'
        ∧ NamesTurn rename mark scope.names scope'.names
        ∧ LocalsTurn rename marks outer outer' := by
  cases turns with
  | cons names rest => exact ⟨_, _, _, _, rfl, rfl, names, rest⟩

/-- What a use is noted in is not what is known of the names. -/
theorem used (turns : LocalsTurn rename marks locals locals') (distance : Nat)
    (name name' : String)
    : LocalsTurn rename marks
        (locals.modify distance fun scope => { scope with unused := scope.unused.erase name })
        (locals'.modify distance fun scope => { scope with unused := scope.unused.erase name' }) := by
  induction turns generalizing distance with
  | nil => cases distance <;> exact .nil
  | cons names rest ih =>
      cases distance with
      | zero => exact .cons names rest
      | succ distance => exact .cons names (ih distance)

/-- A use other than a read is found at the same distance under the name that it becomes. A name
that is not found is not found again. -/
theorem nearest? (turns : LocalsTurn rename marks locals locals') {name name' : String}
    (fresh : name ≠ rename.new) (candidate : name' = name ∨ name = rename.old ∧ name' = rename.new)
    : (∀ distance,
        Binding.nearest? name locals = some distance
        → rename.Turns (markAt marks (some distance)) name name'
        → Binding.nearest? name' locals' = some distance)
      ∧ (Binding.nearest? name locals = none → Binding.nearest? name' locals' = none) := by
  have step (name : String) (scope : LocalScope) (outer : List LocalScope)
      : Binding.nearest? name (scope :: outer)
          = if scope.names.contains name then some 0
            else (Binding.nearest? name outer).map (· + 1) :=
    List.findIdx?_cons
  induction turns with
  | nil => exact ⟨fun _ found => (by cases found), fun _ => rfl⟩
  | @cons mark marks scope scope' outer outer' names rest ih =>
      rw [step, step]
      by_cases has : scope.names.contains name = true
      · rw [if_pos has]
        refine ⟨fun distance found turnsName => ?_, fun none => (by cases none)⟩
        obtain rfl := Option.some.inj found
        have has' : scope'.names.contains name' = true := by
          rw [Table.contains, names.same _ _ turnsName]
          exact has
        rw [if_pos has']
      · have missing := contains_eq_false_iff.1 (Bool.eq_false_iff.2 has)
        have missing' : scope'.names.contains name' = false := by
          rw [contains_eq_false_iff]
          exact (names.same_or_none fresh candidate).elim (·.trans missing) id
        rw [if_neg has, missing', if_neg Bool.false_ne_true]
        refine ⟨fun distance found turnsName => ?_, fun none => ?_⟩
        · obtain ⟨fewer, nearest, rfl⟩ := Option.map_eq_some_iff.1 found
          rw [ih.1 fewer nearest turnsName]
          rfl
        · rw [ih.2 (Option.map_eq_none_iff.1 none)]
          rfl

/-- A read is found at the same distance under the name that it becomes. A name that is not found is
not found again, and no more pending bindings are passed over. -/
theorem searchFrom (turns : LocalsTurn rename marks locals locals') {name name' : String}
    (fresh : name ≠ rename.new) (candidate : name' = name ∨ name = rename.old ∧ name' = rename.new)
    (own start : Nat) {passed passed' : Bool} (less : passed' = true → passed = true)
    : (∀ steps,
        (Binding.searchFrom name own start passed locals).distance = some (start + steps)
        → rename.Turns (markAt marks (some steps)) name name'
        → (Binding.searchFrom name' own start passed' locals').distance = some (start + steps))
      ∧ ((Binding.searchFrom name own start passed locals).distance = none
        → (Binding.searchFrom name' own start passed' locals').distance = none
          ∧ ((Binding.searchFrom name' own start passed' locals').passedPending = true
            → (Binding.searchFrom name own start passed locals).passedPending = true)) := by
  induction turns generalizing start passed passed' with
  | nil => exact ⟨fun _ found => (by cases found), fun _ => ⟨rfl, less⟩⟩
  | @cons mark marks scope scope' outer outer' names rest ih =>
      -- Whatever is passed over in the old scope is so in the new one, or is missing there.
      have beyond {passed passed' : Bool} (less : passed' = true → passed = true) (steps : Nat)
          (found : (Binding.searchFrom name own (start + 1) passed outer).distance
            = some (start + steps))
          (turnsName : rename.Turns (markAt (mark :: marks) (some steps)) name name')
          : (Binding.searchFrom name' own (start + 1) passed' outer').distance
              = some (start + steps) := by
        obtain ⟨fewer, -, -, total, -⟩ := searchFrom_some found
        obtain rfl : steps = fewer + 1 := by omega
        rw [total] at found ⊢
        exact (ih (start + 1) less).1 fewer found turnsName
      have looked := names.same_or_none fresh candidate
      unfold Binding.searchFrom
      cases known : scope.names.get? name with
      | none =>
          have missing : scope'.names.get? name' = none := looked.elim (·.trans known) id
          rw [missing]
          exact ⟨beyond less, (ih (start + 1) less).2⟩
      | some flag =>
          simp only
          by_cases passes : (!flag && decide (start < own)) = true
          · rw [if_pos passes]
            rcases looked with same | missing
            · rw [same, known]
              simp only
              rw [if_pos passes]
              exact ⟨beyond id, (ih (start + 1) id).2⟩
            · rw [missing]
              exact ⟨beyond fun _ => rfl, (ih (start + 1) fun _ => rfl).2⟩
          · rw [if_neg passes]
            refine ⟨fun steps found turnsName => ?_, fun none => (by cases none)⟩
            obtain rfl : steps = 0 := by
              have same : start = start + steps := Option.some.inj found
              omega
            rw [names.same _ _ turnsName, known]
            simp only
            rw [if_neg passes]
            rfl

end LocalsTurn

-----
-- Single changes

namespace Scopes.Turns

variable {mark : Bool} {marks : List Bool} {scopes scopes' : Scopes}

/-- Striking a name off as used does not matter to what names turn into. -/
theorem used (turns : scopes.Turns rename marks scopes') (distance : Nat) (name name' : String)
    : (scopes.used distance name).Turns rename marks (scopes'.used distance name') :=
  { turns with locals := turns.locals.used distance name name' }

/-- With an error in the old tree, nothing is claimed of the errors of the new one. -/
theorem error (turns : scopes.Turns rename marks scopes') (token token' : Token) (problem : Problem)
    : (scopes.error token problem).Turns rename marks (scopes'.error token' problem) :=
  { turns with errors := fun clean => absurd clean (by simp [Scopes.error]) }

/-- A mistake that only the old program has does not matter to what names turn into. -/
theorem error_old (turns : scopes.Turns rename marks scopes') (token : Token) (problem : Problem)
    : (scopes.error token problem).Turns rename marks scopes' :=
  { turns with errors := fun clean => absurd clean (by simp [Scopes.error]) }

/-- Scopes that are opened turn into each other, with names that turn or do not. -/
theorem opened (turns : scopes.Turns rename marks scopes') (mark : Bool)
    : scopes.opened.Turns rename (mark :: marks) scopes'.opened :=
  { turns with locals := .cons (.empty mark) turns.locals }

/-- Scopes that are closed leave others behind that turn into each other. -/
theorem closed (turns : scopes.Turns rename (mark :: marks) scopes')
    : scopes.closed.Turns rename marks scopes'.closed := by
  obtain ⟨scope, outer, scope', outer', split, split', -, rest⟩ := turns.locals.of_cons
  unfold Scopes.closed
  rw [split, split']
  exact { turns with locals := rest }

/-- Functions that are entered turn into each other. -/
theorem entered (turns : scopes.Turns rename marks scopes')
    : scopes.enteredFunction.Turns rename marks scopes'.enteredFunction :=
  { turns with inFunction := rfl, loopDepth := rfl, functionBase := turns.locals.length }

/-- Functions that are left turn into each other. -/
theorem left (turns : scopes.Turns rename marks scopes') {before before' : Scopes}
    (turnsBefore : before.Turns rename marks before')
    : (scopes.leftFunction before).Turns rename marks (scopes'.leftFunction before') :=
  { turns with
    inFunction := turnsBefore.inFunction
    loopDepth := turnsBefore.loopDepth
    functionBase := turnsBefore.functionBase }

/-- Loops that are entered turn into each other. -/
theorem enteredLoop (turns : scopes.Turns rename marks scopes')
    : scopes.enteredLoop.Turns rename marks scopes'.enteredLoop :=
  { turns with loopDepth := congrArg (· + 1) turns.loopDepth }

/-- Loops that are left turn into each other. -/
theorem leftLoop (turns : scopes.Turns rename marks scopes')
    : Turns rename marks { scopes with loopDepth := scopes.loopDepth - 1 }
        { scopes' with loopDepth := scopes'.loopDepth - 1 } :=
  { turns with loopDepth := congrArg (· - 1) turns.loopDepth }

/-- Classes that are entered turn into each other. -/
theorem enteredClass (turns : scopes.Turns rename marks scopes') (context : ClassContext)
    : (scopes.enteredClass context).Turns rename marks (scopes'.enteredClass context) :=
  { turns with classContext := rfl }

/-- A declaration goes to the innermost scope, and outside of all scopes to the globals. -/
theorem declared (turns : scopes.Turns rename marks scopes') {name name' : Token}
    (turnsName : rename.Turns (marks.headD false) name.lexeme name'.lexeme)
    (fresh : name.lexeme ≠ rename.new) (tracked : Bool)
    : (scopes.declared name tracked).Turns rename marks (scopes'.declared name' tracked) := by
  unfold Scopes.declared
  cases marks with
  | nil =>
      obtain ⟨none, none'⟩ := turns.locals.of_nil
      rw [none, none']
      exact { turns with
        locals := .nil
        globals := by rw [turns.globals, turnsName.eq_of_unmarked] }
  | cons mark marks =>
      obtain ⟨scope, outer, scope', outer', split, split', names, rest⟩ := turns.locals.of_cons
      rw [split, split']
      exact { turns with locals := .cons (names.insertIfNew turnsName fresh false) rest }

/-- Defining a name turns into defining its new name, if the new name is not in use. -/
theorem defined (turns : scopes.Turns rename marks scopes') {name name' : String}
    (turnsName : rename.Turns (marks.headD false) name name') (fresh : name ≠ rename.new)
    : (scopes.defined name).Turns rename marks (scopes'.defined name') := by
  unfold Scopes.defined
  cases marks with
  | nil =>
      obtain ⟨none, none'⟩ := turns.locals.of_nil
      rw [none, none']
      exact { turns with
        locals := .nil
        globals := by rw [turns.globals, turnsName.eq_of_unmarked] }
  | cons mark marks =>
      obtain ⟨scope, outer, scope', outer', split, split', names, rest⟩ := turns.locals.of_cons
      rw [split, split']
      exact { turns with locals := .cons (names.insert turnsName fresh true) rest }

/-- Whatever reads itself in the new tree does so in the old one. -/
theorem readsItself (turns : scopes.Turns rename marks scopes') {name : String}
    {passed passed' : Bool} (less : passed' = true → passed = true)
    (reads : scopes'.readsItself name passed' = true)
    : scopes.readsItself name passed = true := by
  unfold Scopes.readsItself at reads ⊢
  rw [turns.globals, turns.inFunction] at reads
  simp only [Bool.and_eq_true, Bool.or_eq_true] at reads ⊢
  exact ⟨reads.1.imp_left less, reads.2⟩

end Scopes.Turns

-----
-- Steps taken again

/-- The step, taken in scopes of the new tree, has the result, and ends as the old tree did. -/
def Repeats (rename : Renaming) (marks : List Bool) {α : Type} (before' : Scopes)
    (step : Binder α) (value : α) (after : Scopes)
    : Prop :=
  ∃ after', step before' = (value, after') ∧ after.Turns rename marks after'

namespace Repeats

variable {α β : Type} {marks marks' : List Bool} {before' between after : Scopes}

/-- A step that does nothing repeats. -/
theorem pure {value : α} (turns : after.Turns rename marks before')
    : Repeats rename marks before' (Pure.pure value) value after :=
  ⟨before', rfl, turns⟩

/-- Steps in a row repeat if each does. -/
theorem bind {step : Binder α} {next : α → Binder β} {value : α} {result : β}
    (first : Repeats rename marks before' step value between)
    (second
      : ∀ between',
          between.Turns rename marks between'
          → Repeats rename marks' between' (next value) result after)
    : Repeats rename marks' before' (step >>= next) result after := by
  obtain ⟨between', run, turns⟩ := first
  obtain ⟨after', runNext, turns⟩ := second between' turns
  refine ⟨after', ?_, turns⟩
  change next (step before').1 (step before').2 = _
  rw [run, runNext]

/-- A change of the scopes repeats if its outcomes turn into each other. -/
theorem changed {change : Scopes → Scopes} (turns : after.Turns rename marks (change before'))
    : Repeats rename marks before' (modify change) () after :=
  ⟨change before', rfl, turns⟩

end Repeats

section

variable {marks : List Bool} {scopes scopes' : Scopes}

/-- A name turns into itself, or it is the old name and turns into the new one. -/
theorem candidate_of_turns {mark : Bool} {name name' : String}
    (turnsName : rename.Turns mark name name')
    : name' = name ∨ name = rename.old ∧ name' = rename.new := by
  cases turnsName with
  | kept _ => exact .inl rfl
  | replaced => exact .inr ⟨rfl, rfl⟩

/-- The nearest declaration of the new name is at the same distance, by induction on the open
scopes. -/
theorem bindNearest_repeats (turns : scopes.Turns rename marks scopes') {name name' : Token}
    (fresh : name.lexeme ≠ rename.new)
    (turnsName : rename.TurnsToken (markAt marks (bindNearest name scopes).1) name name')
    : Repeats rename marks scopes' (bindNearest name') (bindNearest name scopes).1
        (bindNearest name scopes).2 := by
  have turnsName := turnsName.lexeme
  obtain ⟨found, missing⟩ := turns.locals.nearest? fresh (candidate_of_turns turnsName)
  cases near : nearest? name.lexeme scopes.locals with
  | none =>
      rw [bindNearest_of_none near]
      exact ⟨scopes', bindNearest_of_none (missing near), turns⟩
  | some distance =>
      rw [bindNearest_of_nearest near] at turnsName ⊢
      exact ⟨_, bindNearest_of_nearest (found distance near turnsName), turns.used distance _ _⟩

/-- A read of the new name is bound to the same distance, past the same pending declarations. -/
theorem bindRead_repeats (turns : scopes.Turns rename marks scopes') {name name' : Token}
    (fresh : name.lexeme ≠ rename.new)
    (turnsName : rename.TurnsToken (markAt marks (bindRead name scopes).1) name name')
    : Repeats rename marks scopes' (bindRead name') (bindRead name scopes).1
        (bindRead name scopes).2 := by
  have turnsName := turnsName.lexeme
  obtain ⟨found, missing⟩ :=
    turns.locals.searchFrom fresh (candidate_of_turns turnsName)
      (scopes.locals.length - scopes.functionBase) 0 fun less : false = true => less
  have search'
      : scopes'.search name'.lexeme
          = searchFrom name'.lexeme (scopes.locals.length - scopes.functionBase) 0 false
              scopes'.locals := by
    unfold Scopes.search
    rw [turns.locals.length, turns.functionBase]
  cases searched : (scopes.search name.lexeme).distance with
  | some distance =>
      rw [bindRead_of_found searched] at turnsName ⊢
      have again : (scopes'.search name'.lexeme).distance = some distance := by
        rw [← Nat.zero_add distance] at searched ⊢
        rw [search']
        exact found distance searched turnsName
      exact ⟨_, bindRead_of_found again, turns.used distance _ _⟩
  | none =>
      rw [bindRead_of_missing searched] at turnsName ⊢
      obtain ⟨again, less⟩ := missing searched
      rw [← search'] at again less
      refine ⟨_, bindRead_of_missing again, ?_⟩
      have same : name'.lexeme = name.lexeme := turnsName.eq_of_unmarked
      by_cases reads'
          : scopes'.readsItself name'.lexeme (scopes'.search name'.lexeme).passedPending = true
      · have reads
            : scopes.readsItself name.lexeme (scopes.search name.lexeme).passedPending = true :=
          turns.readsItself less (same ▸ reads')
        rw [if_pos reads, if_pos reads']
        exact turns.error _ _ _
      · rw [if_neg reads']
        split
        · exact turns.error_old _ _
        · exact turns

/-- `this` is bound to the same distance. -/
theorem bindThis_repeats (turns : scopes.Turns rename marks scopes') {keyword : Token}
    (fresh : keyword.lexeme ≠ rename.new)
    (turnsName : rename.TurnsToken (markAt marks (bindThis keyword scopes).1) keyword keyword)
    : Repeats rename marks scopes' (bindThis keyword) (bindThis keyword scopes).1
        (bindThis keyword scopes).2 := by
  cases inside : scopes.classContext with
  | outside =>
      have run (scopes : Scopes) (inside : scopes.classContext = .outside)
          : bindThis keyword scopes = (none, scopes.error keyword .thisOutsideClass) := by
        unfold bindThis
        rw [inside]
      rw [run scopes inside]
      exact ⟨_, run scopes' (turns.classContext.trans inside), turns.error _ _ _⟩
  | plain | subclass =>
      have run (scopes' : Scopes) (same : scopes'.classContext = scopes.classContext)
          : bindThis keyword scopes' = bindNearest keyword scopes' := by
        unfold bindThis
        rw [same, inside]
      rw [run scopes rfl] at turnsName ⊢
      obtain ⟨after', again, turnsAfter⟩ := bindNearest_repeats turns fresh turnsName
      exact ⟨after', (run scopes' turns.classContext).trans again, turnsAfter⟩

/-- `super` is bound to the same distance. -/
theorem bindSuper_repeats (turns : scopes.Turns rename marks scopes') {keyword : Token}
    (fresh : keyword.lexeme ≠ rename.new)
    (turnsName : rename.TurnsToken (markAt marks (bindSuper keyword scopes).1) keyword keyword)
    : Repeats rename marks scopes' (bindSuper keyword) (bindSuper keyword scopes).1
        (bindSuper keyword scopes).2 := by
  cases inside : scopes.classContext with
  | outside =>
      have run (scopes : Scopes) (inside : scopes.classContext = .outside)
          : bindSuper keyword scopes = (none, scopes.error keyword .superOutsideClass) := by
        unfold bindSuper
        rw [inside]
      rw [run scopes inside]
      exact ⟨_, run scopes' (turns.classContext.trans inside), turns.error _ _ _⟩
  | plain =>
      have run (scopes : Scopes) (inside : scopes.classContext = .plain)
          : bindSuper keyword scopes = (none, scopes.error keyword .superWithoutSuperclass) := by
        unfold bindSuper
        rw [inside]
      rw [run scopes inside]
      exact ⟨_, run scopes' (turns.classContext.trans inside), turns.error _ _ _⟩
  | subclass =>
      have run (scopes : Scopes) (inside : scopes.classContext = .subclass)
          : bindSuper keyword scopes = bindNearest keyword scopes := by
        unfold bindSuper
        rw [inside]
      rw [run scopes inside] at turnsName ⊢
      obtain ⟨after', again, turnsAfter⟩ := bindNearest_repeats turns fresh turnsName
      exact ⟨after', (run scopes' (turns.classContext.trans inside)).trans again, turnsAfter⟩

/-- A `break` is checked alike. -/
theorem checkBreak_repeats (turns : scopes.Turns rename marks scopes') (keyword : Token)
    : Repeats rename marks scopes' (checkBreak keyword) () (checkBreak keyword scopes).2 := by
  refine .changed ?_
  change Scopes.Turns rename marks
    (if scopes.loopDepth = 0 then scopes.error keyword .breakOutsideLoop else scopes) _
  rw [turns.loopDepth]
  split
  · exact turns.error _ _ _
  · exact turns

/-- A `return` is checked alike. -/
theorem checkReturn_repeats (turns : scopes.Turns rename marks scopes') (keyword : Token)
    : Repeats rename marks scopes' (checkReturn keyword) () (checkReturn keyword scopes).2 := by
  refine .changed ?_
  change Scopes.Turns rename marks
    (if scopes.inFunction then scopes else scopes.error keyword .returnOutsideFunction) _
  rw [turns.inFunction]
  split
  · exact turns
  · exact turns.error _ _ _

/-- Declaring the new name repeats declaring the old one. -/
theorem declare_repeats (turns : scopes.Turns rename marks scopes') {name name' : Token}
    (fresh : name.lexeme ≠ rename.new)
    (turnsName : rename.TurnsToken (marks.headD false) name name')
    : Repeats rename marks scopes' (declare name') () (declare name scopes).2 :=
  .changed (turns.declared turnsName.lexeme fresh true)

/-- Defining the new name repeats defining the old one. -/
theorem define_repeats (turns : scopes.Turns rename marks scopes') {name name' : Token}
    (fresh : name.lexeme ≠ rename.new)
    (turnsName : rename.TurnsToken (marks.headD false) name name')
    : Repeats rename marks scopes' (define name') () (define name scopes).2 :=
  .changed (turns.defined turnsName.lexeme fresh)

/-- Names that no declaration introduces stand in scopes that are not affected. -/
theorem defineImplicit_repeats (turns : scopes.Turns rename (false :: marks) scopes')
    {name : String} (fresh : name ≠ rename.new)
    : Repeats rename (false :: marks) scopes' (defineImplicit name) ()
        (defineImplicit name scopes).2 :=
  .changed (turns.defined (.unmarked name) fresh)

/-- Declaring parameters repeats under their new names, by induction on the parameters. -/
theorem declareParameters_repeats {parameters parameters' : List Token} {mark : Bool}
    (turnsNames : rename.TurnsTokens mark parameters parameters')
    (turns : scopes.Turns rename (mark :: marks) scopes')
    (fresh : ∀ parameter ∈ parameters, parameter.lexeme ≠ rename.new)
    : Repeats rename (mark :: marks) scopes' (parameters'.forM declareParameter) ()
        (parameters.forM declareParameter scopes).2 := by
  induction turnsNames generalizing scopes scopes' with
  | nil => exact .pure turns
  | cons head tail ih =>
      obtain ⟨freshHead, freshTail⟩ := List.forall_mem_cons.1 fresh
      refine Repeats.bind (.changed ?_) fun _ turns => ih turns freshTail
      exact (turns.declared head.lexeme freshHead false).defined head.lexeme freshHead

/-- A class that differs from its superclass still does. -/
theorem bindSuperclass_repeats (turns : scopes.Turns rename marks scopes') {name : Token}
    {superclass : Reference Unit} {superclass' : Reference (Option Nat)}
    (freshName : name.lexeme ≠ rename.new) (fresh : superclass.name.lexeme ≠ rename.new)
    (turnsTarget
      : rename.TurnsReference marks (bindSuperclass name superclass scopes).1 superclass')
    : Repeats rename marks scopes'
        (bindSuperclass name { name := superclass'.name, binding := () }) superclass'
        (bindSuperclass name superclass scopes).2 := by
  obtain ⟨target, binding⟩ := superclass
  cases turnsTarget with
  | @intro _ name' _ turnsName =>
      have entered
          : Repeats rename marks scopes' (enterSubclass name name') ()
              (enterSubclass name target scopes).2 := by
        refine .changed ?_
        change Scopes.Turns rename marks
          (if target.lexeme = name.lexeme then
            (scopes.enteredClass .subclass).error target .selfInheritance
          else scopes.enteredClass .subclass) _
        have other := turns.enteredClass .subclass
        by_cases same' : name'.lexeme = name.lexeme
        · have same : target.lexeme = name.lexeme := by
            rcases candidate_of_turns turnsName.lexeme with kept | ⟨-, replaced⟩
            · exact kept.symm.trans same'
            · exact absurd (same'.symm.trans replaced) freshName
          rw [if_pos same, if_pos same']
          exact other.error _ _ _
        · rw [if_neg same']
          split
          · exact other.error_old _ _
          · exact other
      exact entered.bind fun _ turns =>
        (bindRead_repeats turns fresh turnsName).bind fun _ turns => .pure turns

end

-----
-- Contexts

section

variable {α : Type} {marks : List Bool} {scopes scopes' after : Scopes} {step : Binder α} {value : α}

/-- What repeats inside a scope repeats around it. -/
theorem inScope_repeats {mark : Bool}
    (inside : Repeats rename (mark :: marks) scopes'.opened step value after)
    : Repeats rename marks scopes' (inScope step) value after.closed := by
  obtain ⟨after', run, turns⟩ := inside
  refine ⟨after'.closed, ?_, turns.closed⟩
  change ((step scopes'.opened).1, (step scopes'.opened).2.closed) = _
  rw [run]

/-- What repeats inside a loop repeats around it. -/
theorem inLoop_repeats (inside : Repeats rename marks scopes'.enteredLoop step value after)
    : Repeats rename marks scopes' (inLoop step) value
        { after with loopDepth := after.loopDepth - 1 } := by
  obtain ⟨after', run, turns⟩ := inside
  refine ⟨_, ?_, turns.leftLoop⟩
  change ((step scopes'.enteredLoop).1, { (step scopes'.enteredLoop).2 with
    loopDepth := (step scopes'.enteredLoop).2.loopDepth - 1 }) = _
  rw [run]

/-- What repeats inside a function repeats around it. -/
theorem inFunction_repeats (turns : scopes.Turns rename marks scopes')
    (inside : Repeats rename marks scopes'.enteredFunction step value after)
    : Repeats rename marks scopes' (inFunction step) value (after.leftFunction scopes) := by
  obtain ⟨after', run, turnsAfter⟩ := inside
  refine ⟨_, ?_, turnsAfter.left turns⟩
  change ((step scopes'.enteredFunction).1,
    (step scopes'.enteredFunction).2.leftFunction scopes') = _
  rw [run]

/-- What repeats inside a class repeats around it. -/
theorem inClass_repeats (turns : scopes.Turns rename marks scopes')
    (inside : Repeats rename marks (scopes'.enteredClass .plain) step value after)
    : Repeats rename marks scopes' (inClass step) value
        (after.enteredClass scopes.classContext) := by
  obtain ⟨after', run, turnsAfter⟩ := inside
  refine ⟨_, ?_, turnsAfter.enteredClass scopes.classContext⟩
  change ((step (scopes'.enteredClass .plain)).1,
    (step (scopes'.enteredClass .plain)).2.enteredClass scopes'.classContext) = _
  rw [run, turns.classContext]

end

-----
-- Whole trees

mutual
/-- Binding the renamed expression gives it the same distances, by cases on the expression. -/
theorem bindExpr_repeats
    : ∀ (expr : Expr Unit) {marks : List Bool} {scopes scopes' : Scopes} {expr' : BoundExpr},
        expr.Avoids rename.new
        → scopes.Turns rename marks scopes'
        → (bindExpr expr scopes).1.Becomes rename marks expr'
        → Repeats rename marks scopes' (bindExpr expr'.unbound) expr' (bindExpr expr scopes).2
  | .literal _, _, _, _, _, _, turns, becomes => by
      obtain rfl := becomes
      exact .pure turns
  | .grouping inner, _, _, _, _, avoids, turns, becomes => by
      obtain ⟨inner', rfl, becomes⟩ := becomes
      exact (bindExpr_repeats inner avoids turns becomes).bind fun _ turns => .pure turns
  | .unary _ operand, _, _, _, _, avoids, turns, becomes => by
      obtain ⟨operand', rfl, becomes⟩ := becomes
      exact (bindExpr_repeats operand avoids turns becomes).bind fun _ turns => .pure turns
  | .binary left _ right, _, _, _, _, avoids, turns, becomes => by
      obtain ⟨left', right', rfl, becomesLeft, becomesRight⟩ := becomes
      exact (bindExpr_repeats left avoids.1 turns becomesLeft).bind fun _ turns =>
        (bindExpr_repeats right avoids.2 turns becomesRight).bind fun _ turns => .pure turns
  | .logical left _ right, _, _, _, _, avoids, turns, becomes => by
      obtain ⟨left', right', rfl, becomesLeft, becomesRight⟩ := becomes
      exact (bindExpr_repeats left avoids.1 turns becomesLeft).bind fun _ turns =>
        (bindExpr_repeats right avoids.2 turns becomesRight).bind fun _ turns => .pure turns
  | .conditional condition thenCase elseCase, _, _, _, _, avoids, turns, becomes => by
      obtain ⟨condition', thenCase', elseCase', rfl, tested, becomesThen, becomesElse⟩ := becomes
      exact (bindExpr_repeats condition avoids.1 turns tested).bind fun _ turns =>
        (bindExpr_repeats thenCase avoids.2.1 turns becomesThen).bind fun _ turns =>
          (bindExpr_repeats elseCase avoids.2.2 turns becomesElse).bind fun _ turns => .pure turns
  | .variable target, _, _, _, _, avoids, turns, becomes => by
      obtain ⟨target', rfl, ⟨turnsName⟩⟩ := becomes
      exact (bindRead_repeats turns avoids turnsName).bind fun _ turns => .pure turns
  | .assign target value, _, _, _, _, avoids, turns, becomes => by
      obtain ⟨target', value', rfl, ⟨turnsName⟩, becomes⟩ := becomes
      exact (bindExpr_repeats value avoids.2 turns becomes).bind fun _ turns =>
        (bindNearest_repeats turns avoids.1 turnsName).bind fun _ turns => .pure turns
  | .call callee _ arguments, _, _, _, _, avoids, turns, becomes => by
      obtain ⟨callee', arguments', rfl, called, becomes⟩ := becomes
      exact (bindExpr_repeats callee avoids.1 turns called).bind fun _ turns =>
        (bindExprs_repeats arguments avoids.2 turns becomes).bind fun _ turns => .pure turns
  | .get object _, _, _, _, _, avoids, turns, becomes => by
      obtain ⟨object', rfl, becomes⟩ := becomes
      exact (bindExpr_repeats object avoids turns becomes).bind fun _ turns => .pure turns
  | .set object _ value, _, _, _, _, avoids, turns, becomes => by
      obtain ⟨object', value', rfl, becomesObject, becomesValue⟩ := becomes
      exact (bindExpr_repeats value avoids.2 turns becomesValue).bind fun _ turns =>
        (bindExpr_repeats object avoids.1 turns becomesObject).bind fun _ turns => .pure turns
  | .this keyword, _, _, _, _, avoids, turns, becomes => by
      obtain ⟨rfl, ⟨turnsName⟩⟩ := becomes
      exact (bindThis_repeats turns avoids turnsName).bind fun _ turns => .pure turns
  | .super keyword _, _, _, _, _, avoids, turns, becomes => by
      obtain ⟨rfl, ⟨turnsName⟩⟩ := becomes
      exact (bindSuper_repeats turns avoids turnsName).bind fun _ turns => .pure turns
  | .function function, _, _, _, _, avoids, turns, becomes => by
      obtain ⟨function', rfl, becomes⟩ := becomes
      exact (bindFunction_repeats function avoids turns becomes).bind fun _ turns => .pure turns

/-- Binding renamed expressions gives them the same distances. -/
theorem bindExprs_repeats
    : ∀ (exprs : List (Expr Unit)) {marks : List Bool} {scopes scopes' : Scopes}
        {exprs' : List BoundExpr},
        AvoidsExprs rename.new exprs
        → scopes.Turns rename marks scopes'
        → BecomesExprs rename marks (bindExprs exprs scopes).1 exprs'
        → Repeats rename marks scopes' (bindExprs (unboundExprs exprs')) exprs'
            (bindExprs exprs scopes).2
  | [], _, _, _, _, _, turns, becomes => by
      obtain rfl := becomes
      exact .pure turns
  | first :: rest, _, _, _, _, avoids, turns, becomes => by
      obtain ⟨first', rest', rfl, becomesFirst, becomesRest⟩ := becomes
      exact (bindExpr_repeats first avoids.1 turns becomesFirst).bind fun _ turns =>
        (bindExprs_repeats rest avoids.2 turns becomesRest).bind fun _ turns => .pure turns

/-- Binding a renamed expression that may be left out gives it the same distances. -/
theorem bindOptional_repeats
    : ∀ (value : Option (Expr Unit)) {marks : List Bool} {scopes scopes' : Scopes}
        {value' : Option BoundExpr},
        AvoidsOptional rename.new value
        → scopes.Turns rename marks scopes'
        → BecomesOptional rename marks (bindOptional value scopes).1 value'
        → Repeats rename marks scopes' (bindOptional (unboundOptional value')) value'
            (bindOptional value scopes).2
  | none, _, _, _, _, _, turns, becomes => by
      obtain rfl := becomes
      exact .pure turns
  | some value, _, _, _, _, avoids, turns, becomes => by
      obtain ⟨value', rfl, becomes⟩ := becomes
      exact (bindExpr_repeats value avoids turns becomes).bind fun _ turns => .pure turns

/-- Binding the renamed statement gives it the same distances, by cases on the statement. -/
theorem bindStmt_repeats
    : ∀ (stmt : Stmt Unit) {marks : List Bool} {scopes scopes' : Scopes} {stmt' : BoundStmt},
        stmt.Avoids rename.new
        → scopes.Turns rename marks scopes'
        → (bindStmt stmt scopes).1.Becomes rename marks stmt'
        → Repeats rename marks scopes' (bindStmt stmt'.unbound) stmt' (bindStmt stmt scopes).2
  | .expression value, _, _, _, _, avoids, turns, becomes => by
      obtain ⟨value', rfl, becomes⟩ := becomes
      exact (bindExpr_repeats value avoids turns becomes).bind fun _ turns => .pure turns
  | .print value, _, _, _, _, avoids, turns, becomes => by
      obtain ⟨value', rfl, becomes⟩ := becomes
      exact (bindExpr_repeats value avoids turns becomes).bind fun _ turns => .pure turns
  | .printLine value, _, _, _, _, avoids, turns, becomes => by
      obtain ⟨value', rfl, becomes⟩ := becomes
      exact (bindOptional_repeats value avoids turns becomes).bind fun _ turns => .pure turns
  | .variable name initial, _, _, _, _, avoids, turns, becomes => by
      obtain ⟨name', initial', rfl, turnsName, becomes⟩ := becomes
      exact (declare_repeats turns avoids.1 turnsName).bind fun _ turns =>
        (bindOptional_repeats initial avoids.2 turns becomes).bind fun _ turns =>
          (define_repeats turns avoids.1 turnsName).bind fun _ turns => .pure turns
  | .block statements, _, _, _, _, avoids, turns, becomes => by
      obtain ⟨mark, statements', rfl, becomes⟩ := becomes
      exact (inScope_repeats
        (bindStmts_repeats statements avoids (turns.opened mark) becomes)).bind fun _ turns =>
          .pure turns
  | .branch condition thenBranch elseBranch, _, _, _, _, avoids, turns, becomes => by
      obtain ⟨condition', thenBranch', elseBranch', rfl, tested, becomesThen, becomesElse⟩ :=
        becomes
      exact (bindExpr_repeats condition avoids.1 turns tested).bind fun _ turns =>
        (bindStmt_repeats thenBranch avoids.2.1 turns becomesThen).bind fun _ turns =>
          (bindElse_repeats elseBranch avoids.2.2 turns becomesElse).bind fun _ turns =>
            .pure turns
  | .loop condition body, _, _, _, _, avoids, turns, becomes => by
      obtain ⟨condition', body', rfl, tested, becomes⟩ := becomes
      exact (bindExpr_repeats condition avoids.1 turns tested).bind fun _ turns =>
        (inLoop_repeats (bindStmt_repeats body avoids.2 turns.enteredLoop becomes)).bind
          fun _ turns => .pure turns
  | .breakLoop keyword, _, _, _, _, _, turns, becomes => by
      obtain rfl := becomes
      exact (checkBreak_repeats turns keyword).bind fun _ turns => .pure turns
  | .returnValue keyword value, _, _, _, _, avoids, turns, becomes => by
      obtain ⟨value', rfl, becomes⟩ := becomes
      exact (checkReturn_repeats turns keyword).bind fun _ turns =>
        (bindOptional_repeats value avoids turns becomes).bind fun _ turns => .pure turns
  | .function name function, _, _, _, _, avoids, turns, becomes => by
      obtain ⟨function', rfl, turnsName, becomes⟩ := becomes
      exact (declare_repeats turns avoids.1 turnsName).bind fun _ turns =>
        (define_repeats turns avoids.1 turnsName).bind fun _ turns =>
          (bindFunction_repeats function avoids.2 turns becomes).bind fun _ turns => .pure turns
  | .class name none methods, _, _, _, _, avoids, turns, becomes => by
      obtain ⟨methods', rfl, turnsName, becomes⟩ := becomes
      exact inClass_repeats turns <|
        (declare_repeats (turns.enteredClass .plain) avoids.1 turnsName).bind fun _ turns =>
          (define_repeats turns avoids.1 turnsName).bind fun _ turns =>
            (inScope_repeats <|
              (defineImplicit_repeats (turns.opened false) rename.this.2).bind fun _ turns =>
                bindMethods_repeats methods avoids.2.2 turns becomes).bind fun _ turns =>
              .pure turns
  | .class name (some superclass) methods, _, _, _, _, avoids, turns, becomes => by
      obtain ⟨superclass', methods', rfl, turnsName, turnsTarget, becomes⟩ := becomes
      exact inClass_repeats turns <|
        (declare_repeats (turns.enteredClass .plain) avoids.1 turnsName).bind fun _ turns =>
          (define_repeats turns avoids.1 turnsName).bind fun _ turns =>
            (bindSuperclass_repeats turns avoids.1 (avoids.2.1 superclass rfl) turnsTarget).bind
              fun _ turns =>
                (inScope_repeats <|
                  (defineImplicit_repeats (turns.opened false) rename.super.2).bind fun _ turns =>
                    inScope_repeats <|
                      (defineImplicit_repeats (turns.opened false) rename.this.2).bind
                        fun _ turns => bindMethods_repeats methods avoids.2.2 turns becomes).bind
                  fun _ turns => .pure turns

/-- Binding renamed statements gives them the same distances. -/
theorem bindStmts_repeats
    : ∀ (stmts : List (Stmt Unit)) {marks : List Bool} {scopes scopes' : Scopes}
        {stmts' : List BoundStmt},
        AvoidsStmts rename.new stmts
        → scopes.Turns rename marks scopes'
        → BecomesStmts rename marks (bindStmts stmts scopes).1 stmts'
        → Repeats rename marks scopes' (bindStmts (unboundStmts stmts')) stmts'
            (bindStmts stmts scopes).2
  | [], _, _, _, _, _, turns, becomes => by
      obtain rfl := becomes
      exact .pure turns
  | first :: rest, _, _, _, _, avoids, turns, becomes => by
      obtain ⟨first', rest', rfl, becomesFirst, becomesRest⟩ := becomes
      exact (bindStmt_repeats first avoids.1 turns becomesFirst).bind fun _ turns =>
        (bindStmts_repeats rest avoids.2 turns becomesRest).bind fun _ turns => .pure turns

/-- Binding a renamed branch that may be left out gives it the same distances. -/
theorem bindElse_repeats
    : ∀ (branch : Option (Stmt Unit)) {marks : List Bool} {scopes scopes' : Scopes}
        {branch' : Option BoundStmt},
        AvoidsElse rename.new branch
        → scopes.Turns rename marks scopes'
        → BecomesElse rename marks (bindElse branch scopes).1 branch'
        → Repeats rename marks scopes' (bindElse (unboundElse branch')) branch'
            (bindElse branch scopes).2
  | none, _, _, _, _, _, turns, becomes => by
      obtain rfl := becomes
      exact .pure turns
  | some branch, _, _, _, _, avoids, turns, becomes => by
      obtain ⟨branch', rfl, becomes⟩ := becomes
      exact (bindStmt_repeats branch avoids turns becomes).bind fun _ turns => .pure turns

/-- Binding the renamed function gives it the same distances. -/
theorem bindFunction_repeats
    : ∀ (function : Lambda Unit) {marks : List Bool} {scopes scopes' : Scopes}
        {function' : BoundLambda},
        function.Avoids rename.new
        → scopes.Turns rename marks scopes'
        → (bindFunction function scopes).1.Becomes rename marks function'
        → Repeats rename marks scopes' (bindFunction function'.unbound) function'
            (bindFunction function scopes).2
  | .mk parameters body, _, _, _, _, avoids, turns, becomes => by
      obtain ⟨mark, parameters', body', rfl, turnsNames, becomes⟩ := becomes
      exact inFunction_repeats turns <| inScope_repeats <|
        (declareParameters_repeats turnsNames (turns.entered.opened mark) avoids.1).bind
          fun _ turns =>
            (bindStmts_repeats body avoids.2 turns becomes).bind fun _ turns => .pure turns

/-- Binding renamed methods gives them the same distances. -/
theorem bindMethods_repeats
    : ∀ (methods : List (Method Unit)) {marks : List Bool} {scopes scopes' : Scopes}
        {methods' : List (Method (Option Nat))},
        AvoidsMethods rename.new methods
        → scopes.Turns rename marks scopes'
        → BecomesMethods rename marks (bindMethods methods scopes).1 methods'
        → Repeats rename marks scopes' (bindMethods (unboundMethods methods')) methods'
            (bindMethods methods scopes).2
  | [], _, _, _, _, _, turns, becomes => by
      obtain rfl := becomes
      exact .pure turns
  | .mk _ function :: rest, _, _, _, _, avoids, turns, becomes => by
      obtain ⟨function', rest', rfl, becomesFunction, becomesRest⟩ := becomes
      exact (bindFunction_repeats function avoids.1 turns becomesFunction).bind fun _ turns =>
        (bindMethods_repeats rest avoids.2 turns becomesRest).bind fun _ turns => .pure turns
end

-----
-- Whole programs

/-- Bound again, the new tree has the distances of the old one, and no errors if that has none. -/
theorem bind_repeats {known : List String} {statements : List (Stmt Unit)}
    {statements' : List BoundStmt} (avoids : AvoidsStmts rename.new statements)
    (becomes : BecomesStmts rename [] (bind known statements).statements statements')
    : (bind known (unboundStmts statements')).statements = statements'
      ∧ ((bind known statements).errors = []
        → (bind known (unboundStmts statements')).errors = []) := by
  have start : (Scopes.start known).Turns rename [] (.start known) :=
    ⟨.nil, rfl, id, rfl, rfl, rfl, rfl⟩
  obtain ⟨after', run, turns⟩ := bindStmts_repeats statements avoids start becomes
  refine ⟨congrArg Prod.fst run, fun clean => ?_⟩
  have errors : (bind known (unboundStmts statements')).errors = after'.errors :=
    congrArg (fun outcome => outcome.2.errors) run
  rw [errors]
  exact turns.errors clean

/-- The same for the tree that is renamed in selected scopes. -/
theorem bind_renamed {known : List String} {statements : List (Stmt Unit)} {selection : Selection}
    (proper : ProperStmts statements) (clean : (bind known statements).errors = [])
    (avoids : AvoidsStmts rename.new (bind known statements).statements)
    (plain : PlainStmts rename.old selection false (bind known statements).statements)
    : let renamed := renamedStmts rename selection [] (bind known statements).statements
      BecomesStmts rename [] (bind known statements).statements renamed
      ∧ (bind known (unboundStmts renamed)).statements = renamed
      ∧ (bind known (unboundStmts renamed)).errors = [] := by
  intro renamed
  have unbound : unboundStmts (bind known statements).statements = statements :=
    bindStmts_unbound statements _
  have avoidsText := (avoidsStmts_unbound _).2 avoids
  rw [unbound] at avoidsText
  have becomes : BecomesStmts rename [] (bind known statements).statements renamed :=
    becomesStmts_renamed _ selection [] (by rwa [unbound]) avoids plain
  obtain ⟨same, noErrors⟩ := bind_repeats avoidsText becomes
  exact ⟨becomes, same, noErrors clean⟩

end

end Binding

end Lox
