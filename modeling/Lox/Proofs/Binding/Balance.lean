import Lox.Binding.Bind
import Lox.Proofs.Binding.Proper

/-! Binding leaves the open scopes as they were, but for the name that a statement introduces.

What was known of the names in scope, which globals are known and in which context the place
stands is the same behind an expression as before it. Errors are only added to.
-/

namespace Lox.Binding

-----
-- What is kept

/-- The names of the open scopes, and whether each is defined. -/
def Scopes.views (scopes : Scopes) : List (Table Bool) :=
  scopes.locals.map (·.names)

/-- Diagnostics have been added, all of them errors or all of them warnings. -/
def Reported (severe : Bool) (before after : List Diagnostic) : Prop :=
  ∃ added, after = before ++ added ∧ ∀ diagnostic ∈ added, diagnostic.isError = severe

namespace Reported

variable {severe : Bool}

/-- Reporting nothing is reporting. -/
theorem refl (diagnostics : List Diagnostic) : Reported severe diagnostics diagnostics :=
  ⟨[], (List.append_nil _).symm, fun _ none => absurd none List.not_mem_nil⟩

/-- Reports in a row are reported. -/
theorem trans {before between after : List Diagnostic} (front : Reported severe before between)
    (back : Reported severe between after)
    : Reported severe before after := by
  obtain ⟨first, rfl, firstSevere⟩ := front
  obtain ⟨second, rfl, secondSevere⟩ := back
  refine ⟨first ++ second, List.append_assoc _ _ _, fun diagnostic member => ?_⟩
  rcases List.mem_append.1 member with member | member
  · exact firstSevere diagnostic member
  · exact secondSevere diagnostic member

/-- An error is a single report. -/
theorem one (errors : List Diagnostic) (token : Token) {problem : Problem}
    (isError : problem.severity = .error)
    : Reported true errors (errors ++ [Diagnostic.atToken token problem]) := by
  refine ⟨_, rfl, fun error member => ?_⟩
  obtain rfl := List.mem_singleton.1 member
  exact decide_eq_true isError

/-- Where there are none in the end there were none before. -/
theorem nil {before after : List Diagnostic} (reported : Reported severe before after)
    (clean : after = [])
    : before = [] := by
  obtain ⟨added, rfl, -⟩ := reported
  exact (List.append_eq_nil_iff.1 clean).1

end Reported

/-- The open scopes are as told, and all else is kept, with errors only added. -/
structure Scopes.Reaches (before : Scopes) (views : List (Table Bool)) (after : Scopes)
    : Prop where
  views : after.views = views
  globals : after.globals = before.globals
  errors : Reported true before.errors after.errors
  warnings : Reported false before.warnings after.warnings
  inFunction : after.inFunction = before.inFunction
  classContext : after.classContext = before.classContext
  loopDepth : after.loopDepth = before.loopDepth
  functionBase : after.functionBase = before.functionBase

/-- The open scopes show the same names. -/
def Scopes.Kept (before after : Scopes) : Prop :=
  before.Reaches before.views after

/-- One more scope is open, and the others show the same names. -/
def Scopes.Within (outer inner : Scopes) : Prop :=
  ∃ view, outer.Reaches (view :: outer.views) inner

/-- What is reached in two goes is reached in one. -/
theorem Scopes.Reaches.trans {before between after : Scopes} {views views' : List (Table Bool)}
    (front : before.Reaches views between) (back : between.Reaches views' after)
    : before.Reaches views' after :=
  {
    views := back.views
    globals := back.globals.trans front.globals
    errors := front.errors.trans back.errors
    warnings := front.warnings.trans back.warnings
    inFunction := back.inFunction.trans front.inFunction
    classContext := back.classContext.trans front.classContext
    loopDepth := back.loopDepth.trans front.loopDepth
    functionBase := back.functionBase.trans front.functionBase
  }

namespace Scopes.Kept

/-- Scopes that stay the same are kept. -/
theorem refl (scopes : Scopes) : scopes.Kept scopes :=
  ⟨rfl, rfl, .refl _, .refl _, rfl, rfl, rfl, rfl⟩

/-- Scopes kept twice are kept. -/
theorem trans {before between after : Scopes} (front : before.Kept between)
    (back : between.Kept after)
    : before.Kept after := by
  have views : between.views = before.views := front.views
  exact Reaches.trans front (views ▸ back)

/-- An inner scope that is kept stays within the outer ones. -/
theorem within {outer inner after : Scopes} (kept : inner.Kept after)
    (inside : outer.Within inner)
    : outer.Within after := by
  obtain ⟨view, reaches⟩ := inside
  have views : inner.views = view :: outer.views := reaches.views
  exact ⟨view, Reaches.trans reaches (views ▸ kept)⟩

/-- An error leaves the scopes alone. -/
theorem error (scopes : Scopes) (token : Token) {problem : Problem}
    (severe : problem.severity = .error)
    : scopes.Kept (scopes.error token problem) :=
  ⟨rfl, rfl, .one _ token severe, .refl _, rfl, rfl, rfl, rfl⟩

/-- Uses are noted beside the names. -/
theorem used (scopes : Scopes) (distance : Nat) (name : String)
    : scopes.Kept (scopes.used distance name) := by
  refine ⟨?_, rfl, .refl _, .refl _, rfl, rfl, rfl, rfl⟩
  refine List.ext_getElem? fun index => ?_
  simp only [views, Scopes.used, List.getElem?_map, List.getElem?_modify]
  cases scopes.locals[index]? with
  | none => simp
  | some scope => by_cases here : distance = index <;> simp [here]

/-- What is defined on both sides stays the same on both sides. -/
theorem defined {before after : Scopes} (kept : before.Kept after) (name : String)
    : (before.defined name).Kept (after.defined name) := by
  have views : after.locals.map (·.names) = before.locals.map (·.names) := kept.views
  obtain ⟨-, globals, errors, warnings, inFunction, classContext, loopDepth, functionBase⟩ := kept
  unfold Scopes.defined
  cases outer : before.locals with
  | nil =>
      have none : after.locals = [] := by simpa [outer] using views
      rw [none]
      exact ⟨rfl, by rw [globals], errors, warnings, inFunction, classContext, loopDepth, functionBase⟩
  | cons scope others =>
      rw [outer, List.map_cons] at views
      obtain ⟨scope', others', split, same, sameOthers⟩ := List.map_eq_cons_iff.1 views
      rw [split]
      exact ⟨by simp [Scopes.views, LocalScope.defined, same, sameOthers], globals, errors,
        warnings, inFunction, classContext, loopDepth, functionBase⟩

end Scopes.Kept

-----
-- Names

/-- An assignment keeps the scopes: it marks the nearest entry as used at most. -/
theorem bindNearest_kept (name : Token) (scopes : Scopes)
    : scopes.Kept (bindNearest name scopes).2 := by
  unfold bindNearest
  split
  · exact .refl scopes
  · exact .used scopes _ _

/-- A read keeps the scopes: it marks its entry as used or reports the read of itself. -/
theorem bindRead_kept (name : Token) (scopes : Scopes)
    : scopes.Kept (bindRead name scopes).2 := by
  unfold bindRead
  simp only
  split
  · exact .used scopes _ _
  · split
    · exact .error scopes _ rfl
    · exact .refl scopes

/-- `this` keeps the scopes, inside of a class and outside. -/
theorem bindThis_kept (keyword : Token) (scopes : Scopes)
    : scopes.Kept (bindThis keyword scopes).2 := by
  unfold bindThis
  split
  · exact .error scopes _ rfl
  · exact bindNearest_kept keyword scopes
  · exact bindNearest_kept keyword scopes

/-- `super` keeps the scopes, inside of a subclass and outside. -/
theorem bindSuper_kept (keyword : Token) (scopes : Scopes)
    : scopes.Kept (bindSuper keyword scopes).2 := by
  unfold bindSuper
  split
  · exact .error scopes _ rfl
  · exact .error scopes _ rfl
  · exact bindNearest_kept keyword scopes

/-- A `break` keeps the scopes, inside of a loop and outside. -/
theorem checkBreak_kept (keyword : Token) (scopes : Scopes)
    : scopes.Kept (checkBreak keyword scopes).2 := by
  change scopes.Kept (if scopes.loopDepth = 0 then _ else _)
  split
  · exact .error scopes _ rfl
  · exact .refl scopes

/-- A `return` keeps the scopes, in whatever function it stands. -/
theorem checkReturn_kept (keyword : Token) (scopes : Scopes)
    : scopes.Kept (checkReturn keyword scopes).2 := by
  change scopes.Kept (if scopes.inFunction then _ else _)
  split
  · exact .refl scopes
  · exact .error scopes _ rfl

/-- A superclass clause keeps the scopes of the class, also where a class names itself. -/
theorem enterSubclass_kept (name superclass : Token) (scopes : Scopes)
    : (scopes.enteredClass .subclass).Kept (enterSubclass name superclass scopes).2 := by
  change (scopes.enteredClass .subclass).Kept (if superclass.lexeme = name.lexeme then _ else _)
  split
  · exact .error _ _ rfl
  · exact .refl _

/-- Unused names are nothing but warned about. -/
theorem LocalScope.unusedWarnings_reported (scope : LocalScope) (warnings : List Diagnostic)
    : Reported false warnings (warnings ++ scope.unusedWarnings) := by
  refine ⟨_, rfl, fun warning member => ?_⟩
  obtain ⟨entry, -, rfl⟩ := List.mem_map.1 member
  rfl

-----
-- Contexts

namespace Scopes.Within

variable {outer inner : Scopes}

/-- A scope that was opened stands within the scopes around it. -/
theorem opened (scopes : Scopes) : scopes.Within scopes.opened :=
  ⟨.empty, rfl, rfl, .refl _, .refl _, rfl, rfl, rfl, rfl⟩

/-- There is an innermost scope, around which the others are open. -/
theorem innermost (inside : outer.Within inner)
    : ∃ scope others, inner.locals = scope :: others ∧ others.map (·.names) = outer.views := by
  obtain ⟨view, reaches⟩ := inside
  have views : inner.locals.map (·.names) = view :: outer.views := reaches.views
  obtain ⟨scope, others, split, -, same⟩ := List.map_eq_cons_iff.1 views
  exact ⟨scope, others, split, same⟩

/-- The innermost scope is of no interest to the others. -/
theorem replaced (inside : outer.Within inner) {scope : LocalScope} {others : List LocalScope}
    (split : inner.locals = scope :: others) (changed : LocalScope)
    : outer.Within { inner with locals := changed :: others } := by
  obtain ⟨scope', others', split', same⟩ := inside.innermost
  obtain ⟨rfl, rfl⟩ := List.cons.inj (split.symm.trans split')
  obtain ⟨view, reaches⟩ := inside
  refine ⟨changed.names, ?_⟩
  exact { reaches with views := by simp [views, same] }

/-- A declaration stays within the scopes around the current one. -/
theorem declared (inside : outer.Within inner) (name : Token) (tracked : Bool)
    : outer.Within (inner.declared name tracked) := by
  obtain ⟨scope, others, split, -⟩ := inside.innermost
  have replaced := inside.replaced split (scope.declared name tracked)
  simpa [Scopes.declared, split] using replaced

/-- A definition stays within the scopes around the current one. -/
theorem defined (inside : outer.Within inner) (name : String)
    : outer.Within (inner.defined name) := by
  obtain ⟨scope, others, split, -⟩ := inside.innermost
  have replaced := inside.replaced split (scope.defined name)
  simpa [Scopes.defined, split] using replaced

/-- Behind a scope the others are as before. -/
theorem closed (inside : outer.Within inner) : outer.Kept inner.closed := by
  obtain ⟨scope, others, split, same⟩ := inside.innermost
  obtain ⟨view, reaches⟩ := inside
  have kept : outer.Kept { inner with locals := others } :=
    { reaches with views := same }
  have warnings
      : Reported false outer.warnings (inner.warnings ++ scope.unusedWarnings) :=
    kept.warnings.trans (scope.unusedWarnings_reported inner.warnings)
  have closed
      : outer.Kept
          { inner with locals := others, warnings := inner.warnings ++ scope.unusedWarnings } :=
    { kept with warnings }
  simpa [Scopes.closed, split] using closed

end Scopes.Within

/-- Behind a name that is complete as soon as it is declared. -/
def Scopes.introduced (scopes : Scopes) : Option Token → Scopes
  | none => scopes
  | some name => (scopes.declared name true).defined name.lexeme

/-- What a statement introduces stays within the scopes around the current one. -/
theorem Scopes.Within.introduced {outer inner : Scopes} (inside : outer.Within inner)
    (name : Option Token)
    : outer.Within (inner.introduced name) := by
  cases name with
  | none => exact inside
  | some name => exact (inside.declared name true).defined name.lexeme

/-- What a function keeps is kept when it is left, and its context is the one around it. -/
theorem Scopes.Kept.leftFunction {before after : Scopes} (kept : before.enteredFunction.Kept after)
    : before.Kept (after.leftFunction before) :=
  ⟨kept.views, kept.globals, kept.errors, kept.warnings, rfl, kept.classContext, rfl, rfl⟩

/-- What the body of a loop keeps is kept when it is left, with one loop less. -/
theorem Scopes.Kept.leftLoop {before after : Scopes} (kept : before.enteredLoop.Kept after)
    : before.Kept { after with loopDepth := after.loopDepth - 1 } :=
  ⟨kept.views, kept.globals, kept.errors, kept.warnings, kept.inFunction, kept.classContext,
    by simp [kept.loopDepth, enteredLoop], kept.functionBase⟩

/-- Closing a scope reports warnings and no errors. -/
theorem Scopes.closed_errors (scopes : Scopes) : scopes.closed.errors = scopes.errors := by
  unfold closed
  split <;> rfl

/-- Declaring a name changes what is known of names, and nothing else. -/
theorem Scopes.declared_eq (scopes : Scopes) (name : Token) (tracked : Bool)
    : ∃ locals globals,
        scopes.declared name tracked = { scopes with locals := locals, globals := globals } := by
  unfold declared
  split
  · exact ⟨scopes.locals, _, rfl⟩
  · exact ⟨_, scopes.globals, rfl⟩

/-- A definition changes the names of the current scope and nothing else. -/
theorem Scopes.defined_eq (scopes : Scopes) (name : String)
    : ∃ locals globals,
        scopes.defined name = { scopes with locals := locals, globals := globals } := by
  unfold defined
  split
  · exact ⟨scopes.locals, _, rfl⟩
  · exact ⟨_, scopes.globals, rfl⟩

/-- What a statement introduces changes the names of the current scope and nothing else. -/
theorem Scopes.introduced_eq (scopes : Scopes) (name : Option Token)
    : ∃ locals globals,
        scopes.introduced name = { scopes with locals := locals, globals := globals } := by
  cases name with
  | none => exact ⟨scopes.locals, scopes.globals, rfl⟩
  | some name =>
      obtain ⟨locals, globals, declared⟩ := scopes.declared_eq name true
      obtain ⟨locals', globals', defined⟩ := (scopes.declared name true).defined_eq name.lexeme
      exact ⟨locals', globals', by rw [introduced, defined, declared]⟩

/-- The class that a place stands in has nothing to do with the names there. -/
theorem Scopes.introduced_enteredClass (scopes : Scopes) (context : ClassContext)
    (name : Option Token)
    : (scopes.enteredClass context).introduced name
        = (scopes.introduced name).enteredClass context := by
  cases name with
  | none => rfl
  | some name =>
      cases split : scopes.locals <;>
        simp [introduced, enteredClass, declared, defined, split]

/-- What a statement introduces leaves the class around it alone. -/
theorem Scopes.introduced_classContext (scopes : Scopes) (name : Option Token)
    : (scopes.introduced name).classContext = scopes.classContext := by
  obtain ⟨locals, globals, introduced⟩ := scopes.introduced_eq name
  rw [introduced]

/-- What a class keeps is kept when it is left, and its context is the one around it. -/
theorem Scopes.Kept.leftClass {before after : Scopes} {context : ClassContext}
    (kept : (before.enteredClass context).Kept after)
    : before.Kept (after.enteredClass before.classContext) :=
  ⟨kept.views, kept.globals, kept.errors, kept.warnings, kept.inFunction, rfl, kept.loopDepth,
    kept.functionBase⟩

/-- Parameters are introduced in the scope of their function. -/
theorem declareParameters_within {outer inner : Scopes} (inside : outer.Within inner)
    (parameters : List Token)
    : outer.Within (parameters.forM declareParameter inner).2 := by
  induction parameters generalizing inner with
  | nil => exact inside
  | cons name rest ih => exact ih ((inside.declared name false).defined name.lexeme)

-----
-- Whole trees

mutual
/-- An expression introduces nothing. -/
theorem bindExpr_kept
    : ∀ (expr : Expr Unit) (scopes : Scopes), expr.Proper → scopes.Kept (bindExpr expr scopes).2
  | .literal _, scopes, _ => .refl scopes
  | .grouping inner, scopes, proper => bindExpr_kept inner scopes proper
  | .unary _ operand, scopes, proper => bindExpr_kept operand scopes proper
  | .binary left _ right, scopes, ⟨properLeft, properRight⟩ =>
      (bindExpr_kept left scopes properLeft).trans (bindExpr_kept right _ properRight)
  | .logical left _ right, scopes, ⟨properLeft, properRight⟩ =>
      (bindExpr_kept left scopes properLeft).trans (bindExpr_kept right _ properRight)
  | .conditional condition thenCase elseCase, scopes, ⟨tested, first, second⟩ =>
      ((bindExpr_kept condition scopes tested).trans (bindExpr_kept thenCase _ first)).trans
        (bindExpr_kept elseCase _ second)
  | .variable target, scopes, _ => bindRead_kept target.name scopes
  | .assign target value, scopes, ⟨_, proper⟩ =>
      (bindExpr_kept value scopes proper).trans (bindNearest_kept target.name _)
  | .call callee _ arguments, scopes, ⟨properCallee, properArguments⟩ =>
      (bindExpr_kept callee scopes properCallee).trans
        (bindExprs_kept arguments _ properArguments)
  | .get object _, scopes, proper => bindExpr_kept object scopes proper
  | .set object _ value, scopes, ⟨properObject, properValue⟩ =>
      (bindExpr_kept value scopes properValue).trans (bindExpr_kept object _ properObject)
  | .this keyword, scopes, _ => bindThis_kept keyword.name scopes
  | .super keyword _, scopes, _ => bindSuper_kept keyword.name scopes
  | .function function, scopes, proper => bindFunction_kept function scopes proper

/-- Expressions in a row keep the scopes, by induction on them. -/
theorem bindExprs_kept
    : ∀ (exprs : List (Expr Unit)) (scopes : Scopes),
        ProperExprs exprs → scopes.Kept (bindExprs exprs scopes).2
  | [], scopes, _ => .refl scopes
  | first :: rest, scopes, ⟨properFirst, properRest⟩ =>
      (bindExpr_kept first scopes properFirst).trans (bindExprs_kept rest _ properRest)

/-- An expression that may be missing keeps the scopes. -/
theorem bindOptional_kept
    : ∀ (value : Option (Expr Unit)) (scopes : Scopes),
        ProperOptional value → scopes.Kept (bindOptional value scopes).2
  | none, scopes, _ => .refl scopes
  | some value, scopes, proper => bindExpr_kept value scopes proper

/-- A statement introduces the name it declares, if any, and nothing else. -/
theorem bindStmt_introduces
    : ∀ (stmt : Stmt Unit) (scopes : Scopes),
        stmt.Proper → (scopes.introduced stmt.introduces?).Kept (bindStmt stmt scopes).2
  | .expression value, scopes, proper => bindExpr_kept value scopes proper
  | .print value, scopes, proper => bindExpr_kept value scopes proper
  | .printLine value, scopes, proper => bindOptional_kept value scopes proper
  | .variable name initial, scopes, ⟨_, proper⟩ =>
      (bindOptional_kept initial (scopes.declared name true) proper).defined name.lexeme
  | .block statements, scopes, proper =>
      (bindStmts_within statements (.opened scopes) proper).closed
  | .branch condition thenBranch elseBranch, scopes, ⟨tested, ⟨first, nothing⟩, second⟩ => by
      have thenKept := bindStmt_introduces thenBranch (bindExpr condition scopes).2 first
      rw [nothing] at thenKept
      exact ((bindExpr_kept condition scopes tested).trans thenKept).trans
        (bindElse_kept elseBranch _ second)
  | .loop condition body, scopes, ⟨tested, proper, nothing⟩ => by
      have bodyKept := bindStmt_introduces body (bindExpr condition scopes).2.enteredLoop proper
      rw [nothing] at bodyKept
      exact (bindExpr_kept condition scopes tested).trans bodyKept.leftLoop
  | .breakLoop keyword, scopes, _ => checkBreak_kept keyword scopes
  | .returnValue keyword value, scopes, proper =>
      (checkReturn_kept keyword scopes).trans (bindOptional_kept value _ proper)
  | .function name function, scopes, ⟨_, proper⟩ =>
      bindFunction_kept function (scopes.introduced (some name)) proper
  | .class name none methods, scopes, ⟨_, _, proper⟩ => by
      have introduced := scopes.introduced_enteredClass .plain (some name)
      have inside
          : ((scopes.introduced (some name)).enteredClass .plain).Within
              (((scopes.enteredClass .plain).introduced (some name)).opened.defined "this") := by
        rw [introduced]
        exact (Scopes.Within.opened _).defined "this"
      have kept := (bindMethods_within methods inside proper).closed.leftClass
      rw [scopes.introduced_classContext] at kept
      exact kept
  | .class name (some superclass) methods, scopes, ⟨_, _, proper⟩ => by
      have introduced := scopes.introduced_enteredClass .plain (some name)
      let header := (scopes.enteredClass .plain).introduced (some name)
      let clause := (bindSuperclass name superclass header).2
      have clauseKept : ((scopes.introduced (some name)).enteredClass .subclass).Kept clause := by
        have kept := (enterSubclass_kept name superclass.name header).trans
          (bindRead_kept superclass.name _)
        change (((scopes.enteredClass .plain).introduced (some name)).enteredClass .subclass).Kept
          clause at kept
        rw [introduced] at kept
        exact kept
      have around := (Scopes.Within.opened clause).defined "super"
      have inside := (Scopes.Within.opened (clause.opened.defined "super")).defined "this"
      have methodsKept := (bindMethods_within methods inside proper).closed
      have kept := (clauseKept.trans (methodsKept.within around).closed).leftClass
      rw [scopes.introduced_classContext] at kept
      exact kept

/-- Statements in a row stay within the scopes around them, by induction on them. -/
theorem bindStmts_within
    : ∀ (stmts : List (Stmt Unit)) {outer inner : Scopes},
        outer.Within inner → ProperStmts stmts → outer.Within (bindStmts stmts inner).2
  | [], _, _, inside, _ => inside
  | first :: rest, _, inner, inside, ⟨properFirst, properRest⟩ =>
      bindStmts_within rest
        ((bindStmt_introduces first inner properFirst).within (inside.introduced _)) properRest

/-- A branch that may be missing keeps the scopes. -/
theorem bindElse_kept
    : ∀ (branch : Option (Stmt Unit)) (scopes : Scopes),
        ProperElse branch → scopes.Kept (bindElse branch scopes).2
  | none, scopes, _ => .refl scopes
  | some branch, scopes, ⟨proper, nothing⟩ => by
      have kept := bindStmt_introduces branch scopes proper
      rw [nothing] at kept
      exact kept

/-- A function keeps its parameters and its body to itself. -/
theorem bindFunction_kept
    : ∀ (function : Lambda Unit) (scopes : Scopes),
        function.Proper → scopes.Kept (bindFunction function scopes).2
  | .mk parameters body, scopes, ⟨_, proper⟩ =>
      (bindStmts_within body
        (declareParameters_within (.opened scopes.enteredFunction) parameters)
        proper).closed.leftFunction

/-- Methods in a row stay within the scopes around them, by induction on them. -/
theorem bindMethods_within
    : ∀ (methods : List (Method Unit)) {outer inner : Scopes},
        outer.Within inner → ProperMethods methods → outer.Within (bindMethods methods inner).2
  | [], _, _, inside, _ => inside
  | .mk _ function :: rest, _, inner, inside, ⟨properFirst, properRest⟩ =>
      bindMethods_within rest ((bindFunction_kept function inner properFirst).within inside)
        properRest
end

/-- Binding reports errors one behind the other. -/
theorem bindStmt_errors {stmt : Stmt Unit} (proper : stmt.Proper) (scopes : Scopes)
    : Reported true scopes.errors (bindStmt stmt scopes).2.errors := by
  have kept := bindStmt_introduces stmt scopes proper
  obtain ⟨locals, globals, introduced⟩ := scopes.introduced_eq stmt.introduces?
  rw [introduced] at kept
  exact kept.errors

/-- A statement leaves the function and the loops around it as they are. -/
theorem bindStmt_context {stmt : Stmt Unit} (proper : stmt.Proper) (scopes : Scopes)
    : (bindStmt stmt scopes).2.inFunction = scopes.inFunction
      ∧ (bindStmt stmt scopes).2.loopDepth = scopes.loopDepth := by
  have kept := bindStmt_introduces stmt scopes proper
  obtain ⟨locals, globals, introduced⟩ := scopes.introduced_eq stmt.introduces?
  rw [introduced] at kept
  exact ⟨kept.inFunction, kept.loopDepth⟩

/-- Statements only add errors to those reported before. -/
theorem bindStmts_errors {stmts : List (Stmt Unit)} (proper : ProperStmts stmts)
    (scopes : Scopes)
    : Reported true scopes.errors (bindStmts stmts scopes).2.errors := by
  induction stmts generalizing scopes with
  | nil => exact .refl _
  | cons first rest ih => exact (bindStmt_errors proper.1 scopes).trans (ih proper.2 _)

/-- Statements only add warnings to those reported before. -/
theorem bindStmts_warnings {stmts : List (Stmt Unit)} (proper : ProperStmts stmts)
    (scopes : Scopes)
    : Reported false scopes.warnings (bindStmts stmts scopes).2.warnings := by
  induction stmts generalizing scopes with
  | nil => exact .refl _
  | cons first rest ih =>
      have kept := bindStmt_introduces first scopes proper.1
      obtain ⟨locals, globals, introduced⟩ := scopes.introduced_eq first.introduces?
      rw [introduced] at kept
      exact kept.warnings.trans (ih proper.2 _)

/-- Methods only add errors to those reported before. -/
theorem bindMethods_errors {methods : List (Method Unit)} (proper : ProperMethods methods)
    (scopes : Scopes)
    : Reported true scopes.errors (bindMethods methods scopes).2.errors := by
  induction methods generalizing scopes with
  | nil => exact .refl _
  | cons first rest ih =>
      obtain ⟨name, function⟩ := first
      exact (bindFunction_kept function scopes proper.1).errors.trans (ih proper.2 _)

end Lox.Binding
