import Lox.Proofs.Binding.Balance
import Lox.Proofs.Joining.Trees

/-! Which `break` statements of a tree are reported when its names are bound.

A `break` is reported if no loop of its function surrounds it. The tree tells which ones these are:
the walk through it counts loops in the state, and whoever reads the tree sees them.
-/

namespace Lox

variable {ρ : Type}

-----
-- Breaks of a tree

/-- A `break`, and whether it stands in a loop of its function. -/
structure Break where
  keyword : Token
  inLoop : Bool

/-- What is reported of a `break` outside of all loops. -/
def Break.report? (place : Break) : Option Diagnostic :=
  if place.inLoop then none else some (Diagnostic.atToken place.keyword .breakOutsideLoop)

mutual
/-- In the order in which binding meets them. Only the functions of an expression hold any. -/
def Expr.breaks : Expr ρ → List Break
  | .literal _ | .variable _ | .this _ | .super _ _ => []
  | .grouping inner => inner.breaks
  | .unary _ operand => operand.breaks
  | .binary left _ right => left.breaks ++ right.breaks
  | .logical left _ right => left.breaks ++ right.breaks
  | .conditional condition thenCase elseCase =>
      condition.breaks ++ (thenCase.breaks ++ elseCase.breaks)
  | .assign _ value => value.breaks
  | .call callee _ arguments => callee.breaks ++ exprsBreaks arguments
  | .get object _ => object.breaks
  | .set object _ value => value.breaks ++ object.breaks
  | .function function => function.breaks

def exprsBreaks : List (Expr ρ) → List Break
  | [] => []
  | first :: rest => first.breaks ++ exprsBreaks rest

def optionalBreaks : Option (Expr ρ) → List Break
  | none => []
  | some value => value.breaks

def Stmt.breaks (inLoop : Bool) : Stmt ρ → List Break
  | .expression value => value.breaks
  | .print value => value.breaks
  | .printLine value => optionalBreaks value
  | .variable _ initial => optionalBreaks initial
  | .block statements => stmtsBreaks inLoop statements
  | .branch condition thenBranch elseBranch =>
      condition.breaks ++ (thenBranch.breaks inLoop ++ elseBreaks inLoop elseBranch)
  | .loop condition body => condition.breaks ++ body.breaks true
  | .breakLoop keyword => [{ keyword, inLoop }]
  | .returnValue _ value => optionalBreaks value
  | .function _ function => function.breaks
  | .class _ _ methods => methodsBreaks methods

def stmtsBreaks (inLoop : Bool) : List (Stmt ρ) → List Break
  | [] => []
  | first :: rest => first.breaks inLoop ++ stmtsBreaks inLoop rest

def elseBreaks (inLoop : Bool) : Option (Stmt ρ) → List Break
  | none => []
  | some branch => branch.breaks inLoop

/-- A function starts outside of every loop. -/
def Lambda.breaks : Lambda ρ → List Break
  | .mk _ body => stmtsBreaks false body

def methodsBreaks : List (Method ρ) → List Break
  | [] => []
  | .mk _ function :: rest => function.breaks ++ methodsBreaks rest
end

-----
-- Other lines

def Break.moved (move : Nat → Nat) (place : Break) : Break :=
  { place with keyword := place.keyword.moved move }

/-- A `break` on another line is reported on that line, or is not reported on any. -/
theorem Break.report?_moved (move : Nat → Nat) (place : Break)
    : (place.moved move).report? = place.report?.map (·.moved move) := by
  unfold report? moved
  simp only
  split <;> rfl

section

variable (move : Nat → Nat)

mutual
/-- The breaks of an expression on other lines are its breaks moved there, by cases on the
expression. -/
theorem Expr.breaks_moved
    : ∀ expr : Expr ρ, (expr.moved move).breaks = expr.breaks.map (·.moved move)
  | .literal _ | .variable _ | .this _ | .super _ _ => by simp [Expr.moved, Expr.breaks]
  | .grouping inner => by simp [Expr.moved, Expr.breaks, inner.breaks_moved]
  | .unary _ operand => by simp [Expr.moved, Expr.breaks, operand.breaks_moved]
  | .binary left _ right | .logical left _ right => by
      simp [Expr.moved, Expr.breaks, left.breaks_moved, right.breaks_moved]
  | .conditional condition thenCase elseCase => by
      simp [Expr.moved, Expr.breaks, condition.breaks_moved, thenCase.breaks_moved,
        elseCase.breaks_moved]
  | .assign _ value => by simp [Expr.moved, Expr.breaks, value.breaks_moved]
  | .call callee _ arguments => by
      simp [Expr.moved, Expr.breaks, callee.breaks_moved, exprsBreaks_moved arguments]
  | .get object _ => by simp [Expr.moved, Expr.breaks, object.breaks_moved]
  | .set object _ value => by
      simp [Expr.moved, Expr.breaks, object.breaks_moved, value.breaks_moved]
  | .function function => by simp [Expr.moved, Expr.breaks, function.breaks_moved]

/-- The breaks of expressions on other lines are their breaks moved there. -/
theorem exprsBreaks_moved
    : ∀ exprs : List (Expr ρ),
        exprsBreaks (movedExprs move exprs) = (exprsBreaks exprs).map (·.moved move)
  | [] => rfl
  | first :: rest => by
      simp [movedExprs, exprsBreaks, first.breaks_moved, exprsBreaks_moved rest]

/-- The breaks of an expression that may be left out are moved with it. -/
theorem optionalBreaks_moved
    : ∀ value : Option (Expr ρ),
        optionalBreaks (movedOptional move value) = (optionalBreaks value).map (·.moved move)
  | none => rfl
  | some value => by simp [movedOptional, optionalBreaks, value.breaks_moved]

/-- The breaks of a statement on other lines are its breaks moved there, by cases on the statement.
-/
theorem Stmt.breaks_moved (inLoop : Bool)
    : ∀ stmt : Stmt ρ, (stmt.moved move).breaks inLoop = (stmt.breaks inLoop).map (·.moved move)
  | .expression value | .print value => by simp [Stmt.moved, Stmt.breaks, value.breaks_moved]
  | .printLine value | .variable _ value | .returnValue _ value => by
      simp [Stmt.moved, Stmt.breaks, optionalBreaks_moved value]
  | .block statements => by simp [Stmt.moved, Stmt.breaks, stmtsBreaks_moved inLoop statements]
  | .branch condition thenBranch elseBranch => by
      simp [Stmt.moved, Stmt.breaks, condition.breaks_moved, thenBranch.breaks_moved inLoop,
        elseBreaks_moved inLoop elseBranch]
  | .loop condition body => by
      simp [Stmt.moved, Stmt.breaks, condition.breaks_moved, body.breaks_moved true]
  | .breakLoop _ => rfl
  | .function _ function => by simp [Stmt.moved, Stmt.breaks, function.breaks_moved]
  | .class _ _ methods => by simp [Stmt.moved, Stmt.breaks, methodsBreaks_moved methods]

/-- The breaks of statements on other lines are their breaks moved there. -/
theorem stmtsBreaks_moved (inLoop : Bool)
    : ∀ stmts : List (Stmt ρ),
        stmtsBreaks inLoop (movedStmts move stmts)
          = (stmtsBreaks inLoop stmts).map (·.moved move)
  | [] => rfl
  | first :: rest => by
      simp [movedStmts, stmtsBreaks, first.breaks_moved inLoop, stmtsBreaks_moved inLoop rest]

/-- The breaks of a branch that may be left out are moved with it. -/
theorem elseBreaks_moved (inLoop : Bool)
    : ∀ branch : Option (Stmt ρ),
        elseBreaks inLoop (movedElse move branch) = (elseBreaks inLoop branch).map (·.moved move)
  | none => rfl
  | some branch => by simp [movedElse, elseBreaks, branch.breaks_moved inLoop]

/-- The breaks of a function on other lines are its breaks moved there. -/
theorem Lambda.breaks_moved
    : ∀ function : Lambda ρ, (function.moved move).breaks = function.breaks.map (·.moved move)
  | .mk _ body => by simp [Lambda.moved, Lambda.breaks, stmtsBreaks_moved false body]

/-- The breaks of methods on other lines are their breaks moved there. -/
theorem methodsBreaks_moved
    : ∀ methods : List (Method ρ),
        methodsBreaks (movedMethods move methods) = (methodsBreaks methods).map (·.moved move)
  | [] => rfl
  | .mk _ function :: rest => by
      simp [movedMethods, methodsBreaks, function.breaks_moved, methodsBreaks_moved rest]
end

end

end Lox

namespace Lox.Binding

-----
-- What is reported

/-- The reports of a misplaced `break` among all others. -/
def breakReports (errors : List Diagnostic) : List Diagnostic :=
  errors.filter (·.problem = .breakOutsideLoop)

/-- Of two lists of mistakes the reports of breaks are those of the first and those of the second.
-/
@[simp]
theorem breakReports_append (errors others : List Diagnostic)
    : breakReports (errors ++ others) = breakReports errors ++ breakReports others :=
  List.filter_append ..

/-- The same loops surround the place, and no `break` was reported. -/
structure Scopes.Quiet (before after : Scopes) : Prop where
  loopDepth : after.loopDepth = before.loopDepth
  reports : breakReports after.errors = breakReports before.errors

namespace Scopes.Quiet

/-- The state of the binder is quiet if nothing happens. -/
theorem refl (scopes : Scopes) : scopes.Quiet scopes :=
  ⟨rfl, rfl⟩

/-- A mistake of another kind reports no `break`. -/
theorem error (scopes : Scopes) (token : Token) {problem : Problem}
    (other : problem ≠ .breakOutsideLoop)
    : scopes.Quiet (scopes.error token problem) := by
  have none : breakReports [Diagnostic.atToken token problem] = [] := by
    simp [breakReports, Diagnostic.atToken, other]
  refine ⟨rfl, ?_⟩
  unfold Scopes.error
  rw [breakReports_append, none, List.append_nil]

/-- Declaring a name reports no `break`. -/
theorem declared (scopes : Scopes) (name : Token) (tracked : Bool)
    : scopes.Quiet (scopes.declared name tracked) := by
  obtain ⟨locals, globals, declared⟩ := scopes.declared_eq name tracked
  rw [declared]
  exact ⟨rfl, rfl⟩

/-- Defining a name reports no `break`. -/
theorem defined (scopes : Scopes) (name : String) : scopes.Quiet (scopes.defined name) := by
  obtain ⟨locals, globals, defined⟩ := scopes.defined_eq name
  rw [defined]
  exact ⟨rfl, rfl⟩

/-- Two quiet changes in a row are quiet. -/
theorem trans {before between after : Scopes} (front : before.Quiet between)
    (back : between.Quiet after)
    : before.Quiet after :=
  ⟨back.loopDepth.trans front.loopDepth, back.reports.trans front.reports⟩

/-- Closing a scope reports no `break`. -/
theorem closed (scopes : Scopes) : scopes.Quiet scopes.closed := by
  unfold Scopes.closed
  split <;> exact ⟨rfl, rfl⟩

end Scopes.Quiet

/-- The action reports what is misplaced of these, given the loops around its place. -/
def ReportsBreaks {α : Type} (action : Binder α) (breaks : Bool → List Break) : Prop :=
  ∀ scopes : Scopes,
    (action scopes).2.loopDepth = scopes.loopDepth
    ∧ breakReports (action scopes).2.errors
      = breakReports scopes.errors ++ (breaks (0 < scopes.loopDepth)).filterMap (·.report?)

namespace ReportsBreaks

variable {α β : Type} {action : Binder α} {breaks : Bool → List Break}

/-- An action that does nothing reports no `break`. -/
theorem pure (value : α) : ReportsBreaks (Pure.pure value) fun _ => [] :=
  fun _ => ⟨rfl, (List.append_nil _).symm⟩

/-- Two actions report the breaks of the first and then those of the second. -/
theorem bind {next : α → Binder β} {others : Bool → List Break}
    (front : ReportsBreaks action breaks)
    (back : ∀ value, ReportsBreaks (next value) others)
    : ReportsBreaks (action >>= next) fun inLoop => breaks inLoop ++ others inLoop := by
  intro scopes
  obtain ⟨depth, reports⟩ := front scopes
  obtain ⟨depth', reports'⟩ := back (action scopes).1 (action scopes).2
  refine ⟨depth'.trans depth, reports'.trans ?_⟩
  rw [reports, depth, List.filterMap_append, List.append_assoc]

/-- The last step of an action hardly ever meets a `break`. -/
theorem last {next : α → Binder β} (front : ReportsBreaks action breaks)
    (back : ∀ value, ReportsBreaks (next value) fun _ => [])
    : ReportsBreaks (action >>= next) breaks := by
  have both := front.bind back
  simpa only [List.append_nil] using both

/-- An action that reports none may come first. -/
theorem first {next : α → Binder β} (front : ReportsBreaks action fun _ => [])
    (back : ∀ value, ReportsBreaks (next value) breaks)
    : ReportsBreaks (action >>= next) breaks := by
  have both := front.bind back
  simpa only [List.nil_append] using both

/-- An action that keeps quiet reports no `break`. -/
theorem quiet (kept : ∀ scopes : Scopes, scopes.Quiet (action scopes).2)
    : ReportsBreaks action fun _ => [] :=
  fun scopes => ⟨(kept scopes).loopDepth, (kept scopes).reports.trans (List.append_nil _).symm⟩

/-- What is done before and after an action in the same loops does not matter. -/
theorem around {outer : Binder α} (inside : ReportsBreaks action breaks)
    (prepare : Scopes → Scopes) (conclude : Scopes → Scopes → Scopes)
    (prepared : ∀ scopes : Scopes, scopes.Quiet (prepare scopes))
    (concluded : ∀ before scopes : Scopes, scopes.Quiet (conclude before scopes))
    (runs : ∀ scopes, (outer scopes).2 = conclude scopes (action (prepare scopes)).2)
    : ReportsBreaks outer breaks := by
  intro scopes
  obtain ⟨depth, reports⟩ := inside (prepare scopes)
  have before := prepared scopes
  have after := concluded scopes (action (prepare scopes)).2
  rw [runs, after.loopDepth, after.reports, depth, reports, before.loopDepth, before.reports]
  exact ⟨rfl, rfl⟩

end ReportsBreaks

-----
-- Names

/-- Declaring a name keeps quiet about breaks. -/
theorem declare_reportsBreaks (name : Token) : ReportsBreaks (declare name) fun _ => [] :=
  .quiet fun scopes => .declared scopes name true

/-- Defining a name keeps quiet about breaks. -/
theorem define_reportsBreaks (name : Token) : ReportsBreaks (define name) fun _ => [] :=
  .quiet fun scopes => .defined scopes name.lexeme

/-- Defining `this` or `super` keeps quiet about breaks. -/
theorem defineImplicit_reportsBreaks (name : String)
    : ReportsBreaks (defineImplicit name) fun _ => [] :=
  .quiet fun scopes => .defined scopes name

/-- Declaring parameters keeps quiet about breaks, by induction on the parameters. -/
theorem declareParameters_reportsBreaks (parameters : List Token)
    : ReportsBreaks (parameters.forM declareParameter) fun _ => [] := by
  induction parameters with
  | nil => exact .pure ()
  | cons name rest ih =>
      have here : ReportsBreaks (declareParameter name) fun _ => [] :=
        .quiet fun scopes => (Scopes.Quiet.declared scopes name false).trans (.defined _ name.lexeme)
      exact here.first fun _ => ih

/-- Looking for the nearest declaration keeps quiet about breaks. -/
theorem bindNearest_quiet (name : Token) (scopes : Scopes)
    : scopes.Quiet (bindNearest name scopes).2 := by
  unfold bindNearest
  split
  · exact .refl scopes
  · exact ⟨rfl, rfl⟩

/-- Binding a read keeps quiet about breaks. -/
theorem bindRead_quiet (name : Token) (scopes : Scopes)
    : scopes.Quiet (bindRead name scopes).2 := by
  unfold bindRead
  simp only
  split
  · exact ⟨rfl, rfl⟩
  · split
    · exact .error scopes name nofun
    · exact .refl scopes

/-- Binding `this` keeps quiet about breaks. -/
theorem bindThis_quiet (keyword : Token) (scopes : Scopes)
    : scopes.Quiet (bindThis keyword scopes).2 := by
  unfold bindThis
  split
  · exact .error scopes keyword nofun
  · exact bindNearest_quiet keyword scopes
  · exact bindNearest_quiet keyword scopes

/-- Binding `super` keeps quiet about breaks. -/
theorem bindSuper_quiet (keyword : Token) (scopes : Scopes)
    : scopes.Quiet (bindSuper keyword scopes).2 := by
  unfold bindSuper
  split
  · exact .error scopes keyword nofun
  · exact .error scopes keyword nofun
  · exact bindNearest_quiet keyword scopes

/-- A misplaced `return` is no report of a `break`. -/
theorem checkReturn_quiet (keyword : Token) (scopes : Scopes)
    : scopes.Quiet (checkReturn keyword scopes).2 := by
  change scopes.Quiet (if scopes.inFunction then _ else _)
  split
  · exact .refl scopes
  · exact .error scopes keyword nofun

/-- A superclass clause keeps quiet about breaks. -/
theorem bindSuperclass_quiet (name : Token) (superclass : Reference Unit) (scopes : Scopes)
    : scopes.Quiet (bindSuperclass name superclass scopes).2 := by
  have entered : scopes.Quiet (enterSubclass name superclass.name scopes).2 := by
    change scopes.Quiet (if superclass.name.lexeme = name.lexeme then _ else _)
    split
    · exact ⟨rfl, (Scopes.Quiet.error scopes superclass.name (by decide)).reports⟩
    · exact ⟨rfl, rfl⟩
  exact entered.trans (bindRead_quiet superclass.name _)

/-- A `break` is reported where no loop surrounds it. -/
theorem checkBreak_reportsBreaks (keyword : Token)
    : ReportsBreaks (checkBreak keyword) fun inLoop => [{ keyword, inLoop }] := by
  intro scopes
  change (if scopes.loopDepth = 0 then _ else _ : Scopes).loopDepth = _
    ∧ breakReports (if scopes.loopDepth = 0 then _ else _ : Scopes).errors = _
  by_cases outside : scopes.loopDepth = 0
  · simp [outside, Scopes.error, Break.report?, breakReports, Diagnostic.atToken]
  · simp [outside, Break.report?, Nat.pos_of_ne_zero outside]

-----
-- Contexts

section

variable {α : Type} {action : Binder α} {breaks : Bool → List Break}

/-- A scope around an action reports no other breaks. -/
theorem inScope_reportsBreaks (inside : ReportsBreaks action breaks)
    : ReportsBreaks (inScope action) breaks :=
  inside.around Scopes.opened (fun _ => Scopes.closed) (fun _ => ⟨rfl, rfl⟩)
    (fun _ => .closed) fun _ => rfl

/-- A class around an action reports no other breaks. -/
theorem inClass_reportsBreaks (inside : ReportsBreaks action breaks)
    : ReportsBreaks (inClass action) breaks :=
  inside.around (Scopes.enteredClass · .plain)
    (fun before => (Scopes.enteredClass · before.classContext)) (fun _ => ⟨rfl, rfl⟩)
    (fun _ _ => ⟨rfl, rfl⟩) fun _ => rfl

/-- In a loop the breaks are reported that are misplaced even there. -/
theorem inLoop_reportsBreaks (inside : ReportsBreaks action breaks)
    : ReportsBreaks (inLoop action) fun _ => breaks true := by
  intro scopes
  obtain ⟨depth, reports⟩ := inside scopes.enteredLoop
  have looping : (0 < scopes.enteredLoop.loopDepth : Bool) = true := by
    simp [Scopes.enteredLoop]
  rw [looping] at reports
  refine ⟨?_, reports⟩
  change (action scopes.enteredLoop).2.loopDepth - 1 = scopes.loopDepth
  rw [depth]
  rfl

/-- In a function the breaks are reported as outside of loops. -/
theorem inFunction_reportsBreaks (inside : ReportsBreaks action breaks)
    : ReportsBreaks (inFunction action) fun _ => breaks false :=
  fun scopes => ⟨rfl, (inside scopes.enteredFunction).2⟩

end

-----
-- Whole trees

mutual
/-- Binding an expression reports the misplaced breaks in its functions, by cases on the expression.
-/
theorem bindExpr_reportsBreaks
    : ∀ expr : Expr Unit, ReportsBreaks (bindExpr expr) fun _ => expr.breaks
  | .literal _ => .pure _
  | .grouping inner => (bindExpr_reportsBreaks inner).last fun _ => .pure _
  | .unary _ operand => (bindExpr_reportsBreaks operand).last fun _ => .pure _
  | .binary left _ right =>
      (bindExpr_reportsBreaks left).bind fun _ =>
        (bindExpr_reportsBreaks right).last fun _ => .pure _
  | .logical left _ right =>
      (bindExpr_reportsBreaks left).bind fun _ =>
        (bindExpr_reportsBreaks right).last fun _ => .pure _
  | .conditional condition thenCase elseCase =>
      (bindExpr_reportsBreaks condition).bind fun _ =>
        (bindExpr_reportsBreaks thenCase).bind fun _ =>
          (bindExpr_reportsBreaks elseCase).last fun _ => .pure _
  | .variable target => (ReportsBreaks.quiet (bindRead_quiet target.name)).last fun _ => .pure _
  | .assign target value =>
      (bindExpr_reportsBreaks value).last fun _ =>
        (ReportsBreaks.quiet (bindNearest_quiet target.name)).last fun _ => .pure _
  | .call callee _ arguments =>
      (bindExpr_reportsBreaks callee).bind fun _ =>
        (bindExprs_reportsBreaks arguments).last fun _ => .pure _
  | .get object _ => (bindExpr_reportsBreaks object).last fun _ => .pure _
  | .set object _ value =>
      (bindExpr_reportsBreaks value).bind fun _ =>
        (bindExpr_reportsBreaks object).last fun _ => .pure _
  | .this keyword => (ReportsBreaks.quiet (bindThis_quiet keyword.name)).last fun _ => .pure _
  | .super keyword _ =>
      (ReportsBreaks.quiet (bindSuper_quiet keyword.name)).last fun _ => .pure _
  | .function function => (bindFunction_reportsBreaks function).last fun _ => .pure _

/-- Binding expressions reports the misplaced breaks of one behind the other. -/
theorem bindExprs_reportsBreaks
    : ∀ exprs : List (Expr Unit), ReportsBreaks (bindExprs exprs) fun _ => exprsBreaks exprs
  | [] => .pure _
  | first :: rest =>
      (bindExpr_reportsBreaks first).bind fun _ =>
        (bindExprs_reportsBreaks rest).last fun _ => .pure _

/-- Binding an expression that may be left out reports its misplaced breaks. -/
theorem bindOptional_reportsBreaks
    : ∀ value : Option (Expr Unit), ReportsBreaks (bindOptional value) fun _ => optionalBreaks value
  | none => .pure _
  | some value => (bindExpr_reportsBreaks value).last fun _ => .pure _

/-- Binding a statement reports its misplaced breaks, in a loop or not, by cases on the statement.
-/
theorem bindStmt_reportsBreaks
    : ∀ stmt : Stmt Unit, ReportsBreaks (bindStmt stmt) fun inLoop => stmt.breaks inLoop
  | .expression value => (bindExpr_reportsBreaks value).last fun _ => .pure _
  | .print value => (bindExpr_reportsBreaks value).last fun _ => .pure _
  | .printLine value => (bindOptional_reportsBreaks value).last fun _ => .pure _
  | .variable name initial =>
      (declare_reportsBreaks name).first fun _ =>
        (bindOptional_reportsBreaks initial).last fun _ =>
          (define_reportsBreaks name).last fun _ => .pure _
  | .block statements =>
      (inScope_reportsBreaks (bindStmts_reportsBreaks statements)).last fun _ => .pure _
  | .branch condition thenBranch elseBranch =>
      (bindExpr_reportsBreaks condition).bind fun _ =>
        (bindStmt_reportsBreaks thenBranch).bind fun _ =>
          (bindElse_reportsBreaks elseBranch).last fun _ => .pure _
  | .loop condition body =>
      (bindExpr_reportsBreaks condition).bind fun _ =>
        (inLoop_reportsBreaks (bindStmt_reportsBreaks body)).last fun _ => .pure _
  | .breakLoop keyword => (checkBreak_reportsBreaks keyword).last fun _ => .pure _
  | .returnValue keyword value =>
      (ReportsBreaks.quiet (checkReturn_quiet keyword)).first fun _ =>
        (bindOptional_reportsBreaks value).last fun _ => .pure _
  | .function name function =>
      (declare_reportsBreaks name).first fun _ =>
        (define_reportsBreaks name).first fun _ =>
          (bindFunction_reportsBreaks function).last fun _ => .pure _
  | .class name none methods =>
      inClass_reportsBreaks <|
        (declare_reportsBreaks name).first fun _ =>
          (define_reportsBreaks name).first fun _ =>
            (inScope_reportsBreaks ((defineImplicit_reportsBreaks "this").first fun _ =>
              bindMethods_reportsBreaks methods)).last fun _ => .pure _
  | .class name (some superclass) methods =>
      inClass_reportsBreaks <|
        (declare_reportsBreaks name).first fun _ =>
          (define_reportsBreaks name).first fun _ =>
            (ReportsBreaks.quiet (bindSuperclass_quiet name superclass)).first fun _ =>
              (inScope_reportsBreaks ((defineImplicit_reportsBreaks "super").first fun _ =>
                inScope_reportsBreaks ((defineImplicit_reportsBreaks "this").first fun _ =>
                  bindMethods_reportsBreaks methods))).last fun _ => .pure _

/-- Binding statements reports the misplaced breaks of one behind the other. -/
theorem bindStmts_reportsBreaks
    : ∀ stmts : List (Stmt Unit),
        ReportsBreaks (bindStmts stmts) fun inLoop => stmtsBreaks inLoop stmts
  | [] => .pure _
  | first :: rest =>
      (bindStmt_reportsBreaks first).bind fun _ =>
        (bindStmts_reportsBreaks rest).last fun _ => .pure _

/-- Binding a branch that may be left out reports its misplaced breaks. -/
theorem bindElse_reportsBreaks
    : ∀ branch : Option (Stmt Unit),
        ReportsBreaks (bindElse branch) fun inLoop => elseBreaks inLoop branch
  | none => .pure _
  | some branch => (bindStmt_reportsBreaks branch).last fun _ => .pure _

/-- Binding a function reports the misplaced breaks of its body. -/
theorem bindFunction_reportsBreaks
    : ∀ function : Lambda Unit, ReportsBreaks (bindFunction function) fun _ => function.breaks
  | .mk parameters body =>
      inFunction_reportsBreaks <| inScope_reportsBreaks <|
        (declareParameters_reportsBreaks parameters).first fun _ =>
          (bindStmts_reportsBreaks body).last fun _ => .pure _

/-- Binding methods reports the misplaced breaks of one behind the other. -/
theorem bindMethods_reportsBreaks
    : ∀ methods : List (Method Unit),
        ReportsBreaks (bindMethods methods) fun _ => methodsBreaks methods
  | [] => .pure _
  | .mk _ function :: rest =>
      (bindFunction_reportsBreaks function).bind fun _ =>
        (bindMethods_reportsBreaks rest).last fun _ => .pure _
end

/-- Binding a program reports each `break` in it that stands outside of all loops, and no other. -/
theorem bind_breakReports (known : List String) (statements : List (Stmt Unit))
    : breakReports (bind known statements).errors
      = (stmtsBreaks false statements).filterMap (·.report?) :=
  (bindStmts_reportsBreaks statements (.start known)).2

end Lox.Binding
