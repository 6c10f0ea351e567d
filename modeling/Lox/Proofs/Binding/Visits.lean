import Lox.Proofs.Binding.Balance

/-! The statements of a program, and what is known on coming to them.

Binding comes to every statement once, however deep it stands in others, in functions or in methods.
-/

namespace Lox.Binding

-----
-- Statements of a tree

section

variable {ρ : Type}

mutual
/-- All statements in the functions of an expression, in the order in which they are bound. -/
def exprStmts : Expr ρ → List (Stmt ρ)
  | .literal _ | .variable _ | .this _ | .super _ _ => []
  | .grouping inner => exprStmts inner
  | .unary _ operand => exprStmts operand
  | .binary left _ right => exprStmts left ++ exprStmts right
  | .logical left _ right => exprStmts left ++ exprStmts right
  | .conditional condition thenCase elseCase =>
      exprStmts condition ++ (exprStmts thenCase ++ exprStmts elseCase)
  | .assign _ value => exprStmts value
  | .call callee _ arguments => exprStmts callee ++ exprsStmts arguments
  | .get object _ => exprStmts object
  | .set object _ value => exprStmts value ++ exprStmts object
  | .function function => functionStmts function

def exprsStmts : List (Expr ρ) → List (Stmt ρ)
  | [] => []
  | first :: rest => exprStmts first ++ exprsStmts rest

def optionalStmts : Option (Expr ρ) → List (Stmt ρ)
  | none => []
  | some value => exprStmts value

/-- All statements inside of a statement. -/
def innerStmts : Stmt ρ → List (Stmt ρ)
  | .expression value => exprStmts value
  | .print value => exprStmts value
  | .printLine value => optionalStmts value
  | .variable _ initial => optionalStmts initial
  | .block statements => allStmts statements
  | .branch condition thenBranch elseBranch =>
      exprStmts condition ++ ((thenBranch :: innerStmts thenBranch) ++ elseStmts elseBranch)
  | .loop condition body => exprStmts condition ++ (body :: innerStmts body)
  | .breakLoop _ => []
  | .returnValue _ value => optionalStmts value
  | .function _ function => functionStmts function
  | .class _ _ methods => methodsStmts methods

/-- Each of the statements, followed by all that are inside of it. -/
def allStmts : List (Stmt ρ) → List (Stmt ρ)
  | [] => []
  | first :: rest => (first :: innerStmts first) ++ allStmts rest

def elseStmts : Option (Stmt ρ) → List (Stmt ρ)
  | none => []
  | some branch => branch :: innerStmts branch

def functionStmts : Lambda ρ → List (Stmt ρ)
  | .mk _ body => allStmts body

def methodsStmts : List (Method ρ) → List (Stmt ρ)
  | [] => []
  | .mk _ function :: rest => functionStmts function ++ methodsStmts rest
end

end

-----
-- Visits

/-- A statement and the state of the binder on coming to it. -/
structure Visit where
  stmt : Stmt Unit
  scopes : Scopes

/-- What the statement is bound to. -/
def Visit.bound (visit : Visit) : BoundStmt :=
  (bindStmt visit.stmt visit.scopes).1

mutual
/-- The visits in the course of binding an expression. -/
def exprVisits : Expr Unit → Scopes → List Visit
  | .literal _, _ | .variable _, _ | .this _, _ | .super _ _, _ => []
  | .grouping inner, scopes => exprVisits inner scopes
  | .unary _ operand, scopes => exprVisits operand scopes
  | .binary left _ right, scopes =>
      exprVisits left scopes ++ exprVisits right (bindExpr left scopes).2
  | .logical left _ right, scopes =>
      exprVisits left scopes ++ exprVisits right (bindExpr left scopes).2
  | .conditional condition thenCase elseCase, scopes =>
      let tested := (bindExpr condition scopes).2
      exprVisits condition scopes
        ++ (exprVisits thenCase tested ++ exprVisits elseCase (bindExpr thenCase tested).2)
  | .assign _ value, scopes => exprVisits value scopes
  | .call callee _ arguments, scopes =>
      exprVisits callee scopes ++ exprsVisits arguments (bindExpr callee scopes).2
  | .get object _, scopes => exprVisits object scopes
  | .set object _ value, scopes =>
      exprVisits value scopes ++ exprVisits object (bindExpr value scopes).2
  | .function function, scopes => functionVisits function scopes

def exprsVisits : List (Expr Unit) → Scopes → List Visit
  | [], _ => []
  | first :: rest, scopes => exprVisits first scopes ++ exprsVisits rest (bindExpr first scopes).2

def optionalVisits : Option (Expr Unit) → Scopes → List Visit
  | none, _ => []
  | some value, scopes => exprVisits value scopes

/-- The visits inside of a statement. -/
def innerVisits : Stmt Unit → Scopes → List Visit
  | .expression value, scopes => exprVisits value scopes
  | .print value, scopes => exprVisits value scopes
  | .printLine value, scopes => optionalVisits value scopes
  | .variable name initial, scopes => optionalVisits initial (scopes.declared name true)
  | .block statements, scopes => allVisits statements scopes.opened
  | .branch condition thenBranch elseBranch, scopes =>
      let tested := (bindExpr condition scopes).2
      exprVisits condition scopes
        ++ (({ stmt := thenBranch, scopes := tested } :: innerVisits thenBranch tested)
              ++ elseVisits elseBranch (bindStmt thenBranch tested).2)
  | .loop condition body, scopes =>
      let inside := (bindExpr condition scopes).2.enteredLoop
      exprVisits condition scopes
        ++ ({ stmt := body, scopes := inside } :: innerVisits body inside)
  | .breakLoop _, _ => []
  | .returnValue keyword value, scopes => optionalVisits value (checkReturn keyword scopes).2
  | .function name function, scopes => functionVisits function (scopes.introduced (some name))
  | .class name none methods, scopes =>
      let header := (scopes.enteredClass .plain).introduced (some name)
      methodsVisits methods (header.opened.defined "this")
  | .class name (some superclass) methods, scopes =>
      let header := (scopes.enteredClass .plain).introduced (some name)
      let clause := (bindSuperclass name superclass header).2
      methodsVisits methods ((clause.opened.defined "super").opened.defined "this")

/-- The visits of statements that are bound one behind the other. -/
def allVisits : List (Stmt Unit) → Scopes → List Visit
  | [], _ => []
  | first :: rest, scopes =>
      ({ stmt := first, scopes } :: innerVisits first scopes)
        ++ allVisits rest (bindStmt first scopes).2

def elseVisits : Option (Stmt Unit) → Scopes → List Visit
  | none, _ => []
  | some branch, scopes => { stmt := branch, scopes } :: innerVisits branch scopes

def functionVisits : Lambda Unit → Scopes → List Visit
  | .mk parameters body, scopes =>
      allVisits body (parameters.forM declareParameter scopes.enteredFunction.opened).2

def methodsVisits : List (Method Unit) → Scopes → List Visit
  | [], _ => []
  | .mk _ function :: rest, scopes =>
      functionVisits function scopes ++ methodsVisits rest (bindFunction function scopes).2
end

-----
-- Every statement is visited

/-- What is bound one behind the other is made of the visits one behind the other. -/
theorem map_bound_append {stmts stmts' : List BoundStmt} {visits visits' : List Visit}
    (front : visits.map Visit.bound = stmts) (back : visits'.map Visit.bound = stmts')
    : (visits ++ visits').map Visit.bound = stmts ++ stmts' := by
  rw [List.map_append, front, back]

/-- A visit in front of others binds to its statement in front of theirs. -/
theorem map_bound_cons {stmt : Stmt Unit} {scopes : Scopes} {stmts : List BoundStmt}
    {visits : List Visit} (inside : visits.map Visit.bound = stmts)
    : (({ stmt, scopes } : Visit) :: visits).map Visit.bound = (bindStmt stmt scopes).1 :: stmts :=
  congrArg ((bindStmt stmt scopes).1 :: ·) inside

mutual
/-- The visits of an expression bind to all statements in the bound expression, by induction on the
tree. -/
theorem exprVisits_bound
    : ∀ (expr : Expr Unit) (scopes : Scopes),
        (exprVisits expr scopes).map Visit.bound = exprStmts (bindExpr expr scopes).1
  | .literal _, _ | .variable _, _ | .this _, _ | .super _ _, _ => rfl
  | .grouping inner, scopes => exprVisits_bound inner scopes
  | .unary _ operand, scopes => exprVisits_bound operand scopes
  | .binary left _ right, scopes =>
      map_bound_append (exprVisits_bound left scopes) (exprVisits_bound right _)
  | .logical left _ right, scopes =>
      map_bound_append (exprVisits_bound left scopes) (exprVisits_bound right _)
  | .conditional condition thenCase elseCase, scopes =>
      map_bound_append (exprVisits_bound condition scopes)
        (map_bound_append (exprVisits_bound thenCase _) (exprVisits_bound elseCase _))
  | .assign _ value, scopes => exprVisits_bound value scopes
  | .call callee _ arguments, scopes =>
      map_bound_append (exprVisits_bound callee scopes) (exprsVisits_bound arguments _)
  | .get object _, scopes => exprVisits_bound object scopes
  | .set object _ value, scopes =>
      map_bound_append (exprVisits_bound value scopes) (exprVisits_bound object _)
  | .function function, scopes => functionVisits_bound function scopes

/-- The visits of expressions in a row bind to all statements in the bound ones. -/
theorem exprsVisits_bound
    : ∀ (exprs : List (Expr Unit)) (scopes : Scopes),
        (exprsVisits exprs scopes).map Visit.bound = exprsStmts (bindExprs exprs scopes).1
  | [], _ => rfl
  | first :: rest, scopes =>
      map_bound_append (exprVisits_bound first scopes) (exprsVisits_bound rest _)

/-- The visits of an optional expression bind to all statements in the bound one. -/
theorem optionalVisits_bound
    : ∀ (value : Option (Expr Unit)) (scopes : Scopes),
        (optionalVisits value scopes).map Visit.bound = optionalStmts (bindOptional value scopes).1
  | none, _ => rfl
  | some value, scopes => exprVisits_bound value scopes

/-- The visits inside of a statement bind to all statements inside of the bound one, by induction on
the tree. -/
theorem innerVisits_bound
    : ∀ (stmt : Stmt Unit) (scopes : Scopes),
        (innerVisits stmt scopes).map Visit.bound = innerStmts (bindStmt stmt scopes).1
  | .expression value, scopes => exprVisits_bound value scopes
  | .print value, scopes => exprVisits_bound value scopes
  | .printLine value, scopes => optionalVisits_bound value scopes
  | .variable name initial, scopes => optionalVisits_bound initial (scopes.declared name true)
  | .block statements, scopes => allVisits_bound statements scopes.opened
  | .branch condition thenBranch elseBranch, scopes =>
      map_bound_append (exprVisits_bound condition scopes)
        (map_bound_append (map_bound_cons (innerVisits_bound thenBranch _))
          (elseVisits_bound elseBranch _))
  | .loop condition body, scopes =>
      map_bound_append (exprVisits_bound condition scopes)
        (map_bound_cons (innerVisits_bound body _))
  | .breakLoop _, _ => rfl
  | .returnValue keyword value, scopes => optionalVisits_bound value (checkReturn keyword scopes).2
  | .function name function, scopes =>
      functionVisits_bound function (scopes.introduced (some name))
  | .class _ none methods, _ => methodsVisits_bound methods _
  | .class _ (some _) methods, _ => methodsVisits_bound methods _

/-- The statements of a bound program are what the visits have been bound to. -/
theorem allVisits_bound
    : ∀ (stmts : List (Stmt Unit)) (scopes : Scopes),
        (allVisits stmts scopes).map Visit.bound = allStmts (bindStmts stmts scopes).1
  | [], _ => rfl
  | first :: rest, scopes =>
      map_bound_append (map_bound_cons (innerVisits_bound first scopes)) (allVisits_bound rest _)

/-- The visits of a branch that may be missing bind to all statements of the bound one. -/
theorem elseVisits_bound
    : ∀ (branch : Option (Stmt Unit)) (scopes : Scopes),
        (elseVisits branch scopes).map Visit.bound = elseStmts (bindElse branch scopes).1
  | none, _ => rfl
  | some branch, scopes => map_bound_cons (innerVisits_bound branch scopes)

/-- The visits of a function bind to all statements of its bound body. -/
theorem functionVisits_bound
    : ∀ (function : Lambda Unit) (scopes : Scopes),
        (functionVisits function scopes).map Visit.bound
          = functionStmts (bindFunction function scopes).1
  | .mk _ body, _ => allVisits_bound body _

/-- The visits of methods bind to all statements of their bound bodies. -/
theorem methodsVisits_bound
    : ∀ (methods : List (Method Unit)) (scopes : Scopes),
        (methodsVisits methods scopes).map Visit.bound
          = methodsStmts (bindMethods methods scopes).1
  | [], _ => rfl
  | .mk _ function :: rest, scopes =>
      map_bound_append (functionVisits_bound function scopes) (methodsVisits_bound rest _)
end

-----
-- Scopes of functions

/-- The scopes around the innermost function are among those that are open. -/
def Scopes.Based (scopes : Scopes) : Prop :=
  scopes.functionBase ≤ scopes.locals.length

namespace Scopes.Based

variable {scopes before after : Scopes}

/-- At the start no scope is open and reads may reach all of them. -/
theorem start (knownGlobals : List String) : (Scopes.start knownGlobals).Based :=
  Nat.le_refl 0

/-- Scopes as many as before, with the same base, are based as before. -/
theorem congr (based : before.Based) (length : after.locals.length = before.locals.length)
    (functionBase : after.functionBase = before.functionBase)
    : after.Based := by
  unfold Scopes.Based at based ⊢
  rw [length, functionBase]
  exact based

/-- Scopes that are kept are based as before. -/
theorem kept (based : before.Based) (kept : before.Kept after) : after.Based := by
  have views : after.locals.map (·.names) = before.locals.map (·.names) := kept.views
  have length := congrArg List.length views
  rw [List.length_map, List.length_map] at length
  exact based.congr length kept.functionBase

/-- What stays within the scopes is based as they are. -/
theorem within (based : before.Based) (within : before.Within after) : after.Based := by
  obtain ⟨view, reaches⟩ := within
  have views : after.locals.map (·.names) = view :: before.locals.map (·.names) := reaches.views
  have length := congrArg List.length views
  rw [List.length_cons, List.length_map, List.length_map] at length
  unfold Scopes.Based at based ⊢
  rw [length, reaches.functionBase]
  exact Nat.le_succ_of_le based

/-- One more scope stands above the base. -/
theorem opened (based : scopes.Based) : scopes.opened.Based :=
  based.within (.opened scopes)

/-- A declaration opens no scope. -/
theorem declared (based : scopes.Based) (name : Token) (tracked : Bool)
    : (scopes.declared name tracked).Based := by
  unfold Scopes.declared
  split
  · exact based
  · next split =>
      refine based.congr ?_ rfl
      rw [split]
      rfl

/-- A definition opens no scope. -/
theorem defined (based : scopes.Based) (name : String) : (scopes.defined name).Based := by
  unfold Scopes.defined
  split
  · exact based
  · next split =>
      refine based.congr ?_ rfl
      rw [split]
      rfl

/-- What a statement introduces opens no scope. -/
theorem introduced (based : scopes.Based) (name : Option Token)
    : (scopes.introduced name).Based := by
  cases name with
  | none => exact based
  | some name => exact (based.declared name true).defined name.lexeme

/-- The innermost function is now the one that is entered. -/
theorem enteredFunction (scopes : Scopes) : scopes.enteredFunction.Based :=
  Nat.le_refl _

/-- Behind an expression the same scopes are open as in front of it. -/
theorem bindExpr (based : scopes.Based) {expr : Expr Unit} (proper : expr.Proper)
    : (bindExpr expr scopes).2.Based :=
  based.kept (bindExpr_kept expr scopes proper)

/-- Behind a statement the same scopes are open as in front of it. -/
theorem bindStmt (based : scopes.Based) {stmt : Stmt Unit} (proper : stmt.Proper)
    : (bindStmt stmt scopes).2.Based :=
  (based.introduced stmt.introduces?).kept (bindStmt_introduces stmt scopes proper)

end Scopes.Based

def VisitsBased (visits : List Visit) : Prop :=
  ∀ visit ∈ visits, visit.scopes.Based

section

variable {visits visits' : List Visit}

/-- No visits start anywhere. -/
theorem VisitsBased.nil : VisitsBased [] :=
  List.forall_mem_nil _

/-- Visits in two goes start in based scopes if both do. -/
theorem VisitsBased.append (front : VisitsBased visits) (back : VisitsBased visits')
    : VisitsBased (visits ++ visits') :=
  List.forall_mem_append.2 ⟨front, back⟩

/-- One more visit starts in based scopes if it does. -/
theorem VisitsBased.cons {stmt : Stmt Unit} {scopes : Scopes} (based : scopes.Based)
    (inside : VisitsBased visits)
    : VisitsBased ({ stmt, scopes } :: visits) :=
  List.forall_mem_cons.2 ⟨based, inside⟩

end

mutual
/-- Every statement of an expression is visited in based scopes, by induction on the tree. -/
theorem exprVisits_based
    : ∀ (expr : Expr Unit) {scopes : Scopes},
        expr.Proper → scopes.Based → VisitsBased (exprVisits expr scopes)
  | .literal _, _, _, _ | .variable _, _, _, _ | .this _, _, _, _ | .super _ _, _, _, _ => .nil
  | .grouping inner, _, proper, based => exprVisits_based inner proper based
  | .unary _ operand, _, proper, based => exprVisits_based operand proper based
  | .binary left _ right, _, ⟨properLeft, properRight⟩, based =>
      (exprVisits_based left properLeft based).append
        (exprVisits_based right properRight (based.bindExpr properLeft))
  | .logical left _ right, _, ⟨properLeft, properRight⟩, based =>
      (exprVisits_based left properLeft based).append
        (exprVisits_based right properRight (based.bindExpr properLeft))
  | .conditional condition thenCase elseCase, _, ⟨tested, first, second⟩, based =>
      (exprVisits_based condition tested based).append
        ((exprVisits_based thenCase first (based.bindExpr tested)).append
          (exprVisits_based elseCase second ((based.bindExpr tested).bindExpr first)))
  | .assign _ value, _, ⟨_, proper⟩, based => exprVisits_based value proper based
  | .call callee _ arguments, _, ⟨properCallee, properArguments⟩, based =>
      (exprVisits_based callee properCallee based).append
        (exprsVisits_based arguments properArguments (based.bindExpr properCallee))
  | .get object _, _, proper, based => exprVisits_based object proper based
  | .set object _ value, _, ⟨properObject, properValue⟩, based =>
      (exprVisits_based value properValue based).append
        (exprVisits_based object properObject (based.bindExpr properValue))
  | .function function, _, proper, _ => functionVisits_based function proper

/-- Every statement of expressions in a row is visited in based scopes. -/
theorem exprsVisits_based
    : ∀ (exprs : List (Expr Unit)) {scopes : Scopes},
        ProperExprs exprs → scopes.Based → VisitsBased (exprsVisits exprs scopes)
  | [], _, _, _ => .nil
  | first :: rest, _, ⟨properFirst, properRest⟩, based =>
      (exprVisits_based first properFirst based).append
        (exprsVisits_based rest properRest (based.bindExpr properFirst))

/-- Every statement of an optional expression is visited in based scopes. -/
theorem optionalVisits_based
    : ∀ (value : Option (Expr Unit)) {scopes : Scopes},
        ProperOptional value → scopes.Based → VisitsBased (optionalVisits value scopes)
  | none, _, _, _ => .nil
  | some value, _, proper, based => exprVisits_based value proper based

/-- Every statement inside of a statement is visited in based scopes, by induction on the tree. -/
theorem innerVisits_based
    : ∀ (stmt : Stmt Unit) {scopes : Scopes},
        stmt.Proper → scopes.Based → VisitsBased (innerVisits stmt scopes)
  | .expression value, _, proper, based => exprVisits_based value proper based
  | .print value, _, proper, based => exprVisits_based value proper based
  | .printLine value, _, proper, based => optionalVisits_based value proper based
  | .variable name initial, _, ⟨_, proper⟩, based =>
      optionalVisits_based initial proper (based.declared name true)
  | .block statements, _, proper, based => allVisits_based statements proper based.opened
  | .branch condition thenBranch elseBranch, _, ⟨tested, ⟨first, _⟩, second⟩, based =>
      have inside := based.bindExpr tested
      (exprVisits_based condition tested based).append
        ((VisitsBased.cons inside (innerVisits_based thenBranch first inside)).append
          (elseVisits_based elseBranch second (inside.bindStmt first)))
  | .loop condition body, _, ⟨tested, proper, _⟩, based =>
      have inside := based.bindExpr tested
      (exprVisits_based condition tested based).append
        (.cons inside (innerVisits_based body proper inside))
  | .breakLoop _, _, _, _ => .nil
  | .returnValue keyword value, scopes, proper, based =>
      optionalVisits_based value proper (based.kept (checkReturn_kept keyword scopes))
  | .function _ function, _, ⟨_, proper⟩, _ => functionVisits_based function proper
  | .class _ none methods, _, ⟨_, _, proper⟩, _ => methodsVisits_based methods proper
  | .class _ (some _) methods, _, ⟨_, _, proper⟩, _ => methodsVisits_based methods proper

/-- Binding a proper program comes to all of its statements with its functions in order. -/
theorem allVisits_based
    : ∀ (stmts : List (Stmt Unit)) {scopes : Scopes},
        ProperStmts stmts → scopes.Based → VisitsBased (allVisits stmts scopes)
  | [], _, _, _ => .nil
  | first :: rest, _, ⟨properFirst, properRest⟩, based =>
      (VisitsBased.cons based (innerVisits_based first properFirst based)).append
        (allVisits_based rest properRest (based.bindStmt properFirst))

/-- Every statement of a branch that may be missing is visited in based scopes. -/
theorem elseVisits_based
    : ∀ (branch : Option (Stmt Unit)) {scopes : Scopes},
        ProperElse branch → scopes.Based → VisitsBased (elseVisits branch scopes)
  | none, _, _, _ => .nil
  | some branch, _, ⟨proper, _⟩, based => .cons based (innerVisits_based branch proper based)

/-- Nothing around a function matters. -/
theorem functionVisits_based
    : ∀ (function : Lambda Unit) {scopes : Scopes},
        function.Proper → VisitsBased (functionVisits function scopes)
  | .mk parameters body, scopes, ⟨_, proper⟩ =>
      allVisits_based body proper
        ((Scopes.Based.enteredFunction scopes).within
          (declareParameters_within (.opened scopes.enteredFunction) parameters))

/-- Every statement of a class's methods is visited in based scopes. -/
theorem methodsVisits_based
    : ∀ (methods : List (Method Unit)) {scopes : Scopes},
        ProperMethods methods → VisitsBased (methodsVisits methods scopes)
  | [], _, _ => .nil
  | .mk _ function :: rest, _, ⟨properFirst, properRest⟩ =>
      (functionVisits_based function properFirst).append (methodsVisits_based rest properRest)
end

end Lox.Binding
