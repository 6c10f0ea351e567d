import Lox.Proofs.Binding.Reads

/-! What every step of the walk through a program keeps to, the whole walk keeps to.

A claim about binding that speaks of single steps only needs no induction of its own: it is enough
that the steps satisfy it, and that it goes from one step to the next and into the contexts.
-/

namespace Lox.Binding

-----
-- Steps

/-- All steps that the walk through a tree consists of satisfy the claim, if it reads only some
names. -/
structure Steps (mayRead : Token → Prop) (holds : ∀ {α : Type}, Binder α → Prop) : Prop where
  pure {α : Type} (value : α) : holds (Pure.pure value)
  bind {α β : Type} {action : Binder α} {next : α → Binder β} (front : holds action)
    (back : ∀ value, holds (next value))
    : holds (action >>= next)
  read {name : Token} (among : mayRead name) : holds (bindRead name)
  nearest (name : Token) : holds (bindNearest name)
  this (keyword : Token) : holds (bindThis keyword)
  super (keyword : Token) : holds (bindSuper keyword)
  declare (name : Token) : holds (declare name)
  define (name : Token) : holds (define name)
  declareParameter (name : Token) : holds (declareParameter name)
  defineImplicit (name : String) : holds (defineImplicit name)
  checkBreak (keyword : Token) : holds (checkBreak keyword)
  checkReturn (keyword : Token) : holds (checkReturn keyword)
  enterSubclass (name superclass : Token) : holds (enterSubclass name superclass)
  inScope {α : Type} {action : Binder α} (inside : holds action) : holds (inScope action)
  inLoop {α : Type} {action : Binder α} (inside : holds action) : holds (inLoop action)
  inFunction {α : Type} {action : Binder α} (inside : holds action) : holds (inFunction action)
  inClass {α : Type} {action : Binder α} (inside : holds action) : holds (inClass action)

namespace Steps

variable {mayRead : Token → Prop} {holds : ∀ {α : Type}, Binder α → Prop}
  (steps : Steps mayRead holds)

include steps

/-- Declaring parameters is a walk, by induction on them. -/
theorem declareParameters (parameters : List Token)
    : holds (parameters.forM Binding.declareParameter) := by
  induction parameters with
  | nil => exact steps.pure ()
  | cons name rest ih => exact steps.bind (steps.declareParameter name) fun _ => ih

-----
-- Whole trees

open List (forall_mem_append forall_mem_cons)

mutual
/-- Binding an expression is a walk through the reads in it, by induction on the tree. -/
theorem bindExpr
    : ∀ expr : Expr Unit,
        (∀ target ∈ exprVariables expr, mayRead target.name) → holds (bindExpr expr)
  | .literal _, _ => steps.pure _
  | .grouping inner, among => steps.bind (bindExpr inner among) fun _ => steps.pure _
  | .unary _ operand, among => steps.bind (bindExpr operand among) fun _ => steps.pure _
  | .binary left _ right, among =>
      have ⟨amongLeft, amongRight⟩ := forall_mem_append.1 among
      steps.bind (bindExpr left amongLeft) fun _ =>
        steps.bind (bindExpr right amongRight) fun _ => steps.pure _
  | .logical left _ right, among =>
      have ⟨amongLeft, amongRight⟩ := forall_mem_append.1 among
      steps.bind (bindExpr left amongLeft) fun _ =>
        steps.bind (bindExpr right amongRight) fun _ => steps.pure _
  | .conditional condition thenCase elseCase, among =>
      have ⟨front, second⟩ := forall_mem_append.1 among
      have ⟨tested, first⟩ := forall_mem_append.1 front
      steps.bind (bindExpr condition tested) fun _ =>
        steps.bind (bindExpr thenCase first) fun _ =>
          steps.bind (bindExpr elseCase second) fun _ => steps.pure _
  | .variable target, among =>
      steps.bind (steps.read (among target (List.mem_singleton_self _))) fun _ => steps.pure _
  | .assign _ value, among =>
      steps.bind (bindExpr value among) fun _ =>
        steps.bind (steps.nearest _) fun _ => steps.pure _
  | .call callee _ arguments, among =>
      have ⟨amongCallee, amongArguments⟩ := forall_mem_append.1 among
      steps.bind (bindExpr callee amongCallee) fun _ =>
        steps.bind (bindExprs arguments amongArguments) fun _ => steps.pure _
  | .get object _, among => steps.bind (bindExpr object among) fun _ => steps.pure _
  | .set object _ value, among =>
      have ⟨amongValue, amongObject⟩ := forall_mem_append.1 among
      steps.bind (bindExpr value amongValue) fun _ =>
        steps.bind (bindExpr object amongObject) fun _ => steps.pure _
  | .this _, _ => steps.bind (steps.this _) fun _ => steps.pure _
  | .super _ _, _ => steps.bind (steps.super _) fun _ => steps.pure _
  | .function function, among =>
      steps.bind (bindFunction function among) fun _ => steps.pure _

/-- Binding expressions in a row is a walk through the reads in them. -/
theorem bindExprs
    : ∀ exprs : List (Expr Unit),
        (∀ target ∈ exprsVariables exprs, mayRead target.name) → holds (bindExprs exprs)
  | [], _ => steps.pure _
  | first :: rest, among =>
      have ⟨amongFirst, amongRest⟩ := forall_mem_append.1 among
      steps.bind (bindExpr first amongFirst) fun _ =>
        steps.bind (bindExprs rest amongRest) fun _ => steps.pure _

/-- Binding an optional expression is a walk through the reads in it. -/
theorem bindOptional
    : ∀ value : Option (Expr Unit),
        (∀ target ∈ optionalVariables value, mayRead target.name) → holds (bindOptional value)
  | none, _ => steps.pure _
  | some value, among => steps.bind (bindExpr value among) fun _ => steps.pure _

/-- Binding a statement is a walk through the reads in it, by induction on the tree. -/
theorem bindStmt
    : ∀ stmt : Stmt Unit,
        (∀ target ∈ stmtVariables stmt, mayRead target.name) → holds (bindStmt stmt)
  | .expression value, among => steps.bind (bindExpr value among) fun _ => steps.pure _
  | .print value, among => steps.bind (bindExpr value among) fun _ => steps.pure _
  | .printLine value, among => steps.bind (bindOptional value among) fun _ => steps.pure _
  | .variable _ initial, among =>
      steps.bind (steps.declare _) fun _ =>
        steps.bind (bindOptional initial among) fun _ =>
          steps.bind (steps.define _) fun _ => steps.pure _
  | .block statements, among =>
      steps.bind (steps.inScope (bindStmts statements among)) fun _ => steps.pure _
  | .branch condition thenBranch elseBranch, among =>
      have ⟨front, second⟩ := forall_mem_append.1 among
      have ⟨tested, first⟩ := forall_mem_append.1 front
      steps.bind (bindExpr condition tested) fun _ =>
        steps.bind (bindStmt thenBranch first) fun _ =>
          steps.bind (bindElse elseBranch second) fun _ => steps.pure _
  | .loop condition body, among =>
      have ⟨tested, inside⟩ := forall_mem_append.1 among
      steps.bind (bindExpr condition tested) fun _ =>
        steps.bind (steps.inLoop (bindStmt body inside)) fun _ => steps.pure _
  | .breakLoop keyword, _ => steps.bind (steps.checkBreak keyword) fun _ => steps.pure _
  | .returnValue keyword value, among =>
      steps.bind (steps.checkReturn keyword) fun _ =>
        steps.bind (bindOptional value among) fun _ => steps.pure _
  | .function _ function, among =>
      steps.bind (steps.declare _) fun _ =>
        steps.bind (steps.define _) fun _ =>
          steps.bind (bindFunction function among) fun _ => steps.pure _
  | .class _ none methods, among =>
      steps.inClass <|
        steps.bind (steps.declare _) fun _ =>
          steps.bind (steps.define _) fun _ =>
            steps.bind
              (steps.inScope (steps.bind (steps.defineImplicit "this") fun _ =>
                bindMethods methods among))
              fun _ => steps.pure _
  | .class _ (some superclass) methods, among =>
      have ⟨inherited, inside⟩ := forall_mem_cons.1 among
      have finds := steps.bind (steps.enterSubclass _ superclass.name) fun _ =>
        steps.bind (steps.read inherited) fun _ => steps.pure _
      steps.inClass <|
        steps.bind (steps.declare _) fun _ =>
          steps.bind (steps.define _) fun _ =>
            steps.bind finds fun _ =>
              steps.bind
                (steps.inScope (steps.bind (steps.defineImplicit "super") fun _ =>
                  steps.inScope (steps.bind (steps.defineImplicit "this") fun _ =>
                    bindMethods methods inside)))
                fun _ => steps.pure _

/-- Binding statements in a row is a walk through the reads in them. -/
theorem bindStmts
    : ∀ stmts : List (Stmt Unit),
        (∀ target ∈ stmtsVariables stmts, mayRead target.name) → holds (bindStmts stmts)
  | [], _ => steps.pure _
  | first :: rest, among =>
      have ⟨amongFirst, amongRest⟩ := forall_mem_append.1 among
      steps.bind (bindStmt first amongFirst) fun _ =>
        steps.bind (bindStmts rest amongRest) fun _ => steps.pure _

/-- Binding a branch is a walk through the reads in it. -/
theorem bindElse
    : ∀ branch : Option (Stmt Unit),
        (∀ target ∈ elseVariables branch, mayRead target.name) → holds (bindElse branch)
  | none, _ => steps.pure _
  | some branch, among => steps.bind (bindStmt branch among) fun _ => steps.pure _

/-- Binding a function is a walk through the reads in it. -/
theorem bindFunction
    : ∀ function : Lambda Unit,
        (∀ target ∈ functionVariables function, mayRead target.name)
        → holds (bindFunction function)
  | .mk parameters body, among =>
      steps.inFunction <| steps.inScope <|
        steps.bind (declareParameters steps parameters) fun _ =>
          steps.bind (bindStmts body among) fun _ => steps.pure _

/-- Binding methods is a walk through the reads in them. -/
theorem bindMethods
    : ∀ methods : List (Method Unit),
        (∀ target ∈ methodsVariables methods, mayRead target.name)
        → holds (bindMethods methods)
  | [], _ => steps.pure _
  | .mk _ function :: rest, among =>
      have ⟨amongFirst, amongRest⟩ := forall_mem_append.1 among
      steps.bind (bindFunction function amongFirst) fun _ =>
        steps.bind (bindMethods rest amongRest) fun _ => steps.pure _
end

end Steps

end Lox.Binding
