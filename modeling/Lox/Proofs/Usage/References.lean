import Lox.Proofs.Usage.Survey

/-! The references of a bound tree are the uses that the survey lists.

What the survey tells of the distance of a use is what binding records in the tree.
-/

namespace Lox

variable {ρ : Type}

mutual
/-- The references of a tree, in the order in which they are bound. -/
def exprReferences : Expr ρ → List (Reference ρ)
  | .literal _ => []
  | .grouping inner => exprReferences inner
  | .unary _ operand => exprReferences operand
  | .binary left _ right | .logical left _ right => exprReferences left ++ exprReferences right
  | .conditional condition thenCase elseCase =>
      exprReferences condition ++ exprReferences thenCase ++ exprReferences elseCase
  | .variable target => [target]
  | .assign target value => exprReferences value ++ [target]
  | .call callee _ arguments => exprReferences callee ++ exprsReferences arguments
  | .get object _ => exprReferences object
  | .set object _ value => exprReferences value ++ exprReferences object
  | .this keyword | .super keyword _ => [keyword]
  | .function function => functionReferences function

def exprsReferences : List (Expr ρ) → List (Reference ρ)
  | [] => []
  | first :: rest => exprReferences first ++ exprsReferences rest

def optionalReferences : Option (Expr ρ) → List (Reference ρ)
  | none => []
  | some value => exprReferences value

def stmtReferences : Stmt ρ → List (Reference ρ)
  | .expression value | .print value => exprReferences value
  | .printLine value => optionalReferences value
  | .variable _ initial => optionalReferences initial
  | .block statements => stmtsReferences statements
  | .branch condition thenBranch elseBranch =>
      exprReferences condition ++ stmtReferences thenBranch ++ elseReferences elseBranch
  | .loop condition body => exprReferences condition ++ stmtReferences body
  | .breakLoop _ => []
  | .returnValue _ value => optionalReferences value
  | .function _ function => functionReferences function
  | .class _ superclass methods => superclass.toList ++ methodsReferences methods

def stmtsReferences : List (Stmt ρ) → List (Reference ρ)
  | [] => []
  | first :: rest => stmtReferences first ++ stmtsReferences rest

def elseReferences : Option (Stmt ρ) → List (Reference ρ)
  | none => []
  | some branch => stmtReferences branch

def functionReferences : Lambda ρ → List (Reference ρ)
  | .mk _ body => stmtsReferences body

def methodsReferences : List (Method ρ) → List (Reference ρ)
  | [] => []
  | .mk _ function :: rest => functionReferences function ++ methodsReferences rest
end

namespace Scoping

open Binding
open Grammar (SourceExpr SourceStmt)

/-- What is recorded for the uses. -/
def Survey.references (survey : Survey) : List (Reference (Option Nat)) :=
  survey.uses.map fun entry => entry.1.reference entry.2

/-- The references of two surveys in a row are those of each. -/
theorem Survey.references_append {front back : Survey}
    {first second : List (Reference (Option Nat))}
    (same : first = front.references) (same' : second = back.references)
    : first ++ second = (front ++ back).references := by
  unfold references
  rw [uses_append, List.map_append, same, same', references, references]

/-- A body has no uses of its own besides its statements. -/
theorem Survey.references_body {survey : Survey} {references : List (Reference (Option Nat))}
    (body : Body) (same : references = survey.references)
    : references = (survey ++ .body body).references := by
  have together := references_append same (show [] = (Survey.body body).references from rfl)
  rwa [List.append_nil] at together

mutual
/-- The references of a bound expression are those its survey lists, by induction on the tree. -/
theorem references_expr
    : ∀ (expr : SourceExpr) (site : Site),
        exprReferences (bindExpr expr site.scopes).1 = (surveyExpr site expr).references
  | .literal _, _ => rfl
  | .grouping inner, site => references_expr inner (site.child 0)
  | .unary _ operand, site => references_expr operand (site.child 0)
  | .binary left _ right, site =>
      Survey.references_append (references_expr left (site.child 0))
        (references_expr right ((site.after (bindExpr left)).child 1))
  | .logical left _ right, site =>
      Survey.references_append (references_expr left (site.child 0))
        (references_expr right ((site.after (bindExpr left)).child 1))
  | .conditional condition thenCase elseCase, site =>
      let thenSite := site.after (bindExpr condition)
      Survey.references_append
        (Survey.references_append (references_expr condition (site.child 0))
          (references_expr thenCase (thenSite.child 1)))
        (references_expr elseCase ((thenSite.after (bindExpr thenCase)).child 2))
  | .variable _, _ => rfl
  | .assign target value, site =>
      Survey.references_append (references_expr value (site.child 0))
        (show _ = (Survey.use (site.after (bindExpr value)) (.write target.name)).references
          from rfl)
  | .call callee _ arguments, site =>
      Survey.references_append (references_expr callee (site.child 0))
        (references_exprs arguments ((site.after (bindExpr callee)).child 1))
  | .get object _, site => references_expr object (site.child 0)
  | .set object _ value, site =>
      Survey.references_append (references_expr value (site.child 1))
        (references_expr object ((site.after (bindExpr value)).child 0))
  | .this _, _ => rfl
  | .super _ _, _ => rfl
  | .function function, site => references_function function (site.child 0)

/-- The references of bound expressions are those their survey lists. -/
theorem references_exprs
    : ∀ (exprs : List SourceExpr) (site : Site),
        exprsReferences (bindExprs exprs site.scopes).1 = (surveyExprs site exprs).references
  | [], _ => rfl
  | first :: rest, site =>
      Survey.references_append (references_expr first (site.child 0))
        (references_exprs rest ((site.after (bindExpr first)).child 1))

/-- The references of a bound optional expression are those its survey lists. -/
theorem references_optional
    : ∀ (value : Option SourceExpr) (site : Site),
        optionalReferences (bindOptional value site.scopes).1
          = (surveyOptional site value).references
  | none, _ => rfl
  | some value, site => references_expr value (site.child 0)

/-- The references of a bound statement are those its survey lists, by induction on the tree. -/
theorem references_stmt
    : ∀ (stmt : SourceStmt) (site : Site),
        stmtReferences (bindStmt stmt site.scopes).1 = (surveyStmt site stmt).references
  | .expression value, site => references_expr value (site.child 0)
  | .print value, site => references_expr value (site.child 0)
  | .printLine value, site => references_optional value site
  | .variable name initial, site => references_optional initial (site.declaring name)
  | .block statements, site =>
      Survey.references_body (.block site statements)
        (references_stmts statements (site.opened .block))
  | .branch condition thenBranch elseBranch, site =>
      let thenSite := site.after (bindExpr condition)
      Survey.references_append
        (Survey.references_append (references_expr condition (site.child 0))
          (references_stmt thenBranch (thenSite.child 1)))
        (references_else elseBranch ((thenSite.after (bindStmt thenBranch)).child 2))
  | .loop condition body, site =>
      Survey.references_append (references_expr condition (site.child 0))
        (references_stmt body ((site.after (bindExpr condition)).looping.child 1))
  | .breakLoop _, _ => rfl
  | .returnValue keyword value, site =>
      references_optional value (site.after (checkReturn keyword))
  | .function name function, site =>
      references_function function ((site.introducing name).child 0)
  | .class name none methods, site =>
      Survey.references_append (show _ = (surveyClause site name none).references from rfl)
        (references_methods methods (site.amongMethods name none))
  | .class name (some superclass) methods, site =>
      Survey.references_append
        (show _ = (surveyClause site name (some superclass)).references from rfl)
        (references_methods methods (site.amongMethods name (some superclass)))

/-- The references of bound statements are those their survey lists. -/
theorem references_stmts
    : ∀ (stmts : List SourceStmt) (site : Site),
        stmtsReferences (bindStmts stmts site.scopes).1 = (surveyStmts site stmts).references
  | [], _ => rfl
  | first :: rest, site =>
      Survey.references_append (references_stmt first (site.child 0))
        (references_stmts rest ((site.after (bindStmt first)).child 1))

/-- The references of a bound branch are those its survey lists. -/
theorem references_else
    : ∀ (branch : Option SourceStmt) (site : Site),
        elseReferences (bindElse branch site.scopes).1 = (surveyElse site branch).references
  | none, _ => rfl
  | some branch, site => references_stmt branch site

/-- The references of a bound function are those its survey lists. -/
theorem references_function
    : ∀ (function : Lambda Unit) (site : Site),
        functionReferences (bindFunction function site.scopes).1
          = (surveyFunction site function).references
  | .mk parameters body, site =>
      Survey.references_body (.function site (.mk parameters body))
        (references_stmts body (site.inside (.mk parameters body)))

/-- The references of bound methods are those their survey lists. -/
theorem references_methods
    : ∀ (methods : List (Method Unit)) (site : Site),
        methodsReferences (bindMethods methods site.scopes).1
          = (surveyMethods site methods).references
  | [], _ => rfl
  | .mk _ function :: rest, site =>
      Survey.references_append (references_function function (site.child 0))
        (references_methods rest ((site.after (bindFunction function)).child 1))
end

end Scoping

end Lox
