import Lox.Proofs.Scoping.Site

/-! The uses of names in a program text, and the scopes that hold its declarations.

A survey finds both at the sites where a run meets them, whether a run gets there or not.
-/

namespace Lox.Scoping

open Binding
open Grammar (SourceExpr SourceStmt)

-----
-- Bodies

/-- Statements with a scope of their own, and the site of the block or function. -/
inductive Body where
  | block (site : Site) (statements : List SourceStmt)
  | function (site : Site) (lambda : Lambda Unit)

namespace Body

def site : Body → Site
  | .block site _ => site
  | .function site _ => site

def parameters : Body → List Token
  | .block _ _ => []
  | .function _ lambda => lambda.parameters

def statements : Body → List SourceStmt
  | .block _ statements => statements
  | .function _ lambda => lambda.body

/-- The scope that belongs to the body. -/
def frame : Body → Frame
  | .block site _ => { kind := .block, place := site.place }
  | .function site _ => { kind := .function, place := site.place }

/-- Where the statements start. -/
def start : Body → Site
  | .block site _ => site.opened .block
  | .function site lambda => site.inside lambda

/-- The scope of a body belongs to its place. -/
@[simp]
theorem frame_place (body : Body) : body.frame.place = body.site.place := by
  cases body <;> rfl

/-- A body starts at its place. -/
@[simp]
theorem start_place (body : Body) : body.start.place = body.site.place := by
  cases body <;> rfl

/-- A body starts with its own scope in front of those around it. -/
@[simp]
theorem start_frames (body : Body) : body.start.frames = body.frame :: body.site.frames := by
  cases body <;> rfl

end Body

-----
-- Surveys

/-- What a part of a program text holds, in the order of the text. -/
structure Survey where
  /-- The nodes that look a name up. -/
  uses : List (Site × Use)
  /-- The bodies, each where its scope is closed. -/
  bodies : List Body

namespace Survey

def empty : Survey :=
  { uses := [], bodies := [] }

def use (site : Site) (use : Use) : Survey :=
  { uses := [(site, use)], bodies := [] }

def body (body : Body) : Survey :=
  { uses := [], bodies := [body] }

instance : Append Survey where
  append front back := { uses := front.uses ++ back.uses, bodies := front.bodies ++ back.bodies }

/-- Two surveys list the uses of both. -/
@[simp]
theorem uses_append (front back : Survey) : (front ++ back).uses = front.uses ++ back.uses :=
  rfl

/-- Two surveys list the bodies of both. -/
@[simp]
theorem bodies_append (front back : Survey)
    : (front ++ back).bodies = front.bodies ++ back.bodies :=
  rfl

end Survey

/-- The superclass is looked up before the class has methods. -/
def surveyClause (site : Site) (name : Token) : Option (Reference Unit) → Survey
  | none => .empty
  | some target => .use (site.inheriting name target.name) (.read target.name)

mutual
def surveyExpr (site : Site) : SourceExpr → Survey
  | .literal _ => .empty
  | .grouping inner => surveyExpr (site.child 0) inner
  | .unary _ operand => surveyExpr (site.child 0) operand
  | .binary left _ right | .logical left _ right =>
      surveyExpr (site.child 0) left
        ++ surveyExpr ((site.after (bindExpr left)).child 1) right
  | .conditional condition thenCase elseCase =>
      let thenSite := site.after (bindExpr condition)
      surveyExpr (site.child 0) condition
        ++ surveyExpr (thenSite.child 1) thenCase
        ++ surveyExpr ((thenSite.after (bindExpr thenCase)).child 2) elseCase
  | .variable target => .use site (.read target.name)
  | .assign target value =>
      surveyExpr (site.child 0) value
        ++ .use (site.after (bindExpr value)) (.write target.name)
  | .call callee _ arguments =>
      surveyExpr (site.child 0) callee
        ++ surveyExprs ((site.after (bindExpr callee)).child 1) arguments
  | .get object _ => surveyExpr (site.child 0) object
  | .set object _ value =>
      surveyExpr (site.child 1) value
        ++ surveyExpr ((site.after (bindExpr value)).child 0) object
  | .this keyword => .use site (.this keyword.name)
  | .super keyword method => .use site (.super keyword.name method)
  | .function function => surveyFunction (site.child 0) function

def surveyExprs (site : Site) : List SourceExpr → Survey
  | [] => .empty
  | first :: rest =>
      surveyExpr (site.child 0) first
        ++ surveyExprs ((site.after (bindExpr first)).child 1) rest

def surveyOptional (site : Site) : Option SourceExpr → Survey
  | none => .empty
  | some value => surveyExpr (site.child 0) value

def surveyStmt (site : Site) : SourceStmt → Survey
  | .expression value => surveyExpr (site.child 0) value
  | .print value => surveyExpr (site.child 0) value
  | .printLine value => surveyOptional site value
  | .variable name initial => surveyOptional (site.declaring name) initial
  | .block statements =>
      surveyStmts (site.opened .block) statements ++ .body (.block site statements)
  | .branch condition thenBranch elseBranch =>
      let thenSite := site.after (bindExpr condition)
      surveyExpr (site.child 0) condition
        ++ surveyStmt (thenSite.child 1) thenBranch
        ++ surveyElse ((thenSite.after (bindStmt thenBranch)).child 2) elseBranch
  | .loop condition body =>
      surveyExpr (site.child 0) condition
        ++ surveyStmt ((site.after (bindExpr condition)).looping.child 1) body
  | .breakLoop _ => .empty
  | .returnValue keyword value => surveyOptional (site.after (checkReturn keyword)) value
  | .function name function => surveyFunction ((site.introducing name).child 0) function
  | .class name superclass methods =>
      surveyClause site name superclass
        ++ surveyMethods (site.amongMethods name superclass) methods

def surveyStmts (site : Site) : List SourceStmt → Survey
  | [] => .empty
  | first :: rest =>
      surveyStmt (site.child 0) first
        ++ surveyStmts ((site.after (bindStmt first)).child 1) rest

def surveyElse (site : Site) : Option SourceStmt → Survey
  | none => .empty
  | some branch => surveyStmt site branch

def surveyFunction (site : Site) : Lambda Unit → Survey
  | .mk parameters body =>
      surveyStmts (site.inside (.mk parameters body)) body
        ++ .body (.function site (.mk parameters body))

def surveyMethods (site : Site) : List (Method Unit) → Survey
  | [] => .empty
  | .mk _ function :: rest =>
      surveyFunction (site.child 0) function
        ++ surveyMethods ((site.after (bindFunction function)).child 1) rest
end

/-- What the statements of a body hold. -/
def Body.survey (body : Body) : Survey :=
  surveyStmts body.start body.statements

end Lox.Scoping
