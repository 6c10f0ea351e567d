import Lox.Grammar.Expression

/-! Statements and declarations. A `for` is read as a block around a `while`. -/

namespace Lox.Grammar

-----
-- Declarations

def parametersFrom (earlier : Nat) : List Token → Rule (List Token)
  | [] => return []
  | _ :: bound => do
      checkRoom earlier .tooManyParameters
      let parameter ← expect .identifier .parameterName
      if ← accept .comma then
        let rest ← parametersFrom (earlier + 1) bound
        return parameter :: rest
      else
        return [parameter]

/-- Where the closing parenthesis stands ahead there are no parameters. -/
def parameters : Rule (List Token) := do
  if ← nextIs .rightParen then
    return []
  else
    parametersFrom 0 (← get).ahead

/-- A name, its parameters and its body, without a keyword in front. -/
def namedFunction (rules : Rules) (role : FunctionRole) : Rule (Token × Lambda Unit) := do
  let name ← expect .identifier (.functionName role)
  let _ ← expect .leftParen (.parametersAfterName role)
  let parameters ← parameters
  let _ ← expect .rightParen .parametersEnd
  let _ ← expect .leftBrace (.functionBody role)
  let body ← functionBody rules
  return (name, .mk parameters body)

def functionDeclaration (rules : Rules) : Rule SourceStmt := do
  let (name, function) ← namedFunction rules .function
  return .function name function

def methodsFrom (rules : Rules) : List Token → Rule (List (Method Unit))
  | [] => return []
  | _ :: bound => do
      if (← get).atBlockEnd then
        return []
      else
        let (name, function) ← namedFunction rules .method
        let rest ← methodsFrom rules bound
        return .mk name function :: rest

def superclassClause : Rule (Option (Reference Unit)) := do
  if ← accept .less then
    let superclass ← expect .identifier .superclassName
    return some (reference superclass)
  else
    return none

def classDeclaration (rules : Rules) : Rule SourceStmt := do
  let name ← expect .identifier .className
  let superclass ← superclassClause
  let _ ← expect .leftBrace .classBody
  let methods ← methodsFrom rules (← get).ahead
  let _ ← expect .rightBrace .classEnd
  return .class name superclass methods

def isFunctionLiteral : Option SourceExpr → Bool
  | some (.function _) => true
  | _ => false

def initialValue (rules : Rules) : Rule (Option SourceExpr) := do
  if ← accept .equal then
    some <$> rules.expression
  else
    return none

/-- The closing brace of a function literal already ends the declaration it initializes. -/
def variableEnd (initial : Option SourceExpr) : Rule Unit := do
  if isFunctionLiteral initial then
    let _ ← accept .semicolon
  else
    let _ ← expect .semicolon .variableEnd

def variableDeclaration (rules : Rules) : Rule SourceStmt := do
  let name ← expect .identifier .variableName
  let initial ← initialValue rules
  variableEnd initial
  return .variable name initial

-----
-- Statements

/-- Where allowed, an expression that ends the input is printed and needs no semicolon. -/
def expressionStatement (allowExpression : Bool) (rules : Rules) : Rule SourceStmt := do
  let value ← rules.expression
  if allowExpression && (← atEnd) then
    return .printLine (some value)
  else
    let _ ← expect .semicolon .expressionEnd
    return .expression value

/-- The block and the loop that a `for` stands for. -/
def forLoop (initial : Option SourceStmt) (condition increment : Option SourceExpr)
    (body : SourceStmt)
    : SourceStmt :=
  let repeated :=
    match increment with
    | none => body
    | some increment => .block [body, .expression increment]
  .block (initial.toList ++ [.loop (condition.getD (.literal (.boolean true))) repeated])

/-- An expression that is left out where its end stands ahead. -/
def expressionBefore (stop : TokenKind) (rules : Rules) : Rule (Option SourceExpr) := do
  if ← nextIs stop then
    return none
  else
    some <$> rules.expression

/-- The first clause of a `for`, with its semicolon. -/
def forInitial (allowExpression : Bool) (rules : Rules) : Rule (Option SourceStmt) := do
  if ← accept .semicolon then
    return none
  else if ← accept .varWord then
    some <$> variableDeclaration rules
  else
    some <$> expressionStatement allowExpression rules

def forStatement (allowExpression : Bool) (rules : Rules) : Rule SourceStmt := do
  let _ ← expect .leftParen .forClauses
  let initial ← forInitial allowExpression rules
  let condition ← expressionBefore .semicolon rules
  let _ ← expect .semicolon .loopConditionEnd
  let increment ← expressionBefore .rightParen rules
  let _ ← expect .rightParen .forClausesEnd
  let body ← insideLoop rules.statement
  return forLoop initial condition increment body

def elseBranch (rules : Rules) : Rule (Option SourceStmt) := do
  if ← accept .elseWord then
    some <$> rules.statement
  else
    return none

def ifStatement (rules : Rules) : Rule SourceStmt := do
  let _ ← expect .leftParen .ifCondition
  let condition ← rules.expression
  let _ ← expect .rightParen .ifConditionEnd
  let thenBranch ← rules.statement
  let elseBranch ← elseBranch rules
  return .branch condition thenBranch elseBranch

def whileStatement (rules : Rules) : Rule SourceStmt := do
  let _ ← expect .leftParen .whileCondition
  let condition ← rules.expression
  let _ ← expect .rightParen .whileConditionEnd
  let body ← insideLoop rules.statement
  return .loop condition body

/-- A misplaced `break` is reported and kept. -/
def breakStatement (keyword : Token) : Rule SourceStmt := do
  if (← get).loopDepth = 0 then
    report keyword .breakOutsideLoop
  let _ ← expect .semicolon .breakEnd
  return .breakLoop keyword

def returnStatement (rules : Rules) (keyword : Token) : Rule SourceStmt := do
  let value ← expressionBefore .semicolon rules
  let _ ← expect .semicolon .returnEnd
  return .returnValue keyword value

def printStatement (rules : Rules) : Rule SourceStmt := do
  let value ← rules.expression
  let _ ← expect .semicolon .printEnd
  return .print value

def printLineStatement (rules : Rules) : Rule SourceStmt := do
  if ← accept .semicolon then
    return .printLine none
  else
    let value ← rules.expression
    let _ ← expect .semicolon .printEnd
    return .printLine (some value)

def statement (allowExpression : Bool) (rules : Rules) : Rule SourceStmt := do
  let token ← next
  match token.kind with
  | .forWord => modify Cursor.drop; forStatement allowExpression rules
  | .ifWord => modify Cursor.drop; ifStatement rules
  | .printWord => modify Cursor.drop; printStatement rules
  | .printlnWord => modify Cursor.drop; printLineStatement rules
  | .returnWord => modify Cursor.drop; returnStatement rules token
  | .whileWord => modify Cursor.drop; whileStatement rules
  | .breakWord => modify Cursor.drop; breakStatement token
  | .leftBrace => modify Cursor.drop; .block <$> block rules
  | _ => expressionStatement allowExpression rules

/-- Every declaration is a place to recover at. -/
def declaration (allowExpression : Bool) (rules : Rules) : Rule (Option SourceStmt) :=
  recovering do
    let token ← next
    match token.kind with
    | .classWord => modify Cursor.drop; classDeclaration rules
    | .funWord => modify Cursor.drop; functionDeclaration rules
    | .varWord => modify Cursor.drop; variableDeclaration rules
    | _ => statement allowExpression rules

end Lox.Grammar
