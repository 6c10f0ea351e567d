import Lox.Grammar.Cursor

/-! Expressions, from the loosest level to the tightest.

Assignment binds loosest, then `or`, `and`, the comma, the conditional, equality, comparison,
sums, products, negations, calls, and single operands. Loops are bounded by the tokens that are
ahead when they begin, because every round takes one.
-/

namespace Lox.Grammar

-----
-- Chains of one level

/-- Reads further operators of a level, grouping to the left. -/
def chainFrom (operator? : Rule (Option Token)) (operand : Rule SourceExpr)
    (combine : SourceExpr → Token → SourceExpr → SourceExpr) (left : SourceExpr)
    : List Token → Rule SourceExpr
  | [] => return left
  | _ :: bound => do
      match ← operator? with
      | none => return left
      | some operator =>
          let right ← operand
          chainFrom operator? operand combine (combine left operator right) bound

def chain (operator? : Rule (Option Token)) (operand : Rule SourceExpr)
    (combine : SourceExpr → Token → SourceExpr → SourceExpr)
    : Rule SourceExpr := do
  let left ← operand
  chainFrom operator? operand combine left (← get).ahead

-----
-- Functions

/-- A block starts a new context for commas, and its statements recover one by one. -/
def block (rules : Rules) : Rule (List SourceStmt) := do
  let statements ← withComma true do
    declarationsUntil Cursor.atBlockEnd rules.declaration (← get).ahead
  let _ ← expect .rightBrace .blockEnd
  return statements

def functionBody (rules : Rules) : Rule (List SourceStmt) :=
  outsideLoops (block rules)

def arrowBody (rules : Rules) (parameters : List Token) : Rule SourceExpr := do
  let _ ← expect .leftBrace .arrowBody
  let body ← functionBody rules
  return .function (.mk parameters body)

/-- The names that a parenthesized expression lists, if it is nothing but names and commas. -/
def parameterNames? : SourceExpr → Option (List Token)
  | .variable target => some [target.name]
  | .binary left operator right =>
      if operator.kind = .comma then do
        let front ← parameterNames? left
        let back ← parameterNames? right
        return front ++ back
      else
        none
  | _ => none

/-- Too many names are reported at the arrow behind them. -/
def checkNames (arrow : Token) (names : List Token) : Rule Unit := do
  if maxArguments < names.length then
    report arrow .tooManyParameters

/-- Behind an opening parenthesis: a grouping, or a function literal if an arrow follows. -/
def groupOrArrow (rules : Rules) : Rule SourceExpr := do
  if ← accept .rightParen then
    let _ ← expect .arrow .arrow
    arrowBody rules []
  else
    let inner ← withComma true rules.expression
    let _ ← expect .rightParen .groupEnd
    match ← accept? .arrow with
    | none => return .grouping inner
    | some arrow =>
        match parameterNames? inner with
        | none => fail arrow .invalidParameterList
        | some parameters =>
            checkNames arrow parameters
            arrowBody rules parameters

-----
-- Operands

def reference (name : Token) : Reference Unit :=
  { name, binding := () }

/-- Takes the token ahead, which makes up the whole expression. -/
def takeAs (expression : SourceExpr) : Rule SourceExpr := do
  modify Cursor.drop
  return expression

def superMethod (keyword : Token) : Rule SourceExpr := do
  let _ ← expect .dot .superMember
  let method ← expect .identifier .superMethodName
  return .super (reference keyword) method

def primary (rules : Rules) : Rule SourceExpr := do
  let token ← next
  match token.kind with
  | .falseWord => takeAs (.literal (.boolean false))
  | .trueWord => takeAs (.literal (.boolean true))
  | .nilWord => takeAs (.literal .nil)
  | .number | .string => takeAs (.literal (token.literal.getD .nil))
  | .thisWord => takeAs (.this (reference token))
  | .identifier => takeAs (.variable (reference token))
  | .superWord =>
      modify Cursor.drop
      superMethod token
  | .leftParen =>
      modify Cursor.drop
      groupOrArrow rules
  | _ => fail token (.expected .expression)

-----
-- Calls

/-- Arguments past the limit are reported and read all the same. -/
def argumentsFrom (rules : Rules) (earlier : Nat) : List Token → Rule (List SourceExpr)
  | [] => return []
  | _ :: bound => do
      checkRoom earlier .tooManyArguments
      let argument ← rules.expression
      if ← accept .comma then
        let rest ← argumentsFrom rules (earlier + 1) bound
        return argument :: rest
      else
        return [argument]

/-- Where the closing parenthesis stands ahead there are no arguments. -/
def arguments (rules : Rules) : Rule (List SourceExpr) := do
  if ← nextIs .rightParen then
    return []
  else
    withComma false do argumentsFrom rules 0 (← get).ahead

def callEnd (rules : Rules) (callee : SourceExpr) : Rule SourceExpr := do
  let arguments ← arguments rules
  let paren ← expect .rightParen .argumentsEnd
  return .call callee paren arguments

def callFrom (rules : Rules) (callee : SourceExpr) : List Token → Rule SourceExpr
  | [] => return callee
  | _ :: bound => do
      if ← accept .leftParen then
        let call ← callEnd rules callee
        callFrom rules call bound
      else if ← accept .dot then
        let name ← expect .identifier .propertyName
        callFrom rules (.get callee name) bound
      else
        return callee

def call (rules : Rules) : Rule SourceExpr := do
  let callee ← primary rules
  callFrom rules callee (← get).ahead

-----
-- Levels

def unaryFrom (rules : Rules) : List Token → Rule SourceExpr
  | [] => call rules
  | _ :: bound => do
      match ← acceptAny? [.bang, .minus] with
      | none => call rules
      | some operator =>
          let operand ← unaryFrom rules bound
          return .unary operator operand

def unary (rules : Rules) : Rule SourceExpr := do
  unaryFrom rules (← get).ahead

def factor (rules : Rules) : Rule SourceExpr :=
  chain (acceptAny? [.slash, .star]) (unary rules) .binary

def term (rules : Rules) : Rule SourceExpr :=
  chain (acceptAny? [.minus, .plus]) (factor rules) .binary

def comparison (rules : Rules) : Rule SourceExpr :=
  chain (acceptAny? [.greater, .greaterEqual, .less, .lessEqual]) (term rules) .binary

def equality (rules : Rules) : Rule SourceExpr :=
  chain (acceptAny? [.bangEqual, .equalEqual]) (comparison rules) .binary

/-- Conditionals do not chain: each branch is an equality. -/
def conditional (rules : Rules) : Rule SourceExpr := do
  let condition ← equality rules
  if ← accept .question then
    let thenCase ← equality rules
    let _ ← expect .colon .elseOperand
    let elseCase ← equality rules
    return .conditional condition thenCase elseCase
  else
    return condition

def commaOperator? : Rule (Option Token) := do
  if (← get).commaEnabled then accept? .comma else return none

def comma (rules : Rules) : Rule SourceExpr :=
  chain commaOperator? (conditional rules) .binary

def logicAnd (rules : Rules) : Rule SourceExpr :=
  chain (accept? .andWord) (comma rules) .logical

def logicOr (rules : Rules) : Rule SourceExpr :=
  chain (accept? .orWord) (logicAnd rules) .logical

/-- Assigning to anything but a variable or property is reported, and the value is dropped. -/
def assignmentTo (target : SourceExpr) (equals : Token) (value : SourceExpr)
    : Rule SourceExpr :=
  match target with
  | .variable name => return .assign name value
  | .get object name => return .set object name value
  | target => do
      report equals .invalidAssignmentTarget
      return target

def assignmentFrom (rules : Rules) : List Token → Rule SourceExpr
  | [] => logicOr rules
  | _ :: bound => do
      let target ← logicOr rules
      match ← accept? .equal with
      | none => return target
      | some equals =>
          let value ← assignmentFrom rules bound
          assignmentTo target equals value

def expression (rules : Rules) : Rule SourceExpr := do
  assignmentFrom rules (← get).ahead

end Lox.Grammar
