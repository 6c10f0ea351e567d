import Lox.Value.Basic

/-! Errors that end a run, and the operators that can raise them. -/

namespace Lox

-----
-- Runtime errors

/-- What went wrong. The token at which it went wrong is kept beside it. -/
inductive RuntimeProblem where
  | undefinedVariable
  | undefinedProperty
  | superclassNotClass
  | operandNotNumber
  | operandsNotNumbers
  | invalidAddition
  | unknownUnaryOperator
  | unknownBinaryOperator
  | propertyOfNonInstance
  | fieldOfNonInstance
  | notCallable
  | wrongArity (expected actual : Nat)
  | stackOverflow
deriving DecidableEq, Repr

/-- A problem, and the token it is blamed on. -/
structure RuntimeError where
  token : Token
  problem : RuntimeProblem
deriving DecidableEq, Repr

namespace RuntimeError

def message (error : RuntimeError) : String :=
  let lexeme := error.token.lexeme
  match error.problem with
  | .undefinedVariable => "Undefined variable '" ++ lexeme ++ "'."
  | .undefinedProperty => "Undefined property '" ++ lexeme ++ "'."
  | .superclassNotClass => "Superclass must be a class."
  | .operandNotNumber => "Operand of '" ++ lexeme ++ "' must be a number."
  | .operandsNotNumbers => "Operands of '" ++ lexeme ++ "' must be numbers."
  | .invalidAddition => "Operands of '+' must be two numbers or include a string."
  | .unknownUnaryOperator => "Unknown unary operator '" ++ lexeme ++ "'."
  | .unknownBinaryOperator => "Unknown binary operator '" ++ lexeme ++ "'."
  | .propertyOfNonInstance => "Only instances have properties."
  | .fieldOfNonInstance => "Only instances have fields."
  | .notCallable => "Can only call functions and classes."
  | .wrongArity expected actual =>
      "Expected " ++ toString expected ++ " arguments but got " ++ toString actual ++ "."
  | .stackOverflow => "Stack overflow."

def text (error : RuntimeError) : String :=
  error.message ++ "\n[line " ++ toString error.token.line ++ "]"

end RuntimeError

-----
-- Operators

namespace Value

/-- Applies an operator in front of its operand. -/
def applyUnary (operator : Token) (operand : Value) : Except RuntimeError Value :=
  match operator.kind, operand with
  | .bang, operand => .ok (.boolean !operand.isTruthy)
  | .minus, .number value => .ok (.number (-value))
  | .minus, _ => .error ⟨operator, .operandNotNumber⟩
  | _, _ => .error ⟨operator, .unknownUnaryOperator⟩

/-- Numbers are added. If either side is a string, the texts of both are joined. -/
def add (operator : Token) : Value → Value → Except RuntimeError Value
  | .number a, .number b => .ok (.number (a + b))
  | .string a, right => .ok (.string (a ++ right.text))
  | left, .string b => .ok (.string (left.text ++ b))
  | _, _ => .error ⟨operator, .invalidAddition⟩

/-- Operators on two numbers. Division by zero gives an infinity or not-a-number. -/
def applyNumeric (operator : Token) (a b : Float) : Except RuntimeError Value :=
  match operator.kind with
  | .minus => .ok (.number (a - b))
  | .star => .ok (.number (a * b))
  | .slash => .ok (.number (a / b))
  | .greater => .ok (.boolean (b < a))
  | .greaterEqual => .ok (.boolean (b ≤ a))
  | .less => .ok (.boolean (a < b))
  | .lessEqual => .ok (.boolean (a ≤ b))
  | _ => .error ⟨operator, .unknownBinaryOperator⟩

/-- Applies an operator between its operands. The comma yields its right operand. -/
def applyBinary (operator : Token) (left right : Value) : Except RuntimeError Value :=
  match operator.kind with
  | .comma => .ok right
  | .equalEqual => .ok (.boolean (left.equal right))
  | .bangEqual => .ok (.boolean !left.equal right)
  | .plus => add operator left right
  | _ =>
      match left, right with
      | .number a, .number b => applyNumeric operator a b
      | _, _ => .error ⟨operator, .operandsNotNumbers⟩

end Value

end Lox
