import Lox.Syntax.Basic

/-! Two texts that show the structure of an expression.

The parenthesized text puts every operator in front of its operands, inside parentheses. The
reverse Polish text puts it behind them, as words with single blanks between them.
-/

namespace Lox

variable {ρ : Type}

def words (parts : List String) : String :=
  " ".intercalate parts

def parenthesize (parts : List String) : String :=
  "(" ++ words parts ++ ")"

-----
-- Operators in front

mutual
def Expr.parenthesized : Expr ρ → String
  | .literal value => value.text
  | .grouping inner => parenthesize ["group", inner.parenthesized]
  | .unary operator operand => parenthesize [operator.lexeme, operand.parenthesized]
  | .binary left operator right =>
      parenthesize [operator.lexeme, left.parenthesized, right.parenthesized]
  | .logical left operator right =>
      parenthesize [operator.lexeme, left.parenthesized, right.parenthesized]
  | .conditional condition thenCase elseCase =>
      parenthesize
        ["?:", condition.parenthesized, thenCase.parenthesized, elseCase.parenthesized]
  | .variable target => target.name.lexeme
  | .assign target value => parenthesize ["=", target.name.lexeme, value.parenthesized]
  | .call callee _ arguments =>
      parenthesize ("call" :: callee.parenthesized :: parenthesizedArguments arguments)
  | .get object name => parenthesize [".", object.parenthesized, name.lexeme]
  | .set object name value =>
      parenthesize
        ["=", parenthesize [".", object.parenthesized, name.lexeme], value.parenthesized]
  | .this _ => "this"
  | .super _ method => parenthesize ["super", method.lexeme]
  | .function function =>
      parenthesize ["fun", parenthesize (function.parameters.map (·.lexeme))]

def parenthesizedArguments : List (Expr ρ) → List String
  | [] => []
  | argument :: rest => argument.parenthesized :: parenthesizedArguments rest
end

-----
-- Operators behind

/-- Negation is told apart from subtraction. -/
def unaryWord (operator : Token) : String :=
  if operator.kind = .minus then "~" else operator.lexeme

mutual
def Expr.reversePolishWords : Expr ρ → List String
  | .literal value => [value.text]
  | .grouping inner => inner.reversePolishWords
  | .unary operator operand => operand.reversePolishWords ++ [unaryWord operator]
  | .binary left operator right =>
      left.reversePolishWords ++ right.reversePolishWords ++ [operator.lexeme]
  | .logical left operator right =>
      left.reversePolishWords ++ right.reversePolishWords ++ [operator.lexeme]
  | .conditional condition thenCase elseCase =>
      condition.reversePolishWords ++ thenCase.reversePolishWords
        ++ elseCase.reversePolishWords ++ ["?:"]
  | .variable target => [target.name.lexeme]
  | .assign target value => value.reversePolishWords ++ [target.name.lexeme, "="]
  | .call callee _ arguments =>
      callee.reversePolishWords ++ reversePolishArguments arguments
        ++ ["call/" ++ toString arguments.length]
  | .get object name => object.reversePolishWords ++ [name.lexeme, "."]
  | .set object name value =>
      object.reversePolishWords ++ value.reversePolishWords ++ [name.lexeme, ".="]
  | .this _ => ["this"]
  | .super _ method => ["super", method.lexeme, "."]
  | .function function =>
      function.parameters.map (·.lexeme)
        ++ ["fun/" ++ toString function.parameters.length]

def reversePolishArguments : List (Expr ρ) → List String
  | [] => []
  | argument :: rest => argument.reversePolishWords ++ reversePolishArguments rest
end

def Expr.reversePolish (expression : Expr ρ) : String :=
  words expression.reversePolishWords

end Lox
