import Lox.Token.Basic

/-! Mistakes and warnings that are found before a program runs. -/

namespace Lox

-----
-- Causes

/-- What a named function is declared as. -/
inductive FunctionRole where
  | function
  | method
deriving DecidableEq, Repr

def FunctionRole.label : FunctionRole → String
  | .function => "function"
  | .method => "method"

/-- What the grammar calls for at a place where something else stands. -/
inductive Expected where
  | className
  | superclassName
  | classBody
  | classEnd
  | functionName (role : FunctionRole)
  | parametersAfterName (role : FunctionRole)
  | parameterName
  | parametersEnd
  | functionBody (role : FunctionRole)
  | variableName
  | variableEnd
  | blockEnd
  | forClauses
  | loopConditionEnd
  | forClausesEnd
  | ifCondition
  | ifConditionEnd
  | whileCondition
  | whileConditionEnd
  | breakEnd
  | returnEnd
  | printEnd
  | expressionEnd
  | elseOperand
  | propertyName
  | argumentsEnd
  | superMember
  | superMethodName
  | expression
  | arrow
  | groupEnd
  | arrowBody
deriving DecidableEq, Repr

/-- A brace in these texts is written by its code. -/
def Expected.text : Expected → String
  | .className => "class name"
  | .superclassName => "superclass name"
  | .classBody => "'\x7b' before class body"
  | .classEnd => "'\x7d' after class body"
  | .functionName role => role.label ++ " name"
  | .parametersAfterName role => "'(' after " ++ role.label ++ " name"
  | .parameterName => "parameter name"
  | .parametersEnd => "')' after parameters"
  | .functionBody role => "'\x7b' before " ++ role.label ++ " body"
  | .variableName => "variable name"
  | .variableEnd => "';' after variable declaration"
  | .blockEnd => "'\x7d' after block"
  | .forClauses => "'(' after 'for'"
  | .loopConditionEnd => "';' after loop condition"
  | .forClausesEnd => "')' after for clauses"
  | .ifCondition => "'(' after 'if'"
  | .ifConditionEnd => "')' after if condition"
  | .whileCondition => "'(' after 'while'"
  | .whileConditionEnd => "')' after condition"
  | .breakEnd => "';' after 'break'"
  | .returnEnd => "';' after return value"
  | .printEnd => "';' after value"
  | .expressionEnd => "';' after expression"
  | .elseOperand => "':' after then branch of conditional expression"
  | .propertyName => "property name after '.'"
  | .argumentsEnd => "')' after arguments"
  | .superMember => "'.' after 'super'"
  | .superMethodName => "superclass method name"
  | .expression => "expression"
  | .arrow => "'->' after empty parameter list"
  | .groupEnd => "')' after expression"
  | .arrowBody => "'\x7b' before arrow function body"

/-- The most arguments a call and the most parameters a function may have. -/
def maxArguments : Nat := 255

/-- Everything that can be reported about a source text. -/
inductive Problem where
  | unexpectedCharacter (c : Char)
  | unterminatedString
  | unterminatedComment
  | expected (item : Expected)
  | invalidAssignmentTarget
  | invalidParameterList
  | tooManyArguments
  | tooManyParameters
  | tooMuchNesting
  | breakOutsideLoop
  | returnOutsideFunction
  | readInOwnInitializer
  | selfInheritance
  | thisOutsideClass
  | superOutsideClass
  | superWithoutSuperclass
  | unusedLocal (name : String)
deriving DecidableEq, Repr

def Problem.message : Problem → String
  | .unexpectedCharacter c => "Unexpected character '" ++ c.toString ++ "'."
  | .unterminatedString => "Unterminated string."
  | .unterminatedComment => "Unterminated block comment."
  | .expected item => "Expect " ++ item.text ++ "."
  | .invalidAssignmentTarget => "Invalid assignment target."
  | .invalidParameterList => "Invalid parameter list."
  | .tooManyArguments => "Can't have more than " ++ toString maxArguments ++ " arguments."
  | .tooManyParameters => "Can't have more than " ++ toString maxArguments ++ " parameters."
  | .tooMuchNesting => "Too much nesting."
  | .breakOutsideLoop => "Can't use 'break' outside of a loop."
  | .returnOutsideFunction => "Can't return from top-level code."
  | .readInOwnInitializer => "Can't read local variable in its own initializer."
  | .selfInheritance => "A class can't inherit from itself."
  | .thisOutsideClass => "Can't use 'this' outside of a class."
  | .superOutsideClass => "Can't use 'super' outside of a class."
  | .superWithoutSuperclass => "Can't use 'super' in a class with no superclass."
  | .unusedLocal name => "Local variable '" ++ name ++ "' is never used."

/-- An error keeps a program from running, and a warning does not. -/
inductive Severity where
  | error
  | warning
deriving DecidableEq, Repr

def Severity.label : Severity → String
  | .error => "Error"
  | .warning => "Warning"

/-- An unused local is the only thing a program may run in spite of. -/
def Problem.severity : Problem → Severity
  | .unusedLocal _ => .warning
  | _ => .error

-----
-- Diagnostics

/-- Where on its line a problem was found. Problems of single characters name no place. -/
inductive Site where
  | line
  | atEnd
  | atLexeme (lexeme : String)
deriving DecidableEq, Repr

def Site.text : Site → String
  | .line => ""
  | .atEnd => " at end"
  | .atLexeme lexeme => " at '" ++ lexeme ++ "'"

def Site.ofToken (token : Token) : Site :=
  if token.kind = .endOfInput then .atEnd else .atLexeme token.lexeme

/-- A problem, and the place in the text where it was found. -/
structure Diagnostic where
  line : Nat
  site : Site
  problem : Problem
deriving DecidableEq, Repr

def Diagnostic.atToken (token : Token) (problem : Problem) : Diagnostic :=
  { line := token.line, site := .ofToken token, problem }

def Diagnostic.severity (diagnostic : Diagnostic) : Severity :=
  diagnostic.problem.severity

def Diagnostic.isError (diagnostic : Diagnostic) : Bool :=
  diagnostic.severity = .error

def Diagnostic.text (diagnostic : Diagnostic) : String :=
  "[line " ++ toString diagnostic.line ++ "] " ++ diagnostic.severity.label
    ++ diagnostic.site.text ++ ": " ++ diagnostic.problem.message

end Lox
