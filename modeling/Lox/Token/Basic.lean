import Lox.Number.Text

/-! Tokens: what kinds there are, and what one token records. -/

namespace Lox

-----
-- Kinds

/-- Marks, names, literals, keywords, and the end of input. -/
inductive TokenKind where
  | leftParen
  | rightParen
  | leftBrace
  | rightBrace
  | comma
  | dot
  | minus
  | plus
  | semicolon
  | slash
  | star
  | question
  | colon
  | bang
  | bangEqual
  | equal
  | equalEqual
  | greater
  | greaterEqual
  | less
  | lessEqual
  | arrow
  | identifier
  | string
  | number
  | andWord
  | classWord
  | elseWord
  | falseWord
  | forWord
  | funWord
  | ifWord
  | nilWord
  | orWord
  | printWord
  | printlnWord
  | returnWord
  | superWord
  | thisWord
  | trueWord
  | varWord
  | whileWord
  | breakWord
  | endOfInput
deriving DecidableEq, Repr

/-- The name a kind has in a listing of tokens. -/
def TokenKind.label : TokenKind → String
  | .leftParen => "LEFT_PAREN"
  | .rightParen => "RIGHT_PAREN"
  | .leftBrace => "LEFT_BRACE"
  | .rightBrace => "RIGHT_BRACE"
  | .comma => "COMMA"
  | .dot => "DOT"
  | .minus => "MINUS"
  | .plus => "PLUS"
  | .semicolon => "SEMICOLON"
  | .slash => "SLASH"
  | .star => "STAR"
  | .question => "QUESTION"
  | .colon => "COLON"
  | .bang => "BANG"
  | .bangEqual => "BANG_EQUAL"
  | .equal => "EQUAL"
  | .equalEqual => "EQUAL_EQUAL"
  | .greater => "GREATER"
  | .greaterEqual => "GREATER_EQUAL"
  | .less => "LESS"
  | .lessEqual => "LESS_EQUAL"
  | .arrow => "ARROW"
  | .identifier => "IDENTIFIER"
  | .string => "STRING"
  | .number => "NUMBER"
  | .andWord => "AND"
  | .classWord => "CLASS"
  | .elseWord => "ELSE"
  | .falseWord => "FALSE"
  | .forWord => "FOR"
  | .funWord => "FUN"
  | .ifWord => "IF"
  | .nilWord => "NIL"
  | .orWord => "OR"
  | .printWord => "PRINT"
  | .printlnWord => "PRINTLN"
  | .returnWord => "RETURN"
  | .superWord => "SUPER"
  | .thisWord => "THIS"
  | .trueWord => "TRUE"
  | .varWord => "VAR"
  | .whileWord => "WHILE"
  | .breakWord => "BREAK"
  | .endOfInput => "EOF"

/-- The kind of a run of letters and digits: a keyword if the whole run is one. -/
def TokenKind.ofWord (word : String) : TokenKind :=
  match word with
  | "and" => .andWord
  | "class" => .classWord
  | "else" => .elseWord
  | "false" => .falseWord
  | "for" => .forWord
  | "fun" => .funWord
  | "if" => .ifWord
  | "nil" => .nilWord
  | "or" => .orWord
  | "print" => .printWord
  | "println" => .printlnWord
  | "return" => .returnWord
  | "super" => .superWord
  | "this" => .thisWord
  | "true" => .trueWord
  | "var" => .varWord
  | "while" => .whileWord
  | "break" => .breakWord
  | _ => .identifier

/-- Recovery from a mistake stops in front of a keyword that starts a statement. -/
def TokenKind.startsStatement : TokenKind → Bool
  | .classWord | .funWord | .varWord | .forWord | .ifWord | .whileWord | .printWord
  | .printlnWord | .returnWord => true
  | _ => false

-----
-- Literals

/-- The values that a source text can write down. -/
inductive Literal where
  | nil
  | boolean (value : Bool)
  | number (value : Float)
  | string (value : String)
deriving DecidableEq, Repr

/-- A number loses a final `.0` when a program prints it. -/
def numberText (value : Float) : String :=
  let text := (Number.text value).toList
  if text.reverse.take 2 = ['0', '.'] then String.ofList (text.take (text.length - 2))
  else String.ofList text

def Literal.text : Literal → String
  | .nil => "nil"
  | .boolean value => if value then "true" else "false"
  | .number value => numberText value
  | .string value => value

-----
-- Tokens

/-- A kind, the exact source text, the literal of a number or string, and the line of its end. -/
structure Token where
  kind : TokenKind
  lexeme : String
  literal : Option Literal
  line : Nat
deriving DecidableEq, Repr

/-- The token that closes every token list. -/
def Token.endOfInput (line : Nat) : Token :=
  { kind := .endOfInput, lexeme := "", literal := none, line }

/-- In a listing a number keeps its point, and a token without a literal shows none. -/
def Token.listing (token : Token) : String :=
  let literal :=
    match token.literal with
    | none => "None"
    | some (.number value) => Number.text value
    | some value => value.text
  token.kind.label ++ " " ++ token.lexeme ++ " " ++ literal

end Lox
