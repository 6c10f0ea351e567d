import Lox.Token.Basic

/-! Source text as consecutive segments.

A segment is a blank, a comment, a lexeme, one unexpected character, or a string or comment that
is left open up to the end of the text. Every lexeme is the longest one at its position.
-/

namespace Lox

-----
-- Segments

/-- A stretch of text that is read as one. -/
inductive Segment where
  | blank (c : Char)
  /-- The newline behind a line comment is not part of it. -/
  | lineComment (text : List Char)
  | blockComment (text : List Char)
  | lexeme (kind : TokenKind) (text : List Char)
  | unexpected (c : Char)
  | openString (text : List Char)
  | openComment (text : List Char)
deriving DecidableEq, Repr

namespace Segment

open Number (isDigit)

/-- The stretch of source text that a segment covers. -/
def text : Segment → List Char
  | .blank c | .unexpected c => [c]
  | .lineComment text | .blockComment text | .lexeme _ text | .openString text
  | .openComment text => text

-----
-- Character classes

def isBlank (c : Char) : Bool :=
  c == ' ' || c == '\t' || c == '\r' || c == '\n'

/-- Words are made of unaccented letters, digits and underscores. -/
def isLetter (c : Char) : Bool :=
  ('a' ≤ c && c ≤ 'z') || ('A' ≤ c && c ≤ 'Z') || c == '_'

def isWordChar (c : Char) : Bool :=
  isLetter c || isDigit c

-----
-- The segment at the front of a text

def oneCharOperator? : Char → Option TokenKind
  | '(' => some .leftParen
  | ')' => some .rightParen
  | '{' => some .leftBrace
  | '}' => some .rightBrace
  | ',' => some .comma
  | '.' => some .dot
  | '-' => some .minus
  | '+' => some .plus
  | ';' => some .semicolon
  | '/' => some .slash
  | '*' => some .star
  | '?' => some .question
  | ':' => some .colon
  | '!' => some .bang
  | '=' => some .equal
  | '>' => some .greater
  | '<' => some .less
  | _ => none

def twoCharOperator? : Char → Char → Option TokenKind
  | '!', '=' => some .bangEqual
  | '=', '=' => some .equalEqual
  | '<', '=' => some .lessEqual
  | '>', '=' => some .greaterEqual
  | '-', '>' => some .arrow
  | _, _ => none

/-- Two characters are preferred to one. -/
def operator? (c : Char) (rest : List Char) : Option Segment :=
  match rest.head?.bind fun second => (twoCharOperator? c second).map (·, second) with
  | some (kind, second) => some (.lexeme kind [c, second])
  | none => (oneCharOperator? c).map (.lexeme · [c])

/-- The text up to and with the first `*/`, if there is one. -/
def throughCommentEnd? : List Char → Option (List Char)
  | [] => none
  | '*' :: '/' :: _ => some ['*', '/']
  | c :: rest => (throughCommentEnd? rest).map (c :: ·)

def blockCommentOrOpen (rest : List Char) : Segment :=
  match throughCommentEnd? rest with
  | some body => .blockComment ('/' :: '*' :: body)
  | none => .openComment ('/' :: '*' :: rest)

/-- A string ends at the next quote, whatever stands before it. -/
def stringOrOpen (rest : List Char) : Segment :=
  let body := rest.takeWhile (· != '"')
  match rest.dropWhile (· != '"') with
  | [] => .openString ('"' :: rest)
  | quote :: _ => .lexeme .string ('"' :: (body ++ [quote]))

/-- A point belongs to a number only when a digit follows it. -/
def fraction (rest : List Char) : List Char :=
  match rest with
  | '.' :: digit :: more =>
      if isDigit digit then '.' :: digit :: more.takeWhile isDigit else []
  | _ => []

def number (digit : Char) (rest : List Char) : Segment :=
  .lexeme .number
    (digit :: (rest.takeWhile isDigit ++ fraction (rest.dropWhile isDigit)))

def word (letter : Char) (rest : List Char) : Segment :=
  let text := letter :: rest.takeWhile isWordChar
  .lexeme (TokenKind.ofWord (String.ofList text)) text

/-- The segment that a text starts with. -/
def first (c : Char) (rest : List Char) : Segment :=
  if isBlank c then .blank c
  else if isDigit c then number c rest
  else if isLetter c then word c rest
  else
    match c, rest with
    | '"', rest => stringOrOpen rest
    | '/', '/' :: comment => .lineComment ('/' :: '/' :: comment.takeWhile (· != '\n'))
    | '/', '*' :: comment => blockCommentOrOpen comment
    | c, rest => (operator? c rest).getD (.unexpected c)

-----
-- The whole text

/-- Splits a text whose first `covered` characters belong to a segment already taken. -/
def splitFrom (covered : Nat) : List Char → List Segment
  | [] => []
  | c :: rest =>
      match covered with
      | remaining + 1 => splitFrom remaining rest
      | 0 =>
          let segment := first c rest
          segment :: splitFrom (segment.text.length - 1) rest

/-- The segments of a text, in order. -/
def split (source : List Char) : List Segment :=
  splitFrom 0 source

end Segment

end Lox
