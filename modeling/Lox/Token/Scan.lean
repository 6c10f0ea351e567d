import Lox.Diagnostic
import Lox.Token.Segment

/-! The tokens of a source text, and what is wrong with its characters.

Lines are counted from one. A segment lies between the line it starts on and the line it ends on;
a token is placed at the latter, and an open comment at the former.
-/

namespace Lox

-----
-- Segments placed on lines

/-- A segment and the line it starts on. -/
structure PlacedSegment where
  segment : Segment
  startLine : Nat
deriving DecidableEq, Repr

def Segment.newlines (segment : Segment) : Nat :=
  segment.text.count '\n'

def PlacedSegment.endLine (placed : PlacedSegment) : Nat :=
  placed.startLine + placed.segment.newlines

/-- Places consecutive segments, the first of which starts on the given line. -/
def Segment.place (line : Nat) : List Segment → List PlacedSegment
  | [] => []
  | segment :: rest => ⟨segment, line⟩ :: place (line + segment.newlines) rest

-----
-- Tokens and problems of segments

/-- Digits with an optional fraction denote the nearest double. -/
def Literal.ofNumberLexeme (text : List Char) : Literal :=
  .number
    (Number.ofDecimal (text.takeWhile Number.isDigit)
      ((text.dropWhile Number.isDigit).drop 1) 0)

/-- A string denotes the text between its quotes. -/
def Literal.ofStringLexeme (text : List Char) : Literal :=
  .string (String.ofList ((text.drop 1).dropLast))

def Literal.ofLexeme? (kind : TokenKind) (text : List Char) : Option Literal :=
  match kind with
  | .number => some (.ofNumberLexeme text)
  | .string => some (.ofStringLexeme text)
  | _ => none

def PlacedSegment.token? (placed : PlacedSegment) : Option Token :=
  match placed.segment with
  | .lexeme kind text =>
      some
        {
          kind,
          lexeme := String.ofList text,
          literal := Literal.ofLexeme? kind text,
          line := placed.endLine
        }
  | _ => none

def PlacedSegment.diagnostic? (placed : PlacedSegment) : Option Diagnostic :=
  match placed.segment with
  | .unexpected c => some ⟨placed.endLine, .line, .unexpectedCharacter c⟩
  | .openString _ => some ⟨placed.endLine, .line, .unterminatedString⟩
  | .openComment _ => some ⟨placed.startLine, .line, .unterminatedComment⟩
  | _ => none

-----
-- Scanning

/-- The tokens of a text, closed by the end of input, and its lexical errors. -/
structure Scan where
  tokens : List Token
  errors : List Diagnostic
deriving DecidableEq, Repr

/-- Scanning never stops early: every lexical error of the text is found in one pass. -/
def scan (source : String) : Scan :=
  let placed := Segment.place 1 (Segment.split source.toList)
  let lastLine := 1 + source.toList.count '\n'
  {
    tokens := placed.filterMap PlacedSegment.token? ++ [Token.endOfInput lastLine],
    errors := placed.filterMap PlacedSegment.diagnostic?
  }

end Lox
