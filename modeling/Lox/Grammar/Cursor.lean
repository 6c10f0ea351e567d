import Lox.Diagnostic
import Lox.Syntax.Basic

/-! Reading tokens: the tokens ahead, the mistakes found, and the context of the place reached.

A rule of the grammar either yields a tree or unwinds to the declaration it is part of. In both
cases the mistakes recorded so far are kept.
-/

namespace Lox.Grammar

/-- Trees that carry nothing at their references. -/
abbrev SourceExpr := Expr Unit

abbrev SourceStmt := Stmt Unit

-----
-- State

/-- The place that reading has reached. -/
structure Cursor where
  /-- The tokens not yet taken, the last of which is the end of input. -/
  ahead : List Token
  errors : List Diagnostic
  /-- How many loops of the innermost function surround the place. -/
  loopDepth : Nat
  /-- A comma is an operator here. Among call arguments it separates instead. -/
  commaEnabled : Bool

/-- At the start of a text no loop is open and a comma is an operator. -/
def Cursor.start (tokens : List Token) : Cursor :=
  { ahead := tokens, errors := [], loopDepth := 0, commaEnabled := true }

/-- Why a rule gave up. -/
inductive Unwinding where
  /-- A mistake was found and recorded. -/
  | mistake
  /-- The text is nested more deeply than the grammar is unfolded. -/
  | tooDeep
deriving DecidableEq

/-- A rule reads a part of the text and yields what it stands for. -/
abbrev Rule (α : Type) := EStateM Unwinding Cursor α

def Cursor.next (cursor : Cursor) : Token :=
  cursor.ahead.headD (Token.endOfInput 1)

def Cursor.atEnd (cursor : Cursor) : Bool :=
  cursor.next.kind = .endOfInput

/-- A token of one of the kinds stands ahead. The end of input is of no kind. -/
def Cursor.nextIsAny (cursor : Cursor) (kinds : List TokenKind) : Bool :=
  !cursor.atEnd && kinds.contains cursor.next.kind

/-- Where a block or a class body ends, with its brace or without. -/
def Cursor.atBlockEnd (cursor : Cursor) : Bool :=
  cursor.atEnd || cursor.nextIsAny [.rightBrace]

/-- The end of input is never passed. -/
def Cursor.drop (cursor : Cursor) : Cursor :=
  if cursor.atEnd then cursor else { cursor with ahead := cursor.ahead.tail }

def Cursor.report (cursor : Cursor) (token : Token) (problem : Problem) : Cursor :=
  { cursor with errors := cursor.errors ++ [Diagnostic.atToken token problem] }

-----
-- Taking tokens

def next : Rule Token :=
  return (← get).next

def atEnd : Rule Bool :=
  return (← get).atEnd

def nextIs (kind : TokenKind) : Rule Bool :=
  return (← get).nextIsAny [kind]

/-- Takes the next token if it is of one of the kinds. -/
def acceptAny? (kinds : List TokenKind) : Rule (Option Token) :=
  fun cursor =>
    if cursor.nextIsAny kinds then .ok (some cursor.next) cursor.drop else .ok none cursor

def accept? (kind : TokenKind) : Rule (Option Token) :=
  acceptAny? [kind]

/-- Takes the next token if it is of the kind, for rules that need to know no more. -/
def accept (kind : TokenKind) : Rule Bool :=
  return (← accept? kind).isSome

/-- Records a mistake and reads on. -/
def report (token : Token) (problem : Problem) : Rule Unit :=
  modify fun cursor => cursor.report token problem

/-- Records a mistake and gives the rule up. -/
def fail {α : Type} (token : Token) (problem : Problem) : Rule α := do
  report token problem
  throw .mistake

/-- Another item behind so many earlier ones may be one too many. It is read all the same. -/
def checkRoom (earlier : Nat) (problem : Problem) : Rule Unit := do
  if maxArguments ≤ earlier then
    report (← next) problem

/-- Takes the token that the grammar calls for. -/
def expect (kind : TokenKind) (item : Expected) : Rule Token := do
  match ← accept? kind with
  | some token => return token
  | none => fail (← next) (.expected item)

-----
-- Context

/-- Runs a rule in a changed context and takes the change back, also when the rule unwinds. How it
is taken back may depend on the cursor before. -/
def inContext {α : Type} (enter : Cursor → Cursor) (leave : Cursor → Cursor → Cursor)
    (rule : Rule α)
    : Rule α :=
  fun cursor =>
    match rule (enter cursor) with
    | .ok value after => .ok value (leave cursor after)
    | .error unwinding after => .error unwinding (leave cursor after)

def withComma {α : Type} (enabled : Bool) (rule : Rule α) : Rule α :=
  inContext
    (fun cursor => { cursor with commaEnabled := enabled })
    (fun before after => { after with commaEnabled := before.commaEnabled })
    rule

/-- A function starts outside of every loop. -/
def outsideLoops {α : Type} (rule : Rule α) : Rule α :=
  inContext
    (fun cursor => { cursor with loopDepth := 0 })
    (fun before after => { after with loopDepth := before.loopDepth })
    rule

def insideLoop {α : Type} (rule : Rule α) : Rule α :=
  inContext
    (fun cursor => { cursor with loopDepth := cursor.loopDepth + 1 })
    (fun _ after => { after with loopDepth := after.loopDepth - 1 })
    rule

-----
-- Recovery

/-- What is left after skipping to a statement: past a semicolon, or in front of a keyword. -/
def skipFrom (previous : Token) : List Token → List Token
  | [] => []
  | token :: rest =>
      if token.kind = .endOfInput || previous.kind = .semicolon || token.kind.startsStatement then
        token :: rest
      else
        skipFrom token rest

/-- The token at which a declaration failed is skipped whatever it is. -/
def Cursor.skipToStatement (cursor : Cursor) : Cursor :=
  if cursor.atEnd then cursor
  else { cursor with ahead := skipFrom cursor.next cursor.ahead.tail }

/-- Yields no statement when the rule unwinds, and goes on at the next statement. -/
def recovering (rule : Rule SourceStmt) : Rule (Option SourceStmt) :=
  fun cursor =>
    match rule cursor with
    | .ok statement after => .ok (some statement) after
    | .error .mistake after => .ok none after.skipToStatement
    | .error .tooDeep after => .ok none (after.report after.next .tooMuchNesting).skipToStatement

-----
-- Rules that nest

/-- The rules that other rules use for the parts they contain. -/
structure Rules where
  expression : Rule SourceExpr
  statement : Rule SourceStmt
  declaration : Rule (Option SourceStmt)

/-- Rules for a place where nothing may be nested any more. -/
def Rules.exhausted : Rules where
  expression := throw .tooDeep
  statement := throw .tooDeep
  declaration := throw .tooDeep

-----
-- Repetition

/-- Reads declarations up to a kind of token or the end of input. Each takes a token at least,
so the tokens ahead at the beginning bound the rounds. -/
def declarationsUntil (stop : Cursor → Bool) (declaration : Rule (Option SourceStmt))
    : List Token → Rule (List SourceStmt)
  | [] => return []
  | _ :: bound => do
      if stop (← get) then
        return []
      else
        let first ← declaration
        let rest ← declarationsUntil stop declaration bound
        return first.toList ++ rest

end Lox.Grammar
