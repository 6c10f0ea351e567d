import Lox.Grammar.Statement

/-! Programs: the grammar unfolded to some depth, applied to a whole token list. -/

namespace Lox.Grammar

/-- How many rules may be open inside a declaration, where no other limit is set. -/
def standardDepth : Nat := 1000

/-- The rules for places that may nest so many rules more. -/
def rules (allowExpression : Bool) : Nat → Rules
  | 0 => .exhausted
  | nesting + 1 =>
      let nested := rules allowExpression nesting
      {
        expression := expression nested
        statement := statement allowExpression nested
        declaration := declaration allowExpression nested
      }

/-- A text is read as declarations, in which so many rules may be open inside one another. -/
def program (allowExpression : Bool) (depth : Nat) : Rule (List SourceStmt) := do
  declarationsUntil Cursor.atEnd (rules allowExpression (depth + 1)).declaration (← get).ahead

end Lox.Grammar

namespace Lox

/-- The statements that could be read, and every mistake found on the way. -/
structure Parse where
  statements : List Grammar.SourceStmt
  errors : List Diagnostic

/-- Reads a token list that the end of input closes. A declaration with a mistake is left out, and
so is one that is nested more deeply than the depth. -/
def parse (allowExpression : Bool) (tokens : List Token) (depth : Nat := Grammar.standardDepth)
    : Parse :=
  match Grammar.program allowExpression depth (Grammar.Cursor.start tokens) with
  | .ok statements after => { statements, errors := after.errors }
  | .error _ after => { statements := [], errors := after.errors }

end Lox
