import Lox.Binding.Bind
import Lox.Grammar.Program
import Lox.Token.Scan

/-! From source text to a program that can run.

Lexical errors are reported alone, and so are syntax errors. Only a text without either is bound,
and then errors and warnings are reported together in the order of their lines.
-/

namespace Lox

-----
-- Order of reports

/-- Puts a diagnostic behind all that stand on its line or above. -/
def Diagnostic.insertByLine (diagnostic : Diagnostic) : List Diagnostic → List Diagnostic
  | [] => [diagnostic]
  | first :: rest =>
      if first.line ≤ diagnostic.line then first :: insertByLine diagnostic rest
      else diagnostic :: first :: rest

/-- Sorts by line. Diagnostics of one line keep their order. -/
def Diagnostic.sortByLine (diagnostics : List Diagnostic) : List Diagnostic :=
  diagnostics.foldl (fun sorted diagnostic => diagnostic.insertByLine sorted) []

-----
-- Programs

/-- The statements of a text, none if it could not be read, and all that is to be reported. -/
structure Program where
  statements : List BoundStmt
  diagnostics : List Diagnostic

def Program.errors (program : Program) : List Diagnostic :=
  program.diagnostics.filter Diagnostic.isError

def Program.warnings (program : Program) : List Diagnostic :=
  program.diagnostics.filter fun diagnostic => !diagnostic.isError

/-- A program without errors may run. -/
def Program.accepted (program : Program) : Bool :=
  program.errors.isEmpty

/-- A program that could not be read. -/
def Program.unreadable (errors : List Diagnostic) : Program :=
  { statements := [], diagnostics := errors }

/-- The program of a source text, given the names that are already defined globally and how deeply
its declarations may be nested. -/
def Program.ofSource (allowExpression : Bool) (knownGlobals : List String) (source : String)
    (depth : Nat := Grammar.standardDepth)
    : Program :=
  let scanned := scan source
  if !scanned.errors.isEmpty then
    .unreadable scanned.errors
  else
    let parsed := parse allowExpression scanned.tokens depth
    if !parsed.errors.isEmpty then
      .unreadable parsed.errors
    else
      let bound := bind knownGlobals parsed.statements
      {
        statements := bound.statements,
        diagnostics := Diagnostic.sortByLine (bound.errors ++ bound.warnings)
      }

end Lox
