import Lox.Command.Arguments
import Lox.Session
import Lox.Syntax.Listing

/-! What an invocation of the command writes, and the code it exits with. -/

namespace Lox.Command

-----
-- Results

/-- All that can be seen of a run of the command. -/
structure Outcome where
  exitCode : Nat
  out : String
  err : String
  /-- The text of the trace file, if one is made. -/
  trace : Option String
deriving DecidableEq, Repr

def usage : String :=
  "usage: lox [-h] [-v] [--print-ast STYLE] [script]\n"

def helpText : String :=
  usage ++ "\nLox language interpreter\n\n"
    ++ "positional arguments:\n"
    ++ "  script             Lox script (.lox) to execute\n\n"
    ++ "options:\n"
    ++ "  -h, --help         show this help message and exit\n"
    ++ "  -v                 increase debug verbosity (can be repeated)\n"
    ++ "  --print-ast STYLE  print expression statements as infix or rpn instead of\n"
    ++ "                     running\n"

def Refusal.outcome (refusal : Refusal) : Outcome :=
  match refusal with
  | .help => { exitCode := 0, out := helpText, err := "", trace := none }
  | refusal =>
      {
        exitCode := 2,
        out := "",
        err := usage ++ "lox: error: " ++ refusal.reason ++ "\n",
        trace := none
      }

-----
-- Text files

/-- Every kind of line end becomes a newline. -/
def unifyNewlines : List Char → List Char
  | [] => []
  | '\r' :: '\n' :: rest => '\n' :: unifyNewlines rest
  | '\r' :: rest => '\n' :: unifyNewlines rest
  | c :: rest => c :: unifyNewlines rest

/-- The lines of a text. Only a newline ends one, and the last line needs none. -/
def splitLines : List Char → List (List Char)
  | [] => []
  | '\n' :: rest => [] :: splitLines rest
  | c :: rest =>
      match splitLines rest with
      | [] => [[c]]
      | line :: lines => (c :: line) :: lines

/-- The parts of a path between its slashes. -/
def splitPath : List Char → List (List Char)
  | [] => [[]]
  | '/' :: rest => [] :: splitPath rest
  | c :: rest =>
      match splitPath rest with
      | [] => [[c]]
      | part :: parts => (c :: part) :: parts

/-- What a path begins with. Two slashes are kept apart from one. -/
def pathRoot : List Char → String
  | '/' :: '/' :: '/' :: _ => "/"
  | '/' :: '/' :: _ => "//"
  | '/' :: _ => "/"
  | _ => ""

/-- A path without empty parts and without parts that stay where they are. -/
def tidyPath (path : String) : String :=
  let parts := (splitPath path.toList).filter fun part => !part.isEmpty && part ≠ ['.']
  let tidy := pathRoot path.toList ++ "/".intercalate (parts.map String.ofList)
  if tidy.isEmpty then "." else tidy

def missingFile (path : String) : Outcome :=
  {
    exitCode := 66,
    out := "",
    err := "Error: file " ++ tidyPath path ++ " not found\n",
    trace := none
  }

-----
-- Scripts and listings

def traceOf (traceLevel : Nat) (machine : Machine) : Option String :=
  if traceLevel = 0 then none else some (traceText machine.fileTrace)

def runScript (limits : Limits) (start : Machine) (source : String) : Outcome :=
  let (report, after) := start.runSource limits false source
  {
    exitCode := report.exitCode,
    out := report.outText,
    err := report.errorText,
    trace := traceOf start.traceLevel after
  }

def ListingStyle.text (style : ListingStyle) (expression : BoundExpr) : String :=
  match style with
  | .parenthesized => expression.parenthesized
  | .reversePolish => expression.reversePolish

def listedExpression? : BoundStmt → Option BoundExpr
  | .expression value => some value
  | _ => none

/-- Lists the expression statements of a text that has no errors. No name counts as known. -/
def listSource (limits : Limits) (style : ListingStyle) (source : String) : Outcome :=
  let program := Program.ofSource false [] source limits.depth
  if program.accepted then
    let expressions := program.statements.filterMap listedExpression?
    { exitCode := 0, out := Report.lines (expressions.map style.text), err := "", trace := none }
  else
    {
      exitCode := 65,
      out := "",
      err := Report.lines (program.errors.map Diagnostic.text),
      trace := none
    }

-----
-- The prompt

/-- What the prompt has written, and the machine that all turns share. -/
structure Dialogue where
  machine : Machine
  out : String
  err : String

def promptText : String := "> "

def Dialogue.start (machine : Machine) : Dialogue :=
  { machine, out := "", err := "" }

/-- One turn: a line is asked for and run. Errors do not end the dialogue. -/
def Dialogue.turn (limits : Limits) (dialogue : Dialogue) (line : String) : Dialogue :=
  let (report, after) := dialogue.machine.runSource limits true line
  {
    machine := after,
    out := dialogue.out ++ promptText ++ report.outText,
    err := dialogue.err ++ report.errorText
  }

/-- The last prompt is answered by the end of the input. -/
def runPrompt (limits : Limits) (start : Machine) (input : String) : Outcome :=
  let lines := (splitLines input.toList).map String.ofList
  let dialogue := lines.foldl (Dialogue.turn limits) (.start start)
  {
    exitCode := 0,
    out := dialogue.out ++ promptText ++ "\n",
    err := dialogue.err,
    trace := traceOf start.traceLevel dialogue.machine
  }

-----
-- Invocations

/-- What a command may read: scripts by their tidied paths, lines of input, and a clock. -/
structure Surroundings where
  file? : String → Option String
  input : String
  /-- What the clock shows when it is read for the first time, the second time and so on, in seconds
  since the epoch. -/
  readings : Nat → Float

/-- The text of a script, with unified newlines. -/
def Surroundings.script? (surroundings : Surroundings) (path : String) : Option String :=
  (surroundings.file? (tidyPath path)).map fun text =>
    String.ofList (unifyNewlines text.toList)

def Invocation.run (limits : Limits) (surroundings : Surroundings) : Invocation → Outcome
  | .prompt traceLevel =>
      runPrompt limits (.start traceLevel surroundings.readings) surroundings.input
  | .script traceLevel path =>
      match surroundings.script? path with
      | none => missingFile path
      | some source => runScript limits (.start traceLevel surroundings.readings) source
  | .listing style path =>
      match surroundings.script? path with
      | none => missingFile path
      | some source => listSource limits style source

/-- Runs the command with the given arguments. -/
def run (limits : Limits) (surroundings : Surroundings) (arguments : List String) : Outcome :=
  match Invocation.ofArguments arguments with
  | .error refusal => refusal.outcome
  | .ok invocation => invocation.run limits surroundings

end Lox.Command
