import Lox.Machine.Execute
import Lox.Program

/-! Running source texts, one after another, on one machine. -/

namespace Lox

/-- How far a machine goes. -/
structure Limits where
  /-- How many levels of evaluation may be nested. -/
  nesting : Nat
  /-- How many rounds a loop may take. -/
  rounds : Nat
  /-- How many rules of the grammar may be open inside a declaration. -/
  depth : Nat := Grammar.standardDepth

/-- Loops may take more rounds than any run can wait for. -/
def Limits.standard : Limits :=
  { nesting := 10000, rounds := 1 <<< 62 }

/-- What is to be told about one run of a source text. -/
structure Report where
  diagnostics : List Diagnostic
  /-- What the program printed. -/
  output : String
  /-- What ended the run early. -/
  fault : Option Fault

namespace Report

def errors (report : Report) : List Diagnostic :=
  report.diagnostics.filter Diagnostic.isError

def warnings (report : Report) : List Diagnostic :=
  report.diagnostics.filter fun diagnostic => !diagnostic.isError

def exitCode (report : Report) : Nat :=
  if !report.errors.isEmpty then 65
  else if report.fault.isSome then 70
  else 0

def lines (texts : List String) : String :=
  String.join (texts.map fun text => text ++ "\n")

/-- Warnings come before what the program prints. -/
def outText (report : Report) : String :=
  lines (report.warnings.map Diagnostic.text) ++ report.output

def errorText (report : Report) : String :=
  lines (report.errors.map Diagnostic.text ++ report.fault.toList.map Fault.text)

end Report

namespace Machine

/-- The names that are defined globally. -/
def globalNames (machine : Machine) : List String :=
  machine.scopes.names globalScope

/-- Runs a program that was accepted. -/
def runProgram (limits : Limits) (program : Program) (machine : Machine) : Report × Machine :=
  let evaluator := Evaluator.ofNesting limits.rounds limits.nesting
  match evaluator.executeProgram program.statements { machine with output := "" } with
  | .ok _ after =>
      ({ diagnostics := program.diagnostics, output := after.output, fault := none }, after)
  | .error fault after =>
      ({ diagnostics := program.diagnostics, output := after.output, fault := some fault }, after)

/-- Runs a source text. A text with errors is reported and leaves the machine alone. -/
def runSource (limits : Limits) (allowExpression : Bool) (source : String) (machine : Machine)
    : Report × Machine :=
  let program := Program.ofSource allowExpression machine.globalNames source limits.depth
  if program.accepted then
    machine.runProgram limits program
  else
    ({ diagnostics := program.diagnostics, output := "", fault := none }, machine)

/-- Runs source texts one after another, each with or without a trailing expression allowed. -/
def runSession (limits : Limits) : List (Bool × String) → Machine → List Report × Machine
  | [], machine => ([], machine)
  | (allowExpression, source) :: rest, machine =>
      let (report, after) := machine.runSource limits allowExpression source
      let (reports, last) := after.runSession limits rest
      (report :: reports, last)

end Machine

end Lox
