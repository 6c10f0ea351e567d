import Lox.Proofs.Binding.Balance
import Lox.Proofs.Grammar.Naming
import Lox.Session

/-! When a program is accepted: exactly where no stage has found an error. -/

namespace Lox

-----
-- Order of reports

/-- Inserting by line adds the one diagnostic. -/
theorem Diagnostic.mem_insertByLine {diagnostic found : Diagnostic} {sorted : List Diagnostic}
    : found ∈ diagnostic.insertByLine sorted ↔ found = diagnostic ∨ found ∈ sorted := by
  induction sorted with
  | nil => simp [insertByLine]
  | cons first rest ih =>
      unfold insertByLine
      split
      · simp only [List.mem_cons, ih]
        exact or_left_comm
      · simp only [List.mem_cons]

/-- Sorting loses nothing and adds nothing. -/
theorem Diagnostic.mem_sortByLine {found : Diagnostic} {diagnostics : List Diagnostic}
    : found ∈ sortByLine diagnostics ↔ found ∈ diagnostics := by
  have folded (sorted : List Diagnostic)
      : found ∈ diagnostics.foldl (fun sorted diagnostic => diagnostic.insertByLine sorted) sorted
        ↔ found ∈ sorted ∨ found ∈ diagnostics := by
    induction diagnostics generalizing sorted with
    | nil => simp
    | cons first rest ih =>
        rw [List.foldl_cons, ih, mem_insertByLine, List.mem_cons]
        grind
  rw [sortByLine, folded]
  simp

/-- Earlier lines come first. -/
def Diagnostic.Ordered (diagnostics : List Diagnostic) : Prop :=
  diagnostics.Pairwise fun one other => one.line ≤ other.line

/-- A diagnostic of an earlier line is inserted in front. -/
theorem Diagnostic.insertByLine_of_lt {diagnostic : Diagnostic} {later : List Diagnostic}
    (above : ∀ other ∈ later, diagnostic.line < other.line)
    : diagnostic.insertByLine later = diagnostic :: later := by
  cases later with
  | nil => rfl
  | cons first rest =>
      rw [insertByLine, if_neg (Nat.not_le_of_lt (above first List.mem_cons_self))]

/-- Inserting by line keeps the order of lines. -/
theorem Diagnostic.Ordered.insertByLine {sorted : List Diagnostic} (ordered : Ordered sorted)
    (diagnostic : Diagnostic)
    : Ordered (diagnostic.insertByLine sorted) := by
  induction sorted with
  | nil => exact List.pairwise_singleton _ _
  | cons first rest ih =>
      obtain ⟨above, others⟩ := List.pairwise_cons.1 ordered
      unfold Diagnostic.insertByLine
      split
      · next here =>
          refine List.pairwise_cons.2 ⟨fun other member => ?_, ih others⟩
          rcases mem_insertByLine.1 member with rfl | member
          · exact here
          · exact above other member
      · next later =>
          have before := Nat.le_of_lt (Nat.lt_of_not_le later)
          refine List.pairwise_cons.2 ⟨fun other member => ?_, ordered⟩
          rcases List.mem_cons.1 member with rfl | member
          · exact before
          · exact Nat.le_trans before (above other member)

/-- What is left out of an ordered list has no influence on the places of the others. -/
theorem Diagnostic.Ordered.filter_insertByLine {sorted : List Diagnostic}
    (ordered : Ordered sorted) (diagnostic : Diagnostic) (stays : Diagnostic → Bool)
    : (diagnostic.insertByLine sorted).filter stays
        = if stays diagnostic then diagnostic.insertByLine (sorted.filter stays)
          else sorted.filter stays := by
  induction sorted with
  | nil => cases here : stays diagnostic <;> simp [Diagnostic.insertByLine, here]
  | cons first rest ih =>
      obtain ⟨above, others⟩ := List.pairwise_cons.1 ordered
      have ih := ih others
      by_cases place : first.line ≤ diagnostic.line
      · rw [Diagnostic.insertByLine, if_pos place, List.filter_cons, List.filter_cons, ih]
        cases stays first with
        | false => rfl
        | true =>
            cases stays diagnostic with
            | false => rfl
            | true => exact (if_pos place).symm
      · have later : ∀ other ∈ (first :: rest).filter stays, diagnostic.line < other.line := by
          intro other member
          have before := Nat.lt_of_not_le place
          rcases List.mem_cons.1 (List.mem_filter.1 member).1 with rfl | member
          · exact before
          · exact Nat.lt_of_lt_of_le before (above other member)
        rw [Diagnostic.insertByLine, if_neg place, insertByLine_of_lt later, List.filter_cons]

/-- It makes no difference whether diagnostics are left out before or after sorting. -/
theorem Diagnostic.filter_sortByLine (diagnostics : List Diagnostic) (stays : Diagnostic → Bool)
    : (sortByLine diagnostics).filter stays = sortByLine (diagnostics.filter stays) := by
  have folded (sorted : List Diagnostic) (ordered : Ordered sorted)
      : (diagnostics.foldl (fun sorted diagnostic => diagnostic.insertByLine sorted) sorted).filter
            stays
          = (diagnostics.filter stays).foldl
              (fun sorted diagnostic => diagnostic.insertByLine sorted) (sorted.filter stays) := by
    induction diagnostics generalizing sorted with
    | nil => rfl
    | cons first rest ih =>
        rw [List.foldl_cons, ih _ (ordered.insertByLine first), ordered.filter_insertByLine]
        cases here : stays first <;> simp [here]
  exact folded [] List.Pairwise.nil

-----
-- Acceptance

/-- What the scanner reports is syntactic. -/
theorem scan_errors_isSyntactic (source : String)
    : ∀ error ∈ (scan source).errors, error.problem.isSyntactic = true := by
  intro error member
  obtain ⟨placed, -, found⟩ := List.mem_filterMap.1 member
  unfold PlacedSegment.diagnostic? at found
  split at found
  all_goals first
    | (obtain rfl := Option.some.inj found; rfl)
    | cases found

/-- A text is accepted if and only if it has no lexical error, no syntax error and no error of
its names. -/
structure Clean (allowExpression : Bool) (known : List String) (source : String) (depth : Nat)
    : Prop where
  scan : (scan source).errors = []
  parse : (parse allowExpression (Lox.scan source).tokens depth).errors = []
  bind
    : (bind known (Lox.parse allowExpression (Lox.scan source).tokens depth).statements).errors = []

namespace Program

variable {allowExpression : Bool} {known : List String} {source : String} {depth : Nat}

/-- What runs is what was read, with its references bound. -/
theorem ofSource_clean (scanned : (scan source).errors = [])
    (parsed : (parse allowExpression (scan source).tokens depth).errors = [])
    : let bound := bind known (parse allowExpression (scan source).tokens depth).statements
      ofSource allowExpression known source depth
        = {
            statements := bound.statements,
            diagnostics := Diagnostic.sortByLine (bound.errors ++ bound.warnings)
          } := by
  unfold ofSource
  simp [scanned, parsed]

/-- A text with errors is not accepted. -/
theorem not_accepted_unreadable {errors : List Diagnostic}
    (severe : ∀ error ∈ errors, error.isError = true) (some : errors ≠ [])
    : (unreadable errors).accepted = false := by
  unfold accepted Program.errors unreadable
  rw [List.filter_eq_self.2 severe]
  exact List.isEmpty_eq_false_iff.2 some

/-- What the binder reports as an error is one. -/
theorem bind_errors_isError {statements : List (Stmt Unit)} (proper : ProperStmts statements)
    (known : List String)
    : ∀ error ∈ (bind known statements).errors, error.isError = true := by
  obtain ⟨added, same, severe⟩ := Binding.bindStmts_errors proper (.start known)
  intro error member
  refine severe error ?_
  have listed : error ∈ (Binding.bindStmts statements (.start known)).2.errors := member
  rw [same] at listed
  exact listed

/-- Closing a scope warns, and nothing else does. -/
theorem bind_warnings_isError {statements : List (Stmt Unit)} (proper : ProperStmts statements)
    (known : List String)
    : ∀ warning ∈ (bind known statements).warnings, warning.isError = false := by
  obtain ⟨added, same, mild⟩ := Binding.bindStmts_warnings proper (.start known)
  intro warning member
  refine mild warning ?_
  have listed : warning ∈ (Binding.bindStmts statements (.start known)).2.warnings := member
  rw [same] at listed
  exact listed

/-- A text is accepted if nothing is reported as an error. -/
theorem accepted_iff
    : (ofSource allowExpression known source depth).accepted = true
      ↔ Clean allowExpression known source depth := by
  obtain ⟨proper, syntactic⟩ := Grammar.parse_proper allowExpression source depth
  have parseSevere := fun error member => Diagnostic.isError_of_isSyntactic (syntactic error member)
  have scanSevere := fun error member =>
    Diagnostic.isError_of_isSyntactic (scan_errors_isSyntactic source error member)
  by_cases scanned : (scan source).errors = []
  · by_cases parsed : (parse allowExpression (scan source).tokens depth).errors = []
    · let bound := bind known (parse allowExpression (scan source).tokens depth).statements
      have boundSevere := bind_errors_isError proper known
      have errors
          : (ofSource allowExpression known source depth).accepted
              = ((Diagnostic.sortByLine (bound.errors ++ bound.warnings)).filter
                  Diagnostic.isError).isEmpty := by
        rw [ofSource_clean scanned parsed]
        rfl
      rw [errors, List.isEmpty_iff, List.filter_eq_nil_iff]
      refine ⟨fun none => ⟨scanned, parsed, ?_⟩, fun clean found member => ?_⟩
      · refine List.eq_nil_iff_forall_not_mem.2 fun error member => ?_
        refine none error ?_ (boundSevere error member)
        exact Diagnostic.mem_sortByLine.2 (List.mem_append_left _ member)
      · rw [Diagnostic.mem_sortByLine, clean.bind, List.nil_append] at member
        simp [bind_warnings_isError proper known found member]
    · have rejected : (ofSource allowExpression known source depth).accepted = false := by
        unfold ofSource
        simp [scanned, parsed, not_accepted_unreadable parseSevere parsed]
      rw [rejected]
      exact ⟨fun no => absurd no Bool.false_ne_true, fun clean => absurd clean.parse parsed⟩
  · have rejected : (ofSource allowExpression known source depth).accepted = false := by
      unfold ofSource
      simp [scanned, not_accepted_unreadable scanSevere scanned]
    rw [rejected]
    exact ⟨fun no => absurd no Bool.false_ne_true, fun clean => absurd clean.scan scanned⟩

end Program

-----
-- Reports

namespace Report

variable {report : Report}

/-- A rejected text ends with exit code 65. -/
theorem exitCode_rejected : report.exitCode = 65 ↔ report.errors ≠ [] := by
  unfold exitCode
  cases errors : report.errors with
  | nil => cases report.fault <;> simp
  | cons first rest => simp

/-- A fault ends an accepted text with exit code 70. -/
theorem exitCode_stopped
    : report.exitCode = 70 ↔ report.errors = [] ∧ report.fault.isSome = true := by
  unfold exitCode
  cases errors : report.errors with
  | nil => cases report.fault <;> simp
  | cons first rest => simp

end Report

namespace Machine

variable {limits : Limits} {allowExpression : Bool} {source : String} {machine : Machine}

/-- A program that ends normally reports its output. -/
theorem runProgram_ok {program : Program} {after : Machine}
    (run
      : (Evaluator.ofNesting limits.rounds limits.nesting).executeProgram program.statements
            { machine with output := "" }
          = .ok () after)
    : machine.runProgram limits program
        = ({ diagnostics := program.diagnostics, output := after.output, fault := none },
            after) := by
  unfold runProgram
  simp only [run]

/-- A program that fails reports its output up to the fault. -/
theorem runProgram_error {program : Program} {after : Machine} {fault : Fault}
    (run
      : (Evaluator.ofNesting limits.rounds limits.nesting).executeProgram program.statements
            { machine with output := "" }
          = .error fault after)
    : machine.runProgram limits program
        = ({ diagnostics := program.diagnostics, output := after.output, fault := some fault },
            after) := by
  unfold runProgram
  simp only [run]

/-- An accepted source runs as its program does. -/
theorem runSource_accepted
    (accepted
      : (Program.ofSource allowExpression machine.globalNames source limits.depth).accepted = true)
    : machine.runSource limits allowExpression source
        = machine.runProgram limits
            (.ofSource allowExpression machine.globalNames source limits.depth) := by
  unfold runSource
  simp only [accepted, if_true]

/-- A text with errors is reported, and nothing else. -/
theorem runSource_rejected
    (rejected
      : (Program.ofSource allowExpression machine.globalNames source limits.depth).accepted = false)
    : let program := Program.ofSource allowExpression machine.globalNames source limits.depth
      machine.runSource limits allowExpression source
        = ({ diagnostics := program.diagnostics, output := "", fault := none }, machine) := by
  unfold runSource
  simp only [rejected, Bool.false_eq_true, if_false]

/-- A report tells what was to be reported about the program. -/
theorem report_diagnostics
    : let program := Program.ofSource allowExpression machine.globalNames source limits.depth
      (machine.runSource limits allowExpression source).1.diagnostics = program.diagnostics := by
  intro program
  cases accepted : program.accepted with
  | true =>
      rw [runSource_accepted accepted]
      unfold runProgram
      simp only
      split <;> rfl
  | false =>
      rw [runSource_rejected accepted]

/-- The errors of a report are those of its program, run or not. -/
theorem report_errors
    : (machine.runSource limits allowExpression source).1.errors
        = (Program.ofSource allowExpression machine.globalNames source limits.depth).errors :=
  congrArg (List.filter Diagnostic.isError) report_diagnostics

end Machine

end Lox
