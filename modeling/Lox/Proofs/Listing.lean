import Lox.Command.Run
import Lox.Proofs.Binding.Known
import Lox.Proofs.Program

/-! The listing of a text against a run of it.

A run starts with `clock` among the known names, and the listing with none. So the listing takes a
read of `clock` in the initializer of a variable `clock` for an error, and the run does not. They
agree on everything else.
-/

namespace Lox

-----
-- Programs with more known names

/-- A syntax error is no read of anything. -/
theorem Diagnostic.readsItself_of_isSyntactic {diagnostic : Diagnostic}
    (syntactic : diagnostic.problem.isSyntactic = true) (names : List String)
    : diagnostic.readsItself names = false := by
  unfold readsItself
  split
  · next problem _ =>
      rw [problem] at syntactic
      cases syntactic
  · rfl

/-- Syntactic reports are all among the others, since none of them is the read of a name. -/
theorem Diagnostic.others_of_isSyntactic {diagnostics : List Diagnostic}
    (syntactic : ∀ diagnostic ∈ diagnostics, diagnostic.problem.isSyntactic = true)
    (names : List String)
    : others names diagnostics = diagnostics := by
  refine List.filter_eq_self.2 fun diagnostic member => ?_
  rw [readsItself_of_isSyntactic (syntactic diagnostic member)]
  rfl

/-- A warning is no read of anything. -/
theorem Diagnostic.others_of_warnings {diagnostics : List Diagnostic}
    (mild : ∀ diagnostic ∈ diagnostics, diagnostic.isError = false) (names : List String)
    : others names diagnostics = diagnostics := by
  refine List.filter_eq_self.2 fun diagnostic member => ?_
  have mild := mild diagnostic member
  unfold readsItself
  split
  · next problem _ =>
      rw [isError, severity, problem] at mild
      cases mild
  · rfl

namespace Program

variable {known more : List String}

/-- The more names are known, the fewer reads are errors, and nothing else changes. -/
theorem ofSource_informs (larger : known ⊆ more) (allowExpression : Bool) (source : String)
    (depth : Nat)
    : let less := ofSource allowExpression known source depth
      let more' := ofSource allowExpression more source depth
      more'.statements = less.statements
      ∧ more'.diagnostics
          = Diagnostic.others (more.filter fun name => !known.contains name) less.diagnostics := by
  obtain ⟨proper, syntactic⟩ := Grammar.parse_proper allowExpression source depth
  by_cases scanned : (scan source).errors = []
  · by_cases parsed : (parse allowExpression (scan source).tokens depth).errors = []
    · obtain ⟨statements, warnings, errors⟩ := bind_informs larger proper
      rw [ofSource_clean scanned parsed, ofSource_clean scanned parsed]
      refine ⟨statements, ?_⟩
      simp only [Diagnostic.others, Diagnostic.filter_sortByLine, List.filter_append]
      have mild := bind_warnings_isError proper known
      rw [warnings, errors, ← Diagnostic.others, ← Diagnostic.others,
        Diagnostic.others_of_warnings mild]
    · have unreadable (names : List String)
          : ofSource allowExpression names source depth
              = .unreadable (parse allowExpression (scan source).tokens depth).errors := by
        unfold ofSource
        simp [scanned, parsed]
      rw [unreadable, unreadable]
      exact ⟨rfl, (Diagnostic.others_of_isSyntactic syntactic _).symm⟩
  · have unreadable (names : List String)
        : ofSource allowExpression names source depth = .unreadable (scan source).errors := by
      unfold ofSource
      simp [scanned]
    rw [unreadable, unreadable]
    exact ⟨rfl, (Diagnostic.others_of_isSyntactic (scan_errors_isSyntactic source) _).symm⟩

/-- With more names known the errors are the same, without the reads of the new names in their own
initializers. -/
theorem errors_informs (larger : known ⊆ more) (allowExpression : Bool) (source : String)
    (depth : Nat)
    : (ofSource allowExpression more source depth).errors
        = Diagnostic.others (more.filter fun name => !known.contains name)
            (ofSource allowExpression known source depth).errors := by
  unfold Program.errors
  rw [(ofSource_informs larger allowExpression source depth).2, Diagnostic.others,
    Diagnostic.others, List.filter_filter, List.filter_filter]
  exact congrArg (List.filter · _) (funext fun _ => Bool.and_comm _ _)

end Program

-----
-- The listing and the run

/-- The listing rejects exactly the programs that have errors, and names these. -/
theorem listSource_rejected (limits : Limits) (style : Command.ListingStyle) (source : String)
    : let program := Program.ofSource false [] source limits.depth
      let listing := Command.listSource limits style source
      (listing.exitCode = 65 ↔ program.errors ≠ [])
      ∧ (listing.exitCode = 65
        → listing.err = Report.lines (program.errors.map Diagnostic.text)) := by
  unfold Command.listSource Program.accepted
  simp only
  cases (Program.ofSource false [] source limits.depth).errors with
  | nil => simp
  | cons first rest => simp

/-- How the listing of a text compares with a run of it. -/
structure ListingAgrees (listed : Program) (listing : Command.Outcome) (report : Report)
    : Prop where
  /-- The run reports what the listing reports, but for reads of `clock` in its own initializer. -/
  errors : report.errors = Diagnostic.others [Native.clock.name] listed.errors
  /-- What can be listed can be run. -/
  rejected : report.exitCode = 65 → listing.exitCode = 65
  /-- Where the listing reports no such read, both accept the text, or both reject it and say the
  same. -/
  alike
    : (∀ error ∈ listed.errors, error.readsItself [Native.clock.name] = false)
      → (listing.exitCode = 65 ↔ report.exitCode = 65)
        ∧ (listing.exitCode = 65 → listing.err = report.errorText)

/-- The listing agrees with any run of the same text on a new machine about what is wrong with it,
unless the text reads `clock` in the initializer of a variable of this name. -/
theorem listing_agrees (style : Command.ListingStyle) (limits : Limits) (traceLevel : Nat)
    (readings : Nat → Float) (source : String)
    : ListingAgrees (.ofSource false [] source limits.depth)
        (Command.listSource limits style source)
        ((Machine.start traceLevel readings).runSource limits false source).1 := by
  let machine := Machine.start traceLevel readings
  let listed := Program.ofSource false [] source limits.depth
  have reported
      : (machine.runSource limits false source).1.errors
          = Diagnostic.others [Native.clock.name] listed.errors := by
    rw [Machine.report_errors]
    exact Program.errors_informs (List.nil_subset [Native.clock.name]) false source limits.depth
  obtain ⟨rejected, told⟩ := listSource_rejected limits style source
  refine ⟨reported, fun code => rejected.2 fun none => ?_, fun others => ?_⟩
  · refine Report.exitCode_rejected.1 code ?_
    rw [reported, none]
    rfl
  · have same : (machine.runSource limits false source).1.errors = listed.errors := by
      rw [reported]
      refine List.filter_eq_self.2 fun error member => ?_
      rw [others error member]
      rfl
    refine ⟨rejected.trans (same ▸ Report.exitCode_rejected.symm), fun code => ?_⟩
    have refused := rejected.1 code
    rw [← same, Machine.report_errors] at refused
    rw [told code, ← same, Report.errorText,
      Machine.runSource_rejected (List.isEmpty_eq_false_iff.2 refused), Option.toList_none,
      List.map_nil, List.append_nil]

/-- A variable `clock` that starts as the function `clock` can be run, but not listed. -/
theorem listing_rejects_clock
    : let source := "var clock = clock;"
      let limits : Limits := { nesting := 9, rounds := 1 }
      let run := (Machine.start 0 fun _ => 0).runSource limits false source
      (Command.listSource limits .parenthesized source).exitCode = 65 ∧ run.1.exitCode = 0 := by
  decide +kernel

end Lox
