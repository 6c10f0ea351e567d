import Lox.Proofs.Grammar.StatementCompleteness
import Lox.Proofs.Renaming.Binding
import Lox.Proofs.Renaming.Execution
import Lox.Proofs.Renaming.Texts
import Lox.Proofs.Scoping.Session

/-! Programs in which a local variable has another name.

A machine between two programs is the same as itself under any renaming, since none of its scopes
is affected. From there the two programs run side by side.
-/

namespace Lox

open Scoping (Watched)

-----
-- Machines between two programs

namespace Scoping.Watched

variable {watched : Watched}

/-- Scopes that a function could run in lead outwards to the global one. -/
def Reaches (watched : Watched) (scope : Nat) : Prop :=
  ∃ frames views, watched.Fits scope frames views

/-- No scope is affected. -/
noncomputable def ground (watched : Watched) : Ground :=
  open Classical in
  {
    standing := fun scope => if watched.Reaches scope then some [] else none,
    current := globalScope,
    defined := fun _ _ => False
  }

/-- Every scope that is reached stands without marks. -/
theorem ground_eq_some {scope : Nat} {marks : List Bool}
    : watched.ground.standing scope = some marks ↔ watched.Reaches scope ∧ marks = [] := by
  by_cases reaches : watched.Reaches scope <;> simp [ground, reaches, eq_comm]

/-- Without marks a closure turns into itself. -/
theorem turns_closure (rename : Renaming) {closure : Closure} {inner : List Bool}
    (unmarked : Unmarked inner) (reaches : watched.Reaches closure.scope)
    : closure.TurnsIn rename watched.ground.standing inner closure where
  id := rfl
  scope := rfl
  name := rfl
  isInitializer := rfl
  function :=
    ⟨[], ground_eq_some.2 ⟨reaches, rfl⟩,
      closure.function.becomes_self (by rwa [List.append_nil])⟩

/-- Without marks a class turns into itself. -/
theorem turns_class (rename : Renaming) {lineage : Lineage} (traced : watched.Class lineage)
    : lineage.Turns rename watched.ground.standing lineage := by
  refine ⟨rfl, rfl, fun name => ?_⟩
  cases found : lineage.method? name with
  | none => exact .none
  | some method =>
      obtain ⟨body, member, method⟩ := List.exists_of_findSome?_eq_some found
      obtain ⟨_, frames, _, views, -, -, -, -, fits⟩ := (traced body member name _ method).awaits.locals
      exact .some (turns_closure rename Unmarked.nil.cons ⟨frames, views, fits⟩)

/-- Without marks a value turns into itself. -/
theorem turns_value (rename : Renaming) {value : Value} (traced : watched.Traced value)
    : value.Turns rename watched.ground.standing value := by
  cases value with
  | literal value => exact .literal value
  | native function => exact .native function
  | closure closure => exact .closure (turns_closure rename .nil ⟨_, _, traced.fits.locals⟩)
  | «class» lineage => exact .class (turns_class rename traced)
  | object address lineage => exact .object address (turns_class rename traced)

/-- Between two programs a machine is the same as itself. -/
theorem Idle.turns (idle : watched.Idle) (rename : Renaming)
    : watched.machine.Turns rename watched.ground watched.machine where
  size := rfl
  parent _ := rfl
  known scope marks known := by
    obtain ⟨⟨frames, views, fits⟩, -⟩ := ground_eq_some.1 known
    cases fits with
    | outermost => exact idle.sound.rooted
    | inner outer _ _ => exact Forest.lt_size_of_parent? outer
  outer scope parent marks found known := by
    obtain ⟨⟨frames, views, fits⟩, rfl⟩ := ground_eq_some.1 known
    cases fits with
    | outermost => cases idle.sound.root.symm.trans found
    | inner outer _ rest =>
        obtain rfl := Option.some.inj (outer.symm.trans found)
        exact ground_eq_some.2 ⟨⟨_, _, rest⟩, rfl⟩
  outermost := ground_eq_some.2 ⟨⟨_, _, .outermost⟩, rfl⟩
  cell scope marks name name' known turns := by
    obtain ⟨-, rfl⟩ := ground_eq_some.1 known
    obtain rfl := turns.eq_of_unmarked
    cases found : watched.machine.scopes.cell? scope name' with
    | none => exact .none
    | some value => exact .some (turns_value rename (idle.sound.cells scope name' value found))
  defined _ _ := False.elim
  objects := rfl
  field address name := by
    cases found : watched.machine.fieldAt address name with
    | none => exact .none
    | some value =>
        obtain ⟨table, there, held⟩ := Option.bind_eq_some_iff.1 found
        exact .some (turns_value rename (idle.sound.fields address table name value there held))
  current := idle.current
  current' := idle.current
  nextId := rfl
  output := rfl
  readings := rfl
  readingsTaken := rfl

/-- The machine stands outside of all local scopes. -/
theorem ground_at (watched : Watched) : watched.ground.At [] :=
  ground_eq_some.2 ⟨⟨_, _, .outermost⟩, rfl⟩

end Scoping.Watched

-----
-- Programs

/-- Two runs print the same and end in the same way, but for a name that an error is blamed on. -/
structure Report.Turns (rename : Renaming) (report report' : Report) : Prop where
  output : report'.output = report.output
  exitCode : report'.exitCode = report.exitCode
  fault : Option.Rel (Fault.Turns rename) report.fault report'.fault

section

variable {rename : Renaming} {ground : Ground} {machine : Machine} {program program' : Program}

/-- Reports turn into each other if their faults do. -/
theorem Report.Turns.of_fault {report report' : Report} (output : report'.output = report.output)
    (errors : report.errors = []) (errors' : report'.errors = [])
    (fault : Option.Rel (Fault.Turns rename) report.fault report'.fault)
    : report.Turns rename report' := by
  refine ⟨output, ?_, fault⟩
  unfold Report.exitCode
  rw [errors, errors', optionRel_isSome fault]

/-- What a program becomes is run as the program itself. -/
theorem runProgram_turns (limits : Limits) (turns : machine.Turns rename ground machine)
    (stands : ground.At []) (accepted : program.accepted = true)
    (accepted' : program'.accepted = true)
    (becomes : BecomesStmts rename [] program.statements program'.statements)
    : (machine.runProgram limits program).1.Turns rename
        (machine.runProgram limits program').1 := by
  have keeps := Evaluator.keeps_ofNesting rename limits.rounds limits.nesting
  have ended := Evaluator.together_executeProgram keeps stands becomes { machine with output := "" }
    { machine with output := "" } { turns with output := rfl }
  have errors := List.isEmpty_iff.1 accepted
  have errors' := List.isEmpty_iff.1 accepted'
  unfold Machine.runProgram
  simp only
  revert ended
  generalize Evaluator.executeProgram _ program.statements _ = outcome
  generalize Evaluator.executeProgram _ program'.statements _ = outcome'
  intro ended
  cases outcome <;> cases outcome'
  · obtain ⟨after, -, turns, -⟩ := ended
    exact .of_fault turns.output errors errors' .none
  · exact ended.elim
  · exact ended.elim
  · obtain ⟨fault, after, -, turns⟩ := ended
    exact .of_fault turns.output errors errors' (.some fault)

end

-----
-- Texts

/-- The text reads as these statements. -/
structure Reads (allowExpression : Bool) (source : String) (depth : Nat)
    (statements : List Grammar.SourceStmt)
    : Prop where
  scan : (scan source).errors = []
  parse : parse allowExpression (Lox.scan source).tokens depth = { statements, errors := [] }

/-- Some text reads as the statements in which names are spelled otherwise. -/
theorem exists_reads {source : String} {depth : Nat} {rename : Renaming}
    {statements : List Grammar.SourceStmt} (identifier : IsIdentifier rename.new)
    (scanned : (scan source).errors = [])
    (parsed : (parse false (scan source).tokens depth).errors = [])
    (respelled
      : RespelledStmts rename (parse false (scan source).tokens depth).statements statements)
    : ∃ source',
        rename.RespellsAll (lexemes source) (lexemes source')
        ∧ Reads false source' depth statements := by
  have inside (token : Token) (member : token ∈ lexemes source) : token.kind ≠ .endOfInput :=
    (lexemes_spelled source token member).inside
  rw [scan_tokens] at parsed respelled
  have derived := Grammar.derives_of_parse (fun _ greedy => greedy) rfl inside parsed
  obtain ⟨tokens', respells, derived⟩ :=
    Grammar.Derives.carries rename .greedy depth _ _ _ derived respelled
  obtain ⟨source', rfl, mistakes⟩ := exists_respelled identifier respells
  refine ⟨source', respells, mistakes.trans scanned, ?_⟩
  rw [scan_tokens]
  exact Grammar.parse_of_derives (fun _ greedy => greedy) rfl derived

section

variable {allowExpression : Bool} {known : List String} {source : String} {depth : Nat}
  {rename : Renaming} {selection : Selection} {program : Program}

/-- What an accepted program runs is what was read from its text, bound. -/
theorem statements_of_accepted
    (isProgram : Program.ofSource allowExpression known source depth = program)
    (accepted : program.accepted = true)
    : let statements := (parse allowExpression (scan source).tokens depth).statements
      Clean allowExpression known source depth
      ∧ program.statements = (bind known statements).statements := by
  have clean : Clean allowExpression known source depth :=
    Program.accepted_iff.1 (isProgram ▸ accepted)
  exact ⟨clean, by rw [← isProgram, Program.ofSource_clean clean.scan clean.parse]⟩

/-- The tree that is renamed where the program binds it is the text respelled, and is bound as it
stands. -/
theorem renamed_of_bound {statements : List Grammar.SourceStmt} {bound : List BoundStmt}
    (isBound : bound = (bind known statements).statements) (proper : ProperStmts statements)
    (clean : (bind known statements).errors = []) (avoids : AvoidsStmts rename.new bound)
    (plain : PlainStmts rename.old selection false bound)
    : let renamed := renamedStmts rename selection [] bound
      RespelledStmts rename statements (unboundStmts renamed)
      ∧ BecomesStmts rename [] bound renamed
      ∧ (bind known (unboundStmts renamed)).statements = renamed
      ∧ (bind known (unboundStmts renamed)).errors = [] := by
  subst isBound
  obtain ⟨becomes, same, noErrors⟩ := Binding.bind_renamed proper clean avoids plain
  have respelled := becomes.respelled
  have unbound : unboundStmts (bind known statements).statements = statements :=
    Binding.bindStmts_unbound _ _
  rw [unbound] at respelled
  exact ⟨respelled, becomes, same, noErrors⟩

/-- The renamed program is read as the program is, but for the spelling of names. -/
theorem respelled_renamed
    (isProgram : Program.ofSource allowExpression known source depth = program)
    (accepted : program.accepted = true) (avoids : AvoidsStmts rename.new program.statements)
    (plain : PlainStmts rename.old selection false program.statements)
    : RespelledStmts rename (parse allowExpression (scan source).tokens depth).statements
        (unboundStmts (renamedStmts rename selection [] program.statements)) := by
  obtain ⟨clean, statements⟩ := statements_of_accepted isProgram accepted
  have proper := (Grammar.parse_proper allowExpression source depth).1
  exact (renamed_of_bound statements proper clean.bind avoids plain).1

/-- A text that reads as the renamed program is accepted, and bound as that program. -/
theorem program_of_reads {source' : String}
    (isProgram : Program.ofSource allowExpression known source depth = program)
    (accepted : program.accepted = true) (avoids : AvoidsStmts rename.new program.statements)
    (plain : PlainStmts rename.old selection false program.statements)
    (reads
      : Reads allowExpression source' depth
          (unboundStmts (renamedStmts rename selection [] program.statements)))
    : let renamed := renamedStmts rename selection [] program.statements
      (Program.ofSource allowExpression known source' depth).accepted = true
      ∧ (Program.ofSource allowExpression known source' depth).statements = renamed
      ∧ BecomesStmts rename [] program.statements renamed := by
  obtain ⟨clean, statements⟩ := statements_of_accepted isProgram accepted
  have proper := (Grammar.parse_proper allowExpression source depth).1
  obtain ⟨-, becomes, same, noErrors⟩ :=
    renamed_of_bound statements proper clean.bind avoids plain
  have parsed : (parse allowExpression (scan source').tokens depth).errors = [] := by
    rw [reads.parse]
  have bound
      : (bind known (parse allowExpression (scan source').tokens depth).statements).errors
          = [] := by
    rw [reads.parse]
    exact noErrors
  refine ⟨Program.accepted_iff.2 ⟨reads.scan, parsed, bound⟩, ?_, becomes⟩
  rw [Program.ofSource_clean reads.scan parsed, reads.parse]
  exact same

end

/-- In an accepted program, a name may be renamed in any of its scopes where only variables and
parameters have it, to a name that the program does not use. Some text reads as the renamed program.
Every text that does is accepted with the distances of the program, on whatever a session has left
of a machine both print the same, and an error differs at most in the name it is blamed on. -/
theorem renaming_keeps_run (limits : Limits) (traceLevel : Nat) (readings : Nat → Float)
    (steps : List (Bool × String)) (allowExpression : Bool) (source : String)
    (rename : Renaming) (selection : Selection) (identifier : IsIdentifier rename.new)
    : let machine := ((Machine.start traceLevel readings).runSession limits steps).2
      let program := Program.ofSource allowExpression machine.globalNames source limits.depth
      program.accepted = true
      → AvoidsStmts rename.new program.statements
      → PlainStmts rename.old selection false program.statements
      → let renamed := renamedStmts rename selection [] program.statements
        (allowExpression = false
          → ∃ source',
              rename.RespellsAll (lexemes source) (lexemes source')
              ∧ Reads allowExpression source' limits.depth (unboundStmts renamed))
        ∧ ∀ source',
            let program' :=
              Program.ofSource allowExpression machine.globalNames source' limits.depth
            Reads allowExpression source' limits.depth (unboundStmts renamed)
            → program'.accepted = true
              ∧ program'.statements = renamed
              ∧ (machine.runSource limits allowExpression source).1.Turns rename
                  (machine.runSource limits allowExpression source').1 := by
  intro machine program accepted avoids plain renamed
  obtain ⟨same, idle, -⟩ :=
    (Watched.idle_start traceLevel readings).runSession limits 0 steps
  have held : (Watched.runSession limits 0 steps (.start (.start traceLevel readings))).2.machine
      = machine :=
    congrArg Prod.snd same
  have turns := idle.turns rename
  rw [held] at turns
  have isProgram
      : Program.ofSource allowExpression machine.globalNames source limits.depth = program :=
    rfl
  -- What the program and the machine are is not looked into any more.
  clear_value program machine
  refine ⟨?_, ?_⟩
  · rintro rfl
    have clean := (statements_of_accepted isProgram accepted).1
    exact exists_reads identifier clean.scan clean.parse
      (respelled_renamed isProgram accepted avoids plain)
  intro source' program' reads
  obtain ⟨accepted', statements, becomes⟩ := program_of_reads isProgram accepted avoids plain reads
  refine ⟨accepted', statements, ?_⟩
  unfold Machine.runSource
  rw [isProgram, if_pos accepted, if_pos accepted']
  exact runProgram_turns limits turns (Watched.ground_at _) accepted accepted'
    (statements ▸ becomes)

/-- The variable is captured, assigned through a parameter, and shadowed in a block within. -/
def capturedText : String :=
  "\x7b var a = 1; fun set(b) \x7b print a; a = b; \x7d set(2); var g = a; "
    ++ "\x7b var a = g + 1; print a; \x7d print a; \x7d"

/-- Witness: the captured variable of this text meets the conditions. -/
theorem renaming_keeps_run_of_captured
    : let rename : Renaming := { old := "a", new := "c" }
      let machine := Machine.start 0 fun _ => 0
      let program := Program.ofSource false machine.globalNames capturedText Limits.standard.depth
      let renamed := renamedStmts rename (.single [0]) [] program.statements
      ∃ source',
        let program' := Program.ofSource false machine.globalNames source' Limits.standard.depth
        rename.RespellsAll (lexemes capturedText) (lexemes source')
        ∧ program'.accepted = true
        ∧ program'.statements = renamed
        ∧ (machine.runSource .standard false capturedText).1.Turns rename
            (machine.runSource .standard false source').1 := by
  have keeps := renaming_keeps_run .standard 0 (fun _ => 0) [] false capturedText
    { old := "a", new := "c" } (.single [0]) (by decide +kernel) (by decide +kernel)
    (by decide +kernel) (by decide +kernel)
  obtain ⟨source', respells, reads⟩ := keeps.1 rfl
  exact ⟨source', respells, keeps.2 source' reads⟩

end Lox
