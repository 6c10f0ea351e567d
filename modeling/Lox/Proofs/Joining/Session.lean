import Lox.Proofs.Joining.Binding
import Lox.Proofs.Joining.Execution
import Lox.Proofs.Joining.Programs
import Lox.Proofs.Scoping.Session

/-! Texts that were run one after another, run as one text.

While the whole is bound, it knows at least the globals that the machine has when the part at that
place is bound. Run side by side, the whole and its parts end alike.
-/

namespace Lox

open Scoping (Declares Watched)
open Grammar (SourceStmt statementsIn Terminated)

namespace Binding

-----
-- Outside of all scopes

/-- Nothing is open and nothing is wrong. The named globals are defined, and none is pending. -/
structure Scopes.Outermost (scopes : Scopes) (defined : String → Prop) : Prop where
  views : scopes.views = []
  defined (name : String) (defined : defined name) : scopes.globals.get? name = some true
  settled (name : String) : scopes.globals.get? name ≠ some false
  errors : scopes.errors = []
  inFunction : scopes.inFunction = false
  classContext : scopes.classContext = .outside
  loopDepth : scopes.loopDepth = 0
  functionBase : scopes.functionBase = 0

/-- At the start no scope is open and the known names are defined. -/
theorem Scopes.outermost_start (known : List String)
    : (Scopes.start known).Outermost (· ∈ known) := by
  have marked (name : String)
      : (Scopes.start known).globals.get? name = if name ∈ known then some true else none :=
    Table.get?_marked known .empty name
  refine ⟨rfl, fun name member => ?_, fun name => ?_, rfl, rfl, rfl, rfl, rfl⟩
  · rw [marked, if_pos member]
  · rw [marked]
    split <;> nofun

namespace Scopes.Outermost

variable {scopes : Scopes} {defined : String → Prop}

/-- Where more is defined than known, less is wrong. -/
theorem exceeds (outermost : scopes.Outermost defined) {known : List String}
    (knows : ∀ name ∈ known, defined name)
    : scopes.Exceeds (.start known) := by
  have marked (name : String)
      : (Scopes.start known).globals.get? name = if name ∈ known then some true else none :=
    Table.get?_marked known .empty name
  refine ⟨outermost.views, ⟨fun name found => ?_, fun name found => ?_⟩, fun _ => outermost.errors,
    outermost.inFunction, outermost.classContext, outermost.loopDepth, outermost.functionBase⟩
  · rw [marked] at found
    split at found
    · next member => exact outermost.defined name (knows name member)
    · cases found
  · exact absurd found (outermost.settled name)

/-- Behind an introduced name it is defined as well. -/
theorem introduced (outermost : scopes.Outermost defined) (name : Token)
    : (scopes.introduced (some name)).Outermost fun other => defined other ∨ name.lexeme = other := by
  have none := Scopes.locals_of_views_nil outermost.views
  have same
      : scopes.introduced (some name)
          = { scopes with
              globals := (scopes.globals.insertIfNew name.lexeme false).insert name.lexeme true } := by
    simp [Scopes.introduced, Scopes.declared, Scopes.defined, none]
  rw [same]
  refine { outermost with defined := fun other known => ?_, settled := fun other => ?_ }
  · rw [Table.get?_insert]
    split
    · rfl
    · next apart =>
        rw [Table.get?_insertIfNew_of_ne _ _ apart]
        exact outermost.defined other (known.resolve_right fun same => apart same.symm)
  · rw [Table.get?_insert]
    split
    · simp
    · next apart =>
        rw [Table.get?_insertIfNew_of_ne _ _ apart]
        exact outermost.settled other

/-- What is kept is still outside of all scopes, unless something was found to be wrong. -/
theorem kept (outermost : scopes.Outermost defined) {after : Scopes} (kept : scopes.Kept after)
    (clean : after.errors = [])
    : after.Outermost defined :=
  {
    views := kept.views.trans outermost.views
    defined := fun name known => by rw [kept.globals, outermost.defined name known]
    settled := fun name => by rw [kept.globals]; exact outermost.settled name
    errors := clean
    inFunction := kept.inFunction.trans outermost.inFunction
    classContext := kept.classContext.trans outermost.classContext
    loopDepth := kept.loopDepth.trans outermost.loopDepth
    functionBase := kept.functionBase.trans outermost.functionBase
  }

/-- Where some names are defined, any fewer of them are. -/
theorem mono (outermost : scopes.Outermost defined) {fewer : String → Prop}
    (included : ∀ name, fewer name → defined name)
    : scopes.Outermost fewer :=
  { outermost with defined := fun name known => outermost.defined name (included name known) }

/-- A statement without errors adds the name that it declares. -/
theorem bindStmt {stmt : Stmt Unit} (proper : stmt.Proper)
    (outermost : scopes.Outermost defined)
    (clean : (Binding.bindStmt stmt scopes).2.errors = [])
    : (Binding.bindStmt stmt scopes).2.Outermost fun name =>
        defined name ∨ Declares [stmt] name := by
  have after := bindStmt_introduces stmt scopes proper
  cases introduces : stmt.introduces? with
  | none =>
      rw [introduces] at after
      refine (outermost.kept after clean).mono fun name declared => declared.resolve_right ?_
      rintro ⟨stmt', member, token, declares, -⟩
      obtain rfl := List.mem_singleton.1 member
      rw [introduces] at declares
      cases declares
  | some token =>
      rw [introduces] at after
      refine ((outermost.introduced token).kept after clean).mono fun name declared => ?_
      refine declared.imp_right ?_
      rintro ⟨stmt', member, token', declares, same⟩
      obtain rfl := List.mem_singleton.1 member
      rw [introduces] at declares
      obtain rfl := Option.some.inj declares
      exact same

/-- And so does a program, statement by statement. -/
theorem bindStmts {stmts : List (Stmt Unit)} (proper : ProperStmts stmts)
    (outermost : scopes.Outermost defined)
    (clean : (Binding.bindStmts stmts scopes).2.errors = [])
    : (Binding.bindStmts stmts scopes).2.Outermost fun name =>
        defined name ∨ Declares stmts name := by
  induction stmts generalizing scopes defined with
  | nil =>
      refine outermost.mono fun name declared => declared.resolve_right ?_
      exact fun ⟨_, member, _⟩ => absurd member List.not_mem_nil
  | cons first rest ih =>
      have cleanFirst := (bindStmts_errors proper.2 (Binding.bindStmt first scopes).2).nil clean
      refine (ih proper.2 (outermost.bindStmt proper.1 cleanFirst) clean).mono fun name => ?_
      rintro (known | ⟨stmt, member, declares⟩)
      · exact .inl (.inl known)
      · rcases List.mem_cons.1 member with rfl | member
        · exact .inl (.inr ⟨stmt, List.mem_singleton_self _, declares⟩)
        · exact .inr ⟨stmt, member, declares⟩

end Scopes.Outermost

/-- What exceeds a state that exceeds another exceeds the other. -/
theorem Scopes.Exceeds.trans {whole between part : Scopes} (front : whole.Exceeds between)
    (back : between.Exceeds part)
    : whole.Exceeds part :=
  {
    views := front.views.trans back.views
    globals :=
      ⟨fun name known => front.globals.known name (back.globals.known name known),
        fun name pending => back.globals.pending name (front.globals.pending name pending)⟩
    errors := fun clean => front.errors (back.errors clean)
    inFunction := front.inFunction.trans back.inFunction
    classContext := front.classContext.trans back.classContext
    loopDepth := front.loopDepth.trans back.loopDepth
    functionBase := front.functionBase.trans back.functionBase
  }

/-- Statements in a row are bound one part after the other. -/
theorem bindStmts_append (front back : List (Stmt Unit)) (scopes : Scopes)
    : bindStmts (front ++ back) scopes
        = ((bindStmts front scopes).1 ++ (bindStmts back (bindStmts front scopes).2).1,
            (bindStmts back (bindStmts front scopes).2).2) := by
  induction front generalizing scopes with
  | nil => rfl
  | cons first rest ih =>
      have bound (stmts : List (Stmt Unit))
          : bindStmts (first :: stmts) scopes
              = ((bindStmt first scopes).1 :: (bindStmts stmts (bindStmt first scopes).2).1,
                  (bindStmts stmts (bindStmt first scopes).2).2) :=
        rfl
      rw [List.cons_append, bound, bound, ih]
      rfl

end Binding

-----
-- Single texts

/-- A report without errors is the report of a text that was accepted. -/
theorem clean_of_report {limits : Limits} {source : String} {machine : Machine}
    (accepted : (machine.runSource limits false source).1.errors = [])
    : Clean false machine.globalNames source limits.depth := by
  refine Program.accepted_iff.1 ?_
  by_cases accepts
    : (Program.ofSource false machine.globalNames source limits.depth).accepted = true
  · exact accepts
  · unfold Machine.runSource at accepted
    rw [if_neg accepts] at accepted
    exact List.isEmpty_iff.2 accepted

/-- Each text of a session without errors can be read. -/
theorem readable_of_session {limits : Limits} {sources : List String} {machine : Machine}
    (accepted
      : ∀ report ∈ (machine.runSession limits (sources.map (false, ·))).1, report.errors = [])
    (terminated : ∀ source ∈ sources, Terminated source)
    : ∀ source ∈ sources, Grammar.Readable limits.depth source := by
  induction sources generalizing machine with
  | nil => exact fun _ member => absurd member List.not_mem_nil
  | cons first rest ih =>
      rw [List.map_cons, Machine.runSession_cons] at accepted
      have clean := clean_of_report (accepted _ List.mem_cons_self)
      intro source member
      rcases List.mem_cons.1 member with rfl | member
      · exact ⟨clean.scan, clean.parse, terminated source List.mem_cons_self⟩
      · refine ih (fun report later => accepted report (List.mem_cons_of_mem _ later)) ?_ source member
        exact fun source member => terminated source (List.mem_cons_of_mem _ member)

/-- An accepted text is run with nothing printed before. -/
theorem runSource_of_clean {limits : Limits} {source : String} {machine : Machine}
    (clean : Clean false machine.globalNames source limits.depth)
    : ∃ diagnostics : List Diagnostic,
        diagnostics.filter Diagnostic.isError = []
        ∧ machine.runSource limits false source
          = match (Evaluator.ofNesting limits.rounds limits.nesting).executeProgram
              (bind machine.globalNames (statementsIn limits.depth source)).statements
              { machine with output := "" } with
            | .ok _ after => ({ diagnostics, output := after.output, fault := none }, after)
            | .error fault after =>
                ({ diagnostics, output := after.output, fault := some fault }, after) := by
  have statements
      : (Program.ofSource false machine.globalNames source limits.depth).statements
          = (bind machine.globalNames (statementsIn limits.depth source)).statements := by
    rw [Program.ofSource_clean clean.scan clean.parse]
    rfl
  have accepted := Program.accepted_iff.2 clean
  refine ⟨(Program.ofSource false machine.globalNames source limits.depth).diagnostics,
    List.isEmpty_iff.1 accepted, ?_⟩
  unfold Machine.runSource
  rw [if_pos accepted]
  unfold Machine.runProgram
  generalize (Program.ofSource false machine.globalNames source limits.depth).statements = given
    at statements ⊢
  subst statements
  rfl

/-- A text defines no global that it does not declare. -/
theorem globals_of_runSource {watched : Watched} (idle : watched.Idle) {limits : Limits}
    {source : String} (clean : Clean false watched.machine.globalNames source limits.depth)
    : ∀ name ∈ (watched.machine.runSource limits false source).2.globalNames,
        name ∈ watched.machine.globalNames ∨ Declares (statementsIn limits.depth source) name := by
  obtain ⟨after, grows, last⟩ := idle.runSource_grows limits clean
  rw [last]
  intro name member
  exact (grows.globals name (Machine.mem_globalNames.1 member)).imp_left Machine.mem_globalNames.2

-----
-- Sessions

namespace Machine

/-- Runs texts one after another, up to and with the first that ends in a fault. -/
def runUntilFault (limits : Limits) : List String → Machine → List Report × Machine
  | [], machine => ([], machine)
  | source :: rest, machine =>
      let (report, after) := machine.runSource limits false source
      if report.fault.isSome then
        ([report], after)
      else
        let (reports, last) := after.runUntilFault limits rest
        (report :: reports, last)

/-- A source that fails is the last one that runs. -/
theorem runUntilFault_of_fault {limits : Limits} {source : String} {machine after : Machine}
    {report : Report} (rest : List String)
    (run : machine.runSource limits false source = (report, after))
    (faulty : report.fault.isSome = true)
    : machine.runUntilFault limits (source :: rest) = ([report], after) := by
  simp [runUntilFault, run, faulty]

/-- Behind a source that ends the others run. -/
theorem runUntilFault_of_end {limits : Limits} {source : String} {machine after : Machine}
    {report : Report} (rest : List String)
    (run : machine.runSource limits false source = (report, after)) (ends : report.fault = none)
    : machine.runUntilFault limits (source :: rest)
        = (report :: (after.runUntilFault limits rest).1, (after.runUntilFault limits rest).2) := by
  simp [runUntilFault, run, ends]

/-- What printing each global shows. -/
def printedGlobals (machine : Machine) : List (String × Option String) :=
  machine.globalNames.map fun name =>
    (name, (machine.scopes.cell? globalScope name).map Value.text)

/-- Up to the first fault, it is the session of as many texts as were run. -/
theorem runUntilFault_eq_runSession (limits : Limits) (sources : List String) (machine : Machine)
    : machine.runSession limits
          ((sources.take (machine.runUntilFault limits sources).1.length).map (false, ·))
        = machine.runUntilFault limits sources := by
  induction sources generalizing machine with
  | nil => rfl
  | cons source rest ih =>
      unfold runUntilFault
      by_cases faulty : (machine.runSource limits false source).1.fault.isSome = true
      · simp [faulty, runSession]
      · have others := ih (machine.runSource limits false source).2
        rw [List.map_take] at others
        simp [faulty, runSession, others]

/-- Globals print alike on any lines. -/
theorem Mirrors.printedGlobals {move : Nat → Nat} {heading : String} {whole part : Machine}
    (mirrors : whole.Mirrors move heading part)
    : part.printedGlobals = whole.printedGlobals := by
  unfold Machine.printedGlobals Machine.globalNames
  simp [mirrors.scopes, Function.comp_def]

/-- A machine that has run nothing has nothing on any line. -/
theorem start_mirrors (move : Nat → Nat) (traceLevel : Nat) (readings : Nat → Float)
    : (start traceLevel readings).Mirrors move "" (start traceLevel readings) := by
  refine ⟨?_, ?_, rfl, rfl, rfl, rfl, rfl⟩
  · simp [start, Value.moved]
  · simp [start]

end Machine

/-- Why a run stopped before its end, if it did, and the machine then. -/
def faultAndMachine : EStateM.Result Fault Machine Unit → Option Fault × Machine
  | .ok _ after => (none, after)
  | .error fault after => (some fault, after)

/-- A run ends at a machine, and in the fault that is reported, if any. -/
def EndsAs (move : Nat → Nat) (run : EStateM.Result Fault Machine Unit) (after : Machine)
    (report : Report)
    : Prop :=
  run = .ok () after ∧ report.fault = none
  ∨ ∃ fault, run = .error fault after ∧ report.fault = some (fault.moved move)

/-- How the run of a whole ends, compared with the runs of its parts. What was printed before is
the heading. -/
structure SameEnd (move : Nat → Nat) (heading : String) (whole : Option Fault × Machine)
    (parts : List Report × Machine)
    : Prop where
  output : whole.2.output = heading ++ String.join (parts.1.map Report.output)
  fault : parts.1.findSome? Report.fault = whole.1.map (Fault.moved move)
  globals : parts.2.printedGlobals = whole.2.printedGlobals

section

variable {limits : Limits} {move : Nat → Nat} {source : String} {part : List SourceStmt}
  {watched : Watched} {wide : Binding.Scopes} {heading : String} {whole : Machine}

/-- Behind a part, the whole still knows all globals that the machine has by then. -/
theorem bind_part (same : movedStmts move part = statementsIn limits.depth source)
    (idle : watched.Idle) (clean : Clean false watched.machine.globalNames source limits.depth)
    (exceeds : wide.Exceeds (.start watched.machine.globalNames))
    : (Binding.bindStmts part wide).2.Exceeds
        (.start (watched.machine.runSource limits false source).2.globalNames) := by
  have alone
      := (Binding.Scopes.outermost_start watched.machine.globalNames).bindStmts
        (Grammar.parse_proper false source limits.depth).1 clean.bind
  obtain ⟨-, between⟩ := Binding.bindStmts_agrees move part wide _ exceeds
  rw [same] at between
  exact between.trans (alone.exceeds (globals_of_runSource idle clean))

/-- The part of the whole and the text that it stands for end alike. -/
theorem run_part (same : movedStmts move part = statementsIn limits.depth source)
    (clean : Clean false watched.machine.globalNames source limits.depth)
    (exceeds : wide.Exceeds (.start watched.machine.globalNames))
    (mirrors : whole.Mirrors move heading { watched.machine with output := "" })
    : ∃ report last after,
        watched.machine.runSource limits false source = (report, last)
        ∧ after.Mirrors move (heading ++ report.output) { last with output := "" }
        ∧ EndsAs move
            ((Evaluator.ofNesting limits.rounds limits.nesting).executeProgram
              (Binding.bindStmts part wide).1 whole)
            after report := by
  obtain ⟨diagnostics, -, run⟩ := runSource_of_clean clean
  obtain ⟨bound, -⟩ := Binding.bindStmts_agrees move part wide _ exceeds
  rw [same] at bound
  have statements
      : (bind watched.machine.globalNames (statementsIn limits.depth source)).statements
          = movedStmts move (Binding.bindStmts part wide).1 :=
    bound
  have ended := Evaluator.mirrors_executeProgram
    (Evaluator.mirrors_ofNesting move heading limits.rounds limits.nesting)
    (Binding.bindStmts part wide).1 whole _ mirrors
  have printed {after last : Machine} (mirrors : after.Mirrors move heading last)
      : after.Mirrors move (heading ++ last.output) { last with output := "" } :=
    { mirrors with output := by rw [mirrors.output, String.append_empty] }
  rw [statements] at run
  rw [run]
  revert ended
  cases Evaluator.executeProgram _ (Binding.bindStmts part wide).1 whole with
  | ok _ after =>
      cases Evaluator.executeProgram _ (movedStmts move _) _ with
      | ok _ last => exact fun ended => ⟨_, last, after, rfl, printed ended.2, .inl ⟨rfl, rfl⟩⟩
      | error fault last => exact False.elim
  | error fault after =>
      cases Evaluator.executeProgram _ (movedStmts move _) _ with
      | ok _ last => exact False.elim
      | error fault' last =>
          rintro ⟨rfl, mirrors⟩
          exact ⟨_, last, after, rfl, printed mirrors, .inr ⟨fault, rfl, rfl⟩⟩

end

/-- The whole is bound without errors and ends as its parts, if each part is accepted when its turn
comes. -/
theorem run_joined {limits : Limits} {move : Nat → Nat} {sources : List String}
    {parts : List (List SourceStmt)}
    (texts : parts.map (movedStmts move) = sources.map (statementsIn limits.depth))
    {watched : Watched} (idle : watched.Idle) {wide : Binding.Scopes}
    (exceeds : wide.Exceeds (.start watched.machine.globalNames)) {heading : String}
    {whole : Machine} (mirrors : whole.Mirrors move heading { watched.machine with output := "" })
    (accepted : ∀ report ∈ (watched.machine.runSession limits (sources.map (false, ·))).1,
      report.errors = [])
    : let bound := Binding.bindStmts parts.flatten wide
      let run := (Evaluator.ofNesting limits.rounds limits.nesting).executeProgram bound.1 whole
      bound.2.errors = []
      ∧ SameEnd move heading (faultAndMachine run)
          (watched.machine.runUntilFault limits sources) := by
  induction sources generalizing parts watched wide heading whole with
  | nil =>
      obtain rfl := List.map_eq_nil_iff.1 texts
      refine ⟨exceeds.errors rfl, ?_, rfl, mirrors.printedGlobals⟩
      exact mirrors.output
  | cons source rest ih =>
      obtain ⟨part, others, rfl, same, texts⟩ := List.map_eq_cons_iff.1 texts
      rw [List.map_cons, Machine.runSession_cons] at accepted
      have clean : Clean false watched.machine.globalNames source limits.depth :=
        clean_of_report (accepted _ List.mem_cons_self)
      have exceedsAfter := bind_part same idle clean exceeds
      obtain ⟨report, last, after, run, mirrorsAfter, ends⟩ :=
        run_part same clean exceeds mirrors
      obtain ⟨-, sameMachine, idleAfter, -⟩ := idle.runSource limits 0 false source
      have sameLast : (watched.runSource limits 0 false source).2.machine = last := by
        rw [sameMachine, run]
      rw [run] at accepted exceedsAfter
      have acceptedAfter
          : ∀ report ∈ (last.runSession limits (rest.map (false, ·))).1, report.errors = [] :=
        fun other member => accepted other (List.mem_cons_of_mem _ member)
      rw [← sameLast] at exceedsAfter mirrorsAfter acceptedAfter
      obtain ⟨cleanRest, endRest⟩ := ih texts idleAfter exceedsAfter mirrorsAfter acceptedAfter
      rw [sameLast] at endRest
      simp only [List.flatten_cons, Binding.bindStmts_append, Evaluator.executeProgram_append]
      refine ⟨cleanRest, ?_⟩
      rcases ends with ⟨ended, none⟩ | ⟨fault, ended, faulty⟩
      · rw [ended, Machine.runUntilFault_of_end rest run none]
        refine ⟨?_, ?_, endRest.globals⟩
        · rw [endRest.output, List.map_cons, String.join_cons, String.append_assoc]
        · rw [List.findSome?_cons, none]
          exact endRest.fault
      · rw [ended, Machine.runUntilFault_of_fault rest run (by rw [faulty]; rfl)]
        refine ⟨?_, ?_, ?_⟩
        · simpa [faultAndMachine] using mirrorsAfter.output
        · rw [List.findSome?_cons, faulty]
          rfl
        · rw [← sameLast]
          exact mirrorsAfter.printedGlobals

-----
-- The whole and its parts

/-- A session of texts that are each accepted and end in a semicolon is the run of one text: the
texts below one another are accepted, and up to the first fault the same is printed, the fault is
the same on the line of its own text, and all globals print alike. -/
theorem session_as_one_text (limits : Limits) (traceLevel : Nat) (readings : Nat → Float)
    (sources : List String) (terminated : ∀ source ∈ sources, Terminated source)
    (accepted
      : ∀ report ∈ ((Machine.start traceLevel readings).runSession limits
          (sources.map (false, ·))).1,
        report.errors = [])
    : let machine := Machine.start traceLevel readings
      let parts := machine.runUntilFault limits sources
      let whole := machine.runSource limits false (joined sources)
      whole.1.errors = []
      ∧ whole.1.output = String.join (parts.1.map Report.output)
      ∧ parts.1.findSome? Report.fault = whole.1.fault.map (Fault.moved (localLine sources))
      ∧ parts.2.printedGlobals = whole.2.printedGlobals := by
  intro machine
  obtain ⟨scanned, parts, parsed, texts⟩ :=
    Grammar.parse_joined (readable_of_session accepted terminated)
  have statements : statementsIn limits.depth (joined sources) = parts.flatten := by
    rw [statementsIn, parsed]
  have mirrors
      : Machine.Mirrors (localLine sources) "" { machine with output := "" }
          { machine with output := "" } :=
    Machine.start_mirrors _ traceLevel readings
  have idle := Watched.idle_start traceLevel readings
  have exceeds := (Binding.Scopes.outermost_start machine.globalNames).exceeds fun _ => id
  obtain ⟨bound, ends⟩ := run_joined texts idle exceeds mirrors accepted
  have clean : Clean false machine.globalNames (joined sources) limits.depth := by
    refine ⟨scanned, by rw [parsed], ?_⟩
    rw [parsed]
    exact bound
  obtain ⟨diagnostics, none, run⟩ := runSource_of_clean clean
  have boundStatements
      : (bind machine.globalNames (statementsIn limits.depth (joined sources))).statements
          = (Binding.bindStmts parts.flatten (.start machine.globalNames)).1 := by
    rw [statements]
    rfl
  rw [boundStatements] at run
  revert ends
  rw [run]
  cases Evaluator.executeProgram _ _ { machine with output := "" } with
  | ok _ after =>
      exact fun ends => ⟨none, ends.output.trans String.empty_append, ends.fault, ends.globals⟩
  | error fault after =>
      exact fun ends => ⟨none, ends.output.trans String.empty_append, ends.fault, ends.globals⟩

/-- The second text ends in a fault at a token of the first, and the third is not run. -/
def textsWithFault : List String :=
  ["fun negate(a) \x7b\n  print a;\n  return -a;\n\x7d\nvar kept = nil;", "var b = \"x\";\nnegate(b);",
    "print b;"]

/-- Witness: these texts meet the conditions. -/
theorem session_as_one_text_with_fault
    : let machine := Machine.start 0 fun _ => 0
      let parts := machine.runUntilFault .standard textsWithFault
      let whole := machine.runSource .standard false (joined textsWithFault)
      whole.1.errors = []
      ∧ whole.1.output = String.join (parts.1.map Report.output)
      ∧ parts.1.findSome? Report.fault
        = whole.1.fault.map (Fault.moved (localLine textsWithFault))
      ∧ parts.2.printedGlobals = whole.2.printedGlobals :=
  session_as_one_text .standard 0 (fun _ => 0) textsWithFault (by decide +kernel)
    (by decide +kernel)

end Lox
