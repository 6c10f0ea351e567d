import Lox.Proofs.Scoping.Session
import Lox.Proofs.Usage.Unused
import Lox.Proofs.Usage.Watching

/-! Warnings about unused locals, and the runs of the session that they are given in.

A warned-about declaration may be looked up all the same: by functions that stand before it, where
the name was already declared in the same scope. Nothing else ever looks it up.
-/

namespace Lox.Scoping

open Binding
open Grammar (SourceStmt)

-----
-- Source texts

/-- The statements that are read in a text. -/
def textStatements (allowExpression : Bool) (source : String) (depth : Nat) : List SourceStmt :=
  (parse allowExpression (scan source).tokens depth).statements

/-- The survey of a whole text, the text of the given number. -/
def textSurvey (number : Nat) (known : List String) (allowExpression : Bool) (source : String)
    (depth : Nat)
    : Survey :=
  surveyStmts (.start number known) (textStatements allowExpression source depth)

/-- The uses of a text are at its own place. -/
theorem textSurvey_placed (number : Nat) (known : List String) (allowExpression : Bool)
    (source : String) (depth : Nat)
    : (textSurvey number known allowExpression source depth).Placed [number] [] :=
  (among_stmts (textStatements allowExpression source depth) (.start number known)
    fun _ none => absurd none List.not_mem_nil).placed

/-- A text is accounted for by its survey. -/
theorem textSurvey_accounts (number : Nat) (known : List String) (allowExpression : Bool)
    (source : String) (depth : Nat)
    : Accounts 0 1 (textSurvey number known allowExpression source depth) (.start known)
        (bindStmts (textStatements allowExpression source depth) (.start known)).2 :=
  accounts_stmts _ (.start number known) (Grammar.parse_proper allowExpression source depth).1

/-- Binding a text warns about what its bodies warn about, and about nothing else. -/
theorem warnings_surveyed (number : Nat) (known : List String) (allowExpression : Bool)
    (source : String) (depth : Nat)
    : (bind known (textStatements allowExpression source depth)).warnings
        = (textSurvey number known allowExpression source depth).warnings := by
  have accounts := textSurvey_accounts number known allowExpression source depth
  -- Neither the survey nor the tree is computed.
  generalize textSurvey number known allowExpression source depth = survey at accounts ⊢
  generalize textStatements allowExpression source depth = statements at accounts ⊢
  exact accounts.warnings

/-- What is reported about an accepted text is what its bodies warn about. -/
theorem warnings_accepted {limits : Limits} {allowExpression : Bool} {source : String}
    {machine : Machine}
    (clean : (machine.runSource limits allowExpression source).1.errors = []) (number : Nat)
    : (machine.runSource limits allowExpression source).1.warnings
        = Diagnostic.sortByLine
            (textSurvey number machine.globalNames allowExpression source
              limits.depth).warnings := by
  rw [Machine.report_errors] at clean
  obtain ⟨scanned, parsed, bound⟩ := Program.accepted_iff.1 (List.isEmpty_iff.2 clean)
  have proper := (Grammar.parse_proper allowExpression source limits.depth).1
  have mild := Program.bind_warnings_isError proper machine.globalNames
  have told := warnings_surveyed number machine.globalNames allowExpression source limits.depth
  unfold Report.warnings
  rw [Machine.report_diagnostics, Program.ofSource_clean scanned parsed]
  simp only
  rw [bound, List.nil_append, Diagnostic.filter_sortByLine, ← told]
  refine congrArg _ (List.filter_eq_self.2 fun warning member => ?_)
  rw [mild warning member]
  rfl

-----
-- Lookups of a session

namespace Watched

variable {listed : Site × Use → Prop} {watched : Watched} {number : Nat}

/-- At the start nothing is noted. -/
theorem listed_start (listed : Site × Use → Prop) (machine : Machine)
    : (Watched.start machine).Listed listed :=
  ⟨fun _ none => absurd none List.not_mem_nil, fun _ _ none => absurd none List.not_mem_nil⟩

/-- A run of a source text looks up what the text holds. -/
theorem Listed.runSource (holds : watched.Listed listed) (limits : Limits)
    {allowExpression : Bool} {source : String}
    (all
      : (textSurvey number watched.machine.globalNames allowExpression source
          limits.depth).All listed)
    : (watched.runSource limits number allowExpression source).2.Listed listed := by
  unfold Watched.runSource
  simp only
  split
  · have confined := Watcher.confined_ofNesting listed limits.rounds limits.nesting
    obtain ⟨after, -⟩ := confined.executeProgram all
      { watched with machine := { watched.machine with output := "" } }
      ⟨holds.lookups, holds.origins⟩
    unfold textStatements at after
    revert after
    generalize Watcher.executeProgram _ _ _ _ = outcome
    intro after
    cases outcome with
    | ok value between => exact after
    | error fault between => exact after
  · exact holds

/-- The text that is run behind the earlier ones, on a machine that has run them. -/
def laterSurvey (limits : Limits) (number : Nat) (machine : Machine)
    (earlier : List (Bool × String)) (text : Bool × String)
    : Survey :=
  textSurvey (number + earlier.length) (machine.runSession limits earlier).2.globalNames text.1
    text.2 limits.depth

/-- A session only notes listed uses, by induction on its steps. -/
theorem Listed.runSession {steps : List (Bool × String)} (idle : watched.Idle)
    (holds : watched.Listed listed) (limits : Limits)
    (all
      : ∀ earlier text later,
          steps = earlier ++ text :: later
          → (laterSurvey limits number watched.machine earlier text).All listed)
    : (watched.runSession limits number steps).2.Listed listed := by
  induction steps generalizing watched number with
  | nil => exact holds
  | cons step rest ih =>
      obtain ⟨allowExpression, source⟩ := step
      have first := all [] (allowExpression, source) rest rfl
      have next := idle.runSource limits number allowExpression source
      rw [runSession_cons]
      refine ih next.idle (holds.runSource limits first) fun earlier text later same => ?_
      have others := all ((allowExpression, source) :: earlier) text later (by rw [same]; rfl)
      unfold laterSurvey at others ⊢
      rw [Machine.runSession_cons, List.length_cons] at others
      rw [next.machine, Nat.add_right_comm]
      exact others

end Watched

-----
-- Locals that are warned about

/-- The lookup goes to the name in an instance of the scope. -/
def Lookup.Reaches (lookup : Lookup) (frame : Frame) (name : String) : Prop :=
  lookup.use.token.lexeme = name
  ∧ ∃ distance scope,
      lookup.site.distance lookup.use = some distance
      ∧ lookup.machine.scopes.ancestor? lookup.machine.current distance = some scope
      ∧ lookup.frameOf scope = frame

/-- The body knows the name where the statement of the number starts. -/
def Body.Knows (body : Body) (index : Nat) (name : String) : Prop :=
  name ∈ body.parameters.map (·.lexeme) ∨ DeclaredBefore body.statements index name

/-- What a run has to do with a local that is warned about, declared by a statement of the body. -/
structure Body.Abandons (body : Body) (index : Nat) (name : Token) (lookups : List Lookup)
    : Prop
    extends LastToDeclare body.statements index name where
  /-- Whatever looks the name up in the scope stands in a statement before the declaration, and
  there the name was already known in the scope. -/
  reached
    : ∀ lookup ∈ lookups,
        lookup.Reaches body.frame name.lexeme
        → ∃ earlier < index,
            placeOf body.site.place earlier <:+ lookup.site.place
            ∧ body.Knows (earlier + 1) name.lexeme
  /-- So a local is never looked up, unless it is declared under a name that was known already. -/
  never
    : ¬body.Knows index name.lexeme
      → ∀ lookup ∈ lookups, ¬lookup.Reaches body.frame name.lexeme

/-- What the warnings about an accepted text tell. -/
structure WarningsHold (survey : Survey) (report : Report) (lookups : List Lookup) : Prop where
  /-- Every scope warns about what is unused in it, in the order of the lines. -/
  warnings : report.warnings = Diagnostic.sortByLine survey.warnings
  locals
    : ∀ body ∈ survey.bodies, ∀ entry ∈ body.closing.unused.entries,
        entry.2.lexeme = entry.1 ∧ ∃ index, body.Abandons index entry.2 lookups

/-- A lookup that reaches a scope has this scope around it. -/
theorem Lookup.Aligned.around {lookup : Lookup} (aligned : lookup.Aligned) {frame : Frame}
    {name : String} (reaches : lookup.Reaches frame name)
    : ∃ distance,
        lookup.site.distance lookup.use = some distance
        ∧ lookup.site.frames[distance]? = some frame := by
  obtain ⟨-, distance, scope, bound, there, same⟩ := reaches
  obtain ⟨known, here, -⟩ := aligned.bound distance bound
  have less : distance < lookup.site.frames.length := by
    rw [← aligned.scopes]
    exact (List.getElem?_eq_some_iff.1 here).1
  have opened := List.getElem?_eq_getElem less
  obtain ⟨scope', there', -, same'⟩ := aligned.instances distance _ opened
  obtain rfl : scope = scope' := Option.some.inj (there.symm.trans there')
  exact ⟨distance, bound, by rw [opened, ← same', same]⟩

/-- The uses of a body tell which lookups can reach its scope. -/
theorem Retires.abandons {body : Body} {index : Nat} {name : Token}
    (retires
      : Retires body.start body.statements (· ∈ body.parameters.map (·.lexeme)) index name)
    (inner : Inner body.site.place body.site.frames) {lookups : List Lookup}
    (aligned : ∀ lookup ∈ lookups, lookup.Aligned)
    (own
      : ∀ lookup ∈ lookups,
          body.frame ∈ lookup.site.frames → (lookup.site, lookup.use) ∈ body.survey.uses)
    : body.Abandons index name lookups := by
  have reached
      : ∀ lookup ∈ lookups,
          lookup.Reaches body.frame name.lexeme
          → ∃ earlier < index,
              placeOf body.site.place earlier <:+ lookup.site.place
              ∧ body.Knows (earlier + 1) name.lexeme := by
    intro lookup member reaches
    obtain ⟨distance, bound, around⟩ := (aligned lookup member).around reaches
    have listed := own lookup member (List.mem_of_getElem? around)
    have depth := Body.depth inner listed around
    have found := retires.uses _ listed ⟨reaches.1, distance, bound, depth⟩
    rwa [Body.start_place] at found
  refine ⟨retires.toLastToDeclare, reached, fun new lookup member reaches => ?_⟩
  obtain ⟨earlier, less, -, known⟩ := reached lookup member reaches
  exact new (known.imp_right fun declared => declared.mono less)

/-- What the texts of a session hold, one behind the other. -/
theorem lookups_surveyed (limits : Limits) {machine : Machine}
    (idle : (Watched.start machine).Idle) (steps : List (Bool × String))
    : ∀ lookup ∈ ((Watched.start machine).runSession limits 0 steps).2.lookups,
        ∃ earlier text later,
          steps = earlier ++ text :: later
          ∧ (lookup.site, lookup.use)
              ∈ (textSurvey earlier.length (machine.runSession limits earlier).2.globalNames
                  text.1 text.2 limits.depth).uses := by
  let listed (entry : Site × Use) : Prop :=
    ∃ earlier text later,
      steps = earlier ++ text :: later
      ∧ entry ∈ (Watched.laterSurvey limits 0 machine earlier text).uses
  have holds : ((Watched.start machine).runSession limits 0 steps).2.Listed listed :=
    (Watched.listed_start listed machine).runSession idle limits
      fun earlier text later split entry member => ⟨earlier, text, later, split, member⟩
  intro lookup member
  obtain ⟨earlier, text, later, split, found⟩ := holds.lookups lookup member
  refine ⟨earlier, text, later, split, ?_⟩
  rwa [Watched.laterSurvey, Nat.zero_add] at found

/-- A warning about an unused local is right about all that comes behind the declaration: in the
whole session only what stands before it ever looks the variable up, by an earlier declaration of
the same name. -/
theorem unused_abandoned (limits : Limits) (traceLevel : Nat) (readings : Nat → Float)
    (earlier later : List (Bool × String)) (text : Bool × String)
    : let start := Machine.start traceLevel readings
      let machine := (start.runSession limits earlier).2
      let report := (machine.runSource limits text.1 text.2).1
      let steps := earlier ++ text :: later
      let (reports, watched) := (Watched.start start).runSession limits 0 steps
      (reports, watched.machine) = start.runSession limits steps
      ∧ (report.errors = []
        → WarningsHold
            (textSurvey earlier.length machine.globalNames text.1 text.2 limits.depth)
            report watched.lookups) := by
  intro start machine report steps
  have begun := Watched.idle_start traceLevel readings
  obtain ⟨same, idle, -⟩ := begun.runSession limits 0 steps
  refine ⟨same, fun clean => ⟨warnings_accepted clean _, fun body member entry warned => ?_⟩⟩
  have placed
      : (textSurvey earlier.length machine.globalNames text.1 text.2 limits.depth).Placed
          [earlier.length] [] :=
    textSurvey_placed _ _ _ _ _
  obtain ⟨inside, inner⟩ := placed.bodies body member
  have proper := (textSurvey_accounts _ _ _ _ _).proper body member
  obtain ⟨named, index, retires⟩ := Body.retires proper inner warned
  refine ⟨named, index, retires.abandons inner
    (fun lookup found => (idle.sound.lookups lookup found).1) fun lookup found around => ?_⟩
  obtain ⟨before, text', after, split, listed⟩ := lookups_surveyed limits begun steps lookup found
  -- Only the places of the text itself lie inside of its body.
  have outer := (textSurvey_placed _ _ _ _ _).uses _ listed
  have number : before.length = earlier.length := by
    rcases outer.2.mem around with here | none
    · rw [Body.frame_place] at here
      exact Survey.part_unique here inside
    · cases none
  obtain ⟨rfl, rest⟩ := List.append_inj split.symm number
  obtain ⟨rfl, -⟩ := List.cons.inj rest
  exact placed.owned _ listed body member around

/-- A function reads the second `a`, which is reported as unused: it was declared when the name
stood for the first one, in the same scope. -/
theorem unused_redeclared_read
    : let source := "\x7b var a = nil; fun f() \x7b println a; \x7d var a = true; f(); \x7d"
      let run := (Machine.start 0 fun _ => 0).runSource { nesting := 20, rounds := 1 } false source
      run.1.warnings.map Diagnostic.text
        = ["[line 1] Warning at 'a': Local variable 'a' is never used."]
      ∧ run.1.output = "true\n" := by
  decide +kernel

end Lox.Scoping
