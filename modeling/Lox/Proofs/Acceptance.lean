import Lox.Proofs.Listing
import Lox.Proofs.Scoping.Session

/-! What more known names change, and that a text that was accepted stays accepted.

A name that is known keeps reads of it from being errors, and does nothing else. A session only adds
names.
-/

namespace Lox

open Scoping (Watched)

namespace Program

variable {known more : List String} {allowExpression : Bool} {source : String} {depth : Nat}

/-- A text that is accepted where fewer names are known runs as the same program. -/
theorem accepted_informs (larger : known ⊆ more)
    (accepted : (ofSource allowExpression known source depth).accepted = true)
    : (ofSource allowExpression more source depth).accepted = true
      ∧ (ofSource allowExpression more source depth).statements
        = (ofSource allowExpression known source depth).statements := by
  refine ⟨?_, (ofSource_informs larger allowExpression source depth).1⟩
  have none := List.isEmpty_iff.1 accepted
  unfold Program.accepted
  rw [errors_informs larger, none]
  rfl

end Program

-----
-- Global names of a session

/-- No run removes a global, whether or not it ends in a fault. -/
theorem Scoping.Watched.Idle.globalNames_runSource {watched : Watched} (idle : watched.Idle)
    (limits : Limits) (allowExpression : Bool) (source : String)
    : watched.machine.globalNames
        ⊆ (watched.machine.runSource limits allowExpression source).2.globalNames := by
  let program := Program.ofSource allowExpression watched.machine.globalNames source limits.depth
  by_cases accepted : program.accepted = true
  · obtain ⟨after, grows, last⟩ := idle.runSource_grows limits (Program.accepted_iff.1 accepted)
    intro name member
    rw [last]
    exact Machine.mem_globalNames.2 (grows.cell _ _ (Machine.mem_globalNames.1 member))
  · unfold Machine.runSource
    rw [if_neg accepted]
    exact List.Subset.refl _

/-- A session takes no name away from those that are known. -/
theorem Scoping.Watched.Idle.globalNames_runSession {watched : Watched} (idle : watched.Idle)
    (limits : Limits) (steps : List (Bool × String))
    : watched.machine.globalNames ⊆ (watched.machine.runSession limits steps).2.globalNames := by
  induction steps generalizing watched with
  | nil => exact List.Subset.refl _
  | cons step rest ih =>
      obtain ⟨allowExpression, source⟩ := step
      obtain ⟨-, same, idleAfter, -⟩ := idle.runSource limits 0 allowExpression source
      have later := ih idleAfter
      rw [same] at later
      exact List.Subset.trans (idle.globalNames_runSource limits allowExpression source) later

-----
-- Known names

/-- The error of a read in the initializer of the name itself, where only the longer list has the
name. -/
def ReadsNewlyKnown (known more : List String) (statements : List (Stmt Unit))
    (diagnostic : Diagnostic)
    : Prop :=
  ∃ target ∈ Binding.stmtsVariables statements,
    target.name.lexeme ∈ more
    ∧ target.name.lexeme ∉ known
    ∧ diagnostic = Diagnostic.atToken target.name .readInOwnInitializer

/-- Two points of one session, and a text that may be run at both. -/
structure StaysAccepted (allowExpression : Bool) (source : String) (depth : Nat)
    (earlier later : Machine)
    : Prop where
  /-- All globals are still there. -/
  globals : earlier.globalNames ⊆ later.globalNames
  /-- If the text was accepted, it still is, and it is bound alike. -/
  accepted
    : let program := Program.ofSource allowExpression earlier.globalNames source depth
      let program' := Program.ofSource allowExpression later.globalNames source depth
      program.accepted = true
      → program'.accepted = true ∧ program'.statements = program.statements

/-- Where more names are known, any program is bound to the same scopes with the same warnings, and
of its errors only reads of these names in their own initializers may be missing. So a text that is
accepted at one point of a session is accepted at all later ones, and bound alike. -/
theorem known_names_only_spare
    : (∀ known more : List String,
        known ⊆ more
        → ∀ statements : List (Stmt Unit),
            (bind known statements).Spares (ReadsNewlyKnown known more statements)
              (bind more statements))
      ∧ ∀ (limits : Limits) (traceLevel : Nat) (readings : Nat → Float)
          (before between : List (Bool × String)) (allowExpression : Bool) (source : String)
          (depth : Nat),
          let earlier := ((Machine.start traceLevel readings).runSession limits before).2
          StaysAccepted allowExpression source depth earlier
            (earlier.runSession limits between).2 := by
  constructor
  · intro known more larger statements
    obtain ⟨same, warnings, errors⟩ := (bind_spares larger statements).1
    refine ⟨same, warnings, errors.weaken ?_⟩
    rintro _ ⟨_, ⟨target, member, rfl⟩, extra, rfl⟩
    have ⟨isKnown, wasNot⟩ := mem_besides.1 extra
    exact ⟨target, member, isKnown, wasNot, rfl⟩
  · intro limits traceLevel readings before between allowExpression source depth earlier
    obtain ⟨same, idle, -⟩ :=
      (Watched.idle_start traceLevel readings).runSession limits 0 before
    have reached
        : ((Watched.start (Machine.start traceLevel readings)).runSession limits 0 before).2.machine
            = earlier :=
      congrArg Prod.snd same
    have larger := idle.globalNames_runSession limits between
    rw [reached] at larger
    exact ⟨larger, Program.accepted_informs larger⟩

/-- Witness: a variable `clock` that starts as the function, and a session that adds a global. -/
theorem known_names_only_spare_clock
    : let statements := (parse false (scan "var clock = clock;").tokens 9).statements
      let earlier := ((Machine.start 0 fun _ => 0).runSession .standard []).2
      let later := (earlier.runSession .standard [(false, "var a = 1;")]).2
      (bind [] statements).errors.length = 1
      ∧ (bind ["clock"] statements).errors.length = 0
      ∧ (bind [] statements).Spares (ReadsNewlyKnown [] ["clock"] statements)
          (bind ["clock"] statements)
      ∧ (Program.ofSource true later.globalNames "clock()" 9).accepted = true := by
  intro statements earlier later
  have spares := known_names_only_spare.1 [] ["clock"] (by decide) statements
  have stays := known_names_only_spare.2 .standard 0 (fun _ => 0) [] [(false, "var a = 1;")] true
    "clock()" 9
  exact ⟨by decide +kernel, by decide +kernel, spares, (stays.accepted (by decide +kernel)).1⟩

end Lox
