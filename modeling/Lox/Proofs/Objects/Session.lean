import Lox.Proofs.Objects.Histories
import Lox.Proofs.Program
import Lox.Proofs.Renaming.Binding

/-! Worlds and histories of whole sessions. -/

namespace Lox

open Running (Moment)

-----
-- Moments of a session

namespace Machine

/-- The assignments to fields in the course of one source text. -/
def sourceAssignments (limits : Limits) (allowExpression : Bool) (source : String)
    (machine : Machine)
    : List Assignment :=
  let program := Program.ofSource allowExpression machine.globalNames source limits.depth
  if program.accepted then
    (Moment.start limits program.statements machine).assignments limits.rounds
  else
    []

/-- The assignments to fields in the course of a session, in their order. -/
def assignments (limits : Limits) : List (Bool × String) → Machine → List Assignment
  | [], _ => []
  | (allowExpression, source) :: rest, machine =>
      machine.sourceAssignments limits allowExpression source
        ++ assignments limits rest (machine.runSource limits allowExpression source).2

end Machine

/-- The session comes to the moment, and has assigned so much to fields before it. -/
inductive Reached (limits : Limits)
    : List (Bool × String) → Machine → List Assignment → Moment → Prop
  | here {allowExpression : Bool} {source : String} {rest : List (Bool × String)}
    {machine : Machine} {path : List Nat} {moment : Moment}
    (accepted
      : (Program.ofSource allowExpression machine.globalNames source limits.depth).accepted = true)
    (found
      : (Moment.start limits
            (Program.ofSource allowExpression machine.globalNames source limits.depth).statements
            machine).at? limits.rounds path
          = some moment)
    : Reached limits ((allowExpression, source) :: rest) machine
        ((Moment.start limits
            (Program.ofSource allowExpression machine.globalNames source limits.depth).statements
            machine).assignmentsBefore limits.rounds path)
        moment
  | later {allowExpression : Bool} {source : String} {rest : List (Bool × String)}
    {machine : Machine} {history : List Assignment} {moment : Moment}
    (reached
      : Reached limits rest (machine.runSource limits allowExpression source).2 history moment)
    : Reached limits ((allowExpression, source) :: rest) machine
        (machine.sourceAssignments limits allowExpression source ++ history) moment

/-- What a moment comes to, the session comes to as well. -/
theorem Reached.part {limits : Limits} {steps : List (Bool × String)} {machine : Machine}
    {history : List Assignment} {moment part : Moment} (reached : Reached limits steps machine history moment)
    (index : Nat) (found : (moment.parts limits.rounds)[index]? = some part)
    : Reached limits steps machine
        (history
          ++ ((moment.parts limits.rounds).take index).flatMap (Moment.assignments limits.rounds))
        part := by
  induction reached with
  | @here allowExpression source rest machine path moment accepted found' =>
      have further := Moment.assignmentsBefore_append found' [index]
      have there := Moment.at?_append limits.rounds
        (Moment.start limits
          (Program.ofSource allowExpression machine.globalNames source limits.depth).statements
          machine)
        path [index]
      rw [found'] at there
      have step
          : moment.assignmentsBefore limits.rounds [index]
              = ((moment.parts limits.rounds).take index).flatMap
                  (Moment.assignments limits.rounds) := by
        simp only [Moment.assignmentsBefore, found, Option.map_some, Option.getD_some,
          List.append_nil]
      rw [← step, ← further]
      refine .here accepted (there.trans ?_)
      change (moment.parts limits.rounds)[index]?.bind _ = _
      rw [found]
      rfl
  | later _ ih =>
      rw [List.append_assoc]
      exact .later (ih found)

-----
-- Worlds of a session

/-- An accepted text is a proper tree, whatever its names are bound to. -/
theorem Program.statements_proper {allowExpression : Bool} {known : List String} {source : String}
    {depth : Nat}
    (accepted : (Program.ofSource allowExpression known source depth).accepted = true)
    : ProperStmts
        (unboundStmts (Program.ofSource allowExpression known source depth).statements) := by
  obtain ⟨scanned, parsed, -⟩ := Program.accepted_iff.1 accepted
  rw [Program.ofSource_clean scanned parsed]
  have same :=
    Binding.bindStmts_unbound (parse allowExpression (scan source).tokens depth).statements
      (.start known)
  exact same.symm ▸ (Grammar.parse_proper allowExpression source depth).1

/-- The machine starts with a world in which nothing was created. -/
theorem Machine.start_sound (traceLevel : Nat) (readings : Nat → Float)
    : (World.start (start traceLevel readings)).Sound where
  here := Nat.zero_lt_one
  parents scope parent found := by cases (start_parent? scope).symm.trans found
  classes _ _ none := by cases none
  instances _ _ none := by cases none
  cells scope name value found := by
    obtain ⟨-, rfl⟩ := start_cell? found
    trivial
  receivers scope value found := absurd (start_cell? found).1 (by decide)
  fields _ _ _ none := by cases none
  assigned _ none := by cases none
  addressed _ none := by cases none

namespace World

/-- There are worlds around the moment, between those two, and the history up to the moment is
this one. -/
def Holds (limits : Limits) (before : World) (history : List Assignment) (moment : Moment)
    (after : World)
    : Prop :=
  ∃ start finish,
    before.Extends start
    ∧ moment.Begins start
    ∧ start.history = before.history ++ history
    ∧ moment.Ends limits.rounds start finish
    ∧ finish.Extends after

variable {limits : Limits} {world : World}

/-- A source keeps the world sound, accepted or not. -/
theorem Sound.runSource (sound : world.Sound) (limits : Limits) (allowExpression : Bool)
    (source : String)
    : ∃ after : World,
        after.machine = (world.machine.runSource limits allowExpression source).2
        ∧ world.Extends after
        ∧ after.Sound
        ∧ after.history
            = world.history ++ world.machine.sourceAssignments limits allowExpression source
        ∧ ∀ path moment,
            let program :=
              Program.ofSource allowExpression world.machine.globalNames source limits.depth
            let start := Moment.start limits program.statements world.machine
            program.accepted = true
            → start.at? limits.rounds path = some moment
            → world.Holds limits (start.assignmentsBefore limits.rounds path) moment after := by
  let program := Program.ofSource allowExpression world.machine.globalNames source limits.depth
  let start := Moment.start limits program.statements world.machine
  cases accepted : program.accepted with
  | false =>
      have nothing : world.machine.sourceAssignments limits allowExpression source = [] := by
        unfold Machine.sourceAssignments
        simp only
        rw [if_neg (by rw [accepted]; exact Bool.false_ne_true)]
      refine ⟨world, ?_, .refl world, sound, ?_, fun path moment accepted' => ?_⟩
      · rw [Machine.runSource_rejected accepted]
      · rw [nothing, List.append_nil]
      · cases accepted.symm.trans accepted'
  | true =>
      have made
          : world.machine.sourceAssignments limits allowExpression source
              = start.assignments limits.rounds := by
        unfold Machine.sourceAssignments
        simp only
        rw [if_pos accepted]
      obtain ⟨grows, begun⟩ :=
        sound.still { world.machine with output := "" } rfl rfl (Nat.le_refl _)
          sound.here
      have begins : start.Begins (world.on { world.machine with output := "" }) :=
        ⟨rfl, begun, Program.statements_proper accepted⟩
      obtain ⟨after, ends, passes⟩ := @Moment.proceeds limits.rounds _ _ begins
      refine ⟨after, ?_, grows.toExtends.trans ends.more, ends.sound, ?_, ?_⟩
      · rw [Machine.runSource_accepted accepted, ← Moment.after_start]
        exact ends.machine
      · rw [made, ends.history, grows.history]
      · intro path moment program' start' _ found
        obtain ⟨first, finish, more, begins, history, ended, last⟩ := passes path moment found
        exact ⟨first, finish, grows.toExtends.trans more, begins, grows.history ▸ history, ended, last⟩

/-- What holds between two moments holds in the worlds around them. -/
theorem Holds.between {before between after last : World} (earlier : List Assignment)
    {history : List Assignment} {moment : Moment}
    (holds : between.Holds limits history moment after)
    (front : before.Extends between) (made : between.history = before.history ++ earlier)
    (back : after.Extends last)
    : before.Holds limits (earlier ++ history) moment last := by
  obtain ⟨start, finish, more, begins, told, ends, further⟩ := holds
  refine ⟨start, finish, front.trans more, begins, ?_, ends, further.trans back⟩
  rw [told, made, List.append_assoc]

/-- However long a session is, one world in the end knows all that was ever created. -/
theorem Sound.runSession (sound : world.Sound) (limits : Limits) (steps : List (Bool × String))
    : ∃ after : World,
        after.machine = (world.machine.runSession limits steps).2
        ∧ world.Extends after
        ∧ after.Sound
        ∧ after.history = world.history ++ world.machine.assignments limits steps
        ∧ ∀ history moment,
            Reached limits steps world.machine history moment
            → world.Holds limits history moment after := by
  induction steps generalizing world with
  | nil =>
      refine ⟨world, rfl, .refl world, sound, (List.append_nil _).symm, ?_⟩
      intro history moment none
      cases none
  | cons step rest ih =>
      obtain ⟨allowExpression, source⟩ := step
      obtain ⟨between, ended, more, sound', made, first⟩ :=
        sound.runSource limits allowExpression source
      obtain ⟨after, last, further, sound'', history, later⟩ := ih sound'
      rw [ended] at last history later
      refine ⟨after, last, more.trans further, sound'', ?_, ?_⟩
      · rw [history, made, List.append_assoc]
        rfl
      · intro history moment reached
        cases reached with
        | here accepted found =>
            exact (first _ moment accepted found).between [] (.refl world)
              (List.append_nil _).symm further
        | later reached =>
            exact (later _ moment reached).between _ more made (.refl after)

end World

end Lox
