import Lox.Proofs.Objects.Scripts
import Lox.Proofs.Running.Operations

/-! The history of a run: which fields it assigns to, one after another.

Around every moment of a run there is a world in which all that the moment handles is known, and
what the run has assigned up to there is the history of that world. The worlds of the moments of a
run extend each other.
-/

namespace Lox

namespace Running

-----
-- Parts are smaller

/-- Every part of a script is one of its pieces. -/
theorem Script.part_piece {α : Type} {rounds nesting : Nat} {script : Script α} {machine : Machine}
    {part : Moment} (listed : part ∈ script.parts rounds nesting machine)
    : .part part ∈ script.pieces rounds nesting machine := by
  induction script generalizing machine with
  | done value => cases listed
  | act action next ih =>
      unfold Script.parts at listed
      unfold Script.pieces
      cases run : action machine with
      | ok value after =>
          rw [run] at listed
          exact List.mem_cons_of_mem _ (ih value listed)
      | error fault after =>
          rw [run] at listed
          cases listed
  | ask task next ih =>
      unfold Script.parts at listed
      unfold Script.pieces
      rcases List.mem_cons.1 listed with rfl | later
      · exact List.mem_cons_self
      · refine List.mem_cons_of_mem _ ?_
        cases run : task.run (Evaluator.ofNesting rounds nesting) machine with
        | ok answer after =>
            rw [run] at later
            exact ih answer later
        | error fault after =>
            rw [run] at later
            cases later

namespace Moment

/-- Every part of a moment is one of its pieces. -/
theorem part_piece {rounds : Nat} {moment part : Moment} (listed : part ∈ moment.parts rounds)
    : .part part ∈ moment.pieces rounds := by
  obtain ⟨nesting, task, machine⟩ := moment
  cases task with
  | evaluate expr =>
      cases nesting with
      | zero => cases listed
      | succ nesting => exact Script.part_piece listed
  | execute stmt =>
      cases nesting with
      | zero => cases listed
      | succ nesting => exact Script.part_piece listed
  | enter parent bindings stmts =>
      rw [parts_enter rounds rfl] at listed
      obtain rfl := List.mem_singleton.1 listed
      exact List.mem_cons_of_mem _ List.mem_cons_self
  | limited paren callee arguments =>
      obtain rfl := List.mem_singleton.1 listed
      exact List.mem_cons_self
  | _ => exact Script.part_piece listed

/-- Every part of a moment is smaller than the moment. -/
theorem smaller_of_listed {rounds : Nat} {moment part : Moment}
    (listed : part ∈ moment.parts rounds)
    : part.Smaller moment :=
  smaller_of_part (part_piece listed)

-----
-- Assignments

/-- The assignment to a field that the moment makes by itself, if it makes one. -/
def assignment? (rounds : Nat) (moment : Moment) : Option Assignment :=
  match moment.task, moment.nesting with
  | .evaluate (.set object name value), nesting + 1 =>
      let parts := Evaluator.ofNesting rounds nesting
      match parts.evaluate object moment.machine with
      | .ok (.object address _) between =>
          match parts.evaluate value between with
          | .ok value _ => some { address, name := name.lexeme, value }
          | .error _ _ => none
      | _ => none
  | _, _ => none

/-- All assignments to fields in the course of a moment, in their order: the parts of an assignment
are evaluated first. -/
def assignments (rounds : Nat) (moment : Moment) : List Assignment :=
  ((moment.parts rounds).attach.flatMap fun ⟨part, _⟩ => part.assignments rounds)
    ++ (moment.assignment? rounds).toList
termination_by (moment.nesting, moment.task.rank, moment.task.length)
decreasing_by exact smaller_of_listed ‹_›

/-- The assignments of a moment are those of its parts, and then its own. -/
theorem assignments_eq (rounds : Nat) (moment : Moment)
    : moment.assignments rounds
        = (moment.parts rounds).flatMap (assignments rounds)
          ++ (moment.assignment? rounds).toList := by
  have all := List.flatMap_map Subtype.val (assignments rounds) (moment.parts rounds).attach
  rw [List.attach_map_subtype_val] at all
  rw [assignments, all]

/-- The assignments in the course of a moment before it comes to the place that a path leads to. -/
def assignmentsBefore (rounds : Nat) (moment : Moment) : List Nat → List Assignment
  | [] => []
  | index :: path =>
      let parts := moment.parts rounds
      (parts.take index).flatMap (assignments rounds)
        ++ (parts[index]?.map fun part => part.assignmentsBefore rounds path).getD []

/-- The assignments before a moment further in are those before it and those inside of it. -/
theorem assignmentsBefore_append {rounds : Nat} {moment inner : Moment} {path : List Nat}
    (found : moment.at? rounds path = some inner) (more : List Nat)
    : moment.assignmentsBefore rounds (path ++ more)
        = moment.assignmentsBefore rounds path ++ inner.assignmentsBefore rounds more := by
  induction path generalizing moment with
  | nil =>
      obtain rfl := Option.some.inj found
      rfl
  | cons index path ih =>
      obtain ⟨part, listed, found⟩ := Option.bind_eq_some_iff.1 found
      simp only [List.cons_append, assignmentsBefore, listed, Option.map_some, Option.getD_some,
        ih found, List.append_assoc]

-----
-- Worlds around a moment

/-- Everything that the moment starts with is known. -/
structure Begins (moment : Moment) (world : World) : Prop where
  machine : world.machine = moment.machine
  sound : world.Sound
  known : moment.task.Known world

/-- The world has grown by what was created and assigned in the course of the moment. -/
structure Ends (rounds : Nat) (moment : Moment) (before after : World) : Prop where
  machine : after.machine = moment.after rounds
  more : before.Extends after
  sound : after.Sound
  history : after.history = before.history ++ moment.assignments rounds
  answer
    : ∀ answer machine,
        moment.outcome rounds = .ok answer machine → moment.task.Yields after answer

/-- There are worlds around the moment that the path leads to, between those two. -/
def Passes (rounds : Nat) (moment : Moment) (path : List Nat) (before after : World) : Prop :=
  ∀ inner,
    moment.at? rounds path = some inner
    → ∃ start finish,
        before.Extends start
        ∧ inner.Begins start
        ∧ start.history = before.history ++ moment.assignmentsBefore rounds path
        ∧ inner.Ends rounds start finish
        ∧ finish.Extends after

/-- The moment leads to another world, and all moments on the way have worlds around them. -/
def Proceeds (rounds : Nat) (moment : Moment) (before : World) : Prop :=
  ∃ after, moment.Ends rounds before after ∧ ∀ path, moment.Passes rounds path before after

end Moment

/-- What is done from one world to the next comes to these moments, besides actions that assign to
no field. -/
structure Covers (rounds : Nat) (before : World) (parts : List Moment) (after : World) : Prop where
  more : before.Extends after
  sound : after.Sound
  history : after.history = before.history ++ parts.flatMap (Moment.assignments rounds)
  inside
    : ∀ index path inner,
        parts[index]?.bind (fun part => part.at? rounds path) = some inner
        → ∃ start finish,
            before.Extends start
            ∧ inner.Begins start
            ∧ start.history
                = before.history
                  ++ ((parts.take index).flatMap (Moment.assignments rounds)
                    ++ (parts[index]?.map fun part => part.assignmentsBefore rounds path).getD [])
            ∧ inner.Ends rounds start finish
            ∧ finish.Extends after

namespace Covers

variable {rounds : Nat} {before between after : World} {parts : List Moment} {part : Moment}

/-- Without parts the world may have grown. -/
theorem nil (grows : before.Grows after) (sound : after.Sound)
    : Covers rounds before [] after where
  more := grows.toExtends
  sound := sound
  history := grows.history.trans (List.append_nil _).symm
  inside _ _ _ none := by cases none

/-- In front of the first part the world may have grown. -/
theorem behind (grows : before.Grows between) (rest : Covers rounds between parts after)
    : Covers rounds before parts after where
  more := grows.toExtends.trans rest.more
  sound := rest.sound
  history := grows.history ▸ rest.history
  inside index path inner found := by
    obtain ⟨start, finish, further, begins, history, ends, last⟩ :=
      rest.inside index path inner found
    exact ⟨start, finish, grows.toExtends.trans further, begins, grows.history ▸ history, ends, last⟩

/-- A part is covered if it ends in a world that covers the rest. -/
theorem cons (ends : part.Ends rounds before between)
    (passes : ∀ path, part.Passes rounds path before between)
    (rest : Covers rounds between parts after)
    : Covers rounds before (part :: parts) after where
  more := ends.more.trans rest.more
  sound := rest.sound
  history := by rw [rest.history, ends.history, List.flatMap_cons, List.append_assoc]
  inside index path inner found := by
    cases index with
    | zero =>
        obtain ⟨start, finish, further, begins, history, ended, last⟩ := passes path inner found
        exact ⟨start, finish, further, begins, history, ended, last.trans rest.more⟩
    | succ index =>
        obtain ⟨start, finish, further, begins, history, ended, last⟩ :=
          rest.inside index path inner found
        refine ⟨start, finish, ends.more.trans further, begins, ?_, ended, last⟩
        rw [history, ends.history]
        simp only [List.take_succ_cons, List.flatMap_cons, List.append_assoc,
          List.getElem?_cons_succ]

/-- The worlds around the parts of a moment are on its way. -/
theorem passes {moment : Moment} {last : World} (begins : moment.Begins before)
    (covers : Covers rounds before (moment.parts rounds) after)
    (ends : moment.Ends rounds before last) (more : after.Extends last)
    : ∀ path, moment.Passes rounds path before last := by
  intro path inner found
  cases path with
  | nil =>
      obtain rfl := Option.some.inj found
      exact ⟨before, last, .refl before, begins, (List.append_nil _).symm, ends, .refl last⟩
  | cons index path =>
      obtain ⟨start, finish, further, begins, history, ended, beyond⟩ :=
        covers.inside index path inner found
      exact ⟨start, finish, further, begins, history, ended, beyond.trans more⟩

end Covers

end Running

open Running

-----
-- Runs

/-- A script that fits leads from one world to another if everything that it may ask for does. -/
theorem World.Fits.covers {α : Type} {post : α → World → Prop} {rounds nesting : Nat}
    {allowed : Task → Prop} {holds : ∀ {α : Type}, Run α → Prop} {script : Script α}
    {before : World} (fits : before.Fits post script) (sound : before.Sound)
    (regular : script.Regular holds allowed)
    (parts
      : ∀ task world,
          allowed task
          → Moment.Begins { nesting, task, machine := world.machine } world
          → Moment.Proceeds rounds { nesting, task, machine := world.machine } world)
    : ∃ after,
        after.machine = leaves (script.run (Evaluator.ofNesting rounds nesting)) before.machine
        ∧ Covers rounds before (script.parts rounds nesting before.machine) after
        ∧ ∀ value machine,
            script.run (Evaluator.ofNesting rounds nesting) before.machine = .ok value machine
            → post value after := by
  induction script generalizing before with
  | done value =>
      refine ⟨before, rfl, .nil (.refl before) sound, ?_⟩
      intro value' machine run
      cases run
      exact fits
  | act action next ih =>
      unfold Script.parts Script.run
      change before.Keeps action _ at fits
      unfold Keeps at fits
      cases run : action before.machine with
      | ok value machine =>
          rw [run] at fits
          obtain ⟨between, rfl, grows, sound, fits⟩ := fits
          obtain ⟨after, ended, covers, holds⟩ := ih value fits sound (regular.2 value)
          refine ⟨after, ?_, .behind grows covers, fun value machine ran => ?_⟩
          · rw [leaves_bind_ok run]
            exact ended
          · rw [bind_ok run] at ran
            exact holds value machine ran
      | error fault machine =>
          rw [run] at fits
          obtain ⟨after, rfl, grows, sound⟩ := fits
          refine ⟨after, (leaves_bind_error run).symm, .nil grows sound, fun value machine ran => ?_⟩
          rw [bind_error run] at ran
          cases ran
  | ask task next ih =>
      unfold Script.parts Script.run
      obtain ⟨known, fits⟩ := fits
      obtain ⟨between, ends, passes⟩ := parts task before regular.1 ⟨rfl, sound, known⟩
      cases run : task.run (Evaluator.ofNesting rounds nesting) before.machine with
      | ok answer machine =>
          have left : between.machine = machine := ends.machine.trans (leaves_ok run)
          subst left
          have yields := ends.answer answer _ run
          obtain ⟨after, ended, covers, holds⟩ :=
            ih answer (fits answer between ends.more ends.sound yields) ends.sound (regular.2 answer)
          refine ⟨after, ?_, .cons ends passes covers, fun value machine ran => ?_⟩
          · rw [leaves_bind_ok run]
            exact ended
          · rw [bind_ok run] at ran
            exact holds value machine ran
      | error fault machine =>
          refine ⟨between, ?_, .cons ends passes (.nil (.refl between) ends.sound), ?_⟩
          · rw [leaves_bind_error run]
            exact ends.machine.trans (leaves_error run)
          · intro value machine ran
            rw [bind_error run] at ran
            cases ran

namespace Running

variable {rounds : Nat} {world : World}

/-- A moment proceeds as its script does, unless it is an assignment to a field. -/
theorem Moment.proceeds_script {nesting : Nat} {moment : Moment} (begins : moment.Begins world)
    {script : Script moment.task.Answer} {allowed : Task → Prop}
    (regular : script.Regular AllOrNothing allowed)
    (runs
      : script.run (Evaluator.ofNesting rounds nesting)
          = moment.task.run (Evaluator.ofNesting rounds moment.nesting))
    (listed : moment.parts rounds = script.parts rounds nesting moment.machine)
    (quiet : moment.assignment? rounds = none)
    (fits : world.Fits (fun answer after => moment.task.Yields after answer) script)
    (parts
      : ∀ task world,
          allowed task
          → Moment.Begins { nesting, task, machine := world.machine } world
          → Moment.Proceeds rounds { nesting, task, machine := world.machine } world)
    : moment.Proceeds rounds world := by
  obtain ⟨after, ended, covers, holds⟩ := fits.covers begins.sound regular parts
  rw [begins.machine, ← listed] at covers
  rw [begins.machine, runs] at ended holds
  have ends : moment.Ends rounds world after := {
    machine := ended
    more := covers.more
    sound := covers.sound
    history := by
      rw [covers.history, assignments_eq, quiet]
      exact congrArg _ (List.append_nil _).symm
    answer := holds
  }
  exact ⟨after, ends, covers.passes begins ends (.refl after)⟩

/-- Where nothing may be nested any more, nothing happens. -/
theorem Moment.proceeds_exhausted {task : Task} {machine : Machine}
    (begins : Moment.Begins { nesting := 0, task, machine } world)
    (run : task.run (Evaluator.ofNesting rounds 0) = throw .tooDeep)
    (alone : Moment.parts rounds { nesting := 0, task, machine } = [])
    (quiet : Moment.assignment? rounds { nesting := 0, task, machine } = none)
    : Moment.Proceeds rounds { nesting := 0, task, machine } world := by
  let script : Script task.Answer := .does (throw .tooDeep)
  have regular : script.Regular AllOrNothing fun _ => False :=
    ⟨(Peeks.throw _).allOrNothing, fun _ => trivial⟩
  have runs : script.run (Evaluator.ofNesting rounds 0) = task.run (Evaluator.ofNesting rounds 0) :=
    (Script.run_does _ _).trans run.symm
  exact proceeds_script begins regular runs alone quiet (.does (.throw begins.sound _))
    fun _ _ none => none.elim

/-- Statements in a new scope go on from a world that has the scope. -/
theorem Moment.proceeds_enter {nesting : Nat} {parent : Nat} {bindings : List (Token × Value)}
    {stmts : List BoundStmt}
    (begins : Moment.Begins { nesting, task := .enter parent bindings stmts, machine := world.machine } world)
    (inside
      : ∀ world,
          Moment.Begins { nesting, task := .executeAll stmts, machine := world.machine } world
          → Moment.Proceeds rounds
              { nesting, task := .executeAll stmts, machine := world.machine } world)
    : Moment.Proceeds rounds
        { nesting, task := .enter parent bindings stmts, machine := world.machine } world := by
  have sound := begins.sound
  obtain ⟨there, known, proper⟩ := begins.known
  obtain ⟨grows, opened⟩ :=
    sound.entered there (fun binding member => (known binding member).1)
      fun binding member => (known binding member).2
  obtain ⟨moved, entered⟩ :=
    opened.still (world.machine.entered parent bindings) rfl rfl (Nat.le_refl _)
      (Nat.lt_of_lt_of_eq (Nat.lt_succ_self _) (Array.size_push _).symm)
  obtain ⟨last, ends, passes⟩ := inside _ ⟨rfl, entered, proper⟩
  obtain ⟨back, sound⟩ :=
    ends.sound.still { last.machine with current := world.machine.current } rfl rfl
      (Nat.le_refl _)
      (Nat.lt_of_lt_of_le sound.here ((grows.trans moved).toExtends.trans ends.more).scopes)
  let moment : Moment := {
    nesting, task := .enter parent bindings stmts, machine := world.machine
  }
  let body : Moment := {
    nesting, task := .executeAll stmts, machine := world.machine.entered parent bindings
  }
  have listed : moment.parts rounds = [body] := parts_enter rounds rfl
  have covers : Covers rounds world (moment.parts rounds) last := by
    rw [listed]
    exact .behind (grows.trans moved) (.cons ends passes (.nil (.refl last) ends.sound))
  have run
      : moment.task.run (Evaluator.ofNesting rounds nesting) world.machine
          = Run.within world.machine.scopes.size
              (body.task.run (Evaluator.ofNesting rounds nesting))
              { world.machine.entered parent bindings with current := world.machine.current } :=
    bind_ok (openScope_run world.machine parent bindings)
  have ended
      : last.machine
          = leaves (body.task.run (Evaluator.ofNesting rounds nesting)) body.machine :=
    ends.machine
  have left : moment.Ends rounds world (last.on { last.machine with current := world.machine.current }) := {
    machine := by
      have entered
          : moment.after rounds
              = { leaves (body.task.run (Evaluator.ofNesting rounds nesting)) body.machine with
                  current := world.machine.current } := by
        unfold Moment.after leaves
        rw [run]
        exact leaves_within _ _ _
      rw [entered, ← ended]
      rfl
    more := covers.more.trans back.toExtends
    sound := sound
    history := by
      rw [back.history, covers.history, assignments_eq]
      exact congrArg _ (List.append_nil _).symm
    answer := by
      intro completion machine finished
      have finished := run.symm.trans finished
      cases ran : body.outcome rounds with
      | ok ending after =>
          rw [Run.within_ok ran] at finished
          cases finished
          exact back.completion (ends.answer _ _ ran)
      | error fault after =>
          rw [Run.within_error ran] at finished
          cases finished
  }
  exact ⟨_, left, covers.passes begins left back.toExtends⟩

/-- A fault that becomes another one leaves the same world behind. -/
theorem Moment.proceeds_limited {nesting : Nat} {paren : Token} {callee : Callable}
    {arguments : List Value}
    (begins
      : Moment.Begins
          { nesting, task := .limited paren callee arguments, machine := world.machine } world)
    (inside
      : ∀ world,
          Moment.Begins { nesting, task := .apply callee arguments, machine := world.machine } world
          → Moment.Proceeds rounds
              { nesting, task := .apply callee arguments, machine := world.machine } world)
    : Moment.Proceeds rounds
        { nesting, task := .limited paren callee arguments, machine := world.machine } world := by
  obtain ⟨last, ends, passes⟩ := inside world ⟨rfl, begins.sound, begins.known⟩
  have covers := Covers.cons ends passes (.nil (.refl last) ends.sound)
  have left
      : Moment.Ends rounds
          { nesting, task := .limited paren callee arguments, machine := world.machine } world
          last := {
    machine := ends.machine.trans (leaves_limitNesting paren _ _).symm
    more := ends.more
    sound := ends.sound
    history := by
      rw [covers.history, assignments_eq]
      exact congrArg _ (List.append_nil _).symm
    answer value machine run := ends.answer value machine (Evaluator.limitNesting_succeeds run)
  }
  exact ⟨last, left, Covers.passes begins covers left (.refl last)⟩

/-- Only an assignment to a field makes one. -/
theorem Moment.assignment?_of_ne {nesting : Nat} {machine : Machine} {expr : BoundExpr}
    (other : ∀ object name value, expr ≠ .set object name value)
    : Moment.assignment? rounds { nesting := nesting + 1, task := .evaluate expr, machine } = none := by
  cases expr with
  | set object name value => exact absurd rfl (other object name value)
  | _ => rfl

/-- Two scripts in a row run one after the other. -/
theorem Script.run_bind {α β : Type} (evaluator : Evaluator) (script : Script β)
    (next : β → Script α)
    : (script >>= next).run evaluator
        = script.run evaluator >>= fun value => (next value).run evaluator := by
  change (script.bind next).run evaluator = _
  induction script with
  | done value => exact (pure_bind value fun value => (next value).run evaluator).symm
  | act action beyond ih =>
      exact (bind_congr fun value => ih value).trans (bind_assoc _ _ _).symm
  | ask task beyond ih =>
      exact (bind_congr fun answer => ih answer).trans (bind_assoc _ _ _).symm

/-- What asks for nothing adds no parts. -/
theorem Script.parts_bind_quiet {α β : Type} {nesting : Nat} (script : Script β)
    {next : β → Script α}
    (quiet : ∀ value machine, (next value).parts rounds nesting machine = [])
    (machine : Machine)
    : (script >>= next).parts rounds nesting machine = script.parts rounds nesting machine := by
  change (script.bind next).parts rounds nesting machine = _
  induction script generalizing machine with
  | done value => exact quiet value machine
  | act action beyond ih =>
      unfold Script.bind Script.parts
      cases action machine with
      | ok value after => exact ih value after
      | error fault after => rfl
  | ask task beyond ih =>
      unfold Script.bind Script.parts
      refine congrArg (List.cons _) ?_
      cases task.run (Evaluator.ofNesting rounds nesting) machine with
      | ok answer after => exact ih answer after
      | error fault after => rfl

/-- What an assignment to a field does once its parts have been evaluated. -/
def assign (name : Token) : Option (Nat × Value) → Script Value
  | some (address, value) => do
      Script.does (Run.setField address name.lexeme value)
      return value
  | none => Script.does (Run.failAt name .fieldOfNonInstance)

/-- An assignment to a field evaluates its object and its value and then assigns. -/
theorem evaluateScript_set (object : BoundExpr) (name : Token) (value : BoundExpr)
    : evaluateScript (.set object name value) = World.setParts object value >>= assign name := by
  refine congrArg (Script.ask _) (funext fun object => ?_)
  cases object <;> rfl

/-- An assignment to a field makes the one that its parts ask for. -/
theorem Moment.assignment?_set (nesting : Nat) (machine : Machine) (object : BoundExpr)
    (name : Token) (value : BoundExpr)
    : Moment.assignment? rounds
          { nesting := nesting + 1, task := .evaluate (.set object name value), machine }
        = match (World.setParts object value).run (Evaluator.ofNesting rounds nesting) machine with
          | .ok (some (address, value)) _ => some { address, name := name.lexeme, value }
          | _ => none := by
  let parts := Evaluator.ofNesting rounds nesting
  have run
      : (World.setParts object value).run parts
          = parts.evaluate object >>= fun held => (World.setValue value held).run parts :=
    rfl
  unfold assignment?
  simp only
  cases held : parts.evaluate object machine with
  | error fault between => rw [run, bind_error held]
  | ok receiver between =>
      rw [run, bind_ok held]
      cases receiver with
      | object address lineage =>
          have rest
              : (World.setValue value (.object address lineage)).run parts
                  = parts.evaluate value >>= fun value => pure (some (address, value)) :=
            rfl
          rw [rest]
          simp only
          cases assigned : parts.evaluate value between with
          | error fault after => rw [bind_error assigned]
          | ok value after =>
              rw [bind_ok assigned]
              rfl
      | _ => rfl

/-- An assignment to a field is made last, behind those of its parts. -/
theorem Moment.proceeds_set {nesting : Nat} {machine : Machine} {object : BoundExpr} {name : Token}
    {value : BoundExpr}
    (begins
      : Moment.Begins
          { nesting := nesting + 1, task := .evaluate (.set object name value), machine } world)
    (parts
      : ∀ task world,
          Moment.Begins { nesting, task, machine := world.machine } world
          → Moment.Proceeds rounds { nesting, task, machine := world.machine } world)
    : Moment.Proceeds rounds
        { nesting := nesting + 1, task := .evaluate (.set object name value), machine } world := by
  let moment : Moment := {
    nesting := nesting + 1, task := .evaluate (.set object name value), machine
  }
  obtain ⟨rfl, sound, known⟩ := begins
  have acts := acts_allOrNothing
  have regular : (World.setParts object value).Regular AllOrNothing fun _ => True := by
    refine .asksThen trivial fun receiver => ?_
    cases receiver with
    | object address lineage => exact .asksThen trivial fun _ => .done
    | _ => exact .done
  obtain ⟨between, ended, covers, holds⟩ :=
    (World.fits_setParts known.1 known.2).covers sound regular fun task world _ => parts task world
  have quiet assigned machine
      : (assign name assigned).parts rounds nesting machine = [] := by
    cases assigned <;> rfl
  have listed
      : moment.parts rounds = (World.setParts object value).parts rounds nesting world.machine := by
    change (evaluateScript _).parts rounds nesting world.machine = _
    rw [evaluateScript_set, Script.parts_bind_quiet _ quiet]
  have run
      : moment.task.run (Evaluator.ofNesting rounds (nesting + 1))
          = (World.setParts object value).run (Evaluator.ofNesting rounds nesting)
            >>= fun assigned => (assign name assigned).run (Evaluator.ofNesting rounds nesting) := by
    rw [← Script.run_bind, ← evaluateScript_set]
    exact (run_evaluateScript (Evaluator.ofNesting rounds nesting) (.set object name value)).symm
  rw [← listed] at covers
  have own := @assignment?_set rounds nesting world.machine object name value
  -- Without an assignment of its own, the moment fails where its parts have led to.
  have fails (fault : Fault) (failed : moment.outcome rounds = .error fault between.machine)
      (none : moment.assignment? rounds = none)
      : moment.Proceeds rounds world := by
    have ends : moment.Ends rounds world between := {
      machine := (leaves_error failed).symm
      more := covers.more
      sound := covers.sound
      history := by rw [covers.history, assignments_eq, none, Option.toList_none, List.append_nil]
      answer := fun value machine run => by
        rw [failed] at run
        cases run
    }
    exact ⟨between, ends, covers.passes ⟨rfl, sound, known⟩ ends (.refl between)⟩
  cases ran : (World.setParts object value).run (Evaluator.ofNesting rounds nesting) world.machine with
  | error fault after =>
      obtain rfl : between.machine = after := ended.trans (leaves_error ran)
      rw [ran] at own
      refine fails fault ?_ own
      unfold outcome
      rw [run, bind_error ran]
  | ok assigned after =>
      obtain rfl : between.machine = after := ended.trans (leaves_ok ran)
      rw [ran] at own
      cases assigned with
      | none =>
          refine fails (.runtime { token := name, problem := .fieldOfNonInstance }) ?_ own
          unfold outcome
          rw [run, bind_ok ran]
          exact congrFun (Script.run_does _ _) _
      | some assigned =>
          obtain ⟨address, assigned⟩ := assigned
          obtain ⟨less, known'⟩ := holds _ _ ran address assigned rfl
          obtain ⟨more, sound'⟩ := covers.sound.assigning less name.lexeme known'
          have succeeds
              : moment.outcome rounds
                  = .ok assigned (between.assigning address name.lexeme assigned).machine := by
            unfold outcome
            rw [run, bind_ok ran]
            rfl
          have ends : moment.Ends rounds world (between.assigning address name.lexeme assigned) := {
            machine := (leaves_ok succeeds).symm
            more := covers.more.trans more
            sound := sound'
            history := by
              rw [assignments_eq, own, ← List.append_assoc, ← covers.history]
              rfl
            answer := fun value machine run => by
              rw [succeeds] at run
              cases run
              exact more.value known'
          }
          exact ⟨_, ends, covers.passes ⟨rfl, sound, known⟩ ends more⟩

/-- A moment proceeds if all smaller ones do. -/
theorem Moment.proceeds_of_smaller {moment : Moment} (begins : moment.Begins world)
    (smaller
      : ∀ nesting task world,
          Task.Smaller nesting task moment.nesting moment.task
          → Moment.Begins { nesting, task, machine := world.machine } world
          → Moment.Proceeds rounds { nesting, task, machine := world.machine } world)
    : moment.Proceeds rounds world := by
  have acts := acts_allOrNothing
  obtain ⟨nesting, task, machine⟩ := moment
  have level (task' : Task) (world : World) (below : task'.Below task)
      : Moment.Begins { nesting, task := task', machine := world.machine } world
        → Moment.Proceeds rounds { nesting, task := task', machine := world.machine } world :=
    smaller nesting task' world (below.smaller nesting)
  have sound := begins.sound
  have known := begins.known
  cases task with
  | evaluate expr =>
      cases nesting with
      | zero =>
          exact proceeds_exhausted begins rfl rfl (by cases expr <;> rfl)
      | succ nesting =>
          have parts (task : Task) (world : World)
              : Moment.Begins { nesting, task, machine := world.machine } world
                → Moment.Proceeds rounds { nesting, task, machine := world.machine } world :=
            smaller nesting task world (.nested nesting)
          by_cases set : ∃ object name value, expr = .set object name value
          · obtain ⟨object, name, value, rfl⟩ := set
            exact proceeds_set begins parts
          · have other object name value : expr ≠ .set object name value :=
              fun same => set ⟨object, name, value, same⟩
            exact proceeds_script begins (regular_evaluate acts expr) (run_evaluateScript _ expr) rfl
              (assignment?_of_ne other) (World.fits_evaluate sound known other)
              fun task world _ => parts task world
  | execute stmt =>
      cases nesting with
      | zero =>
          exact proceeds_exhausted begins rfl rfl rfl
      | succ nesting =>
          exact proceeds_script begins (regular_execute acts rounds stmt)
            (run_executeScript _ rounds stmt) rfl rfl (World.fits_execute sound known rounds)
            fun task world _ => smaller nesting task world (.nested nesting)
  | evaluateAll exprs =>
      exact proceeds_script begins (regular_evaluateAll AllOrNothing exprs)
        (run_evaluateAllScript _ exprs) rfl rfl (World.fits_evaluateAll known) level
  | executeAll stmts =>
      exact proceeds_script begins (regular_executeAll AllOrNothing stmts)
        (run_executeAllScript _ stmts) rfl rfl (World.fits_executeAll known) level
  | repeatWhile condition body left =>
      exact proceeds_script begins (regular_repeatWhile acts condition body left)
        (run_repeatWhileScript _ condition body left) rfl rfl
        (World.fits_repeatWhile sound known left) level
  | enter parent bindings stmts =>
      obtain rfl := begins.machine
      refine proceeds_enter begins fun world => ?_
      exact level (.executeAll stmts) world (.of_rank (Nat.lt_succ_self 1))
  | call callee arguments paren =>
      exact proceeds_script begins (regular_call acts callee arguments paren)
        (run_callScript _ callee arguments paren) rfl rfl
        (World.fits_call sound known.1 known.2 paren) level
  | limited paren callee arguments =>
      obtain rfl := begins.machine
      refine proceeds_limited begins fun world => ?_
      exact level (.apply callee arguments) world (.of_rank (Nat.lt_succ_self 4))
  | apply callee arguments =>
      exact proceeds_script begins (regular_apply acts callee arguments)
        (run_applyScript _ callee arguments) rfl rfl
        (World.fits_apply sound known.1 known.2.1 known.2.2) level
  | invoke closure arguments =>
      exact proceeds_script begins (regular_invoke acts closure arguments)
        (run_invokeScript _ closure arguments) rfl rfl (World.fits_invoke known.1 known.2.1) level
  | program stmts =>
      exact proceeds_script begins (regular_program AllOrNothing stmts)
        (run_programScript _ stmts) rfl rfl (World.fits_program known) level

/-- Every moment that begins in a world proceeds from there. -/
theorem Moment.proceeds {moment : Moment} {world : World} (begins : moment.Begins world)
    : moment.Proceeds rounds world :=
  proceeds_of_smaller begins fun _ _ _ _ begins => proceeds begins
termination_by (moment.nesting, moment.task.rank, moment.task.length)
decreasing_by assumption

end Running

end Lox
