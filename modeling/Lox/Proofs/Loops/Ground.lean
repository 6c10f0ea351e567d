import Lox.Proofs.Loops.Machines
import Lox.Proofs.Objects.Session

/-! The ground that a machine offers beside itself.

On a machine that programs have run on, everything refers to scopes that are there. Before anything
is run on it twice, every scope stands for itself, and no scope is hollow.
-/

namespace Lox

-----
-- Machines that refer to nothing that is missing

/-- The functions that the value can give stand in scopes below the bound. -/
def Value.Within (size : Nat) : Value → Prop
  | .literal _ | .native _ => True
  | .closure function => function.scope < size
  | .class lineage | .object _ lineage =>
      ∀ name method, lineage.method? name = some method → method.scope < size

/-- All scopes that anything refers to are there. -/
structure Machine.Closed (machine : Machine) : Prop where
  here : machine.current < machine.scopes.size
  parents
    : ∀ scope parent,
        machine.scopes.parent? scope = some parent → parent < machine.scopes.size
  cells
    : ∀ scope name value,
        machine.scopes.cell? scope name = some value → value.Within machine.scopes.size
  fields
    : ∀ address name value,
        machine.fieldAt address name = some value → value.Within machine.scopes.size

namespace World

variable {world : World}

/-- A known value mentions only scopes that exist. -/
theorem Sound.within (sound : world.Sound) {value : Value} (known : value.Known world)
    : value.Within world.machine.scopes.size := by
  cases value with
  | literal | native => trivial
  | closure function => exact known.inside
  | «class» lineage => exact fun name method found => (sound.method known found).inside
  | object address lineage =>
      exact fun name method found =>
        (sound.method (sound.instances address lineage known).2 found).inside

/-- A sound world mentions only scopes that exist. -/
theorem Sound.closed (sound : world.Sound) : world.machine.Closed where
  here := sound.here
  parents := sound.parents
  cells scope name value found := sound.within (sound.cells scope name value found)
  fields address name value found := sound.within (sound.fields address name value found)

end World

/-- Wherever a session comes to, its machine is closed. -/
theorem Reached.closed {limits : Limits} {traceLevel : Nat} {readings : Nat → Float}
    {steps : List (Bool × String)} {history : List Assignment} {moment : Running.Moment}
    (reached : Reached limits steps (.start traceLevel readings) history moment)
    : moment.machine.Closed := by
  obtain ⟨_, -, -, -, -, holds⟩ :=
    (Machine.start_sound traceLevel readings).runSession limits steps
  obtain ⟨_, _, -, ⟨machine, sound, -⟩, -⟩ := holds history moment reached
  exact machine ▸ sound.closed

-----
-- Scopes that stand for themselves

/-- There is no hollow scope. -/
def Layout.whole (size : Nat) : Layout :=
  fun scope => if scope < size then some (none, scope) else none

/-- The ground of a machine and itself. -/
def Footing.whole (machine : Machine) : Footing :=
  {
    layout := .whole machine.scopes.size,
    current := machine.current,
    defined := fun _ _ => False
  }

namespace Layout

variable {size scope scope' : Nat} {gap : Gap}

/-- Every scope that exists is laid out without a gap. -/
theorem whole_of_lt (less : scope < size) : whole size scope = some (none, scope) :=
  if_pos less

/-- Scopes are laid out where they are. -/
theorem whole_eq (known : whole size scope = some (gap, scope'))
    : scope < size ∧ gap = none ∧ scope' = scope := by
  unfold whole at known
  split at known
  · next less =>
      cases known
      exact ⟨less, rfl, rfl⟩
  · cases known

/-- A value is like itself while every scope is laid out. -/
theorem like_whole {value : Value} (within : value.Within size)
    : value.Like (whole size).likeness value := by
  have function {inside : Gap → Gap} (same : inside none = none) (function : Closure)
      (less : function.scope < size)
      : function.OmitsIn (whole size) inside function := by
    refine ⟨rfl, rfl, rfl, none, whole_of_lt less, ?_⟩
    rw [same]
    exact ⟨function.function.omits_self, fun _ => Gap.none_ne_zero⟩
  have lineage (lineage : Lineage)
      (less : ∀ name method, lineage.method? name = some method → method.scope < size)
      : lineage.Like (whole size).likeness lineage := by
    refine ⟨rfl, rfl, fun name => ?_⟩
    cases found : lineage.method? name with
    | none => exact .none
    | some method => exact .some (function rfl method (less name method found))
  cases value with
  | literal value => exact .literal value
  | native native => exact .native native
  | closure closure => exact .closure (function rfl closure within)
  | «class» body => exact .class (lineage body within)
  | object address body => exact .object address (lineage body within)

end Layout

namespace Machine.Closed

variable {machine : Machine}

/-- A closed machine can be compared with itself. -/
theorem omits (closed : machine.Closed) : machine.Omits (.whole machine) machine where
  known scope gap scope' known := by
    obtain ⟨less, -, rfl⟩ := Layout.whole_eq known
    exact ⟨less, less⟩
  apart scope gap other gap' scope' known known' _ _ := by
    obtain ⟨-, -, same⟩ := Layout.whole_eq known
    obtain ⟨-, -, same'⟩ := Layout.whole_eq known'
    exact same'.symm.trans same
  outer scope gap scope' known _ := by
    obtain ⟨-, rfl, rfl⟩ := Layout.whole_eq known
    cases found : machine.scopes.parent? scope' with
    | none => exact .none
    | some parent => exact .some (Layout.whole_of_lt (closed.parents scope' parent found))
  hollow scope scope' known := by
    obtain ⟨-, none, -⟩ := Layout.whole_eq known
    cases none
  outermost := Layout.whole_of_lt (Nat.zero_lt_of_lt closed.here)
  cell scope gap scope' known _ name := by
    obtain ⟨-, -, rfl⟩ := Layout.whole_eq known
    cases found : machine.scopes.cell? scope' name with
    | none => exact .none
    | some value => exact .some (Layout.like_whole (closed.cells scope' name value found))
  defined _ _ none := none.elim
  objects := rfl
  field address name := by
    cases found : machine.fieldAt address name with
    | none => exact .none
    | some value => exact .some (Layout.like_whole (closed.fields address name value found))
  current := rfl
  current' := ⟨none, Layout.whole_of_lt closed.here⟩
  nextId := rfl
  output := rfl
  traceLevel := rfl
  traceFileOpen := rfl
  fileTrace := rfl
  consoleTrace := rfl
  readings := rfl
  readingsTaken := rfl

/-- A machine stands on its own footing without a gap. -/
theorem whole_at (closed : machine.Closed) : (Footing.whole machine).At none :=
  ⟨machine.current, Layout.whole_of_lt closed.here⟩

end Machine.Closed

end Lox
