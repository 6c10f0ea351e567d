import Lox.Proofs.Scope.Forest
import Lox.Proofs.Scoping.Standing
import Lox.Proofs.Scoping.Watcher

/-! What holds of a watched machine between any two of its steps.

From the scope that a function or statement runs in, the scopes outwards are instances of the
scopes of the text that are open there, and the names that the binder saw defined have values in
them. Every function that the machine holds was created in such a scope.
-/

namespace Lox.Scoping

open Binding

-----
-- Lookups

/-- How the evaluation of a node may fail by itself. A name bound to a distance is written without
fail, and a receiver is always there. -/
def Use.MayFail (use : Use) (distance : Option Nat) (fault : Fault) : Prop :=
  match use with
  | .read name => fault = .runtime { token := name, problem := .undefinedVariable }
  | .write name =>
      fault = .runtime { token := name, problem := .undefinedVariable } ∧ distance = none
  | .this _ => False
  | .super _ method => fault = .runtime { token := method, problem := .undefinedProperty }

/-- The scopes around a lookup, up to the global one, are one instance of each scope that the
binder had open at the node, in the same order. -/
structure Lookup.Aligned (lookup : Lookup) : Prop where
  scopes : lookup.site.scopes.locals.length = lookup.site.frames.length
  shows
    : ∀ (distance : Nat) (frame : Frame) (scope : LocalScope),
        lookup.site.frames[distance]? = some frame
        → lookup.site.scopes.locals[distance]? = some scope
        → frame.kind.Shows scope.names
  instances
    : ∀ (distance : Nat) (frame : Frame),
        lookup.site.frames[distance]? = some frame
        → ∃ scope,
            lookup.machine.scopes.ancestor? lookup.machine.current distance = some scope
            ∧ scope ≠ globalScope
            ∧ lookup.frameOf scope = frame
  outermost
    : lookup.machine.scopes.ancestor? lookup.machine.current lookup.site.frames.length
        = some globalScope
  /-- A recorded distance leads to a scope that the binder knew to have the name. -/
  bound
    : ∀ distance,
        lookup.site.distance lookup.use = some distance
        → ∃ scope,
            lookup.site.scopes.locals[distance]? = some scope
            ∧ scope.names.contains lookup.use.token.lexeme = true
  this
    : ∀ keyword,
        lookup.use = .this keyword
        → ∃ distance scope address lineage,
            lookup.site.distance lookup.use = some distance
            ∧ lookup.machine.scopes.ancestor? lookup.machine.current distance = some scope
            ∧ lookup.machine.scopes.cell? scope "this" = some (.object address lineage)
  super
    : ∀ keyword method,
        lookup.use = .super keyword method
        → ∃ nearer outer inner superclass address lineage,
            lookup.site.distance lookup.use = some (nearer + 1)
            ∧ lookup.machine.scopes.ancestor? lookup.machine.current (nearer + 1) = some outer
            ∧ lookup.machine.scopes.cell? outer "super" = some (.class superclass)
            ∧ lookup.machine.scopes.ancestor? lookup.machine.current nearer = some inner
            ∧ lookup.machine.scopes.cell? inner "this" = some (.object address lineage)
  fault
    : ∀ fault,
        lookup.fault = some fault
        → lookup.use.MayFail (lookup.site.distance lookup.use) fault

/-- A read finds what the binder saw defined. A read that fails all the same stands in a function
inside the initial value of the variable it reads, and that variable is not yet complete. -/
structure Lookup.Definite (lookup : Lookup) : Prop where
  defined
    : ∀ name distance,
        lookup.use = .read name
        → lookup.site.distance lookup.use = some distance
        → flagAt? lookup.site.scopes.views distance name.lexeme = some true
        → lookup.fault = none
  global
    : ∀ name,
        lookup.use = .read name
        → lookup.site.distance lookup.use = none
        → lookup.site.scopes.globals.get? name.lexeme = some true
        → lookup.fault = none
  pending
    : ∀ name distance,
        lookup.use = .read name
        → lookup.site.distance lookup.use = some distance
        → lookup.fault ≠ none
        → ∃ declaration ∈ lookup.site.pending,
            declaration.name = name.lexeme
            ∧ declaration.frames = lookup.site.frames.drop distance
            ∧ (∃ frame ∈ lookup.site.frames.take distance, frame.kind = .function)
            ∧ ∃ scope,
                lookup.machine.scopes.ancestor? lookup.machine.current distance = some scope
                ∧ (declaration, scope) ∉ lookup.completed

-----
-- Functions and values

/-- The function was met in a program without errors. -/
structure Origin.Sound (origin : Origin) : Prop where
  site : origin.site.Sound
  proper : origin.function.Proper
  clean : (bindFunction origin.function origin.site.scopes).2.errors = []

namespace Watched

/-- From the scope outwards, the scopes before the global one are instances of the frames, and
what is defined in the views has a value. -/
inductive Fits (watched : Watched) : Nat → List Frame → List (Table Bool) → Prop
  | outermost : Fits watched globalScope [] []
  | inner {scope parent frames view views}
    (outer : watched.machine.scopes.parent? scope = some parent)
    (covered
      : ∀ name,
          view.get? name = some true
          → (watched.machine.scopes.cell? scope name).isSome = true)
    (rest : Fits watched parent frames views)
    : Fits watched scope (watched.frameOf scope :: frames) (view :: views)

/-- The global names that were known to be defined have values. -/
def Covers (watched : Watched) (globals : Table Bool) : Prop :=
  ∀ name,
    globals.get? name = some true
    → (watched.machine.scopes.cell? globalScope name).isSome = true

/-- All that the binder saw defined at the site has a value as seen from the scope. -/
structure FitsAt (watched : Watched) (scope : Nat) (site : Site) : Prop where
  locals : watched.Fits scope site.frames site.scopes.views
  globals : watched.Covers site.scopes.globals

/-- The machine holds the function as the binder left it. -/
structure Holds (watched : Watched) (closure : Closure) : Prop where
  known : closure.id < watched.machine.nextId
  origin : (watched.originOf closure.id).Sound
  function
    : closure.function
        = (bindFunction (watched.originOf closure.id).function
            (watched.originOf closure.id).site.scopes).1

/-- A function, or a method bound to its receiver, in a scope where its body can run. -/
structure Free (watched : Watched) (closure : Closure) : Prop where
  holds : watched.Holds closure
  fits : watched.FitsAt closure.scope (watched.originOf closure.id).site
  initializer
    : closure.isInitializer = true
      → ∃ frame rest,
          (watched.originOf closure.id).site.frames = frame :: rest ∧ frame.kind = .receiver

/-- At the site, all but the receiver is there around the scope. -/
structure Awaits (watched : Watched) (scope : Nat) (site : Site) : Prop where
  locals
    : ∃ frame frames view views,
        site.frames = frame :: frames
        ∧ site.scopes.views = view :: views
        ∧ frame.kind = .receiver
        ∧ (∀ name, view.get? name = some true → name = "this")
        ∧ watched.Fits scope frames views
  globals : watched.Covers site.scopes.globals

/-- A method that waits for its receiver. -/
structure Waiting (watched : Watched) (closure : Closure) : Prop where
  holds : watched.Holds closure
  awaits : watched.Awaits closure.scope (watched.originOf closure.id).site

def Class (watched : Watched) (lineage : Lineage) : Prop :=
  ∀ body ∈ lineage.head :: lineage.ancestors, ∀ name method,
    body.methods.get? name = some method → watched.Waiting method

/-- Whatever functions the value carries can run. -/
def Traced (watched : Watched) : Value → Prop
  | .closure closure => watched.Free closure
  | .class lineage | .object _ lineage => watched.Class lineage
  | .literal _ | .native _ => True

-----
-- The whole machine

structure Sound (watched : Watched) : Prop where
  root : watched.machine.scopes.parent? globalScope = none
  rooted : globalScope < watched.machine.scopes.size
  cells
    : ∀ scope name value,
        watched.machine.scopes.cell? scope name = some value → watched.Traced value
  fields
    : ∀ (address : Nat) (table : Table Value) (name : String) (value : Value),
        watched.machine.objects[address]? = some table
        → table.get? name = some value
        → watched.Traced value
  /-- Every scope of a receiver holds an instance. -/
  receivers
    : ∀ scope parent,
        watched.machine.scopes.parent? scope = some parent
        → (watched.frameOf scope).kind = .receiver
        → ∃ address lineage,
            watched.machine.scopes.cell? scope "this" = some (.object address lineage)
  /-- Every scope of a superclass holds a class. -/
  superclasses
    : ∀ scope parent,
        watched.machine.scopes.parent? scope = some parent
        → (watched.frameOf scope).kind = .superclass
        → ∃ lineage, watched.machine.scopes.cell? scope "super" = some (.class lineage)
  completed
    : ∀ entry ∈ watched.completed,
        (watched.machine.scopes.cell? entry.2 entry.1.name).isSome = true
  lookups : ∀ lookup ∈ watched.lookups, lookup.Aligned ∧ lookup.Definite

/-- Scopes, functions and definitions stay. Only the names told can become global. -/
structure Extends (fresh : String → Prop) (before after : Watched) : Prop where
  size : before.machine.scopes.size ≤ after.machine.scopes.size
  parent
    : ∀ scope < before.machine.scopes.size,
        after.machine.scopes.parent? scope = before.machine.scopes.parent? scope
  frameOf : ∀ scope < before.machine.scopes.size, after.frameOf scope = before.frameOf scope
  cell
    : ∀ scope name,
        (before.machine.scopes.cell? scope name).isSome = true
        → (after.machine.scopes.cell? scope name).isSome = true
  nextId : before.machine.nextId ≤ after.machine.nextId
  originOf : ∀ id < before.machine.nextId, after.originOf id = before.originOf id
  globals
    : ∀ name,
        (after.machine.scopes.cell? globalScope name).isSome = true
        → (before.machine.scopes.cell? globalScope name).isSome = true ∨ fresh name

/-- The machine is back in the scope it was in. -/
structure Grows (fresh : String → Prop) (before after : Watched) : Prop
    extends before.Extends fresh after where
  current : after.machine.current = before.machine.current

namespace Extends

variable {fresh : String → Prop} {before between after : Watched}

/-- Every watched state extends itself. -/
theorem refl (watched : Watched) : watched.Extends fresh watched :=
  ⟨Nat.le_refl _, fun _ _ => rfl, fun _ _ => rfl, fun _ _ => id, Nat.le_refl _, fun _ _ => rfl,
    fun _ => .inl⟩

/-- A watched state that extends an extended one extends the first. -/
theorem trans (front : before.Extends fresh between) (back : between.Extends fresh after)
    : before.Extends fresh after where
  size := Nat.le_trans front.size back.size
  parent scope less :=
    (back.parent scope (Nat.lt_of_lt_of_le less front.size)).trans (front.parent scope less)
  frameOf scope less :=
    (back.frameOf scope (Nat.lt_of_lt_of_le less front.size)).trans (front.frameOf scope less)
  cell scope name found := back.cell scope name (front.cell scope name found)
  nextId := Nat.le_trans front.nextId back.nextId
  originOf id less :=
    (back.originOf id (Nat.lt_of_lt_of_le less front.nextId)).trans (front.originOf id less)
  globals name found := by
    rcases back.globals name found with earlier | new
    · exact front.globals name earlier
    · exact .inr new

-----
-- What stays true

/-- Scopes that fit go on fitting. -/
theorem fits (more : before.Extends fresh after) {scope : Nat} {frames : List Frame}
    {views : List (Table Bool)} (fits : before.Fits scope frames views)
    : after.Fits scope frames views := by
  induction fits with
  | outermost => exact .outermost
  | @inner scope parent frames view views outer covered rest ih =>
      have known : scope < before.machine.scopes.size := Forest.lt_size_of_parent? outer
      have same := more.frameOf scope known
      rw [← same]
      refine .inner ((more.parent scope known).trans outer) (fun name defined => ?_) ih
      exact more.cell scope name (covered name defined)

/-- Globals that are covered stay covered. -/
theorem covers (more : before.Extends fresh after) {globals : Table Bool}
    (covers : before.Covers globals)
    : after.Covers globals :=
  fun name defined => more.cell globalScope name (covers name defined)

/-- A site that fits goes on fitting. -/
theorem fitsAt (more : before.Extends fresh after) {scope : Nat} {site : Site}
    (fits : before.FitsAt scope site)
    : after.FitsAt scope site :=
  ⟨more.fits fits.locals, more.covers fits.globals⟩

/-- A closure that is held stays held. -/
theorem holds (more : before.Extends fresh after) {closure : Closure}
    (holds : before.Holds closure)
    : after.Holds closure := by
  have same := more.originOf closure.id holds.known
  refine ⟨Nat.lt_of_lt_of_le holds.known more.nextId, ?_, ?_⟩
  · rw [same]
    exact holds.origin
  · rw [same]
    exact holds.function

/-- A closure that is free of a receiver stays free. -/
theorem free (more : before.Extends fresh after) {closure : Closure} (free : before.Free closure)
    : after.Free closure := by
  have same := more.originOf closure.id free.holds.known
  refine ⟨more.holds free.holds, ?_, ?_⟩
  · rw [same]
    exact more.fitsAt free.fits
  · rw [same]
    exact free.initializer

/-- A site that is awaited stays awaited. -/
theorem awaits (more : before.Extends fresh after) {scope : Nat} {site : Site}
    (awaits : before.Awaits scope site)
    : after.Awaits scope site := by
  obtain ⟨frame, frames, view, views, split, viewSplit, isReceiver, only, fits⟩ := awaits.locals
  exact ⟨⟨frame, frames, view, views, split, viewSplit, isReceiver, only, more.fits fits⟩,
    more.covers awaits.globals⟩

/-- A method that waits for its receiver goes on waiting. -/
theorem waiting (more : before.Extends fresh after) {closure : Closure}
    (waiting : before.Waiting closure)
    : after.Waiting closure := by
  refine ⟨more.holds waiting.holds, ?_⟩
  rw [more.originOf closure.id waiting.holds.known]
  exact more.awaits waiting.awaits

/-- A class stays one. -/
theorem class_ (more : before.Extends fresh after) {lineage : Lineage}
    (traced : before.Class lineage)
    : after.Class lineage :=
  fun body member name method found => more.waiting (traced body member name method found)

/-- A value that is traced stays traced. -/
theorem traced (more : before.Extends fresh after) {value : Value} (traced : before.Traced value)
    : after.Traced value := by
  cases value with
  | literal | native => trivial
  | closure closure => exact more.free traced
  | «class» lineage => exact more.class_ traced
  | object address lineage => exact more.class_ traced

end Extends

namespace Grows

variable {fresh : String → Prop} {before between after : Watched}

/-- Every watched state has grown from itself. -/
theorem refl (watched : Watched) : watched.Grows fresh watched :=
  ⟨.refl watched, rfl⟩

/-- A watched state grown from one that has grown has grown from the first. -/
theorem trans (front : before.Grows fresh between) (back : between.Grows fresh after)
    : before.Grows fresh after :=
  ⟨front.toExtends.trans back.toExtends, back.current.trans front.current⟩

end Grows

end Watched

end Lox.Scoping
