import Lox.Proofs.Renaming.Machines

/-! What a run has created and assigned so far.

A world is a machine together with all classes and instances that were created on it, and with all
assignments to fields in their order. The machine never looks into it. Classes and instances stay
what they are for good, and a field holds what was assigned to it last.
-/

namespace Lox

-----
-- Classes

/-- The class that a class inherits from, if there is one. -/
def Lineage.superclass? : Lineage → Option Lineage
  | { head := _, ancestors := [] } => none
  | { head := _, ancestors := next :: rest } => some { head := next, ancestors := rest }

-----
-- Assignments to fields

structure Assignment where
  address : Nat
  name : String
  value : Value

/-- The value that was assigned last to the field of the instance, if any was. -/
def lastAssigned? (history : List Assignment) (address : Nat) (name : String) : Option Value :=
  (history.filter fun assignment =>
    assignment.address = address ∧ assignment.name = name).getLast?.map (·.value)

/-- The last assignment to a field is the one that was made last, if it is to that field. -/
theorem lastAssigned?_snoc (history : List Assignment) (last : Assignment) (address : Nat)
    (name : String)
    : lastAssigned? (history ++ [last]) address name
        = if last.address = address ∧ last.name = name then some last.value
          else lastAssigned? history address name := by
  unfold lastAssigned?
  rw [List.filter_append]
  by_cases same : last.address = address ∧ last.name = name <;>
    simp [same]

/-- Nothing is assigned to an instance before there is one. -/
theorem lastAssigned?_of_apart {history : List Assignment} {address : Nat}
    (apart : ∀ assignment ∈ history, assignment.address ≠ address) (name : String)
    : lastAssigned? history address name = none := by
  have nothing
      : history.filter (fun assignment =>
            assignment.address = address ∧ assignment.name = name)
          = [] :=
    List.filter_eq_nil_iff.2 fun assignment member =>
      by simp [apart assignment member]
  unfold lastAssigned?
  rw [nothing]
  rfl

-----
-- Worlds

def Value.IsObject (value : Value) : Prop :=
  ∃ address lineage, value = .object address lineage

structure World where
  /-- The class that was created with a number. -/
  classOf : Nat → Option Lineage
  /-- The class of the instance that was created at an address. -/
  instanceOf : Nat → Option Lineage
  history : List Assignment
  machine : Machine

/-- Nothing has been created or assigned yet. -/
def World.start (machine : Machine) : World :=
  { classOf := fun _ => none, instanceOf := fun _ => none, history := [], machine }

section

variable (world : World)

/-- The function can be called: the scope around it is there, and an initializer has a receiver. -/
structure Closure.Known (closure : Closure) : Prop where
  proper : closure.function.unbound.Proper
  inside : closure.scope < world.machine.scopes.size
  receiver
    : closure.isInitializer = true
      → ∃ receiver,
          world.machine.scopes.cell? closure.scope "this" = some receiver ∧ receiver.IsObject

/-- The closure is what a class may keep under the name. -/
structure Closure.IsMethod (closure : Closure) (name : String) : Prop where
  proper : closure.function.unbound.Proper
  inside : closure.scope < world.machine.scopes.size
  flag : closure.isInitializer = decide (name = "init")

def Lineage.Known (lineage : Lineage) : Prop :=
  world.classOf lineage.head.id = some lineage

/-- Classes and instances are those that were created. -/
def Value.Known : Value → Prop
  | .literal _ | .native _ => True
  | .closure function => function.Known world
  | .class lineage => lineage.Known world
  | .object address lineage => world.instanceOf address = some lineage

def Callable.Known : Callable → Prop
  | .closure function => function.Known world
  | .class lineage => lineage.Known world
  | .native _ => True

end

namespace World

/-- A class was created behind the class that it inherits from. -/
structure Created (world : World) (id : Nat) (lineage : Lineage) : Prop where
  number : lineage.head.id = id
  before : id < world.machine.nextId
  methods
    : ∀ name method, lineage.head.methods.get? name = some method → method.IsMethod world name
  superclass
    : ∀ superclass,
        lineage.superclass? = some superclass
        → superclass.head.id < id ∧ superclass.Known world

structure Sound (world : World) : Prop where
  here : world.machine.current < world.machine.scopes.size
  parents
    : ∀ scope parent,
        world.machine.scopes.parent? scope = some parent → parent < world.machine.scopes.size
  classes : ∀ id lineage, world.classOf id = some lineage → world.Created id lineage
  instances
    : ∀ address lineage,
        world.instanceOf address = some lineage
        → address < world.machine.objects.size ∧ lineage.Known world
  cells
    : ∀ scope name value, world.machine.scopes.cell? scope name = some value → value.Known world
  receivers
    : ∀ scope value, world.machine.scopes.cell? scope "this" = some value → value.IsObject
  fields
    : ∀ address name value, world.machine.fieldAt address name = some value → value.Known world
  assigned
    : ∀ address < world.machine.objects.size, ∀ name,
        world.machine.fieldAt address name = lastAssigned? world.history address name
  addressed
    : ∀ assignment ∈ world.history, assignment.address < world.machine.objects.size

/-- All that was created is still what it was. A receiver is never replaced. -/
structure Extends (before after : World) : Prop where
  classOf : ∀ id lineage, before.classOf id = some lineage → after.classOf id = some lineage
  instanceOf
    : ∀ address lineage,
        before.instanceOf address = some lineage → after.instanceOf address = some lineage
  receiver
    : ∀ scope < before.machine.scopes.size,
        after.machine.scopes.cell? scope "this" = before.machine.scopes.cell? scope "this"
  scopes : before.machine.scopes.size ≤ after.machine.scopes.size
  objects : before.machine.objects.size ≤ after.machine.objects.size
  nextId : before.machine.nextId ≤ after.machine.nextId

/-- No field has been assigned to in between. -/
structure Grows (before after : World) : Prop extends before.Extends after where
  history : after.history = before.history

namespace Extends

variable {before between after : World}

/-- Every world extends itself. -/
theorem refl (world : World) : world.Extends world :=
  ⟨fun _ _ => id, fun _ _ => id, fun _ _ => rfl, Nat.le_refl _, Nat.le_refl _, Nat.le_refl _⟩

/-- A world that extends an extended one extends the first. -/
theorem trans (front : before.Extends between) (back : between.Extends after)
    : before.Extends after where
  classOf id lineage known := back.classOf id lineage (front.classOf id lineage known)
  instanceOf address lineage known :=
    back.instanceOf address lineage (front.instanceOf address lineage known)
  receiver scope less :=
    (back.receiver scope (Nat.lt_of_lt_of_le less front.scopes)).trans (front.receiver scope less)
  scopes := Nat.le_trans front.scopes back.scopes
  objects := Nat.le_trans front.objects back.objects
  nextId := Nat.le_trans front.nextId back.nextId

/-- A receiver that is there stays. -/
theorem receiver_eq (more : before.Extends after) {scope : Nat} {receiver : Value}
    (held : before.machine.scopes.cell? scope "this" = some receiver)
    : after.machine.scopes.cell? scope "this" = some receiver :=
  (more.receiver scope (Forest.lt_size_of_cell? held)).trans held

/-- A closure that is known stays known. -/
theorem closure (more : before.Extends after) {closure : Closure} (known : closure.Known before)
    : closure.Known after := by
  refine ⟨known.proper, Nat.lt_of_lt_of_le known.inside more.scopes, fun isInitializer => ?_⟩
  obtain ⟨receiver, held, isObject⟩ := known.receiver isInitializer
  exact ⟨receiver, more.receiver_eq held, isObject⟩

/-- A method stays the method of its name. -/
theorem isMethod (more : before.Extends after) {closure : Closure} {name : String}
    (isMethod : closure.IsMethod before name)
    : closure.IsMethod after name :=
  { isMethod with inside := Nat.lt_of_lt_of_le isMethod.inside more.scopes }

/-- A class that is known stays known. -/
theorem lineage (more : before.Extends after) {lineage : Lineage} (known : lineage.Known before)
    : lineage.Known after :=
  more.classOf _ _ known

/-- A value that is known stays known. -/
theorem value (more : before.Extends after) {value : Value} (known : value.Known before)
    : value.Known after := by
  cases value with
  | literal | native => trivial
  | closure closure => exact more.closure known
  | «class» lineage => exact more.lineage known
  | object address lineage => exact more.instanceOf _ _ known

/-- Values that are known stay known. -/
theorem values (more : before.Extends after) {values : List Value}
    (known : ∀ value ∈ values, value.Known before)
    : ∀ value ∈ values, value.Known after :=
  fun value member => more.value (known value member)

/-- A callable that is known stays known. -/
theorem callable (more : before.Extends after) {callable : Callable}
    (known : callable.Known before)
    : callable.Known after := by
  cases callable with
  | closure closure => exact more.closure known
  | «class» lineage => exact more.lineage known
  | native => trivial

/-- A class that was created stays created, under its number. -/
theorem created (more : before.Extends after) {id : Nat} {lineage : Lineage}
    (created : before.Created id lineage)
    : after.Created id lineage :=
  { created with
    before := Nat.lt_of_lt_of_le created.before more.nextId
    methods := fun name method found => more.isMethod (created.methods name method found)
    superclass := fun superclass found =>
      ⟨(created.superclass superclass found).1, more.lineage (created.superclass superclass found).2⟩ }

end Extends

/-- Every world has grown from itself. -/
theorem Grows.refl (world : World) : world.Grows world :=
  ⟨.refl world, rfl⟩

/-- A world grown from one that has grown has grown from the first. -/
theorem Grows.trans {before between after : World} (front : before.Grows between)
    (back : between.Grows after)
    : before.Grows after :=
  ⟨front.toExtends.trans back.toExtends, back.history.trans front.history⟩

section

variable {before after : World}

/-- What is sound in a larger world: all that was there before, and what is new about it. -/
theorem Sound.step (sound : before.Sound) (more : before.Extends after)
    (here
      : after.machine.current = before.machine.current
        ∨ after.machine.current < after.machine.scopes.size)
    (parents
      : ∀ scope parent,
          after.machine.scopes.parent? scope = some parent
          → before.machine.scopes.parent? scope = some parent
            ∨ parent < after.machine.scopes.size)
    (classes
      : ∀ id lineage,
          after.classOf id = some lineage
          → before.classOf id = some lineage ∨ after.Created id lineage)
    (instances
      : ∀ address lineage,
          after.instanceOf address = some lineage
          → before.instanceOf address = some lineage
            ∨ address < after.machine.objects.size ∧ lineage.Known after)
    (cells
      : ∀ scope name value,
          after.machine.scopes.cell? scope name = some value
          → before.machine.scopes.cell? scope name = some value ∨ value.Known after)
    (receivers
      : ∀ scope ≥ before.machine.scopes.size, ∀ value,
          after.machine.scopes.cell? scope "this" = some value → value.IsObject)
    (fields
      : ∀ address name value,
          after.machine.fieldAt address name = some value
          → before.machine.fieldAt address name = some value ∨ value.Known after)
    (assigned
      : ∀ address < after.machine.objects.size, ∀ name,
          after.machine.fieldAt address name = lastAssigned? after.history address name)
    (addressed : ∀ assignment ∈ after.history, assignment.address < after.machine.objects.size)
    : after.Sound where
  here := here.elim (fun same => same ▸ Nat.lt_of_lt_of_le sound.here more.scopes) fun less => less
  parents scope parent found :=
    (parents scope parent found).elim
      (fun earlier => Nat.lt_of_lt_of_le (sound.parents scope parent earlier) more.scopes)
      fun less => less
  classes id lineage found :=
    (classes id lineage found).elim
      (fun earlier => more.created (sound.classes id lineage earlier)) fun created => created
  instances address lineage found := by
    rcases instances address lineage found with earlier | new
    · obtain ⟨less, known⟩ := sound.instances address lineage earlier
      exact ⟨Nat.lt_of_lt_of_le less more.objects, more.lineage known⟩
    · exact new
  cells scope name value found :=
    (cells scope name value found).elim
      (fun earlier => more.value (sound.cells scope name value earlier)) fun known => known
  receivers scope value found := by
    by_cases less : scope < before.machine.scopes.size
    · exact sound.receivers scope value ((more.receiver scope less).symm.trans found)
    · exact receivers scope (Nat.le_of_not_lt less) value found
  fields address name value found :=
    (fields address name value found).elim
      (fun earlier => more.value (sound.fields address name value earlier)) fun known => known
  assigned := assigned
  addressed := addressed

/-- A class that is known is the class of its number. -/
theorem Sound.class_lt (sound : before.Sound) {lineage : Lineage} (known : lineage.Known before)
    : lineage.head.id < before.machine.nextId :=
  (sound.classes _ _ known).before

/-- The methods of a class are methods, wherever in its chain they stand. -/
theorem Sound.method (sound : before.Sound) {lineage : Lineage} (known : lineage.Known before)
    {name : String} {method : Closure} (found : lineage.method? name = some method)
    : method.IsMethod before name := by
  obtain ⟨head, ancestors⟩ := lineage
  induction ancestors generalizing head with
  | nil =>
      rw [Lineage.method?_mk] at found
      refine (sound.classes _ _ known).methods name method ?_
      simpa using found
  | cons next rest ih =>
      have created := sound.classes _ _ known
      rw [Lineage.method?_mk] at found
      cases own : head.methods.get? name with
      | some own' =>
          rw [own] at found
          obtain rfl := Option.some.inj found
          exact created.methods name own' own
      | none =>
          rw [own] at found
          exact ih next (created.superclass ⟨next, rest⟩ rfl).2 found

end

-----
-- Actions

variable {α β γ : Type}

/-- However the action ends, the world has grown, and what it yields is as told. -/
def Keeps (before : World) (action : Run α) (post : α → World → Prop) : Prop :=
  match action before.machine with
  | .ok value machine =>
      ∃ after : World,
        after.machine = machine ∧ before.Grows after ∧ after.Sound ∧ post value after
  | .error _ machine =>
      ∃ after : World, after.machine = machine ∧ before.Grows after ∧ after.Sound

namespace Keeps

variable {before after : World} {action : Run α} {post : α → World → Prop}

/-- A value alone keeps the world with what holds of it. -/
theorem pure (sound : before.Sound) {value : α} (holds : post value before)
    : before.Keeps (Pure.pure value) post :=
  ⟨before, rfl, .refl before, sound, holds⟩

/-- A fault keeps the world. -/
theorem throw (sound : before.Sound) (fault : Fault)
    : before.Keeps (MonadExcept.throw fault) post :=
  ⟨before, rfl, .refl before, sound⟩

/-- An action keeps the world if it yields its value in a grown one. -/
theorem of_ok {value : α} (run : action before.machine = .ok value after.machine)
    (grows : before.Grows after) (sound : after.Sound) (holds : post value after)
    : before.Keeps action post := by
  unfold Keeps
  rw [run]
  exact ⟨after, rfl, grows, sound, holds⟩

/-- What is kept by an action holds where it yields its value. -/
theorem ok (keeps : before.Keeps action post) {value : α} {machine : Machine}
    (run : action before.machine = .ok value machine)
    : ∃ after : World,
        after.machine = machine ∧ before.Grows after ∧ after.Sound ∧ post value after := by
  unfold Keeps at keeps
  rw [run] at keeps
  exact keeps

/-- An action that keeps the world with a stronger property does so with a weaker one. -/
theorem weaken {post' : α → World → Prop} (keeps : before.Keeps action post)
    (implies
      : ∀ value after, before.Grows after → after.Sound → post value after → post' value after)
    : before.Keeps action post' := by
  unfold Keeps at keeps ⊢
  split at keeps
  · obtain ⟨after, same, grows, sound, holds⟩ := keeps
    exact ⟨after, same, grows, sound, implies _ _ grows sound holds⟩
  · exact keeps

/-- An action may be replaced by one that does the same here. -/
theorem congr {action' : Run α} (keeps : before.Keeps action post)
    (run : action' before.machine = action before.machine)
    : before.Keeps action' post := by
  unfold Keeps at keeps ⊢
  rwa [run]

/-- An action that goes on from a world that has grown. -/
theorem behind {action' : Run α} (grows : before.Grows after) (keeps : after.Keeps action' post)
    (run : action before.machine = action' after.machine)
    : before.Keeps action post := by
  unfold Keeps at keeps ⊢
  rw [run]
  split at keeps
  · obtain ⟨last, same, more, sound, holds⟩ := keeps
    exact ⟨last, same, grows.trans more, sound, holds⟩
  · obtain ⟨last, same, more, sound⟩ := keeps
    exact ⟨last, same, grows.trans more, sound⟩

/-- Two steps in a row keep the world if each does where it starts. -/
theorem bind {next : α → Run β} {post' : β → World → Prop} (first : before.Keeps action post)
    (second
      : ∀ value between,
          before.Grows between
          → between.Sound
          → post value between
          → between.Keeps (next value) post')
    : before.Keeps (action >>= next) post' := by
  unfold Keeps at first
  cases run : action before.machine with
  | error fault machine =>
      rw [run] at first
      unfold Keeps
      rw [bind_error run]
      exact first
  | ok value machine =>
      rw [run] at first
      obtain ⟨between, rfl, grows, sound, holds⟩ := first
      have rest := second value between grows sound holds
      unfold Keeps at rest ⊢
      rw [bind_ok run]
      split at rest
      · obtain ⟨after, same, more, soundAfter, holdsAfter⟩ := rest
        exact ⟨after, same, grows.trans more, soundAfter, holdsAfter⟩
      · obtain ⟨after, same, more, soundAfter⟩ := rest
        exact ⟨after, same, grows.trans more, soundAfter⟩

/-- Changing the value that an action yields keeps the world. -/
theorem map {make : α → β} {post' : β → World → Prop} (keeps : before.Keeps action post)
    (made : ∀ value after, post value after → post' (make value) after)
    : before.Keeps (make <$> action) post' :=
  keeps.bind fun value after _ sound holds => .pure sound (made value after holds)

/-- Reading the machine. -/
theorem get {next : Machine → Run β} {post' : β → World → Prop}
    (rest : before.Keeps (next before.machine) post')
    : before.Keeps (MonadState.get >>= next) post' :=
  rest.congr (bind_ok rfl)

end Keeps

end World

end Lox
