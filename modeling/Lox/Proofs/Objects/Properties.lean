import Lox.Proofs.Objects.Session

/-! What classes and instances are in the course of a session.

A class is known by its number for good: wherever it turns up, it has the same methods and the same
classes above it, and these were created before it. A property of an instance is what was assigned
to it last, and otherwise a method of the nearest class that has one.
-/

namespace Lox

open Running (Moment Task Peeks)

-----
-- Classes at hand

/-- The class and all classes that it inherits from, the nearest first. -/
def Lineage.chain (lineage : Lineage) : List ClassBody :=
  lineage.head :: lineage.ancestors

/-- The class that a value is, or is an instance of. -/
def Value.class? : Value → Option Lineage
  | .class lineage | .object _ lineage => some lineage
  | .literal _ | .native _ | .closure _ => none

def Callable.value : Callable → Value
  | .closure function => .closure function
  | .class lineage => .class lineage
  | .native function => .native function

/-- The value is kept under some name or in some field. -/
inductive Machine.Holds (machine : Machine) (value : Value) : Prop
  | cell {scope : Nat} {name : String} (found : machine.scopes.cell? scope name = some value)
  | field {address : Nat} {name : String} (found : machine.fieldAt address name = some value)

/-- What the machine holds is known. -/
theorem World.Sound.holds {world : World} (sound : world.Sound) {value : Value}
    (held : world.machine.Holds value)
    : value.Known world := by
  cases held with
  | cell found => exact sound.cells _ _ _ found
  | field found => exact sound.fields _ _ _ found

namespace Running

/-- The values that a task is about. -/
def Task.values : Task → List Value
  | .call callee arguments _ => callee :: arguments
  | .limited _ callee arguments | .apply callee arguments => callee.value :: arguments
  | .invoke closure arguments => .closure closure :: arguments
  | .enter _ bindings _ => bindings.map (·.2)
  | .evaluate _ | .evaluateAll _ | .execute _ | .executeAll _ | .repeatWhile .. | .program _ => []

def Completion.values : Completion → List Value
  | .normal | .broke => []
  | .returned value => [value]

/-- The values that a task hands back. -/
def Task.yielded : (task : Task) → task.Answer → List Value
  | .evaluate _, value | .call .., value | .limited .., value | .apply .., value
  | .invoke .., value => [value]
  | .evaluateAll _, values => values
  | .execute _, completion | .executeAll _, completion | .repeatWhile .., completion
  | .enter .., completion => Completion.values completion
  | .program _, _ => []

/-- The values that a moment is about, that it hands back in the end, and that are on the machine
before or after it. -/
inductive Moment.AtHand (rounds : Nat) (moment : Moment) (value : Value) : Prop
  | before (held : moment.machine.Holds value)
  | after (held : (moment.after rounds).Holds value)
  | given (listed : value ∈ moment.task.values)
  | answer {answer : moment.task.Answer} {after : Machine}
    (run : moment.outcome rounds = .ok answer after) (listed : value ∈ moment.task.yielded answer)

variable {world : World}

/-- The values that a task is asked with are known. -/
theorem Task.Known.values {task : Task} (known : task.Known world)
    : ∀ value ∈ task.values, value.Known world := by
  have called {callee : Callable} (known : callee.Known world) : callee.value.Known world := by
    cases callee with
    | closure | «class» => exact known
    | native => trivial
  cases task with
  | call callee arguments paren => exact List.forall_mem_cons.2 known
  | limited paren callee arguments => exact List.forall_mem_cons.2 ⟨called known.1, known.2.1⟩
  | apply callee arguments => exact List.forall_mem_cons.2 ⟨called known.1, known.2.1⟩
  | invoke closure arguments => exact List.forall_mem_cons.2 ⟨known.1, known.2.1⟩
  | enter parent bindings stmts =>
      exact List.forall_mem_map.2 fun binding member => (known.2.1 binding member).1
  | _ => exact List.forall_mem_nil _

/-- The values that a task yields are known. -/
theorem Task.Yields.values {task : Task} {answer : task.Answer} (yields : task.Yields world answer)
    : ∀ value ∈ task.yielded answer, value.Known world := by
  have ending {completion : Completion} (known : completion.Known world)
      : ∀ value ∈ Completion.values completion, value.Known world := by
    cases completion with
    | normal | broke => exact List.forall_mem_nil _
    | returned value => exact List.forall_mem_singleton.2 known
  cases task with
  | evaluate | call | limited | apply | invoke => exact List.forall_mem_singleton.2 yields
  | evaluateAll => exact yields
  | execute | executeAll | repeatWhile | enter => exact ending yields
  | program => exact List.forall_mem_nil _

/-- A value at hand at a moment is known behind it. -/
theorem Moment.AtHand.known {rounds : Nat} {moment : Moment} {value : Value} {start finish : World}
    (atHand : moment.AtHand rounds value) (begins : moment.Begins start)
    (ends : moment.Ends rounds start finish)
    : value.Known finish := by
  cases atHand with
  | before held => exact ends.more.value (begins.sound.holds (begins.machine ▸ held))
  | after held => exact ends.sound.holds (ends.machine ▸ held)
  | given listed => exact ends.more.value (begins.known.values value listed)
  | answer run listed => exact (ends.answer _ _ run).values value listed

end Running

namespace World.Sound

variable {world : World} {lineage : Lineage}

/-- The class of a known instance is known. -/
theorem class_of (sound : world.Sound) {value : Value} (known : value.Known world)
    (found : value.class? = some lineage)
    : lineage.Known world := by
  cases value with
  | literal | native | closure => cases found
  | «class» => exact Option.some.inj found ▸ known
  | object address => exact Option.some.inj found ▸ (sound.instances _ _ known).2

/-- The classes above one that is known are known. -/
theorem above (sound : world.Sound) (known : lineage.Known world) {front above : List ClassBody}
    {body : ClassBody} (split : lineage.chain = front ++ body :: above)
    : Lineage.Known world { head := body, ancestors := above } := by
  induction front generalizing lineage with
  | nil =>
      obtain ⟨rfl, rfl⟩ := List.cons.inj split
      exact known
  | cons first front ih =>
      obtain ⟨head, ancestors⟩ := lineage
      have rest : ancestors = front ++ body :: above := (List.cons.inj split).2
      cases ancestors with
      | nil => cases front <;> cases rest
      | cons next ancestors =>
          have above := (sound.classes _ _ known).superclass { head := next, ancestors } rfl
          exact ih above.2 rest

/-- Every class was created before those that inherit from it. -/
theorem descends (sound : world.Sound) (known : lineage.Known world)
    : (lineage.chain.map ClassBody.id).Pairwise (· > ·)
      ∧ ∀ body ∈ lineage.chain, body.id ≤ lineage.head.id := by
  obtain ⟨head, ancestors⟩ := lineage
  induction ancestors generalizing head with
  | nil =>
      refine ⟨List.pairwise_singleton _ _, fun body member => ?_⟩
      exact Nat.le_of_eq (congrArg ClassBody.id (List.mem_singleton.1 member))
  | cons next rest ih =>
      obtain ⟨before, above⟩ :=
        (sound.classes _ _ known).superclass { head := next, ancestors := rest } rfl
      obtain ⟨descending, least⟩ := ih next above
      have lower (body : ClassBody) (member : body ∈ next :: rest) : body.id < head.id :=
        Nat.lt_of_le_of_lt (least body member) before
      refine ⟨List.pairwise_cons.2 ⟨?_, descending⟩, List.forall_mem_cons.2 ⟨Nat.le_refl _, ?_⟩⟩
      · exact List.forall_mem_map.2 lower
      · exact fun body member => Nat.le_of_lt (lower body member)

end World.Sound

-----
-- Reading properties

/-- What becomes of reading a property, if so much has been assigned: the value that was assigned
to it last, else the method of the nearest class, bound to the instance, else an error. -/
def propertyRead (history : List Assignment) (address : Nat) (lineage : Lineage) (name : Token)
    (machine : Machine)
    : EStateM.Result Fault Machine Value :=
  match lastAssigned? history address name.lexeme with
  | some value => .ok value machine
  | none =>
      match lineage.chain.findSome? fun body => body.methods.get? name.lexeme with
      | some method =>
          .ok (.closure (machine.bound method)) (machine.binding method (.object address lineage))
      | none => .error (.runtime { token := name, problem := .undefinedProperty }) machine

/-- A property read yields the last value set, or the nearest method bound to the instance. -/
theorem Run.readProperty_run {history : List Assignment} {address : Nat} {name : Token}
    {machine : Machine}
    (assigned : machine.fieldAt address name.lexeme = lastAssigned? history address name.lexeme)
    (lineage : Lineage)
    : Run.readProperty (.object address lineage) name machine
        = propertyRead history address lineage name machine := by
  have looked
      : Run.field? address name.lexeme machine
          = .ok (machine.fieldAt address name.lexeme) machine :=
    rfl
  unfold propertyRead
  refine (bind_ok looked).trans ?_
  rw [assigned]
  cases lastAssigned? history address name.lexeme with
  | some value => rfl
  | none =>
      change (match lineage.method? name.lexeme with
        | some method => do
            let bound ← Run.bindMethod method (.object address lineage)
            return .closure bound
        | none => Run.failAt name .undefinedProperty : Run Value) machine = _
      unfold Lineage.method? Lineage.chain
      cases (lineage.head :: lineage.ancestors).findSome? fun body =>
          body.methods.get? name.lexeme with
      | some method => exact bind_ok (Run.bindMethod_run method _ machine)
      | none => rfl

-----
-- Declaring classes

/-- A declaration that completes has created a class under a number that is new, above it the class
that its clause names, and its name holds the class. -/
theorem World.Sound.declares {world : World} {after : Machine} (sound : world.Sound) {name : Token}
    (isName : name.IsName) {superclass : Option (Reference (Option Nat))}
    {methods : List (Method (Option Nat))} (proper : ProperMethods (unboundMethods methods))
    (run : Evaluator.declareClass name superclass methods world.machine = .ok () after)
    : ∃ found lineage,
        Evaluator.findSuperclass superclass world.machine = .ok found world.machine
        ∧ lineage.superclass? = found
        ∧ world.machine.nextId ≤ lineage.head.id
        ∧ after.scopes.cell? world.machine.current name.lexeme = some (.class lineage) := by
  unfold Evaluator.declareClass at run
  rcases Running.peeks_findSuperclass superclass world.machine with ⟨found, read⟩ | ⟨fault, failed⟩
  · obtain ⟨same, left, grows, sound', known⟩ :=
      (World.keeps_findSuperclass sound superclass).ok read
    let current := world.machine.current
    have nothing : Value.nil.Known same := trivial
    obtain ⟨more, defined⟩ := sound'.put current nothing isName.2.1
    rw [left] at more defined
    let between : Machine :=
      { world.machine with scopes := world.machine.scopes.put current name.lexeme .nil }
    have define : Run.define name .nil world.machine = .ok () between := rfl
    obtain ⟨lineage, created, create, further⟩ :=
      Running.succeeds_createClass name found methods between
    have above (superclass : Lineage) (is : found = some superclass)
        : superclass.Known (same.on between) :=
      more.lineage (known superclass is)
    obtain ⟨_, _, _, _, -, later, inherits⟩ :=
      (World.keeps_createClass defined name above proper).ok create
    have held : (created.scopes.cell? current name.lexeme).isSome = true := by
      refine further.cell _ _ ?_
      change ((world.machine.scopes.put current name.lexeme .nil).cell? current
        name.lexeme).isSome = true
      rw [Forest.cell?_put_self _ sound.here]
      rfl
    have here : Run.currentScope created = .ok current created :=
      congrArg (fun scope => EStateM.Result.ok scope created) further.current
    have assign
        : Run.assignFrom current name (.class lineage) created
            = Run.defineIn current name.lexeme (.class lineage) created :=
      Run.assignFrom_held (Forest.holder?_of_isSome held)
    rw [bind_ok read, bind_ok define, bind_ok create, bind_ok here] at run
    rw [bind_ok (assign.trans rfl)] at run
    refine ⟨found, lineage, read, inherits, later, ?_⟩
    let assigned : Machine :=
      { created with scopes := created.scopes.put current name.lexeme (.class lineage) }
    let event : TraceEvent :=
      .defineClass name.lexeme (found.map Lineage.name) lineage.head.methods.size
    cases run
    change (assigned.told event).scopes.cell? current name.lexeme = _
    obtain ⟨fileTrace, consoleTrace, told⟩ := assigned.told_eq event
    rw [told]
    obtain ⟨value, held⟩ := Option.isSome_iff_exists.1 held
    exact Forest.cell?_put_self _ (Forest.lt_size_of_cell? held) _ _
  · rw [bind_error failed] at run
    cases run

-----
-- Sessions

namespace Running

/-- What a moment says of classes and properties, if so much has been assigned to fields before. -/
structure PropertiesKept (rounds : Nat) (history : List Assignment) (moment : Moment) : Prop where
  /-- The classes above a class were created before it, and each of them before the next. -/
  chains
    : ∀ value lineage,
        moment.AtHand rounds value
        → value.class? = some lineage
        → (lineage.chain.map ClassBody.id).Pairwise (· > ·)
          ∧ ∀ body ∈ lineage.chain, body.id < (moment.after rounds).nextId
  /-- Reading a property yields what was assigned to it last, or else a method. -/
  reads
    : ∀ nesting object name address lineage between,
        moment.nesting = nesting + 1
        → moment.task = .evaluate (.get object name)
        → (Evaluator.ofNesting rounds nesting).evaluate object moment.machine
          = .ok (.object address lineage) between
        → (Evaluator.ofNesting rounds (nesting + 1)).evaluate (.get object name) moment.machine
          = propertyRead (history ++ moment.assignments rounds) address lineage name between
  /-- Assigning to a property changes that property of that instance and nothing else. -/
  assigns
    : ∀ nesting object name value address lineage between assigned after,
        moment.nesting = nesting + 1
        → moment.task = .evaluate (.set object name value)
        → (Evaluator.ofNesting rounds nesting).evaluate object moment.machine
          = .ok (.object address lineage) between
        → (Evaluator.ofNesting rounds nesting).evaluate value between = .ok assigned after
        → ∃ last,
            (Evaluator.ofNesting rounds (nesting + 1)).evaluate (.set object name value)
                moment.machine
              = .ok assigned last
            ∧ last = { after with objects := last.objects }
            ∧ last.objects.size = after.objects.size
            ∧ ∀ other name',
                last.fieldAt other name'
                  = if other = address ∧ name' = name.lexeme then some assigned
                    else after.fieldAt other name'
  /-- A class that has been declared is a new one, and inherits from what its clause names. -/
  declares
    : ∀ nesting name superclass methods completion after,
        moment.nesting = nesting + 1
        → moment.task = .execute (.class name superclass methods)
        → (Evaluator.ofNesting rounds (nesting + 1)).execute (.class name superclass methods)
              moment.machine
          = .ok completion after
        → ∃ found lineage,
            Evaluator.findSuperclass superclass moment.machine = .ok found moment.machine
            ∧ lineage.superclass? = found
            ∧ moment.machine.nextId ≤ lineage.head.id
            ∧ after.scopes.cell? moment.machine.current name.lexeme = some (.class lineage)

/-- Wherever two classes of one number turn up, they have the same methods, and the classes above
them are the same. -/
def SameClasses (rounds : Nat) (moment moment' : Moment) : Prop :=
  ∀ value value' lineage lineage' front front' body body' above above',
    moment.AtHand rounds value
    → moment'.AtHand rounds value'
    → value.class? = some lineage
    → value'.class? = some lineage'
    → lineage.chain = front ++ body :: above
    → lineage'.chain = front' ++ body' :: above'
    → body.id = body'.id
    → body = body' ∧ above = above'

/-- An action alone has no parts. -/
theorem Script.parts_does {α : Type} (rounds nesting : Nat) (action : Run α) (machine : Machine)
    : (Script.does action).parts rounds nesting machine = [] := by
  unfold Script.does Script.parts
  cases action machine <;> rfl

/-- The parts of a script are those of its first task and those behind it. -/
theorem Script.parts_asksThen {α : Type} {rounds nesting : Nat} (task : Task)
    {next : task.Answer → Script α} {machine after : Machine} {answer : task.Answer}
    (run : task.run (Evaluator.ofNesting rounds nesting) machine = .ok answer after)
    : (Script.asks task >>= next).parts rounds nesting machine
        = { nesting, task, machine } :: (next answer).parts rounds nesting after := by
  change Script.parts rounds nesting (.ask task next) machine = _
  rw [Script.parts, run]

namespace Moment

variable {rounds nesting : Nat} {object : BoundExpr} {machine between after : Machine}

/-- The instance is evaluated before its property is read, and nothing else is asked for. -/
theorem parts_get (name : Token) {held : Value}
    (evaluated : (Evaluator.ofNesting rounds nesting).evaluate object machine = .ok held between)
    : parts rounds { nesting := nesting + 1, task := .evaluate (.get object name), machine }
        = [{ nesting, task := .evaluate object, machine }] := by
  refine (Script.parts_asksThen (.evaluate object) evaluated).trans ?_
  exact congrArg (List.cons _) (Script.parts_does _ _ _ _)

/-- The instance is evaluated first, and then the value. -/
theorem parts_set (name : Token) {value : BoundExpr} {address : Nat} {lineage : Lineage}
    {assigned : Value}
    (evaluated
      : (Evaluator.ofNesting rounds nesting).evaluate object machine
          = .ok (.object address lineage) between)
    (evaluated'
      : (Evaluator.ofNesting rounds nesting).evaluate value between = .ok assigned after)
    : parts rounds { nesting := nesting + 1, task := .evaluate (.set object name value), machine }
        = [{ nesting, task := .evaluate object, machine },
          { nesting, task := .evaluate value, machine := between }] := by
  refine (Script.parts_asksThen (.evaluate object) evaluated).trans ?_
  refine congrArg (List.cons _) ?_
  refine (Script.parts_asksThen (.evaluate value) evaluated').trans ?_
  rfl

end Moment

variable {limits : Limits} {steps : List (Bool × String)} {machine : Machine}
  {history : List Assignment} {moment : Moment} {first last : World}

/-- A session knows all its classes and instances, and what has been assigned to them. -/
theorem PropertiesKept.of_reached (fresh : first.history = [])
    (holds
      : ∀ history moment,
          Reached limits steps first.machine history moment
          → first.Holds limits history moment last)
    (reached : Reached limits steps first.machine history moment)
    : PropertiesKept limits.rounds history moment where
  chains value lineage atHand found := by
    obtain ⟨start, finish, -, begins, -, ends, -⟩ := holds _ _ reached
    have known := ends.sound.class_of (atHand.known begins ends) found
    obtain ⟨descends, least⟩ := ends.sound.descends known
    refine ⟨descends, fun body member => ?_⟩
    exact ends.machine ▸ Nat.lt_of_le_of_lt (least body member) (ends.sound.class_lt known)
  reads nesting object name address lineage between level task evaluated := by
    obtain ⟨_, _, machine⟩ := moment
    obtain rfl := level
    obtain rfl := task
    have parts := Moment.parts_get name evaluated
    obtain ⟨start, finish, -, begins, told, ends, -⟩ :=
      holds _ _ (reached.part 0 (by rw [parts]; rfl))
    have ended : finish.machine = between := ends.machine.trans (leaves_ok evaluated)
    have known : (Value.object address lineage).Known finish := ends.answer _ _ evaluated
    have made
        : finish.history
            = history
              ++ Moment.assignments limits.rounds
                  { nesting := nesting + 1, task := .evaluate (.get object name), machine } := by
      have whole :=
        Moment.assignments_eq limits.rounds
          { nesting := nesting + 1, task := .evaluate (.get object name), machine }
      have own
          : Moment.assignment? limits.rounds
                { nesting := nesting + 1, task := .evaluate (.get object name), machine }
              = none :=
        rfl
      rw [parts, own] at whole
      rw [ends.history, told, fresh, whole]
      simp only [List.take_zero, List.flatMap_nil, List.flatMap_cons, List.append_nil,
        List.nil_append, Option.toList_none]
    have assigned := ends.sound.assigned address (ends.sound.instances _ _ known).1 name.lexeme
    rw [ended, made] at assigned
    exact (bind_ok evaluated).trans (Run.readProperty_run assigned lineage)
  assigns nesting object name value address lineage between assigned after level task evaluated
      evaluated' := by
    obtain ⟨_, _, machine⟩ := moment
    obtain rfl := level
    obtain rfl := task
    have parts := Moment.parts_set name evaluated evaluated'
    obtain ⟨_, finish, -, -, -, ends, -⟩ :=
      holds _ _ (reached.part 0 (by rw [parts]; rfl))
    obtain ⟨start, finish', -, begins, -, ends', -⟩ :=
      holds _ _ (reached.part 1 (by rw [parts]; rfl))
    have known : (Value.object address lineage).Known finish := ends.answer _ _ evaluated
    have less := (ends.sound.instances _ _ known).1
    have larger := ends'.more.objects
    rw [ends.machine.trans (leaves_ok evaluated)] at less
    rw [begins.machine, ends'.machine.trans (leaves_ok evaluated')] at larger
    refine ⟨_, (bind_ok evaluated).trans (bind_ok evaluated'), rfl, Array.size_modify, ?_⟩
    intro other name'
    refine (after.fieldAt_insert address name.lexeme assigned other name').trans ?_
    refine ite_congr (propext ?_) (fun _ => rfl) fun _ => rfl
    have inside := Nat.lt_of_lt_of_le less larger
    exact ⟨fun ⟨same, _, named⟩ => ⟨same, named⟩, fun ⟨same, named⟩ => ⟨same, inside, named⟩⟩
  declares nesting name superclass methods completion after level task run := by
    obtain ⟨_, _, machine⟩ := moment
    obtain rfl := level
    obtain rfl := task
    obtain ⟨start, _, -, ⟨rfl, sound, proper⟩, -⟩ := holds _ _ reached
    refine sound.declares proper.1 proper.2.2 ?_
    cases declared : Evaluator.declareClass name superclass methods start.machine with
    | ok value machine =>
        have ended := (bind_ok declared).symm.trans run
        cases ended
        rfl
    | error fault machine =>
        have ended := (bind_error declared).symm.trans run
        cases ended

/-- In every session, classes stay what they were when they were declared, and the properties of an
instance are those that were assigned to it last and the methods of its class. -/
theorem properties_kept (limits : Limits) (traceLevel : Nat) (readings : Nat → Float)
    (steps : List (Bool × String))
    : let machine := Machine.start traceLevel readings
      (∀ history moment,
          Reached limits steps machine history moment
          → PropertiesKept limits.rounds history moment)
      ∧ ∀ history history' moment moment',
          Reached limits steps machine history moment
          → Reached limits steps machine history' moment'
          → SameClasses limits.rounds moment moment' := by
  intro machine
  obtain ⟨last, -, -, sound, -, holds⟩ :=
    (Machine.start_sound traceLevel readings).runSession limits steps
  refine ⟨fun history moment reached => ?_, ?_⟩
  · exact @PropertiesKept.of_reached _ _ _ _ (.start machine) last rfl holds reached
  · intro history history' moment moment' reached reached' value value' lineage lineage' front
      front' body body' above above' atHand atHand' found found' split split' same
    obtain ⟨start, finish, -, begins, -, ends, more⟩ := holds _ _ reached
    obtain ⟨start', finish', -, begins', -, ends', more'⟩ := holds _ _ reached'
    have known := sound.class_of (more.value (atHand.known begins ends)) found
    have known' := sound.class_of (more'.value (atHand'.known begins' ends')) found'
    have one : last.classOf body.id = some { head := body, ancestors := above } :=
      sound.above known split
    have other : last.classOf body'.id = some { head := body', ancestors := above' } :=
      sound.above known' split'
    rw [same, other] at one
    cases one
    exact ⟨rfl, rfl⟩

/-- A class is declared again as a subclass of its own subclass, and an instance of the old one keeps
its methods and its fields. -/
example
    : let steps :=
        [(false, "class A \x7b m() \x7b return true; \x7d \x7d class B < A \x7b \x7d var b = B();"),
          (false, "class A < B \x7b m() \x7b return nil; \x7d \x7d print b.m(); print A().m();"),
          (false, "var other = B(); b.m = false; print b.m; print other.m();")]
      let limits : Limits := { nesting := 40, rounds := 1 }
      let reports := ((Machine.start 0 fun _ => 0).runSession limits steps).1
      reports.map Report.output = ["", "truenil", "falsetrue"] := by
  decide +kernel

end Running

end Lox
