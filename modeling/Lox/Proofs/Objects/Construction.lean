import Lox.Proofs.Objects.Properties

/-! Calls of functions and classes: arguments are counted, instances are new, and an initializer
hands back its receiver.
-/

namespace Lox

-----
-- Single calls

namespace Evaluator

variable {parts : Evaluator} {machine after : Machine} {value : Value}

/-- A call that succeeds was told about and made with its arguments counted. -/
theorem call_succeeds {callee : Value} {arguments : List Value} {paren : Token}
    (run : parts.call callee arguments paren machine = .ok value after)
    : ∃ callable,
        callee.callable? = some callable
        ∧ arguments.length = callable.arity
        ∧ parts.apply callable arguments
              (machine.told (.call callee arguments.length paren.line))
            = .ok value after := by
  unfold call at run
  cases found : callee.callable? with
  | none =>
      rw [found] at run
      cases run
  | some callable =>
      rw [found] at run
      simp only at run
      split at run
      · next counted =>
          obtain ⟨_, _, told, made⟩ := bind_succeeds run
          cases told
          exact ⟨callable, rfl, counted, limitNesting_succeeds made⟩
      · cases run

/-- A call with a wrong number of arguments fails at once. -/
theorem call_miscounted {callee : Value} {callable : Callable} {arguments : List Value}
    (found : callee.callable? = some callable) (other : arguments.length ≠ callable.arity)
    (paren : Token) (machine : Machine)
    : parts.call callee arguments paren machine
        = .error
            (.runtime
              { token := paren, problem := .wrongArity callable.arity arguments.length })
            machine := by
  unfold call
  rw [found]
  simp only
  rw [if_neg other]
  rfl

/-- An initializer hands back the receiver it was bound to, whatever its body returns. -/
theorem invoke_initializer {closure : Closure} {arguments : List Value}
    (flag : closure.isInitializer = true)
    (run : parts.invoke closure arguments machine = .ok value after)
    : after.scopes.cell? closure.scope "this" = some value := by
  unfold invoke at run
  obtain ⟨_, _, -, run⟩ := bind_succeeds run
  obtain ⟨_, _, -, run⟩ := bind_succeeds run
  obtain ⟨_, last, -, run⟩ := bind_succeeds run
  rw [if_pos flag] at run
  cases found : last.scopes.cell? closure.scope "this" with
  | none =>
      rw [Run.receiverIn_missing found] at run
      cases run
  | some receiver =>
      rw [Run.receiverIn_held found] at run
      cases run
      exact found

/-- A class hands back the instance it has created, whatever its initializer does. -/
theorem construct_succeeds {lineage : Lineage} {arguments : List Value}
    (run : parts.construct lineage arguments machine = .ok value after)
    : value = .object machine.objects.size lineage := by
  unfold construct at run
  obtain ⟨object, between, created, run⟩ := bind_succeeds run
  cases created
  cases found : lineage.initializer? with
  | none =>
      rw [found] at run
      cases run
      rfl
  | some initializer =>
      rw [found] at run
      obtain ⟨_, _, -, run⟩ := bind_succeeds run
      obtain ⟨_, _, -, run⟩ := bind_succeeds run
      cases run
      rfl

end Evaluator

-----
-- Initializers

namespace Running

/-- The moment reads an initializer, which is bound to the receiver. -/
inductive Moment.BindsInitializer (rounds : Nat) (closure : Closure) : Moment → Value → Prop
  /-- No field of the instance hides the initializer of its class. -/
  | get {nesting address : Nat} {object : BoundExpr} {name : Token} {lineage : Lineage}
    {machine between after : Machine} (init : name.lexeme = "init")
    (evaluated
      : (Evaluator.ofNesting rounds nesting).evaluate object machine
          = .ok (.object address lineage) between)
    (noField : between.fieldAt address "init" = none)
    (run
      : (Evaluator.ofNesting rounds (nesting + 1)).evaluate (.get object name) machine
          = .ok (.closure closure) after)
    : BindsInitializer rounds closure
        { nesting := nesting + 1, task := .evaluate (.get object name), machine }
        (.object address lineage)
  /-- The receiver of the method around the expression is the receiver of the initializer. -/
  | super {nesting distance scope : Nat} {keyword : Reference (Option Nat)} {method : Token}
    {receiver : Value} {machine after : Machine} (init : method.lexeme = "init")
    (bound : keyword.binding = some distance)
    (around : machine.scopes.ancestor machine.current (distance - 1) = .ok scope)
    (held : machine.scopes.cell? scope "this" = some receiver)
    (run
      : (Evaluator.ofNesting rounds (nesting + 1)).evaluate (.super keyword method) machine
          = .ok (.closure closure) after)
    : BindsInitializer rounds closure
        { nesting := nesting + 1, task := .evaluate (.super keyword method), machine } receiver

variable {limits : Limits} {steps : List (Bool × String)} {first last : World}

/-- What `super` yields is a method of the class that is read at the keyword, bound to the receiver
in the scope inside. -/
theorem readSuper_succeeds {keyword : Reference (Option Nat)} {method : Token} {distance scope : Nat}
    {receiver value : Value} {machine after : Machine} (bound : keyword.binding = some distance)
    (around : machine.scopes.ancestor machine.current (distance - 1) = .ok scope)
    (held : machine.scopes.cell? scope "this" = some receiver)
    (run : Run.readSuper keyword method machine = .ok value after)
    : ∃ lineage found,
        Run.readVariable keyword machine = .ok (.class lineage) machine
        ∧ lineage.method? method.lexeme = some found
        ∧ value = .closure (machine.bound found)
        ∧ after = machine.binding found receiver := by
  unfold Run.readSuper at run
  rw [bound] at run
  obtain ⟨superclass, between, read, run⟩ := bind_succeeds run
  rcases peeks_readVariable keyword machine with ⟨_, same⟩ | ⟨_, failed⟩
  · cases same.symm.trans read
    obtain ⟨_, _, reading, run⟩ := bind_succeeds run
    cases reading
    obtain ⟨_, _, reached, run⟩ := bind_succeeds run
    rw [around] at reached
    cases reached
    obtain ⟨_, _, received, run⟩ := bind_succeeds run
    cases (Run.receiverIn_held held).symm.trans received
    cases superclass with
    | «class» lineage =>
        cases found : lineage.method? method.lexeme with
        | none =>
            simp only [found] at run
            cases run
        | some chosen =>
            simp only [found] at run
            obtain ⟨_, _, binding, run⟩ := bind_succeeds run
            cases (Run.bindMethod_run chosen receiver machine).symm.trans binding
            cases run
            exact ⟨lineage, chosen, read, found, rfl, rfl⟩
    | _ => cases run
  · cases failed.symm.trans read

/-- The initializer is one, and its receiver stands in its scope. -/
theorem Moment.BindsInitializer.initializes {closure : Closure} {moment : Moment} {receiver : Value}
    {history : List Assignment}
    (holds
      : ∀ history moment,
          Reached limits steps first.machine history moment
          → first.Holds limits history moment last)
    (reached : Reached limits steps first.machine history moment)
    (binds : moment.BindsInitializer limits.rounds closure receiver)
    : closure.isInitializer = true
      ∧ (moment.after limits.rounds).scopes.cell? closure.scope "this" = some receiver := by
  have bound {world : World} (method : Closure) (isMethod : method.IsMethod world "init")
      (receiver : Value) (machine : Machine)
      : (machine.bound method).isInitializer = true
        ∧ (machine.binding method receiver).scopes.cell? (machine.bound method).scope "this"
            = some receiver := by
    refine ⟨isMethod.flag, ?_⟩
    change (machine.scopes.scopes.push _)[machine.scopes.scopes.size]?.bind _ = _
    rw [Array.getElem?_push, if_pos rfl]
    exact Table.get?_insert_self _ _ _
  cases binds with
  | @get nesting address object name lineage machine between after init evaluated noField run =>
      have parts := Moment.parts_get name evaluated
      obtain ⟨start, finish, -, begins, told, ends, -⟩ :=
        holds _ _ (reached.part 0 (by rw [parts]; rfl))
      have known : (Value.object address lineage).Known finish := ends.answer _ _ evaluated
      have left := leaves_ok run
      obtain ⟨_, _, evaluated', read⟩ := bind_succeeds run
      cases evaluated.symm.trans evaluated'
      rw [← init] at noField
      rw [@Run.readProperty_run [] _ _ _ noField lineage] at read
      unfold propertyRead at read
      cases found : lineage.chain.findSome? fun body => body.methods.get? name.lexeme with
      | none =>
          rw [found] at read
          cases read
      | some method =>
          rw [found] at read
          cases read
          have isMethod := ends.sound.method (ends.sound.instances _ _ known).2 found
          have ended := bound method (init ▸ isMethod) (.object address lineage) between
          rw [← left] at ended
          exact ended
  | @super nesting distance scope keyword method receiver machine after init bound' around held run =>
      obtain ⟨start, finish, -, ⟨rfl, sound, -⟩, -⟩ := holds _ _ reached
      obtain ⟨lineage, method, read, found, same, rfl⟩ := readSuper_succeeds bound' around held run
      cases same
      obtain ⟨_, _, _, sound, known⟩ := (World.keeps_readVariable sound keyword).ok read
      have isMethod := sound.method known.1 found
      have ended := bound method (init ▸ isMethod) receiver start.machine
      rw [← leaves_ok run] at ended
      exact ended

-----
-- Sessions

/-- How a moment calls functions and classes. -/
structure CallsCounted (rounds : Nat) (moment : Moment) : Prop where
  /-- A function is entered with a value for each of its parameters and none besides. -/
  invokes
    : ∀ closure arguments,
        moment.task = .invoke closure arguments
        → arguments.length = closure.arity
          ∧ (closure.function.parameters.zip arguments).unzip
            = (closure.function.parameters, arguments)
  /-- With a wrong number of arguments, nothing happens once these have been evaluated. -/
  miscounts
    : ∀ nesting callee paren arguments value between values after callable,
        moment.nesting = nesting + 1
        → moment.task = .evaluate (.call callee paren arguments)
        → (Evaluator.ofNesting rounds nesting).evaluate callee moment.machine = .ok value between
        → (Evaluator.ofNesting rounds nesting).evaluateAll arguments between = .ok values after
        → value.callable? = some callable
        → values.length ≠ callable.arity
        → ∃ error,
            (Evaluator.ofNesting rounds (nesting + 1)).evaluate (.call callee paren arguments)
                  moment.machine
              = .error (.runtime error) after
            ∧ error.token = paren
            ∧ error.message
              = "Expected " ++ toString callable.arity ++ " arguments but got "
                  ++ toString values.length ++ "."
  /-- A class yields an instance that was not there before. -/
  constructs
    : ∀ lineage arguments paren value after,
        moment.task = .call (.class lineage) arguments paren
        → (Evaluator.ofNesting rounds moment.nesting).call (.class lineage) arguments paren
              moment.machine
          = .ok value after
        → value = .object moment.machine.objects.size lineage
          ∧ moment.machine.objects.size < after.objects.size
          ∧ ∀ address lineage',
              moment.machine.Holds (.object address lineage')
                ∨ .object address lineage' ∈ moment.task.values
              → address < moment.machine.objects.size

/-- An initializer that was bound to a receiver hands it back from each call that completes. -/
def InitializerReturns (rounds : Nat) (moment moment' : Moment) : Prop :=
  ∀ closure receiver arguments paren value after,
    moment.BindsInitializer rounds closure receiver
    → moment'.task = .call (.closure closure) arguments paren
    → (Evaluator.ofNesting rounds moment'.nesting).call (.closure closure) arguments paren
          moment'.machine
      = .ok value after
    → value = receiver

/-- Calls are counted wherever the moment lies between two sound worlds. -/
theorem CallsCounted.of_worlds {rounds : Nat} {moment : Moment} {start finish : World}
    (begins : moment.Begins start) (ends : moment.Ends rounds start finish)
    : CallsCounted rounds moment where
  invokes closure arguments invoking := by
    obtain ⟨nesting, task, machine⟩ := moment
    obtain rfl := invoking
    have counted := begins.known.2.2
    exact ⟨counted, List.unzip_zip counted.symm⟩
  miscounts nesting callee paren arguments value between values after callable level task evaluated
      evaluated' found other := by
    refine ⟨{ token := paren, problem := .wrongArity callable.arity values.length },
      (bind_ok evaluated).trans ((bind_ok evaluated').trans ?_), rfl, rfl⟩
    exact Evaluator.call_miscounted found other paren after
  constructs lineage arguments paren value after called run := by
    obtain ⟨nesting, task, machine⟩ := moment
    obtain rfl := called
    obtain ⟨callable, found, -, made⟩ := Evaluator.call_succeeds run
    cases found
    obtain ⟨fileTrace, consoleTrace, told⟩ :=
      machine.told_eq (.call (.class lineage) arguments.length paren.line)
    rw [told] at made
    obtain rfl := Evaluator.construct_succeeds made
    have known : (Value.object machine.objects.size lineage).Known finish := ends.answer _ _ run
    refine ⟨rfl, ?_, fun address lineage' atHand => ?_⟩
    · have less := (ends.sound.instances _ _ known).1
      exact Nat.lt_of_lt_of_eq less
        (congrArg (fun machine => machine.objects.size) (ends.machine.trans (leaves_ok run)))
    · have known : (Value.object address lineage').Known start := by
        rcases atHand with held | listed
        · exact begins.sound.holds (begins.machine ▸ held)
        · exact begins.known.values _ listed
      exact begins.machine ▸ (begins.sound.instances _ _ known).1

end Running

/-- Calls of a session are counted, and what they create and prepare is what they are made for. -/
theorem construction_kept (limits : Limits) (traceLevel : Nat) (readings : Nat → Float)
    (steps : List (Bool × String))
    : let machine := Machine.start traceLevel readings
      (∀ history moment,
          Reached limits steps machine history moment
          → Running.CallsCounted limits.rounds moment)
      ∧ ∀ history history' moment moment',
          Reached limits steps machine history moment
          → Reached limits steps machine history' moment'
          → Running.InitializerReturns limits.rounds moment moment' := by
  intro machine
  obtain ⟨last, -, -, sound, -, holds⟩ :=
    (Machine.start_sound traceLevel readings).runSession limits steps
  refine ⟨fun history moment reached => ?_, ?_⟩
  · obtain ⟨start, finish, -, begins, -, ends, -⟩ := holds _ _ reached
    exact .of_worlds begins ends
  · intro history history' moment moment' reached reached' closure receiver arguments paren value
      after binds called run
    obtain ⟨start, finish, -, begins, -, ends, more⟩ := holds _ _ reached
    obtain ⟨start', finish', -, begins', -, ends', more'⟩ := holds _ _ reached'
    obtain ⟨flag, held⟩ := binds.initializes holds reached
    obtain ⟨nesting, task, machine'⟩ := moment'
    obtain rfl := called
    obtain ⟨callable, found, -, made⟩ := Evaluator.call_succeeds run
    cases found
    have held' := Evaluator.invoke_initializer flag made
    rw [← ends.machine] at held
    rw [← ends'.machine.trans (Running.leaves_ok run)] at held'
    -- Both machines are on the way to the last one, on which the receivers of both still stand.
    have one := more.receiver_eq held
    have other := more'.receiver_eq held'
    exact Option.some.inj (other.symm.trans one)

/-- An inherited initializer returns early, is stored and called again, and counts the arguments of
the class. -/
example
    : let source :=
        "class A \x7b init(x) \x7b this.x = x; if (x) return; this.x = nil; \x7d \x7d class B < A \x7b \x7d "
          ++ "var b = B(true); var again = b.init; print again(false) == b; print b.x; B();"
      let limits : Limits := { nesting := 40, rounds := 5 }
      let report := ((Machine.start 0 fun _ => 0).runSource limits false source).1
      report.output = "truenil"
      ∧ report.fault.map Fault.text = some "Expected 1 arguments but got 0.\n[line 1]" := by
  decide +kernel

end Lox
