import Lox.Proofs.Objects.World
import Lox.Proofs.Running.Moments

/-! Single actions of the machine keep a world sound. -/

namespace Lox

-----
-- Binding methods

/-- What binding a method yields. -/
def Machine.bound (machine : Machine) (method : Closure) : Closure :=
  { method with id := machine.nextId, scope := machine.scopes.size }

/-- The machine once a method has been bound: its receiver stands in a scope of its own, inside of
the scope of the method. -/
def Machine.binding (machine : Machine) (method : Closure) (receiver : Value) : Machine :=
  {
    machine with
    scopes :=
      ⟨machine.scopes.scopes.push
        { parent := some method.scope, values := Table.empty.insert "this" receiver }⟩,
    nextId := machine.nextId + 1
  }

/-- Binding a method opens one environment, with the receiver in it. -/
theorem Run.bindMethod_run (method : Closure) (receiver : Value) (machine : Machine)
    : Run.bindMethod method receiver machine
        = .ok (machine.bound method) (machine.binding method receiver) := by
  have written :=
    Forest.put_last machine.scopes.scopes { parent := some method.scope, values := Table.empty }
      "this" receiver
  refine (bind_ok rfl).trans ((bind_ok rfl).trans ?_)
  exact congrArg
    (fun scopes : Forest Value => Run.newClosure method.function machine.scopes.size
      method.name method.isInitializer { machine with scopes })
    written

namespace World

variable {world : World} {α : Type} {post : α → World → Prop}

-----
-- Failing

/-- A failure keeps the world as it is. -/
theorem keeps_failAt (sound : world.Sound) (token : Token) (problem : RuntimeProblem)
    : world.Keeps (Run.failAt token problem) post :=
  .throw sound _

/-- A result that is there already keeps the world, with what holds of its value. -/
theorem keeps_ofExcept (sound : world.Sound) {result : Except RuntimeError α}
    (holds : ∀ value, result = .ok value → post value world)
    : world.Keeps (Run.ofExcept result) post := by
  cases result with
  | ok value => exact .pure sound (holds value rfl)
  | error error => exact .throw sound _

/-- The result of an access keeps the world and is yielded as it is. -/
theorem keeps_ofAccess (sound : world.Sound) (name : Token) (result : Except AccessError α)
    : world.Keeps (Run.ofAccess name result) fun value after =>
        after = world ∧ result = .ok value := by
  cases result with
  | ok value => exact .pure sound ⟨rfl, rfl⟩
  | error error => exact .throw sound _

/-- Unary operators yield plain values. -/
theorem applyUnary_known (operator : Token) (operand : Value) {value : Value}
    (applied : Value.applyUnary operator operand = .ok value)
    : value.Known world := by
  unfold Value.applyUnary at applied
  split at applied <;> cases applied <;> trivial

/-- Binary operators yield plain values, but for the comma that yields its right operand. -/
theorem applyBinary_known (operator : Token) (left : Value) {right value : Value}
    (known : right.Known world) (applied : Value.applyBinary operator left right = .ok value)
    : value.Known world := by
  unfold Value.applyBinary Value.add Value.applyNumeric at applied
  split at applied
  · cases applied
    exact known
  · cases applied
    trivial
  · cases applied
    trivial
  · split at applied <;> cases applied <;> trivial
  · split at applied
    · split at applied <;> cases applied <;> trivial
    · cases applied

-----
-- Actions that leave scopes and instances alone

/-- The world on another machine. -/
def on (world : World) (machine : Machine) : World :=
  { world with machine }

/-- Numbers may be given out, and anything but scopes and instances may change. -/
theorem Sound.still (sound : world.Sound) (machine : Machine)
    (scopes : machine.scopes = world.machine.scopes)
    (objects : machine.objects = world.machine.objects)
    (nextId : world.machine.nextId ≤ machine.nextId)
    (here : machine.current < machine.scopes.size)
    : world.Grows (world.on machine) ∧ (world.on machine).Sound := by
  have more : world.Grows (world.on machine) := {
    classOf := fun _ _ known => known
    instanceOf := fun _ _ known => known
    receiver := fun scope _ => congrArg (fun forest => Forest.cell? forest scope "this") scopes
    scopes := Nat.le_of_eq (congrArg Forest.size scopes).symm
    objects := Nat.le_of_eq (congrArg Array.size objects).symm
    nextId := nextId
    history := rfl
  }
  have size : machine.objects.size = world.machine.objects.size := congrArg Array.size objects
  have fieldAt (address : Nat) (name : String)
      : machine.fieldAt address name = world.machine.fieldAt address name :=
    congrArg (fun heap : Array (Table Value) => heap[address]?.bind (·.get? name)) objects
  have parents (scope : Nat) : machine.scopes.parent? scope = world.machine.scopes.parent? scope :=
    congrArg (fun forest => Forest.parent? forest scope) scopes
  have cells (scope : Nat) (name : String)
      : machine.scopes.cell? scope name = world.machine.scopes.cell? scope name :=
    congrArg (fun forest => Forest.cell? forest scope name) scopes
  refine ⟨more, sound.step more.toExtends (.inr here) ?_ (fun _ _ => .inl) ?_ ?_ ?_ ?_ ?_ ?_⟩
  · exact fun scope parent found => .inl ((parents scope).symm.trans found)
  · exact fun address lineage found => .inl found
  · exact fun scope name value found => .inl ((cells scope name).symm.trans found)
  · intro scope outside value found
    exact sound.receivers scope value ((cells scope "this").symm.trans found)
  · exact fun address name value found => .inl ((fieldAt address name).symm.trans found)
  · exact fun address less name =>
      (fieldAt address name).trans (sound.assigned address (Nat.lt_of_lt_of_eq less size) name)
  · exact fun assignment made =>
      Nat.lt_of_lt_of_eq (sound.addressed assignment made) size.symm

/-- Printing keeps what is known about objects. -/
theorem keeps_print (sound : world.Sound) (text : String)
    : world.Keeps (Run.print text) fun _ _ => True := by
  obtain ⟨grows, after⟩ :=
    sound.still { world.machine with output := world.machine.output ++ text }
      rfl rfl (Nat.le_refl _) sound.here
  exact .of_ok rfl grows after trivial

/-- An event of the trace keeps what is known about objects. -/
theorem keeps_tell (sound : world.Sound) (event : TraceEvent)
    : world.Keeps (Run.tell event) fun _ _ => True := by
  obtain ⟨fileTrace, consoleTrace, told⟩ := world.machine.told_eq event
  obtain ⟨grows, after⟩ :=
    sound.still (world.machine.told event) (by rw [told]) (by rw [told])
      (Nat.le_of_eq (by rw [told])) (by rw [told]; exact sound.here)
  exact .of_ok rfl grows after trivial

/-- The clock yields a number, which is a value known to every world. -/
theorem keeps_readClock (sound : world.Sound)
    : world.Keeps Run.readClock fun value after => value.Known after := by
  obtain ⟨grows, after⟩ :=
    sound.still { world.machine with readingsTaken := world.machine.readingsTaken + 1 }
      rfl rfl (Nat.le_refl _) sound.here
  have known : (Value.number (world.machine.readings world.machine.readingsTaken)).Known
      (world.on { world.machine with readingsTaken := world.machine.readingsTaken + 1 }) :=
    trivial
  exact .of_ok rfl grows after known

/-- A fresh number is larger than every number before it. -/
theorem keeps_freshId (sound : world.Sound)
    : world.Keeps Run.freshId fun id after => world.machine.nextId = id ∧ id < after.machine.nextId := by
  obtain ⟨grows, after⟩ :=
    sound.still { world.machine with nextId := world.machine.nextId + 1 }
      rfl rfl (Nat.le_succ _) sound.here
  exact .of_ok rfl grows after ⟨rfl, Nat.lt_succ_self _⟩

/-- The current scope is one of the scopes that exist. -/
theorem keeps_currentScope (sound : world.Sound)
    : world.Keeps Run.currentScope fun scope after => scope < after.machine.scopes.size :=
  .get (.pure sound sound.here)

-----
-- Scopes

/-- A value may be written to any name but a receiver's. -/
theorem Sound.put (sound : world.Sound) (scope : Nat) {name : String} {value : Value}
    (known : value.Known world) (other : name ≠ "this")
    : let after :=
        world.on
          { world.machine with scopes := world.machine.scopes.put scope name value }
      world.Grows after ∧ after.Sound := by
  intro after
  have receivers (scope' : Nat)
      : after.machine.scopes.cell? scope' "this" = world.machine.scopes.cell? scope' "this" :=
    Forest.cell?_put_of_ne _ scope value scope' (Ne.symm other)
  have more : world.Grows after := {
    classOf := fun _ _ known => known
    instanceOf := fun _ _ known => known
    receiver := fun scope' _ => receivers scope'
    scopes := Nat.le_of_eq (Forest.size_put _ _ _ _).symm
    objects := Nat.le_refl _
    nextId := Nat.le_refl _
    history := rfl
  }
  refine ⟨more, sound.step more.toExtends (.inl rfl) ?_ (fun _ _ => .inl) (fun _ _ => .inl) ?_ ?_
    (fun _ _ _ => .inl) sound.assigned sound.addressed⟩
  · exact fun scope' parent found => .inl ((Forest.parent?_put _ _ _ _ scope').symm.trans found)
  · intro scope' name' value' found
    have found := (Forest.cell?_put _ scope name value scope' name').symm.trans found
    split at found
    · obtain rfl := Option.some.inj found
      exact .inr (more.value known)
    · exact .inl found
  · exact fun scope' _ value' found =>
      sound.receivers scope' value' ((receivers scope').symm.trans found)

/-- A definition of a known value keeps the world, unless it is a receiver. -/
theorem keeps_defineIn (sound : world.Sound) (scope : Nat) {name : String} {value : Value}
    (known : value.Known world) (other : name ≠ "this")
    : world.Keeps (Run.defineIn scope name value) fun _ _ => True := by
  obtain ⟨grows, after⟩ := sound.put scope known other
  exact .of_ok rfl grows after trivial

/-- A program only defines names, and no receiver among them. -/
theorem keeps_define (sound : world.Sound) {name : Token} {value : Value}
    (known : value.Known world) (isName : name.IsName)
    : world.Keeps (Run.define name value) fun _ _ => True :=
  (keeps_currentScope sound).bind fun scope _ grows sound _ =>
    keeps_defineIn sound scope (grows.value known) isName.2.1

/-- An assignment of a known value keeps the world. -/
theorem keeps_assignFrom (sound : world.Sound) (scope : Nat) {name : Token} {value : Value}
    (known : value.Known world) (isName : name.IsName)
    : world.Keeps (Run.assignFrom scope name value) fun _ _ => True := by
  refine .get ?_
  cases world.machine.scopes.holder? scope name.lexeme with
  | some holder => exact keeps_defineIn sound holder known isName.2.1
  | none => exact keeps_failAt sound name _

/-- Whatever is read out of a scope is known. -/
theorem keeps_readVariable (sound : world.Sound) (target : Reference (Option Nat))
    : world.Keeps (Run.readVariable target) fun value after =>
        value.Known after ∧ (target.name.lexeme = "this" → value.IsObject) := by
  obtain ⟨name, binding⟩ := target
  have held (scope : Nat) (value : Value)
      (found : world.machine.scopes.cell? scope name.lexeme = some value)
      : value.Known world ∧ (name.lexeme = "this" → value.IsObject) :=
    ⟨sound.cells _ _ _ found, fun this => sound.receivers scope value (this ▸ found)⟩
  cases binding with
  | some distance =>
      refine .get ((keeps_ofAccess sound name _).weaken ?_)
      rintro value after - - ⟨same, read⟩
      rw [same]
      have read
          : world.machine.scopes.valueAt world.machine.current distance name.lexeme
              = .ok value :=
        read
      cases reached : world.machine.scopes.ancestor? world.machine.current distance with
      | none =>
          rw [Forest.valueAt_of_none _ reached] at read
          cases read
      | some outer =>
          cases found : world.machine.scopes.cell? outer name.lexeme with
          | none =>
              rw [Forest.valueAt_missing reached found] at read
              cases read
          | some held' =>
              rw [Forest.valueAt_held reached found] at read
              cases read
              exact held outer _ found
  | none =>
      cases found : world.machine.scopes.get? globalScope name.lexeme with
      | none => exact (keeps_failAt sound name _).congr (Run.readVariable_missing found)
      | some value =>
          obtain ⟨holder, -, found'⟩ := Option.bind_eq_some_iff.1 found
          exact .of_ok (Run.readVariable_held found) (.refl world) sound (held holder value found')

/-- Writing a variable of the program keeps the world. -/
theorem keeps_writeVariable (sound : world.Sound) {target : Reference (Option Nat)}
    {value : Value} (known : value.Known world) (isName : target.name.IsName)
    : world.Keeps (Run.writeVariable target value) fun _ _ => True := by
  obtain ⟨name, binding⟩ := target
  cases binding with
  | none => exact keeps_assignFrom sound globalScope known isName
  | some distance =>
      refine .get ((keeps_ofAccess sound name _).bind ?_)
      exact fun scope _ grows sound _ =>
        keeps_defineIn sound scope (grows.value known) isName.2.1

/-- The world with one more scope. -/
def withScope (world : World) (parent : Nat) (values : Table Value) : World :=
  world.on {
    world.machine with
    scopes := ⟨world.machine.scopes.scopes.push { parent := some parent, values }⟩
  }

/-- One scope more is there behind a new one. -/
theorem size_withScope (world : World) (parent : Nat) (values : Table Value)
    : (world.withScope parent values).machine.scopes.size = world.machine.scopes.size + 1 :=
  Array.size_push _

/-- Only the new scope has a new parent. -/
theorem parent?_withScope (world : World) (parent : Nat) (values : Table Value) (scope : Nat)
    : (world.withScope parent values).machine.scopes.parent? scope
        = if scope = world.machine.scopes.size then some parent
          else world.machine.scopes.parent? scope := by
  change (world.machine.scopes.scopes.push _)[scope]?.bind _ = _
  rw [Array.getElem?_push]
  exact apply_ite (fun held : Option (Scope Value) => held.bind (·.parent)) _ _ _

/-- Only the new scope has new cells. -/
theorem cell?_withScope (world : World) (parent : Nat) (values : Table Value) (scope : Nat)
    (name : String)
    : (world.withScope parent values).machine.scopes.cell? scope name
        = if scope = world.machine.scopes.size then values.get? name
          else world.machine.scopes.cell? scope name := by
  change (world.machine.scopes.scopes.push _)[scope]?.bind _ = _
  rw [Array.getElem?_push]
  exact apply_ite (fun held : Option (Scope Value) => held.bind (·.values.get? name)) _ _ _

/-- A new scope may hold anything that is known, under `this` an instance. -/
theorem Sound.withScope (sound : world.Sound) {parent : Nat}
    (inside : parent < world.machine.scopes.size) (values : Table Value)
    (known : ∀ name value, values.get? name = some value → value.Known world)
    (receiver : ∀ value, values.get? "this" = some value → value.IsObject)
    : world.Grows (world.withScope parent values) ∧ (world.withScope parent values).Sound := by
  have cells := world.cell?_withScope parent values
  have size := world.size_withScope parent values
  have more : world.Grows (world.withScope parent values) := {
    classOf := fun _ _ known => known
    instanceOf := fun _ _ known => known
    receiver := fun scope less => (cells scope "this").trans (if_neg (Nat.ne_of_lt less))
    scopes := Nat.le_of_lt (Nat.lt_of_lt_of_eq (Nat.lt_succ_self _) size.symm)
    objects := Nat.le_refl _
    nextId := Nat.le_refl _
    history := rfl
  }
  refine ⟨more, sound.step more.toExtends (.inl rfl) ?_ (fun _ _ => .inl) (fun _ _ => .inl) ?_ ?_
    (fun _ _ _ => .inl) sound.assigned sound.addressed⟩
  · intro scope outer found
    rw [parent?_withScope] at found
    split at found
    · exact .inr (Option.some.inj found ▸ Nat.lt_of_lt_of_le inside more.scopes)
    · exact .inl found
  · intro scope name value found
    rw [cells] at found
    split at found
    · exact .inr (more.value (known name value found))
    · exact .inl found
  · intro scope _ value found
    rw [cells] at found
    split at found
    · exact receiver value found
    · exact sound.receivers scope value found

/-- A value found in the new table was bound there or was in the table before. -/
theorem bound_or_before {bindings : List (Token × Value)} {table : Table Value} {name : String}
    {value : Value}
    (found
      : (bindings.foldl (fun table binding => table.insert binding.1.lexeme binding.2) table).get?
            name
          = some value)
    : table.get? name = some value
      ∨ ∃ binding ∈ bindings, binding.1.lexeme = name ∧ binding.2 = value := by
  induction bindings generalizing table with
  | nil => exact .inl found
  | cons first rest ih =>
      rcases ih found with earlier | ⟨binding, member, same⟩
      · rw [Table.get?_insert] at earlier
        split at earlier
        · next same =>
            exact .inr ⟨first, List.mem_cons_self, same.symm, Option.some.inj earlier⟩
        · exact .inl earlier
      · exact .inr ⟨binding, List.mem_cons_of_mem _ member, same⟩

/-- A name that has been bound holds a value it was bound to. -/
theorem held_mem {bindings : List (Token × Value)} {name : String} {value : Value}
    (found : (held bindings).get? name = some value)
    : ∃ binding ∈ bindings, binding.1.lexeme = name ∧ binding.2 = value := by
  rcases bound_or_before found with none | bound
  · cases none
  · exact bound

/-- A scope in which some names have values already. -/
theorem Sound.entered (sound : world.Sound) {parent : Nat}
    (inside : parent < world.machine.scopes.size) {bindings : List (Token × Value)}
    (known : ∀ binding ∈ bindings, binding.2.Known world)
    (isName : ∀ binding ∈ bindings, binding.1.lexeme ≠ "this")
    : world.Grows (world.withScope parent (held bindings))
      ∧ (world.withScope parent (held bindings)).Sound := by
  refine sound.withScope inside _ (fun name value found => ?_) fun value found => ?_
  · obtain ⟨binding, member, -, rfl⟩ := held_mem found
    exact known binding member
  · obtain ⟨binding, member, this, -⟩ := held_mem found
    exact absurd this (isName binding member)

-----
-- Functions and instances

/-- A new closure is known, with its scope. -/
theorem keeps_newClosure (sound : world.Sound) {function : BoundLambda}
    (proper : function.unbound.Proper) {scope : Nat} (inside : scope < world.machine.scopes.size)
    (name : Option String) {isInitializer : Bool}
    (receiver
      : isInitializer = true
        → ∃ receiver,
            world.machine.scopes.cell? scope "this" = some receiver ∧ receiver.IsObject)
    : world.Keeps (Run.newClosure function scope name isInitializer) fun closure after =>
        closure.Known after ∧ closure.function = function :=
  (keeps_freshId sound).bind fun _ _ grows sound _ => .pure sound ⟨{
    proper := proper
    inside := Nat.lt_of_lt_of_le inside grows.scopes
    receiver := fun flag =>
      let ⟨value, held, isObject⟩ := receiver flag
      ⟨value, grows.receiver_eq held, isObject⟩
  }, rfl⟩

/-- A method is bound in a scope of its own, where its receiver stays. -/
theorem keeps_bindMethod (sound : world.Sound) {method : Closure} {name : String}
    (isMethod : method.IsMethod world name) {receiver : Value} (known : receiver.Known world)
    (isObject : receiver.IsObject)
    : world.Keeps (Run.bindMethod method receiver) fun closure after =>
        closure.Known after ∧ closure.function = method.function := by
  obtain ⟨grows, opened⟩ :=
    sound.withScope isMethod.inside (Table.empty.insert "this" receiver)
      (fun name value found => by
        rw [Table.get?_insert] at found
        split at found
        · exact Option.some.inj found ▸ known
        · cases found)
      (fun value found => by
        rw [Table.get?_insert_self] at found
        exact Option.some.inj found ▸ isObject)
  obtain ⟨more, bound⟩ :=
    opened.still (world.machine.binding method receiver) rfl rfl (Nat.le_succ _)
      opened.here
  refine .of_ok (Run.bindMethod_run method receiver world.machine) (grows.trans more) bound ?_
  have inside : world.machine.scopes.size < (world.machine.binding method receiver).scopes.size :=
    Nat.lt_of_lt_of_eq (Nat.lt_succ_self _) (world.size_withScope method.scope _).symm
  refine ⟨⟨isMethod.proper, inside, fun _ => ⟨receiver, ?_, isObject⟩⟩, rfl⟩
  refine (world.cell?_withScope method.scope (Table.empty.insert "this" receiver)
    world.machine.scopes.size "this").trans ?_
  rw [if_pos rfl]
  exact Table.get?_insert_self _ _ _

/-- The receiver of a method is a known instance. -/
theorem keeps_receiverIn (sound : world.Sound) (scope : Nat)
    : world.Keeps (Run.receiverIn scope) fun receiver after =>
        receiver.Known after ∧ receiver.IsObject := by
  cases found : world.machine.scopes.cell? scope "this" with
  | none => exact Keeps.congr (.throw sound .receiverMissing) (Run.receiverIn_missing found)
  | some receiver =>
      exact .of_ok (Run.receiverIn_held found) (.refl world) sound
        ⟨sound.cells _ _ _ found, sound.receivers _ _ found⟩

/-- An instance is created at an address that no other one has. -/
theorem keeps_newObject (sound : world.Sound) {lineage : Lineage} (known : lineage.Known world)
    : world.Keeps (Run.newObject lineage) fun object after =>
        object.Known after ∧ object = .object world.machine.objects.size lineage := by
  let address := world.machine.objects.size
  let after : World := {
    world with
    instanceOf := fun other => if other = address then some lineage else world.instanceOf other
    machine := { world.machine with objects := world.machine.objects.push .empty }
  }
  have size : after.machine.objects.size = address + 1 := Array.size_push _
  have fieldAt (other : Nat) (name : String)
      : after.machine.fieldAt other name = world.machine.fieldAt other name :=
    world.machine.fieldAt_push other name
  have more : world.Grows after := {
    classOf := fun _ _ known => known
    instanceOf := fun other lineage' known =>
      (if_neg (Nat.ne_of_lt (sound.instances other lineage' known).1)).trans known
    receiver := fun _ _ => rfl
    scopes := Nat.le_refl _
    objects := Nat.le_of_lt (Nat.lt_of_lt_of_eq (Nat.lt_succ_self _) size.symm)
    nextId := Nat.le_refl _
    history := rfl
  }
  have soundAfter : after.Sound := by
    refine sound.step more.toExtends (.inl rfl) (fun _ _ => .inl) (fun _ _ => .inl) ?_
      (fun _ _ _ => .inl) (fun scope _ value found => sound.receivers scope value found) ?_ ?_ ?_
    · intro other lineage' found
      have found : (if other = address then some lineage else world.instanceOf other) = _ := found
      split at found
      · next same =>
          obtain rfl := Option.some.inj found
          exact .inr ⟨by omega, more.lineage known⟩
      · exact .inl found
    · exact fun other name value found => .inl ((fieldAt other name).symm.trans found)
    · intro other less name
      rw [fieldAt]
      by_cases last : other = address
      · have missing : world.machine.fieldAt other name = none := by
          unfold Machine.fieldAt
          rw [Array.getElem?_eq_none (Nat.le_of_eq last.symm)]
          rfl
        refine missing.trans (lastAssigned?_of_apart (fun assignment made => ?_) name).symm
        exact Nat.ne_of_lt (Nat.lt_of_lt_of_eq (sound.addressed assignment made) last.symm)
      · exact sound.assigned other (by omega) name
    · exact fun assignment made => Nat.lt_of_lt_of_le (sound.addressed assignment made) more.objects
  have created : (Value.object address lineage).Known after := if_pos rfl
  exact .of_ok rfl more soundAfter ⟨created, rfl⟩

/-- What a field holds is known. -/
theorem keeps_field? (sound : world.Sound) (address : Nat) (name : String)
    : world.Keeps (Run.field? address name) fun found after =>
        ∀ value, found = some value → value.Known after :=
  .get (.pure sound fun value found => sound.fields address name value found)

/-- What a property read yields is known, a field or a bound method. -/
theorem keeps_readProperty (sound : world.Sound) {object : Value} (known : object.Known world)
    (name : Token)
    : world.Keeps (Run.readProperty object name) fun value after => value.Known after := by
  cases object with
  | object address lineage =>
      refine (keeps_field? sound address name.lexeme).bind fun found between grows sound known' => ?_
      have known := grows.value known
      cases found with
      | some value => exact .pure sound (known' value rfl)
      | none =>
          simp only
          cases found : lineage.method? name.lexeme with
          | some method =>
              have isMethod := sound.method (sound.instances _ _ known).2 found
              exact (keeps_bindMethod sound isMethod known ⟨address, lineage, rfl⟩).bind
                fun closure after _ sound known => .pure sound known.1
          | none => exact keeps_failAt sound name _
  | _ => exact keeps_failAt sound name _

/-- The method that `super` yields is known, bound to the receiver. -/
theorem keeps_readSuper (sound : world.Sound) (keyword : Reference (Option Nat)) (method : Token)
    : world.Keeps (Run.readSuper keyword method) fun value after => value.Known after := by
  unfold Run.readSuper
  split
  · next distance _ =>
      refine (keeps_readVariable sound keyword).bind fun superclass between _ sound known => .get ?_
      refine (keeps_ofAccess sound keyword.name _).bind ?_
      intro scope between' grows sound _
      refine (keeps_receiverIn sound scope).bind fun receiver between'' more sound received => ?_
      have known := (grows.trans more).value known.1
      cases superclass with
      | «class» lineage =>
          simp only
          cases found : lineage.method? method.lexeme with
          | some method =>
              exact (keeps_bindMethod sound (sound.method known found) received.1 received.2).bind
                fun closure after _ sound known => .pure sound known.1
          | none => exact keeps_failAt sound method _
      | _ => exact .throw sound .superNotClass
  · exact .throw sound .unboundSuper

/-- An assignment to a field is one more in the history. -/
def assigning (world : World) (address : Nat) (name : String) (value : Value) : World :=
  {
    world with
    history := world.history ++ [{ address, name, value }]
    machine := {
      world.machine with
      objects := world.machine.objects.modify address fun fields => fields.insert name value
    }
  }

/-- A known value may be set as a field of an instance. -/
theorem Sound.assigning (sound : world.Sound) {address : Nat}
    (less : address < world.machine.objects.size) (name : String) {value : Value}
    (known : value.Known world)
    : world.Extends (world.assigning address name value)
      ∧ (world.assigning address name value).Sound := by
  let after := world.assigning address name value
  have size : after.machine.objects.size = world.machine.objects.size := Array.size_modify
  have fieldAt := world.machine.fieldAt_insert address name value
  have more : world.Extends after := {
    classOf := fun _ _ known => known
    instanceOf := fun _ _ known => known
    receiver := fun _ _ => rfl
    scopes := Nat.le_refl _
    objects := Nat.le_of_eq size.symm
    nextId := Nat.le_refl _
  }
  refine ⟨more, sound.step more (.inl rfl) (fun _ _ => .inl) (fun _ _ => .inl) (fun _ _ => .inl)
    (fun _ _ _ => .inl) (fun scope _ value found => sound.receivers scope value found) ?_ ?_ ?_⟩
  · intro other name' value' found
    have found := (fieldAt other name').symm.trans found
    split at found
    · exact .inr (more.value (Option.some.inj found ▸ known))
    · exact .inl found
  · intro other inside name'
    refine (fieldAt other name').trans ?_
    change _ = lastAssigned? (world.history ++ _) other name'
    rw [lastAssigned?_snoc, sound.assigned other (Nat.lt_of_lt_of_eq inside size) name']
    refine ite_congr (propext ?_) (fun _ => rfl) fun _ => rfl
    exact ⟨fun ⟨same, _, named⟩ => ⟨same.symm, named.symm⟩,
      fun ⟨same, named⟩ => ⟨same.symm, less, named.symm⟩⟩
  · intro assignment made
    refine Nat.lt_of_lt_of_eq ?_ size.symm
    rcases List.mem_append.1 made with earlier | last
    · exact sound.addressed assignment earlier
    · exact List.mem_singleton.1 last ▸ less

-----
-- Classes

/-- The superclass that a clause evaluates to is a known class. -/
theorem keeps_findSuperclass (sound : world.Sound) (target : Option (Reference (Option Nat)))
    : world.Keeps (Evaluator.findSuperclass target) fun found after =>
        ∀ lineage, found = some lineage → lineage.Known after := by
  cases target with
  | none => exact .pure sound fun _ none => by cases none
  | some target =>
      have read
          : world.Keeps (Evaluator.readSuperclass target) fun lineage after =>
              lineage.Known after := by
        refine (keeps_readVariable sound target).bind fun value between _ sound known => ?_
        cases value with
        | «class» lineage => exact .pure sound known.1
        | _ => exact keeps_failAt sound target.name _
      exact read.map fun lineage after known other same => Option.some.inj same ▸ known

/-- Methods are not bound yet, so that nobody is their receiver. -/
theorem keeps_createMethods (sound : world.Sound) {scope : Nat}
    (inside : scope < world.machine.scopes.size) {table : Table Closure}
    {methods : List (Method (Option Nat))} (proper : ProperMethods (unboundMethods methods))
    (known : ∀ name method, table.get? name = some method → method.IsMethod world name)
    : world.Keeps (Evaluator.createMethods scope table methods) fun created after =>
        ∀ name method, created.get? name = some method → method.IsMethod after name := by
  induction methods generalizing table world with
  | nil => exact .pure sound known
  | cons method rest ih =>
      obtain ⟨name, function⟩ := method
      have created
          : world.Keeps (Run.newClosure function scope (some name.lexeme) (name.lexeme = "init"))
              fun closure after => closure.IsMethod after name.lexeme :=
        (keeps_freshId sound).bind fun _ _ grows sound _ =>
          .pure sound ⟨proper.1, Nat.lt_of_lt_of_le inside grows.scopes, rfl⟩
      refine created.bind fun closure between grows sound isMethod => ?_
      refine ih sound (Nat.lt_of_lt_of_le inside grows.scopes) proper.2 ?_
      intro other method found
      rw [Table.get?_insert] at found
      split at found
      · next same =>
          obtain rfl := Option.some.inj found
          exact same ▸ isMethod
      · exact grows.isMethod (known other method found)

/-- The scope that the methods of a class close over exists, whether it is the current one or a new
one with the superclass in it. -/
theorem keeps_methodScope (sound : world.Sound) {superclass : Option Lineage}
    (known : ∀ lineage, superclass = some lineage → lineage.Known world)
    : world.Keeps (Evaluator.methodScope superclass) fun scope after =>
        scope < after.machine.scopes.size := by
  refine (keeps_currentScope sound).bind fun current between grows sound inside => ?_
  cases superclass with
  | none => exact .pure sound inside
  | some lineage =>
      obtain ⟨more, opened⟩ :=
        sound.withScope inside .empty (fun _ _ none => by cases none)
          (fun _ none => by cases none)
      have known : (Value.class lineage).Known (between.withScope current .empty) :=
        (grows.trans more).lineage (known lineage rfl)
      have other : "super" ≠ "this" := by decide
      have define := keeps_defineIn opened between.machine.scopes.size known other
      refine .behind more ?_ (bind_ok rfl)
      refine define.bind fun _ _ further sound _ => .pure sound ?_
      refine Nat.lt_of_lt_of_le (Nat.lt_succ_self _) ?_
      exact Nat.le_trans (Nat.le_of_eq (between.size_withScope current .empty).symm) further.scopes

/-- The world with a class that has just got its number. -/
def withClass (world : World) (lineage : Lineage) : World :=
  {
    world with
    classOf := fun id => if id = world.machine.nextId then some lineage else world.classOf id
    machine := { world.machine with nextId := world.machine.nextId + 1 }
  }

/-- A class with a new number and proper methods may be created. -/
theorem Sound.withClass (sound : world.Sound) (lineage : Lineage)
    (number : lineage.head.id = world.machine.nextId)
    (methods
      : ∀ name method,
          lineage.head.methods.get? name = some method → method.IsMethod world name)
    (superclass : ∀ superclass, lineage.superclass? = some superclass → superclass.Known world)
    : world.Grows (world.withClass lineage)
      ∧ (world.withClass lineage).Sound
      ∧ lineage.Known (world.withClass lineage) := by
  have known : lineage.Known (world.withClass lineage) := if_pos number
  have more : world.Grows (world.withClass lineage) := {
    classOf := fun id lineage' found =>
      (if_neg (Nat.ne_of_lt (sound.classes id lineage' found).before)).trans found
    instanceOf := fun _ _ known => known
    receiver := fun _ _ => rfl
    scopes := Nat.le_refl _
    objects := Nat.le_refl _
    nextId := Nat.le_succ _
    history := rfl
  }
  have created : (world.withClass lineage).Created world.machine.nextId lineage := {
    number := number
    before := Nat.lt_succ_self _
    methods := fun name method found => more.isMethod (methods name method found)
    superclass := fun above found =>
      ⟨sound.class_lt (superclass above found), more.lineage (superclass above found)⟩
  }
  refine ⟨more, sound.step more.toExtends (.inl rfl) (fun _ _ => .inl) ?_ (fun _ _ => .inl)
    (fun _ _ _ => .inl) (fun scope _ value found => sound.receivers scope value found) (fun _ _ _ => .inl)
    sound.assigned sound.addressed, known⟩
  intro id lineage' found
  have found : (if id = world.machine.nextId then some lineage else world.classOf id) = _ := found
  split at found
  · next last =>
      obtain rfl := Option.some.inj found
      exact .inr (last ▸ created)
  · exact .inl found

/-- The class that is created last has a number of its own, behind all others. -/
theorem keeps_createClass (sound : world.Sound) (name : Token) {superclass : Option Lineage}
    (known : ∀ lineage, superclass = some lineage → lineage.Known world)
    {methods : List (Method (Option Nat))} (proper : ProperMethods (unboundMethods methods))
    : world.Keeps (Evaluator.createClass name superclass methods) fun lineage after =>
        lineage.Known after
        ∧ world.machine.nextId ≤ lineage.head.id
        ∧ lineage.superclass? = superclass := by
  refine (keeps_methodScope sound known).bind fun scope between grows sound inside => ?_
  refine (keeps_createMethods sound inside proper fun _ _ none => by cases none).bind ?_
  intro table between' grows' sound methods
  have further := grows.trans grows'
  let body : ClassBody := { id := between'.machine.nextId, name := name.lexeme, methods := table }
  cases superclass with
  | none =>
      obtain ⟨more, last, created⟩ :=
        sound.withClass { head := body, ancestors := [] } rfl methods
          fun _ none => by cases none
      exact .of_ok rfl more last ⟨created, further.nextId, rfl⟩
  | some above =>
      obtain ⟨more, last, created⟩ :=
        sound.withClass (above.extend body) rfl methods
          fun superclass same => Option.some.inj same ▸ further.lineage (known above rfl)
      exact .of_ok rfl more last ⟨created, further.nextId, rfl⟩

/-- A class declaration extends the world by its class and defines it. -/
theorem keeps_declareClass (sound : world.Sound) {name : Token} (isName : name.IsName)
    (superclass : Option (Reference (Option Nat))) {methods : List (Method (Option Nat))}
    (proper : ProperMethods (unboundMethods methods))
    : world.Keeps (Evaluator.declareClass name superclass methods) fun _ _ => True := by
  refine (keeps_findSuperclass sound superclass).bind fun found between _ sound known => ?_
  have nothing : Value.nil.Known between := trivial
  refine (keeps_define sound nothing isName).bind fun _ between' grows sound _ => ?_
  refine (keeps_createClass sound name (fun lineage same => grows.lineage (known lineage same))
    proper).bind fun lineage between'' _ sound known => ?_
  refine (keeps_currentScope sound).bind fun scope last grows sound _ => ?_
  have known : (Value.class lineage).Known last := grows.lineage known.1
  exact (keeps_assignFrom sound scope known isName).bind fun _ _ _ sound _ => keeps_tell sound _

end World

end Lox
