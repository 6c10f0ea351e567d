import Lox.Proofs.Comparison
import Lox.Proofs.Joining.Values

/-! Two machines side by side, of which one runs a whole program and the other its parts.

The parts stand on lines of their own, and what was printed before a part is missing from its
output. Each action keeps the machines to each other: it ends in the same way on both, and so does
what is made of such actions.
-/

namespace Lox

-----
-- Machines and outcomes

/-- The machines agree but for the lines of functions and the output so far. -/
structure Machine.Mirrors (move : Nat → Nat) (heading : String) (whole part : Machine)
    : Prop where
  scopes : part.scopes = whole.scopes.map (·.moved move)
  objects : part.objects = whole.objects.map (·.map (·.moved move))
  current : part.current = whole.current
  nextId : part.nextId = whole.nextId
  output : whole.output = heading ++ part.output
  readings : part.readings = whole.readings
  readingsTaken : part.readingsTaken = whole.readingsTaken

/-- Both runs end in a result, or both end in a fault, and it is the same on other lines. -/
def MirrorsEnd (move : Nat → Nat) (heading : String) {α β : Type} (image : α → β)
    : EStateM.Result Fault Machine α → EStateM.Result Fault Machine β → Prop
  | .ok value whole, .ok value' part => value' = image value ∧ whole.Mirrors move heading part
  | .error fault whole, .error fault' part =>
      fault' = fault.moved move ∧ whole.Mirrors move heading part
  | _, _ => False

/-- Run on machines that agree, the actions end alike. -/
def Mirrors (move : Nat → Nat) (heading : String) {α β : Type} (image : α → β)
    (whole : Run α) (part : Run β)
    : Prop :=
  ∀ machine machine', machine.Mirrors move heading machine'
    → MirrorsEnd move heading image (whole machine) (part machine')

section

variable {move : Nat → Nat} {heading : String} {α β γ δ : Type}

/-- Machines with a whole program and with a part of it. -/
def joining (move : Nat → Nat) (heading : String) : Comparison Unit where
  Extends _ _ := True
  Machines _ := Machine.Mirrors move heading
  Faults fault fault' := fault' = fault.moved move
  refl _ := trivial
  trans _ _ := trivial

namespace Mirrors

variable {image : α → β} {whole : Run α} {part : Run β}

/-- Mirroring is one way of running together, over a single footing. -/
theorem iff_together
    : Mirrors move heading image whole part
      ↔ (joining move heading).Together () whole part fun value value' _ =>
          value' = image value := by
  refine forall₂_congr fun machine machine' => imp_congr_right fun _ => ?_
  cases whole machine <;> cases part machine'
  · exact ⟨fun ended => ⟨(), trivial, ended.2, ended.1⟩,
      fun ⟨_, _, mirrors, same⟩ => ⟨same, mirrors⟩⟩
  · exact .rfl
  · exact .rfl
  · exact ⟨fun ended => ⟨ended.1, (), trivial, ended.2⟩,
      fun ⟨same, _, _, mirrors⟩ => ⟨same, mirrors⟩⟩

/-- A value is mirrored by its image. -/
theorem pure (image : α → β) (value : α)
    : Mirrors move heading image (Pure.pure value) (Pure.pure (image value)) :=
  iff_together.2 (.pure rfl)

/-- A fault is mirrored by the moved one. -/
theorem throw (image : α → β) (fault : Fault)
    : Mirrors move heading image (MonadExcept.throw fault)
        (MonadExcept.throw (fault.moved move)) :=
  iff_together.2 (.throw rfl)

/-- Two steps in a row are mirrored if each is. -/
theorem bind {image' : γ → δ} {next : α → Run γ} {next' : β → Run δ}
    (front : Mirrors move heading image whole part)
    (back : ∀ value, Mirrors move heading image' (next value) (next' (image value)))
    : Mirrors move heading image' (whole >>= next) (part >>= next') := by
  refine iff_together.2 ((iff_together.1 front).bind ?_)
  rintro value _ _ _ rfl
  exact iff_together.1 (back value)

/-- Changing the value on both sides mirrors the change. -/
theorem map {image' : γ → δ} {make : α → γ} {make' : β → δ}
    (front : Mirrors move heading image whole part)
    (made : ∀ value, make' (image value) = image' (make value))
    : Mirrors move heading image' (make <$> whole) (make' <$> part) := by
  refine iff_together.2 ((iff_together.1 front).map ?_)
  rintro value _ _ _ rfl
  exact made value

end Mirrors

-----
-- Failing

/-- A failure is mirrored at the moved token. -/
theorem mirrors_failAt {image : α → β} (token : Token) (problem : RuntimeProblem)
    : Mirrors move heading image (Run.failAt token problem)
        (Run.failAt (token.moved move) problem) :=
  .throw image (.runtime { token, problem })

/-- A result that is there already is mirrored by the moved one. -/
theorem mirrors_ofExcept (result : Except RuntimeError Value)
    : Mirrors move heading (Value.moved move) (Run.ofExcept result)
        (Run.ofExcept (movedResult move result)) := by
  cases result with
  | ok value => exact .pure _ value
  | error error => exact .throw _ (.runtime error)

/-- The result of an access is mirrored by its image. -/
theorem mirrors_ofAccess {image : α → β} (name : Token) (result : Except AccessError α)
    : Mirrors move heading image (Run.ofAccess name result)
        (Run.ofAccess (name.moved move) (result.map image)) := by
  cases result with
  | ok value => exact .pure image value
  | error problem => cases problem <;> exact .throw image (Run.accessFault name _)

-----
-- Output and trace

/-- The same text is printed on both sides. -/
theorem mirrors_print (text : String)
    : Mirrors move heading id (Run.print text) (Run.print text) :=
  fun _ _ mirrors =>
    ⟨rfl, { mirrors with
      output := by
        change _ ++ text = heading ++ (_ ++ text)
        rw [mirrors.output, String.append_assoc] }⟩

/-- Being told of an event changes nothing that a program can see. -/
theorem mirrors_tell (event event' : TraceEvent)
    : Mirrors move heading id (Run.tell event) (Run.tell event') := by
  intro machine machine' mirrors
  obtain ⟨fileTrace, consoleTrace, whole⟩ := machine.told_eq event
  obtain ⟨fileTrace', consoleTrace', part⟩ := machine'.told_eq event'
  change () = id () ∧ (machine.told event).Mirrors move heading (machine'.told event')
  rw [whole, part]
  exact ⟨rfl, { mirrors with }⟩

/-- The clock is read on both sides, with the same reading. -/
theorem mirrors_readClock
    : Mirrors move heading (Value.moved move) Run.readClock Run.readClock := by
  intro machine machine' mirrors
  refine ⟨?_, { mirrors with readingsTaken := congrArg (· + 1) mirrors.readingsTaken }⟩
  rw [mirrors.readings, mirrors.readingsTaken]
  rfl

-----
-- Scopes

/-- The current scope has the same number on both sides. -/
theorem mirrors_currentScope
    : Mirrors move heading id Run.currentScope Run.currentScope :=
  fun _ _ mirrors => ⟨mirrors.current, mirrors⟩

/-- A new scope has the same number on both sides. -/
theorem mirrors_newScope (parent : Nat)
    : Mirrors move heading id (Run.newScope parent) (Run.newScope parent) := by
  intro machine machine' mirrors
  refine ⟨?_, { mirrors with scopes := ?_ }⟩
  · rw [mirrors.scopes]
    exact Forest.size_map _ _
  · rw [mirrors.scopes]
    exact (Forest.map_push _ _ _).symm

/-- A definition is mirrored by one of the moved value. -/
theorem mirrors_defineIn (scope : Nat) (name : String) (value : Value)
    : Mirrors move heading id (Run.defineIn scope name value)
        (Run.defineIn scope name (value.moved move)) := by
  intro machine machine' mirrors
  refine ⟨rfl, { mirrors with scopes := ?_ }⟩
  change machine'.scopes.put scope name (value.moved move)
    = (machine.scopes.put scope name value).map _
  rw [mirrors.scopes, Forest.map_put]

/-- A definition in the current scope is mirrored at the moved name. -/
theorem mirrors_define (name : Token) (value : Value)
    : Mirrors move heading id (Run.define name value)
        (Run.define (name.moved move) (value.moved move)) :=
  mirrors_currentScope.bind fun scope => mirrors_defineIn scope name.lexeme value

/-- The way back is the same, too. -/
theorem mirrors_within {image : α → β} {whole : Run α} {part : Run β} (scope : Nat)
    (inside : Mirrors move heading image whole part)
    : Mirrors move heading image (Run.within scope whole) (Run.within scope part) := by
  intro machine machine' mirrors
  have ended := inside { machine with current := scope } { machine' with current := scope }
    { mirrors with current := rfl }
  unfold Run.within
  revert ended
  cases whole { machine with current := scope }
    <;> cases part { machine' with current := scope } <;> intro ended
  · exact ⟨ended.1, { ended.2 with current := mirrors.current }⟩
  · exact ended.elim
  · exact ended.elim
  · exact ⟨ended.1, { ended.2 with current := mirrors.current }⟩

/-- An assignment is mirrored, found or not. -/
theorem mirrors_assignFrom (scope : Nat) (name : Token) (value : Value)
    : Mirrors move heading id (Run.assignFrom scope name value)
        (Run.assignFrom scope (name.moved move) (value.moved move)) := by
  intro machine machine' mirrors
  have holder
      : machine'.scopes.holder? scope (name.moved move).lexeme
          = machine.scopes.holder? scope name.lexeme := by
    rw [mirrors.scopes, Forest.holder?_map]
    rfl
  cases found : machine.scopes.holder? scope name.lexeme with
  | none =>
      rw [Run.assignFrom_missing found, Run.assignFrom_missing (holder.trans found)]
      exact mirrors_failAt name _ machine machine' mirrors
  | some held =>
      rw [Run.assignFrom_held found, Run.assignFrom_held (holder.trans found)]
      exact mirrors_defineIn held name.lexeme value machine machine' mirrors

/-- Reading a variable is mirrored, found or not. -/
theorem mirrors_readVariable (target : Reference (Option Nat))
    : Mirrors move heading (Value.moved move) (Run.readVariable target)
        (Run.readVariable (target.moved move)) := by
  obtain ⟨name, binding⟩ := target
  intro machine machine' mirrors
  cases binding with
  | some distance =>
      have value
          : machine'.scopes.valueAt machine'.current distance name.lexeme
              = (machine.scopes.valueAt machine.current distance name.lexeme).map
                  (·.moved move) := by
        rw [mirrors.scopes, mirrors.current, Forest.valueAt_map]
      change MirrorsEnd move heading _
        (Run.ofAccess name (machine.scopes.valueAt machine.current distance name.lexeme) machine)
        (Run.ofAccess (name.moved move)
          (machine'.scopes.valueAt machine'.current distance name.lexeme) machine')
      rw [value]
      exact mirrors_ofAccess name _ machine machine' mirrors
  | none =>
      have value
          : machine'.scopes.get? globalScope name.lexeme
              = (machine.scopes.get? globalScope name.lexeme).map (·.moved move) := by
        rw [mirrors.scopes, Forest.get?_map]
      cases found : machine.scopes.get? globalScope name.lexeme with
      | none =>
          rw [found] at value
          have missing : machine'.scopes.get? globalScope (name.moved move).lexeme = none := value
          unfold Reference.moved
          rw [Run.readVariable_missing found, Run.readVariable_missing missing]
          exact mirrors_failAt name _ machine machine' mirrors
      | some old =>
          rw [found] at value
          have held
              : machine'.scopes.get? globalScope (name.moved move).lexeme
                  = some (old.moved move) :=
            value
          unfold Reference.moved
          rw [Run.readVariable_held found, Run.readVariable_held held]
          exact ⟨rfl, mirrors⟩

/-- The scope at a distance is the same on both machines. -/
theorem Machine.Mirrors.ancestor {machine machine' : Machine}
    (mirrors : machine.Mirrors move heading machine') (distance : Nat)
    : machine'.scopes.ancestor machine'.current distance
        = (machine.scopes.ancestor machine.current distance).map id := by
  rw [mirrors.scopes, mirrors.current, Forest.ancestor_map]
  cases machine.scopes.ancestor machine.current distance <;> rfl

/-- Writing a variable is mirrored, found or not. -/
theorem mirrors_writeVariable (target : Reference (Option Nat)) (value : Value)
    : Mirrors move heading id (Run.writeVariable target value)
        (Run.writeVariable (target.moved move) (value.moved move)) := by
  obtain ⟨name, binding⟩ := target
  cases binding with
  | none => exact mirrors_assignFrom globalScope name value
  | some distance =>
      intro machine machine' mirrors
      change MirrorsEnd move heading id
        ((do
          let scope ← Run.ofAccess name (machine.scopes.ancestor machine.current distance)
          Run.defineIn scope name.lexeme value) machine)
        ((do
          let scope ← Run.ofAccess (name.moved move)
            (machine'.scopes.ancestor machine'.current distance)
          Run.defineIn scope name.lexeme (value.moved move)) machine')
      have accessed
          : Mirrors move heading id
              (Run.ofAccess name (machine.scopes.ancestor machine.current distance))
              (Run.ofAccess (name.moved move)
                ((machine.scopes.ancestor machine.current distance).map id)) :=
        mirrors_ofAccess name _
      have defined (scope : Nat)
          : Mirrors move heading id (Run.defineIn scope name.lexeme value)
              (Run.defineIn scope name.lexeme (value.moved move)) :=
        mirrors_defineIn scope name.lexeme value
      rw [mirrors.ancestor]
      exact accessed.bind defined machine machine' mirrors

-----
-- Functions and instances

/-- A fresh number is the same on both sides. -/
theorem mirrors_freshId : Mirrors move heading id Run.freshId Run.freshId :=
  fun _ _ mirrors => ⟨mirrors.nextId, { mirrors with nextId := congrArg (· + 1) mirrors.nextId }⟩

/-- A new closure is mirrored by that of the moved function. -/
theorem mirrors_newClosure (function : BoundLambda) (scope : Nat) (name : Option String)
    (isInitializer : Bool)
    : Mirrors move heading (Closure.moved move) (Run.newClosure function scope name isInitializer)
        (Run.newClosure (function.moved move) scope name isInitializer) :=
  mirrors_freshId.bind fun _ => .pure _ _

/-- A bound method is mirrored by that of the moved method. -/
theorem mirrors_bindMethod (method : Closure) (receiver : Value)
    : Mirrors move heading (Closure.moved move) (Run.bindMethod method receiver)
        (Run.bindMethod (method.moved move) (receiver.moved move)) :=
  (mirrors_newScope method.scope).bind fun scope =>
    (mirrors_defineIn scope "this" receiver).bind fun _ =>
      mirrors_newClosure method.function scope method.name method.isInitializer

/-- The receiver is mirrored by the moved one. -/
theorem mirrors_receiverIn (scope : Nat)
    : Mirrors move heading (Value.moved move) (Run.receiverIn scope) (Run.receiverIn scope) := by
  intro machine machine' mirrors
  have cell
      : machine'.scopes.cell? scope "this"
          = (machine.scopes.cell? scope "this").map (·.moved move) := by
    rw [mirrors.scopes, Forest.cell?_map]
  cases found : machine.scopes.cell? scope "this" with
  | none =>
      rw [found] at cell
      rw [Run.receiverIn_missing found, Run.receiverIn_missing cell]
      exact ⟨rfl, mirrors⟩
  | some receiver =>
      rw [found] at cell
      rw [Run.receiverIn_held found, Run.receiverIn_held cell]
      exact ⟨rfl, mirrors⟩

/-- A new instance is mirrored by one of the moved class. -/
theorem mirrors_newObject (lineage : Lineage)
    : Mirrors move heading (Value.moved move) (Run.newObject lineage)
        (Run.newObject (lineage.moved move)) := by
  intro machine machine' mirrors
  have size : machine'.objects.size = machine.objects.size := by
    rw [mirrors.objects, Array.size_map]
  have objects
      : machine'.objects.push .empty
          = (machine.objects.push .empty).map (·.map (·.moved move)) := by
    rw [mirrors.objects, Array.map_push, Table.map_empty]
  exact ⟨congrArg (Value.object · (lineage.moved move)) size, { mirrors with objects }⟩

/-- The content of a field is mirrored by the moved one. -/
theorem mirrors_field? (address : Nat) (name : String)
    : Mirrors move heading (Option.map (Value.moved move)) (Run.field? address name)
        (Run.field? address name) := by
  intro machine machine' mirrors
  have field
      : (machine'.objects[address]?.bind fun fields => fields.get? name)
          = (machine.objects[address]?.bind fun fields => fields.get? name).map
              (·.moved move) := by
    rw [mirrors.objects, Array.getElem?_map]
    cases machine.objects[address]? with
    | none => rfl
    | some fields => exact Table.get?_map _ fields name
  exact ⟨field, mirrors⟩

/-- Setting a field is mirrored by setting the moved value. -/
theorem mirrors_setField (address : Nat) (name : String) (value : Value)
    : Mirrors move heading id (Run.setField address name value)
        (Run.setField address name (value.moved move)) := by
  intro machine machine' mirrors
  have objects
      : (machine'.objects.modify address fun fields => fields.insert name (value.moved move))
          = (machine.objects.modify address fun fields => fields.insert name value).map
              (·.map (·.moved move)) := by
    rw [mirrors.objects]
    refine Array.ext_getElem? fun index => ?_
    simp only [Array.getElem?_map, Array.getElem?_modify]
    cases machine.objects[index]? with
    | none => by_cases here : address = index <;> simp [here]
    | some fields => by_cases here : address = index <;> simp [here]
  exact ⟨rfl, { mirrors with objects }⟩

/-- A method that is found is bound to its receiver. -/
theorem mirrors_bindFound (lineage : Lineage) (receiver : Value) (name : Token)
    : Mirrors move heading (Value.moved move)
        (match lineage.method? name.lexeme with
          | some method => do return .closure (← Run.bindMethod method receiver)
          | none => Run.failAt name .undefinedProperty : Run Value)
        (match (lineage.moved move).method? name.lexeme with
          | some method => do return .closure (← Run.bindMethod method (receiver.moved move))
          | none => Run.failAt (name.moved move) .undefinedProperty : Run Value) := by
  rw [Lineage.moved_method?]
  cases lineage.method? name.lexeme with
  | none => exact mirrors_failAt name _
  | some method => exact (mirrors_bindMethod method receiver).bind fun _ => .pure (Value.moved move) _

/-- Reading a property is mirrored, whether a field or a method answers. -/
theorem mirrors_readProperty (object : Value) (name : Token)
    : Mirrors move heading (Value.moved move) (Run.readProperty object name)
        (Run.readProperty (object.moved move) (name.moved move)) := by
  cases object with
  | object address lineage =>
      refine (mirrors_field? address name.lexeme).bind fun field => ?_
      cases field with
      | some value => exact .pure (Value.moved move) value
      | none => exact mirrors_bindFound lineage (.object address lineage) name
  | _ => exact mirrors_failAt name _

/-- Reading a method of the superclass is mirrored, found or not. -/
theorem mirrors_readSuper (keyword : Reference (Option Nat)) (method : Token)
    : Mirrors move heading (Value.moved move) (Run.readSuper keyword method)
        (Run.readSuper (keyword.moved move) (method.moved move)) := by
  obtain ⟨name, binding⟩ := keyword
  cases binding with
  | none => exact .throw _ .unboundSuper
  | some distance =>
      refine (mirrors_readVariable { name, binding := some distance }).bind fun superclass => ?_
      intro machine machine' mirrors
      have accessed
          : Mirrors move heading id
              (Run.ofAccess name (machine.scopes.ancestor machine.current (distance - 1)))
              (Run.ofAccess (name.moved move)
                ((machine.scopes.ancestor machine.current (distance - 1)).map id)) :=
        mirrors_ofAccess name _
      rw [← mirrors.ancestor] at accessed
      refine accessed.bind (fun scope => ?_) machine machine' mirrors
      refine (mirrors_receiverIn scope).bind fun receiver => ?_
      cases superclass with
      | «class» lineage => exact mirrors_bindFound lineage receiver method
      | _ => exact .throw _ .superNotClass

end

end Lox
