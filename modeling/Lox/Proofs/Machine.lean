import Lox.Machine.Evaluate
import Lox.Proofs.Scope.Forest
import Lox.Proofs.Table

/-! One action of the machine behind another, what single actions come to, and what events change. -/

namespace Lox

section

variable {ε σ α β : Type} {action : EStateM ε σ α} {next : α → EStateM ε σ β} {before between : σ}

/-- An action behind one that succeeds. -/
theorem bind_ok {value : α} (run : action before = .ok value between)
    : (action >>= next) before = next value between := by
  change EStateM.bind action next before = _
  unfold EStateM.bind
  rw [run]

/-- Nothing happens behind an action that fails. -/
theorem bind_error {error : ε} (run : action before = .error error between)
    : (action >>= next) before = .error error between := by
  change EStateM.bind action next before = _
  unfold EStateM.bind
  rw [run]

/-- An action that succeeds has succeeded in both its steps. -/
theorem bind_succeeds {result : β} {after : σ} (run : (action >>= next) before = .ok result after)
    : ∃ value between, action before = .ok value between ∧ next value between = .ok result after := by
  cases first : action before with
  | ok value between => exact ⟨value, between, rfl, (bind_ok first).symm.trans run⟩
  | error error between => cases (bind_error first).symm.trans run

end

/-- What yields a value inside of a scope does so around it, and the scope is restored. -/
theorem Run.within_ok {α : Type} {action : Run α} {scope : Nat} {machine after : Machine}
    {value : α} (run : action { machine with current := scope } = .ok value after)
    : Run.within scope action machine
        = .ok value { after with current := machine.current } := by
  unfold Run.within
  simp only [run]

/-- What fails inside of a scope fails around it, and the scope is restored. -/
theorem Run.within_error {α : Type} {action : Run α} {scope : Nat} {machine after : Machine}
    {fault : Fault} (run : action { machine with current := scope } = .error fault after)
    : Run.within scope action machine
        = .error fault { after with current := machine.current } := by
  unfold Run.within
  simp only [run]

-----
-- Looking up

namespace Run

variable {machine : Machine} {scope : Nat} {name : Token}

/-- An assignment goes to the scope that holds the name. -/
theorem assignFrom_held {holder : Nat} {value : Value}
    (held : machine.scopes.holder? scope name.lexeme = some holder)
    : assignFrom scope name value machine = defineIn holder name.lexeme value machine := by
  refine (bind_ok rfl).trans ?_
  simp only [held]

/-- An assignment to a name that no scope holds fails at the name. -/
theorem assignFrom_missing {value : Value}
    (missing : machine.scopes.holder? scope name.lexeme = none)
    : assignFrom scope name value machine = failAt name .undefinedVariable machine := by
  refine (bind_ok rfl).trans ?_
  simp only [missing]

/-- A variable of no local scope is read among the globals. -/
theorem readVariable_held {value : Value}
    (held : machine.scopes.get? globalScope name.lexeme = some value)
    : readVariable { name, binding := none } machine = .ok value machine := by
  refine (bind_ok rfl).trans ?_
  simp only [held]
  rfl

/-- A variable that is missing among the globals fails at its name. -/
theorem readVariable_missing
    (missing : machine.scopes.get? globalScope name.lexeme = none)
    : readVariable { name, binding := none } machine
        = failAt name .undefinedVariable machine := by
  refine (bind_ok rfl).trans ?_
  simp only [missing]

/-- The receiver is what the scope holds under `this`. -/
theorem receiverIn_held {receiver : Value}
    (held : machine.scopes.cell? scope "this" = some receiver)
    : receiverIn scope machine = .ok receiver machine := by
  refine (bind_ok rfl).trans ?_
  simp only [held]
  rfl

/-- A scope without a receiver is a fault. -/
theorem receiverIn_missing
    (missing : machine.scopes.cell? scope "this" = none)
    : receiverIn scope machine = .error .receiverMissing machine := by
  refine (bind_ok rfl).trans ?_
  simp only [missing]
  rfl

end Run

-----
-- Nesting

/-- Nesting too deep inside of a call is blamed on the call. -/
def Fault.limited (paren : Token) : Fault → Fault
  | .tooDeep => .runtime { token := paren, problem := .stackOverflow }
  | fault => fault

namespace Evaluator

variable {paren : Token} {call : Run Value} {machine after : Machine} {value : Value}

/-- A call that succeeds is not limited. -/
theorem limitNesting_ok (run : call machine = .ok value after)
    : limitNesting paren call machine = .ok value after := by
  unfold limitNesting
  rw [run]

/-- A call that fails is limited in its fault alone. -/
theorem limitNesting_error {fault : Fault} (run : call machine = .error fault after)
    : limitNesting paren call machine = .error (fault.limited paren) after := by
  unfold limitNesting
  rw [run]
  cases fault <;> rfl

/-- A call that succeeds behind the limit succeeds without it. -/
theorem limitNesting_succeeds (run : limitNesting paren call machine = .ok value after)
    : call machine = .ok value after := by
  cases called : call machine with
  | ok _ _ => exact (limitNesting_ok called).symm.trans run
  | error _ _ => cases (limitNesting_error called).symm.trans run

end Evaluator

-----
-- The start

namespace Machine

variable {traceLevel : Nat} {readings : Nat → Float}

/-- There is a single scope at the start. -/
theorem start_parent? (scope : Nat)
    : (start traceLevel readings).scopes.parent? scope = none := by
  unfold start
  rw [Forest.parent?_put, Forest.parent?_push]
  split <;> rfl

/-- Nothing but the clock has a value at the start. -/
theorem start_cell? {scope : Nat} {name : String} {value : Value}
    (found : (start traceLevel readings).scopes.cell? scope name = some value)
    : name = Native.clock.name ∧ value = .native .clock := by
  unfold start at found
  rw [Forest.cell?_put] at found
  split at found
  · next here => exact ⟨here.2.2, (Option.some.inj found).symm⟩
  · rw [Forest.cell?_push] at found
    cases found

end Machine

-----
-- Fields

/-- The value of a field, if the instance at the address has it. -/
def Machine.fieldAt (machine : Machine) (address : Nat) (name : String) : Option Value :=
  machine.objects[address]?.bind fun fields => fields.get? name

/-- A new instance has no fields and leaves those of the others. -/
theorem Machine.fieldAt_push (machine : Machine) (address : Nat) (name : String)
    : fieldAt { machine with objects := machine.objects.push .empty } address name
        = machine.fieldAt address name := by
  simp only [fieldAt, Array.getElem?_push]
  split
  · next last =>
      rw [last, Array.getElem?_eq_none (Nat.le_refl _)]
      rfl
  · rfl

/-- A field that was set holds its value, and the others hold theirs. -/
theorem Machine.fieldAt_insert (machine : Machine) (address : Nat) (name : String) (value : Value)
    (other : Nat) (name' : String)
    : fieldAt
          { machine with
            objects := machine.objects.modify address fun fields => fields.insert name value }
          other name'
        = if other = address ∧ address < machine.objects.size ∧ name' = name then some value
          else machine.fieldAt other name' := by
  simp only [fieldAt, Array.getElem?_modify]
  by_cases here : address = other
  · subst here
    rw [if_pos rfl]
    cases found : machine.objects[address]? with
    | none =>
        have outside : ¬address < machine.objects.size :=
          Nat.not_lt_of_le (Array.getElem?_eq_none_iff.1 found)
        simp [outside]
    | some fields =>
        have inside := (Array.getElem?_eq_some_iff.1 found).1
        change (fields.insert name value).get? name' = _
        rw [Table.get?_insert]
        by_cases same : name' = name <;> simp [same, inside]
  · rw [if_neg here, if_neg (fun both => here both.1.symm)]

-----
-- Events

/-- Being told of an event changes nothing that a program can see. -/
theorem Machine.told_eq (machine : Machine) (event : TraceEvent)
    : ∃ fileTrace consoleTrace,
        machine.told event
          = { machine with fileTrace := fileTrace, consoleTrace := consoleTrace } := by
  unfold Machine.told
  split
  · split <;> exact ⟨_, _, rfl⟩
  · exact ⟨_, _, rfl⟩

end Lox
