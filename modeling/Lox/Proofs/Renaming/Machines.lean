import Lox.Proofs.Comparison
import Lox.Proofs.Renaming.Values

/-! Two machines side by side, of which one runs the old tree and the other the new one.

Scope by scope, a name holds on one machine what the name that stands for it holds on the other.
Actions end alike on both, and so does what is made of such actions.
-/

namespace Lox

-----
-- Common ground

/-- What both machines have in common while they run. -/
structure Ground where
  standing : Standing
  current : Nat
  /-- Names that certainly have a value in a scope. -/
  defined : Nat → String → Prop

/-- What is known stays known, and the machines come back to the scope they were in. -/
structure Ground.Extends (before after : Ground) : Prop where
  standing : before.standing.Extends after.standing
  current : after.current = before.current
  defined : ∀ scope name, before.defined scope name → after.defined scope name

/-- The machines are in a scope from which the affected scopes are these. -/
def Ground.At (ground : Ground) (marks : List Bool) : Prop :=
  ground.standing ground.current = some marks

namespace Ground

variable {before between after : Ground}

/-- Every ground extends itself. -/
theorem Extends.refl (ground : Ground) : ground.Extends ground :=
  ⟨fun _ _ => id, rfl, fun _ _ => id⟩

/-- A ground that extends an extended one extends the first. -/
theorem Extends.trans (first : before.Extends between) (second : between.Extends after)
    : before.Extends after where
  standing scope marks known := second.standing scope marks (first.standing scope marks known)
  current := second.current.trans first.current
  defined scope name defined := second.defined scope name (first.defined scope name defined)

/-- Where the machine stands it still stands when more scopes are marked. -/
theorem At.extend {marks : List Bool} (stands : before.At marks) (more : before.Extends after)
    : after.At marks := by
  unfold At
  rw [more.current]
  exact more.standing _ _ stands

end Ground

-----
-- Machines

/-- The machines are the same but for names. -/
structure Machine.Turns (rename : Renaming) (ground : Ground) (machine machine' : Machine)
    : Prop where
  size : machine'.scopes.size = machine.scopes.size
  parent : ∀ scope, machine'.scopes.parent? scope = machine.scopes.parent? scope
  known : ∀ scope marks, ground.standing scope = some marks → scope < machine.scopes.size
  /-- The scope around another one is affected as that one says. -/
  outer
    : ∀ scope parent marks,
        machine.scopes.parent? scope = some parent
        → ground.standing scope = some marks
        → ground.standing parent = some marks.tail
  outermost : ground.standing globalScope = some []
  cell
    : ∀ scope marks name name',
        ground.standing scope = some marks
        → rename.Turns (marks.headD false) name name'
        → Option.Rel (Value.Turns rename ground.standing) (machine.scopes.cell? scope name)
            (machine'.scopes.cell? scope name')
  defined
    : ∀ scope name,
        ground.defined scope name → (machine.scopes.cell? scope name).isSome = true
  objects : machine'.objects.size = machine.objects.size
  field
    : ∀ address name,
        Option.Rel (Value.Turns rename ground.standing)
          (machine.fieldAt address name) (machine'.fieldAt address name)
  current : machine.current = ground.current
  current' : machine'.current = ground.current
  nextId : machine'.nextId = machine.nextId
  output : machine'.output = machine.output
  readings : machine'.readings = machine.readings
  readingsTaken : machine'.readingsTaken = machine.readingsTaken

/-- The faults are the same, or they blame the new name in place of the old one. -/
inductive Fault.Turns (rename : Renaming) : Fault → Fault → Prop
  | same (fault : Fault) : Turns rename fault fault
  | renamed {token : Token} {problem : RuntimeProblem} (old : token.lexeme = rename.old)
    (ofName : problem = .undefinedVariable ∨ problem = .superclassNotClass)
    : Turns rename (.runtime { token, problem })
        (.runtime { token := { token with lexeme := rename.new }, problem })

/-- A fault at a name turns where the name does. -/
theorem Fault.Turns.of_token {rename : Renaming} {mark : Bool} {name name' : Token}
    {problem : RuntimeProblem} (turns : rename.TurnsToken mark name name')
    (ofName : problem = .undefinedVariable ∨ problem = .superclassNotClass)
    : Fault.Turns rename (.runtime { token := name, problem })
        (.runtime { token := name', problem }) := by
  obtain ⟨kind, lexeme, literal, line⟩ := name
  obtain ⟨turns⟩ := turns
  cases turns with
  | kept _ => exact .same _
  | replaced => exact .renamed rfl ofName

/-- Faults that turn do so behind the limit on open calls. -/
theorem Fault.Turns.limited {rename : Renaming} {fault fault' : Fault}
    (turns : fault.Turns rename fault') (paren : Token)
    : (fault.limited paren).Turns rename (fault'.limited paren) := by
  cases turns with
  | same fault => exact .same _
  | renamed old ofName => exact .renamed old ofName

namespace Machine.Turns

variable {rename : Renaming} {ground : Ground} {machine machine' : Machine}

/-- Affected scopes further out are among those that are seen from further in. -/
theorem ancestor (turns : machine.Turns rename ground machine') {scope distance outer : Nat}
    {marks : List Bool} (known : ground.standing scope = some marks)
    (there : machine.scopes.ancestor? scope distance = some outer)
    : ground.standing outer = some (marks.drop distance) := by
  induction distance generalizing scope marks with
  | zero =>
      obtain rfl := Option.some.inj there
      exact known
  | succ distance ih =>
      obtain ⟨parent, inside, beyond⟩ := Option.bind_eq_some_iff.1 there
      have further := ih (turns.outer scope parent marks inside known) beyond
      rwa [List.drop_tail] at further

/-- A walk up the scopes ends at the same place on both sides. -/
theorem ancestor_eq (turns : machine.Turns rename ground machine') (scope distance : Nat)
    : machine'.scopes.ancestor? scope distance = machine.scopes.ancestor? scope distance := by
  induction distance generalizing scope with
  | zero => rfl
  | succ distance ih =>
      change (machine'.scopes.parent? scope).bind _ = (machine.scopes.parent? scope).bind _
      rw [turns.parent]
      exact congrArg _ (funext ih)

/-- Where no scope is affected, the same scope holds a name. -/
theorem holder (turns : machine.Turns rename ground machine') (name : String) {scope : Nat}
    {marks : List Bool} (known : ground.standing scope = some marks) (unmarked : Unmarked marks)
    : machine'.scopes.holder? scope name = machine.scopes.holder? scope name
      ∧ ∀ holder,
          machine.scopes.holder? scope name = some holder
          → ∃ marks, ground.standing holder = some marks ∧ Unmarked marks := by
  unfold Forest.holder?
  generalize scope + 1 = steps
  induction steps generalizing scope marks with
  | zero =>
      refine ⟨rfl, fun holder found => ?_⟩
      cases found
  | succ steps ih =>
      have same
          : (machine'.scopes.cell? scope name).isSome
              = (machine.scopes.cell? scope name).isSome :=
        optionRel_isSome (turns.cell scope marks name name known
          (unmarked.headD.symm ▸ .unmarked name))
      unfold Forest.holderWithin?
      rw [same, turns.parent]
      split
      · refine ⟨rfl, fun holder found => ?_⟩
        obtain rfl := Option.some.inj found
        exact ⟨marks, known, unmarked⟩
      · cases inside : machine.scopes.parent? scope with
        | none =>
            refine ⟨rfl, fun holder found => ?_⟩
            cases found
        | some parent => exact ih (turns.outer scope parent marks inside known) unmarked.tail

end Machine.Turns

-----
-- Actions side by side

section

variable {α β γ δ : Type}

/-- Both runs end in a result, or both in a fault, and the machines are still the same but for
names. -/
def TogetherEnd (rename : Renaming) (before : Ground) (post : α → β → Ground → Prop)
    : EStateM.Result Fault Machine α → EStateM.Result Fault Machine β → Prop
  | .ok value machine, .ok value' machine' =>
      ∃ after, before.Extends after ∧ machine.Turns rename after machine' ∧ post value value' after
  | .error fault machine, .error fault' machine' =>
      fault.Turns rename fault'
      ∧ ∃ after, before.Extends after ∧ machine.Turns rename after machine'
  | _, _ => False

/-- The results are related as the scopes are affected in the end. -/
abbrev Related (related : Standing → α → β → Prop) : α → β → Ground → Prop :=
  fun value value' after => related after.standing value value'

/-- Run on machines that are the same but for names, the actions end alike. -/
def Together (rename : Renaming) (before : Ground) (action : Run α) (action' : Run β)
    (post : α → β → Ground → Prop)
    : Prop :=
  ∀ machine machine', machine.Turns rename before machine'
    → TogetherEnd rename before post (action machine) (action' machine')

/-- Machines that are the same but for names. -/
def Renaming.comparison (rename : Renaming) : Comparison Ground where
  Extends := Ground.Extends
  Machines := Machine.Turns rename
  Faults := Fault.Turns rename
  refl := .refl
  trans := .trans

variable {rename : Renaming} {before : Ground} {action : Run α} {action' : Run β}
  {post : α → β → Ground → Prop}

/-- Ends run together as the comparison of renamed machines asks for. -/
theorem togetherEnd_iff {result : EStateM.Result Fault Machine α}
    {result' : EStateM.Result Fault Machine β}
    : TogetherEnd rename before post result result'
      ↔ rename.comparison.Ends before post result result' := by
  cases result <;> cases result' <;> exact .rfl

/-- Actions run together as the comparison of renamed machines asks for. -/
theorem together_iff
    : Together rename before action action' post
      ↔ rename.comparison.Together before action action' post :=
  forall₂_congr fun _ _ => imp_congr_right fun _ => togetherEnd_iff

namespace Together

/-- Values that turn into each other run together. -/
theorem pure {value : α} {value' : β} (holds : post value value' before)
    : Together rename before (Pure.pure value) (Pure.pure value') post :=
  together_iff.2 (.pure holds)

/-- Faults that turn into each other run together. -/
theorem throw {fault fault' : Fault} (turns : fault.Turns rename fault')
    : Together rename before (MonadExcept.throw fault) (MonadExcept.throw fault') post :=
  together_iff.2 (.throw turns)

/-- Actions that run together with a stronger property do so with a weaker one. -/
theorem weaken {post' : α → β → Ground → Prop}
    (together : Together rename before action action' post)
    (implies
      : ∀ value value' after,
          before.Extends after → post value value' after → post' value value' after)
    : Together rename before action action' post' :=
  together_iff.2 ((together_iff.1 together).weaken implies)

/-- One action behind another. What the first ones left holds when the second ones start. -/
theorem bind {next : α → Run γ} {next' : β → Run δ} {post' : γ → δ → Ground → Prop}
    (front : Together rename before action action' post)
    (back
      : ∀ value value' between,
          before.Extends between
          → post value value' between
          → Together rename between (next value) (next' value') post')
    : Together rename before (action >>= next) (action' >>= next') post' :=
  together_iff.2 <| (together_iff.1 front).bind fun value value' between more holds =>
    together_iff.1 (back value value' between more holds)

/-- Changing the values on both sides keeps the actions together. -/
theorem map {make : α → γ} {make' : β → δ} {post' : γ → δ → Ground → Prop}
    (front : Together rename before action action' post)
    (implies
      : ∀ value value' after,
          before.Extends after → post value value' after → post' (make value) (make' value') after)
    : Together rename before (make <$> action) (make' <$> action') post' :=
  together_iff.2 ((together_iff.1 front).map implies)

end Together

end

end Lox
