import Lox.Proofs.Machine

/-! Two machines side by side.

What both machines have in common is the ground that they run on. An action of the one machine and
an action of the other end alike if the machines stay comparable on more and more common ground, and
so does what is made of such actions.
-/

namespace Lox

/-- How machines are compared, and which faults count as the same. Ground that is common stays so. -/
structure Comparison (Ground : Type) where
  Extends : Ground → Ground → Prop
  Machines : Ground → Machine → Machine → Prop
  Faults : Fault → Fault → Prop
  refl (ground : Ground) : Extends ground ground
  trans {before between after : Ground} (front : Extends before between)
    (back : Extends between after)
    : Extends before after

namespace Comparison

variable {Ground α β γ δ : Type}

/-- Both runs end in a result, or both in a fault, and the machines can still be compared. -/
def Ends (comparison : Comparison Ground) (before : Ground) (post : α → β → Ground → Prop)
    : EStateM.Result Fault Machine α → EStateM.Result Fault Machine β → Prop
  | .ok value machine, .ok value' machine' =>
      ∃ after,
        comparison.Extends before after
        ∧ comparison.Machines after machine machine'
        ∧ post value value' after
  | .error fault machine, .error fault' machine' =>
      comparison.Faults fault fault'
      ∧ ∃ after, comparison.Extends before after ∧ comparison.Machines after machine machine'
  | _, _ => False

/-- Run on machines that can be compared, the actions end alike. -/
def Together (comparison : Comparison Ground) (before : Ground) (action : Run α) (action' : Run β)
    (post : α → β → Ground → Prop)
    : Prop :=
  ∀ machine machine',
    comparison.Machines before machine machine'
    → comparison.Ends before post (action machine) (action' machine')

variable {comparison : Comparison Ground} {before between : Ground}

/-- Ground that is common behind an action was common before it, or is new. -/
theorem Ends.extend {post : α → β → Ground → Prop} {result : EStateM.Result Fault Machine α}
    {result' : EStateM.Result Fault Machine β} (ended : comparison.Ends between post result result')
    (more : comparison.Extends before between)
    : comparison.Ends before post result result' := by
  cases result <;> cases result'
  · obtain ⟨after, further, machines, holds⟩ := ended
    exact ⟨after, comparison.trans more further, machines, holds⟩
  · exact ended.elim
  · exact ended.elim
  · obtain ⟨faults, after, further, machines⟩ := ended
    exact ⟨faults, after, comparison.trans more further, machines⟩

namespace Together

variable {action : Run α} {action' : Run β} {post : α → β → Ground → Prop}

/-- Values that are related run together. -/
theorem pure {value : α} {value' : β} (holds : post value value' before)
    : comparison.Together before (Pure.pure value) (Pure.pure value') post :=
  fun _ _ machines => ⟨before, comparison.refl before, machines, holds⟩

/-- Faults that are alike run together. -/
theorem throw {fault fault' : Fault} (alike : comparison.Faults fault fault')
    : comparison.Together before (MonadExcept.throw fault) (MonadExcept.throw fault') post :=
  fun _ _ machines => ⟨alike, before, comparison.refl before, machines⟩

/-- What runs together with a stronger property does so with a weaker one. -/
theorem weaken {post' : α → β → Ground → Prop}
    (together : comparison.Together before action action' post)
    (implies
      : ∀ value value' after,
          comparison.Extends before after
          → post value value' after
          → post' value value' after)
    : comparison.Together before action action' post' := by
  intro machine machine' machines
  have ended := together machine machine' machines
  revert ended
  cases action machine <;> cases action' machine' <;> intro ended
  · obtain ⟨after, more, machines, holds⟩ := ended
    exact ⟨after, more, machines, implies _ _ after more holds⟩
  · exact ended.elim
  · exact ended.elim
  · exact ended

/-- One action behind another. What the first ones left holds when the second ones start. -/
theorem bind {next : α → Run γ} {next' : β → Run δ} {post' : γ → δ → Ground → Prop}
    (front : comparison.Together before action action' post)
    (back
      : ∀ value value' between,
          comparison.Extends before between
          → post value value' between
          → comparison.Together between (next value) (next' value') post')
    : comparison.Together before (action >>= next) (action' >>= next') post' := by
  intro machine machine' machines
  have first := front machine machine' machines
  change comparison.Ends before post' (EStateM.bind action next machine)
    (EStateM.bind action' next' machine')
  unfold EStateM.bind
  revert first
  cases action machine <;> cases action' machine' <;> intro first
  · obtain ⟨between, more, machines, holds⟩ := first
    exact (back _ _ between more holds _ _ machines).extend more
  · exact first.elim
  · exact first.elim
  · exact first

/-- Changing the values on both sides keeps the actions together. -/
theorem map {make : α → γ} {make' : β → δ} {post' : γ → δ → Ground → Prop}
    (front : comparison.Together before action action' post)
    (implies
      : ∀ value value' after,
          comparison.Extends before after
          → post value value' after
          → post' (make value) (make' value') after)
    : comparison.Together before (make <$> action) (make' <$> action') post' :=
  front.bind fun value value' after more holds => .pure (implies value value' after more holds)

/-- The second action may make something else of what it yields. -/
theorem mapRight {make' : β → δ} {post' : α → δ → Ground → Prop}
    (front : comparison.Together before action action' post)
    (implies
      : ∀ value value' after,
          comparison.Extends before after
          → post value value' after
          → post' value (make' value') after)
    : comparison.Together before action (action' >>= fun value' => Pure.pure (make' value'))
        post' := by
  have mapped
      : comparison.Together before (action >>= Pure.pure)
          (action' >>= fun value' => Pure.pure (make' value')) post' :=
    front.bind fun value value' after more holds => .pure (implies value value' after more holds)
  rwa [bind_pure] at mapped

/-- Calls are compared as what they come to, where the same faults are blamed on them. -/
theorem limitNesting {call call' : Run Value} {post : Value → Value → Ground → Prop}
    {paren paren' : Token} (called : comparison.Together before call call' post)
    (limited
      : ∀ fault fault',
          comparison.Faults fault fault'
          → comparison.Faults (fault.limited paren) (fault'.limited paren'))
    : comparison.Together before (Evaluator.limitNesting paren call)
        (Evaluator.limitNesting paren' call') post := by
  intro machine machine' machines
  have ended := called machine machine' machines
  revert ended
  cases run : call machine <;> cases run' : call' machine' <;> intro ended
  · rw [Evaluator.limitNesting_ok run, Evaluator.limitNesting_ok run']
    exact ended
  · exact ended.elim
  · exact ended.elim
  · rw [Evaluator.limitNesting_error run, Evaluator.limitNesting_error run']
    exact ⟨limited _ _ ended.1, ended.2⟩

end Together

end Comparison

end Lox
