import Lox.Proofs.Machine
import Lox.Proofs.Scoping.Instances

/-! Watched actions beside the actions they watch.

An action of the machine and its watched counterpart end alike, in machines that are alike. What
holds between any two steps holds behind them, and no fault of the machine itself can occur.
-/

namespace Lox.Scoping

open Binding

/-- The program itself, or the limits of the machine, made the run stop. -/
def Ordinary : Fault → Prop
  | .runtime _ | .tooDeep | .tooManyRounds => True
  | .noEnclosingScope _ | .unboundSuper | .superNotClass | .receiverMissing => False

/-- An ordinary fault stays one behind the limit on open calls. -/
theorem Ordinary.limited {fault : Fault} (ordinary : Ordinary fault) (paren : Token)
    : Ordinary (fault.limited paren) := by
  cases fault with
  | tooDeep => trivial
  | _ => exact ordinary

/-- Actions that run alike are watched alike. -/
theorem Watch.lift_congr {α : Type} {action action' : Run α} {before : Watched}
    (run : action' before.machine = action before.machine)
    : Watch.lift action' before = Watch.lift action before := by
  unfold Watch.lift
  rw [run]

/-- An action that changes nothing is watched without a change. -/
theorem Watch.lift_ok {α : Type} {action : Run α} {value : α} {before : Watched}
    (run : action before.machine = .ok value before.machine)
    : Watch.lift action before = .ok value before := by
  unfold Watch.lift
  rw [run]

/-- The watched action tracks the action from the state on. -/
def Tracks {α : Type} (fresh : String → Prop) (action : Run α) (watch : Watch α)
    (before : Watched) (post : α → Watched → Prop)
    : Prop :=
  match watch before with
  | .ok value after =>
      action before.machine = .ok value after.machine
      ∧ before.Grows fresh after
      ∧ after.Sound
      ∧ post value after
  | .error fault after =>
      action before.machine = .error fault after.machine
      ∧ before.Grows fresh after
      ∧ after.Sound
      ∧ Ordinary fault

namespace Tracks

variable {α β : Type} {fresh : String → Prop} {before after : Watched}

/-- However the action ends, the machine has grown. -/
theorem ends {action : Run α} {watch : Watch α} {post : α → Watched → Prop}
    (tracks : Tracks fresh action watch before post)
    : ∃ after,
        before.Grows fresh after
        ∧ ((∃ value, action before.machine = .ok value after.machine)
          ∨ ∃ fault, action before.machine = .error fault after.machine) := by
  unfold Tracks at tracks
  split at tracks
  · exact ⟨_, tracks.2.1, .inl ⟨_, tracks.1⟩⟩
  · exact ⟨_, tracks.2.1, .inr ⟨_, tracks.1⟩⟩

/-- An action is tracked where both sides yield the value. -/
theorem of_ok {action : Run α} {watch : Watch α} {value : α} {post : α → Watched → Prop}
    (watched : watch before = .ok value after)
    (run : action before.machine = .ok value after.machine) (grows : before.Grows fresh after)
    (sound : after.Sound) (holds : post value after)
    : Tracks fresh action watch before post := by
  unfold Tracks
  rw [watched]
  exact ⟨run, grows, sound, holds⟩

/-- A value alone tracks itself. -/
theorem pure {value : α} {post : α → Watched → Prop} (sound : before.Sound)
    (holds : post value before)
    : Tracks fresh (Pure.pure value) (Pure.pure value) before post :=
  ⟨rfl, .refl before, sound, holds⟩

/-- An ordinary fault tracks itself. -/
theorem fail {fault : Fault} {post : α → Watched → Prop} (sound : before.Sound)
    (ordinary : Ordinary fault)
    : Tracks fresh (throw fault) (Watch.lift (throw fault)) before post :=
  ⟨rfl, .refl before, sound, ordinary⟩

/-- A failure at a token tracks itself. -/
theorem failAt {post : α → Watched → Prop} (sound : before.Sound) (token : Token)
    (problem : RuntimeProblem)
    : Tracks fresh (Run.failAt token problem) (Watch.lift (Run.failAt token problem)) before
        post :=
  .fail sound trivial

/-- What is tracked with a stronger property is tracked with a weaker one. -/
theorem weaken {action : Run α} {watch : Watch α} {post post' : α → Watched → Prop}
    (tracks : Tracks fresh action watch before post)
    (implies
      : ∀ value after, before.Grows fresh after → post value after → post' value after)
    : Tracks fresh action watch before post' := by
  unfold Tracks at tracks ⊢
  split at tracks
  · obtain ⟨run, grows, sound, holds⟩ := tracks
    exact ⟨run, grows, sound, implies _ _ grows holds⟩
  · exact tracks

/-- Actions may be replaced that do the same in this very state. -/
theorem congr {action action' : Run α} {watch watch' : Watch α} {post : α → Watched → Prop}
    (tracks : Tracks fresh action watch before post)
    (run : action' before.machine = action before.machine)
    (watched : watch' before = watch before)
    : Tracks fresh action' watch' before post := by
  unfold Tracks at tracks ⊢
  rw [watched, run]
  exact tracks

/-- One action behind another. What the first one left holds when the second one starts. -/
theorem bind {action : Run α} {watch : Watch α} {next : α → Run β} {watchNext : α → Watch β}
    {post : α → Watched → Prop} {post' : β → Watched → Prop}
    (first : Tracks fresh action watch before post)
    (second
      : ∀ value between,
          before.Grows fresh between
          → between.Sound
          → post value between
          → Tracks fresh (next value) (watchNext value) between post')
    : Tracks fresh (action >>= next) (watch >>= watchNext) before post' := by
  unfold Tracks at first ⊢
  change match EStateM.bind watch watchNext before with
    | .ok value after => EStateM.bind action next before.machine = _ ∧ _
    | .error fault after => EStateM.bind action next before.machine = _ ∧ _
  unfold EStateM.bind
  cases watched : watch before with
  | error fault between =>
      rw [watched] at first
      obtain ⟨run, grows, sound, ordinary⟩ := first
      simp only [run]
      exact ⟨trivial, grows, sound, ordinary⟩
  | ok value between =>
      rw [watched] at first
      obtain ⟨run, grows, sound, holds⟩ := first
      have rest := second value between grows sound holds
      unfold Tracks at rest
      simp only [run]
      cases watchedNext : watchNext value between with
      | ok result after =>
          rw [watchedNext] at rest
          obtain ⟨run, grows', sound, holds⟩ := rest
          exact ⟨run, grows.trans grows', sound, holds⟩
      | error fault after =>
          rw [watchedNext] at rest
          obtain ⟨run, grows', sound, ordinary⟩ := rest
          exact ⟨run, grows.trans grows', sound, ordinary⟩

/-- Changing the value on both sides is tracked. -/
theorem map {action : Run α} {watch : Watch α} {post : α → Watched → Prop}
    (tracks : Tracks fresh action watch before post) (change : α → β)
    : Tracks fresh (change <$> action) (change <$> watch) before
        (fun result after => ∃ value, result = change value ∧ post value after) := by
  unfold Tracks at tracks ⊢
  change match EStateM.map change watch before with
    | .ok value after => EStateM.map change action before.machine = _ ∧ _
    | .error fault after => EStateM.map change action before.machine = _ ∧ _
  unfold EStateM.map
  cases watched : watch before with
  | error fault after =>
      rw [watched] at tracks
      obtain ⟨run, rest⟩ := tracks
      simp only [run]
      exact ⟨trivial, rest⟩
  | ok value after =>
      rw [watched] at tracks
      obtain ⟨run, grows, sound, holds⟩ := tracks
      simp only [run]
      exact ⟨trivial, grows, sound, value, rfl, holds⟩

end Tracks

end Lox.Scoping
