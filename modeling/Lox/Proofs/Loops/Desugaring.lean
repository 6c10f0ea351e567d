import Lox.Proofs.Binding.Visits
import Lox.Proofs.Loops.Binding
import Lox.Proofs.Loops.Execution
import Lox.Proofs.Loops.Reference

/-! The tree of a `for` does what the loop means.

With an increment, body and increment stand in a block of their own. Its scope holds no names: the
body declares nothing, and the increment is an expression. So it is the hollow scope that the loop
does without.
-/

namespace Lox

namespace ForLoop

/-- The tree runs the parts of the loop. With an increment, there is a scope around it and the body
that the loop does not open. -/
inductive Desugars : BoundStmt → ForLoop (Option Nat) → Prop
  | plain (initial : Option BoundStmt) (condition : Option BoundExpr) (body : BoundStmt)
    : Desugars
        (.block (initial.toList ++ [.loop (condition.getD (.literal (.boolean true))) body]))
        { initial, condition, increment := none, body }
  | stepped (initial : Option BoundStmt) (condition : Option BoundExpr)
    {increment increment' : BoundExpr} {body body' : BoundStmt}
    (omitsBody : body.Omits (some 0) body') (omitsStep : increment.Omits (some 0) increment')
    : Desugars
        (.block (initial.toList ++
          [.loop (condition.getD (.literal (.boolean true)))
            (.block [body, .expression increment])]))
        { initial, condition, increment := some increment', body := body' }

end ForLoop

-----
-- Binding

namespace Binding

/-- No statement introduces `super`. -/
theorem introduces_ne_super {stmt : Stmt Unit} (proper : stmt.Proper) {name : Token}
    (introduces : stmt.introduces? = some name)
    : name.lexeme ≠ "super" :=
  (proper.isName introduces).2.2

/-- The innermost scope does not hold `super`. -/
def Scopes.Plain (scopes : Scopes) : Prop :=
  ∀ view ∈ scopes.views.head?, view.get? "super" = none

/-- Scopes that are kept stay plain. -/
theorem Scopes.Kept.plain {before after : Scopes} (kept : before.Kept after)
    (plain : before.Plain)
    : after.Plain := by
  have views : after.views = before.views := kept.views
  unfold Scopes.Plain
  rw [views]
  exact plain

/-- A scope opened for a loop variable is plain. -/
theorem Scopes.plain_introduced (scopes : Scopes) (name : Option Token)
    (other : ∀ token, name = some token → token.lexeme ≠ "super")
    : (scopes.opened.introduced name).Plain := by
  cases name with
  | none =>
      intro view here
      obtain rfl := Option.some.inj here
      rfl
  | some name =>
      intro view here
      have apart : "super" ≠ name.lexeme := (other name rfl).symm
      have declared := scopes.opened.views_declared rfl name true
      rw [Scopes.introduced, Scopes.views_defined declared] at here
      obtain rfl := Option.some.inj here
      rw [Table.get?_insert_of_ne _ _ apart, Table.get?_insertIfNew_of_ne _ _ apart]
      rfl

variable {scopes : Scopes}

/-- Inside of one more loop on both sides the gap stays. -/
theorem Scopes.Widens.enteredLoop_left {gap : Gap} {wide narrow : Scopes}
    (widens : wide.Widens gap narrow)
    : wide.enteredLoop.Widens gap narrow :=
  { widens with }

/-- The tree of a proper loop is bound to the same scopes as the loop itself. -/
theorem bindStmt_desugars {loop : ForLoop Unit} (proper : loop.Proper) (based : scopes.Based)
    : ForLoop.Desugars (bindStmt loop.tree scopes).1 (loop.bound scopes).1 := by
  obtain ⟨initial, condition, increment, body⟩ := loop
  obtain ⟨properInitial, properCondition, properIncrement, properBody, nothing⟩ := proper
  -- Behind the first clause and behind the condition, both walks are in the same place.
  let started := (bindElse initial scopes.opened).2
  let tested := (bindOptional condition started).2
  have opened : Scopes.Widens none scopes.opened scopes.opened :=
    .self _ (Nat.le_succ_of_le based)
  have startedPlain : Scopes.Plain started ∧ started.Widens none started := by
    cases initial with
    | none =>
        have nothing (token : Token) (none : (none : Option Token) = some token)
            : token.lexeme ≠ "super" :=
          absurd none.symm (Option.some_ne_none token)
        exact ⟨scopes.plain_introduced none nothing, opened⟩
    | some statement =>
        have proper := properInitial statement rfl
        have kept := bindStmt_introduces statement scopes.opened proper
        have widens :=
          opened.introduced statement.introduces? fun here => absurd here Gap.none_ne_zero
        exact ⟨kept.plain (scopes.plain_introduced _ fun _ => introduces_ne_super proper),
          widens.kept kept kept⟩
  have test : started.Kept tested := bindOptional_kept condition started properCondition
  have testedPlain : tested.Plain := test.plain startedPlain.1
  have here : tested.Widens none tested := startedPlain.2.kept test test
  have tree (repeated : Stmt Unit)
      : (bindStmt
            (.block
              (initial.toList ++ [.loop (condition.getD (.literal (.boolean true))) repeated]))
            scopes).1
          = .block
              ((bindElse initial scopes.opened).1.toList ++
                [.loop ((bindOptional condition started).1.getD (.literal (.boolean true)))
                  (bindStmt repeated tested.enteredLoop).1]) := by
    cases initial <;> cases condition <;> rfl
  cases increment with
  | none =>
      have whole
          : ForLoop.tree { initial, condition, increment := none, body }
              = .block
                  (initial.toList ++ [.loop (condition.getD (.literal (.boolean true))) body]) :=
        rfl
      rw [whole, tree]
      exact .plain _ _ _
  | some increment =>
      let stepped := (bindExpr increment tested).2
      have step : tested.Kept stepped := bindExpr_kept increment tested properIncrement
      have whole
          : ForLoop.tree { initial, condition, increment := some increment, body }
              = .block
                  (initial.toList
                    ++ [.loop (condition.getD (.literal (.boolean true)))
                      (.block [body, .expression increment])]) :=
        rfl
      rw [whole, tree]
      have inside : tested.enteredLoop.opened.Widens (some 0) stepped.enteredLoop :=
        (here.kept (.refl _) step).enteredLoop.openedHollow (step.plain testedPlain)
      have behind := bindStmt_introduces body tested.enteredLoop.opened properBody
      rw [nothing] at behind
      have inside' : Scopes.Widens (some 0) tested.enteredLoop.opened tested :=
        here.enteredLoop_left.openedHollow testedPlain
      exact .stepped _ _ (bindStmt_omits body properBody (fun _ => nothing) inside)
        (bindExpr_omits increment properIncrement (inside'.kept behind (.refl _)))

end Binding

-----
-- Running

namespace Loops

open Evaluator

variable {footing : Footing}

/-- What comes behind a normal end, and is not reached otherwise. -/
theorem together_followedBy {first first' rest rest' : Run Completion}
    (front : omission.Together footing first first' (LaidOut Completion.Like))
    (back
      : ∀ {between : Footing},
          omission.Extends footing between
          → omission.Together between rest rest' (LaidOut Completion.Like))
    : omission.Together footing (ForLoop.followedBy first rest) (ForLoop.followedBy first' rest')
        (LaidOut Completion.Like) := by
  refine front.bind fun completion completion' between more alike => ?_
  cases alike with
  | normal => exact back more
  | broke => exact .pure .broke
  | returned alike => exact .pure (.returned alike)

/-- One statement behind another. -/
theorem executeAll_cons (parts : Evaluator) (first : BoundStmt) (rest : List BoundStmt)
    : parts.executeAll (first :: rest)
        = ForLoop.followedBy (parts.execute first) (parts.executeAll rest) :=
  rfl

/-- What follows nothing but its normal end is followed by nothing. -/
theorem followedBy_normal (action : Run Completion)
    : ForLoop.followedBy action (return .normal) = action :=
  (bind_congr fun completion => by cases completion <;> rfl).trans (bind_pure action)

/-- Statements with a last one run as those in front of it and then the last. -/
theorem executeAll_last (parts : Evaluator) (initial : Option BoundStmt) (last : BoundStmt)
    : parts.executeAll (initial.toList ++ [last])
        = ForLoop.followedBy (ForLoop.start parts initial) (parts.execute last) := by
  have alone : parts.executeAll [last] = parts.execute last := followedBy_normal _
  cases initial with
  | none => exact alone
  | some first =>
      change ForLoop.followedBy (parts.execute first) (parts.executeAll [last]) = _
      rw [alone]
      rfl

/-- What becomes of a loop behind a round that ended so. -/
def behindRound (another : Run Completion) : Completion → Run Completion
  | .normal => another
  | .broke => return .normal
  | .returned value => return .returned value

/-- The body of a loop and the step behind it are one action. -/
theorem rounds_succ (test : Run Bool) (body : Run Completion) (step : Run Unit) (limit : Nat)
    : ForLoop.rounds test body step (limit + 1)
        = (do
            if ← test then
              ForLoop.followedBy body (do step; return .normal)
                >>= behindRound (ForLoop.rounds test body step limit)
            else
              return .normal) := by
  refine bind_congr fun holds => ?_
  cases holds with
  | false => rfl
  | true =>
      change _ = ForLoop.followedBy _ _ >>= _
      unfold ForLoop.followedBy
      rw [bind_assoc]
      refine bind_congr fun completion => ?_
      cases completion with
      | normal =>
          change _ = (step >>= fun _ => pure Completion.normal) >>= _
          rw [bind_assoc]
          rfl
      | broke | returned => rfl

/-- The body of the tree is a whole round, with its step. -/
theorem together_rounds {test : Run Value} {test' : Run Bool} {body body' : Run Completion}
    {step' : Run Unit}
    (tested
      : ∀ {footing : Footing},
          footing.At none
          → omission.Together footing test test' (fun value holds _ => holds = value.isTruthy))
    (repeated
      : ∀ {footing : Footing},
          footing.At none
          → omission.Together footing body
              (ForLoop.followedBy body' (do step'; return .normal)) (LaidOut Completion.Like))
    (limit : Nat) (stands : footing.At none)
    : omission.Together footing (repeatWhile test body limit)
        (ForLoop.rounds test' body' step' limit) (LaidOut Completion.Like) := by
  induction limit generalizing footing with
  | zero => exact .throw (.same _)
  | succ limit ih =>
      rw [rounds_succ]
      refine (tested stands).bind fun value holds between more same => ?_
      have stands := stands.extend more
      rw [same]
      split
      · refine (repeated stands).bind fun completion completion' after further alike => ?_
        cases alike with
        | normal => exact ih (stands.extend further)
        | broke => exact .pure .normal
        | returned alike => exact .pure (.returned alike)
      · exact .pure .normal

/-- Too deep a nesting ends both sides alike. -/
theorem together_tooDeep
    : omission.Together footing (throw .tooDeep : Run Completion) (throw .tooDeep : Run Completion)
        (LaidOut Completion.Like) :=
  .throw (.same _)

variable (limit : Nat)

/-- The increment is a statement in the tree. -/
theorem together_step {increment increment' : BoundExpr} {gap : Gap} (nesting : Nat)
    (stands : footing.At gap) (omits : increment.Omits gap increment')
    : omission.Together footing ((ofNesting limit nesting).execute (.expression increment))
        (do
          ForLoop.step (.ofNesting limit (nesting - 1)) (some increment')
          return .normal)
        (LaidOut Completion.Like) := by
  cases nesting with
  | zero => exact together_tooDeep
  | succ nesting =>
      change omission.Together footing _
        (((ofNesting limit nesting).evaluate increment' >>= fun _ => pure ()) >>= fun _ => _) _
      rw [bind_assoc]
      exact ((omits_ofNesting limit nesting).evaluate stands omits).bind
        fun _ _ _ _ _ => .pure .normal

/-- A round of the tree whose body stands in a block together with the increment. -/
theorem together_block {increment increment' : BoundExpr} {body body' : BoundStmt} (nesting : Nat)
    (stands : footing.At none) (omitsBody : body.Omits (some 0) body')
    (omitsStep : increment.Omits (some 0) increment')
    : omission.Together footing
        ((ofNesting limit nesting).execute (.block [body, .expression increment]))
        (ForLoop.followedBy ((ofNesting limit (nesting - 1)).execute body') (do
          ForLoop.step (.ofNesting limit (nesting - 1 - 1)) (some increment')
          return .normal))
        (LaidOut Completion.Like) := by
  cases nesting with
  | zero => exact together_tooDeep
  | succ nesting =>
      refine together_hollow stands fun _ inside => ?_
      rw [executeAll_cons]
      refine together_followedBy ((omits_ofNesting limit nesting).execute inside omitsBody)
        fun more => ?_
      have alone : (ofNesting limit nesting).executeAll [.expression increment]
          = (ofNesting limit nesting).execute (.expression increment) :=
        followedBy_normal _
      rw [alone]
      exact together_step limit nesting (inside.extend more) omitsStep

/-- A condition that is left out is true. -/
theorem together_test (nesting : Nat) (condition : Option BoundExpr) (stands : footing.At none)
    : omission.Together footing
        ((ofNesting limit (nesting + 1)).evaluate
          (condition.getD (.literal (.boolean true))))
        (ForLoop.test (.ofNesting limit (nesting + 1)) condition)
        (fun value holds _ => holds = value.isTruthy) := by
  cases condition with
  | none => exact .pure rfl
  | some condition =>
      exact ((omits_ofNesting limit (nesting + 1)).evaluate stands condition.omits_self).mapRight
        fun _ _ _ _ alike => alike.isTruthy

/-- The body of the tree does what the body of the loop does and, behind a normal end, its step. -/
def IsRound (body : BoundStmt) (loop : ForLoop (Option Nat)) : Prop :=
  ∀ {footing : Footing} (nesting : Nat),
    footing.At none
    → omission.Together footing ((ofNesting limit nesting).execute body)
        (ForLoop.followedBy ((ofNesting limit (loop.bodyNesting nesting)).execute loop.body) (do
          ForLoop.step (.ofNesting limit (loop.bodyNesting nesting - 1)) loop.increment
          return .normal))
        (LaidOut Completion.Like)

/-- The tree of a loop is a block with its first clause and a loop that repeats it in rounds. -/
theorem round_of_desugars {tree : BoundStmt} {loop : ForLoop (Option Nat)}
    (desugars : ForLoop.Desugars tree loop)
    : ∃ body,
        tree
          = .block
              (loop.initial.toList
                ++ [.loop (loop.condition.getD (.literal (.boolean true))) body])
        ∧ IsRound limit body loop := by
  cases desugars with
  | plain initial condition body =>
      refine ⟨body, rfl, fun nesting stands => ?_⟩
      change omission.Together _ _
        (ForLoop.followedBy ((ofNesting limit nesting).execute body) (return .normal)) _
      rw [followedBy_normal]
      exact (omits_ofNesting limit nesting).execute stands body.omits_self
  | stepped initial condition omitsBody omitsStep =>
      exact ⟨_, rfl, fun nesting stands => together_block limit nesting stands omitsBody omitsStep⟩

variable {limit} {loop : ForLoop (Option Nat)} {body : BoundStmt}

/-- The repeated part runs together with the loop that is meant. -/
theorem together_repeated (round : IsRound limit body loop) (nesting : Nat)
    (stands : footing.At none)
    : omission.Together footing
        ((ofNesting limit nesting).execute
          (.loop (loop.condition.getD (.literal (.boolean true))) body))
        (loop.repeated limit nesting) (LaidOut Completion.Like) := by
  cases nesting with
  | zero => exact together_tooDeep
  | succ nesting =>
      cases nesting with
      | zero =>
          -- Nothing may be nested in the loop, so neither tree nor loop comes past the condition.
          have bare : loop.bodyNesting 0 = 0 := by
            unfold ForLoop.bodyNesting
            split <;> rfl
          change omission.Together footing _
            (ForLoop.rounds (ForLoop.test (ofNesting limit 0) loop.condition)
              ((ofNesting limit (loop.bodyNesting 0)).execute loop.body) _ limit) _
          rw [bare]
          cases limit with
          | zero => exact .throw (.same _)
          | succ limit =>
              cases loop.condition with
              | none => exact together_tooDeep
              | some condition => exact together_tooDeep
      | succ nesting =>
          exact together_rounds (together_test limit nesting loop.condition) (round _) limit stands

/-- Both open one scope, run the first clause in it, and make their rounds. -/
theorem together_for (round : IsRound limit body loop) (nesting : Nat) (stands : footing.At none)
    : omission.Together footing
        ((ofNesting limit nesting).execute
          (.block
            (loop.initial.toList
              ++ [.loop (loop.condition.getD (.literal (.boolean true))) body])))
        (loop.execute limit nesting) (LaidOut Completion.Like) := by
  cases nesting with
  | zero => exact together_tooDeep
  | succ nesting =>
      refine (together_currentScope stands).bind fun scope scope' between more here => ?_
      refine (together_newScope here.2).bind fun scope scope' after further opened => ?_
      refine together_within opened ?_
      have inside : Footing.At { after with current := scope } none := ⟨scope', opened⟩
      rw [executeAll_last]
      refine together_followedBy ?_ fun more =>
        together_repeated round nesting (inside.extend more)
      cases loop.initial with
      | none => exact .pure .normal
      | some first => exact (omits_ofNesting limit nesting).execute inside first.omits_self

end Loops

end Lox
