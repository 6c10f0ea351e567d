import Lox.Proofs.Scoping.Calls

/-! Evaluating expressions while watched, one level deep. -/

namespace Lox.Scoping

open Binding
open Grammar (SourceExpr SourceStmt)

namespace Watcher

variable {fresh : String → Prop} {before : Watched} {site : Site}

/-- A function is created in the scope that its text stands in. -/
theorem tracks_newFunction (sound : before.Sound) (reached : before.At site)
    {function : Lambda Unit} (proper : function.Proper)
    (clean : (bindFunction function site.scopes).2.errors = []) (name : Option String)
    : Tracks fresh
        (Run.newClosure (bindFunction function site.scopes).1 before.machine.current name false)
        (newFunction site function before.machine.current name false) before
        (fun closure after => after.Free closure) := by
  have met : Origin.Sound { function, site } := ⟨reached.met, proper, clean⟩
  refine (tracks_newClosure sound met before.machine.current name false).weaken ?_
  rintro closure after grows ⟨holds, origin, scope, isInitializer⟩
  refine ⟨holds, ?_, fun isTrue => ?_⟩
  · rw [origin, scope]
    exact grows.fitsAt reached.fits
  · rw [isInitializer] at isTrue
    cases isTrue

namespace Follows

variable {evaluator : Evaluator} {watcher : Watcher}

/-- An expression is tracked, by cases on it. -/
theorem evaluateStep (follows : watcher.Follows fresh evaluator) {expr : SourceExpr}
    (sound : before.Sound) (reached : before.At site) (proper : expr.Proper)
    (clean : (bindExpr expr site.scopes).2.errors = [])
    : Tracks fresh (evaluator.evaluateStep (bindExpr expr site.scopes).1)
        (watcher.evaluateStep site expr) before (fun value after => after.Traced value) := by
  have here := reached.child 0
  cases expr with
  | literal value => exact .pure sound trivial
  | grouping inner => exact follows.evaluate sound here proper clean
  | unary operator operand =>
      have properOperand : operand.Proper := proper
      refine (follows.evaluate sound here properOperand clean).bind ?_
      intro value between _ sound _
      exact tracks_ofExcept sound fun _ applied => traced_applyUnary applied
  | binary left operator right =>
      obtain ⟨properLeft, properRight⟩ := proper
      have cleanLeft := errors_nil (bindExpr_kept right _ properRight) clean
      refine (follows.evaluate sound here properLeft cleanLeft).bind ?_
      intro leftValue between grows sound _
      have next := ((reached.grows grows).behind properLeft).child 1
      refine (follows.evaluate sound next properRight clean).bind ?_
      intro rightValue after _ sound traced
      exact tracks_ofExcept sound fun _ applied => traced_applyBinary traced applied
  | logical left operator right =>
      obtain ⟨properLeft, properRight⟩ := proper
      have cleanLeft := errors_nil (bindExpr_kept right _ properRight) clean
      refine (follows.evaluate sound here properLeft cleanLeft).bind ?_
      intro leftValue between grows sound traced
      have next := ((reached.grows grows).behind properLeft).child 1
      by_cases early : Evaluator.decidesEarly operator leftValue = true
      · rw [if_pos early, if_pos early]
        exact .pure sound traced
      · rw [if_neg early, if_neg early]
        exact follows.evaluate sound next properRight clean
  | conditional condition thenCase elseCase =>
      obtain ⟨tested, first, second⟩ := proper
      have cleanThen := errors_nil (bindExpr_kept elseCase _ second) clean
      have cleanTest := errors_nil (bindExpr_kept thenCase _ first) cleanThen
      refine (follows.evaluate sound here tested cleanTest).bind ?_
      intro value between grows sound _
      have thenReached := (reached.grows grows).behind tested
      by_cases truthy : value.isTruthy = true
      · rw [if_pos truthy, if_pos truthy]
        exact follows.evaluate sound (thenReached.child 1) first cleanThen
      · rw [if_neg truthy, if_neg truthy]
        exact follows.evaluate sound ((thenReached.behind first).child 2) second clean
  | «variable» target => exact tracks_read sound (reached.fits.ready reached.met.standing _)
  | assign target value =>
      obtain ⟨isName, properValue⟩ := proper
      have cleanValue := errors_nil (bindNearest_kept target.name _) clean
      refine (follows.evaluate sound here properValue cleanValue).bind ?_
      intro assigned between grows sound traced
      have behind := (reached.grows grows).behind properValue
      have ready := behind.fits.ready behind.met.standing target.name.lexeme
      refine (tracks_write sound ready isName traced).bind fun _ after grows sound _ => ?_
      exact .pure sound (grows.traced traced)
  | call callee paren arguments =>
      obtain ⟨properCallee, properArguments⟩ := proper
      have cleanCallee := errors_nil (bindExprs_kept arguments _ properArguments) clean
      refine (follows.evaluate sound here properCallee cleanCallee).bind ?_
      intro calleeValue between grows sound traced
      have next := ((reached.grows grows).behind properCallee).child 1
      refine (follows.evaluateAll sound next properArguments clean).bind ?_
      intro values after grows sound tracedValues
      exact follows.call sound (grows.traced traced) tracedValues paren
  | get object name =>
      have properObject : object.Proper := proper
      refine (follows.evaluate sound here properObject clean).bind ?_
      intro value between _ sound traced
      exact tracks_readProperty sound traced name
  | set object name value =>
      obtain ⟨properObject, properValue⟩ := proper
      have cleanValue := errors_nil (bindExpr_kept object _ properObject) clean
      have objectReached := (reached.behind properValue).child 0
      refine (follows.evaluate sound objectReached properObject clean).bind ?_
      intro objectValue between grows sound _
      cases objectValue with
      | literal | native | closure | «class» => exact .failAt sound name .fieldOfNonInstance
      | object address lineage =>
          have valueReached := (reached.grows grows).child 1
          refine (follows.evaluate sound valueReached properValue cleanValue).bind ?_
          intro assigned last _ sound traced
          refine (tracks_setField sound address name.lexeme traced).bind ?_
          intro _ after grows sound _
          exact .pure sound (grows.traced traced)
  | this keyword => exact tracks_this sound reached.met reached.fits proper clean
  | super keyword method => exact tracks_super sound reached.met reached.fits proper clean
  | function function =>
      refine (tracks_currentScope sound).bind ?_
      rintro scope between _ sound ⟨rfl, rfl⟩
      refine (tracks_newFunction sound here proper clean none).bind ?_
      intro closure after _ sound free
      exact .pure sound free

end Follows

end Watcher

end Lox.Scoping
