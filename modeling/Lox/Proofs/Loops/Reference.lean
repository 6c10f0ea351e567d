import Lox.Grammar.Statement
import Lox.Machine.Execute
import Lox.Proofs.Grammar.Naming

/-! What a `for` means, told without the block and the loop that it is read as. -/

namespace Lox

/-- The clauses of a `for`, and its body. -/
structure ForLoop (ρ : Type) where
  initial : Option (Stmt ρ)
  condition : Option (Expr ρ)
  increment : Option (Expr ρ)
  body : Stmt ρ

namespace ForLoop

/-- What the parser makes of the loop. -/
def tree (loop : ForLoop Unit) : Stmt Unit :=
  Grammar.forLoop loop.initial loop.condition loop.increment loop.body

/-- The parts are such as reading yields. The body declares nothing. -/
structure Proper (loop : ForLoop Unit) : Prop where
  initial : ∀ statement, loop.initial = some statement → statement.Proper
  condition : ProperOptional loop.condition
  increment : ProperOptional loop.increment
  body : Grammar.Plain loop.body

-----
-- Reading

/-- The clauses of a `for` and its body, as they stand behind its keyword. -/
def read (allowExpression : Bool) (rules : Grammar.Rules) : Grammar.Rule (ForLoop Unit) := do
  let _ ← Grammar.expect .leftParen .forClauses
  let initial ← Grammar.forInitial allowExpression rules
  let condition ← Grammar.expressionBefore .semicolon rules
  let _ ← Grammar.expect .semicolon .loopConditionEnd
  let increment ← Grammar.expressionBefore .rightParen rules
  let _ ← Grammar.expect .rightParen .forClausesEnd
  let body ← Grammar.insideLoop rules.statement
  return { initial, condition, increment, body }

/-- The parser reads the loop and makes its tree. -/
theorem forStatement_read (allowExpression : Bool) (rules : Grammar.Rules)
    : Grammar.forStatement allowExpression rules = tree <$> read allowExpression rules := by
  unfold Grammar.forStatement read
  simp only [map_bind, map_pure]
  rfl

open Grammar in
/-- The clauses of a loop are read as proper trees. -/
theorem yields_read {rules : Rules} (gather : rules.Gather) (allowExpression : Bool)
    : Yields (read allowExpression rules) Proper := by
  have gathering (depth : Nat)
      : Gathering depth [] (read allowExpression rules) fun loop =>
          .statement true loop.body
            :: (loop.initial.toList.map (.declaration false)
              ++ (loop.condition.toList ++ loop.increment.toList).map .expression) := by
    refine .expect fun _ _ => ?_
    refine (gathering_forInitial gather allowExpression false).step fun initial => ?_
    refine (gathering_expressionBefore gather _).step fun condition => .expect fun _ _ => ?_
    refine (gathering_expressionBefore gather _).step fun increment => .expect fun _ _ => ?_
    refine (gather.statement (depth + 1)).insideLoop.step fun body => .pure ?_
    grind [looping]
  refine yields_of_gathering gathering fun depth loop proper => ?_
  obtain ⟨body, others⟩ := List.forall_mem_cons.1 proper
  obtain ⟨initial, exprs⟩ := List.forall_mem_append.1 others
  have operands : ∀ expr ∈ loop.condition.toList ++ loop.increment.toList, expr.Proper :=
    fun expr member => exprs (.expression expr) (List.mem_map_of_mem member)
  obtain ⟨condition, increment⟩ := List.forall_mem_append.1 operands
  exact {
    initial := fun stmt found =>
      initial (.declaration false stmt) (List.mem_map_of_mem (by simp [found]))
    condition := (properOptional_iff _).2 fun expr found => condition expr (by simp [found])
    increment := (properOptional_iff _).2 fun expr found => increment expr (by simp [found])
    body
  }

-----
-- Binding

/-- All parts stand in one new scope, and are bound in the order of the text. -/
def bound (loop : ForLoop Unit) : Binding.Binder (ForLoop (Option Nat)) :=
  Binding.inScope do
    let initial ← Binding.bindElse loop.initial
    let condition ← Binding.bindOptional loop.condition
    let increment ← Binding.bindOptional loop.increment
    let body ← Binding.inLoop (Binding.bindStmt loop.body)
    return { initial, condition, increment, body }

-----
-- Running

/-- What comes behind is run only if the first part ends normally. -/
def followedBy (first rest : Run Completion) : Run Completion := do
  match ← first with
  | .normal => rest
  | completion => return completion

/-- Rounds are made as long as the test holds. Between two rounds there is a step. A `break` ends
the loop and a `return` leaves it, both without another step. -/
def rounds (test : Run Bool) (body : Run Completion) (step : Run Unit) : Nat → Run Completion
  | 0 => throw .tooManyRounds
  | limit + 1 => do
      if ← test then
        match ← body with
        | .normal =>
            step
            rounds test body step limit
        | .broke => return .normal
        | .returned value => return .returned value
      else
        return .normal

/-- Without a condition there is always another round. -/
def test (parts : Evaluator) : Option BoundExpr → Run Bool
  | none => return true
  | some condition => do return (← parts.evaluate condition).isTruthy

def step (parts : Evaluator) : Option BoundExpr → Run Unit
  | none => return ()
  | some increment => do
      let _ ← parts.evaluate increment

def start (parts : Evaluator) : Option BoundStmt → Run Completion
  | none => return .normal
  | some statement => parts.execute statement

/-- So much may be nested inside of the body. An increment takes a level for itself. -/
def bodyNesting (loop : ForLoop (Option Nat)) (nesting : Nat) : Nat :=
  if loop.increment.isSome then nesting - 1 else nesting

/-- The rounds of a loop in the scope that the loop has opened. -/
def repeated (limit : Nat) (loop : ForLoop (Option Nat)) : Nat → Run Completion
  | 0 => throw .tooDeep
  | nesting + 1 =>
      let inner := loop.bodyNesting nesting
      rounds (test (.ofNesting limit nesting) loop.condition)
        ((Evaluator.ofNesting limit inner).execute loop.body)
        (step (.ofNesting limit (inner - 1)) loop.increment) limit

/-- The loop opens one scope for all its rounds, and starts in it. -/
def execute (limit : Nat) (loop : ForLoop (Option Nat)) : Nat → Run Completion
  | 0 => throw .tooDeep
  | nesting + 1 => do
      let scope ← Run.newScope (← Run.currentScope)
      Run.within scope
        (followedBy (start (.ofNesting limit nesting) loop.initial) (loop.repeated limit nesting))

end ForLoop

end Lox
