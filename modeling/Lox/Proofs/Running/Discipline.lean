import Lox.Machine.Execute
import Lox.Proofs.Binding.Balance
import Lox.Proofs.Running.Region

/-! Where `break` and `return` may stand, and how statements may end therefore.

A statement in which every `break` stands inside of a loop and every `return` inside of a function
ends as the loops and functions around it allow. Binding reports all others.
-/

namespace Lox

variable {ρ : Type}

-----
-- Statements that keep the rules

mutual
/-- Outside of the loops and functions that the statement contains itself, it breaks only if it
stands in a loop, and returns only if it stands in a function. -/
def Stmt.Keeps (inFunction inLoop : Bool) : Stmt ρ → Prop
  | .block statements => KeepsStmts inFunction inLoop statements
  | .branch _ thenBranch elseBranch =>
      thenBranch.Keeps inFunction inLoop ∧ KeepsElse inFunction inLoop elseBranch
  | .loop _ body => body.Keeps inFunction true
  | .breakLoop _ => inLoop = true
  | .returnValue .. => inFunction = true
  | .expression _ | .print _ | .printLine _ | .variable .. | .function .. | .class .. => True

def KeepsStmts (inFunction inLoop : Bool) : List (Stmt ρ) → Prop
  | [] => True
  | first :: rest => first.Keeps inFunction inLoop ∧ KeepsStmts inFunction inLoop rest

def KeepsElse (inFunction inLoop : Bool) : Option (Stmt ρ) → Prop
  | none => True
  | some branch => branch.Keeps inFunction inLoop
end

/-- Statements in a row keep the discipline one by one. -/
theorem KeepsStmts.each {inFunction inLoop : Bool} {stmts : List (Stmt ρ)}
    (keeps : KeepsStmts inFunction inLoop stmts)
    : ∀ stmt ∈ stmts, stmt.Keeps inFunction inLoop := by
  induction stmts with
  | nil => exact fun _ listed => nomatch listed
  | cons first rest ih => exact List.forall_mem_cons.2 ⟨keeps.1, ih keeps.2⟩

/-- The body may return, and breaks out of nothing but its own loops. -/
def Lambda.Disciplined (function : Lambda ρ) : Prop :=
  KeepsStmts true false function.body

mutual
/-- There are no rules inside of a loop that stands in a function. -/
theorem Stmt.keeps_inside : ∀ stmt : Stmt ρ, stmt.Keeps true true
  | .block statements => keepsStmts_inside statements
  | .branch _ thenBranch elseBranch => ⟨thenBranch.keeps_inside, keepsElse_inside elseBranch⟩
  | .loop _ body => body.keeps_inside
  | .breakLoop _ | .returnValue .. => rfl
  | .expression _ | .print _ | .printLine _ | .variable .. | .function .. | .class .. => trivial

/-- Inside of functions and loops statements may end in any way. -/
theorem keepsStmts_inside : ∀ stmts : List (Stmt ρ), KeepsStmts true true stmts
  | [] => trivial
  | first :: rest => ⟨first.keeps_inside, keepsStmts_inside rest⟩

/-- Inside of functions and loops a branch may end in any way. -/
theorem keepsElse_inside : ∀ branch : Option (Stmt ρ), KeepsElse true true branch
  | none => trivial
  | some branch => branch.keeps_inside
end

/-- A `while`, or the block that a `for` stands for. -/
def Stmt.IsLoop : Stmt ρ → Prop
  | .loop .. | .block [.loop ..] | .block [.variable .., .loop ..]
  | .block [.expression _, .loop ..] => True
  | _ => False

/-- A loop breaks out of nothing. -/
theorem Stmt.IsLoop.keeps {stmt : Stmt ρ} (isLoop : stmt.IsLoop) : stmt.Keeps true false := by
  unfold Stmt.IsLoop at isLoop
  split at isLoop
  · exact Stmt.keeps_inside _
  · exact ⟨Stmt.keeps_inside _, trivial⟩
  · exact ⟨trivial, Stmt.keeps_inside _, trivial⟩
  · exact ⟨trivial, Stmt.keeps_inside _, trivial⟩
  · exact isLoop.elim

-----
-- What binding lets pass

namespace Binding

/-- A `break` that is not reported stands in a loop. -/
theorem checkBreak_inLoop {keyword : Token} {scopes : Scopes}
    (clean : (checkBreak keyword scopes).2.errors = [])
    : (scopes.loopDepth != 0) = true := by
  by_cases outside : scopes.loopDepth = 0
  · change (if scopes.loopDepth = 0 then scopes.error keyword .breakOutsideLoop
      else scopes).errors = [] at clean
    rw [if_pos outside] at clean
    exact absurd clean (List.append_ne_nil_of_right_ne_nil _ (List.cons_ne_nil _ _))
  · exact bne_iff_ne.2 outside

/-- A `return` that is not reported stands in a function. -/
theorem checkReturn_inFunction {keyword : Token} {scopes : Scopes}
    (clean : (checkReturn keyword scopes).2.errors = [])
    : scopes.inFunction = true := by
  by_cases inside : scopes.inFunction = true
  · exact inside
  · change (if scopes.inFunction then scopes
      else scopes.error keyword .returnOutsideFunction).errors = [] at clean
    rw [if_neg inside] at clean
    exact absurd clean (List.append_ne_nil_of_right_ne_nil _ (List.cons_ne_nil _ _))

mutual
/-- Where no error is reported, all functions in the expression are disciplined. -/
theorem bindExpr_disciplined
    : ∀ (expr : Expr Unit) (scopes : Scopes),
        expr.Proper
        → (bindExpr expr scopes).2.errors = []
        → (bindExpr expr scopes).1.Every Lambda.Disciplined
  | .literal _, _, _, _ | .variable _, _, _, _ | .this _, _, _, _ | .super _ _, _, _, _ => trivial
  | .grouping inner, scopes, proper, clean => bindExpr_disciplined inner scopes proper clean
  | .unary _ operand, scopes, proper, clean => bindExpr_disciplined operand scopes proper clean
  | .binary left _ right, scopes, ⟨properLeft, properRight⟩, clean
  | .logical left _ right, scopes, ⟨properLeft, properRight⟩, clean =>
      have cleanLeft := (bindExpr_kept right _ properRight).errors.nil clean
      ⟨bindExpr_disciplined left scopes properLeft cleanLeft,
        bindExpr_disciplined right _ properRight clean⟩
  | .conditional condition thenCase elseCase, scopes, ⟨tested, first, second⟩, clean =>
      have cleanFirst := (bindExpr_kept elseCase _ second).errors.nil clean
      have cleanTest := (bindExpr_kept thenCase _ first).errors.nil cleanFirst
      ⟨bindExpr_disciplined condition scopes tested cleanTest,
        bindExpr_disciplined thenCase _ first cleanFirst,
        bindExpr_disciplined elseCase _ second clean⟩
  | .assign target value, scopes, ⟨_, proper⟩, clean =>
      have cleanValue := (bindNearest_kept target.name _).errors.nil clean
      bindExpr_disciplined value scopes proper cleanValue
  | .call callee _ arguments, scopes, ⟨properCallee, properArguments⟩, clean =>
      have cleanCallee := (bindExprs_kept arguments _ properArguments).errors.nil clean
      ⟨bindExpr_disciplined callee scopes properCallee cleanCallee,
        bindExprs_disciplined arguments _ properArguments clean⟩
  | .get object _, scopes, proper, clean => bindExpr_disciplined object scopes proper clean
  | .set object _ value, scopes, ⟨properObject, properValue⟩, clean =>
      have cleanValue := (bindExpr_kept object _ properObject).errors.nil clean
      ⟨bindExpr_disciplined object _ properObject clean,
        bindExpr_disciplined value scopes properValue cleanValue⟩
  | .function function, scopes, proper, clean =>
      bindFunction_disciplined function scopes proper clean

/-- Where nothing is reported every function in expressions is disciplined. -/
theorem bindExprs_disciplined
    : ∀ (exprs : List (Expr Unit)) (scopes : Scopes),
        ProperExprs exprs
        → (bindExprs exprs scopes).2.errors = []
        → EveryExprs Lambda.Disciplined (bindExprs exprs scopes).1
  | [], _, _, _ => trivial
  | first :: rest, scopes, ⟨properFirst, properRest⟩, clean =>
      have cleanFirst := (bindExprs_kept rest _ properRest).errors.nil clean
      ⟨bindExpr_disciplined first scopes properFirst cleanFirst,
        bindExprs_disciplined rest _ properRest clean⟩

/-- Where nothing is reported every function in an optional expression is disciplined. -/
theorem bindOptional_disciplined
    : ∀ (value : Option (Expr Unit)) (scopes : Scopes),
        ProperOptional value
        → (bindOptional value scopes).2.errors = []
        → EveryOptional Lambda.Disciplined (bindOptional value scopes).1
  | none, _, _, _ => trivial
  | some value, scopes, proper, clean => bindExpr_disciplined value scopes proper clean

/-- Where no error is reported, the statement keeps the rules of its place. -/
theorem bindStmt_disciplined
    : ∀ (stmt : Stmt Unit) (scopes : Scopes),
        stmt.Proper
        → (bindStmt stmt scopes).2.errors = []
        → (bindStmt stmt scopes).1.Every Lambda.Disciplined
          ∧ (bindStmt stmt scopes).1.Keeps scopes.inFunction (scopes.loopDepth != 0)
  | .expression value, scopes, proper, clean | .print value, scopes, proper, clean =>
      ⟨bindExpr_disciplined value scopes proper clean, trivial⟩
  | .printLine value, scopes, proper, clean =>
      ⟨bindOptional_disciplined value scopes proper clean, trivial⟩
  | .variable name initial, scopes, ⟨_, proper⟩, clean => by
      obtain ⟨locals, globals, defined⟩ :=
        (bindOptional initial (scopes.declared name true)).2.defined_eq name.lexeme
      change ((bindOptional initial (scopes.declared name true)).2.defined name.lexeme).errors = []
        at clean
      rw [defined] at clean
      exact ⟨bindOptional_disciplined initial _ proper clean, trivial⟩
  | .block statements, scopes, proper, clean => by
      change (Scopes.closed _).errors = [] at clean
      rw [Scopes.closed_errors] at clean
      exact bindStmts_disciplined statements scopes.opened proper clean
  | .branch condition thenBranch elseBranch, scopes, ⟨tested, ⟨first, nothing⟩, second⟩, clean => by
      have cleanThen := (bindElse_kept elseBranch _ second).errors.nil clean
      have cleanTest := (bindStmt_errors first _).nil cleanThen
      have kept := bindExpr_kept condition scopes tested
      have context := bindStmt_context first (bindExpr condition scopes).2
      obtain ⟨functionsThen, keepsThen⟩ := bindStmt_disciplined thenBranch _ first cleanThen
      obtain ⟨functionsElse, keepsElse⟩ := bindElse_disciplined elseBranch _ second clean
      rw [context.1, context.2] at keepsElse
      rw [kept.inFunction, kept.loopDepth] at keepsThen keepsElse
      exact ⟨⟨bindExpr_disciplined condition scopes tested cleanTest, functionsThen, functionsElse⟩,
        keepsThen, keepsElse⟩
  | .loop condition body, scopes, ⟨tested, proper, _⟩, clean => by
      have kept := bindExpr_kept condition scopes tested
      have cleanTest := (bindStmt_errors proper _).nil clean
      obtain ⟨functions, keeps⟩ := bindStmt_disciplined body
        (bindExpr condition scopes).2.enteredLoop proper clean
      refine ⟨⟨bindExpr_disciplined condition scopes tested cleanTest, functions⟩, ?_⟩
      change Stmt.Keeps (bindExpr condition scopes).2.inFunction true _ at keeps
      rw [kept.inFunction] at keeps
      exact keeps
  | .breakLoop _, _, _, clean => ⟨trivial, checkBreak_inLoop clean⟩
  | .returnValue keyword value, scopes, proper, clean =>
      have cleanKeyword := (bindOptional_kept value _ proper).errors.nil clean
      ⟨bindOptional_disciplined value _ proper clean, checkReturn_inFunction cleanKeyword⟩
  | .function name function, scopes, ⟨_, proper⟩, clean =>
      ⟨bindFunction_disciplined function (scopes.introduced (some name)) proper clean, trivial⟩
  | .class name none methods, scopes, ⟨_, _, proper⟩, clean => by
      change (Scopes.closed _).errors = [] at clean
      rw [Scopes.closed_errors] at clean
      exact ⟨bindMethods_disciplined methods _ proper clean, trivial⟩
  | .class name (some superclass) methods, scopes, ⟨_, _, proper⟩, clean => by
      change (Scopes.closed (Scopes.closed _)).errors = [] at clean
      rw [Scopes.closed_errors, Scopes.closed_errors] at clean
      exact ⟨bindMethods_disciplined methods _ proper clean, trivial⟩

/-- Where nothing is reported every function in statements is disciplined. -/
theorem bindStmts_disciplined
    : ∀ (stmts : List (Stmt Unit)) (scopes : Scopes),
        ProperStmts stmts
        → (bindStmts stmts scopes).2.errors = []
        → EveryStmts Lambda.Disciplined (bindStmts stmts scopes).1
          ∧ KeepsStmts scopes.inFunction (scopes.loopDepth != 0) (bindStmts stmts scopes).1
  | [], _, _, _ => ⟨trivial, trivial⟩
  | first :: rest, scopes, ⟨properFirst, properRest⟩, clean => by
      have cleanFirst := (bindStmts_errors properRest _).nil clean
      have context := bindStmt_context properFirst scopes
      obtain ⟨functions, keeps⟩ := bindStmt_disciplined first scopes properFirst cleanFirst
      obtain ⟨others, othersKeep⟩ := bindStmts_disciplined rest _ properRest clean
      rw [context.1, context.2] at othersKeep
      exact ⟨⟨functions, others⟩, keeps, othersKeep⟩

/-- Where nothing is reported every function in a branch is disciplined. -/
theorem bindElse_disciplined
    : ∀ (branch : Option (Stmt Unit)) (scopes : Scopes),
        ProperElse branch
        → (bindElse branch scopes).2.errors = []
        → EveryElse Lambda.Disciplined (bindElse branch scopes).1
          ∧ KeepsElse scopes.inFunction (scopes.loopDepth != 0) (bindElse branch scopes).1
  | none, _, _, _ => ⟨trivial, trivial⟩
  | some branch, scopes, ⟨proper, _⟩, clean => bindStmt_disciplined branch scopes proper clean

/-- A function starts outside of all loops. -/
theorem bindFunction_disciplined
    : ∀ (function : Lambda Unit) (scopes : Scopes),
        function.Proper
        → (bindFunction function scopes).2.errors = []
        → (bindFunction function scopes).1.Every Lambda.Disciplined
  | .mk parameters body, scopes, ⟨_, proper⟩, clean => by
      change (Scopes.closed _).errors = [] at clean
      rw [Scopes.closed_errors] at clean
      obtain ⟨view, inside⟩ :=
        declareParameters_within (.opened scopes.enteredFunction) parameters
      obtain ⟨functions, keeps⟩ := bindStmts_disciplined body _ proper clean
      rw [inside.inFunction, inside.loopDepth] at keeps
      exact ⟨keeps, functions⟩

/-- Where nothing is reported every method is disciplined. -/
theorem bindMethods_disciplined
    : ∀ (methods : List (Method Unit)) (scopes : Scopes),
        ProperMethods methods
        → (bindMethods methods scopes).2.errors = []
        → EveryMethods Lambda.Disciplined (bindMethods methods scopes).1
  | [], _, _, _ => trivial
  | .mk _ function :: rest, scopes, ⟨properFirst, properRest⟩, clean =>
      have cleanFirst := (bindMethods_errors properRest _).nil clean
      ⟨bindFunction_disciplined function scopes properFirst cleanFirst,
        bindMethods_disciplined rest _ properRest clean⟩
end

end Binding

end Lox
