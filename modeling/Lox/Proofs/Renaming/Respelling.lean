import Lox.Proofs.Renaming.Relation

/-! Trees as they are read, in which some uses of a name are spelled with another name.

What a bound tree becomes differs from it in the spelling of names alone, wherever these are bound.
-/

namespace Lox

-----
-- Names

namespace Renaming

variable (rename : Renaming)

/-- A name that may have the new spelling in place of the old one. -/
def MayTurn (name name' : Token) : Prop :=
  ∃ mark, rename.TurnsToken mark name name'

inductive MayTurnAll : List Token → List Token → Prop
  | nil : MayTurnAll [] []
  | cons {first first' : Token} {rest rest' : List Token}
    (head : rename.MayTurn first first') (tail : MayTurnAll rest rest')
    : MayTurnAll (first :: rest) (first' :: rest')

variable {rename : Renaming}

/-- Names that turn may turn. -/
theorem TurnsTokens.mayTurnAll {mark : Bool} {names names' : List Token}
    (turns : rename.TurnsTokens mark names names')
    : rename.MayTurnAll names names' := by
  induction turns with
  | nil => exact .nil
  | cons head _ ih => exact .cons ⟨mark, head⟩ ih

/-- As many names are there as before. -/
theorem MayTurnAll.length {names names' : List Token} (turns : rename.MayTurnAll names names')
    : names'.length = names.length := by
  induction turns with
  | nil => rfl
  | cons _ _ ih => exact congrArg (· + 1) ih

end Renaming

-----
-- Trees

mutual
/-- Properties, methods, functions and classes keep their names. -/
def Expr.Respelled (rename : Renaming) : Expr Unit → Expr Unit → Prop
  | .literal value, expr => expr = .literal value
  | .grouping inner, expr =>
      ∃ inner', expr = .grouping inner' ∧ inner.Respelled rename inner'
  | .unary operator operand, expr =>
      ∃ operand', expr = .unary operator operand' ∧ operand.Respelled rename operand'
  | .binary left operator right, expr =>
      ∃ left' right',
        expr = .binary left' operator right'
        ∧ left.Respelled rename left'
        ∧ right.Respelled rename right'
  | .logical left operator right, expr =>
      ∃ left' right',
        expr = .logical left' operator right'
        ∧ left.Respelled rename left'
        ∧ right.Respelled rename right'
  | .conditional condition thenCase elseCase, expr =>
      ∃ condition' thenCase' elseCase',
        expr = .conditional condition' thenCase' elseCase'
        ∧ condition.Respelled rename condition'
        ∧ thenCase.Respelled rename thenCase'
        ∧ elseCase.Respelled rename elseCase'
  | .variable target, expr =>
      ∃ name', expr = .variable { target with name := name' } ∧ rename.MayTurn target.name name'
  | .assign target value, expr =>
      ∃ name' value',
        expr = .assign { target with name := name' } value'
        ∧ rename.MayTurn target.name name'
        ∧ value.Respelled rename value'
  | .call callee paren arguments, expr =>
      ∃ callee' arguments',
        expr = .call callee' paren arguments'
        ∧ callee.Respelled rename callee'
        ∧ RespelledExprs rename arguments arguments'
  | .get object name, expr =>
      ∃ object', expr = .get object' name ∧ object.Respelled rename object'
  | .set object name value, expr =>
      ∃ object' value',
        expr = .set object' name value'
        ∧ object.Respelled rename object'
        ∧ value.Respelled rename value'
  | .this keyword, expr => expr = .this keyword
  | .super keyword method, expr => expr = .super keyword method
  | .function function, expr =>
      ∃ function', expr = .function function' ∧ function.Respelled rename function'
termination_by structural tree _ => tree

def RespelledExprs (rename : Renaming) : List (Expr Unit) → List (Expr Unit) → Prop
  | [], exprs => exprs = []
  | first :: rest, exprs =>
      ∃ first' rest',
        exprs = first' :: rest'
        ∧ first.Respelled rename first'
        ∧ RespelledExprs rename rest rest'
termination_by structural tree _ => tree

def RespelledOptional (rename : Renaming) : Option (Expr Unit) → Option (Expr Unit) → Prop
  | none, value => value = none
  | some inner, value => ∃ inner', value = some inner' ∧ inner.Respelled rename inner'
termination_by structural tree _ => tree

def Stmt.Respelled (rename : Renaming) : Stmt Unit → Stmt Unit → Prop
  | .expression value, stmt =>
      ∃ value', stmt = .expression value' ∧ value.Respelled rename value'
  | .print value, stmt => ∃ value', stmt = .print value' ∧ value.Respelled rename value'
  | .printLine value, stmt =>
      ∃ value', stmt = .printLine value' ∧ RespelledOptional rename value value'
  | .variable name initial, stmt =>
      ∃ name' initial',
        stmt = .variable name' initial'
        ∧ rename.MayTurn name name'
        ∧ RespelledOptional rename initial initial'
  | .block statements, stmt =>
      ∃ statements', stmt = .block statements' ∧ RespelledStmts rename statements statements'
  | .branch condition thenBranch elseBranch, stmt =>
      ∃ condition' thenBranch' elseBranch',
        stmt = .branch condition' thenBranch' elseBranch'
        ∧ condition.Respelled rename condition'
        ∧ thenBranch.Respelled rename thenBranch'
        ∧ RespelledElse rename elseBranch elseBranch'
  | .loop condition body, stmt =>
      ∃ condition' body',
        stmt = .loop condition' body'
        ∧ condition.Respelled rename condition'
        ∧ body.Respelled rename body'
  | .breakLoop keyword, stmt => stmt = .breakLoop keyword
  | .returnValue keyword value, stmt =>
      ∃ value', stmt = .returnValue keyword value' ∧ RespelledOptional rename value value'
  | .function name function, stmt =>
      ∃ function', stmt = .function name function' ∧ function.Respelled rename function'
  | .class name none methods, stmt =>
      ∃ methods', stmt = .class name none methods' ∧ RespelledMethods rename methods methods'
  | .class name (some superclass) methods, stmt =>
      ∃ name' methods',
        stmt = .class name (some { superclass with name := name' }) methods'
        ∧ rename.MayTurn superclass.name name'
        ∧ RespelledMethods rename methods methods'
termination_by structural tree _ => tree

def RespelledStmts (rename : Renaming) : List (Stmt Unit) → List (Stmt Unit) → Prop
  | [], stmts => stmts = []
  | first :: rest, stmts =>
      ∃ first' rest',
        stmts = first' :: rest'
        ∧ first.Respelled rename first'
        ∧ RespelledStmts rename rest rest'
termination_by structural tree _ => tree

def RespelledElse (rename : Renaming) : Option (Stmt Unit) → Option (Stmt Unit) → Prop
  | none, branch => branch = none
  | some inner, branch => ∃ inner', branch = some inner' ∧ inner.Respelled rename inner'
termination_by structural tree _ => tree

def Lambda.Respelled (rename : Renaming) : Lambda Unit → Lambda Unit → Prop
  | .mk parameters body, function =>
      ∃ parameters' body',
        function = .mk parameters' body'
        ∧ rename.MayTurnAll parameters parameters'
        ∧ RespelledStmts rename body body'
termination_by structural tree _ => tree

def RespelledMethods (rename : Renaming) : List (Method Unit) → List (Method Unit) → Prop
  | [], methods => methods = []
  | .mk name function :: rest, methods =>
      ∃ function' rest',
        methods = .mk name function' :: rest'
        ∧ function.Respelled rename function'
        ∧ RespelledMethods rename rest rest'
termination_by structural tree _ => tree
end

-----
-- Bound trees

section

variable {rename : Renaming}

/-- The name of a reference that turns may turn. -/
theorem Renaming.TurnsReference.mayTurn {marks : List Bool}
    {target target' : Reference (Option Nat)} (turns : rename.TurnsReference marks target target')
    : rename.MayTurn target.name target'.name := by
  obtain ⟨turns⟩ := turns
  exact ⟨_, turns⟩

mutual
/-- What a bound tree becomes is spelled otherwise in some of its names alone. -/
theorem Expr.Becomes.respelled
    : ∀ {expr expr' : BoundExpr} {marks : List Bool},
        expr.Becomes rename marks expr' → expr.unbound.Respelled rename expr'.unbound
  | .literal _, _, _, becomes => by
      obtain rfl := becomes
      exact rfl
  | .grouping _, _, _, becomes => by
      obtain ⟨_, rfl, becomes⟩ := becomes
      exact ⟨_, rfl, Expr.Becomes.respelled becomes⟩
  | .unary _ _, _, _, becomes => by
      obtain ⟨_, rfl, becomes⟩ := becomes
      exact ⟨_, rfl, Expr.Becomes.respelled becomes⟩
  | .binary _ _ _, _, _, becomes => by
      obtain ⟨_, _, rfl, left, right⟩ := becomes
      exact ⟨_, _, rfl, Expr.Becomes.respelled left, Expr.Becomes.respelled right⟩
  | .logical _ _ _, _, _, becomes => by
      obtain ⟨_, _, rfl, left, right⟩ := becomes
      exact ⟨_, _, rfl, Expr.Becomes.respelled left, Expr.Becomes.respelled right⟩
  | .conditional _ _ _, _, _, becomes => by
      obtain ⟨_, _, _, rfl, condition, thenCase, elseCase⟩ := becomes
      exact ⟨_, _, _, rfl, Expr.Becomes.respelled condition, Expr.Becomes.respelled thenCase,
        Expr.Becomes.respelled elseCase⟩
  | .variable _, _, _, becomes => by
      obtain ⟨_, rfl, turns⟩ := becomes
      exact ⟨_, rfl, turns.mayTurn⟩
  | .assign _ _, _, _, becomes => by
      obtain ⟨_, _, rfl, turns, becomes⟩ := becomes
      exact ⟨_, _, rfl, turns.mayTurn, Expr.Becomes.respelled becomes⟩
  | .call _ _ _, _, _, becomes => by
      obtain ⟨_, _, rfl, callee, arguments⟩ := becomes
      exact ⟨_, _, rfl, Expr.Becomes.respelled callee, BecomesExprs.respelled arguments⟩
  | .get _ _, _, _, becomes => by
      obtain ⟨_, rfl, becomes⟩ := becomes
      exact ⟨_, rfl, Expr.Becomes.respelled becomes⟩
  | .set _ _ _, _, _, becomes => by
      obtain ⟨_, _, rfl, object, value⟩ := becomes
      exact ⟨_, _, rfl, Expr.Becomes.respelled object, Expr.Becomes.respelled value⟩
  | .this _, _, _, becomes => by
      obtain ⟨rfl, -⟩ := becomes
      exact rfl
  | .super _ _, _, _, becomes => by
      obtain ⟨rfl, -⟩ := becomes
      exact rfl
  | .function _, _, _, becomes => by
      obtain ⟨_, rfl, becomes⟩ := becomes
      exact ⟨_, rfl, Lambda.Becomes.respelled becomes⟩

/-- Expressions that become others are respelled. -/
theorem BecomesExprs.respelled
    : ∀ {exprs exprs' : List BoundExpr} {marks : List Bool},
        BecomesExprs rename marks exprs exprs'
        → RespelledExprs rename (unboundExprs exprs) (unboundExprs exprs')
  | [], _, _, becomes => by
      obtain rfl := becomes
      exact rfl
  | _ :: _, _, _, becomes => by
      obtain ⟨_, _, rfl, first, rest⟩ := becomes
      exact ⟨_, _, rfl, Expr.Becomes.respelled first, BecomesExprs.respelled rest⟩

/-- An optional expression that becomes another is respelled. -/
theorem BecomesOptional.respelled
    : ∀ {value value' : Option BoundExpr} {marks : List Bool},
        BecomesOptional rename marks value value'
        → RespelledOptional rename (unboundOptional value) (unboundOptional value')
  | none, _, _, becomes => by
      obtain rfl := becomes
      exact rfl
  | some _, _, _, becomes => by
      obtain ⟨_, rfl, becomes⟩ := becomes
      exact ⟨_, rfl, Expr.Becomes.respelled becomes⟩

/-- A statement that becomes another is respelled, by induction on the tree. -/
theorem Stmt.Becomes.respelled
    : ∀ {stmt stmt' : BoundStmt} {marks : List Bool},
        stmt.Becomes rename marks stmt' → stmt.unbound.Respelled rename stmt'.unbound
  | .expression _, _, _, becomes => by
      obtain ⟨_, rfl, becomes⟩ := becomes
      exact ⟨_, rfl, Expr.Becomes.respelled becomes⟩
  | .print _, _, _, becomes => by
      obtain ⟨_, rfl, becomes⟩ := becomes
      exact ⟨_, rfl, Expr.Becomes.respelled becomes⟩
  | .printLine _, _, _, becomes => by
      obtain ⟨_, rfl, becomes⟩ := becomes
      exact ⟨_, rfl, BecomesOptional.respelled becomes⟩
  | .variable _ _, _, _, becomes => by
      obtain ⟨_, _, rfl, turns, becomes⟩ := becomes
      exact ⟨_, _, rfl, ⟨_, turns⟩, BecomesOptional.respelled becomes⟩
  | .block _, _, _, becomes => by
      obtain ⟨_, _, rfl, becomes⟩ := becomes
      exact ⟨_, rfl, BecomesStmts.respelled becomes⟩
  | .branch _ _ _, _, _, becomes => by
      obtain ⟨_, _, _, rfl, condition, thenBranch, elseBranch⟩ := becomes
      exact ⟨_, _, _, rfl, Expr.Becomes.respelled condition, Stmt.Becomes.respelled thenBranch,
        BecomesElse.respelled elseBranch⟩
  | .loop _ _, _, _, becomes => by
      obtain ⟨_, _, rfl, condition, body⟩ := becomes
      exact ⟨_, _, rfl, Expr.Becomes.respelled condition, Stmt.Becomes.respelled body⟩
  | .breakLoop _, _, _, becomes => by
      obtain rfl := becomes
      exact rfl
  | .returnValue _ _, _, _, becomes => by
      obtain ⟨_, rfl, becomes⟩ := becomes
      exact ⟨_, rfl, BecomesOptional.respelled becomes⟩
  | .function _ _, _, _, becomes => by
      obtain ⟨_, rfl, -, becomes⟩ := becomes
      exact ⟨_, rfl, Lambda.Becomes.respelled becomes⟩
  | .class _ none _, _, _, becomes => by
      obtain ⟨_, rfl, -, becomes⟩ := becomes
      exact ⟨_, rfl, BecomesMethods.respelled becomes⟩
  | .class _ (some _) _, _, _, becomes => by
      obtain ⟨_, _, rfl, -, turns, becomes⟩ := becomes
      exact ⟨_, _, rfl, turns.mayTurn, BecomesMethods.respelled becomes⟩

/-- Statements that become others are respelled. -/
theorem BecomesStmts.respelled
    : ∀ {stmts stmts' : List BoundStmt} {marks : List Bool},
        BecomesStmts rename marks stmts stmts'
        → RespelledStmts rename (unboundStmts stmts) (unboundStmts stmts')
  | [], _, _, becomes => by
      obtain rfl := becomes
      exact rfl
  | _ :: _, _, _, becomes => by
      obtain ⟨_, _, rfl, first, rest⟩ := becomes
      exact ⟨_, _, rfl, Stmt.Becomes.respelled first, BecomesStmts.respelled rest⟩

/-- A branch that becomes another is respelled. -/
theorem BecomesElse.respelled
    : ∀ {branch branch' : Option BoundStmt} {marks : List Bool},
        BecomesElse rename marks branch branch'
        → RespelledElse rename (unboundElse branch) (unboundElse branch')
  | none, _, _, becomes => by
      obtain rfl := becomes
      exact rfl
  | some _, _, _, becomes => by
      obtain ⟨_, rfl, becomes⟩ := becomes
      exact ⟨_, rfl, Stmt.Becomes.respelled becomes⟩

/-- A function that becomes another is respelled. -/
theorem Lambda.Becomes.respelled
    : ∀ {function function' : BoundLambda} {marks : List Bool},
        function.Becomes rename marks function'
        → function.unbound.Respelled rename function'.unbound
  | .mk _ _, _, _, becomes => by
      obtain ⟨_, _, _, rfl, turns, becomes⟩ := becomes
      exact ⟨_, _, rfl, turns.mayTurnAll, BecomesStmts.respelled becomes⟩

/-- Methods that become others are respelled. -/
theorem BecomesMethods.respelled
    : ∀ {methods methods' : List (Method (Option Nat))} {marks : List Bool},
        BecomesMethods rename marks methods methods'
        → RespelledMethods rename (unboundMethods methods) (unboundMethods methods')
  | [], _, _, becomes => by
      obtain rfl := becomes
      exact rfl
  | .mk _ _ :: _, _, _, becomes => by
      obtain ⟨_, _, rfl, function, rest⟩ := becomes
      exact ⟨_, _, rfl, Lambda.Becomes.respelled function, BecomesMethods.respelled rest⟩
end

end

end Lox
