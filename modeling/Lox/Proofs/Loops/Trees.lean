import Lox.Binding.Bind

/-! One tree becomes another when a scope that holds no names is left out.

A scope that never holds a name is hollow. Whatever is bound to a scope further out is one scope
nearer without it, and nothing else changes.
-/

namespace Lox

-----
-- Hollow scopes

/-- How far out the hollow scope lies, if there is one among the scopes around a place. -/
abbrev Gap :=
  Option Nat

namespace Gap

/-- The place in a new scope. -/
def inner (gap : Gap) : Gap :=
  gap.map (· + 1)

/-- The place one scope further out, where that is not the hollow scope itself. -/
def outer (gap : Gap) : Gap :=
  gap.map (· - 1)

/-- The distance that a scope lies at, from the distance that it lies at without the hollow one. -/
def across : Gap → Nat → Nat
  | none, distance => distance
  | some hollow, distance => if distance < hollow then distance else distance + 1

/-- Leaving an inner scope moves the gap back. -/
@[simp]
theorem inner_outer (gap : Gap) : gap.inner.outer = gap := by
  cases gap <;> rfl

/-- Without a gap none is the current scope. -/
theorem none_ne_zero : (none : Gap) ≠ some 0 :=
  (Option.some_ne_none 0).symm

/-- In an inner scope the gap is not the current scope. -/
theorem inner_ne_zero (gap : Gap) : gap.inner ≠ some 0 := by
  cases gap <;> simp [inner]

/-- The current inner scope is in front of the gap. -/
@[simp]
theorem across_inner_zero (gap : Gap) : gap.inner.across 0 = 0 := by
  cases gap with
  | none => rfl
  | some hollow => simp [inner, across]

/-- One scope further out is one further out across the gap. -/
@[simp]
theorem across_inner_succ (gap : Gap) (distance : Nat)
    : gap.inner.across (distance + 1) = gap.across distance + 1 := by
  cases gap with
  | none => rfl
  | some hollow =>
      change (if distance + 1 < hollow + 1 then _ else _) = (if distance < hollow then _ else _) + 1
      split <;> split <;> omega

/-- A place outside of the hollow scope is the inside of some place. -/
theorem outer_inner {gap : Gap} (real : gap ≠ some 0) : gap.outer.inner = gap := by
  cases gap with
  | none => rfl
  | some hollow =>
      cases hollow with
      | zero => exact absurd rfl real
      | succ hollow => rfl

/-- Without a gap distances stay. -/
theorem across_none (binding : Option Nat) : binding.map (across none) = binding := by
  cases binding <;> rfl

/-- Two scopes side by side are so in both trees, unless the hollow one lies between them. -/
theorem across_pred {gap : Gap} {distance : Nat} (apart : gap ≠ some distance)
    : gap.across distance - 1 = gap.across (distance - 1) := by
  cases gap with
  | none => rfl
  | some hollow =>
      have apart : hollow ≠ distance := fun same => apart (congrArg some same)
      simp only [across]
      split <;> split <;> omega

end Gap

/-- The use of a name in the tree without the hollow scope. -/
structure Reference.Omits (gap : Gap) (target target' : Reference (Option Nat)) : Prop where
  name : target'.name = target.name
  binding : target.binding = target'.binding.map gap.across

/-- Without a gap a reference stays. -/
theorem Reference.omits_self (target : Reference (Option Nat)) : target.Omits none target :=
  ⟨rfl, (Gap.across_none _).symm⟩

-----
-- Trees

mutual
/-- The second expression is the first one where the hollow scope is left out. The scope that
`this` stands in lies just inside of that of `super`, so the hollow one is not between them. -/
def Expr.Omits (gap : Gap) : BoundExpr → BoundExpr → Prop
  | .literal value, expr => expr = .literal value
  | .grouping inner, expr => ∃ inner', expr = .grouping inner' ∧ inner.Omits gap inner'
  | .unary operator operand, expr =>
      ∃ operand', expr = .unary operator operand' ∧ operand.Omits gap operand'
  | .binary left operator right, expr =>
      ∃ left' right',
        expr = .binary left' operator right' ∧ left.Omits gap left' ∧ right.Omits gap right'
  | .logical left operator right, expr =>
      ∃ left' right',
        expr = .logical left' operator right' ∧ left.Omits gap left' ∧ right.Omits gap right'
  | .conditional condition thenCase elseCase, expr =>
      ∃ condition' thenCase' elseCase',
        expr = .conditional condition' thenCase' elseCase'
        ∧ condition.Omits gap condition'
        ∧ thenCase.Omits gap thenCase'
        ∧ elseCase.Omits gap elseCase'
  | .variable target, expr => ∃ target', expr = .variable target' ∧ target.Omits gap target'
  | .assign target value, expr =>
      ∃ target' value',
        expr = .assign target' value' ∧ target.Omits gap target' ∧ value.Omits gap value'
  | .call callee paren arguments, expr =>
      ∃ callee' arguments',
        expr = .call callee' paren arguments'
        ∧ callee.Omits gap callee'
        ∧ OmitsExprs gap arguments arguments'
  | .get object name, expr => ∃ object', expr = .get object' name ∧ object.Omits gap object'
  | .set object name value, expr =>
      ∃ object' value',
        expr = .set object' name value' ∧ object.Omits gap object' ∧ value.Omits gap value'
  | .this keyword, expr => ∃ keyword', expr = .this keyword' ∧ keyword.Omits gap keyword'
  | .super keyword method, expr =>
      ∃ keyword',
        expr = .super keyword' method
        ∧ keyword.Omits gap keyword'
        ∧ ∀ distance, keyword'.binding = some distance → gap ≠ some distance
  | .function function, expr =>
      ∃ function', expr = .function function' ∧ function.Omits gap function'
termination_by structural tree _ => tree

def OmitsExprs (gap : Gap) : List BoundExpr → List BoundExpr → Prop
  | [], exprs => exprs = []
  | first :: rest, exprs =>
      ∃ first' rest', exprs = first' :: rest' ∧ first.Omits gap first' ∧ OmitsExprs gap rest rest'
termination_by structural tree _ => tree

def OmitsOptional (gap : Gap) : Option BoundExpr → Option BoundExpr → Prop
  | none, value => value = none
  | some inner, value => ∃ inner', value = some inner' ∧ inner.Omits gap inner'
termination_by structural tree _ => tree

/-- The hollow scope has no declarations of its own. -/
def Stmt.Omits (gap : Gap) : BoundStmt → BoundStmt → Prop
  | .expression value, stmt => ∃ value', stmt = .expression value' ∧ value.Omits gap value'
  | .print value, stmt => ∃ value', stmt = .print value' ∧ value.Omits gap value'
  | .printLine value, stmt => ∃ value', stmt = .printLine value' ∧ OmitsOptional gap value value'
  | .variable name initial, stmt =>
      gap ≠ some 0 ∧ ∃ initial', stmt = .variable name initial' ∧ OmitsOptional gap initial initial'
  | .block statements, stmt =>
      ∃ statements', stmt = .block statements' ∧ OmitsStmts gap.inner statements statements'
  | .branch condition thenBranch elseBranch, stmt =>
      ∃ condition' thenBranch' elseBranch',
        stmt = .branch condition' thenBranch' elseBranch'
        ∧ condition.Omits gap condition'
        ∧ thenBranch.Omits gap thenBranch'
        ∧ OmitsElse gap elseBranch elseBranch'
  | .loop condition body, stmt =>
      ∃ condition' body',
        stmt = .loop condition' body' ∧ condition.Omits gap condition' ∧ body.Omits gap body'
  | .breakLoop keyword, stmt => stmt = .breakLoop keyword
  | .returnValue keyword value, stmt =>
      ∃ value', stmt = .returnValue keyword value' ∧ OmitsOptional gap value value'
  | .function name function, stmt =>
      gap ≠ some 0 ∧ ∃ function', stmt = .function name function' ∧ function.Omits gap function'
  | .class name none methods, stmt =>
      gap ≠ some 0
      ∧ ∃ methods', stmt = .class name none methods' ∧ OmitsMethods gap.inner methods methods'
  | .class name (some superclass) methods, stmt =>
      gap ≠ some 0
      ∧ ∃ superclass' methods',
          stmt = .class name (some superclass') methods'
          ∧ superclass.Omits gap superclass'
          ∧ OmitsMethods gap.inner.inner methods methods'
termination_by structural tree _ => tree

def OmitsStmts (gap : Gap) : List BoundStmt → List BoundStmt → Prop
  | [], stmts => stmts = []
  | first :: rest, stmts =>
      ∃ first' rest', stmts = first' :: rest' ∧ first.Omits gap first' ∧ OmitsStmts gap rest rest'
termination_by structural tree _ => tree

def OmitsElse (gap : Gap) : Option BoundStmt → Option BoundStmt → Prop
  | none, branch => branch = none
  | some inner, branch => ∃ inner', branch = some inner' ∧ inner.Omits gap inner'
termination_by structural tree _ => tree

def Lambda.Omits (gap : Gap) : BoundLambda → BoundLambda → Prop
  | .mk parameters body, function =>
      ∃ body', function = .mk parameters body' ∧ OmitsStmts gap.inner body body'
termination_by structural tree _ => tree

def OmitsMethods (gap : Gap)
    : List (Method (Option Nat)) → List (Method (Option Nat)) → Prop
  | [], methods => methods = []
  | .mk name function :: rest, methods =>
      ∃ function' rest',
        methods = .mk name function' :: rest'
        ∧ function.Omits gap function'
        ∧ OmitsMethods gap rest rest'
termination_by structural tree _ => tree
end

/-- Functions apart by the gap have the same parameters, and bodies apart by it one scope further
in. -/
theorem Lambda.Omits.parts {gap : Gap} {function function' : BoundLambda}
    (omits : function.Omits gap function')
    : function'.parameters = function.parameters
      ∧ OmitsStmts gap.inner function.body function'.body := by
  cases function
  obtain ⟨body', rfl, omits⟩ := omits
  exact ⟨rfl, omits⟩

-----
-- Trees without a hollow scope around them

mutual
/-- Without a gap an expression stays, by induction on the tree. -/
theorem Expr.omits_self : ∀ expr : BoundExpr, expr.Omits none expr
  | .literal _ => rfl
  | .grouping inner => ⟨_, rfl, inner.omits_self⟩
  | .unary _ operand => ⟨_, rfl, operand.omits_self⟩
  | .binary left _ right => ⟨_, _, rfl, left.omits_self, right.omits_self⟩
  | .logical left _ right => ⟨_, _, rfl, left.omits_self, right.omits_self⟩
  | .conditional condition thenCase elseCase =>
      ⟨_, _, _, rfl, condition.omits_self, thenCase.omits_self, elseCase.omits_self⟩
  | .variable target => ⟨_, rfl, target.omits_self⟩
  | .assign target value => ⟨_, _, rfl, target.omits_self, value.omits_self⟩
  | .call callee _ arguments => ⟨_, _, rfl, callee.omits_self, omitsExprs_self arguments⟩
  | .get object _ => ⟨_, rfl, object.omits_self⟩
  | .set object _ value => ⟨_, _, rfl, object.omits_self, value.omits_self⟩
  | .this keyword => ⟨_, rfl, keyword.omits_self⟩
  | .super keyword _ =>
      ⟨_, rfl, keyword.omits_self, fun hollow _ => (Option.some_ne_none hollow).symm⟩
  | .function function => ⟨_, rfl, function.omits_self⟩

/-- Without a gap expressions in a row stay. -/
theorem omitsExprs_self : ∀ exprs : List BoundExpr, OmitsExprs none exprs exprs
  | [] => rfl
  | first :: rest => ⟨_, _, rfl, first.omits_self, omitsExprs_self rest⟩

/-- Without a gap an optional expression stays. -/
theorem omitsOptional_self : ∀ value : Option BoundExpr, OmitsOptional none value value
  | none => rfl
  | some value => ⟨_, rfl, value.omits_self⟩

/-- Without a gap a statement stays, by induction on the tree. -/
theorem Stmt.omits_self : ∀ stmt : BoundStmt, stmt.Omits none stmt
  | .expression value => ⟨_, rfl, value.omits_self⟩
  | .print value => ⟨_, rfl, value.omits_self⟩
  | .printLine value => ⟨_, rfl, omitsOptional_self value⟩
  | .variable _ initial => ⟨nofun, _, rfl, omitsOptional_self initial⟩
  | .block statements => ⟨_, rfl, omitsStmts_self statements⟩
  | .branch condition thenBranch elseBranch =>
      ⟨_, _, _, rfl, condition.omits_self, thenBranch.omits_self, omitsElse_self elseBranch⟩
  | .loop condition body => ⟨_, _, rfl, condition.omits_self, body.omits_self⟩
  | .breakLoop _ => rfl
  | .returnValue _ value => ⟨_, rfl, omitsOptional_self value⟩
  | .function _ function => ⟨nofun, _, rfl, function.omits_self⟩
  | .class _ none methods => ⟨nofun, _, rfl, omitsMethods_self methods⟩
  | .class _ (some superclass) methods =>
      ⟨nofun, _, _, rfl, superclass.omits_self, omitsMethods_self methods⟩

/-- Without a gap statements in a row stay. -/
theorem omitsStmts_self : ∀ stmts : List BoundStmt, OmitsStmts none stmts stmts
  | [] => rfl
  | first :: rest => ⟨_, _, rfl, first.omits_self, omitsStmts_self rest⟩

/-- Without a gap a branch that may be missing stays. -/
theorem omitsElse_self : ∀ branch : Option BoundStmt, OmitsElse none branch branch
  | none => rfl
  | some branch => ⟨_, rfl, branch.omits_self⟩

/-- Without a gap a function stays. -/
theorem Lambda.omits_self : ∀ function : BoundLambda, function.Omits none function
  | .mk _ body => ⟨_, rfl, omitsStmts_self body⟩

/-- Without a gap methods in a row stay. -/
theorem omitsMethods_self
    : ∀ methods : List (Method (Option Nat)), OmitsMethods none methods methods
  | [] => rfl
  | .mk _ function :: rest => ⟨_, _, rfl, function.omits_self, omitsMethods_self rest⟩
end

end Lox
