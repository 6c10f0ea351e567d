import Lox.Binding.Bind

/-! Trees in which a name has another name in some of the scopes.

A scope is told by its place in the tree. In a scope that is selected, variables and parameters of
the old name are declared under the new one, and so are all uses that are bound to that scope. Uses
that are bound elsewhere keep the name, and so do uses that are bound to no scope at all.
-/

namespace Lox

-----
-- What is renamed

/-- One name takes the place of another. Neither is a keyword that a program can look up. -/
structure Renaming where
  old : String
  new : String
  apart : old ≠ new := by decide
  this : "this" ≠ old ∧ "this" ≠ new := by decide
  super : "super" ≠ old ∧ "super" ≠ new := by decide

/-- Some of the scopes of a tree. The place of a scope are the parts that lead to it, the outermost
first. -/
abbrev Selection :=
  List Nat → Bool

/-- The selected scopes of one part of the tree. -/
def Selection.part (selection : Selection) (index : Nat) : Selection :=
  fun place => selection (index :: place)

/-- Whether the scope of the tree itself is selected. -/
def Selection.here (selection : Selection) : Bool :=
  selection []

/-- A single scope. -/
def Selection.single (place : List Nat) : Selection :=
  fun other => other == place

/-- Of the scopes that are open, the innermost first, the one at the distance is selected. -/
def markAt (marks : List Bool) : Option Nat → Bool
  | none => false
  | some distance => marks.getD distance false

namespace Renaming

variable (rename : Renaming)

def token (name : Token) : Token :=
  if name.lexeme = rename.old then { name with lexeme := rename.new } else name

/-- A name that is declared in a scope. -/
def declared (mark : Bool) (name : Token) : Token :=
  if mark then rename.token name else name

/-- A use of a name. -/
def reference (marks : List Bool) (target : Reference (Option Nat)) : Reference (Option Nat) :=
  { target with name := rename.declared (markAt marks target.binding) target.name }

end Renaming

-----
-- Renamed trees

mutual
def Expr.renamed (rename : Renaming) (selection : Selection) (marks : List Bool)
    : BoundExpr → BoundExpr
  | .literal value => .literal value
  | .grouping inner => .grouping (inner.renamed rename selection marks)
  | .unary operator operand => .unary operator (operand.renamed rename selection marks)
  | .binary left operator right =>
      .binary (left.renamed rename (selection.part 0) marks) operator
        (right.renamed rename (selection.part 1) marks)
  | .logical left operator right =>
      .logical (left.renamed rename (selection.part 0) marks) operator
        (right.renamed rename (selection.part 1) marks)
  | .conditional condition thenCase elseCase =>
      .conditional (condition.renamed rename (selection.part 0) marks)
        (thenCase.renamed rename (selection.part 1) marks)
        (elseCase.renamed rename (selection.part 2) marks)
  | .variable target => .variable (rename.reference marks target)
  | .assign target value =>
      .assign (rename.reference marks target) (value.renamed rename selection marks)
  | .call callee paren arguments =>
      .call (callee.renamed rename (selection.part 0) marks) paren
        (renamedExprs rename (selection.part 1) marks arguments)
  | .get object name => .get (object.renamed rename selection marks) name
  | .set object name value =>
      .set (object.renamed rename (selection.part 0) marks) name
        (value.renamed rename (selection.part 1) marks)
  | .this keyword => .this keyword
  | .super keyword method => .super keyword method
  | .function function => .function (function.renamed rename selection marks)

def renamedExprs (rename : Renaming) (selection : Selection) (marks : List Bool)
    : List BoundExpr → List BoundExpr
  | [] => []
  | first :: rest =>
      first.renamed rename (selection.part 0) marks
        :: renamedExprs rename (selection.part 1) marks rest

def renamedOptional (rename : Renaming) (selection : Selection) (marks : List Bool)
    : Option BoundExpr → Option BoundExpr
  | none => none
  | some value => some (value.renamed rename selection marks)

/-- Functions and classes keep their names. -/
def Stmt.renamed (rename : Renaming) (selection : Selection) (marks : List Bool)
    : BoundStmt → BoundStmt
  | .expression value => .expression (value.renamed rename selection marks)
  | .print value => .print (value.renamed rename selection marks)
  | .printLine value => .printLine (renamedOptional rename selection marks value)
  | .variable name initial =>
      .variable (rename.declared (marks.headD false) name)
        (renamedOptional rename selection marks initial)
  | .block statements =>
      .block (renamedStmts rename selection (selection.here :: marks) statements)
  | .branch condition thenBranch elseBranch =>
      .branch (condition.renamed rename (selection.part 0) marks)
        (thenBranch.renamed rename (selection.part 1) marks)
        (renamedElse rename (selection.part 2) marks elseBranch)
  | .loop condition body =>
      .loop (condition.renamed rename (selection.part 0) marks)
        (body.renamed rename (selection.part 1) marks)
  | .breakLoop keyword => .breakLoop keyword
  | .returnValue keyword value =>
      .returnValue keyword (renamedOptional rename selection marks value)
  | .function name function => .function name (function.renamed rename selection marks)
  | .class name none methods =>
      .class name none (renamedMethods rename selection (false :: marks) methods)
  | .class name (some superclass) methods =>
      .class name (some (rename.reference marks superclass))
        (renamedMethods rename selection (false :: false :: marks) methods)

def renamedStmts (rename : Renaming) (selection : Selection) (marks : List Bool)
    : List BoundStmt → List BoundStmt
  | [] => []
  | first :: rest =>
      first.renamed rename (selection.part 0) marks
        :: renamedStmts rename (selection.part 1) marks rest

def renamedElse (rename : Renaming) (selection : Selection) (marks : List Bool)
    : Option BoundStmt → Option BoundStmt
  | none => none
  | some branch => some (branch.renamed rename selection marks)

/-- Parameters and body share one scope. -/
def Lambda.renamed (rename : Renaming) (selection : Selection) (marks : List Bool)
    : BoundLambda → BoundLambda
  | .mk parameters body =>
      .mk (parameters.map (rename.declared selection.here))
        (renamedStmts rename selection (selection.here :: marks) body)

def renamedMethods (rename : Renaming) (selection : Selection) (marks : List Bool)
    : List (Method (Option Nat)) → List (Method (Option Nat))
  | [] => []
  | .mk name function :: rest =>
      .mk name (function.renamed rename (selection.part 0) marks)
        :: renamedMethods rename (selection.part 1) marks rest
end

-----
-- Names of a tree

variable {ρ : Type}

mutual
/-- The name is neither used nor declared. Properties and methods have names of their own. -/
def Expr.Avoids (name : String) : Expr ρ → Prop
  | .literal _ => True
  | .grouping inner => inner.Avoids name
  | .unary _ operand => operand.Avoids name
  | .binary left _ right => left.Avoids name ∧ right.Avoids name
  | .logical left _ right => left.Avoids name ∧ right.Avoids name
  | .conditional condition thenCase elseCase =>
      condition.Avoids name ∧ thenCase.Avoids name ∧ elseCase.Avoids name
  | .variable target => target.name.lexeme ≠ name
  | .assign target value => target.name.lexeme ≠ name ∧ value.Avoids name
  | .call callee _ arguments => callee.Avoids name ∧ AvoidsExprs name arguments
  | .get object _ => object.Avoids name
  | .set object _ value => object.Avoids name ∧ value.Avoids name
  | .this keyword => keyword.name.lexeme ≠ name
  | .super keyword _ => keyword.name.lexeme ≠ name
  | .function function => function.Avoids name

def AvoidsExprs (name : String) : List (Expr ρ) → Prop
  | [] => True
  | first :: rest => first.Avoids name ∧ AvoidsExprs name rest

def AvoidsOptional (name : String) : Option (Expr ρ) → Prop
  | none => True
  | some value => value.Avoids name

def Stmt.Avoids (name : String) : Stmt ρ → Prop
  | .expression value => value.Avoids name
  | .print value => value.Avoids name
  | .printLine value => AvoidsOptional name value
  | .variable declared initial => declared.lexeme ≠ name ∧ AvoidsOptional name initial
  | .block statements => AvoidsStmts name statements
  | .branch condition thenBranch elseBranch =>
      condition.Avoids name ∧ thenBranch.Avoids name ∧ AvoidsElse name elseBranch
  | .loop condition body => condition.Avoids name ∧ body.Avoids name
  | .breakLoop _ => True
  | .returnValue _ value => AvoidsOptional name value
  | .function declared function => declared.lexeme ≠ name ∧ function.Avoids name
  | .class declared superclass methods =>
      declared.lexeme ≠ name
      ∧ (∀ target ∈ superclass, target.name.lexeme ≠ name)
      ∧ AvoidsMethods name methods

def AvoidsStmts (name : String) : List (Stmt ρ) → Prop
  | [] => True
  | first :: rest => first.Avoids name ∧ AvoidsStmts name rest

def AvoidsElse (name : String) : Option (Stmt ρ) → Prop
  | none => True
  | some branch => branch.Avoids name

def Lambda.Avoids (name : String) : Lambda ρ → Prop
  | .mk parameters body =>
      (∀ parameter ∈ parameters, parameter.lexeme ≠ name) ∧ AvoidsStmts name body

def AvoidsMethods (name : String) : List (Method ρ) → Prop
  | [] => True
  | .mk _ function :: rest => function.Avoids name ∧ AvoidsMethods name rest
end

mutual
/-- In the selected scopes neither a function nor a class is declared under the name. -/
def Expr.Plain (name : String) (selection : Selection) : Expr ρ → Prop
  | .literal _ | .variable _ | .this _ | .super .. => True
  | .grouping inner => inner.Plain name selection
  | .unary _ operand => operand.Plain name selection
  | .binary left _ right =>
      left.Plain name (selection.part 0) ∧ right.Plain name (selection.part 1)
  | .logical left _ right =>
      left.Plain name (selection.part 0) ∧ right.Plain name (selection.part 1)
  | .conditional condition thenCase elseCase =>
      condition.Plain name (selection.part 0)
      ∧ thenCase.Plain name (selection.part 1)
      ∧ elseCase.Plain name (selection.part 2)
  | .assign _ value => value.Plain name selection
  | .call callee _ arguments =>
      callee.Plain name (selection.part 0) ∧ PlainExprs name (selection.part 1) arguments
  | .get object _ => object.Plain name selection
  | .set object _ value =>
      object.Plain name (selection.part 0) ∧ value.Plain name (selection.part 1)
  | .function function => function.Plain name selection

def PlainExprs (name : String) (selection : Selection) : List (Expr ρ) → Prop
  | [] => True
  | first :: rest =>
      first.Plain name (selection.part 0) ∧ PlainExprs name (selection.part 1) rest

def PlainOptional (name : String) (selection : Selection) : Option (Expr ρ) → Prop
  | none => True
  | some value => value.Plain name selection

/-- The mark tells whether the scope that the statement stands in is selected. -/
def Stmt.Plain (name : String) (selection : Selection) (mark : Bool) : Stmt ρ → Prop
  | .expression value => value.Plain name selection
  | .print value => value.Plain name selection
  | .printLine value => PlainOptional name selection value
  | .variable _ initial => PlainOptional name selection initial
  | .block statements => PlainStmts name selection selection.here statements
  | .branch condition thenBranch elseBranch =>
      condition.Plain name (selection.part 0)
      ∧ thenBranch.Plain name (selection.part 1) mark
      ∧ PlainElse name (selection.part 2) mark elseBranch
  | .loop condition body =>
      condition.Plain name (selection.part 0) ∧ body.Plain name (selection.part 1) mark
  | .breakLoop _ => True
  | .returnValue _ value => PlainOptional name selection value
  | .function declared function =>
      (mark = true → declared.lexeme ≠ name) ∧ function.Plain name selection
  | .class declared _ methods =>
      (mark = true → declared.lexeme ≠ name) ∧ PlainMethods name selection methods

def PlainStmts (name : String) (selection : Selection) (mark : Bool) : List (Stmt ρ) → Prop
  | [] => True
  | first :: rest =>
      first.Plain name (selection.part 0) mark ∧ PlainStmts name (selection.part 1) mark rest

def PlainElse (name : String) (selection : Selection) (mark : Bool) : Option (Stmt ρ) → Prop
  | none => True
  | some branch => branch.Plain name selection mark

def Lambda.Plain (name : String) (selection : Selection) : Lambda ρ → Prop
  | .mk _ body => PlainStmts name selection selection.here body

def PlainMethods (name : String) (selection : Selection) : List (Method ρ) → Prop
  | [] => True
  | .mk _ function :: rest =>
      function.Plain name (selection.part 0) ∧ PlainMethods name (selection.part 1) rest
end

mutual
def Expr.decideAvoids (name : String) : ∀ expr : Expr ρ, Decidable (expr.Avoids name)
  | .literal _ => .isTrue trivial
  | .grouping inner => inner.decideAvoids name
  | .unary _ operand => operand.decideAvoids name
  | .binary left _ right =>
      @instDecidableAnd _ _ (left.decideAvoids name) (right.decideAvoids name)
  | .logical left _ right =>
      @instDecidableAnd _ _ (left.decideAvoids name) (right.decideAvoids name)
  | .conditional condition thenCase elseCase =>
      @instDecidableAnd _ _ (condition.decideAvoids name)
        (@instDecidableAnd _ _ (thenCase.decideAvoids name) (elseCase.decideAvoids name))
  | .variable target => inferInstanceAs (Decidable (target.name.lexeme ≠ name))
  | .assign target value =>
      @instDecidableAnd _ _ (inferInstanceAs (Decidable (target.name.lexeme ≠ name)))
        (value.decideAvoids name)
  | .call callee _ arguments =>
      @instDecidableAnd _ _ (callee.decideAvoids name) (decideAvoidsExprs name arguments)
  | .get object _ => object.decideAvoids name
  | .set object _ value =>
      @instDecidableAnd _ _ (object.decideAvoids name) (value.decideAvoids name)
  | .this keyword => inferInstanceAs (Decidable (keyword.name.lexeme ≠ name))
  | .super keyword _ => inferInstanceAs (Decidable (keyword.name.lexeme ≠ name))
  | .function function => function.decideAvoids name

def decideAvoidsExprs (name : String) : ∀ exprs : List (Expr ρ), Decidable (AvoidsExprs name exprs)
  | [] => .isTrue trivial
  | first :: rest => @instDecidableAnd _ _ (first.decideAvoids name) (decideAvoidsExprs name rest)

def decideAvoidsOptional (name : String)
    : ∀ value : Option (Expr ρ), Decidable (AvoidsOptional name value)
  | none => .isTrue trivial
  | some value => value.decideAvoids name

def Stmt.decideAvoids (name : String) : ∀ stmt : Stmt ρ, Decidable (stmt.Avoids name)
  | .expression value => value.decideAvoids name
  | .print value => value.decideAvoids name
  | .printLine value => decideAvoidsOptional name value
  | .variable declared initial =>
      @instDecidableAnd _ _ (inferInstanceAs (Decidable (declared.lexeme ≠ name)))
        (decideAvoidsOptional name initial)
  | .block statements => decideAvoidsStmts name statements
  | .branch condition thenBranch elseBranch =>
      @instDecidableAnd _ _ (condition.decideAvoids name)
        (@instDecidableAnd _ _ (thenBranch.decideAvoids name) (decideAvoidsElse name elseBranch))
  | .loop condition body =>
      @instDecidableAnd _ _ (condition.decideAvoids name) (body.decideAvoids name)
  | .breakLoop _ => .isTrue trivial
  | .returnValue _ value => decideAvoidsOptional name value
  | .function declared function =>
      @instDecidableAnd _ _ (inferInstanceAs (Decidable (declared.lexeme ≠ name)))
        (function.decideAvoids name)
  | .class declared superclass methods =>
      @instDecidableAnd _ _ (inferInstanceAs (Decidable (declared.lexeme ≠ name)))
        (@instDecidableAnd _ _
          (inferInstanceAs (Decidable (∀ target ∈ superclass, target.name.lexeme ≠ name)))
          (decideAvoidsMethods name methods))

def decideAvoidsStmts (name : String) : ∀ stmts : List (Stmt ρ), Decidable (AvoidsStmts name stmts)
  | [] => .isTrue trivial
  | first :: rest => @instDecidableAnd _ _ (first.decideAvoids name) (decideAvoidsStmts name rest)

def decideAvoidsElse (name : String)
    : ∀ branch : Option (Stmt ρ), Decidable (AvoidsElse name branch)
  | none => .isTrue trivial
  | some branch => branch.decideAvoids name

def Lambda.decideAvoids (name : String) : ∀ function : Lambda ρ, Decidable (function.Avoids name)
  | .mk parameters body =>
      @instDecidableAnd _ _
        (inferInstanceAs (Decidable (∀ parameter ∈ parameters, parameter.lexeme ≠ name)))
        (decideAvoidsStmts name body)

def decideAvoidsMethods (name : String)
    : ∀ methods : List (Method ρ), Decidable (AvoidsMethods name methods)
  | [] => .isTrue trivial
  | .mk _ function :: rest =>
      @instDecidableAnd _ _ (function.decideAvoids name) (decideAvoidsMethods name rest)
end

instance (name : String) (stmts : List (Stmt ρ)) : Decidable (AvoidsStmts name stmts) :=
  decideAvoidsStmts name stmts

mutual
def Expr.decidePlain (name : String) (selection : Selection)
    : ∀ expr : Expr ρ, Decidable (expr.Plain name selection)
  | .literal _ | .variable _ | .this _ | .super _ _ => .isTrue trivial
  | .grouping inner => inner.decidePlain name selection
  | .unary _ operand => operand.decidePlain name selection
  | .binary left _ right =>
      @instDecidableAnd _ _ (left.decidePlain name _) (right.decidePlain name _)
  | .logical left _ right =>
      @instDecidableAnd _ _ (left.decidePlain name _) (right.decidePlain name _)
  | .conditional condition thenCase elseCase =>
      @instDecidableAnd _ _ (condition.decidePlain name _)
        (@instDecidableAnd _ _ (thenCase.decidePlain name _) (elseCase.decidePlain name _))
  | .assign _ value => value.decidePlain name selection
  | .call callee _ arguments =>
      @instDecidableAnd _ _ (callee.decidePlain name _) (decidePlainExprs name _ arguments)
  | .get object _ => object.decidePlain name selection
  | .set object _ value =>
      @instDecidableAnd _ _ (object.decidePlain name _) (value.decidePlain name _)
  | .function function => function.decidePlain name selection

def decidePlainExprs (name : String) (selection : Selection)
    : ∀ exprs : List (Expr ρ), Decidable (PlainExprs name selection exprs)
  | [] => .isTrue trivial
  | first :: rest =>
      @instDecidableAnd _ _ (first.decidePlain name _) (decidePlainExprs name _ rest)

def decidePlainOptional (name : String) (selection : Selection)
    : ∀ value : Option (Expr ρ), Decidable (PlainOptional name selection value)
  | none => .isTrue trivial
  | some value => value.decidePlain name selection

def Stmt.decidePlain (name : String) (selection : Selection) (mark : Bool)
    : ∀ stmt : Stmt ρ, Decidable (stmt.Plain name selection mark)
  | .expression value => value.decidePlain name selection
  | .print value => value.decidePlain name selection
  | .printLine value => decidePlainOptional name selection value
  | .variable _ initial => decidePlainOptional name selection initial
  | .block statements => decidePlainStmts name selection _ statements
  | .branch condition thenBranch elseBranch =>
      @instDecidableAnd _ _ (condition.decidePlain name _)
        (@instDecidableAnd _ _ (thenBranch.decidePlain name _ mark)
          (decidePlainElse name _ mark elseBranch))
  | .loop condition body =>
      @instDecidableAnd _ _ (condition.decidePlain name _) (body.decidePlain name _ mark)
  | .breakLoop _ => .isTrue trivial
  | .returnValue _ value => decidePlainOptional name selection value
  | .function declared function =>
      @instDecidableAnd _ _ (inferInstanceAs (Decidable (mark = true → declared.lexeme ≠ name)))
        (function.decidePlain name selection)
  | .class declared _ methods =>
      @instDecidableAnd _ _ (inferInstanceAs (Decidable (mark = true → declared.lexeme ≠ name)))
        (decidePlainMethods name selection methods)

def decidePlainStmts (name : String) (selection : Selection) (mark : Bool)
    : ∀ stmts : List (Stmt ρ), Decidable (PlainStmts name selection mark stmts)
  | [] => .isTrue trivial
  | first :: rest =>
      @instDecidableAnd _ _ (first.decidePlain name _ mark) (decidePlainStmts name _ mark rest)

def decidePlainElse (name : String) (selection : Selection) (mark : Bool)
    : ∀ branch : Option (Stmt ρ), Decidable (PlainElse name selection mark branch)
  | none => .isTrue trivial
  | some branch => branch.decidePlain name selection mark

def Lambda.decidePlain (name : String) (selection : Selection)
    : ∀ function : Lambda ρ, Decidable (function.Plain name selection)
  | .mk _ body => decidePlainStmts name selection _ body

def decidePlainMethods (name : String) (selection : Selection)
    : ∀ methods : List (Method ρ), Decidable (PlainMethods name selection methods)
  | [] => .isTrue trivial
  | .mk _ function :: rest =>
      @instDecidableAnd _ _ (function.decidePlain name _) (decidePlainMethods name _ rest)
end

instance (name : String) (selection : Selection) (mark : Bool) (stmts : List (Stmt ρ))
    : Decidable (PlainStmts name selection mark stmts) :=
  decidePlainStmts name selection mark stmts

-----
-- Trees without their bindings

mutual
/-- The tree as it was read. -/
def Expr.unbound : Expr ρ → Expr Unit
  | .literal value => .literal value
  | .grouping inner => .grouping inner.unbound
  | .unary operator operand => .unary operator operand.unbound
  | .binary left operator right => .binary left.unbound operator right.unbound
  | .logical left operator right => .logical left.unbound operator right.unbound
  | .conditional condition thenCase elseCase =>
      .conditional condition.unbound thenCase.unbound elseCase.unbound
  | .variable target => .variable { name := target.name, binding := () }
  | .assign target value => .assign { name := target.name, binding := () } value.unbound
  | .call callee paren arguments => .call callee.unbound paren (unboundExprs arguments)
  | .get object name => .get object.unbound name
  | .set object name value => .set object.unbound name value.unbound
  | .this keyword => .this { name := keyword.name, binding := () }
  | .super keyword method => .super { name := keyword.name, binding := () } method
  | .function function => .function function.unbound

def unboundExprs : List (Expr ρ) → List (Expr Unit)
  | [] => []
  | first :: rest => first.unbound :: unboundExprs rest

def unboundOptional : Option (Expr ρ) → Option (Expr Unit)
  | none => none
  | some value => some value.unbound

def Stmt.unbound : Stmt ρ → Stmt Unit
  | .expression value => .expression value.unbound
  | .print value => .print value.unbound
  | .printLine value => .printLine (unboundOptional value)
  | .variable name initial => .variable name (unboundOptional initial)
  | .block statements => .block (unboundStmts statements)
  | .branch condition thenBranch elseBranch =>
      .branch condition.unbound thenBranch.unbound (unboundElse elseBranch)
  | .loop condition body => .loop condition.unbound body.unbound
  | .breakLoop keyword => .breakLoop keyword
  | .returnValue keyword value => .returnValue keyword (unboundOptional value)
  | .function name function => .function name function.unbound
  | .class name superclass methods =>
      .class name (superclass.map fun target => { name := target.name, binding := () })
        (unboundMethods methods)

def unboundStmts : List (Stmt ρ) → List (Stmt Unit)
  | [] => []
  | first :: rest => first.unbound :: unboundStmts rest

def unboundElse : Option (Stmt ρ) → Option (Stmt Unit)
  | none => none
  | some branch => some branch.unbound

def Lambda.unbound : Lambda ρ → Lambda Unit
  | .mk parameters body => .mk parameters (unboundStmts body)

def unboundMethods : List (Method ρ) → List (Method Unit)
  | [] => []
  | .mk name function :: rest => .mk name function.unbound :: unboundMethods rest
end

section

variable {name : String}

mutual
/-- Bindings are no names. -/
theorem Expr.avoids_unbound : ∀ expr : Expr ρ, expr.unbound.Avoids name ↔ expr.Avoids name
  | .literal _ => .rfl
  | .grouping inner => inner.avoids_unbound
  | .unary _ operand => operand.avoids_unbound
  | .binary left _ right => and_congr left.avoids_unbound right.avoids_unbound
  | .logical left _ right => and_congr left.avoids_unbound right.avoids_unbound
  | .conditional condition thenCase elseCase =>
      and_congr condition.avoids_unbound
        (and_congr thenCase.avoids_unbound elseCase.avoids_unbound)
  | .variable _ => .rfl
  | .assign _ value => and_congr .rfl value.avoids_unbound
  | .call callee _ arguments => and_congr callee.avoids_unbound (avoidsExprs_unbound arguments)
  | .get object _ => object.avoids_unbound
  | .set object _ value => and_congr object.avoids_unbound value.avoids_unbound
  | .this _ => .rfl
  | .super _ _ => .rfl
  | .function function => function.avoids_unbound

/-- Expressions avoid a name with their distances or without. -/
theorem avoidsExprs_unbound
    : ∀ exprs : List (Expr ρ), AvoidsExprs name (unboundExprs exprs) ↔ AvoidsExprs name exprs
  | [] => .rfl
  | first :: rest => and_congr first.avoids_unbound (avoidsExprs_unbound rest)

/-- An optional expression avoids a name with its distances or without. -/
theorem avoidsOptional_unbound
    : ∀ value : Option (Expr ρ),
        AvoidsOptional name (unboundOptional value) ↔ AvoidsOptional name value
  | none => .rfl
  | some value => value.avoids_unbound

/-- A statement avoids a name with its distances or without, by induction on the tree. -/
theorem Stmt.avoids_unbound : ∀ stmt : Stmt ρ, stmt.unbound.Avoids name ↔ stmt.Avoids name
  | .expression value => value.avoids_unbound
  | .print value => value.avoids_unbound
  | .printLine value => avoidsOptional_unbound value
  | .variable _ initial => and_congr .rfl (avoidsOptional_unbound initial)
  | .block statements => avoidsStmts_unbound statements
  | .branch condition thenBranch elseBranch =>
      and_congr condition.avoids_unbound
        (and_congr thenBranch.avoids_unbound (avoidsElse_unbound elseBranch))
  | .loop condition body => and_congr condition.avoids_unbound body.avoids_unbound
  | .breakLoop _ => .rfl
  | .returnValue _ value => avoidsOptional_unbound value
  | .function _ function => and_congr .rfl function.avoids_unbound
  | .class _ none methods =>
      and_congr .rfl (and_congr (by simp) (avoidsMethods_unbound methods))
  | .class _ (some superclass) methods =>
      and_congr .rfl (and_congr (by simp) (avoidsMethods_unbound methods))

/-- Statements avoid a name with their distances or without. -/
theorem avoidsStmts_unbound
    : ∀ stmts : List (Stmt ρ), AvoidsStmts name (unboundStmts stmts) ↔ AvoidsStmts name stmts
  | [] => .rfl
  | first :: rest => and_congr first.avoids_unbound (avoidsStmts_unbound rest)

/-- A branch avoids a name with its distances or without. -/
theorem avoidsElse_unbound
    : ∀ branch : Option (Stmt ρ), AvoidsElse name (unboundElse branch) ↔ AvoidsElse name branch
  | none => .rfl
  | some branch => branch.avoids_unbound

/-- A function avoids a name with its distances or without. -/
theorem Lambda.avoids_unbound
    : ∀ function : Lambda ρ, function.unbound.Avoids name ↔ function.Avoids name
  | .mk _ body => and_congr .rfl (avoidsStmts_unbound body)

/-- Methods avoid a name with their distances or without. -/
theorem avoidsMethods_unbound
    : ∀ methods : List (Method ρ),
        AvoidsMethods name (unboundMethods methods) ↔ AvoidsMethods name methods
  | [] => .rfl
  | .mk _ function :: rest => and_congr function.avoids_unbound (avoidsMethods_unbound rest)
end

end

end Lox
