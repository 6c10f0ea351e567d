import Lox.Proofs.Binding.Proper
import Lox.Proofs.Renaming.Trees

/-! One tree becomes another when names of some of its scopes are replaced.

Every scope may be one in which the name is replaced, or not. A tree becomes the tree that is renamed
in selected scopes, and where no open scope is affected it becomes itself.
-/

namespace Lox

-----
-- Names

namespace Renaming

variable (rename : Renaming)

/-- What a name of a scope becomes. In an affected scope the new name stands for the old one, and
for nothing else. -/
inductive Turns : Bool → String → String → Prop
  | kept {mark : Bool} {name : String} (apart : mark = true → name ≠ rename.old ∧ name ≠ rename.new)
    : Turns mark name name
  | replaced : Turns true rename.old rename.new

/-- What a token becomes. -/
inductive TurnsToken : Bool → Token → Token → Prop
  | intro {mark : Bool} {name : Token} {lexeme : String}
    (turns : rename.Turns mark name.lexeme lexeme)
    : TurnsToken mark name { name with lexeme }

/-- What a use of a name becomes. It stays bound to its scope. -/
inductive TurnsReference (marks : List Bool)
    : Reference (Option Nat) → Reference (Option Nat) → Prop
  | intro {name name' : Token} {binding : Option Nat}
    (turns : rename.TurnsToken (markAt marks binding) name name')
    : TurnsReference marks { name, binding } { name := name', binding }

/-- What a list of names becomes. -/
inductive TurnsTokens (mark : Bool) : List Token → List Token → Prop
  | nil : TurnsTokens mark [] []
  | cons {first first' : Token} {rest rest' : List Token}
    (head : rename.TurnsToken mark first first') (tail : TurnsTokens mark rest rest')
    : TurnsTokens mark (first :: rest) (first' :: rest')

variable {rename : Renaming}

/-- Different names become different names, and equal names equal names. -/
theorem Turns.eq_iff {mark : Bool} {name name' other other' : String}
    (turns : rename.Turns mark name name') (turnsOther : rename.Turns mark other other')
    : other' = name' ↔ other = name := by
  cases turns with
  | kept apart =>
      cases turnsOther with
      | kept _ => exact .rfl
      | replaced =>
          obtain ⟨notOld, notNew⟩ := apart rfl
          exact ⟨fun same => absurd same.symm notNew, fun same => absurd same.symm notOld⟩
  | replaced =>
      cases turnsOther with
      | kept apart =>
          obtain ⟨notOld, notNew⟩ := apart rfl
          exact ⟨fun same => absurd same notNew, fun same => absurd same notOld⟩
      | replaced => exact ⟨fun _ => rfl, fun _ => rfl⟩

/-- Outside of the affected scopes, names stay as they are. -/
theorem Turns.unmarked (name : String) : rename.Turns false name name :=
  .kept fun marked => absurd marked Bool.false_ne_true

/-- A name of another variable stays. -/
theorem Turns.eq_of_unmarked {name name' : String} (turns : rename.Turns false name name')
    : name' = name := by
  cases turns
  rfl

/-- A token that is not marked turns into itself. -/
theorem TurnsToken.unmarked (name : Token) : rename.TurnsToken false name name :=
  .intro (.unmarked name.lexeme)

/-- Where a token turns into another its spelling does. -/
theorem TurnsToken.lexeme {mark : Bool} {name name' : Token}
    (turns : rename.TurnsToken mark name name')
    : rename.Turns mark name.lexeme name'.lexeme := by
  cases turns
  assumption

/-- A token that is not marked only turns into itself. -/
theorem TurnsToken.eq_of_unmarked {name name' : Token} (turns : rename.TurnsToken false name name')
    : name' = name := by
  obtain ⟨turns⟩ := turns
  rw [turns.eq_of_unmarked]

/-- A declared name, and a use of a name, that may have the old name but not the new one. -/
theorem turnsToken_declared (mark : Bool) {name : Token} (fresh : name.lexeme ≠ rename.new)
    : rename.TurnsToken mark name (rename.declared mark name) := by
  cases mark with
  | false => exact .unmarked name
  | true =>
      change rename.TurnsToken true name (rename.token name)
      unfold Renaming.token
      split
      · next same => exact .intro (same ▸ .replaced)
      · next apart => exact .intro (.kept fun _ => ⟨apart, fresh⟩)

/-- The renaming of a reference is what it turns into, if the new name is fresh. -/
theorem turnsReference (marks : List Bool) {target : Reference (Option Nat)}
    (fresh : target.name.lexeme ≠ rename.new)
    : rename.TurnsReference marks target (rename.reference marks target) :=
  .intro (turnsToken_declared _ fresh)

/-- The renaming of declared names is what they turn into, if the new name is fresh. -/
theorem turnsTokens_declared (mark : Bool) {names : List Token}
    (fresh : ∀ name ∈ names, name.lexeme ≠ rename.new)
    : rename.TurnsTokens mark names (names.map (rename.declared mark)) := by
  induction names with
  | nil => exact .nil
  | cons first rest ih =>
      obtain ⟨head, tail⟩ := List.forall_mem_cons.1 fresh
      exact .cons (turnsToken_declared mark head) (ih tail)

/-- As many names are there as before. -/
theorem TurnsTokens.length {mark : Bool} {names names' : List Token}
    (turns : rename.TurnsTokens mark names names')
    : names'.length = names.length := by
  induction turns with
  | nil => rfl
  | cons _ _ ih => exact congrArg (· + 1) ih

/-- Names that are not marked turn into themselves. -/
theorem TurnsTokens.unmarked (names : List Token) : rename.TurnsTokens false names names := by
  induction names with
  | nil => exact .nil
  | cons first rest ih => exact .cons (.unmarked first) ih

end Renaming

-----
-- Trees

mutual
/-- The marks tell which of the open scopes are affected, the innermost first. -/
def Expr.Becomes (rename : Renaming) (marks : List Bool) : BoundExpr → BoundExpr → Prop
  | .literal value, expr => expr = .literal value
  | .grouping inner, expr =>
      ∃ inner', expr = .grouping inner' ∧ inner.Becomes rename marks inner'
  | .unary operator operand, expr =>
      ∃ operand', expr = .unary operator operand' ∧ operand.Becomes rename marks operand'
  | .binary left operator right, expr =>
      ∃ left' right',
        expr = .binary left' operator right'
        ∧ left.Becomes rename marks left'
        ∧ right.Becomes rename marks right'
  | .logical left operator right, expr =>
      ∃ left' right',
        expr = .logical left' operator right'
        ∧ left.Becomes rename marks left'
        ∧ right.Becomes rename marks right'
  | .conditional condition thenCase elseCase, expr =>
      ∃ condition' thenCase' elseCase',
        expr = .conditional condition' thenCase' elseCase'
        ∧ condition.Becomes rename marks condition'
        ∧ thenCase.Becomes rename marks thenCase'
        ∧ elseCase.Becomes rename marks elseCase'
  | .variable target, expr =>
      ∃ target', expr = .variable target' ∧ rename.TurnsReference marks target target'
  | .assign target value, expr =>
      ∃ target' value',
        expr = .assign target' value'
        ∧ rename.TurnsReference marks target target'
        ∧ value.Becomes rename marks value'
  | .call callee paren arguments, expr =>
      ∃ callee' arguments',
        expr = .call callee' paren arguments'
        ∧ callee.Becomes rename marks callee'
        ∧ BecomesExprs rename marks arguments arguments'
  | .get object name, expr =>
      ∃ object', expr = .get object' name ∧ object.Becomes rename marks object'
  | .set object name value, expr =>
      ∃ object' value',
        expr = .set object' name value'
        ∧ object.Becomes rename marks object'
        ∧ value.Becomes rename marks value'
  | .this keyword, expr =>
      expr = .this keyword ∧ rename.TurnsReference marks keyword keyword
  | .super keyword method, expr =>
      expr = .super keyword method ∧ rename.TurnsReference marks keyword keyword
  | .function function, expr =>
      ∃ function', expr = .function function' ∧ function.Becomes rename marks function'
termination_by structural tree _ => tree

def BecomesExprs (rename : Renaming) (marks : List Bool)
    : List BoundExpr → List BoundExpr → Prop
  | [], exprs => exprs = []
  | first :: rest, exprs =>
      ∃ first' rest',
        exprs = first' :: rest'
        ∧ first.Becomes rename marks first'
        ∧ BecomesExprs rename marks rest rest'
termination_by structural tree _ => tree

def BecomesOptional (rename : Renaming) (marks : List Bool)
    : Option BoundExpr → Option BoundExpr → Prop
  | none, value => value = none
  | some inner, value => ∃ inner', value = some inner' ∧ inner.Becomes rename marks inner'
termination_by structural tree _ => tree

/-- Functions and classes keep their names, so these must not be the names in question. -/
def Stmt.Becomes (rename : Renaming) (marks : List Bool) : BoundStmt → BoundStmt → Prop
  | .expression value, stmt =>
      ∃ value', stmt = .expression value' ∧ value.Becomes rename marks value'
  | .print value, stmt => ∃ value', stmt = .print value' ∧ value.Becomes rename marks value'
  | .printLine value, stmt =>
      ∃ value', stmt = .printLine value' ∧ BecomesOptional rename marks value value'
  | .variable name initial, stmt =>
      ∃ name' initial',
        stmt = .variable name' initial'
        ∧ rename.TurnsToken (marks.headD false) name name'
        ∧ BecomesOptional rename marks initial initial'
  | .block statements, stmt =>
      ∃ mark statements',
        stmt = .block statements' ∧ BecomesStmts rename (mark :: marks) statements statements'
  | .branch condition thenBranch elseBranch, stmt =>
      ∃ condition' thenBranch' elseBranch',
        stmt = .branch condition' thenBranch' elseBranch'
        ∧ condition.Becomes rename marks condition'
        ∧ thenBranch.Becomes rename marks thenBranch'
        ∧ BecomesElse rename marks elseBranch elseBranch'
  | .loop condition body, stmt =>
      ∃ condition' body',
        stmt = .loop condition' body'
        ∧ condition.Becomes rename marks condition'
        ∧ body.Becomes rename marks body'
  | .breakLoop keyword, stmt => stmt = .breakLoop keyword
  | .returnValue keyword value, stmt =>
      ∃ value', stmt = .returnValue keyword value' ∧ BecomesOptional rename marks value value'
  | .function name function, stmt =>
      ∃ function',
        stmt = .function name function'
        ∧ rename.TurnsToken (marks.headD false) name name
        ∧ function.Becomes rename marks function'
  | .class name none methods, stmt =>
      ∃ methods',
        stmt = .class name none methods'
        ∧ rename.TurnsToken (marks.headD false) name name
        ∧ BecomesMethods rename (false :: marks) methods methods'
  | .class name (some superclass) methods, stmt =>
      ∃ superclass' methods',
        stmt = .class name (some superclass') methods'
        ∧ rename.TurnsToken (marks.headD false) name name
        ∧ rename.TurnsReference marks superclass superclass'
        ∧ BecomesMethods rename (false :: false :: marks) methods methods'
termination_by structural tree _ => tree

def BecomesStmts (rename : Renaming) (marks : List Bool)
    : List BoundStmt → List BoundStmt → Prop
  | [], stmts => stmts = []
  | first :: rest, stmts =>
      ∃ first' rest',
        stmts = first' :: rest'
        ∧ first.Becomes rename marks first'
        ∧ BecomesStmts rename marks rest rest'
termination_by structural tree _ => tree

def BecomesElse (rename : Renaming) (marks : List Bool)
    : Option BoundStmt → Option BoundStmt → Prop
  | none, branch => branch = none
  | some inner, branch => ∃ inner', branch = some inner' ∧ inner.Becomes rename marks inner'
termination_by structural tree _ => tree

def Lambda.Becomes (rename : Renaming) (marks : List Bool) : BoundLambda → BoundLambda → Prop
  | .mk parameters body, function =>
      ∃ mark parameters' body',
        function = .mk parameters' body'
        ∧ rename.TurnsTokens mark parameters parameters'
        ∧ BecomesStmts rename (mark :: marks) body body'
termination_by structural tree _ => tree

def BecomesMethods (rename : Renaming) (marks : List Bool)
    : List (Method (Option Nat)) → List (Method (Option Nat)) → Prop
  | [], methods => methods = []
  | .mk name function :: rest, methods =>
      ∃ function' rest',
        methods = .mk name function' :: rest'
        ∧ function.Becomes rename marks function'
        ∧ BecomesMethods rename marks rest rest'
termination_by structural tree _ => tree
end

/-- A function becomes one with as many parameters and a body, marked alike. -/
theorem Lambda.Becomes.parts {rename : Renaming} {marks : List Bool}
    {function function' : BoundLambda} (becomes : function.Becomes rename marks function')
    : ∃ mark,
        rename.TurnsTokens mark function.parameters function'.parameters
        ∧ BecomesStmts rename (mark :: marks) function.body function'.body := by
  cases function
  obtain ⟨mark, parameters', body', rfl, turns, becomes⟩ := becomes
  exact ⟨mark, turns, becomes⟩

-----
-- Renamed trees

section

variable {rename : Renaming}

/-- Keywords turn into themselves, since no program declares them. -/
theorem Renaming.turnsReference_keyword (marks : List Bool) {keyword : Reference (Option Nat)}
    (known : keyword.name.lexeme = "this" ∨ keyword.name.lexeme = "super")
    : rename.TurnsReference marks keyword keyword := by
  refine .intro (.intro (.kept fun _ => ?_))
  rcases known with known | known
  · exact known ▸ rename.this
  · exact known ▸ rename.super

mutual
/-- A tree without the new name becomes the tree that is renamed in the selected scopes, where
those scopes declare no function and no class under the old name. -/
theorem Expr.becomes_renamed
    : ∀ (expr : BoundExpr) (selection : Selection) (marks : List Bool),
        expr.unbound.Proper
        → expr.Avoids rename.new
        → expr.Plain rename.old selection
        → expr.Becomes rename marks (expr.renamed rename selection marks)
  | .literal _, _, _, _, _, _ => rfl
  | .grouping inner, _, _, proper, avoids, plain =>
      ⟨_, rfl, inner.becomes_renamed _ _ proper avoids plain⟩
  | .unary _ operand, _, _, proper, avoids, plain =>
      ⟨_, rfl, operand.becomes_renamed _ _ proper avoids plain⟩
  | .binary left _ right, _, _, proper, avoids, plain =>
      ⟨_, _, rfl, left.becomes_renamed _ _ proper.1 avoids.1 plain.1,
        right.becomes_renamed _ _ proper.2 avoids.2 plain.2⟩
  | .logical left _ right, _, _, proper, avoids, plain =>
      ⟨_, _, rfl, left.becomes_renamed _ _ proper.1 avoids.1 plain.1,
        right.becomes_renamed _ _ proper.2 avoids.2 plain.2⟩
  | .conditional condition thenCase elseCase, _, _, proper, avoids, plain =>
      ⟨_, _, _, rfl, condition.becomes_renamed _ _ proper.1 avoids.1 plain.1,
        thenCase.becomes_renamed _ _ proper.2.1 avoids.2.1 plain.2.1,
        elseCase.becomes_renamed _ _ proper.2.2 avoids.2.2 plain.2.2⟩
  | .variable _, _, _, _, avoids, _ => ⟨_, rfl, Renaming.turnsReference _ avoids⟩
  | .assign _ value, _, _, proper, avoids, plain =>
      ⟨_, _, rfl, Renaming.turnsReference _ avoids.1,
        value.becomes_renamed _ _ proper.2 avoids.2 plain⟩
  | .call callee _ arguments, _, _, proper, avoids, plain =>
      ⟨_, _, rfl, callee.becomes_renamed _ _ proper.1 avoids.1 plain.1,
        becomesExprs_renamed arguments _ _ proper.2 avoids.2 plain.2⟩
  | .get object _, _, _, proper, avoids, plain =>
      ⟨_, rfl, object.becomes_renamed _ _ proper avoids plain⟩
  | .set object _ value, _, _, proper, avoids, plain =>
      ⟨_, _, rfl, object.becomes_renamed _ _ proper.1 avoids.1 plain.1,
        value.becomes_renamed _ _ proper.2 avoids.2 plain.2⟩
  | .this _, _, _, proper, _, _ => ⟨rfl, Renaming.turnsReference_keyword _ (.inl proper)⟩
  | .super _ _, _, _, proper, _, _ => ⟨rfl, Renaming.turnsReference_keyword _ (.inr proper)⟩
  | .function function, _, _, proper, avoids, plain =>
      ⟨_, rfl, function.becomes_renamed _ _ proper avoids plain⟩

/-- Expressions in a row become their renamings. -/
theorem becomesExprs_renamed
    : ∀ (exprs : List BoundExpr) (selection : Selection) (marks : List Bool),
        ProperExprs (unboundExprs exprs)
        → AvoidsExprs rename.new exprs
        → PlainExprs rename.old selection exprs
        → BecomesExprs rename marks exprs (renamedExprs rename selection marks exprs)
  | [], _, _, _, _, _ => rfl
  | first :: rest, _, _, proper, avoids, plain =>
      ⟨_, _, rfl, first.becomes_renamed _ _ proper.1 avoids.1 plain.1,
        becomesExprs_renamed rest _ _ proper.2 avoids.2 plain.2⟩

/-- An expression that may be missing becomes its renaming. -/
theorem becomesOptional_renamed
    : ∀ (value : Option BoundExpr) (selection : Selection) (marks : List Bool),
        ProperOptional (unboundOptional value)
        → AvoidsOptional rename.new value
        → PlainOptional rename.old selection value
        → BecomesOptional rename marks value (renamedOptional rename selection marks value)
  | none, _, _, _, _, _ => rfl
  | some value, _, _, proper, avoids, plain =>
      ⟨_, rfl, value.becomes_renamed _ _ proper avoids plain⟩

/-- A statement becomes its renaming, by induction on the tree. -/
theorem Stmt.becomes_renamed
    : ∀ (stmt : BoundStmt) (selection : Selection) (marks : List Bool),
        stmt.unbound.Proper
        → stmt.Avoids rename.new
        → stmt.Plain rename.old selection (marks.headD false)
        → stmt.Becomes rename marks (stmt.renamed rename selection marks)
  | .expression value, _, _, proper, avoids, plain =>
      ⟨_, rfl, value.becomes_renamed _ _ proper avoids plain⟩
  | .print value, _, _, proper, avoids, plain =>
      ⟨_, rfl, value.becomes_renamed _ _ proper avoids plain⟩
  | .printLine value, _, _, proper, avoids, plain =>
      ⟨_, rfl, becomesOptional_renamed value _ _ proper avoids plain⟩
  | .variable _ initial, _, _, proper, avoids, plain =>
      ⟨_, _, rfl, Renaming.turnsToken_declared _ avoids.1,
        becomesOptional_renamed initial _ _ proper.2 avoids.2 plain⟩
  | .block statements, _, _, proper, avoids, plain =>
      ⟨_, _, rfl, becomesStmts_renamed statements _ _ proper avoids plain⟩
  | .branch condition thenBranch elseBranch, _, _, proper, avoids, plain =>
      ⟨_, _, _, rfl, condition.becomes_renamed _ _ proper.1 avoids.1 plain.1,
        thenBranch.becomes_renamed _ _ proper.2.1.1 avoids.2.1 plain.2.1,
        becomesElse_renamed elseBranch _ _ proper.2.2 avoids.2.2 plain.2.2⟩
  | .loop condition body, _, _, proper, avoids, plain =>
      ⟨_, _, rfl, condition.becomes_renamed _ _ proper.1 avoids.1 plain.1,
        body.becomes_renamed _ _ proper.2.1 avoids.2 plain.2⟩
  | .breakLoop _, _, _, _, _, _ => rfl
  | .returnValue _ value, _, _, proper, avoids, plain =>
      ⟨_, rfl, becomesOptional_renamed value _ _ proper avoids plain⟩
  | .function _ function, _, _, proper, avoids, plain =>
      ⟨_, rfl, .intro (.kept fun marked => ⟨plain.1 marked, avoids.1⟩),
        function.becomes_renamed _ _ proper.2 avoids.2 plain.2⟩
  | .class _ none methods, _, _, proper, avoids, plain =>
      ⟨_, rfl, .intro (.kept fun marked => ⟨plain.1 marked, avoids.1⟩),
        becomesMethods_renamed methods _ _ proper.2.2 avoids.2.2 plain.2⟩
  | .class _ (some superclass) methods, _, _, proper, avoids, plain =>
      ⟨_, _, rfl, .intro (.kept fun marked => ⟨plain.1 marked, avoids.1⟩),
        Renaming.turnsReference _ (avoids.2.1 superclass rfl),
        becomesMethods_renamed methods _ _ proper.2.2 avoids.2.2 plain.2⟩

/-- Statements in a row become their renamings. -/
theorem becomesStmts_renamed
    : ∀ (stmts : List BoundStmt) (selection : Selection) (marks : List Bool),
        ProperStmts (unboundStmts stmts)
        → AvoidsStmts rename.new stmts
        → PlainStmts rename.old selection (marks.headD false) stmts
        → BecomesStmts rename marks stmts (renamedStmts rename selection marks stmts)
  | [], _, _, _, _, _ => rfl
  | first :: rest, _, _, proper, avoids, plain =>
      ⟨_, _, rfl, first.becomes_renamed _ _ proper.1 avoids.1 plain.1,
        becomesStmts_renamed rest _ _ proper.2 avoids.2 plain.2⟩

/-- A branch that may be missing becomes its renaming. -/
theorem becomesElse_renamed
    : ∀ (branch : Option BoundStmt) (selection : Selection) (marks : List Bool),
        ProperElse (unboundElse branch)
        → AvoidsElse rename.new branch
        → PlainElse rename.old selection (marks.headD false) branch
        → BecomesElse rename marks branch (renamedElse rename selection marks branch)
  | none, _, _, _, _, _ => rfl
  | some branch, _, _, proper, avoids, plain =>
      ⟨_, rfl, branch.becomes_renamed _ _ proper.1 avoids plain⟩

/-- A function becomes its renaming. -/
theorem Lambda.becomes_renamed
    : ∀ (function : BoundLambda) (selection : Selection) (marks : List Bool),
        function.unbound.Proper
        → function.Avoids rename.new
        → function.Plain rename.old selection
        → function.Becomes rename marks (function.renamed rename selection marks)
  | .mk _ body, _, _, proper, avoids, plain =>
      ⟨_, _, _, rfl, Renaming.turnsTokens_declared _ avoids.1,
        becomesStmts_renamed body _ _ proper.2 avoids.2 plain⟩

/-- Methods in a row become their renamings. -/
theorem becomesMethods_renamed
    : ∀ (methods : List (Method (Option Nat))) (selection : Selection) (marks : List Bool),
        ProperMethods (unboundMethods methods)
        → AvoidsMethods rename.new methods
        → PlainMethods rename.old selection methods
        → BecomesMethods rename marks methods (renamedMethods rename selection marks methods)
  | [], _, _, _, _, _ => rfl
  | .mk _ function :: rest, _, _, proper, avoids, plain =>
      ⟨_, _, rfl, function.becomes_renamed _ _ proper.1 avoids.1 plain.1,
        becomesMethods_renamed rest _ _ proper.2 avoids.2 plain.2⟩
end

end

-----
-- Trees that stay as they are

/-- None of the open scopes is affected. -/
def Unmarked (marks : List Bool) : Prop :=
  ∀ mark ∈ marks, mark = false

/-- No scope is marked where there is none. -/
theorem Unmarked.nil : Unmarked [] :=
  fun _ member => absurd member List.not_mem_nil

/-- One more scope of another variable leaves all of them unmarked. -/
theorem Unmarked.cons {marks : List Bool} (unmarked : Unmarked marks) : Unmarked (false :: marks) :=
  List.forall_mem_cons.2 ⟨rfl, unmarked⟩

/-- The innermost scope is unmarked if all are. -/
theorem Unmarked.headD {marks : List Bool} (unmarked : Unmarked marks)
    : marks.headD false = false := by
  cases marks with
  | nil => rfl
  | cons mark rest => exact unmarked mark List.mem_cons_self

/-- The outer scopes are unmarked if all are. -/
theorem Unmarked.tail {marks : List Bool} (unmarked : Unmarked marks) : Unmarked marks.tail :=
  fun mark member => unmarked mark (List.mem_of_mem_tail member)

/-- No reference leads to a marked scope if there is none. -/
theorem Unmarked.markAt {marks : List Bool} (unmarked : Unmarked marks) (binding : Option Nat)
    : Lox.markAt marks binding = false := by
  cases binding with
  | none => rfl
  | some distance =>
      change marks.getD distance false = false
      rw [List.getD_eq_getElem?_getD]
      cases found : marks[distance]? with
      | none => rfl
      | some mark => exact unmarked mark (List.mem_of_getElem? found)

section

variable {rename : Renaming}

/-- Names declared in front of unmarked scopes turn into themselves. -/
theorem Unmarked.turnsToken {marks : List Bool} (unmarked : Unmarked marks) (name : Token)
    : rename.TurnsToken (marks.headD false) name name := by
  rw [unmarked.headD]
  exact .unmarked name

/-- References in front of unmarked scopes turn into themselves. -/
theorem Unmarked.turnsReference {marks : List Bool} (unmarked : Unmarked marks)
    (target : Reference (Option Nat))
    : rename.TurnsReference marks target target := by
  refine .intro ?_
  rw [unmarked.markAt]
  exact .unmarked target.name

mutual
/-- An expression that sees no affected scope stays as it is, by induction on the tree. -/
theorem Expr.becomes_self
    : ∀ (expr : BoundExpr) {marks : List Bool}, Unmarked marks → expr.Becomes rename marks expr
  | .literal _, _, _ => rfl
  | .grouping inner, _, unmarked => ⟨_, rfl, inner.becomes_self unmarked⟩
  | .unary _ operand, _, unmarked => ⟨_, rfl, operand.becomes_self unmarked⟩
  | .binary left _ right, _, unmarked =>
      ⟨_, _, rfl, left.becomes_self unmarked, right.becomes_self unmarked⟩
  | .logical left _ right, _, unmarked =>
      ⟨_, _, rfl, left.becomes_self unmarked, right.becomes_self unmarked⟩
  | .conditional condition thenCase elseCase, _, unmarked =>
      ⟨_, _, _, rfl, condition.becomes_self unmarked, thenCase.becomes_self unmarked,
        elseCase.becomes_self unmarked⟩
  | .variable target, _, unmarked => ⟨_, rfl, unmarked.turnsReference target⟩
  | .assign target value, _, unmarked =>
      ⟨_, _, rfl, unmarked.turnsReference target, value.becomes_self unmarked⟩
  | .call callee _ arguments, _, unmarked =>
      ⟨_, _, rfl, callee.becomes_self unmarked, becomesExprs_self arguments unmarked⟩
  | .get object _, _, unmarked => ⟨_, rfl, object.becomes_self unmarked⟩
  | .set object _ value, _, unmarked =>
      ⟨_, _, rfl, object.becomes_self unmarked, value.becomes_self unmarked⟩
  | .this keyword, _, unmarked => ⟨rfl, unmarked.turnsReference keyword⟩
  | .super keyword _, _, unmarked => ⟨rfl, unmarked.turnsReference keyword⟩
  | .function function, _, unmarked => ⟨_, rfl, function.becomes_self unmarked⟩

/-- Expressions that see no affected scope stay as they are. -/
theorem becomesExprs_self
    : ∀ (exprs : List BoundExpr) {marks : List Bool},
        Unmarked marks → BecomesExprs rename marks exprs exprs
  | [], _, _ => rfl
  | first :: rest, _, unmarked =>
      ⟨_, _, rfl, first.becomes_self unmarked, becomesExprs_self rest unmarked⟩

/-- An optional expression that sees no affected scope stays as it is. -/
theorem becomesOptional_self
    : ∀ (value : Option BoundExpr) {marks : List Bool},
        Unmarked marks → BecomesOptional rename marks value value
  | none, _, _ => rfl
  | some value, _, unmarked => ⟨_, rfl, value.becomes_self unmarked⟩

/-- A statement that sees no affected scope stays as it is, by induction on the tree. -/
theorem Stmt.becomes_self
    : ∀ (stmt : BoundStmt) {marks : List Bool}, Unmarked marks → stmt.Becomes rename marks stmt
  | .expression value, _, unmarked => ⟨_, rfl, value.becomes_self unmarked⟩
  | .print value, _, unmarked => ⟨_, rfl, value.becomes_self unmarked⟩
  | .printLine value, _, unmarked => ⟨_, rfl, becomesOptional_self value unmarked⟩
  | .variable name initial, _, unmarked =>
      ⟨_, _, rfl, unmarked.turnsToken name, becomesOptional_self initial unmarked⟩
  | .block statements, _, unmarked => ⟨_, _, rfl, becomesStmts_self statements unmarked.cons⟩
  | .branch condition thenBranch elseBranch, _, unmarked =>
      ⟨_, _, _, rfl, condition.becomes_self unmarked, thenBranch.becomes_self unmarked,
        becomesElse_self elseBranch unmarked⟩
  | .loop condition body, _, unmarked =>
      ⟨_, _, rfl, condition.becomes_self unmarked, body.becomes_self unmarked⟩
  | .breakLoop _, _, _ => rfl
  | .returnValue _ value, _, unmarked => ⟨_, rfl, becomesOptional_self value unmarked⟩
  | .function name function, _, unmarked =>
      ⟨_, rfl, unmarked.turnsToken name, function.becomes_self unmarked⟩
  | .class name none methods, _, unmarked =>
      ⟨_, rfl, unmarked.turnsToken name, becomesMethods_self methods unmarked.cons⟩
  | .class name (some superclass) methods, _, unmarked =>
      ⟨_, _, rfl, unmarked.turnsToken name, unmarked.turnsReference superclass,
        becomesMethods_self methods unmarked.cons.cons⟩

/-- Statements that see no affected scope stay as they are. -/
theorem becomesStmts_self
    : ∀ (stmts : List BoundStmt) {marks : List Bool},
        Unmarked marks → BecomesStmts rename marks stmts stmts
  | [], _, _ => rfl
  | first :: rest, _, unmarked =>
      ⟨_, _, rfl, first.becomes_self unmarked, becomesStmts_self rest unmarked⟩

/-- A branch that sees no affected scope stays as it is. -/
theorem becomesElse_self
    : ∀ (branch : Option BoundStmt) {marks : List Bool},
        Unmarked marks → BecomesElse rename marks branch branch
  | none, _, _ => rfl
  | some branch, _, unmarked => ⟨_, rfl, branch.becomes_self unmarked⟩

/-- A function that sees no affected scope stays as it is. -/
theorem Lambda.becomes_self
    : ∀ (function : BoundLambda) {marks : List Bool},
        Unmarked marks → function.Becomes rename marks function
  | .mk parameters body, _, unmarked =>
      ⟨false, _, _, rfl, .unmarked parameters, becomesStmts_self body unmarked.cons⟩

/-- Methods that see no affected scope stay as they are. -/
theorem becomesMethods_self
    : ∀ (methods : List (Method (Option Nat))) {marks : List Bool},
        Unmarked marks → BecomesMethods rename marks methods methods
  | [], _, _ => rfl
  | .mk _ function :: rest, _, unmarked =>
      ⟨_, _, rfl, function.becomes_self unmarked, becomesMethods_self rest unmarked⟩
end

end

end Lox
