import Lox.Proofs.Binding.Proper
import Lox.Proofs.Grammar.Gathering
import Lox.Proofs.Token.Spelling

/-! Reading yields proper trees only, whether or not it finds mistakes.

Every name in a tree is taken from a token of its kind, and the tokens of a text are spelled as
their kinds say. Declarations are read in lists of statements only. What is reported on the way
keeps the text from running.
-/

namespace Lox.Grammar

-----
-- Rules and what they yield

def Legible (token : Token) : Prop :=
  token.kind ≠ .endOfInput → Spelled token.kind token.lexeme

/-- All tokens ahead are spelled as their kinds say, and no mistake takes more than reading. -/
structure Cursor.Legible (cursor : Cursor) : Prop where
  ahead : ∀ token ∈ cursor.ahead, Grammar.Legible token
  errors : ∀ mistake ∈ cursor.errors, mistake.problem.isSyntactic = true

/-- Where tokens are spelled as their kinds say, the rule yields nothing but what holds. -/
def Yields {α : Type} (rule : Rule α) (holds : α → Prop) : Prop :=
  ∀ before : Cursor,
    before.Legible
    → match rule before with
      | .ok value after => after.Legible ∧ holds value
      | .error _ after => after.Legible

/-- A statement that may stand alone: it declares nothing. -/
def Plain (statement : SourceStmt) : Prop :=
  statement.Proper ∧ statement.introduces? = none

-----
-- Lists

/-- Expressions are proper if each is. -/
theorem properExprs_iff (exprs : List SourceExpr)
    : ProperExprs exprs ↔ ∀ expr ∈ exprs, expr.Proper := by
  induction exprs with
  | nil => simp [ProperExprs]
  | cons first rest ih => simp [ProperExprs, ih]

/-- Statements are proper if each is. -/
theorem properStmts_iff (stmts : List SourceStmt)
    : ProperStmts stmts ↔ ∀ stmt ∈ stmts, stmt.Proper := by
  induction stmts with
  | nil => simp [ProperStmts]
  | cons first rest ih => simp [ProperStmts, ih]

/-- Methods are proper if their functions are. -/
theorem properMethods_iff (methods : List (Method Unit))
    : ProperMethods methods ↔ ∀ declared ∈ methods, declared.function.Proper := by
  induction methods with
  | nil => simp [ProperMethods]
  | cons first rest ih =>
      obtain ⟨name, function⟩ := first
      simp [ProperMethods, Method.function, ih]

/-- An optional expression is proper if the one that is there is. -/
theorem properOptional_iff (value : Option SourceExpr)
    : ProperOptional value ↔ ∀ expr, value = some expr → expr.Proper := by
  cases value <;> simp [ProperOptional]

/-- A branch is plain if the statement that is there is. -/
theorem properElse_iff (branch : Option SourceStmt)
    : ProperElse branch ↔ ∀ stmt, branch = some stmt → Plain stmt := by
  cases branch <;> simp [ProperElse, Plain]

-----
-- Pieces

/-- What is proper in a piece. -/
def Piece.Proper : Piece → Prop
  | .token word => Spelled word.kind word.lexeme
  | .name word => word.IsName
  | .expression value => value.Proper
  | .statement _ stmt => Plain stmt
  | .declaration _ stmt => stmt.Proper
  | .function literal => literal.Proper
  | .method declared => declared.function.Proper

/-- Names listed in parentheses were read as variables. -/
theorem isName_of_parameterNames? {expr : SourceExpr} (proper : expr.Proper)
    {names : List Token} (listed : parameterNames? expr = some names)
    : ∀ name ∈ names, name.IsName := by
  fun_induction parameterNames? expr generalizing names with
  | case1 target =>
      obtain rfl := Option.some.inj listed
      intro name member
      obtain rfl := List.mem_singleton.1 member
      exact proper
  | case2 left operator right comma ihLeft ihRight =>
      obtain ⟨front, frontListed, rest⟩ := Option.bind_eq_some_iff.1 listed
      obtain ⟨back, backListed, joined⟩ := Option.bind_eq_some_iff.1 rest
      obtain rfl := Option.some.inj joined
      intro name member
      rcases List.mem_append.1 member with member | member
      · exact ihLeft proper.1 frontListed name member
      · exact ihRight proper.2 backListed name member
  | case3 | case4 => cases listed

/-- Proper pieces form proper ones. -/
theorem kept_proper : Kept Piece.Proper where
  forms forms proper := by
    cases forms
    case name kind => exact ⟨kind, (proper _ List.mem_cons_self).name kind⟩
    case this kind => exact (proper _ List.mem_cons_self).this kind
    case super kind => exact (proper _ List.mem_cons_self).super kind
    case arrow listed =>
      obtain ⟨inner, statements⟩ := List.forall_mem_cons.1 proper
      refine ⟨isName_of_parameterNames? inner listed, ?_⟩
      simpa [properStmts_iff, Piece.Proper] using statements
    all_goals
      simp_all [Piece.Proper, Plain, Expr.Proper, Stmt.Proper, Lambda.Proper, Method.function,
        Stmt.introduces?, properExprs_iff, properStmts_iff, properMethods_iff, properOptional_iff,
        properElse_iff, reference, or_imp, forall_and]
  breakLoop _ _ := ⟨trivial, rfl⟩

/-- What a rule gathers in legible surroundings is proper. -/
theorem yields_of_gathering {α : Type} {rule : Rule α} {gained : Nat → α → List Piece}
    {holds : α → Prop} (gathering : ∀ depth, Gathering depth [] rule (gained depth))
    (proper : ∀ depth value, (∀ piece ∈ gained depth value, piece.Proper) → holds value)
    : Yields rule holds := by
  intro before legible
  have legibleAfter {after : Cursor} {pieces : List Piece}
      (gathered : Gathers before.place after.place pieces)
      : after.Legible ∧ ∀ piece ∈ pieces, piece.Proper := by
    obtain ⟨ahead, all⟩ := gathered.kept kept_proper legible.ahead
    exact ⟨⟨ahead, gathered.syntactic legible.errors⟩, all⟩
  have result := gathering before.loopDepth before.place before rfl .nothing
  revert result
  cases rule before with
  | ok value after =>
      rintro ⟨-, gathered⟩
      obtain ⟨legible, all⟩ := legibleAfter gathered
      exact ⟨legible, proper _ value all⟩
  | error unwinding after => exact fun ⟨_, gathered⟩ => (legibleAfter gathered).1

-----
-- Whole programs

/-- The tokens of a text are spelled as their kinds say. -/
theorem legible_start (source : String) : (Cursor.start (scan source).tokens).Legible := by
  refine ⟨fun token member inside => ?_, fun _ none => absurd none List.not_mem_nil⟩
  rcases List.mem_append.1 (scan_tokens source ▸ member) with lexeme | last
  · exact lexemes_spelled source token lexeme
  · obtain rfl := List.mem_singleton.1 last
    exact absurd rfl inside

/-- Whatever is read from a text is proper, and whatever is wrong with it is a syntax error. -/
theorem parse_proper (allowExpression : Bool) (source : String) (depth : Nat)
    : ProperStmts (parse allowExpression (scan source).tokens depth).statements
      ∧ ∀ mistake ∈ (parse allowExpression (scan source).tokens depth).errors,
          mistake.problem.isSyntactic = true := by
  obtain ⟨rest, gathered⟩ := parse_gathers allowExpression (scan source).tokens depth
  have legible := legible_start source
  obtain ⟨-, proper⟩ := gathered.kept kept_proper legible.ahead
  refine ⟨(properStmts_iff _).2 fun stmt member => ?_, gathered.syntactic legible.errors⟩
  exact proper (.declaration false stmt) (List.mem_map_of_mem member)

end Lox.Grammar
