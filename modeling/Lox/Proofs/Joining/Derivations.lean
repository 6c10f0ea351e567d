import Lox.Proofs.Grammar.Language
import Lox.Proofs.Joining.Trees

/-! The grammar does not look at lines: a derivation stays one when its tokens are moved. -/

namespace Lox.Grammar

/-- Tokens in the same order on other lines. -/
def movedTokens (move : Nat → Nat) (tokens : List Token) : List Token :=
  tokens.map (·.moved move)

section

variable (move : Nat → Nat)

/-- Moving no tokens leaves none. -/
@[simp]
theorem movedTokens_nil : movedTokens move [] = [] :=
  rfl

/-- Tokens are moved one by one. -/
@[simp]
theorem movedTokens_cons (token : Token) (tokens : List Token)
    : movedTokens move (token :: tokens) = token.moved move :: movedTokens move tokens :=
  rfl

/-- Two parts of a text are moved each by itself. -/
@[simp]
theorem movedTokens_append (tokens others : List Token)
    : movedTokens move (tokens ++ others) = movedTokens move tokens ++ movedTokens move others :=
  List.map_append

/-- What may follow is told by its kind. -/
theorem Ending.admits.moved {ending : Ending} {policy : Policy} {following : List Token}
    (admitted : ending.admits policy following)
    : ending.admits policy (movedTokens move following) := by
  intro literal
  have kinds
      : (movedTokens move following).head?.map (·.kind) = following.head?.map (·.kind) := by
    cases following <;> rfl
  rw [kinds]
  exact admitted literal

end

/-- Whatever stands in the language still does when its tokens are moved. -/
structure Language.Movable (move : Nat → Nat) (inner : Language) : Prop where
  expression {commas tokens value} (derived : inner.expression commas tokens value)
    : inner.expression commas (movedTokens move tokens) (value.moved move)
  names {tokens names} (listed : inner.names tokens names)
    : inner.names (movedTokens move tokens) (movedTokens move names)
  statement {inLoop ending tokens statement}
    (derived : inner.statement inLoop ending tokens statement)
    : inner.statement inLoop ending (movedTokens move tokens) (statement.moved move)
  declaration {inLoop ending tokens statement}
    (derived : inner.declaration inLoop ending tokens statement)
    : inner.declaration inLoop ending (movedTokens move tokens) (statement.moved move)

variable {move : Nat → Nat}

/-- A sequence of statements is derived after it was moved, by induction on it. -/
theorem Sequence.moved {policy : Policy}
    {declaration : Ending → List Token → SourceStmt → Prop}
    (movable : ∀ {ending tokens statement},
      declaration ending tokens statement
      → declaration ending (movedTokens move tokens) (statement.moved move))
    {tokens : List Token} {statements : List SourceStmt}
    (derived : Sequence policy declaration tokens statements)
    : Sequence policy declaration (movedTokens move tokens) (movedStmts move statements) := by
  induction derived with
  | nil => exact .nil
  | cons head admitted tail ih =>
      rw [movedTokens_append]
      exact .cons (movable head) (admitted.moved move) ih

section

variable {inner : Language} {tokens : List Token} {value : SourceExpr}

-----
-- Functions

/-- A block is derived after it was moved. -/
theorem Block.moved (movable : inner.Movable move) {inLoop : Bool} {statements : List SourceStmt}
    (derived : Block inner inLoop tokens statements)
    : Block inner inLoop (movedTokens move tokens) (movedStmts move statements) := by
  cases derived with
  | mk opens body closes =>
      simp only [movedTokens_cons, movedTokens_append]
      exact .mk opens (body.moved movable.declaration) closes

/-- Parameters are derived after they were moved, by induction on them. -/
theorem Names.moved {names : List Token} (derived : Names tokens names)
    : Names (movedTokens move tokens) (movedTokens move names) := by
  induction derived with
  | last named => exact .last named
  | more named separates _ ih => exact .more named separates ih

/-- A parameter list is derived after it was moved. -/
theorem Parameters.moved {names : List Token} (derived : Parameters tokens names)
    : Parameters (movedTokens move tokens) (movedTokens move names) := by
  cases derived with
  | none => exact .none
  | some listed few => exact .some listed.moved (by simpa [movedTokens] using few)

-----
-- Expressions

/-- A chain of operands is derived after it was moved, by induction on it. -/
theorem Chain.moved {operand : List Token → SourceExpr → Prop} {operators : List TokenKind}
    {combine : SourceExpr → Token → SourceExpr → SourceExpr}
    (movable : ∀ {tokens value}, operand tokens value
      → operand (movedTokens move tokens) (value.moved move))
    (combined : ∀ left operator right, (combine left operator right).moved move
      = combine (left.moved move) (operator.moved move) (right.moved move))
    (derived : Chain operand operators combine tokens value)
    : Chain operand operators combine (movedTokens move tokens) (value.moved move) := by
  induction derived with
  | one single => exact .one (movable single)
  | more _ joined back ih =>
      rw [movedTokens_append, movedTokens_cons, combined]
      exact .more ih joined (movable back)

/-- An operand is derived after it was moved, by cases on what it is. -/
theorem Primary.moved (movable : inner.Movable move) (derived : Primary inner tokens value)
    : Primary inner (movedTokens move tokens) (value.moved move) := by
  cases derived with
  | falseWord kind => exact .falseWord kind
  | trueWord kind => exact .trueWord kind
  | nilWord kind => exact .nilWord kind
  | @number token kind => exact @Primary.number inner (token.moved move) kind
  | @string token kind => exact @Primary.string inner (token.moved move) kind
  | this kind => exact .this kind
  | identifier kind => exact .identifier kind
  | super kind dotted named => exact .super kind dotted named
  | group opens grouped closes =>
      simp only [movedTokens_cons, movedTokens_append]
      exact .group opens (movable.expression grouped) closes
  | arrow opens closes points block => exact .arrow opens closes points (block.moved movable)
  | arrowNames opens listed few closes points block =>
      simp only [movedTokens_cons, movedTokens_append]
      exact .arrowNames opens (movable.names listed) (by simpa [movedTokens] using few) closes points
        (block.moved movable)

/-- Arguments are derived after they were moved, by induction on them. -/
theorem ArgumentList.moved (movable : inner.Movable move) {values : List SourceExpr}
    (derived : ArgumentList inner tokens values)
    : ArgumentList inner (movedTokens move tokens) (movedExprs move values) := by
  induction derived with
  | last argument => exact .last (movable.expression argument)
  | more argument separates _ ih =>
      rw [movedTokens_append, movedTokens_cons]
      exact .more (movable.expression argument) separates ih

/-- An argument list is derived after it was moved. -/
theorem Arguments.moved (movable : inner.Movable move) {values : List SourceExpr}
    (derived : Arguments inner tokens values)
    : Arguments inner (movedTokens move tokens) (movedExprs move values) := by
  cases derived with
  | none => exact .none
  | some listed few =>
      exact .some (listed.moved movable) (by simpa [movedExprs_eq_map] using few)

/-- Calls and property reads are derived after they were moved, by induction on them. -/
theorem Call.moved (movable : inner.Movable move) (derived : Call inner tokens value)
    : Call inner (movedTokens move tokens) (value.moved move) := by
  induction derived with
  | primary operand => exact .primary (operand.moved movable)
  | call _ opens passed closes ih =>
      simp only [movedTokens_cons, movedTokens_append]
      exact .call ih opens (passed.moved movable) closes
  | get _ dotted named ih =>
      rw [movedTokens_append]
      exact .get ih dotted named

/-- An operator and its operand are derived after they were moved. -/
theorem Unary.moved (movable : inner.Movable move) (derived : Unary inner tokens value)
    : Unary inner (movedTokens move tokens) (value.moved move) := by
  induction derived with
  | call operand => exact .call (operand.moved movable)
  | operator negates _ ih => exact .operator negates ih

/-- The levels up to an equality are chains, one above the other. -/
theorem Equality.moved (movable : inner.Movable move) (derived : Equality inner tokens value)
    : Equality inner (movedTokens move tokens) (value.moved move) := by
  have binary (left : SourceExpr) (operator : Token) (right : SourceExpr)
      : (Expr.binary left operator right).moved move
          = .binary (left.moved move) (operator.moved move) (right.moved move) :=
    rfl
  have factor {tokens : List Token} {value : SourceExpr} (derived : Factor inner tokens value)
      : Factor inner (movedTokens move tokens) (value.moved move) :=
    Chain.moved (Unary.moved movable) binary derived
  have term {tokens : List Token} {value : SourceExpr} (derived : Term inner tokens value)
      : Term inner (movedTokens move tokens) (value.moved move) :=
    Chain.moved factor binary derived
  have comparison {tokens : List Token} {value : SourceExpr}
      (derived : Comparison inner tokens value)
      : Comparison inner (movedTokens move tokens) (value.moved move) :=
    Chain.moved term binary derived
  exact Chain.moved comparison binary derived

/-- A conditional expression is derived after it was moved. -/
theorem Conditional.moved (movable : inner.Movable move)
    (derived : Conditional inner tokens value)
    : Conditional inner (movedTokens move tokens) (value.moved move) := by
  cases derived with
  | equality operand => exact .equality (operand.moved movable)
  | choice tested asks first separates second =>
      simp only [movedTokens_cons, movedTokens_append]
      exact .choice (tested.moved movable) asks (first.moved movable) separates
        (second.moved movable)

/-- A disjunction of conjunctions is derived after it was moved. -/
theorem LogicOr.moved (movable : inner.Movable move) {commas : Bool}
    (derived : LogicOr inner commas tokens value)
    : LogicOr inner commas (movedTokens move tokens) (value.moved move) := by
  have comma {tokens : List Token} {value : SourceExpr}
      (derived : Comma inner commas tokens value)
      : Comma inner commas (movedTokens move tokens) (value.moved move) :=
    Chain.moved (Conditional.moved movable) (fun _ _ _ => rfl) derived
  have logicAnd {tokens : List Token} {value : SourceExpr}
      (derived : LogicAnd inner commas tokens value)
      : LogicAnd inner commas (movedTokens move tokens) (value.moved move) :=
    Chain.moved comma (fun _ _ _ => rfl) derived
  exact Chain.moved logicAnd (fun _ _ _ => rfl) derived

/-- An assignment is derived after it was moved. -/
theorem Assignment.moved (movable : inner.Movable move) {commas : Bool}
    (derived : Assignment inner commas tokens value)
    : Assignment inner commas (movedTokens move tokens) (value.moved move) := by
  induction derived with
  | logic operand => exact .logic (operand.moved movable)
  | name named assigns _ ih => exact .name named assigns ih
  | property owner dotted named assigns _ ih =>
      simp only [movedTokens_cons, movedTokens_append]
      exact .property (owner.moved movable) dotted named assigns ih

/-- An expression that may be missing is derived after it was moved. -/
theorem OptionalExpression.moved (movable : inner.Movable move) {value : Option SourceExpr}
    (derived : OptionalExpression inner tokens value)
    : OptionalExpression inner (movedTokens move tokens) (movedOptional move value) := by
  cases derived with
  | none => exact .none
  | some written => exact .some (movable.expression written)

-----
-- Declarations

/-- A function is derived after it was moved with its name. -/
theorem NamedFunction.moved (movable : inner.Movable move) {name : Token}
    {function : Lambda Unit} (derived : NamedFunction inner tokens name function)
    : NamedFunction inner (movedTokens move tokens) (name.moved move) (function.moved move) := by
  cases derived with
  | mk named opens listed closes block =>
      simp only [movedTokens_cons, movedTokens_append]
      exact .mk named opens listed.moved closes (block.moved movable)

/-- Methods are derived after they were moved, by induction on them. -/
theorem Methods.moved (movable : inner.Movable move) {methods : List (Method Unit)}
    (derived : Methods inner tokens methods)
    : Methods inner (movedTokens move tokens) (movedMethods move methods) := by
  induction derived with
  | nil => exact .nil
  | cons head _ ih =>
      rw [movedTokens_append]
      exact .cons (head.moved movable) ih

/-- A superclass clause is derived after it was moved. -/
theorem SuperclassClause.moved {superclass : Option (Reference Unit)}
    (derived : SuperclassClause tokens superclass)
    : SuperclassClause (movedTokens move tokens) (superclass.map (·.moved move)) := by
  cases derived with
  | none => exact .none
  | some inherits named => exact .some inherits named

/-- The rest of a variable declaration is derived after it was moved. -/
theorem VariableRest.moved (movable : inner.Movable move) {ending : Ending}
    {declared : SourceStmt} (derived : VariableRest inner ending tokens declared)
    : VariableRest inner ending (movedTokens move tokens) (declared.moved move) := by
  cases derived with
  | plain named ends => exact .plain named ends
  | initialized named assigns initial ends =>
      simp only [movedTokens_cons, movedTokens_append]
      exact .initialized named assigns (movable.expression initial) ends
  | literal named assigns initial => exact .literal named assigns (movable.expression initial)

-----
-- Statements

/-- An expression statement is derived after it was moved. -/
theorem ExpressionStatement.moved (movable : inner.Movable move) {statement : SourceStmt}
    (derived : ExpressionStatement inner tokens statement)
    : ExpressionStatement inner (movedTokens move tokens) (statement.moved move) := by
  cases derived with
  | mk written ends =>
      rw [movedTokens_append]
      exact .mk (movable.expression written) ends

/-- The first clause of a `for` is derived after it was moved. -/
theorem ForInitial.moved (movable : inner.Movable move) {ending : Ending}
    {initial : Option SourceStmt} (derived : ForInitial inner ending tokens initial)
    : ForInitial inner ending (movedTokens move tokens) (movedElse move initial) := by
  cases derived with
  | none ends => exact .none ends
  | declaration declares rest => exact .declaration declares (rest.moved movable)
  | expression written => exact .expression (written.moved movable)

/-- A loop is taken apart in the same way on any lines. -/
theorem forLoop_moved (initial : Option SourceStmt) (condition increment : Option SourceExpr)
    (body : SourceStmt)
    : (forLoop initial condition increment body).moved move
        = forLoop (movedElse move initial) (movedOptional move condition)
            (movedOptional move increment) (body.moved move) := by
  cases initial <;> cases condition <;> cases increment <;> rfl

/-- A statement is derived after it was moved, by cases on its first token. -/
theorem Statement.moved (movable : inner.Movable move) {inLoop : Bool} {ending : Ending}
    {statement : SourceStmt} (derived : Statement inner inLoop ending tokens statement)
    : Statement inner inLoop ending (movedTokens move tokens) (statement.moved move) := by
  cases derived with
  | expression written => exact .expression (written.moved movable)
  | print kind written ends =>
      simp only [movedTokens_cons, movedTokens_append]
      exact .print kind (movable.expression written) ends
  | printLine kind written ends =>
      simp only [movedTokens_cons, movedTokens_append]
      exact .printLine kind (written.moved movable) ends
  | returnValue kind written ends =>
      simp only [movedTokens_cons, movedTokens_append]
      exact .returnValue kind (written.moved movable) ends
  | breakLoop kind within ends => exact .breakLoop kind within ends
  | block braced => exact .block (braced.moved movable)
  | branch kind opens tested closes first =>
      simp only [movedTokens_cons, movedTokens_append]
      exact .branch kind opens (movable.expression tested) closes (movable.statement first)
  | branchElse kind opens tested closes first otherwise second =>
      simp only [movedTokens_cons, movedTokens_append]
      exact .branchElse kind opens (movable.expression tested) closes (movable.statement first)
        otherwise (movable.statement second)
  | loop kind opens tested closes repeated =>
      simp only [movedTokens_cons, movedTokens_append]
      exact .loop kind opens (movable.expression tested) closes (movable.statement repeated)
  | forLoop kind opens starts admitted tested ends stepped closes repeated =>
      have admittedMoved := admitted.moved move
      simp only [movedTokens_cons, movedTokens_append, movedTokens_nil] at admittedMoved ⊢
      rw [forLoop_moved]
      exact .forLoop kind opens (starts.moved movable) admittedMoved (tested.moved movable) ends
        (stepped.moved movable) closes (movable.statement repeated)

/-- A declaration is derived after it was moved, by cases on its first token. -/
theorem Declaration.moved (movable : inner.Movable move) {inLoop : Bool} {ending : Ending}
    {statement : SourceStmt} (derived : Declaration inner inLoop ending tokens statement)
    : Declaration inner inLoop ending (movedTokens move tokens) (statement.moved move) := by
  cases derived with
  | «class» kind named inherits opens listed closes =>
      simp only [movedTokens_cons, movedTokens_append]
      exact .class kind named inherits.moved opens (listed.moved movable) closes
  | function kind defined => exact .function kind (defined.moved movable)
  | declaration kind rest => exact .declaration kind (rest.moved movable)
  | statement plain => exact .statement (plain.moved movable)

end

-----
-- The unfolded grammar

/-- No rule of the grammar looks at lines, by induction on the nesting. -/
theorem language_movable (move : Nat → Nat) (policy : Policy) (nesting : Nat)
    : (language policy nesting).Movable move := by
  induction nesting with
  | zero =>
      exact {
        expression := fun derived => derived.elim
        names := fun listed => listed.elim
        statement := fun derived => derived.elim
        declaration := fun derived => derived.elim
      }
  | succ nesting ih =>
      exact {
        expression := fun derived => Assignment.moved ih derived
        names := fun listed => Names.moved listed
        statement := fun derived => Statement.moved ih derived
        declaration := fun derived => Declaration.moved ih derived
      }

/-- Tokens that derive statements derive the same statements on other lines. -/
theorem Derives.moved {policy : Policy} {depth : Nat} {tokens : List Token}
    {statements : List SourceStmt} (derived : Derives policy depth tokens statements)
    (move : Nat → Nat)
    : Derives policy depth (movedTokens move tokens) (movedStmts move statements) :=
  Sequence.moved (language_movable move policy (depth + 1)).declaration derived

end Lox.Grammar
