import Lox.Proofs.Grammar.Language
import Lox.Proofs.Renaming.Respelling

/-! The grammar does not look at the spelling of names: a tree in which some names are spelled
otherwise derives from tokens that are spelled otherwise.
-/

namespace Lox

-----
-- Tokens

namespace Renaming

variable (rename : Renaming)

/-- A name of the old spelling may have the new one. -/
inductive Respells : Token → Token → Prop
  | kept (token : Token) : Respells token token
  | replaced {token : Token} (named : token.kind = .identifier) (old : token.lexeme = rename.old)
    : Respells token { token with lexeme := rename.new }

/-- The same tokens one by one, but for the spelling of some names. -/
inductive RespellsAll : List Token → List Token → Prop
  | nil : RespellsAll [] []
  | cons {first first' : Token} {rest rest' : List Token}
    (head : rename.Respells first first') (tail : RespellsAll rest rest')
    : RespellsAll (first :: rest) (first' :: rest')

variable {rename : Renaming}

/-- A name that may turn into another is respelled as a name. -/
theorem MayTurn.respells {name name' : Token} (turns : rename.MayTurn name name')
    (named : name.kind = .identifier)
    : rename.Respells name name' ∧ name'.kind = .identifier := by
  obtain ⟨kind, lexeme, literal, line⟩ := name
  obtain ⟨mark, ⟨turns⟩⟩ := turns
  cases turns with
  | kept _ => exact ⟨.kept _, named⟩
  | replaced => exact ⟨.replaced named rfl, named⟩

/-- Tokens that stay as they are count as respelled. -/
theorem RespellsAll.refl (tokens : List Token) : rename.RespellsAll tokens tokens := by
  induction tokens with
  | nil => exact .nil
  | cons token rest ih => exact .cons (.kept token) ih

/-- Two parts that are respelled are respelled together. -/
theorem RespellsAll.append {tokens tokens' others others' : List Token}
    (front : rename.RespellsAll tokens tokens') (back : rename.RespellsAll others others')
    : rename.RespellsAll (tokens ++ others) (tokens' ++ others') := by
  induction front with
  | nil => exact back
  | cons head _ ih => exact .cons head ih

/-- Tokens that stay as they are may stand in front and behind. -/
theorem RespellsAll.keep {tokens tokens' : List Token}
    (respelled : rename.RespellsAll tokens tokens') (token : Token)
    : rename.RespellsAll (token :: tokens) (token :: tokens') :=
  .cons (.kept token) respelled

/-- A last token that stays is behind the respelled ones. -/
theorem RespellsAll.close {tokens tokens' : List Token}
    (respelled : rename.RespellsAll tokens tokens') (last : Token)
    : rename.RespellsAll (tokens ++ [last]) (tokens' ++ [last]) :=
  respelled.append (.refl [last])

/-- The kinds of the tokens are the same. -/
theorem RespellsAll.head_kind {tokens tokens' : List Token}
    (respelled : rename.RespellsAll tokens tokens')
    : tokens'.head?.map (·.kind) = tokens.head?.map (·.kind) := by
  cases respelled with
  | nil => rfl
  | cons head _ => cases head <;> rfl

end Renaming

/-- As many expressions are there as before. -/
theorem RespelledExprs.length {rename : Renaming} {exprs exprs' : List (Expr Unit)}
    (respelled : RespelledExprs rename exprs exprs')
    : exprs'.length = exprs.length := by
  induction exprs generalizing exprs' with
  | nil =>
      obtain rfl := respelled
      rfl
  | cons first rest ih =>
      obtain ⟨first', rest', rfl, -, respelled⟩ := respelled
      exact congrArg (· + 1) (ih respelled)

namespace Grammar

variable {rename : Renaming}

/-- Whatever derives from tokens, spelled otherwise derives from tokens that are spelled otherwise. -/
def Carries (rename : Renaming) {α : Type} (respelled : α → α → Prop)
    (derives : List Token → α → Prop)
    : Prop :=
  ∀ tokens value value', derives tokens value → respelled value value'
    → ∃ tokens', rename.RespellsAll tokens tokens' ∧ derives tokens' value'

/-- What an ending admits it also admits of the respelled tokens, whose kinds are the same. -/
theorem Ending.admits.respelled {ending : Ending} {policy : Policy}
    {following following' : List Token} (admitted : ending.admits policy following)
    (respelled : rename.RespellsAll following following')
    : ending.admits policy following' := by
  intro literal
  rw [respelled.head_kind]
  exact admitted literal

structure Language.Carries (rename : Renaming) (inner : Language) : Prop where
  expression (commas : Bool)
    : Grammar.Carries rename (Expr.Respelled rename) (inner.expression commas)
  names : Grammar.Carries rename rename.MayTurnAll inner.names
  statement (inLoop : Bool) (ending : Ending)
    : Grammar.Carries rename (Stmt.Respelled rename) (inner.statement inLoop ending)
  declaration (inLoop : Bool) (ending : Ending)
    : Grammar.Carries rename (Stmt.Respelled rename) (inner.declaration inLoop ending)

/-- A sequence of statements is respelled one statement after the other, by induction on it. -/
theorem Sequence.carries {policy : Policy} {declaration : Ending → List Token → SourceStmt → Prop}
    (carries : ∀ ending, Carries rename (Stmt.Respelled rename) (declaration ending))
    : Carries rename (RespelledStmts rename) (Sequence policy declaration) := by
  intro tokens statements statements' derived respelled
  induction derived generalizing statements' with
  | nil =>
      obtain rfl := respelled
      exact ⟨[], .nil, .nil⟩
  | cons head admitted _ ih =>
      obtain ⟨first', rest', rfl, first, rest⟩ := respelled
      obtain ⟨front, spelled, head⟩ := carries _ _ _ _ head first
      obtain ⟨back, spelledBack, tail⟩ := ih _ rest
      exact ⟨front ++ back, spelled.append spelledBack,
        .cons head (admitted.respelled spelledBack) tail⟩

section

variable {inner : Language}

-----
-- Functions

/-- A block is respelled between its braces. -/
theorem Block.carries (inside : inner.Carries rename) (inLoop : Bool)
    : Carries rename (RespelledStmts rename) (Block inner inLoop) := by
  intro tokens statements statements' derived respelled
  cases derived with
  | mk opens body closes =>
      obtain ⟨tokens', spelled, body⟩ :=
        Sequence.carries (inside.declaration inLoop) _ _ _ body respelled
      exact ⟨_, (spelled.close _).keep _, .mk opens body closes⟩

/-- Parameters are respelled between their commas, by induction on them. -/
theorem Names.carries : Carries rename rename.MayTurnAll Names := by
  intro tokens names names' derived turns
  induction derived generalizing names' with
  | last named =>
      cases turns with
      | cons head tail =>
      cases tail
      obtain ⟨respells, named⟩ := head.respells named
      exact ⟨_, .cons respells .nil, .last named⟩
  | more named separates _ ih =>
      cases turns with
      | cons head tail =>
      obtain ⟨respells, named⟩ := head.respells named
      obtain ⟨rest, spelled, listed⟩ := ih _ tail
      exact ⟨_, .cons respells (spelled.keep _), .more named separates listed⟩

/-- A parameter list is respelled between its parentheses. -/
theorem Parameters.carries : Carries rename rename.MayTurnAll Parameters := by
  intro tokens names names' derived turns
  cases derived with
  | none =>
      obtain ⟨⟩ := turns
      exact ⟨[], .nil, .none⟩
  | some listed few =>
      obtain ⟨tokens', spelled, listed⟩ := Names.carries _ _ _ listed turns
      exact ⟨tokens', spelled, .some listed (turns.length ▸ few)⟩

-----
-- Expressions

/-- A chain of operands is respelled between its operators, by induction on it. -/
theorem Chain.carries {operand : List Token → SourceExpr → Prop} {operators : List TokenKind}
    {combine : SourceExpr → Token → SourceExpr → SourceExpr}
    (carries : Carries rename (Expr.Respelled rename) operand)
    (combined
      : ∀ left operator right value',
          (combine left operator right).Respelled rename value'
          → ∃ left' right',
              value' = combine left' operator right'
              ∧ left.Respelled rename left'
              ∧ right.Respelled rename right')
    : Carries rename (Expr.Respelled rename) (Chain operand operators combine) := by
  intro tokens value value' derived respelled
  induction derived generalizing value' with
  | one single =>
      obtain ⟨tokens', spelled, single⟩ := carries _ _ _ single respelled
      exact ⟨tokens', spelled, .one single⟩
  | more _ joined back ih =>
      obtain ⟨left', right', rfl, left, right⟩ := combined _ _ _ _ respelled
      obtain ⟨tokens', spelled, front⟩ := ih _ left
      obtain ⟨others', spelledBack, back⟩ := carries _ _ _ back right
      exact ⟨_, spelled.append (spelledBack.keep _), .more front joined back⟩

/-- An operand is respelled, by cases on what it is. -/
theorem Primary.carries (inside : inner.Carries rename)
    : Carries rename (Expr.Respelled rename) (Primary inner) := by
  intro tokens value value' derived respelled
  cases derived with
  | falseWord kind =>
      obtain rfl := respelled
      exact ⟨_, .refl _, .falseWord kind⟩
  | trueWord kind =>
      obtain rfl := respelled
      exact ⟨_, .refl _, .trueWord kind⟩
  | nilWord kind =>
      obtain rfl := respelled
      exact ⟨_, .refl _, .nilWord kind⟩
  | number kind =>
      obtain rfl := respelled
      exact ⟨_, .refl _, .number kind⟩
  | string kind =>
      obtain rfl := respelled
      exact ⟨_, .refl _, .string kind⟩
  | this kind =>
      obtain rfl := respelled
      exact ⟨_, .refl _, .this kind⟩
  | identifier kind =>
      obtain ⟨name', rfl, turns⟩ := respelled
      obtain ⟨respells, kind⟩ := turns.respells kind
      exact ⟨_, .cons respells .nil, .identifier kind⟩
  | super kind dotted named =>
      obtain rfl := respelled
      exact ⟨_, .refl _, .super kind dotted named⟩
  | group opens grouped closes =>
      obtain ⟨inner', rfl, respelled⟩ := respelled
      obtain ⟨tokens', spelled, grouped⟩ := inside.expression _ _ _ _ grouped respelled
      exact ⟨_, (spelled.close _).keep _, .group opens grouped closes⟩
  | arrow opens closes points block =>
      obtain ⟨function', rfl, names', body', rfl, turns, respelled⟩ := respelled
      obtain ⟨⟩ := turns
      obtain ⟨tokens', spelled, block⟩ := Block.carries inside _ _ _ _ block respelled
      exact ⟨_, ((spelled.keep _).keep _).keep _, .arrow opens closes points block⟩
  | arrowNames opens listed few closes points block =>
      obtain ⟨function', rfl, names', body', rfl, turns, respelled⟩ := respelled
      obtain ⟨names, spelledNames, listed⟩ := inside.names _ _ _ listed turns
      obtain ⟨tokens', spelled, block⟩ := Block.carries inside _ _ _ _ block respelled
      exact ⟨_, (spelledNames.append ((spelled.keep _).keep _)).keep _,
        .arrowNames opens listed (turns.length ▸ few) closes points block⟩

/-- Arguments are respelled between their commas, by induction on them. -/
theorem ArgumentList.carries (inside : inner.Carries rename)
    : Carries rename (RespelledExprs rename) (ArgumentList inner) := by
  intro tokens values values' derived respelled
  induction derived generalizing values' with
  | last argument =>
      obtain ⟨first', rest', rfl, first, rfl⟩ := respelled
      obtain ⟨tokens', spelled, argument⟩ := inside.expression _ _ _ _ argument first
      exact ⟨tokens', spelled, .last argument⟩
  | more argument separates _ ih =>
      obtain ⟨first', rest', rfl, first, rest⟩ := respelled
      obtain ⟨tokens', spelled, argument⟩ := inside.expression _ _ _ _ argument first
      obtain ⟨others', spelledRest, rest⟩ := ih _ rest
      exact ⟨_, spelled.append (spelledRest.keep _), .more argument separates rest⟩

/-- An argument list is respelled between its parentheses. -/
theorem Arguments.carries (inside : inner.Carries rename)
    : Carries rename (RespelledExprs rename) (Arguments inner) := by
  intro tokens values values' derived respelled
  cases derived with
  | none =>
      obtain rfl := respelled
      exact ⟨[], .nil, .none⟩
  | some listed few =>
      obtain ⟨tokens', spelled, listed⟩ := ArgumentList.carries inside _ _ _ listed respelled
      exact ⟨tokens', spelled, .some listed (respelled.length ▸ few)⟩

/-- Calls and property reads are respelled, by induction on them. -/
theorem Call.carries (inside : inner.Carries rename)
    : Carries rename (Expr.Respelled rename) (Call inner) := by
  intro tokens value value' derived respelled
  induction derived generalizing value' with
  | primary operand =>
      obtain ⟨tokens', spelled, operand⟩ := Primary.carries inside _ _ _ operand respelled
      exact ⟨tokens', spelled, .primary operand⟩
  | call _ opens passed closes ih =>
      obtain ⟨callee', arguments', rfl, callee, respelled⟩ := respelled
      obtain ⟨tokens', spelled, front⟩ := ih _ callee
      obtain ⟨others', spelledBack, passed⟩ := Arguments.carries inside _ _ _ passed respelled
      exact ⟨_, spelled.append ((spelledBack.close _).keep _), .call front opens passed closes⟩
  | get _ dotted named ih =>
      obtain ⟨object', rfl, respelled⟩ := respelled
      obtain ⟨tokens', spelled, front⟩ := ih _ respelled
      exact ⟨_, spelled.append (.refl _), .get front dotted named⟩

/-- An operator in front of an operand stays. -/
theorem Unary.carries (inside : inner.Carries rename)
    : Carries rename (Expr.Respelled rename) (Unary inner) := by
  intro tokens value value' derived respelled
  induction derived generalizing value' with
  | call operand =>
      obtain ⟨tokens', spelled, operand⟩ := Call.carries inside _ _ _ operand respelled
      exact ⟨tokens', spelled, .call operand⟩
  | operator negates _ ih =>
      obtain ⟨operand', rfl, respelled⟩ := respelled
      obtain ⟨tokens', spelled, operand⟩ := ih _ respelled
      exact ⟨_, spelled.keep _, .operator negates operand⟩

section

variable (inside : inner.Carries rename)

include inside

/-- The levels up to an equality are chains, one above the other. -/
theorem Equality.carries : Carries rename (Expr.Respelled rename) (Equality inner) :=
  have binary : ∀ left operator right value',
      (Expr.binary left operator right).Respelled rename value' → _ :=
    fun _ _ _ _ respelled => respelled
  Chain.carries
    (Chain.carries
      (Chain.carries (Chain.carries (Unary.carries inside) binary) binary) binary) binary

/-- A conditional expression is respelled around its question mark and its colon. -/
theorem Conditional.carries : Carries rename (Expr.Respelled rename) (Conditional inner) := by
  intro tokens value value' derived respelled
  cases derived with
  | equality operand =>
      obtain ⟨tokens', spelled, operand⟩ := Equality.carries inside _ _ _ operand respelled
      exact ⟨tokens', spelled, .equality operand⟩
  | choice tested asks first separates second =>
      obtain ⟨condition', thenCase', elseCase', rfl, condition, thenCase, elseCase⟩ := respelled
      obtain ⟨tokens', spelled, tested⟩ := Equality.carries inside _ _ _ tested condition
      obtain ⟨thenTokens, spelledThen, first⟩ := Equality.carries inside _ _ _ first thenCase
      obtain ⟨elseTokens, spelledElse, second⟩ := Equality.carries inside _ _ _ second elseCase
      exact ⟨_, spelled.append ((spelledThen.append (spelledElse.keep _)).keep _),
        .choice tested asks first separates second⟩

/-- A disjunction of conjunctions is respelled as two chains. -/
theorem LogicOr.carries (commas : Bool)
    : Carries rename (Expr.Respelled rename) (LogicOr inner commas) :=
  have binary : ∀ left operator right value',
      (Expr.binary left operator right).Respelled rename value' → _ :=
    fun _ _ _ _ respelled => respelled
  have logical : ∀ left operator right value',
      (Expr.logical left operator right).Respelled rename value' → _ :=
    fun _ _ _ _ respelled => respelled
  Chain.carries (Chain.carries (Chain.carries (Conditional.carries inside) binary) logical) logical

/-- An assignment is respelled, its target as well. -/
theorem Assignment.carries (commas : Bool)
    : Carries rename (Expr.Respelled rename) (Assignment inner commas) := by
  intro tokens value value' derived respelled
  induction derived generalizing value' with
  | logic operand =>
      obtain ⟨tokens', spelled, operand⟩ := LogicOr.carries inside commas _ _ _ operand respelled
      exact ⟨tokens', spelled, .logic operand⟩
  | name named assigns _ ih =>
      obtain ⟨name', value', rfl, turns, respelled⟩ := respelled
      obtain ⟨respells, named⟩ := turns.respells named
      obtain ⟨tokens', spelled, assigned⟩ := ih _ respelled
      exact ⟨_, .cons respells (spelled.keep _), .name named assigns assigned⟩
  | property owner dotted named assigns _ ih =>
      obtain ⟨object', value', rfl, object, respelled⟩ := respelled
      obtain ⟨front, spelledFront, owner⟩ := Call.carries inside _ _ _ owner object
      obtain ⟨tokens', spelled, assigned⟩ := ih _ respelled
      exact ⟨_, spelledFront.append (((spelled.keep _).keep _).keep _),
        .property owner dotted named assigns assigned⟩

/-- An expression that may be missing is respelled if it is there. -/
theorem OptionalExpression.carries
    : Carries rename (RespelledOptional rename) (OptionalExpression inner) := by
  intro tokens value value' derived respelled
  cases derived with
  | none =>
      obtain rfl := respelled
      exact ⟨[], .nil, .none⟩
  | some written =>
      obtain ⟨inner', rfl, respelled⟩ := respelled
      obtain ⟨tokens', spelled, written⟩ := inside.expression _ _ _ _ written respelled
      exact ⟨tokens', spelled, .some written⟩

-----
-- Declarations

/-- A function is respelled behind its name. -/
theorem NamedFunction.carries (name : Token)
    : Carries rename (Lambda.Respelled rename)
        (fun tokens function => NamedFunction inner tokens name function) := by
  intro tokens function function' derived respelled
  cases derived with
  | mk named opens listed closes block =>
      obtain ⟨names', body', rfl, turns, respelled⟩ := respelled
      obtain ⟨names, spelledNames, listed⟩ := Parameters.carries _ _ _ listed turns
      obtain ⟨body, spelled, block⟩ := Block.carries inside _ _ _ _ block respelled
      exact ⟨_, ((spelledNames.append (spelled.keep _)).keep _).keep _,
        .mk named opens listed closes block⟩

/-- Methods are respelled one after the other, their names staying. -/
theorem Methods.carries : Carries rename (RespelledMethods rename) (Methods inner) := by
  intro tokens methods methods' derived respelled
  induction derived generalizing methods' with
  | nil =>
      obtain rfl := respelled
      exact ⟨[], .nil, .nil⟩
  | cons head _ ih =>
      obtain ⟨function', rest', rfl, function, rest⟩ := respelled
      obtain ⟨front, spelled, head⟩ := NamedFunction.carries inside _ _ _ _ head function
      obtain ⟨back, spelledBack, tail⟩ := ih _ rest
      exact ⟨_, spelled.append spelledBack, .cons head tail⟩

/-- The rest of a variable declaration is respelled, its initial value as well. -/
theorem VariableRest.carries (ending : Ending)
    : Carries rename (Stmt.Respelled rename) (VariableRest inner ending) := by
  intro tokens declared declared' derived respelled
  cases derived with
  | plain named ends =>
      obtain ⟨name', initial', rfl, turns, rfl⟩ := respelled
      obtain ⟨respells, named⟩ := turns.respells named
      exact ⟨_, .cons respells (.refl _), .plain named ends⟩
  | initialized named assigns initial ends =>
      obtain ⟨name', initial', rfl, turns, value', rfl, respelled⟩ := respelled
      obtain ⟨respells, named⟩ := turns.respells named
      obtain ⟨tokens', spelled, initial⟩ := inside.expression _ _ _ _ initial respelled
      exact ⟨_, .cons respells ((spelled.close _).keep _), .initialized named assigns initial ends⟩
  | literal named assigns initial =>
      obtain ⟨name', initial', rfl, turns, value', rfl, function', rfl, respelled⟩ := respelled
      obtain ⟨respells, named⟩ := turns.respells named
      obtain ⟨tokens', spelled, initial⟩ :=
        inside.expression _ _ _ (.function function') initial ⟨_, rfl, respelled⟩
      exact ⟨_, .cons respells (spelled.keep _), .literal named assigns initial⟩

-----
-- Statements

/-- An expression statement is respelled up to its semicolon. -/
theorem ExpressionStatement.carries
    : Carries rename (Stmt.Respelled rename) (ExpressionStatement inner) := by
  intro tokens statement statement' derived respelled
  cases derived with
  | mk written ends =>
      obtain ⟨value', rfl, respelled⟩ := respelled
      obtain ⟨tokens', spelled, written⟩ := inside.expression _ _ _ _ written respelled
      exact ⟨_, spelled.close _, .mk written ends⟩

/-- The first clause of a `for` is respelled, a declaration or an expression. -/
theorem ForInitial.carries (ending : Ending)
    : Carries rename (RespelledElse rename) (ForInitial inner ending) := by
  intro tokens initial initial' derived respelled
  cases derived with
  | none ends =>
      obtain rfl := respelled
      exact ⟨_, .refl _, .none ends⟩
  | declaration declares rest =>
      obtain ⟨declared', rfl, respelled⟩ := respelled
      obtain ⟨tokens', spelled, rest⟩ := VariableRest.carries inside _ _ _ _ rest respelled
      exact ⟨_, spelled.keep _, .declaration declares rest⟩
  | expression written =>
      obtain ⟨statement', rfl, respelled⟩ := respelled
      obtain ⟨tokens', spelled, written⟩ := ExpressionStatement.carries inside _ _ _ written respelled
      exact ⟨_, spelled, .expression written⟩

end

/-- A condition that was left out stays left out. -/
theorem respelled_condition {condition : Option SourceExpr} {value' : SourceExpr}
    (respelled : (condition.getD (.literal (.boolean true))).Respelled rename value')
    : ∃ condition' : Option SourceExpr,
        value' = condition'.getD (.literal (.boolean true))
        ∧ RespelledOptional rename condition condition' := by
  cases condition with
  | none => exact ⟨none, respelled, rfl⟩
  | some condition => exact ⟨some value', rfl, _, rfl, respelled⟩

/-- A respelled `for` tree comes from respelled clauses. -/
theorem respelled_whileLoop {condition increment : Option SourceExpr} {body statement' : SourceStmt}
    (respelled : (forLoop none condition increment body).Respelled rename statement')
    : ∃ condition' increment' body',
        statement' = forLoop none condition' increment' body'
        ∧ RespelledOptional rename condition condition'
        ∧ RespelledOptional rename increment increment'
        ∧ body.Respelled rename body' := by
  obtain ⟨statements', rfl, loop', _, rfl, ⟨tested', repeated', rfl, tested, repeated⟩, rfl⟩ :=
    respelled
  obtain ⟨condition', rfl, condition⟩ := respelled_condition tested
  cases increment with
  | none => exact ⟨condition', none, repeated', rfl, condition, rfl, repeated⟩
  | some increment =>
      obtain ⟨_, rfl, body', _, rfl, body, _, _, rfl, ⟨increment', rfl, stepped⟩, rfl⟩ := repeated
      exact ⟨condition', some increment', body', rfl, condition, ⟨_, rfl, stepped⟩, body⟩

/-- The parts of a `for` are spelled otherwise one by one. -/
theorem respelled_forLoop {initial : Option SourceStmt} {condition increment : Option SourceExpr}
    {body statement' : SourceStmt}
    (respelled : (forLoop initial condition increment body).Respelled rename statement')
    : ∃ initial' condition' increment' body',
        statement' = forLoop initial' condition' increment' body'
        ∧ RespelledElse rename initial initial'
        ∧ RespelledOptional rename condition condition'
        ∧ RespelledOptional rename increment increment'
        ∧ body.Respelled rename body' := by
  cases initial with
  | none =>
      obtain ⟨condition', increment', body', rfl, parts⟩ := respelled_whileLoop respelled
      exact ⟨none, condition', increment', body', rfl, rfl, parts⟩
  | some initial =>
      obtain ⟨statements', rfl, initial', rest', rfl, started, looped⟩ := respelled
      have alone : (forLoop none condition increment body).Respelled rename (.block rest') :=
        ⟨rest', rfl, looped⟩
      obtain ⟨condition', increment', body', same, parts⟩ := respelled_whileLoop alone
      obtain rfl := Stmt.block.inj same
      exact ⟨some initial', condition', increment', body', rfl, ⟨_, rfl, started⟩, parts⟩

section

variable (inside : inner.Carries rename)

include inside

/-- A statement is respelled, by cases on its first token. -/
theorem Statement.carries (inLoop : Bool) (ending : Ending)
    : Carries rename (Stmt.Respelled rename) (Statement inner inLoop ending) := by
  intro tokens statement statement' derived respelled
  cases derived with
  | expression written =>
      obtain ⟨tokens', spelled, written⟩ := ExpressionStatement.carries inside _ _ _ written respelled
      exact ⟨tokens', spelled, .expression written⟩
  | print kind written ends =>
      obtain ⟨value', rfl, respelled⟩ := respelled
      obtain ⟨tokens', spelled, written⟩ := inside.expression _ _ _ _ written respelled
      exact ⟨_, (spelled.close _).keep _, .print kind written ends⟩
  | printLine kind written ends =>
      obtain ⟨value', rfl, respelled⟩ := respelled
      obtain ⟨tokens', spelled, written⟩ := OptionalExpression.carries inside _ _ _ written respelled
      exact ⟨_, (spelled.close _).keep _, .printLine kind written ends⟩
  | returnValue kind written ends =>
      obtain ⟨value', rfl, respelled⟩ := respelled
      obtain ⟨tokens', spelled, written⟩ := OptionalExpression.carries inside _ _ _ written respelled
      exact ⟨_, (spelled.close _).keep _, .returnValue kind written ends⟩
  | breakLoop kind within ends =>
      obtain rfl := respelled
      exact ⟨_, .refl _, .breakLoop kind within ends⟩
  | block braced =>
      obtain ⟨statements', rfl, respelled⟩ := respelled
      obtain ⟨tokens', spelled, braced⟩ := Block.carries inside _ _ _ _ braced respelled
      exact ⟨tokens', spelled, .block braced⟩
  | branch kind opens tested closes first =>
      obtain ⟨condition', thenBranch', _, rfl, condition, thenBranch, rfl⟩ := respelled
      obtain ⟨tokens', spelled, tested⟩ := inside.expression _ _ _ _ tested condition
      obtain ⟨thenTokens, spelledThen, first⟩ := inside.statement _ _ _ _ _ first thenBranch
      exact ⟨_, ((spelled.append (spelledThen.keep _)).keep _).keep _,
        .branch kind opens tested closes first⟩
  | branchElse kind opens tested closes first otherwise second =>
      obtain ⟨condition', thenBranch', _, rfl, condition, thenBranch, elseBranch', rfl, elseBranch⟩ :=
        respelled
      obtain ⟨tokens', spelled, tested⟩ := inside.expression _ _ _ _ tested condition
      obtain ⟨thenTokens, spelledThen, first⟩ := inside.statement _ _ _ _ _ first thenBranch
      obtain ⟨elseTokens, spelledElse, second⟩ := inside.statement _ _ _ _ _ second elseBranch
      exact ⟨_, ((spelled.append ((spelledThen.append (spelledElse.keep _)).keep _)).keep _).keep _,
        .branchElse kind opens tested closes first otherwise second⟩
  | loop kind opens tested closes repeated =>
      obtain ⟨condition', body', rfl, condition, body⟩ := respelled
      obtain ⟨tokens', spelled, tested⟩ := inside.expression _ _ _ _ tested condition
      obtain ⟨others, spelledBody, repeated⟩ := inside.statement _ _ _ _ _ repeated body
      exact ⟨_, ((spelled.append (spelledBody.keep _)).keep _).keep _,
        .loop kind opens tested closes repeated⟩
  | forLoop kind opens starts admitted tested ends stepped closes repeated =>
      obtain ⟨initial', condition', increment', body', rfl, initial, condition, increment, body⟩ :=
        respelled_forLoop respelled
      obtain ⟨front, spelledFront, starts⟩ := ForInitial.carries inside _ _ _ _ starts initial
      obtain ⟨tests, spelledTests, tested⟩ :=
        OptionalExpression.carries inside _ _ _ tested condition
      obtain ⟨steps, spelledSteps, stepped⟩ :=
        OptionalExpression.carries inside _ _ _ stepped increment
      obtain ⟨others, spelledBody, repeated⟩ := inside.statement _ _ _ _ _ repeated body
      exact ⟨_, ((spelledFront.append (spelledTests.append
          ((spelledSteps.append (spelledBody.keep _)).keep _))).keep _).keep _,
        .forLoop kind opens starts (admitted.respelled (spelledTests.close _)) tested ends stepped
          closes repeated⟩

/-- A declaration is respelled, by cases on its first token. -/
theorem Declaration.carries (inLoop : Bool) (ending : Ending)
    : Carries rename (Stmt.Respelled rename) (Declaration inner inLoop ending) := by
  intro tokens statement statement' derived respelled
  cases derived with
  | «class» kind named inherits opens listed closes =>
      cases inherits with
      | none =>
          obtain ⟨methods', rfl, respelled⟩ := respelled
          obtain ⟨tokens', spelled, listed⟩ := Methods.carries inside _ _ _ listed respelled
          exact ⟨_, (((spelled.close _).keep _).keep _).keep _,
            .class kind named .none opens listed closes⟩
      | some inherits namedAbove =>
          obtain ⟨name', methods', rfl, turns, respelled⟩ := respelled
          obtain ⟨respells, namedAbove⟩ := turns.respells namedAbove
          obtain ⟨tokens', spelled, listed⟩ := Methods.carries inside _ _ _ listed respelled
          exact ⟨_, (((Renaming.RespellsAll.cons respells
              ((spelled.close _).keep _)).keep _).keep _).keep _,
            .class kind named (.some inherits namedAbove) opens listed closes⟩
  | function kind defined =>
      obtain ⟨function', rfl, respelled⟩ := respelled
      obtain ⟨tokens', spelled, defined⟩ := NamedFunction.carries inside _ _ _ _ defined respelled
      exact ⟨_, spelled.keep _, .function kind defined⟩
  | declaration kind rest =>
      obtain ⟨tokens', spelled, rest⟩ := VariableRest.carries inside _ _ _ _ rest respelled
      exact ⟨_, spelled.keep _, .declaration kind rest⟩
  | statement plain =>
      obtain ⟨tokens', spelled, plain⟩ := Statement.carries inside _ _ _ _ _ plain respelled
      exact ⟨tokens', spelled, .statement plain⟩

end

end

-----
-- Unfolding

/-- Every nesting of the grammar respells the trees it derives, by induction on the nesting. -/
theorem language_carries (rename : Renaming) (policy : Policy) (nesting : Nat)
    : (language policy nesting).Carries rename := by
  induction nesting with
  | zero =>
      exact {
        expression := fun _ _ _ _ derived => derived.elim
        names := fun _ _ _ listed => listed.elim
        statement := fun _ _ _ _ _ derived => derived.elim
        declaration := fun _ _ _ _ _ derived => derived.elim
      }
  | succ nesting ih =>
      exact {
        expression := Assignment.carries ih
        names := Names.carries
        statement := Statement.carries ih
        declaration := Declaration.carries ih
      }

/-- A program in which some names are spelled otherwise derives from tokens that are. -/
theorem Derives.carries (rename : Renaming) (policy : Policy) (depth : Nat)
    : Carries rename (RespelledStmts rename) (Derives policy depth) :=
  Sequence.carries ((language_carries rename policy (depth + 1)).declaration false)

end Grammar

end Lox
