import Lox.Proofs.Joining.Derivations

/-! Reading does not depend on the lines that tokens stand on.

The same tokens on other lines are read to the same trees, with the same mistakes, on those lines.
This holds of texts with mistakes, too, which no derivation speaks of, so it is shown of the rules
themselves.
-/

namespace Lox

/-- What is read, on other lines. -/
def Parse.moved (move : Nat → Nat) (parsed : Parse) : Parse :=
  {
    statements := movedStmts move parsed.statements,
    errors := parsed.errors.map (·.moved move)
  }

end Lox

namespace Lox.Grammar

-----
-- Cursors

def Cursor.moved (move : Nat → Nat) (cursor : Cursor) : Cursor :=
  {
    cursor with
    ahead := movedTokens move cursor.ahead,
    errors := cursor.errors.map (·.moved move)
  }

/-- The same outcome on other lines. -/
def movedResult {α β : Type} (move : Nat → Nat) (image : α → β)
    : EStateM.Result Unwinding Cursor α → EStateM.Result Unwinding Cursor β
  | .ok value after => .ok (image value) (after.moved move)
  | .error unwinding after => .error unwinding (after.moved move)

/-- On other lines the second rule comes out as the first one does. -/
def Moves {α β : Type} (move : Nat → Nat) (image : α → β) (rule : Rule α) (rule' : Rule β)
    : Prop :=
  ∀ cursor : Cursor, rule' (cursor.moved move) = movedResult move image (rule cursor)

namespace Cursor

variable {move : Nat → Nat}

/-- A mistake recorded on another line is the mistake moved to that line. -/
theorem moved_report (cursor : Cursor) (token : Token) (problem : Problem)
    : (cursor.report token problem).moved move
        = (cursor.moved move).report (token.moved move) problem := by
  simp [moved, report, Diagnostic.atToken_moved]

/-- Behind the last token the end of input is taken to stand on the first line, which must stay. -/
theorem moved_next (fixed : move 1 = 1) (cursor : Cursor)
    : (cursor.moved move).next = cursor.next.moved move := by
  unfold next moved
  cases cursor.ahead with
  | nil => simp [Token.endOfInput, Token.moved, fixed]
  | cons token rest => rfl

section

variable (fixed : move 1 = 1) (cursor : Cursor)

include fixed

/-- Moving lines does not change whether the text is over. -/
theorem moved_atEnd : (cursor.moved move).atEnd = cursor.atEnd := by
  unfold atEnd
  rw [moved_next fixed, Token.moved_kind]

/-- Moving lines does not change the kind of the next token. -/
theorem moved_nextIsAny (kinds : List TokenKind)
    : (cursor.moved move).nextIsAny kinds = cursor.nextIsAny kinds := by
  unfold nextIsAny
  rw [moved_atEnd fixed, moved_next fixed, Token.moved_kind]

/-- Moving lines does not change whether a block is over. -/
theorem moved_atBlockEnd : (cursor.moved move).atBlockEnd = cursor.atBlockEnd := by
  unfold atBlockEnd
  rw [moved_atEnd fixed, moved_nextIsAny fixed]

/-- A token is dropped alike on any line, unless it is the end of input. -/
theorem moved_drop : (cursor.moved move).drop = cursor.drop.moved move := by
  unfold drop
  rw [moved_atEnd fixed]
  split
  · rfl
  · simp [moved, movedTokens, List.map_tail]

end

end Cursor

-----
-- Putting rules together

namespace Moves

variable {α β γ δ : Type} {move : Nat → Nat} {image : α → β} {rule : Rule α} {rule' : Rule β}

/-- A rule that reads nothing yields the moved value on other lines. -/
theorem pure {value : α} {value' : β} (same : value' = image value)
    : Moves move image (Pure.pure value) (Pure.pure value') := by
  subst same
  exact fun _ => rfl

/-- Unwinding is the same on any line. -/
theorem throw {unwinding : Unwinding}
    : Moves move image (MonadExcept.throw unwinding) (MonadExcept.throw unwinding) :=
  fun _ => rfl

/-- Rules in a row come out moved if each does, by cases on how the first ends. -/
theorem bind {image' : γ → δ} {next : α → Rule γ} {next' : β → Rule δ}
    (front : Moves move image rule rule')
    (back : ∀ value, Moves move image' (next value) (next' (image value)))
    : Moves move image' (rule >>= next) (rule' >>= next') := by
  intro cursor
  change EStateM.bind rule' next' (cursor.moved move)
    = movedResult move image' (EStateM.bind rule next cursor)
  unfold EStateM.bind
  rw [front cursor]
  cases rule cursor with
  | error unwinding after => rfl
  | ok value after => exact back value after

/-- A changed value comes out moved if the change commutes with moving. -/
theorem map {image' : γ → δ} {change : α → γ} {change' : β → δ}
    (moves : Moves move image rule rule')
    (changed : ∀ value, change' (image value) = image' (change value))
    : Moves move image' (change <$> rule) (change' <$> rule') := by
  intro cursor
  change EStateM.map change' rule' (cursor.moved move)
    = movedResult move image' (EStateM.map change rule cursor)
  unfold EStateM.map
  rw [moves cursor]
  cases rule cursor with
  | error unwinding after => rfl
  | ok value after => exact congrArg (EStateM.Result.ok · _) (changed value)

/-- A rule that looks at the cursor first comes out moved if it does so at every cursor. -/
theorem get {next : Cursor → Rule α} {next' : Cursor → Rule β}
    (moves : ∀ cursor, Moves move image (next cursor) (next' (cursor.moved move)))
    : Moves move image (MonadState.get >>= next) (MonadState.get >>= next') :=
  fun cursor => moves cursor cursor

/-- Where both rules ask the same question they get the same answer. -/
theorem ite {condition : Prop} [Decidable condition] {other : Rule α} {other' : Rule β}
    (yes : Moves move image rule rule') (no : Moves move image other other')
    : Moves move image (if condition then rule else other)
        (if condition then rule' else other') := by
  split
  · exact yes
  · exact no

/-- A rule in a changed context comes out moved if the changes to the context commute with moving.
-/
theorem inContext {enter : Cursor → Cursor} {leave : Cursor → Cursor → Cursor}
    (moves : Moves move image rule rule')
    (entered : ∀ cursor, enter (cursor.moved move) = (enter cursor).moved move)
    (left
      : ∀ before after : Cursor,
          leave (before.moved move) (after.moved move) = (leave before after).moved move)
    : Moves move image (Grammar.inContext enter leave rule)
        (Grammar.inContext enter leave rule') := by
  intro cursor
  unfold Grammar.inContext
  simp only [entered, moves (enter cursor)]
  cases rule (enter cursor) with
  | error unwinding after => exact congrArg (EStateM.Result.error _) (left cursor after)
  | ok value after => exact congrArg (EStateM.Result.ok _) (left cursor after)

/-- Switching the comma operator has nothing to do with lines. -/
theorem withComma (moves : Moves move image rule rule') (enabled : Bool)
    : Moves move image (Grammar.withComma enabled rule) (Grammar.withComma enabled rule') :=
  moves.inContext (fun _ => rfl) fun _ _ => rfl

/-- Leaving all loops has nothing to do with lines. -/
theorem outsideLoops (moves : Moves move image rule rule')
    : Moves move image (Grammar.outsideLoops rule) (Grammar.outsideLoops rule') :=
  moves.inContext (fun _ => rfl) fun _ _ => rfl

/-- Entering a loop has nothing to do with lines. -/
theorem insideLoop (moves : Moves move image rule rule')
    : Moves move image (Grammar.insideLoop rule) (Grammar.insideLoop rule') :=
  moves.inContext (fun _ => rfl) fun _ _ => rfl

end Moves

-----
-- Tokens

section

variable {move : Nat → Nat} (fixed : move 1 = 1)

/-- A mistake is recorded on the line that its token is moved to. -/
theorem moves_report (token : Token) (problem : Problem)
    : Moves move id (report token problem) (report (token.moved move) problem) :=
  fun cursor => congrArg (EStateM.Result.ok ()) (cursor.moved_report token problem).symm

/-- A mistake that unwinds is recorded on the line that its token is moved to. -/
theorem moves_fail {α β : Type} {image : α → β} (token : Token) (problem : Problem)
    : Moves move image (fail token problem) (fail (token.moved move) problem) :=
  (moves_report token problem).bind fun _ => .throw

include fixed

/-- The next token is the moved one. -/
theorem moves_next : Moves move (Token.moved move) next next :=
  fun cursor => congrArg (EStateM.Result.ok · _) (cursor.moved_next fixed)

/-- The text is over on other lines just if it is over. -/
theorem moves_atEnd : Moves move id atEnd atEnd :=
  fun cursor => congrArg (EStateM.Result.ok · _) (cursor.moved_atEnd fixed)

/-- The next token has the same kind on any line. -/
theorem moves_nextIs (kind : TokenKind) : Moves move id (nextIs kind) (nextIs kind) :=
  fun cursor => congrArg (EStateM.Result.ok · _) (cursor.moved_nextIsAny fixed [kind])

/-- A token is dropped on any line. -/
theorem moves_drop : Moves move id (modify Cursor.drop) (modify Cursor.drop) :=
  fun cursor => congrArg (EStateM.Result.ok ()) (cursor.moved_drop fixed)

/-- A token of some kinds is taken on other lines just if it is taken. -/
theorem moves_acceptAny? (kinds : List TokenKind)
    : Moves move (Option.map (Token.moved move)) (acceptAny? kinds) (acceptAny? kinds) := by
  intro cursor
  unfold acceptAny?
  rw [cursor.moved_nextIsAny fixed, cursor.moved_next fixed, cursor.moved_drop fixed]
  split <;> rfl

/-- A token that may be missing is found on other lines just if it is found. -/
theorem moves_accept (kind : TokenKind) : Moves move id (accept kind) (accept kind) :=
  (moves_acceptAny? fixed [kind]).bind fun found => .pure (by cases found <;> rfl)

/-- A token that has to be there is taken on its line, or missed at the line of the next one. -/
theorem moves_expect (kind : TokenKind) (item : Expected)
    : Moves move (Token.moved move) (expect kind item) (expect kind item) := by
  refine (moves_acceptAny? fixed [kind]).bind fun found => ?_
  cases found with
  | none => exact (moves_next fixed).bind fun token => moves_fail token _
  | some token => exact .pure rfl

/-- A list that is too long is reported at the moved token. -/
theorem moves_checkRoom (earlier : Nat) (problem : Problem)
    : Moves move id (checkRoom earlier problem) (checkRoom earlier problem) :=
  .ite ((moves_next fixed).bind fun token => moves_report token problem) (.pure rfl)

end

-----
-- Nested rules

/-- The rules for nested places do not depend on lines. -/
structure Rules.Movable (move : Nat → Nat) (rules : Rules) : Prop where
  expression : Moves move (Expr.moved move) rules.expression rules.expression
  statement : Moves move (Stmt.moved move) rules.statement rules.statement
  declaration : Moves move (movedElse move) rules.declaration rules.declaration

/-- Declarations one behind the other come out moved, by induction on the tokens that bound the
loop. -/
theorem moves_declarationsUntil {move : Nat → Nat} {stop : Cursor → Bool}
    {declaration : Rule (Option SourceStmt)}
    (moves : Moves move (movedElse move) declaration declaration)
    (stops : ∀ cursor : Cursor, stop (cursor.moved move) = stop cursor) (bound : List Token)
    : Moves move (movedStmts move) (declarationsUntil stop declaration bound)
        (declarationsUntil stop declaration (movedTokens move bound)) := by
  induction bound with
  | nil => exact .pure rfl
  | cons token bound ih =>
      refine .get fun cursor => ?_
      rw [stops]
      refine .ite (.pure rfl) (moves.bind fun declared => ih.bind fun rest => .pure ?_)
      cases declared <;> rfl

section

variable {move : Nat → Nat} (fixed : move 1 = 1) {rules : Rules} (movable : rules.Movable move)

include fixed movable

-----
-- Functions

/-- A block is read as the moved statements. -/
theorem moves_block : Moves move (movedStmts move) (block rules) (block rules) := by
  have body
      : Moves move (movedStmts move)
          (withComma true do
            declarationsUntil Cursor.atBlockEnd rules.declaration (← MonadState.get).ahead)
          (withComma true do
            declarationsUntil Cursor.atBlockEnd rules.declaration (← MonadState.get).ahead) :=
    .withComma
      (.get fun _ =>
        moves_declarationsUntil movable.declaration (Cursor.moved_atBlockEnd fixed) _)
      true
  exact body.bind fun _ => (moves_expect fixed _ _).bind fun _ => .pure rfl

/-- The body of a function is read as the moved statements. -/
theorem moves_functionBody
    : Moves move (movedStmts move) (functionBody rules) (functionBody rules) :=
  (moves_block fixed movable).outsideLoops

/-- The body behind an arrow comes out as the moved function. -/
theorem moves_arrowBody (parameters : List Token)
    : Moves move (Expr.moved move) (arrowBody rules parameters)
        (arrowBody rules (movedTokens move parameters)) :=
  (moves_expect fixed _ _).bind fun _ =>
    (moves_functionBody fixed movable).bind fun _ => .pure rfl

omit fixed movable in
/-- An expression lists names on other lines just if it does, and lists the moved ones. -/
theorem parameterNames?_moved
    : ∀ expr : SourceExpr,
        parameterNames? (expr.moved move) = (parameterNames? expr).map (movedTokens move)
  | .variable _ => rfl
  | .binary left operator right => by
      by_cases comma : operator.kind = .comma
      · simp only [Expr.moved, parameterNames?, Token.moved_kind, comma, if_true,
          parameterNames?_moved left, parameterNames?_moved right]
        cases parameterNames? left <;> cases parameterNames? right <;> simp [movedTokens_append]
      · simp [Expr.moved, parameterNames?, comma]
  | .literal _ | .grouping _ | .unary _ _ | .logical _ _ _ | .conditional _ _ _ | .assign _ _
  | .call _ _ _ | .get _ _ | .set _ _ _ | .this _ | .super _ _ | .function _ => rfl

/-- What starts with a parenthesis comes out moved, whether it is a group or a function. -/
theorem moves_groupOrArrow
    : Moves move (Expr.moved move) (groupOrArrow rules) (groupOrArrow rules) := by
  refine (moves_accept fixed _).bind fun empty => .ite ?_ ?_
  · exact (moves_expect fixed _ _).bind fun _ => moves_arrowBody fixed movable []
  · refine (movable.expression.withComma true).bind fun inner => ?_
    refine (moves_expect fixed _ _).bind fun _ => (moves_acceptAny? fixed [.arrow]).bind ?_
    intro arrow
    cases arrow with
    | none => exact .pure rfl
    | some arrow =>
        simp only [Option.map_some, parameterNames?_moved]
        cases parameterNames? inner with
        | none => exact moves_fail arrow _
        | some parameters =>
            have checked
                : Moves move id (checkNames arrow parameters)
                    (checkNames (arrow.moved move) (movedTokens move parameters)) := by
              unfold checkNames
              rw [movedTokens, List.length_map]
              exact .ite (moves_report arrow _) (.pure rfl)
            exact checked.bind fun _ => moves_arrowBody fixed movable parameters

-----
-- Operands

omit movable in
/-- A token that stands for a value is taken on any line. -/
theorem moves_takeAs (value : SourceExpr)
    : Moves move (Expr.moved move) (takeAs value) (takeAs (value.moved move)) :=
  (moves_drop fixed).bind fun _ => .pure rfl

/-- An operand comes out moved, by cases on its first token. -/
theorem moves_primary : Moves move (Expr.moved move) (primary rules) (primary rules) := by
  refine (moves_next fixed).bind fun token => ?_
  rw [Token.moved_kind]
  split
  · exact moves_takeAs fixed _
  · exact moves_takeAs fixed _
  · exact moves_takeAs fixed _
  · exact moves_takeAs fixed _
  · exact moves_takeAs fixed _
  · exact moves_takeAs fixed (.this (reference token))
  · exact moves_takeAs fixed (.variable (reference token))
  · refine (moves_drop fixed).bind fun _ => (moves_expect fixed _ _).bind fun _ => ?_
    exact (moves_expect fixed _ _).bind fun _ => .pure rfl
  · exact (moves_drop fixed).bind fun _ => moves_groupOrArrow fixed movable
  · exact moves_fail token _

-----
-- Calls

/-- Further arguments come out moved, by induction on the tokens that bound the loop. -/
theorem moves_argumentsFrom (earlier : Nat) (bound : List Token)
    : Moves move (movedExprs move) (argumentsFrom rules earlier bound)
        (argumentsFrom rules earlier (movedTokens move bound)) := by
  induction bound generalizing earlier with
  | nil => exact .pure rfl
  | cons token bound ih =>
      refine (moves_checkRoom fixed _ _).bind fun _ => movable.expression.bind fun argument => ?_
      refine (moves_accept fixed _).bind fun more => .ite ?_ (.pure rfl)
      exact (ih (earlier + 1)).bind fun rest => .pure rfl

/-- A call comes out with its parenthesis and its arguments moved. -/
theorem moves_callEnd (callee : SourceExpr)
    : Moves move (Expr.moved move) (callEnd rules callee) (callEnd rules (callee.moved move)) := by
  have passed : Moves move (movedExprs move) (arguments rules) (arguments rules) := by
    refine (moves_nextIs fixed _).bind fun _ => .ite (.pure rfl) ?_
    exact .withComma (.get fun _ => moves_argumentsFrom fixed movable 0 _) false
  exact passed.bind fun values => (moves_expect fixed _ _).bind fun paren => .pure rfl

/-- Calls and property reads in a row come out moved, by induction on the tokens that bound the
loop. -/
theorem moves_callFrom (callee : SourceExpr) (bound : List Token)
    : Moves move (Expr.moved move) (callFrom rules callee bound)
        (callFrom rules (callee.moved move) (movedTokens move bound)) := by
  induction bound generalizing callee with
  | nil => exact .pure rfl
  | cons token bound ih =>
      refine (moves_accept fixed _).bind fun opens => .ite ?_ ?_
      · exact (moves_callEnd fixed movable callee).bind fun call => ih call
      · refine (moves_accept fixed _).bind fun dotted => .ite ?_ (.pure rfl)
        exact (moves_expect fixed _ _).bind fun name => ih (.get callee name)

/-- A call is read as the moved call. -/
theorem moves_call : Moves move (Expr.moved move) (call rules) (call rules) :=
  (moves_primary fixed movable).bind fun callee =>
    .get fun _ => moves_callFrom fixed movable callee _

-----
-- Levels

/-- Operators in front of an operand come out moved, by induction on the tokens that bound the loop.
-/
theorem moves_unaryFrom (bound : List Token)
    : Moves move (Expr.moved move) (unaryFrom rules bound)
        (unaryFrom rules (movedTokens move bound)) := by
  induction bound with
  | nil => exact moves_call fixed movable
  | cons token bound ih =>
      refine (moves_acceptAny? fixed _).bind fun operator => ?_
      cases operator with
      | none => exact moves_call fixed movable
      | some operator => exact ih.bind fun operand => .pure rfl

omit fixed movable in
/-- Operands joined by operators come out moved if joining commutes with moving, by induction on the
tokens that bound the loop. -/
theorem moves_chainFrom {operator? : Rule (Option Token)} {operand : Rule SourceExpr}
    {combine : SourceExpr → Token → SourceExpr → SourceExpr}
    (operators : Moves move (Option.map (Token.moved move)) operator? operator?)
    (operands : Moves move (Expr.moved move) operand operand)
    (combined
      : ∀ left operator right,
          combine (left.moved move) (operator.moved move) (right.moved move)
            = (combine left operator right).moved move)
    (left : SourceExpr) (bound : List Token)
    : Moves move (Expr.moved move) (chainFrom operator? operand combine left bound)
        (chainFrom operator? operand combine (left.moved move) (movedTokens move bound)) := by
  induction bound generalizing left with
  | nil => exact .pure rfl
  | cons token bound ih =>
      refine operators.bind fun operator => ?_
      cases operator with
      | none => exact .pure rfl
      | some operator =>
          refine operands.bind fun right => ?_
          rw [combined]
          exact ih (combine left operator right)

omit fixed movable in
/-- A chain comes out moved if its operands do and joining commutes with moving. -/
theorem moves_chain {operator? : Rule (Option Token)} {operand : Rule SourceExpr}
    {combine : SourceExpr → Token → SourceExpr → SourceExpr}
    (operators : Moves move (Option.map (Token.moved move)) operator? operator?)
    (operands : Moves move (Expr.moved move) operand operand)
    (combined
      : ∀ left operator right,
          combine (left.moved move) (operator.moved move) (right.moved move)
            = (combine left operator right).moved move)
    : Moves move (Expr.moved move) (chain operator? operand combine)
        (chain operator? operand combine) :=
  operands.bind fun left => .get fun _ => moves_chainFrom operators operands combined left _

/-- An equality is read as the moved one, level by level. -/
theorem moves_equality : Moves move (Expr.moved move) (equality rules) (equality rules) := by
  have level {operand : Rule SourceExpr} (kinds : List TokenKind)
      (operands : Moves move (Expr.moved move) operand operand)
      : Moves move (Expr.moved move) (chain (acceptAny? kinds) operand .binary)
          (chain (acceptAny? kinds) operand .binary) :=
    moves_chain (moves_acceptAny? fixed kinds) operands fun _ _ _ => rfl
  have unary : Moves move (Expr.moved move) (unary rules) (unary rules) :=
    .get fun _ => moves_unaryFrom fixed movable _
  exact level _ (level _ (level _ (level _ unary)))

/-- A conditional expression is read as the moved one. -/
theorem moves_conditional
    : Moves move (Expr.moved move) (conditional rules) (conditional rules) := by
  refine (moves_equality fixed movable).bind fun condition => ?_
  refine (moves_accept fixed _).bind fun asks => .ite ?_ (.pure rfl)
  refine (moves_equality fixed movable).bind fun thenCase => (moves_expect fixed _ _).bind fun _ => ?_
  exact (moves_equality fixed movable).bind fun elseCase => .pure rfl

/-- A disjunction is read as the moved one, level by level. -/
theorem moves_logicOr : Moves move (Expr.moved move) (logicOr rules) (logicOr rules) := by
  have commas
      : Moves move (Option.map (Token.moved move)) commaOperator? commaOperator? :=
    .get fun cursor => .ite (moves_acceptAny? fixed _) (.pure rfl)
  have comma : Moves move (Expr.moved move) (comma rules) (comma rules) :=
    moves_chain commas (moves_conditional fixed movable) fun _ _ _ => rfl
  have logicAnd : Moves move (Expr.moved move) (logicAnd rules) (logicAnd rules) :=
    moves_chain (moves_acceptAny? fixed _) comma fun _ _ _ => rfl
  exact moves_chain (moves_acceptAny? fixed _) logicAnd fun _ _ _ => rfl

omit fixed movable in
/-- An assignment to a moved target is the moved assignment, or is reported at the moved token. -/
theorem moves_assignmentTo (target : SourceExpr) (equals : Token) (value : SourceExpr)
    : Moves move (Expr.moved move) (assignmentTo target equals value)
        (assignmentTo (target.moved move) (equals.moved move) (value.moved move)) := by
  cases target with
  | «variable» | get => exact .pure rfl
  | _ => exact (moves_report equals _).bind fun _ => .pure rfl

/-- An assignment comes out moved, by induction on the tokens that bound the chain of assignments.
-/
theorem moves_assignmentFrom (bound : List Token)
    : Moves move (Expr.moved move) (assignmentFrom rules bound)
        (assignmentFrom rules (movedTokens move bound)) := by
  induction bound with
  | nil => exact moves_logicOr fixed movable
  | cons token bound ih =>
      refine (moves_logicOr fixed movable).bind fun target => ?_
      refine (moves_acceptAny? fixed _).bind fun equals => ?_
      cases equals with
      | none => exact .pure rfl
      | some equals => exact ih.bind fun value => moves_assignmentTo target equals value

/-- An expression is read as the moved one. -/
theorem moves_expression : Moves move (Expr.moved move) (expression rules) (expression rules) :=
  .get fun _ => moves_assignmentFrom fixed movable _

-----
-- Declarations

omit movable in
/-- Parameters are read as the moved names. -/
theorem moves_parameters : Moves move (movedTokens move) parameters parameters := by
  have listed (earlier : Nat) (bound : List Token)
      : Moves move (movedTokens move) (parametersFrom earlier bound)
          (parametersFrom earlier (movedTokens move bound)) := by
    induction bound generalizing earlier with
    | nil => exact .pure rfl
    | cons token bound ih =>
        refine (moves_checkRoom fixed _ _).bind fun _ => (moves_expect fixed _ _).bind fun _ => ?_
        refine (moves_accept fixed _).bind fun more => .ite ?_ (.pure rfl)
        exact (ih (earlier + 1)).bind fun rest => .pure rfl
  exact (moves_nextIs fixed _).bind fun _ => .ite (.pure rfl) (.get fun _ => listed 0 _)

/-- A function with a name comes out with its name and its body moved. -/
theorem moves_namedFunction (role : FunctionRole)
    : Moves move (fun found => (found.1.moved move, found.2.moved move))
        (namedFunction rules role) (namedFunction rules role) := by
  refine (moves_expect fixed _ _).bind fun name => (moves_expect fixed _ _).bind fun _ => ?_
  refine (moves_parameters fixed).bind fun parameters => (moves_expect fixed _ _).bind fun _ => ?_
  refine (moves_expect fixed _ _).bind fun _ => ?_
  exact (moves_functionBody fixed movable).bind fun body => .pure rfl

/-- Methods in a row come out moved, by induction on the tokens that bound the loop. -/
theorem moves_methodsFrom (bound : List Token)
    : Moves move (movedMethods move) (methodsFrom rules bound)
        (methodsFrom rules (movedTokens move bound)) := by
  induction bound with
  | nil => exact .pure rfl
  | cons token bound ih =>
      refine .get fun cursor => ?_
      rw [Cursor.moved_atBlockEnd fixed]
      refine .ite (.pure rfl) ((moves_namedFunction fixed movable _).bind fun found => ?_)
      exact ih.bind fun rest => .pure rfl

/-- A class declaration is read as the moved one. -/
theorem moves_classDeclaration
    : Moves move (Stmt.moved move) (classDeclaration rules) (classDeclaration rules) := by
  have clause
      : Moves move (Option.map (Reference.moved move)) superclassClause superclassClause :=
    (moves_accept fixed _).bind fun inherits =>
      .ite ((moves_expect fixed _ _).bind fun name => .pure rfl) (.pure rfl)
  refine (moves_expect fixed _ _).bind fun name => clause.bind fun superclass => ?_
  refine (moves_expect fixed _ _).bind fun _ => .get fun cursor => ?_
  refine (moves_methodsFrom fixed movable cursor.ahead).bind fun methods => ?_
  exact (moves_expect fixed _ _).bind fun _ => .pure rfl

/-- A variable declaration is read as the moved one. -/
theorem moves_variableDeclaration
    : Moves move (Stmt.moved move) (variableDeclaration rules) (variableDeclaration rules) := by
  have initial : Moves move (movedOptional move) (initialValue rules) (initialValue rules) :=
    (moves_accept fixed _).bind fun assigns =>
      .ite (movable.expression.map fun _ => rfl) (.pure rfl)
  refine (moves_expect fixed _ _).bind fun name => initial.bind fun value => ?_
  have same : isFunctionLiteral (movedOptional move value) = isFunctionLiteral value := by
    cases value with
    | none => rfl
    | some value => cases value <;> rfl
  have ends : Moves move id (variableEnd value) (variableEnd (movedOptional move value)) := by
    unfold variableEnd
    rw [same]
    exact .ite ((moves_accept fixed _).bind fun _ => .pure rfl)
      ((moves_expect fixed _ _).bind fun _ => .pure rfl)
  exact ends.bind fun _ => .pure rfl

-----
-- Statements

/-- An expression statement is read as the moved one, printed or not. -/
theorem moves_expressionStatement (allowExpression : Bool)
    : Moves move (Stmt.moved move) (expressionStatement allowExpression rules)
        (expressionStatement allowExpression rules) := by
  refine movable.expression.bind fun value => (moves_atEnd fixed).bind fun ends => ?_
  exact .ite (.pure rfl) ((moves_expect fixed _ _).bind fun _ => .pure rfl)

/-- An expression that may be left out comes out moved. -/
theorem moves_expressionBefore (stop : TokenKind)
    : Moves move (movedOptional move) (expressionBefore stop rules)
        (expressionBefore stop rules) :=
  (moves_nextIs fixed _).bind fun _ =>
    .ite (.pure rfl) (movable.expression.map fun _ => rfl)

/-- A `for` comes out as the moved tree of blocks and loops. -/
theorem moves_forStatement (allowExpression : Bool)
    : Moves move (Stmt.moved move) (forStatement allowExpression rules)
        (forStatement allowExpression rules) := by
  have first
      : Moves move (movedElse move) (forInitial allowExpression rules)
          (forInitial allowExpression rules) := by
    refine (moves_accept fixed _).bind fun _ => .ite (.pure rfl) ?_
    refine (moves_accept fixed _).bind fun declares => .ite ?_ ?_
    · exact (moves_variableDeclaration fixed movable).map fun _ => rfl
    · exact (moves_expressionStatement fixed movable allowExpression).map fun _ => rfl
  refine (moves_expect fixed _ _).bind fun _ => first.bind fun initial => ?_
  refine (moves_expressionBefore fixed movable _).bind fun condition => ?_
  refine (moves_expect fixed _ _).bind fun _ => ?_
  refine (moves_expressionBefore fixed movable _).bind fun increment => ?_
  refine (moves_expect fixed _ _).bind fun _ => movable.statement.insideLoop.bind fun body => ?_
  exact .pure (forLoop_moved initial condition increment body).symm

/-- An `if` is read as the moved one. -/
theorem moves_ifStatement
    : Moves move (Stmt.moved move) (ifStatement rules) (ifStatement rules) := by
  have otherwise : Moves move (movedElse move) (elseBranch rules) (elseBranch rules) :=
    (moves_accept fixed _).bind fun present =>
      .ite (movable.statement.map fun _ => rfl) (.pure rfl)
  refine (moves_expect fixed _ _).bind fun _ => movable.expression.bind fun condition => ?_
  refine (moves_expect fixed _ _).bind fun _ => movable.statement.bind fun thenBranch => ?_
  exact otherwise.bind fun elseBranch => .pure rfl

/-- A `while` is read as the moved one. -/
theorem moves_whileStatement
    : Moves move (Stmt.moved move) (whileStatement rules) (whileStatement rules) := by
  refine (moves_expect fixed _ _).bind fun _ => movable.expression.bind fun condition => ?_
  refine (moves_expect fixed _ _).bind fun _ => ?_
  exact movable.statement.insideLoop.bind fun body => .pure rfl

omit movable in
/-- A `break` is read as the moved one, reported at the moved token or not at all. -/
theorem moves_breakStatement (keyword : Token)
    : Moves move (Stmt.moved move) (breakStatement keyword)
        (breakStatement (keyword.moved move)) := by
  have ends
      : Moves move (Stmt.moved move)
          (do let _ ← expect .semicolon .breakEnd; return Stmt.breakLoop keyword : Rule SourceStmt)
          (do let _ ← expect .semicolon .breakEnd; return .breakLoop (keyword.moved move)) :=
    (moves_expect fixed _ _).bind fun _ => .pure rfl
  exact .get fun cursor => .ite ((moves_report keyword _).bind fun _ => ends) ends

/-- A `return` is read as the moved one. -/
theorem moves_returnStatement (keyword : Token)
    : Moves move (Stmt.moved move) (returnStatement rules keyword)
        (returnStatement rules (keyword.moved move)) :=
  (moves_expressionBefore fixed movable _).bind fun _ =>
    (moves_expect fixed _ _).bind fun _ => .pure rfl

/-- A `print` is read as the moved one. -/
theorem moves_printStatement
    : Moves move (Stmt.moved move) (printStatement rules) (printStatement rules) :=
  movable.expression.bind fun _ => (moves_expect fixed _ _).bind fun _ => .pure rfl

/-- A `println` is read as the moved one, with a value or without. -/
theorem moves_printLineStatement
    : Moves move (Stmt.moved move) (printLineStatement rules) (printLineStatement rules) := by
  refine (moves_accept fixed _).bind fun empty => .ite (.pure rfl) ?_
  exact movable.expression.bind fun _ => (moves_expect fixed _ _).bind fun _ => .pure rfl

/-- A statement is read as the moved one, by cases on its first token. -/
theorem moves_statement (allowExpression : Bool)
    : Moves move (Stmt.moved move) (statement allowExpression rules)
        (statement allowExpression rules) := by
  refine (moves_next fixed).bind fun token => ?_
  rw [Token.moved_kind]
  have drop := moves_drop fixed
  split
  · exact drop.bind fun _ => moves_forStatement fixed movable allowExpression
  · exact drop.bind fun _ => moves_ifStatement fixed movable
  · exact drop.bind fun _ => moves_printStatement fixed movable
  · exact drop.bind fun _ => moves_printLineStatement fixed movable
  · exact drop.bind fun _ => moves_returnStatement fixed movable token
  · exact drop.bind fun _ => moves_whileStatement fixed movable
  · exact drop.bind fun _ => moves_breakStatement fixed token
  · exact drop.bind fun _ => (moves_block fixed movable).map fun _ => rfl
  · exact moves_expressionStatement fixed movable allowExpression

-----
-- Recovery

omit fixed movable in
/-- Skipping to a statement stops in front of the same token on any line, by induction on the
tokens. -/
theorem skipFrom_moved (previous : Token) (tokens : List Token)
    : skipFrom (previous.moved move) (movedTokens move tokens)
        = movedTokens move (skipFrom previous tokens) := by
  induction tokens generalizing previous with
  | nil => rfl
  | cons token rest ih =>
      simp only [movedTokens_cons, skipFrom, Token.moved_kind, ih, apply_ite (movedTokens move)]
      rfl

omit movable in
/-- A cursor that has skipped to a statement is the moved one. -/
theorem Cursor.moved_skipToStatement (cursor : Cursor)
    : (cursor.moved move).skipToStatement = cursor.skipToStatement.moved move := by
  unfold skipToStatement
  rw [moved_atEnd fixed]
  split
  · rfl
  · have same : (cursor.moved move).ahead.tail = movedTokens move cursor.ahead.tail := by
      simp [moved, movedTokens, List.map_tail]
    rw [moved_next fixed, same, skipFrom_moved]
    rfl

omit movable in
/-- What is left out behind a mistake is left out on other lines, too. -/
theorem moves_recovering {rule : Rule SourceStmt} (moves : Moves move (Stmt.moved move) rule rule)
    : Moves move (movedElse move) (recovering rule) (recovering rule) := by
  intro cursor
  unfold recovering
  rw [moves cursor]
  cases rule cursor with
  | ok statement after => rfl
  | error unwinding after =>
      cases unwinding with
      | mistake => exact congrArg (EStateM.Result.ok none) (after.moved_skipToStatement fixed)
      | tooDeep =>
          have skipped := (after.report after.next .tooMuchNesting).moved_skipToStatement fixed
          rw [after.moved_report, ← after.moved_next fixed] at skipped
          exact congrArg (EStateM.Result.ok none) skipped

/-- A declaration is read as the moved one, by cases on its first token and on whether it had to
recover. -/
theorem moves_declaration (allowExpression : Bool)
    : Moves move (movedElse move) (declaration allowExpression rules)
        (declaration allowExpression rules) := by
  refine moves_recovering fixed ((moves_next fixed).bind fun token => ?_)
  rw [Token.moved_kind]
  split
  · exact (moves_drop fixed).bind fun _ => moves_classDeclaration fixed movable
  · exact (moves_drop fixed).bind fun _ =>
      (moves_namedFunction fixed movable _).bind fun _ => .pure rfl
  · exact (moves_drop fixed).bind fun _ => moves_variableDeclaration fixed movable
  · exact moves_statement fixed movable allowExpression

end

-----
-- Whole programs

/-- However deep the grammar is unfolded, its rules come out moved, by induction on the depth. -/
theorem movable_rules {move : Nat → Nat} (fixed : move 1 = 1) (allowExpression : Bool)
    (nesting : Nat)
    : (rules allowExpression nesting).Movable move := by
  induction nesting with
  | zero => exact { expression := .throw, statement := .throw, declaration := .throw }
  | succ nesting ih =>
      exact {
        expression := moves_expression fixed ih
        statement := moves_statement fixed ih allowExpression
        declaration := moves_declaration fixed ih allowExpression
      }

/-- Tokens on other lines are read as before, on those lines. The line that the end of a text
without tokens is taken to stand on must stay. -/
theorem parse_moved {move : Nat → Nat} (fixed : move 1 = 1) (allowExpression : Bool)
    (tokens : List Token) (depth : Nat)
    : parse allowExpression (movedTokens move tokens) depth
      = (parse allowExpression tokens depth).moved move := by
  have moves
      : Moves move (movedStmts move) (program allowExpression depth)
          (program allowExpression depth) :=
    .get fun _ =>
      moves_declarationsUntil (movable_rules fixed allowExpression (depth + 1)).declaration
        (Cursor.moved_atEnd fixed) _
  have result := moves (Cursor.start tokens)
  have started : (Cursor.start tokens).moved move = Cursor.start (movedTokens move tokens) := rfl
  unfold parse
  rw [← started, result]
  cases program allowExpression depth (Cursor.start tokens) with
  | ok statements after => rfl
  | error unwinding after => rfl

end Lox.Grammar
