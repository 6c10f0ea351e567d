import Lox.Proofs.Grammar.Gathering
import Lox.Proofs.Grammar.Progress

/-! Rules leave the context as they find it.

Each change to the context is taken back by itself: a comma that was switched is switched back, a
loop that was entered is left. That all of them nest is shown of the rules one by one, and with no
assumption on the tokens, since an error may unwind from anywhere. So wherever a declaration is
read, its context is that of the block or the text that it is part of.
-/

namespace Lox.Grammar

-----
-- Putting rules together

/-- Whether the rule yields something or unwinds, it ends in the context that it began in. -/
def Restores {α : Type} (rule : Rule α) : Prop :=
  ∀ before : Cursor, before.SameContext (reached (rule before))

/-- A change that is taken back ends in the context that it began in, if what it encloses keeps the
changed one. -/
theorem TakesBack.sameContext {enter : Cursor → Cursor} {leave : Cursor → Cursor → Cursor}
    (back : TakesBack enter leave) {before after : Cursor}
    (inside : (enter before).SameContext after)
    : before.SameContext (leave before after) := by
  rw [back before after inside.loopDepth inside.commaEnabled]
  exact ⟨rfl, rfl⟩

namespace Restores

variable {α β : Type} {rule other : Rule α}

/-- A rule that reads nothing stays where it is. -/
theorem pure (value : α) : Restores (Pure.pure value) :=
  fun before => .refl before

/-- A rule that only unwinds stays where it is. -/
theorem throw (unwinding : Unwinding) : Restores (MonadExcept.throw unwinding : Rule α) :=
  fun before => .refl before

/-- Rules in a row restore the context if each does, by cases on how the first ends. -/
theorem bind {next : α → Rule β} (front : Restores rule) (back : ∀ value, Restores (next value))
    : Restores (rule >>= next) := by
  intro before
  have first := front before
  change before.SameContext (reached (EStateM.bind rule next before))
  unfold EStateM.bind
  revert first
  cases rule before with
  | error unwinding after => exact id
  | ok value after => exact fun first => first.trans (back value after)

/-- What a rule yields has nothing to do with its context. -/
theorem map {change : α → β} (restores : Restores rule) : Restores (change <$> rule) := by
  intro before
  have result := restores before
  change before.SameContext (reached (EStateM.map change rule before))
  unfold EStateM.map
  revert result
  cases rule before <;> exact id

/-- A rule that looks at the cursor first restores the context if it does so wherever it stands. -/
theorem get {next : Cursor → Rule α} (restores : ∀ cursor, Restores (next cursor))
    : Restores (MonadState.get >>= next) :=
  fun before => restores before before

/-- Of two rules that restore the context either may be taken. -/
theorem ite {condition : Prop} [Decidable condition] (yes : Restores rule) (no : Restores other)
    : Restores (if condition then rule else other) := by
  split
  · exact yes
  · exact no

/-- Changes to the context nest. -/
theorem inContext {enter : Cursor → Cursor} {leave : Cursor → Cursor → Cursor}
    (back : TakesBack enter leave) (restores : Restores rule)
    : Restores (Grammar.inContext enter leave rule) := by
  intro before
  have result := restores (enter before)
  unfold Grammar.inContext
  revert result
  cases rule (enter before) <;> exact back.sameContext

/-- Switching the comma operator is taken back behind the rule. -/
theorem withComma (restores : Restores rule) (enabled : Bool)
    : Restores (Grammar.withComma enabled rule) :=
  restores.inContext (takesBack_withComma enabled)

/-- Leaving all loops is taken back behind the rule. -/
theorem outsideLoops (restores : Restores rule) : Restores (Grammar.outsideLoops rule) :=
  restores.inContext takesBack_outsideLoops

/-- Entering a loop is taken back behind the rule. -/
theorem insideLoop (restores : Restores rule) : Restores (Grammar.insideLoop rule) :=
  restores.inContext takesBack_insideLoop

end Restores

-----
-- Tokens

/-- Looking at the next token moves nothing. -/
theorem restores_next : Restores next :=
  fun before => .refl before

/-- Asking whether the text is over moves nothing. -/
theorem restores_atEnd : Restores atEnd :=
  fun before => .refl before

/-- Asking for the kind of the next token moves nothing. -/
theorem restores_nextIs (kind : TokenKind) : Restores (nextIs kind) :=
  fun before => .refl before

/-- A token that is dropped leaves the context alone. -/
theorem restores_drop : Restores (modify Cursor.drop) :=
  Cursor.sameContext_drop

/-- A token of some kinds is taken in the same context, if it is taken at all. -/
theorem restores_acceptAny? (kinds : List TokenKind) : Restores (acceptAny? kinds) := by
  intro before
  unfold acceptAny?
  split
  · exact before.sameContext_drop
  · exact .refl before

/-- A token that may be missing is taken in the same context. -/
theorem restores_accept (kind : TokenKind) : Restores (accept kind) :=
  (restores_acceptAny? [kind]).bind fun found => .pure found.isSome

/-- A mistake is recorded in the same context. -/
theorem restores_report (token : Token) (problem : Problem) : Restores (report token problem) :=
  fun before => before.sameContext_report token problem

/-- A mistake that unwinds is recorded in the same context. -/
theorem restores_fail {α : Type} (token : Token) (problem : Problem)
    : Restores (fail token problem : Rule α) :=
  (restores_report token problem).bind fun _ => .throw .mistake

/-- A token that has to be there is taken in the same context, and so is its absence recorded. -/
theorem restores_expect (kind : TokenKind) (item : Expected) : Restores (expect kind item) := by
  refine (restores_acceptAny? [kind]).bind fun found => ?_
  cases found with
  | none => exact restores_next.bind fun token => restores_fail token _
  | some token => exact .pure token

/-- A list that is too long is reported in the same context. -/
theorem restores_checkRoom (earlier : Nat) (problem : Problem)
    : Restores (checkRoom earlier problem) :=
  .ite (restores_next.bind fun token => restores_report token problem) (.pure ())

-----
-- Nested rules

/-- Whatever is read for a part leaves the context alone. -/
structure Rules.Restore (rules : Rules) : Prop where
  expression : Restores rules.expression
  statement : Restores rules.statement
  declaration : Restores rules.declaration

/-- Declarations one behind the other restore the context, by induction on the tokens that bound the
loop. -/
theorem restores_declarationsUntil {stop : Cursor → Bool} {declaration : Rule (Option SourceStmt)}
    (restores : Restores declaration) (bound : List Token)
    : Restores (declarationsUntil stop declaration bound) := by
  induction bound with
  | nil => exact .pure []
  | cons token bound ih =>
      refine .get fun cursor => .ite (.pure []) ?_
      exact restores.bind fun first => ih.bind fun rest => .pure _

section

variable {rules : Rules} (restore : rules.Restore)

include restore

-----
-- Functions

/-- A block enables the comma operator inside of it and switches back behind its brace. -/
theorem restores_block : Restores (block rules) := by
  have declarations
      : Restores
          (withComma true do
            declarationsUntil Cursor.atBlockEnd rules.declaration (← MonadState.get).ahead) :=
    .withComma (.get fun _ => restores_declarationsUntil restore.declaration _) true
  exact declarations.bind fun statements => (restores_expect _ _).bind fun _ => .pure statements

/-- The body of a function is read outside of loops, which are counted again behind it. -/
theorem restores_functionBody : Restores (functionBody rules) :=
  (restores_block restore).outsideLoops

/-- The body behind an arrow is read as the body of a function is. -/
theorem restores_arrowBody (parameters : List Token) : Restores (arrowBody rules parameters) :=
  (restores_expect _ _).bind fun _ => (restores_functionBody restore).bind fun _ => .pure _

/-- What starts with a parenthesis ends in its context, whether it turns out to be a group or a
function. -/
theorem restores_groupOrArrow : Restores (groupOrArrow rules) := by
  refine (restores_accept _).bind fun empty => .ite ?_ ?_
  · exact (restores_expect _ _).bind fun _ => restores_arrowBody restore []
  · refine (restore.expression.withComma true).bind fun inner => ?_
    refine (restores_expect _ _).bind fun _ => (restores_acceptAny? [.arrow]).bind fun arrow => ?_
    cases arrow with
    | none => exact .pure _
    | some arrow =>
        cases parameterNames? inner with
        | none => exact restores_fail arrow _
        | some parameters =>
            have checked : Restores (checkNames arrow parameters) :=
              .ite (restores_report arrow _) (.pure ())
            exact checked.bind fun _ => restores_arrowBody restore parameters

-----
-- Operands

omit restore in
/-- The method behind `super` is read in the same context. -/
theorem restores_superMethod (keyword : Token) : Restores (superMethod keyword) :=
  (restores_expect _ _).bind fun _ => (restores_expect _ _).bind fun _ => .pure _

/-- An operand ends in its context, by cases on its first token. -/
theorem restores_primary : Restores (primary rules) := by
  have take (value : SourceExpr) : Restores (takeAs value) :=
    restores_drop.bind fun _ => .pure value
  refine restores_next.bind fun token => ?_
  split
  · exact take _
  · exact take _
  · exact take _
  · exact take _
  · exact take _
  · exact take _
  · exact take _
  · exact restores_drop.bind fun _ => restores_superMethod token
  · exact restores_drop.bind fun _ => restores_groupOrArrow restore
  · exact restores_fail token _

-----
-- Calls

/-- Further arguments end in their context, by induction on the tokens that bound the loop. -/
theorem restores_argumentsFrom (earlier : Nat) (bound : List Token)
    : Restores (argumentsFrom rules earlier bound) := by
  induction bound generalizing earlier with
  | nil => exact .pure []
  | cons token bound ih =>
      refine (restores_checkRoom _ _).bind fun _ => restore.expression.bind fun argument => ?_
      refine (restores_accept _).bind fun more => .ite ?_ (.pure _)
      exact (ih (earlier + 1)).bind fun rest => .pure _

/-- Arguments are read without the comma operator, which is switched back behind them. -/
theorem restores_arguments : Restores (arguments rules) := by
  refine (restores_nextIs _).bind fun empty => .ite (.pure []) ?_
  exact .withComma (.get fun _ => restores_argumentsFrom restore 0 _) false

/-- The arguments of a call and their parenthesis end in the context of the call. -/
theorem restores_callEnd (callee : SourceExpr) : Restores (callEnd rules callee) :=
  (restores_arguments restore).bind fun _ => (restores_expect _ _).bind fun _ => .pure _

/-- Calls and property reads in a row end in their context, by induction on the tokens that bound
the loop. -/
theorem restores_callFrom (callee : SourceExpr) (bound : List Token)
    : Restores (callFrom rules callee bound) := by
  induction bound generalizing callee with
  | nil => exact .pure callee
  | cons token bound ih =>
      refine (restores_accept _).bind fun opens => .ite ?_ ?_
      · exact (restores_callEnd restore callee).bind fun call => ih call
      · refine (restores_accept _).bind fun dotted => .ite ?_ (.pure callee)
        exact (restores_expect _ _).bind fun name => ih (.get callee name)

/-- A call ends in the context of its callee. -/
theorem restores_call : Restores (call rules) :=
  (restores_primary restore).bind fun callee => .get fun _ => restores_callFrom restore callee _

-----
-- Levels

/-- Operators in front of an operand end in their context, by induction on the tokens that bound the
loop. -/
theorem restores_unaryFrom (bound : List Token) : Restores (unaryFrom rules bound) := by
  induction bound with
  | nil => exact restores_call restore
  | cons token bound ih =>
      refine (restores_acceptAny? _).bind fun operator => ?_
      cases operator with
      | none => exact restores_call restore
      | some operator => exact ih.bind fun operand => .pure _

/-- A unary expression ends in the context that it began in. -/
theorem restores_unary : Restores (unary rules) :=
  .get fun _ => restores_unaryFrom restore _

omit restore in
/-- Operands joined by operators end in their context, by induction on the tokens that bound the
loop. -/
theorem restores_chainFrom {operator? : Rule (Option Token)} {operand : Rule SourceExpr}
    (operators : Restores operator?) (operands : Restores operand)
    (combine : SourceExpr → Token → SourceExpr → SourceExpr) (left : SourceExpr)
    (bound : List Token)
    : Restores (chainFrom operator? operand combine left bound) := by
  induction bound generalizing left with
  | nil => exact .pure left
  | cons token bound ih =>
      refine operators.bind fun operator => ?_
      cases operator with
      | none => exact .pure left
      | some operator => exact operands.bind fun right => ih (combine left operator right)

omit restore in
/-- A chain of operands ends in the context of its first one. -/
theorem restores_chain {operator? : Rule (Option Token)} {operand : Rule SourceExpr}
    (operators : Restores operator?) (operands : Restores operand)
    (combine : SourceExpr → Token → SourceExpr → SourceExpr)
    : Restores (chain operator? operand combine) :=
  operands.bind fun left => .get fun _ => restores_chainFrom operators operands combine left _

/-- A product ends in the context that it began in. -/
theorem restores_factor : Restores (factor rules) :=
  restores_chain (restores_acceptAny? _) (restores_unary restore) _

/-- A sum ends in the context that it began in. -/
theorem restores_term : Restores (term rules) :=
  restores_chain (restores_acceptAny? _) (restores_factor restore) _

/-- A comparison ends in the context that it began in. -/
theorem restores_comparison : Restores (comparison rules) :=
  restores_chain (restores_acceptAny? _) (restores_term restore) _

/-- An equality ends in the context that it began in. -/
theorem restores_equality : Restores (equality rules) :=
  restores_chain (restores_acceptAny? _) (restores_comparison restore) _

/-- A conditional expression ends in its context, whether a question mark follows its condition or
not. -/
theorem restores_conditional : Restores (conditional rules) := by
  have operand := restores_equality restore
  refine operand.bind fun condition => (restores_accept _).bind fun asks => .ite ?_ (.pure _)
  refine operand.bind fun thenCase => (restores_expect _ _).bind fun _ => ?_
  exact operand.bind fun elseCase => .pure _

omit restore in
/-- The comma is taken as an operator in the same context, or left alone where it is none. -/
theorem restores_commaOperator? : Restores commaOperator? :=
  .get fun _ => .ite (restores_acceptAny? [.comma]) (.pure none)

/-- A list of expressions joined by commas ends in the context that it began in. -/
theorem restores_comma : Restores (comma rules) :=
  restores_chain restores_commaOperator? (restores_conditional restore) _

/-- A conjunction ends in the context that it began in. -/
theorem restores_logicAnd : Restores (logicAnd rules) :=
  restores_chain (restores_acceptAny? [.andWord]) (restores_comma restore) _

/-- A disjunction ends in the context that it began in. -/
theorem restores_logicOr : Restores (logicOr rules) :=
  restores_chain (restores_acceptAny? [.orWord]) (restores_logicAnd restore) _

omit restore in
/-- Whether the target can be assigned to or not, the context stays. -/
theorem restores_assignmentTo (target : SourceExpr) (equals : Token) (value : SourceExpr)
    : Restores (assignmentTo target equals value) := by
  unfold assignmentTo
  split
  · exact .pure _
  · exact .pure _
  · exact (restores_report equals _).bind fun _ => .pure _

/-- An assignment ends in its context, by induction on the tokens that bound the chain of
assignments. -/
theorem restores_assignmentFrom (bound : List Token) : Restores (assignmentFrom rules bound) := by
  induction bound with
  | nil => exact restores_logicOr restore
  | cons token bound ih =>
      refine (restores_logicOr restore).bind fun target => ?_
      refine (restores_acceptAny? [.equal]).bind fun equals => ?_
      cases equals with
      | none => exact .pure target
      | some equals => exact ih.bind fun value => restores_assignmentTo target equals value

/-- An expression ends in the context that it began in. -/
theorem restores_expression : Restores (expression rules) :=
  .get fun _ => restores_assignmentFrom restore _

-----
-- Declarations

omit restore in
/-- Further parameters end in their context, by induction on the tokens that bound the loop. -/
theorem restores_parametersFrom (earlier : Nat) (bound : List Token)
    : Restores (parametersFrom earlier bound) := by
  induction bound generalizing earlier with
  | nil => exact .pure []
  | cons token bound ih =>
      refine (restores_checkRoom _ _).bind fun _ => (restores_expect _ _).bind fun parameter => ?_
      refine (restores_accept _).bind fun more => .ite ?_ (.pure _)
      exact (ih (earlier + 1)).bind fun rest => .pure _

omit restore in
/-- A parameter list ends in the context that it began in. -/
theorem restores_parameters : Restores parameters :=
  (restores_nextIs _).bind fun _ =>
    .ite (.pure []) (.get fun _ => restores_parametersFrom 0 _)

/-- A function with a name ends in its context, behind its parameters and its body. -/
theorem restores_namedFunction (role : FunctionRole) : Restores (namedFunction rules role) := by
  refine (restores_expect _ _).bind fun name => (restores_expect _ _).bind fun _ => ?_
  refine restores_parameters.bind fun parameters => (restores_expect _ _).bind fun _ => ?_
  refine (restores_expect _ _).bind fun _ => ?_
  exact (restores_functionBody restore).bind fun body => .pure _

/-- A function declaration ends in the context of its keyword. -/
theorem restores_functionDeclaration : Restores (functionDeclaration rules) :=
  (restores_namedFunction restore .function).bind fun _ => .pure _

/-- Methods in a row end in their context, by induction on the tokens that bound the loop. -/
theorem restores_methodsFrom (bound : List Token) : Restores (methodsFrom rules bound) := by
  induction bound with
  | nil => exact .pure []
  | cons token bound ih =>
      refine .get fun cursor => .ite (.pure []) ?_
      exact (restores_namedFunction restore .method).bind fun named => ih.bind fun rest => .pure _

omit restore in
/-- A superclass clause ends in the context that it began in, whether it is there or not. -/
theorem restores_superclassClause : Restores superclassClause :=
  (restores_accept _).bind fun _ =>
    .ite ((restores_expect _ _).bind fun _ => .pure _) (.pure none)

/-- A class declaration ends in the context of its keyword. -/
theorem restores_classDeclaration : Restores (classDeclaration rules) := by
  refine (restores_expect _ _).bind fun name => restores_superclassClause.bind fun superclass => ?_
  refine (restores_expect _ _).bind fun _ => .get fun cursor => ?_
  refine (restores_methodsFrom restore cursor.ahead).bind fun methods => ?_
  exact (restores_expect _ _).bind fun _ => .pure _

/-- An initial value ends in the context that it began in, whether it is there or not. -/
theorem restores_initialValue : Restores (initialValue rules) :=
  (restores_accept _).bind fun _ => .ite restore.expression.map (.pure none)

omit restore in
/-- The end of a variable declaration leaves the context alone, with its semicolon or without. -/
theorem restores_variableEnd (initial : Option SourceExpr) : Restores (variableEnd initial) :=
  .ite ((restores_accept _).bind fun _ => .pure ()) ((restores_expect _ _).bind fun _ => .pure ())

/-- A variable declaration ends in the context of its keyword. -/
theorem restores_variableDeclaration : Restores (variableDeclaration rules) := by
  refine (restores_expect _ _).bind fun name => ?_
  refine (restores_initialValue restore).bind fun initial => ?_
  exact (restores_variableEnd initial).bind fun _ => .pure _

-----
-- Statements

/-- An expression statement ends in its context, also where the end of the text stands for its
semicolon. -/
theorem restores_expressionStatement (allowExpression : Bool)
    : Restores (expressionStatement allowExpression rules) := by
  refine restore.expression.bind fun value => restores_atEnd.bind fun ends => .ite (.pure _) ?_
  exact (restores_expect _ _).bind fun _ => .pure _

/-- An expression that may be left out ends in its context. -/
theorem restores_expressionBefore (stop : TokenKind) : Restores (expressionBefore stop rules) :=
  (restores_nextIs _).bind fun _ => .ite (.pure none) restore.expression.map

/-- The first clause of a `for` ends in the context that it began in, whichever kind it is. -/
theorem restores_forInitial (allowExpression : Bool)
    : Restores (forInitial allowExpression rules) := by
  refine (restores_accept _).bind fun empty => .ite (.pure none) ?_
  refine (restores_accept _).bind fun declares => .ite ?_ ?_
  · exact (restores_variableDeclaration restore).map
  · exact (restores_expressionStatement restore allowExpression).map

/-- A `for` ends in its context: the loop that its body entered has been left. -/
theorem restores_forStatement (allowExpression : Bool)
    : Restores (forStatement allowExpression rules) := by
  refine (restores_expect _ _).bind fun _ => ?_
  refine (restores_forInitial restore allowExpression).bind fun initial => ?_
  refine (restores_expressionBefore restore _).bind fun condition => ?_
  refine (restores_expect _ _).bind fun _ => ?_
  refine (restores_expressionBefore restore _).bind fun increment => ?_
  refine (restores_expect _ _).bind fun _ => ?_
  exact restore.statement.insideLoop.bind fun body => .pure _

/-- A branch behind `else` ends in its context, and so does its absence. -/
theorem restores_elseBranch : Restores (elseBranch rules) :=
  (restores_accept _).bind fun _ => .ite restore.statement.map (.pure none)

/-- An `if` ends in the context that it began in. -/
theorem restores_ifStatement : Restores (ifStatement rules) := by
  refine (restores_expect _ _).bind fun _ => restore.expression.bind fun condition => ?_
  refine (restores_expect _ _).bind fun _ => restore.statement.bind fun thenBranch => ?_
  exact (restores_elseBranch restore).bind fun elseBranch => .pure _

/-- A `while` ends in its context: the loop that its body entered has been left. -/
theorem restores_whileStatement : Restores (whileStatement rules) := by
  refine (restores_expect _ _).bind fun _ => restore.expression.bind fun condition => ?_
  exact (restores_expect _ _).bind fun _ => restore.statement.insideLoop.bind fun body => .pure _

omit restore in
/-- A `break` ends in its context, reported or not. -/
theorem restores_breakStatement (keyword : Token) : Restores (breakStatement keyword) := by
  intro before
  have ends
      : Restores do
          let _ ← expect .semicolon .breakEnd
          return (Stmt.breakLoop keyword : SourceStmt) :=
    (restores_expect _ _).bind fun _ => .pure _
  rw [breakStatement_checked]
  split
  · exact (before.sameContext_report keyword .breakOutsideLoop).trans (ends _)
  · exact ends before

/-- A `return` ends in the context that it began in. -/
theorem restores_returnStatement (keyword : Token) : Restores (returnStatement rules keyword) :=
  (restores_expressionBefore restore _).bind fun _ => (restores_expect _ _).bind fun _ => .pure _

/-- A `print` ends in the context that it began in. -/
theorem restores_printStatement : Restores (printStatement rules) :=
  restore.expression.bind fun _ => (restores_expect _ _).bind fun _ => .pure _

/-- A `println` ends in the context that it began in, with a value or without. -/
theorem restores_printLineStatement : Restores (printLineStatement rules) := by
  refine (restores_accept _).bind fun empty => .ite (.pure _) ?_
  exact restore.expression.bind fun value => (restores_expect _ _).bind fun _ => .pure _

/-- A statement ends in its context, by cases on its first token. -/
theorem restores_statement (allowExpression : Bool)
    : Restores (statement allowExpression rules) := by
  refine restores_next.bind fun token => ?_
  split
  · exact restores_drop.bind fun _ => restores_forStatement restore allowExpression
  · exact restores_drop.bind fun _ => restores_ifStatement restore
  · exact restores_drop.bind fun _ => restores_printStatement restore
  · exact restores_drop.bind fun _ => restores_printLineStatement restore
  · exact restores_drop.bind fun _ => restores_returnStatement restore token
  · exact restores_drop.bind fun _ => restores_whileStatement restore
  · exact restores_drop.bind fun _ => restores_breakStatement token
  · exact restores_drop.bind fun _ => (restores_block restore).map
  · exact restores_expressionStatement restore allowExpression

-----
-- Recovery

omit restore in
/-- Skipping passes tokens and nothing else, so recovery brings no context back by itself. -/
theorem restores_recovering {rule : Rule SourceStmt} (restores : Restores rule)
    : Restores (recovering rule) := by
  intro before
  have result := restores before
  unfold recovering
  revert result
  cases rule before with
  | ok statement after => exact id
  | error unwinding after =>
      intro result
      have unwound : before.SameContext after := result
      cases unwinding with
      | mistake => exact unwound.trans after.sameContext_skipToStatement
      | tooDeep =>
          have reported := unwound.trans (after.sameContext_report after.next .tooMuchNesting)
          exact reported.trans (Cursor.sameContext_skipToStatement _)

/-- A declaration ends in its context, by cases on its first token and on whether it had to recover.
-/
theorem restores_declaration (allowExpression : Bool)
    : Restores (declaration allowExpression rules) := by
  refine restores_recovering (restores_next.bind fun token => ?_)
  split
  · exact restores_drop.bind fun _ => restores_classDeclaration restore
  · exact restores_drop.bind fun _ => restores_functionDeclaration restore
  · exact restores_drop.bind fun _ => restores_variableDeclaration restore
  · exact restores_statement restore allowExpression

/-- Every rule of the grammar restores the context, by cases on which one it is. -/
theorem Production.restores {allowExpression : Bool} {α : Type} {rule : Rule α}
    (production : Production allowExpression rules rule)
    : Restores rule := by
  cases production with
  | block => exact restores_block restore
  | functionBody => exact restores_functionBody restore
  | arrowBody parameters => exact restores_arrowBody restore parameters
  | groupOrArrow => exact restores_groupOrArrow restore
  | superMethod keyword => exact restores_superMethod keyword
  | primary => exact restores_primary restore
  | arguments => exact restores_arguments restore
  | callEnd callee => exact restores_callEnd restore callee
  | call => exact restores_call restore
  | unary => exact restores_unary restore
  | factor => exact restores_factor restore
  | term => exact restores_term restore
  | comparison => exact restores_comparison restore
  | equality => exact restores_equality restore
  | conditional => exact restores_conditional restore
  | comma => exact restores_comma restore
  | logicAnd => exact restores_logicAnd restore
  | logicOr => exact restores_logicOr restore
  | expression => exact restores_expression restore
  | parameters => exact restores_parameters
  | namedFunction role => exact restores_namedFunction restore role
  | functionDeclaration => exact restores_functionDeclaration restore
  | superclassClause => exact restores_superclassClause
  | classDeclaration => exact restores_classDeclaration restore
  | initialValue => exact restores_initialValue restore
  | variableEnd initial => exact restores_variableEnd initial
  | variableDeclaration => exact restores_variableDeclaration restore
  | expressionStatement => exact restores_expressionStatement restore allowExpression
  | expressionBefore stop => exact restores_expressionBefore restore stop
  | forInitial => exact restores_forInitial restore allowExpression
  | forStatement => exact restores_forStatement restore allowExpression
  | elseBranch => exact restores_elseBranch restore
  | ifStatement => exact restores_ifStatement restore
  | whileStatement => exact restores_whileStatement restore
  | breakStatement keyword => exact restores_breakStatement keyword
  | returnStatement keyword => exact restores_returnStatement restore keyword
  | printStatement => exact restores_printStatement restore
  | printLineStatement => exact restores_printLineStatement restore
  | statement => exact restores_statement restore allowExpression
  | declaration => exact restores_declaration restore allowExpression

end

/-- However deep the grammar is unfolded, its rules restore the context, by induction on the depth.
-/
theorem rules_restore (allowExpression : Bool) (nesting : Nat)
    : (rules allowExpression nesting).Restore := by
  induction nesting with
  | zero =>
      exact {
        expression := .throw .tooDeep
        statement := .throw .tooDeep
        declaration := .throw .tooDeep
      }
  | succ nesting ih =>
      exact {
        expression := restores_expression ih
        statement := restores_statement ih allowExpression
        declaration := restores_declaration ih allowExpression
      }

-----
-- Places

/-- Begun at the cursor, the whole runs the part at such places only: what the part would do
anywhere else makes no difference. -/
def RunsOnlyAt {α β : Type} (places : Cursor → Prop) (whole : Rule β → Rule α) (part : Rule β)
    (before : Cursor)
    : Prop :=
  ∀ part' : Rule β,
    (∀ cursor, places cursor → part' cursor = part cursor) → whole part' before = whole part before

namespace RunsOnlyAt

variable {α β γ : Type} {places places' : Cursor → Prop} {whole : Rule β → Rule α} {part : Rule β}
  {before : Cursor}

/-- A part that runs only at some places runs only at places that these are among. -/
theorem weaken (only : RunsOnlyAt places whole part before)
    (implies : ∀ cursor, places cursor → places' cursor)
    : RunsOnlyAt places' whole part before :=
  fun part' alike => only part' fun cursor place => alike cursor (implies cursor place)

/-- What comes behind the whole does without the part. -/
theorem bind (only : RunsOnlyAt places whole part before) (next : α → Rule γ)
    : RunsOnlyAt places (fun part => whole part >>= next) part before := by
  intro part' alike
  change EStateM.bind (whole part') next before = EStateM.bind (whole part) next before
  unfold EStateM.bind
  rw [only part' alike]

/-- Where a part runs inside of a changed context is where it runs in the rule as a whole. -/
theorem inContext {enter : Cursor → Cursor} {leave : Cursor → Cursor → Cursor}
    (only : RunsOnlyAt places whole part (enter before))
    : RunsOnlyAt places (fun part => Grammar.inContext enter leave (whole part)) part before := by
  intro part' alike
  simp only [Grammar.inContext, only part' alike]

end RunsOnlyAt

/-- All declarations of a sequence are read in one context, also those behind a recovery. -/
theorem declarationsUntil_only {stop : Cursor → Bool} {declaration : Rule (Option SourceStmt)}
    (restores : Restores declaration) (bound : List Token) (before : Cursor)
    : RunsOnlyAt before.SameContext (fun declaration => declarationsUntil stop declaration bound)
        declaration before := by
  induction bound generalizing before with
  | nil => exact fun _ _ => rfl
  | cons token bound ih =>
      intro declaration' alike
      simp only [declarationsUntil, get_bind]
      split
      · rfl
      · have same := restores before
        have first := alike before (.refl before)
        revert same
        cases run : declaration before with
        | error unwinding after =>
            exact fun _ => (bind_of_error (first.trans run)).trans (bind_of_error run).symm
        | ok value after =>
            intro same
            rw [bind_of_ok (first.trans run), bind_of_ok run]
            refine (ih after).bind _ declaration' fun cursor further => ?_
            exact alike cursor (same.trans further)

/-- A declaration that recovers is no exception. -/
theorem Rounds.sameContext {declaration : Rule (Option SourceStmt)} {stop : Cursor → Bool}
    {before after : Cursor} {results : List (Option SourceStmt)} (restores : Restores declaration)
    (rounds : Rounds declaration stop before results after)
    : before.SameContext after := by
  induction rounds with
  | done => exact .refl _
  | @round before between after result results goesOn run rest ih =>
      have first := restores before
      rw [run] at first
      exact first.trans ih

/-- The declarations of a block are begun in the context of the block, with the comma operator
enabled. -/
theorem block_only {rules : Rules} (restores : Restores rules.declaration) (before : Cursor)
    : RunsOnlyAt (Cursor.SameContext { before with commaEnabled := true })
        (fun declaration => block { rules with declaration }) rules.declaration before := by
  have inside
      : RunsOnlyAt (Cursor.SameContext { before with commaEnabled := true })
          (fun declaration : Rule (Option SourceStmt) => do
            declarationsUntil Cursor.atBlockEnd declaration (← MonadState.get).ahead)
          rules.declaration { before with commaEnabled := true } :=
    declarationsUntil_only restores before.ahead { before with commaEnabled := true }
  exact inside.inContext.bind _

-----
-- Contexts

/-- The context in which the parts of a text are read. -/
structure ContextKept (allowExpression : Bool) : Prop where
  /-- Every rule ends in the context that it began in. -/
  rules
    : ∀ {α : Type} {nesting : Nat} {rule : Rule α},
        Production allowExpression (rules allowExpression nesting) rule → Restores rule
  /-- So does the body of a loop. -/
  loopBody : ∀ nesting, Restores (insideLoop (Grammar.rules allowExpression nesting).statement)
  program : ∀ depth, Restores (program allowExpression depth)
  /-- However many declarations have been read, with mistakes or without, the next one is begun in
  the context of the first. -/
  rounds
    : ∀ {nesting : Nat} {stop : Cursor → Bool} {before after : Cursor}
        {results : List (Option SourceStmt)},
        Rounds (Grammar.rules allowExpression nesting).declaration stop before results after
        → before.SameContext after
  /-- At the top level every declaration is read outside of loops, with the comma as operator. -/
  topLevel
    : ∀ depth tokens,
        RunsOnlyAt (fun cursor => cursor.loopDepth = 0 ∧ cursor.commaEnabled = true)
          (fun declaration => do
            declarationsUntil Cursor.atEnd declaration (← MonadState.get).ahead)
          (Grammar.rules allowExpression (depth + 1)).declaration (Cursor.start tokens)
  /-- In a block every declaration is read as deep in loops as the block stands, with the comma as
  operator. -/
  blocks
    : ∀ nesting before,
        RunsOnlyAt
          (fun cursor => cursor.loopDepth = before.loopDepth ∧ cursor.commaEnabled = true)
          (fun declaration => block { Grammar.rules allowExpression nesting with declaration })
          (Grammar.rules allowExpression nesting).declaration before
  /-- In the body of a function every declaration is read outside of loops. -/
  functionBodies
    : ∀ nesting before,
        RunsOnlyAt (fun cursor => cursor.loopDepth = 0 ∧ cursor.commaEnabled = true)
          (fun declaration =>
            functionBody { Grammar.rules allowExpression nesting with declaration })
          (Grammar.rules allowExpression nesting).declaration before

/-- Whatever the tokens, and however often reading recovers from mistakes, rules leave the context
as they find it, so that it is the same for all declarations of a text or of a block. -/
theorem contexts_kept (allowExpression : Bool) : ContextKept allowExpression where
  rules production := production.restores (rules_restore allowExpression _)
  loopBody nesting := (rules_restore allowExpression nesting).statement.insideLoop
  program depth :=
    .get fun _ =>
      restores_declarationsUntil (rules_restore allowExpression (depth + 1)).declaration _
  rounds := Rounds.sameContext (rules_restore allowExpression _).declaration
  topLevel depth tokens :=
    (declarationsUntil_only (rules_restore allowExpression (depth + 1)).declaration tokens
      (Cursor.start tokens)).weaken fun _ same => ⟨same.loopDepth, same.commaEnabled⟩
  blocks nesting before :=
    (block_only (rules_restore allowExpression nesting).declaration before).weaken
      fun _ same => ⟨same.loopDepth, same.commaEnabled⟩
  functionBodies nesting before :=
    .inContext <|
      (block_only (rules_restore allowExpression nesting).declaration
        { before with loopDepth := 0 }).weaken fun _ same => ⟨same.loopDepth, same.commaEnabled⟩

end Lox.Grammar
