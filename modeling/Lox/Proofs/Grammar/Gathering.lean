import Lox.Proofs.Grammar.Pieces

/-! Every rule of the grammar gathers the pieces of what it yields.

Whatever is true of all that can be gathered from a text is true of all that is read from it,
whether or not it has mistakes, and the rules need not be looked at again.
-/

namespace Lox.Grammar

-----
-- Nested rules

/-- Whether so many loops are any. -/
def looping (depth : Nat) : Bool :=
  0 < depth

/-- The rules for nested places yield the pieces that they have gathered. -/
structure Rules.Gather (rules : Rules) : Prop where
  expression (depth : Nat) : Gathering depth [] rules.expression fun value => [.expression value]
  statement (depth : Nat)
    : Gathering depth [] rules.statement fun statement => [.statement (looping depth) statement]
  declaration (depth : Nat)
    : Gathering depth [] rules.declaration fun declared =>
        declared.toList.map (.declaration (looping depth))

/-- Declarations are gathered one behind the other, and those left out are not, by induction on the
tokens that bound the loop. -/
theorem gathering_declarationsUntil {depth : Nat} {inLoop : Bool}
    {declaration : Rule (Option SourceStmt)}
    (gathering
      : Gathering depth [] declaration fun declared => declared.toList.map (.declaration inLoop))
    (stop : Cursor → Bool) (bound : List Token)
    : Gathering depth [] (declarationsUntil stop declaration bound) fun statements =>
        statements.map (.declaration inLoop) := by
  induction bound with
  | nil => exact .pure (List.nil_subset _)
  | cons token bound ih =>
      refine .get fun cursor => ?_
      split
      · exact .pure (List.nil_subset _)
      · refine gathering.step fun declared => ih.step fun rest => .pure ?_
        simp

section

variable {rules : Rules} {depth : Nat} {held : List Piece}

-----
-- Functions

/-- A block gathers its declarations, inside as many loops as it stands in. -/
theorem gathering_block (gather : rules.Gather) (depth : Nat)
    : Gathering depth [] (block rules) fun statements =>
        statements.map (.declaration (looping depth)) := by
  have body
      : Gathering depth []
          (withComma true do
            declarationsUntil Cursor.atBlockEnd rules.declaration (← MonadState.get).ahead)
          fun statements => statements.map (.declaration (looping depth)) :=
    .withComma (.get fun _ => gathering_declarationsUntil (gather.declaration depth) _ _) true
  exact body.step fun statements => .expect fun _ _ => .pure (by simp)

/-- The body of a function gathers its declarations outside of loops. -/
theorem gathering_functionBody (gather : rules.Gather) (depth : Nat)
    : Gathering depth [] (functionBody rules) fun body => body.map (.declaration false) :=
  (gathering_block gather 0).outsideLoops

/-- Behind the arrow stands what the parameters in hand make a function of. -/
theorem gathering_arrowBody (gather : rules.Gather) {parameters : List Token}
    (forms
      : ∀ body : List SourceStmt,
          ∃ pieces,
            Forms pieces (.function (.mk parameters body))
            ∧ pieces ⊆ held ++ body.map (.declaration false))
    : Gathering depth held (arrowBody rules parameters) fun value => [.expression value] := by
  refine .expect fun brace _ => (gathering_functionBody gather depth).step fun body => ?_
  obtain ⟨pieces, formed, listed⟩ := forms body
  refine .forming (.form .literalFunction (List.cons_subset_cons _ (List.nil_subset _)) rfl) formed ?_
  exact List.Subset.trans listed (by simp)

/-- What starts with a parenthesis gathers one expression, a group or a function. -/
theorem gathering_groupOrArrow (gather : rules.Gather)
    : Gathering depth [] (groupOrArrow rules) fun value => [.expression value] := by
  refine .accept fun empty => ?_
  split
  · refine .expect fun _ _ => gathering_arrowBody gather fun body => ?_
    exact ⟨_, .function, by simp⟩
  · refine ((gather.expression depth).withComma true).step fun inner => .expect fun _ _ => ?_
    refine .try_ (tries_acceptAny? [.arrow]) ?_ fun arrow _ => ?_
    · exact .form .grouping (by simp) rfl
    · cases listed : parameterNames? inner with
      | none => exact .fail arrow rfl nofun
      | some parameters =>
          have checked : Gathering depth [] (checkNames arrow parameters) fun _ => [] := by
            unfold checkNames
            split
            · exact .report arrow rfl nofun
            · exact .pure (List.nil_subset _)
          refine checked.pass fun _ => gathering_arrowBody gather fun body => ?_
          exact ⟨_, .arrow listed, by grind⟩

-----
-- Operands

/-- Behind the token ahead. -/
theorem Gathering.behind {α : Type} {token : Token} {rule : Rule α} {gained : α → List Piece}
    (gathering : Gathering depth (held ++ [.token token]) rule gained)
    (inside : token.kind ≠ .endOfInput)
    : Facing token depth held (do modify Cursor.drop; rule) gained := by
  rintro start before rfl same gathered
  exact gathering.dropped inside same gathered

/-- A token that stands for a value by itself gathers that value. -/
theorem facing_takeAs {token : Token} {value : SourceExpr}
    (yields : Gathering depth [.token token] (Pure.pure value) fun value => [.expression value])
    (inside : token.kind ≠ .endOfInput)
    : Facing token depth [] (takeAs value) fun value => [.expression value] :=
  Gathering.behind yields inside

/-- An operand gathers one expression, by cases on its first token. -/
theorem gathering_primary (gather : rules.Gather)
    : Gathering depth [] (primary rules) fun value => [.expression value] := by
  refine .next fun token => ?_
  split
  · next kind => exact facing_takeAs (.form (.falseWord kind) (by simp) rfl) (by simp [kind])
  · next kind => exact facing_takeAs (.form (.trueWord kind) (by simp) rfl) (by simp [kind])
  · next kind => exact facing_takeAs (.form (.nilWord kind) (by simp) rfl) (by simp [kind])
  · next kind => exact facing_takeAs (.form (.literal (.inl kind)) (by simp) rfl) (by simp [kind])
  · next kind => exact facing_takeAs (.form (.literal (.inr kind)) (by simp) rfl) (by simp [kind])
  · next kind => exact facing_takeAs (.form (.this kind) (by simp) rfl) (by simp [kind])
  · next kind =>
      refine facing_takeAs (.forming ?_ (.name kind) (by simp)) (by simp [kind])
      exact .form .variable (by simp) rfl
  · next kind =>
      refine Gathering.behind ?_ (by simp [kind])
      refine .expect fun _ _ => .expectName fun method => ?_
      exact .form (.super kind) (by simp) rfl
  · next kind =>
      refine Gathering.behind ?_ (by simp [kind])
      exact ((gathering_groupOrArrow gather).frame _).weaken fun _ gathered =>
        gathered.among (by simp)
  · have misses
        : Gathering depth [] (fail token (.expected .expression)) fun value : SourceExpr =>
            [.expression value] :=
      .fail token rfl nofun
    exact misses.facing token

-----
-- Calls

/-- A check of the length of a list gathers nothing, whether it reports or not. -/
theorem gathering_checkRoom (earlier : Nat) {problem : Problem}
    (syntactic : problem.isSyntactic = true) (other : problem ≠ .breakOutsideLoop)
    : Gathering depth [] (checkRoom earlier problem) fun _ => [] := by
  unfold checkRoom
  split
  · exact .next fun token => (Gathering.report token syntactic other).facing token
  · exact .pure (List.nil_subset _)

/-- Further arguments are gathered in order, by induction on the tokens that bound the loop. -/
theorem gathering_argumentsFrom (gather : rules.Gather) (earlier : Nat) (bound : List Token)
    : Gathering depth [] (argumentsFrom rules earlier bound) fun values =>
        values.map .expression := by
  induction bound generalizing earlier with
  | nil => exact .pure (List.nil_subset _)
  | cons token bound ih =>
      refine (gathering_checkRoom earlier rfl (by decide)).pass fun _ => ?_
      refine (gather.expression depth).step fun argument => .accept fun more => ?_
      split
      · exact (ih (earlier + 1)).step fun rest => .pure (by simp)
      · exact .pure (by simp)

/-- A callee that is in hand becomes part of the call. -/
theorem gathering_callEnd (gather : rules.Gather) (callee : SourceExpr)
    : Gathering depth [.expression callee] (callEnd rules callee) fun value =>
        [.expression value] := by
  have passed
      : Gathering depth [] (arguments rules) fun values => values.map .expression := by
    refine .nextIs fun none => ?_
    split
    · exact .pure (List.nil_subset _)
    · exact .withComma (.get fun _ => gathering_argumentsFrom gather 0 _) false
  refine passed.step fun values => .expect fun paren closes => ?_
  exact .form (.call closes) (by grind) rfl

/-- Calls and property reads gather the expression that they grow to, by induction on the tokens
that bound the loop. -/
theorem gathering_callFrom (gather : rules.Gather) (callee : SourceExpr) (bound : List Token)
    : Gathering depth [.expression callee] (callFrom rules callee bound) fun value =>
        [.expression value] := by
  induction bound generalizing callee with
  | nil => exact .pure (List.Subset.refl _)
  | cons token bound ih =>
      refine .accept fun opens => ?_
      split
      · exact (gathering_callEnd gather callee).bind fun call => ih call
      · refine .accept fun dotted => ?_
        split
        · refine .expectName fun name => ?_
          have read
              : Gathering depth [.name name, .expression callee]
                  (pure (.get callee name) : Rule SourceExpr) fun value => [.expression value] :=
            .form .get (by simp) rfl
          exact read.bind fun value => ih value
        · exact .pure (List.Subset.refl _)

/-- A call gathers one expression. -/
theorem gathering_call (gather : rules.Gather)
    : Gathering depth [] (call rules) fun value => [.expression value] :=
  (gathering_primary gather).bind fun callee => .get fun _ => gathering_callFrom gather callee _

-----
-- Levels

/-- Operators in front of an operand gather one expression, by induction on the tokens that bound
the loop. -/
theorem gathering_unaryFrom (gather : rules.Gather) (bound : List Token)
    : Gathering depth [] (unaryFrom rules bound) fun value => [.expression value] := by
  induction bound with
  | nil => exact gathering_call gather
  | cons token bound ih =>
      refine .try_ (tries_acceptAny? [.bang, .minus]) (gathering_call gather) ?_
      exact fun operator negates => ih.step fun operand => .form (.unary negates) (by simp) rfl

/-- Whatever the level, two operands and an operator of it form an expression. -/
structure Level (operators : List TokenKind)
    (combine : SourceExpr → Token → SourceExpr → SourceExpr)
    : Prop where
  forms {left operator right} (joined : operator.kind ∈ operators)
    : Forms [.expression left, .token operator, .expression right]
        (.expression (combine left operator right))

/-- Operands of a level gather the expression that they grow to, by induction on the tokens that
bound the loop. -/
theorem gathering_chainFrom {operators : List TokenKind} {operator? : Rule (Option Token)}
    {operand : Rule SourceExpr} {combine : SourceExpr → Token → SourceExpr → SourceExpr}
    (level : Level operators combine) (tries : Tries operators operator?)
    (operands : Gathering depth [] operand fun value => [.expression value])
    (left : SourceExpr) (bound : List Token)
    : Gathering depth [.expression left] (chainFrom operator? operand combine left bound)
        fun value => [.expression value] := by
  induction bound generalizing left with
  | nil => exact .pure (List.Subset.refl _)
  | cons token bound ih =>
      refine .try_ tries (.pure (List.Subset.refl _)) fun operator joined => ?_
      refine operands.step fun right => ?_
      have combined
          : Gathering depth
              ([.expression left] ++ [.token operator] ++ [.expression right])
              (pure (combine left operator right) : Rule SourceExpr)
              fun value => [.expression value] :=
        .form (level.forms joined) (by simp) rfl
      exact combined.bind fun value => ih value

/-- A chain of a level gathers one expression. -/
theorem gathering_chain {operators : List TokenKind} {operator? : Rule (Option Token)}
    {operand : Rule SourceExpr} {combine : SourceExpr → Token → SourceExpr → SourceExpr}
    (level : Level operators combine) (tries : Tries operators operator?)
    (operands : Gathering depth [] operand fun value => [.expression value])
    : Gathering depth [] (chain operator? operand combine) fun value => [.expression value] :=
  operands.bind fun left => .get fun _ => gathering_chainFrom level tries operands left _

/-- Arithmetic operators and comparisons form a level. -/
theorem level_binary {operators : List TokenKind} (listed : operators ⊆ binaryKinds)
    : Level operators .binary :=
  ⟨fun joined => .binary (listed joined)⟩

/-- `and` and `or` form a level each. -/
theorem level_logical {operators : List TokenKind} (listed : operators ⊆ [.andWord, .orWord])
    : Level operators .logical :=
  ⟨fun joined => .logical (listed joined)⟩

/-- An equality gathers one expression, through all levels below it. -/
theorem gathering_equality (gather : rules.Gather)
    : Gathering depth [] (equality rules) fun value => [.expression value] := by
  have unary : Gathering depth [] (unary rules) fun value => [.expression value] :=
    .get fun _ => gathering_unaryFrom gather _
  have factor : Gathering depth [] (factor rules) fun value => [.expression value] :=
    gathering_chain (level_binary (by decide)) (tries_acceptAny? _) unary
  have term : Gathering depth [] (term rules) fun value => [.expression value] :=
    gathering_chain (level_binary (by decide)) (tries_acceptAny? _) factor
  have comparison : Gathering depth [] (comparison rules) fun value => [.expression value] :=
    gathering_chain (level_binary (by decide)) (tries_acceptAny? _) term
  exact gathering_chain (level_binary (by decide)) (tries_acceptAny? _) comparison

/-- A conditional expression gathers one expression, with its cases or without. -/
theorem gathering_conditional (gather : rules.Gather)
    : Gathering depth [] (conditional rules) fun value => [.expression value] := by
  refine (gathering_equality gather).step fun condition => .accept fun asks => ?_
  split
  · refine (gathering_equality gather).step fun thenCase => .expect fun _ _ => ?_
    refine (gathering_equality gather).step fun elseCase => ?_
    exact .form .conditional (by simp) rfl
  · exact .pure (by simp)

/-- A disjunction gathers one expression, through all levels below it. -/
theorem gathering_logicOr (gather : rules.Gather)
    : Gathering depth [] (logicOr rules) fun value => [.expression value] := by
  have comma : Gathering depth [] (comma rules) fun value => [.expression value] :=
    gathering_chain (level_binary (by decide)) tries_commaOperator? (gathering_conditional gather)
  have logicAnd : Gathering depth [] (logicAnd rules) fun value => [.expression value] :=
    gathering_chain (level_logical (by decide)) (tries_acceptAny? _) comma
  exact gathering_chain (level_logical (by decide)) (tries_acceptAny? _) logicAnd

/-- A value that nothing can be assigned is dropped. -/
theorem gathering_assignmentTo (target : SourceExpr) (equals : Token) (value : SourceExpr)
    : Gathering depth [.expression target, .expression value] (assignmentTo target equals value)
        fun value => [.expression value] := by
  unfold assignmentTo
  split
  · exact .form .assign (List.Subset.refl _) rfl
  · exact .form .set (List.Subset.refl _) rfl
  · exact (Gathering.report equals rfl (by decide)).pass fun _ => .pure (by simp)

/-- An assignment gathers one expression, by induction on the tokens that bound the chain of
assignments. -/
theorem gathering_assignmentFrom (gather : rules.Gather) (bound : List Token)
    : Gathering depth [] (assignmentFrom rules bound) fun value => [.expression value] := by
  induction bound with
  | nil => exact gathering_logicOr gather
  | cons token bound ih =>
      refine (gathering_logicOr gather).step fun target => ?_
      refine .try_ (tries_acceptAny? [.equal]) (.pure (by simp)) fun equals _ => ?_
      refine ih.step fun value => ?_
      exact (gathering_assignmentTo target equals value).among (by simp)

/-- An expression is gathered as one piece. -/
theorem gathering_expression (gather : rules.Gather)
    : Gathering depth [] (expression rules) fun value => [.expression value] :=
  .get fun _ => gathering_assignmentFrom gather _

-----
-- Declarations

/-- Parameters are gathered as names, by induction on the tokens that bound the loop. -/
theorem gathering_parametersFrom (earlier : Nat) (bound : List Token)
    : Gathering depth [] (parametersFrom earlier bound) fun names => names.map .name := by
  induction bound generalizing earlier with
  | nil => exact .pure (List.nil_subset _)
  | cons token bound ih =>
      refine (gathering_checkRoom earlier rfl (by decide)).pass fun _ => ?_
      refine .expectName fun parameter => .accept fun more => ?_
      split
      · exact (ih (earlier + 1)).step fun rest => .pure (by simp)
      · exact .pure (by simp)

/-- A function with a name gathers both, the name and the function. -/
theorem gathering_namedFunction (gather : rules.Gather) (role : FunctionRole)
    : Gathering depth [] (namedFunction rules role) fun found =>
        [.name found.1, .function found.2] := by
  have listed : Gathering depth [] parameters fun names => names.map .name := by
    refine .nextIs fun none => ?_
    split
    · exact .pure (List.nil_subset _)
    · exact .get fun _ => gathering_parametersFrom 0 _
  refine .expectName fun name => .expect fun _ _ => listed.step fun parameters => ?_
  refine .expect fun _ _ => .expect fun _ _ => ?_
  refine (gathering_functionBody gather depth).step fun body => ?_
  have formed : Forms _ (.function (.mk parameters body)) := .function
  exact .forming (.pure (by simp)) formed (by grind)

/-- A function declaration is gathered as one piece, inside of loops or not. -/
theorem gathering_functionDeclaration (gather : rules.Gather) {inLoop : Bool}
    : Gathering depth [] (functionDeclaration rules) fun declared =>
        [.declaration inLoop declared] :=
  (gathering_namedFunction gather .function).bind fun _ =>
    .form .declareFunction (List.Subset.refl _) rfl

/-- Methods are gathered in order, by induction on the tokens that bound the loop. -/
theorem gathering_methodsFrom (gather : rules.Gather) (bound : List Token)
    : Gathering depth [] (methodsFrom rules bound) fun methods => methods.map .method := by
  induction bound with
  | nil => exact .pure (List.nil_subset _)
  | cons token bound ih =>
      refine .get fun cursor => ?_
      split
      · exact .pure (List.nil_subset _)
      · refine (gathering_namedFunction gather .method).step fun found => ih.step fun rest => ?_
        have formed : Forms _ (.method (.mk found.1 found.2)) := .method
        exact .forming (.pure (by grind)) formed (by simp)

/-- A class declaration is gathered as one piece, inside of loops or not. -/
theorem gathering_classDeclaration (gather : rules.Gather) {inLoop : Bool}
    : Gathering depth [] (classDeclaration rules) fun declared =>
        [.declaration inLoop declared] := by
  have clause
      : Gathering depth [] superclassClause fun superclass =>
          superclass.toList.map (.name ·.name) := by
    refine .accept fun inherits => ?_
    split
    · exact .expectName fun name => .pure (by simp [reference])
    · exact .pure (List.nil_subset _)
  refine .expectName fun name => clause.step fun superclass => .expect fun _ _ => ?_
  refine .get fun cursor => (gathering_methodsFrom gather _).step fun methods => ?_
  exact .expect fun _ _ => .form .declareClass (by grind) rfl

/-- An initial value is gathered if it is there. -/
theorem gathering_initialValue (gather : rules.Gather)
    : Gathering depth [] (initialValue rules) fun initial => initial.toList.map .expression := by
  refine .accept fun assigns => ?_
  split
  · exact (gather.expression depth).map fun _ gathered => gathered
  · exact .pure (List.nil_subset _)

/-- A variable declaration is gathered as one piece, inside of loops or not. -/
theorem gathering_variableDeclaration (gather : rules.Gather) {inLoop : Bool}
    : Gathering depth [] (variableDeclaration rules) fun declared =>
        [.declaration inLoop declared] := by
  refine .expectName fun name => (gathering_initialValue gather).step fun initial => ?_
  have ends : Gathering depth [] (variableEnd initial) fun _ => [] := by
    unfold variableEnd
    split
    · exact .accept fun _ => .pure (List.nil_subset _)
    · exact .expect fun _ _ => .pure (List.nil_subset _)
  exact ends.pass fun _ => .form .declareVariable (by grind) rfl

-----
-- Statements

/-- An expression statement is gathered as one piece, printed or not. -/
theorem gathering_expressionStatement (gather : rules.Gather) (allowExpression : Bool)
    {inLoop : Bool}
    : Gathering depth [] (expressionStatement allowExpression rules) fun statement =>
        [.statement inLoop statement] := by
  refine (gather.expression depth).step fun value => .atEnd fun ends => ?_
  split
  · exact .form .printLine (by simp) rfl
  · exact .expect fun _ _ => .form .expression (by simp) rfl

/-- An expression that may be left out is gathered if it is there. -/
theorem gathering_expressionBefore (gather : rules.Gather) (stop : TokenKind)
    : Gathering depth [] (expressionBefore stop rules) fun value =>
        value.toList.map .expression := by
  refine .nextIs fun none => ?_
  split
  · exact .pure (List.nil_subset _)
  · exact (gather.expression depth).map fun _ gathered => gathered

/-- The block that a `for` stands for holds the first clause and the loop, and the loop the step. -/
theorem gathers_forLoop {first second : Place} {inLoop : Bool} {pieces : List Piece}
    {initial : Option SourceStmt} {condition increment : Option SourceExpr} {body : SourceStmt}
    (gathered : Gathers first second pieces)
    (starts : initial.toList.map (.declaration inLoop) ⊆ pieces)
    (tests : condition.toList.map .expression ⊆ pieces)
    (steps : increment.toList.map .expression ⊆ pieces) (repeats : .statement true body ∈ pieces)
    : Gathers first second [.statement inLoop (forLoop initial condition increment body)] := by
  have tested
      : Gathers first second
          (.expression (condition.getD (.literal (.boolean true))) :: pieces) := by
    cases condition with
    | none => exact gathered.formed .always (List.nil_subset _)
    | some condition => exact gathered.among (by grind)
  unfold forLoop
  generalize condition.getD (.literal (.boolean true)) = test at tested ⊢
  have loops {repeated : SourceStmt}
      (inside : Gathers first second (.statement true repeated :: .expression test :: pieces))
      : Gathers first second
          [.statement inLoop (.block (initial.toList ++ [.loop test repeated]))] := by
    have loop : Forms [.expression test, .statement true repeated]
        (.statement inLoop (.loop test repeated)) :=
      .loop
    have looped := (inside.formed loop (by simp)).declared List.mem_cons_self
    exact looped.form .block (by grind)
  cases increment with
  | none => exact loops (tested.among (by grind))
  | some increment =>
      have step : Forms [.expression increment] (.statement true (.expression increment)) :=
        .expression
      have stepped := (tested.formed step (by grind)).declared List.mem_cons_self
      have both := stepped.declared (List.mem_append_right [_, _, _] repeats)
      have block
          : Forms ([body, .expression increment].map (.declaration true))
              (.statement true (.block [body, .expression increment])) :=
        .block
      exact loops ((both.formed block (by simp)).among (by grind))

/-- The first clause of a `for` is gathered if it is there. -/
theorem gathering_forInitial (gather : rules.Gather) (allowExpression inLoop : Bool)
    : Gathering depth [] (forInitial allowExpression rules) fun initial =>
        initial.toList.map (.declaration inLoop) := by
  refine .accept fun none => ?_
  split
  · exact .pure (List.nil_subset _)
  · refine .accept fun declares => ?_
    split
    · exact (gathering_variableDeclaration gather).map fun _ gathered => gathered
    · exact (gathering_expressionStatement gather allowExpression).map fun _ gathered =>
        gathered.form .declaration (List.Subset.refl _)

/-- A `for` is gathered as the tree of blocks and loops that it becomes. -/
theorem gathering_forStatement (gather : rules.Gather) (allowExpression : Bool)
    : Gathering depth [] (forStatement allowExpression rules) fun statement =>
        [.statement (looping depth) statement] := by
  refine .expect fun _ _ => ?_
  refine (gathering_forInitial gather allowExpression (looping depth)).step fun initial => ?_
  refine (gathering_expressionBefore gather _).step fun condition => .expect fun _ _ => ?_
  refine (gathering_expressionBefore gather _).step fun increment => .expect fun _ _ => ?_
  refine (gather.statement (depth + 1)).insideLoop.step fun body => ?_
  intro start before _ gathered
  refine ⟨.refl before, gathers_forLoop gathered ?_ ?_ ?_ ?_⟩
  all_goals grind [looping]

/-- An `if` is gathered as one piece with its branches. -/
theorem gathering_ifStatement (gather : rules.Gather)
    : Gathering depth [] (ifStatement rules) fun statement =>
        [.statement (looping depth) statement] := by
  have otherwise
      : Gathering depth [] (elseBranch rules) fun branch =>
          branch.toList.map (.statement (looping depth)) := by
    refine .accept fun present => ?_
    split
    · exact (gather.statement depth).map fun _ gathered => gathered
    · exact .pure (List.nil_subset _)
  refine .expect fun _ _ => (gather.expression depth).step fun condition => .expect fun _ _ => ?_
  refine (gather.statement depth).step fun thenBranch => otherwise.step fun elseBranch => ?_
  exact .form .branch (by grind) rfl

/-- A `while` is gathered as one piece, its body inside of one more loop. -/
theorem gathering_whileStatement (gather : rules.Gather)
    : Gathering depth [] (whileStatement rules) fun statement =>
        [.statement (looping depth) statement] := by
  refine .expect fun _ _ => (gather.expression depth).step fun condition => .expect fun _ _ => ?_
  refine (gather.statement (depth + 1)).insideLoop.step fun body => ?_
  exact .form .loop (by simp [looping]) rfl

/-- A `break` outside of loops is reported before its semicolon is looked for. -/
theorem breakStatement_checked (keyword : Token) (cursor : Cursor)
    : breakStatement keyword cursor
      = (do let _ ← expect .semicolon .breakEnd; return Stmt.breakLoop keyword : Rule SourceStmt)
          (if cursor.loopDepth = 0 then cursor.report keyword .breakOutsideLoop else cursor) := by
  have unfolded
      : breakStatement keyword cursor
        = (if cursor.loopDepth = 0 then do
              report keyword .breakOutsideLoop
              let _ ← expect .semicolon .breakEnd
              return Stmt.breakLoop keyword
            else do
              let _ ← expect .semicolon .breakEnd
              return Stmt.breakLoop keyword
            : Rule SourceStmt)
            cursor :=
    rfl
  rw [unfolded]
  split <;> rfl

/-- A `break` is gathered as one piece, with its report if it stands in no loop. -/
theorem facing_breakStatement {keyword : Token} (kind : keyword.kind = .breakWord)
    : Facing keyword depth [] (do modify Cursor.drop; breakStatement keyword) fun statement =>
        [.statement (looping depth) statement] := by
  have ends
      : Gathering depth [.statement (looping depth) (.breakLoop keyword)]
          (do let _ ← expect .semicolon .breakEnd; return .breakLoop keyword)
          fun statement : SourceStmt => [.statement (looping depth) statement] :=
    .expect fun _ _ => .pure (by simp)
  rintro start before rfl rfl gathered
  have notEnd : before.next.kind ≠ .endOfInput := by simp [kind]
  obtain ⟨rest, split, dropped⟩ := Cursor.drop_of_inside notEnd
  have place : before.place = { ahead := before.next :: rest, errors := before.errors } := by
    unfold Cursor.place
    rw [← split]
  rw [place] at gathered
  change Gained start before _ (breakStatement before.next before.drop)
  rw [breakStatement_checked, dropped]
  by_cases outside : before.loopDepth = 0
  · have inLoop : looping before.loopDepth = false := by simp [looping, outside]
    rw [if_pos outside, inLoop]
    rw [inLoop] at ends
    exact (ends start (Cursor.report { before with ahead := rest } before.next .breakOutsideLoop)
      rfl (gathered.append (.misplacedBreak kind))).from_ ⟨rfl, rfl⟩
  · have inLoop : looping before.loopDepth = true := decide_eq_true (Nat.pos_of_ne_zero outside)
    rw [if_neg outside, inLoop]
    rw [inLoop] at ends
    exact (ends start { before with ahead := rest } rfl
      (gathered.append (.loopBreak kind))).from_ ⟨rfl, rfl⟩

/-- A `return` is gathered as one piece with its keyword. -/
theorem gathering_returnStatement (gather : rules.Gather) {keyword : Token}
    (kind : keyword.kind = .returnWord) {inLoop : Bool}
    : Gathering depth [.token keyword] (returnStatement rules keyword) fun statement =>
        [.statement inLoop statement] :=
  (gathering_expressionBefore gather .semicolon).step fun _ =>
    .expect fun _ _ => .form (.returnValue kind) (by simp) rfl

/-- A `print` is gathered as one piece. -/
theorem gathering_printStatement (gather : rules.Gather) {inLoop : Bool}
    : Gathering depth [] (printStatement rules) fun statement =>
        [.statement inLoop statement] :=
  (gather.expression depth).step fun _ => .expect fun _ _ => .form .print (by simp) rfl

/-- A `println` is gathered as one piece, with a value or without. -/
theorem gathering_printLineStatement (gather : rules.Gather) {inLoop : Bool}
    : Gathering depth [] (printLineStatement rules) fun statement =>
        [.statement inLoop statement] := by
  refine .accept fun empty => ?_
  split
  · exact .form .printLine (List.nil_subset _) rfl
  · exact (gather.expression depth).step fun _ => .expect fun _ _ => .form .printLine (by simp) rfl

/-- A statement is gathered as one piece, by cases on its first token. -/
theorem gathering_statement (gather : rules.Gather) (allowExpression : Bool)
    : Gathering depth [] (statement allowExpression rules) fun statement =>
        [.statement (looping depth) statement] := by
  refine .next fun token => ?_
  split
  · next kind =>
      exact ((gathering_forStatement gather allowExpression).among (by simp)).behind (by simp [kind])
  · next kind => exact ((gathering_ifStatement gather).among (by simp)).behind (by simp [kind])
  · next kind => exact ((gathering_printStatement gather).among (by simp)).behind (by simp [kind])
  · next kind =>
      exact ((gathering_printLineStatement gather).among (by simp)).behind (by simp [kind])
  · next kind => exact (gathering_returnStatement gather kind).behind (by simp [kind])
  · next kind => exact ((gathering_whileStatement gather).among (by simp)).behind (by simp [kind])
  · next kind => exact facing_breakStatement kind
  · next kind =>
      have braced
          : Gathering depth [] (.block <$> block rules) fun statement : SourceStmt =>
              [.statement (looping depth) statement] :=
        (gathering_block gather depth).map fun _ gathered =>
          gathered.form .block (List.Subset.refl _)
      exact (braced.among (by simp)).behind (by simp [kind])
  · exact (gathering_expressionStatement gather allowExpression).facing token

-----
-- Recovery

/-- What is skipped on the way to a statement does not hold the end of input. -/
theorem skipFrom_split (previous : Token) (tokens : List Token)
    : ∃ skipped,
        tokens = skipped ++ skipFrom previous tokens
        ∧ ∀ token ∈ skipped, token.kind ≠ .endOfInput := by
  induction tokens generalizing previous with
  | nil => exact ⟨[], rfl, fun _ none => absurd none List.not_mem_nil⟩
  | cons token rest ih =>
      unfold skipFrom
      split
      · exact ⟨[], rfl, fun _ none => absurd none List.not_mem_nil⟩
      · next inside =>
          obtain ⟨skipped, split, others⟩ := ih token
          refine ⟨token :: skipped, by rw [List.cons_append, ← split], fun other member => ?_⟩
          rcases List.mem_cons.1 member with rfl | member
          · simp only [Bool.or_eq_true, decide_eq_true_eq, not_or] at inside
            exact inside.1.1
          · exact others other member

/-- The tokens that are skipped gather nothing. -/
theorem Cursor.gathers_skipToStatement (cursor : Cursor)
    : Gathers cursor.place cursor.skipToStatement.place [] := by
  unfold skipToStatement
  split
  · exact .nothing
  · next notEnd =>
      have inside : cursor.next.kind ≠ .endOfInput := by simpa [atEnd] using notEnd
      obtain ⟨rest, split, -⟩ := drop_of_inside inside
      obtain ⟨skipped, splitRest, others⟩ := skipFrom_split cursor.next rest
      have passed := Gathers.skip (cursor.next :: skipped) (skipFrom cursor.next rest) cursor.errors
        fun token member => (List.mem_cons.1 member).elim (fun same => same ▸ inside) (others token)
      rw [List.cons_append, ← splitRest] at passed
      simpa [place, split] using passed

/-- A declaration behind which reading recovers gathers nothing. -/
theorem gathering_recovering {rule : Rule SourceStmt} {inLoop : Bool}
    (gathering : Gathering depth [] rule fun declared => [.declaration inLoop declared])
    : Gathering depth [] (recovering rule) fun declared =>
        declared.toList.map (.declaration inLoop) := by
  intro start before inside gathered
  have result := gathering start before inside gathered
  unfold recovering
  revert result
  cases rule before with
  | ok statement after => exact id
  | error unwinding after =>
      rintro ⟨same, gathered⟩
      cases unwinding with
      | mistake =>
          exact ⟨same.trans after.sameContext_skipToStatement,
            gathered.then_ after.gathers_skipToStatement⟩
      | tooDeep =>
          have told : Gathers after.place (after.report after.next .tooMuchNesting).place [] :=
            after.gathers_report after.next rfl nofun
          have reported := after.sameContext_report after.next .tooMuchNesting
          exact ⟨(same.trans reported).trans (Cursor.sameContext_skipToStatement _),
            (gathered.then_ told).then_ (Cursor.gathers_skipToStatement _)⟩

/-- A declaration is gathered as one piece, unless it is left out, by cases on its first token. -/
theorem gathering_declaration (gather : rules.Gather) (allowExpression : Bool)
    : Gathering depth [] (declaration allowExpression rules) fun declared =>
        declared.toList.map (.declaration (looping depth)) := by
  refine gathering_recovering (.next fun token => ?_)
  split
  · next kind => exact ((gathering_classDeclaration gather).among (by simp)).behind (by simp [kind])
  · next kind =>
      exact ((gathering_functionDeclaration gather).among (by simp)).behind (by simp [kind])
  · next kind =>
      exact ((gathering_variableDeclaration gather).among (by simp)).behind (by simp [kind])
  · refine Gathering.facing ?_ token
    exact (gathering_statement gather allowExpression).weaken fun _ gathered =>
      gathered.form .declaration (List.Subset.refl _)

end

-----
-- Whole programs

/-- However deep the grammar is unfolded, its rules gather what they yield, by induction on the
depth. -/
theorem gather_rules (allowExpression : Bool) (nesting : Nat)
    : (rules allowExpression nesting).Gather := by
  induction nesting with
  | zero =>
      exact {
        expression := fun _ => .throw
        statement := fun _ => .throw
        declaration := fun _ => .throw
      }
  | succ nesting ih =>
      exact {
        expression := fun _ => gathering_expression ih
        statement := fun _ => gathering_statement ih allowExpression
        declaration := fun _ => gathering_declaration ih allowExpression
      }

/-- The statements of a program are gathered from its tokens, and its mistakes on the way. -/
theorem parse_gathers (allowExpression : Bool) (tokens : List Token) (nesting : Nat)
    : ∃ rest,
        Gathers { ahead := tokens, errors := [] }
          { ahead := rest, errors := (parse allowExpression tokens nesting).errors }
          ((parse allowExpression tokens nesting).statements.map (.declaration false)) := by
  have gathering
      : Gathering 0 [] (program allowExpression nesting) fun statements =>
          statements.map (.declaration false) :=
    .get fun _ =>
      gathering_declarationsUntil ((gather_rules allowExpression (nesting + 1)).declaration 0) _ _
  have result := gathering _ (Cursor.start tokens) rfl .nothing
  unfold parse
  revert result
  cases program allowExpression nesting (Cursor.start tokens) with
  | ok statements after => exact fun ⟨_, gathered⟩ => ⟨after.ahead, gathered⟩
  | error unwinding after => exact fun ⟨_, gathered⟩ => ⟨after.ahead, gathered⟩

end Lox.Grammar
