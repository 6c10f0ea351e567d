import Lox.Proofs.Grammar.ExpressionSoundness

/-! What the rules for statements and declarations take stands in the grammar.

A declaration that was read without a mistake also tells what it leaves ahead: nothing that would
go on with a function literal, and no `else` for an open branch. Where an expression may end the
text, a statement may lack its semicolon if it leaves nothing ahead.
-/

namespace Lox.Grammar

section

variable {rules : Rules} {inner : Language} {trailing : Trailing} {allowExpression : Bool}

-----
-- Functions and classes

/-- Further parameters meet the grammar, by induction on the tokens that bound the loop. -/
theorem meets_parametersFrom (earlier : Nat) (bound : List Token) (before : Cursor)
    : Meets (parametersFrom earlier bound) before
        (fun tokens names _ =>
          before.ahead.length ≤ bound.length
          → Names tokens names ∧ earlier + names.length ≤ maxArguments) := by
  induction bound generalizing earlier before with
  | nil => exact .pure_of_no_rounds
  | cons _ bound ih =>
      refine (meets_checkRoom earlier _ before).bind fun _ second _ => ?_
      refine (meets_expect .identifier _ second (by decide)).bind fun name third _ => ?_
      refine (meets_accept .comma third (by decide)).bind fun more fourth _ => ?_
      cases more with
      | false =>
          refine .pure_of ?_
          rintro _ - ⟨rfl, -⟩ _ - ⟨rfl, named⟩ _ - ⟨rfl, -, room⟩ -
          exact ⟨.last named, room⟩
      | true =>
          refine (ih (earlier + 1) fourth).bind fun others fifth _ => .pure_of ?_
          rintro rest - goOn _ split ⟨separator, rfl, separates⟩ _ split2 ⟨rfl, named⟩
            _ - ⟨rfl, rfl, room⟩ enough
          have shorter : fourth.ahead.length ≤ bound.length := by
            have front := congrArg List.length split2
            have back := congrArg List.length split
            simp only [List.length_append, List.length_cons, List.length_nil] at *
            omega
          obtain ⟨listed, few⟩ := goOn shorter
          refine ⟨by simpa using Names.more named separates listed, ?_⟩
          simp only [List.length_cons]
          omega

/-- A parameter list meets the grammar. -/
theorem meets_parameters (before : Cursor)
    : Meets parameters before (fun tokens names _ => Parameters tokens names) := by
  refine .nextIs ?_
  split
  · exact .pure_of .none
  · refine .get ((meets_parametersFrom 0 before.ahead before).weaken ?_)
    intro tokens names after taken
    obtain ⟨listed, few⟩ := taken (Nat.le_refl _)
    exact .some listed (by omega)

/-- A function with a name meets the grammar. -/
theorem meets_namedFunction (sound : rules.Sound inner trailing) (role : FunctionRole)
    (before : Cursor)
    : Meets (namedFunction rules role) before
        (fun tokens result _ => NamedFunction inner tokens result.1 result.2) := by
  refine (meets_expect .identifier _ before (by decide)).bind fun name second _ => ?_
  refine (meets_expect .leftParen _ second (by decide)).bind fun opening third _ => ?_
  refine (meets_parameters third).bind fun names fourth _ => ?_
  refine (meets_expect .rightParen _ fourth (by decide)).bind fun closing fifth _ => ?_
  refine (meets_expect .leftBrace _ fifth (by decide)).bind fun brace sixth _ => ?_
  refine (meets_functionBody sound sixth).bind fun statements seventh _ => .pure_of ?_
  rintro body - block _ - ⟨rfl, braces⟩ _ - ⟨rfl, closes⟩ tokens - listed _ - ⟨rfl, opens⟩
    _ - ⟨rfl, named⟩
  simpa using NamedFunction.mk named opens listed closes (block brace braces)

/-- Methods in a row meet the grammar, by induction on the tokens that bound the loop. -/
theorem meets_methodsFrom (sound : rules.Sound inner trailing) (bound : List Token)
    (before : Cursor)
    : Meets (methodsFrom rules bound) before
        (fun tokens methods _ =>
          before.ahead.length ≤ bound.length → Methods inner tokens methods) := by
  induction bound generalizing before with
  | nil => exact .pure_of_no_rounds
  | cons _ bound ih =>
      refine .get ?_
      split
      · exact .pure_of fun _ => .nil
      · refine (meets_namedFunction sound .method before).bind fun ⟨name, function⟩ second _ => ?_
        refine (ih second).bind fun rest third _ => .pure_of ?_
        rintro others - goOn tokens split defined enough
        have shorter : second.ahead.length ≤ bound.length := by
          have front : 0 < tokens.length := by
            cases defined
            simp
          have whole := congrArg List.length split
          simp only [List.length_append, List.length_cons] at *
          omega
        simpa using Methods.cons defined (goOn shorter)

/-- A superclass clause meets the grammar, whether it is there or not. -/
theorem meets_superclassClause (before : Cursor)
    : Meets superclassClause before
        (fun tokens superclass _ => SuperclassClause tokens superclass) := by
  refine (meets_accept .less before (by decide)).bind fun inherits second _ => ?_
  cases inherits with
  | true =>
      refine (meets_expect .identifier _ second (by decide)).bind fun name third _ => .pure_of ?_
      rintro _ - ⟨rfl, named⟩ _ - ⟨less, rfl, inherits⟩
      exact .some inherits named
  | false =>
      refine .pure_of ?_
      rintro _ - ⟨rfl, -⟩
      exact .none

/-- Behind the keyword of a class. -/
theorem meets_classDeclaration (sound : rules.Sound inner trailing) (inLoop : Bool)
    (before : Cursor)
    : Meets (classDeclaration rules) before
        (fun tokens statement _ =>
          ∀ keyword : Token,
            keyword.kind = .classWord
            → Declaration inner inLoop .closed (keyword :: tokens) statement) := by
  refine (meets_expect .identifier _ before (by decide)).bind fun name second _ => ?_
  refine (meets_superclassClause second).bind fun superclass third _ => ?_
  refine (meets_expect .leftBrace _ third (by decide)).bind fun opening fourth _ => ?_
  refine .get ?_
  refine (meets_methodsFrom sound fourth.ahead fourth).bind fun methods fifth _ => ?_
  refine (meets_expect .rightBrace _ fifth (by decide)).bind fun closing sixth _ => .pure_of ?_
  rintro _ - ⟨rfl, closes⟩ tokens - listed _ - ⟨rfl, opens⟩ clause - inherits _ - ⟨rfl, named⟩
    keyword kind
  simpa using Declaration.class kind named inherits opens (listed (Nat.le_refl _)) closes

/-- A function declaration meets the grammar behind its keyword. -/
theorem meets_functionDeclaration (sound : rules.Sound inner trailing) (inLoop : Bool)
    (before : Cursor)
    : Meets (functionDeclaration rules) before
        (fun tokens statement _ =>
          ∀ keyword : Token,
            keyword.kind = .funWord
            → Declaration inner inLoop .closed (keyword :: tokens) statement) := by
  refine (meets_namedFunction sound .function before).bind fun function second _ => .pure_of ?_
  rintro tokens - defined keyword kind
  simpa using Declaration.function kind defined

-----
-- Variables

/-- An initial value meets the grammar, whether it is there or not. -/
theorem meets_initialValue (sound : rules.Sound inner trailing) (before : Cursor)
    (context : before.commaEnabled = true)
    : Meets (initialValue rules) before
        (fun tokens initial after =>
          (tokens = [] ∧ initial = none)
          ∨ ∃ equals others value,
              tokens = equals :: others
              ∧ initial = some value
              ∧ equals.kind = .equal
              ∧ TakesLevel 9 true (inner.expression true) others value after) := by
  refine (meets_accept .equal before (by decide)).bind fun assigned second toSecond => ?_
  cases assigned with
  | true =>
      have context2 := toSecond.commaEnabled.trans context
      have value := sound.expression second
      rw [context2] at value
      refine value.map some ?_
      rintro others value after taken _ - ⟨equals, rfl, assigns⟩
      exact .inr ⟨equals, others, value, rfl, rfl, assigns, taken⟩
  | false =>
      refine .pure_of ?_
      rintro _ - ⟨rfl, -⟩
      exact .inl ⟨rfl, rfl⟩

/-- A semicolon, which may be missing behind a function literal. -/
theorem meets_variableEnd (initial : Option SourceExpr) (before : Cursor)
    : Meets (variableEnd initial) before
        (fun tokens _ after =>
          (∃ semicolon : Token, tokens = [semicolon] ∧ semicolon.kind = .semicolon)
          ∨ (∃ function, initial = some (.function function))
            ∧ tokens = []
            ∧ after.next = before.next
            ∧ after.next.kind ≠ .semicolon) := by
  unfold variableEnd
  split
  · next literal =>
      have function : ∃ function, initial = some (.function function) := by
        unfold isFunctionLiteral at literal
        split at literal
        · exact ⟨_, rfl⟩
        · simp at literal
      refine (meets_accept .semicolon before (by decide)).bind fun taken second _ => .pure_of ?_
      rintro tokens split taken'
      rw [List.append_nil]
      cases taken with
      | true => exact .inl taken'
      | false =>
          obtain ⟨rfl, missing⟩ := taken'
          exact .inr ⟨function, rfl, (Cursor.next_eq_of_ahead split).symm, missing⟩
  · refine (meets_expect .semicolon _ before (by decide)).bind fun semicolon second _ =>
      .pure_of ?_
    rintro _ - ⟨rfl, ends⟩
    exact .inl ⟨semicolon, rfl, ends⟩

/-- Behind the keyword of a variable. -/
theorem meets_variableDeclaration (sound : rules.Sound inner trailing) (before : Cursor)
    (context : before.commaEnabled = true)
    : Meets (variableDeclaration rules) before
        (fun tokens statement after =>
          ∃ ending,
            VariableRest inner ending tokens statement
            ∧ (ending = .openLiteral → Policy.greedy (some after.next.kind))) := by
  refine (meets_expect .identifier _ before (by decide)).bind fun name second toSecond => ?_
  have context2 := toSecond.commaEnabled.trans context
  refine (meets_initialValue sound second context2).bind fun initial third _ => ?_
  refine (meets_variableEnd initial third).bind fun _ fourth _ => .pure_of ?_
  rintro tail - ended tokens - started _ - ⟨rfl, named⟩
  rcases started with ⟨rfl, rfl⟩ | ⟨equals, others, value, rfl, rfl, assigns, derived, past⟩
  · rcases ended with ⟨semicolon, rfl, ends⟩ | ⟨⟨function, impossible⟩, -⟩
    · exact ⟨.closed, .plain named ends, fun open_ => absurd open_ (by decide)⟩
    · cases impossible
  · rcases ended with ⟨semicolon, rfl, ends⟩ | ⟨⟨function, literal⟩, rfl, same, missing⟩
    · exact ⟨.closed, by simpa using VariableRest.initialized named assigns derived ends,
        fun open_ => absurd open_ (by decide)⟩
    · obtain rfl : value = .function function := Option.some.inj literal
      refine ⟨.openLiteral, by simpa using VariableRest.literal named assigns derived, fun _ => ?_⟩
      rw [← same] at past
      exact past.greedy missing

-----
-- Simple statements

/-- With the comma operator enabled an expression meets the grammar that has it. -/
theorem meets_expression_enabled (sound : rules.Sound inner trailing) (before : Cursor)
    (context : before.commaEnabled = true)
    : Meets rules.expression before (fun tokens value _ => inner.expression true tokens value) := by
  have value := sound.expression before
  rw [context] at value
  exact value.weaken fun _ _ _ taken => taken.1

/-- Where it is allowed, the semicolon is missing at the end. -/
theorem meets_expressionStatement (sound : rules.Sound inner trailing) (allowExpression : Bool)
    (before : Cursor) (context : before.commaEnabled = true)
    : Meets (expressionStatement allowExpression rules) before
        (fun tokens statement after =>
          ExpressionStatement inner tokens statement
          ∨ after.atEnd = true
            ∧ allowExpression = true
            ∧ ∃ value,
                inner.expression true tokens value ∧ statement = .printLine (some value)) := by
  refine (meets_expression_enabled sound before context).bind fun value second _ => .get ?_
  split
  · next ends =>
      obtain ⟨allowed, atEnd⟩ : allowExpression = true ∧ second.atEnd = true := by simpa using ends
      refine .pure_of ?_
      intro tokens _ derived
      rw [List.append_nil]
      exact .inr ⟨atEnd, allowed, value, derived, rfl⟩
  · refine (meets_expect .semicolon _ second (by decide)).bind fun semicolon third _ => .pure_of ?_
    rintro _ - ⟨rfl, ends⟩ tokens - derived
    exact .inl (.mk derived ends)

/-- An expression that may be missing meets the grammar in front of its stop. -/
theorem meets_expressionBefore (sound : rules.Sound inner trailing) (stop : TokenKind)
    (before : Cursor) (context : before.commaEnabled = true)
    : Meets (expressionBefore stop rules) before
        (fun tokens value _ => OptionalExpression inner tokens value) := by
  refine .nextIs ?_
  split
  · exact .pure_of .none
  · exact (meets_expression_enabled sound before context).map some fun _ _ _ derived =>
      .some derived

section Keywords

variable {keyword : Token}

/-- A `print` statement meets the grammar behind its keyword. -/
theorem meets_printStatement (sound : rules.Sound inner trailing) (inLoop : Bool) (before : Cursor)
    (context : before.commaEnabled = true) (kind : keyword.kind = .printWord)
    : Meets (printStatement rules) before
        (fun tokens statement _ =>
          Statement inner inLoop .closed (keyword :: tokens) statement) := by
  refine (meets_expression_enabled sound before context).bind fun value second _ => ?_
  refine (meets_expect .semicolon _ second (by decide)).bind fun semicolon third _ => .pure_of ?_
  rintro _ - ⟨rfl, ends⟩ tokens - derived
  exact .print kind derived ends

/-- A `println` statement meets the grammar behind its keyword. -/
theorem meets_printLineStatement (sound : rules.Sound inner trailing) (inLoop : Bool)
    (before : Cursor) (context : before.commaEnabled = true) (kind : keyword.kind = .printlnWord)
    : Meets (printLineStatement rules) before
        (fun tokens statement _ =>
          Statement inner inLoop .closed (keyword :: tokens) statement) := by
  refine (meets_accept .semicolon before (by decide)).bind fun empty second toSecond => ?_
  cases empty with
  | true =>
      refine .pure_of ?_
      rintro _ - ⟨semicolon, rfl, ends⟩
      exact .printLine kind .none ends
  | false =>
      have context2 := toSecond.commaEnabled.trans context
      refine (meets_expression_enabled sound second context2).bind fun value third _ => ?_
      refine (meets_expect .semicolon _ third (by decide)).bind fun semicolon fourth _ =>
        .pure_of ?_
      rintro _ - ⟨rfl, ends⟩ tokens - derived _ - ⟨rfl, -⟩
      exact .printLine kind (.some derived) ends

/-- A `return` meets the grammar behind its keyword. -/
theorem meets_returnStatement (sound : rules.Sound inner trailing) (inLoop : Bool) (before : Cursor)
    (context : before.commaEnabled = true) (kind : keyword.kind = .returnWord)
    : Meets (returnStatement rules keyword) before
        (fun tokens statement _ =>
          Statement inner inLoop .closed (keyword :: tokens) statement) := by
  refine (meets_expressionBefore sound .semicolon before context).bind fun value second _ => ?_
  refine (meets_expect .semicolon _ second (by decide)).bind fun semicolon third _ => .pure_of ?_
  rintro _ - ⟨rfl, ends⟩ tokens - derived
  exact .returnValue kind derived ends

/-- Without a mistake a `break` stands in a loop. -/
theorem meets_breakStatement (inner : Language) (before : Cursor) (kind : keyword.kind = .breakWord)
    : Meets (breakStatement keyword) before
        (fun tokens statement _ =>
          Statement inner before.inLoop .closed (keyword :: tokens) statement) := by
  refine .get ?_
  split
  · refine Meets.bind (P := fun _ _ _ => False) (.report _ _) fun _ second _ => ?_
    refine (meets_expect .semicolon _ second (by decide)).bind fun _ third _ => .pure_of ?_
    intro _ _ _ _ _ impossible
    exact impossible.elim
  · next inside =>
      refine (meets_expect .semicolon _ before (by decide)).bind fun semicolon second _ =>
        .pure_of ?_
      rintro _ - ⟨rfl, ends⟩
      exact .breakLoop kind (by simpa [Cursor.inLoop] using inside) ends

end Keywords

-----
-- Branches and loops

/-- A loop body stands in a loop. -/
theorem meets_loopBody (sound : rules.Sound inner trailing) (before : Cursor)
    (context : before.commaEnabled = true)
    : Meets (insideLoop rules.statement) before (TakesStatement inner trailing true) := by
  let inside : Cursor := { before with loopDepth := before.loopDepth + 1 }
  have body := sound.statement inside context
  have within : inside.inLoop = true := by simp [Cursor.inLoop, inside]
  rw [within] at body
  exact meets_inContext takesBack_insideLoop rfl rfl body fun _ _ _ taken => taken

/-- What the rule for statements takes of one keyword, told of the statement itself. -/
def TakesWhole (allowExpression : Bool) (inner : Language) (trailing : Trailing) (inLoop : Bool)
    (tokens : List Token) (statement : SourceStmt) (after : Cursor)
    : Prop :=
  (∃ ending,
    Statement inner inLoop ending tokens statement
    ∧ ending ≠ .openLiteral
    ∧ (ending = .openBranch → after.next.kind ≠ .elseWord))
  ∨ EndsText (TrailingStatement allowExpression inner trailing) inLoop tokens statement after

section Keywords

variable {keyword : Token}

/-- A `while` loop meets the grammar behind its keyword. -/
theorem meets_whileStatement (allowExpression : Bool) (sound : rules.Sound inner trailing)
    (inLoop : Bool) (before : Cursor) (context : before.commaEnabled = true)
    (kind : keyword.kind = .whileWord)
    : Meets (whileStatement rules) before
        (fun tokens statement after =>
          TakesWhole allowExpression inner trailing inLoop (keyword :: tokens) statement
            after) := by
  refine (meets_expect .leftParen _ before (by decide)).bind fun opening second toSecond => ?_
  have context2 := toSecond.commaEnabled.trans context
  refine (meets_expression_enabled sound second context2).bind fun condition third toThird => ?_
  have context3 := toThird.commaEnabled.trans context2
  refine (meets_expect .rightParen _ third (by decide)).bind fun closing fourth toFourth => ?_
  have context4 := toFourth.commaEnabled.trans context3
  refine (meets_loopBody sound fourth context4).bind fun body fifth _ => .pure_of ?_
  rintro others - taken _ - ⟨rfl, closes⟩ tokens - tested _ - ⟨rfl, opens⟩
  rcases taken with ⟨ending, repeated, notLiteral, noElse⟩ | ⟨atEnd, written, repeated⟩
  · refine .inl ⟨ending, ?_, notLiteral, noElse⟩
    simpa using Statement.loop kind opens tested closes repeated
  · refine .inr ⟨atEnd, .loop condition written, ?_⟩
    simpa using TrailingStatement.loop kind opens tested closes repeated

/-- Without an `else` ahead there is no branch, and otherwise there is one. -/
theorem meets_elseBranch (sound : rules.Sound inner trailing) (before : Cursor)
    (context : before.commaEnabled = true)
    : Meets (elseBranch rules) before
        (fun tokens result after =>
          (tokens = [] ∧ result = none ∧ after.next.kind ≠ .elseWord)
          ∨ ∃ elseWord others statement,
              tokens = elseWord :: others
              ∧ result = some statement
              ∧ elseWord.kind = .elseWord
              ∧ TakesStatement inner trailing before.inLoop others statement after) := by
  refine (meets_accept .elseWord before (by decide)).bind fun more second toSecond => ?_
  cases more with
  | false =>
      refine .pure_of ?_
      rintro _ - ⟨rfl, missing⟩
      exact .inl ⟨rfl, rfl, missing⟩
  | true =>
      have inLoop2 : second.inLoop = before.inLoop := by simp [Cursor.inLoop, toSecond.loopDepth]
      have branch := sound.statement second (toSecond.commaEnabled.trans context)
      rw [inLoop2] at branch
      refine branch.map some ?_
      rintro others statement after taken _ - ⟨elseWord, rfl, otherwise⟩
      exact .inr ⟨elseWord, others, statement, rfl, rfl, otherwise, taken⟩

/-- An `if` statement meets the grammar behind its keyword. -/
theorem meets_ifStatement (allowExpression : Bool) (sound : rules.Sound inner trailing)
    (before : Cursor) (context : before.commaEnabled = true) (kind : keyword.kind = .ifWord)
    : Meets (ifStatement rules) before
        (fun tokens statement after =>
          TakesWhole allowExpression inner trailing before.inLoop (keyword :: tokens) statement
            after) := by
  refine (meets_expect .leftParen _ before (by decide)).bind fun opening second toSecond => ?_
  have context2 := toSecond.commaEnabled.trans context
  refine (meets_expression_enabled sound second context2).bind fun condition third toThird => ?_
  have context3 := toThird.commaEnabled.trans context2
  refine (meets_expect .rightParen _ third (by decide)).bind fun closing fourth toFourth => ?_
  have context4 := toFourth.commaEnabled.trans context3
  have inLoop4 : fourth.inLoop = before.inLoop := by
    simp [Cursor.inLoop, toFourth.loopDepth, toThird.loopDepth, toSecond.loopDepth]
  refine (sound.statement fourth context4).bind fun thenBranch fifth toFifth => ?_
  have context5 := toFifth.commaEnabled.trans context4
  have inLoop5 : fifth.inLoop = fourth.inLoop := by simp [Cursor.inLoop, toFifth.loopDepth]
  refine (meets_elseBranch sound fifth context5).bind fun elseBranch sixth _ => .pure_of ?_
  rw [inLoop5, inLoop4]
  rintro tail split second thenTokens - first _ - ⟨rfl, closes⟩ tokens - tested _ - ⟨rfl, opens⟩
  rcases second with ⟨rfl, rfl, missing⟩
    | ⟨elseWord, others, statement, rfl, rfl, otherwise, second⟩
  · have same := Cursor.next_eq_of_ahead split
    rcases first with ⟨ending, first, -, -⟩ | ⟨atEnd, written, first⟩
    · refine .inl ⟨.openBranch, ?_, by decide, fun _ => missing⟩
      simpa using Statement.branch kind opens tested closes first
    · refine .inr ⟨by rwa [Cursor.atEnd, ← same], .branch condition written none, ?_⟩
      simpa using TrailingStatement.branch kind opens tested closes first
  -- Neither the end nor an `else` that belongs to the branch stands behind it.
  · obtain ⟨ending, first, notLiteral, noElse⟩ | ⟨atEnd, -⟩ := first
    case inr => exact absurd otherwise (Cursor.no_token_atEnd atEnd split (by decide))
    have ahead : fifth.next.kind = .elseWord := by simpa [Cursor.next, split] using otherwise
    have closed : ending = .closed := by
      cases ending with
      | closed => rfl
      | openBranch => exact absurd ahead (noElse rfl)
      | openLiteral => exact absurd rfl notLiteral
    subst closed
    rcases second with ⟨lastEnding, second, notLiteral', noElse'⟩ | ⟨atEnd, written, second⟩
    · refine .inl ⟨lastEnding, ?_, notLiteral', noElse'⟩
      simpa using Statement.branchElse kind opens tested closes first otherwise second
    · refine .inr ⟨atEnd, .branch condition thenBranch (some written), ?_⟩
      simpa using TrailingStatement.branchElse kind opens tested closes first otherwise second

/-- The first clause of a `for`. What it leaves ahead starts the second clause, unless it is the
end of the text. -/
theorem meets_forInitial (sound : rules.Sound inner trailing) (before : Cursor)
    (context : before.commaEnabled = true)
    : Meets (forInitial allowExpression rules) before
        (fun tokens initial after =>
          (∃ ending,
            ForInitial inner ending tokens initial
            ∧ (ending = .openLiteral → Policy.greedy (some after.next.kind)))
          ∨ after.atEnd = true) := by
  refine (meets_accept .semicolon before (by decide)).bind fun empty second toSecond => ?_
  have context2 := toSecond.commaEnabled.trans context
  cases empty with
  | true =>
      refine .pure_of ?_
      rintro _ - ⟨semicolon, rfl, ends⟩
      exact .inl ⟨.closed, .none ends, fun open_ => absurd open_ (by decide)⟩
  | false =>
      refine (meets_accept .varWord second (by decide)).bind fun declares third toThird => ?_
      have context3 := toThird.commaEnabled.trans context2
      cases declares with
      | true =>
          refine (meets_variableDeclaration sound third context3).map some ?_
          rintro tokens declared after ⟨ending, derived, open_⟩ _ - ⟨keyword, rfl, declares⟩
            _ - ⟨rfl, -⟩
          exact .inl ⟨ending, .declaration declares derived, open_⟩
      | false =>
          refine (meets_expressionStatement sound allowExpression third context3).map some ?_
          rintro tokens statement after (derived | ⟨atEnd, -⟩) _ - ⟨rfl, -⟩ _ - ⟨rfl, -⟩
          · exact .inl ⟨.closed, .expression derived, fun open_ => absurd open_ (by decide)⟩
          · exact .inr atEnd

/-- A `for` loop meets the grammar behind its keyword, read as the tree that it stands for. -/
theorem meets_forStatement (sound : rules.Sound inner trailing) (inLoop : Bool) (before : Cursor)
    (context : before.commaEnabled = true) (kind : keyword.kind = .forWord)
    : Meets (forStatement allowExpression rules) before
        (fun tokens statement after =>
          TakesWhole allowExpression inner trailing inLoop (keyword :: tokens) statement
            after) := by
  refine .of_ended fun ended => ?_
  refine (meets_expect .leftParen _ before (by decide)).bind fun opening second toSecond => ?_
  have context2 := toSecond.commaEnabled.trans context
  refine (meets_forInitial sound second context2).bind fun initial third toThird => ?_
  have context3 := toThird.commaEnabled.trans context2
  refine (meets_expressionBefore sound _ third context3).bind fun condition fourth toFourth => ?_
  have context4 := toFourth.commaEnabled.trans context3
  refine (meets_expect .semicolon _ fourth (by decide)).bind fun semicolon fifth toFifth => ?_
  have context5 := toFifth.commaEnabled.trans context4
  refine (meets_expressionBefore sound _ fifth context5).bind fun increment sixth toSixth => ?_
  have context6 := toSixth.commaEnabled.trans context5
  refine (meets_expect .rightParen _ sixth (by decide)).bind fun closing seventh toSeventh => ?_
  have context7 := toSeventh.commaEnabled.trans context6
  refine (meets_loopBody sound seventh context7).bind fun body eighth _ => .pure_of ?_
  rintro others - taken _ - ⟨rfl, closes⟩ incrementTokens - stepped _ split2 ⟨rfl, ends⟩
    conditionTokens split tested initialTokens - started _ - ⟨rfl, opens⟩
  have ahead : third.ahead = (conditionTokens ++ [semicolon]) ++ fifth.ahead := by
    rw [split, split2, List.append_assoc]
  obtain ⟨initialEnding, starts, open_⟩ | atEnd := started
  -- The second clause has a semicolon, so the text does not end in the first one.
  case inr =>
    have ended3 := toThird.ended (toSecond.ended ended)
    have ended5 := toFifth.ended (toFourth.ended ended3)
    have single := congrArg List.length (ahead.symm.trans (third.ahead_atEnd ended3 atEnd))
    have more := List.length_pos_iff.2 ended5.ne_nil
    simp only [List.length_append, List.length_cons, List.length_nil] at single
    omega
  have admitted := admits_of_ahead sound ahead open_
  rcases taken with ⟨ending, repeated, notLiteral, noElse⟩ | ⟨atEnd, written, repeated⟩
  · refine .inl ⟨ending, ?_, notLiteral, noElse⟩
    simpa using Statement.forLoop kind opens starts admitted tested ends stepped closes repeated
  · refine .inr ⟨atEnd, Grammar.forLoop initial condition increment written, ?_⟩
    simpa using
      TrailingStatement.forLoop kind opens starts admitted tested ends stepped closes repeated

end Keywords

-----
-- All statements and declarations

/-- A statement meets the grammar, by cases on its first token. -/
theorem meets_statement (sound : rules.Sound inner trailing) (before : Cursor)
    (context : before.commaEnabled = true)
    : Meets (statement allowExpression rules) before
        (TakesWhole allowExpression inner trailing before.inLoop) := by
  refine .next ?_
  have inside {kind : TokenKind} (found : before.next.kind = kind) (proper : kind ≠ .endOfInput)
      : before.next.kind ≠ .endOfInput :=
    found ▸ proper
  have closed {tokens : List Token} {statement : SourceStmt} {after : Cursor}
      (derived : Statement inner before.inLoop .closed tokens statement)
      : TakesWhole allowExpression inner trailing before.inLoop tokens statement after :=
    .inl ⟨.closed, derived, by decide, fun open_ => absurd open_ (by decide)⟩
  split
  · next kind =>
      refine (meets_drop before (inside kind (by decide))).bind fun _ second toSecond => ?_
      have context2 := toSecond.commaEnabled.trans context
      refine (meets_forStatement sound before.inLoop second context2 kind).weaken ?_
      rintro tokens statement after taken _ - rfl
      exact taken
  · next kind =>
      refine (meets_drop before (inside kind (by decide))).bind fun _ second toSecond => ?_
      have context2 := toSecond.commaEnabled.trans context
      have inLoop2 : second.inLoop = before.inLoop := by simp [Cursor.inLoop, toSecond.loopDepth]
      refine (meets_ifStatement allowExpression sound second context2 kind).weaken ?_
      rintro tokens statement after taken _ - rfl
      exact inLoop2 ▸ taken
  · next kind =>
      refine (meets_drop before (inside kind (by decide))).bind fun _ second toSecond => ?_
      have context2 := toSecond.commaEnabled.trans context
      refine (meets_printStatement sound before.inLoop second context2 kind).weaken ?_
      rintro tokens statement after taken _ - rfl
      exact closed taken
  · next kind =>
      refine (meets_drop before (inside kind (by decide))).bind fun _ second toSecond => ?_
      have context2 := toSecond.commaEnabled.trans context
      refine (meets_printLineStatement sound before.inLoop second context2 kind).weaken ?_
      rintro tokens statement after taken _ - rfl
      exact closed taken
  · next kind =>
      refine (meets_drop before (inside kind (by decide))).bind fun _ second toSecond => ?_
      have context2 := toSecond.commaEnabled.trans context
      refine (meets_returnStatement sound before.inLoop second context2 kind).weaken ?_
      rintro tokens statement after taken _ - rfl
      exact closed taken
  · next kind =>
      refine (meets_drop before (inside kind (by decide))).bind fun _ second toSecond => ?_
      have context2 := toSecond.commaEnabled.trans context
      refine (meets_whileStatement allowExpression sound before.inLoop second context2
        kind).weaken ?_
      rintro tokens statement after taken _ - rfl
      exact taken
  · next kind =>
      refine (meets_drop before (inside kind (by decide))).bind fun _ second toSecond => ?_
      have inLoop2 : second.inLoop = before.inLoop := by simp [Cursor.inLoop, toSecond.loopDepth]
      refine (meets_breakStatement inner second kind).weaken ?_
      rintro tokens statement after taken _ - rfl
      exact closed (inLoop2 ▸ taken)
  · next kind =>
      refine (meets_drop before (inside kind (by decide))).bind fun _ second toSecond => ?_
      have inLoop2 : second.inLoop = before.inLoop := by simp [Cursor.inLoop, toSecond.loopDepth]
      refine (meets_block sound second).map Stmt.block ?_
      rintro tokens statements after taken _ - rfl
      exact closed (inLoop2 ▸ .block (taken _ kind))
  · refine (meets_expressionStatement sound allowExpression before context).weaken ?_
    rintro tokens statement after (derived | ⟨atEnd, allowed, value, derived, rfl⟩)
    · exact closed (.expression derived)
    · exact .inr ⟨atEnd, .expression value, .expression allowed derived⟩

/-- Skipping tokens never skips the end of the text. -/
theorem Ended.skipFrom {tokens : List Token} (ended : Ended tokens) (previous : Token)
    : Ended (skipFrom previous tokens) := by
  induction tokens generalizing previous with
  | nil => exact absurd rfl ended.ne_nil
  | cons token rest ih =>
      unfold Grammar.skipFrom
      split
      · exact ended
      · next goesOn =>
          have inside : token.kind ≠ .endOfInput := by
            intro atEnd
            simp [atEnd] at goesOn
          exact ih (ended.tail inside) token

/-- Skipping to the next statement leads on through the text. -/
theorem Cursor.leads_skipToStatement (cursor : Cursor) (ended : Ended cursor.ahead)
    : cursor.Leads cursor.skipToStatement := by
  unfold Cursor.skipToStatement
  split
  · exact .refl _
  · next inside =>
      have dropped := cursor.leads_drop ended
      simp only [Cursor.drop, inside] at dropped
      have suffix := skipFrom_suffix cursor.next cursor.ahead.tail
      have stillEnded := (dropped.ended ended).skipFrom cursor.next
      exact ⟨suffix.trans dropped.ahead, fun _ => stillEnded, List.prefix_refl _, rfl, rfl⟩

/-- A place to recover at yields a statement unless there was a mistake. -/
theorem meets_recovering {rule : Rule SourceStmt} {before : Cursor}
    {P : List Token → SourceStmt → Cursor → Prop} (met : Meets rule before P)
    : Meets (recovering rule) before
        (fun tokens result after => ∃ statement, result = some statement ∧ P tokens statement after) := by
  intro ended
  have result := met ended
  unfold recovering
  revert result
  cases rule before with
  | ok statement after =>
      rintro ⟨leads, taken⟩
      refine ⟨leads, fun clean => ?_⟩
      obtain ⟨tokens, split, holds⟩ := taken clean
      exact ⟨tokens, split, statement, rfl, holds⟩
  | error unwinding after =>
      rintro ⟨leads, recorded⟩
      cases unwinding with
      | mistake =>
          have skips := after.leads_skipToStatement (leads.ended ended)
          refine ⟨leads.trans skips, fun clean => ?_⟩
          exact absurd (leads.errors_split skips clean).1 (recorded rfl)
      | tooDeep =>
          let reported := after.report after.next .tooMuchNesting
          have reports : after.Leads reported := after.leads_report _ _
          have skips := reported.leads_skipToStatement (leads.ended ended)
          refine ⟨(leads.trans reports).trans skips, fun clean => ?_⟩
          have same := ((leads.trans reports).errors_split skips clean).1
          have unchanged := (leads.errors_split reports same).2
          exact absurd unchanged (after.report_errors_ne _ _)

/-- A declaration meets the grammar wherever nothing is reported. -/
theorem meets_declaration (sound : rules.Sound inner trailing) (before : Cursor)
    (context : before.commaEnabled = true)
    : Meets (declaration allowExpression rules) before
        (fun tokens result after =>
          ∃ statement,
            result = some statement
            ∧ ((∃ ending,
                  Declaration inner before.inLoop ending tokens statement
                  ∧ (ending = .openLiteral → Policy.greedy (some after.next.kind)))
                ∨ EndsText (TrailingStatement allowExpression inner trailing) before.inLoop tokens
                    statement after)) := by
  have inside {kind : TokenKind} (found : before.next.kind = kind) (proper : kind ≠ .endOfInput)
      : before.next.kind ≠ .endOfInput :=
    found ▸ proper
  refine meets_recovering (.next ?_)
  split
  · next kind =>
      refine (meets_drop before (inside kind (by decide))).bind fun _ second _ => ?_
      refine (meets_classDeclaration sound before.inLoop second).weaken ?_
      rintro tokens statement after taken _ - rfl
      exact .inl ⟨.closed, taken _ kind, fun open_ => absurd open_ (by decide)⟩
  · next kind =>
      refine (meets_drop before (inside kind (by decide))).bind fun _ second _ => ?_
      refine (meets_functionDeclaration sound before.inLoop second).weaken ?_
      rintro tokens statement after taken _ - rfl
      exact .inl ⟨.closed, taken _ kind, fun open_ => absurd open_ (by decide)⟩
  · next kind =>
      refine (meets_drop before (inside kind (by decide))).bind fun _ second toSecond => ?_
      have context2 := toSecond.commaEnabled.trans context
      refine (meets_variableDeclaration sound second context2).weaken ?_
      rintro tokens statement after ⟨ending, derived, open_⟩ _ - rfl
      exact .inl ⟨ending, .declaration kind derived, open_⟩
  · refine (meets_statement sound before context).weaken ?_
    rintro tokens statement after (⟨ending, derived, notLiteral, -⟩ | ends)
    · exact .inl ⟨ending, .statement derived, fun literal => absurd literal notLiteral⟩
    · exact .inr ends

end

-----
-- The unfolded grammar

/-- An expression statement has at least one token. -/
theorem ExpressionStatement.ne_nil {inner : Language} {tokens : List Token}
    {statement : SourceStmt} (derived : ExpressionStatement inner tokens statement)
    : tokens ≠ [] := by
  cases derived
  simp

/-- A declaration has at least one token. -/
theorem Declaration.ne_nil {inner : Language} {inLoop : Bool} {ending : Ending}
    {tokens : List Token} {statement : SourceStmt}
    (derived : Declaration inner inLoop ending tokens statement)
    : tokens ≠ [] := by
  cases derived with
  | statement plain =>
      cases plain with
      | expression written => exact written.ne_nil
      | block braced => cases braced; simp
      | _ => simp
  | _ => simp

/-- The rules unfolded to some depth take what the grammar unfolded to the same depth derives. -/
theorem rules_sound (allowExpression : Bool) (policy : Policy)
    (admitsGreedy : ∀ following, Policy.greedy following → policy following) (nesting : Nat)
    : (rules allowExpression nesting).Sound (language policy nesting)
        (trailing allowExpression policy nesting) := by
  induction nesting with
  | zero =>
      exact {
        admitsGreedy
        expression := fun _ => .throwTooDeep
        names := fun derived _ => derived.elim
        statement := fun _ _ => .throwTooDeep
        declaration := fun _ _ => .throwTooDeep
        declarationNonempty := fun derived => derived.elim
        trailingNonempty := trailing_ne_nil
      }
  | succ nesting ih =>
      exact {
        admitsGreedy
        expression := fun before => meets_expression ih before
        names := fun derived listed => Assignment.listedNames derived listed
        statement := fun before context => meets_statement ih before context
        declaration := fun before context => meets_declaration ih before context
        declarationNonempty := fun derived => Declaration.ne_nil derived
        trailingNonempty := trailing_ne_nil
      }

/-- A place to recover at never unwinds. -/
theorem recovering_ok (rule : Rule SourceStmt) (before : Cursor)
    : ∃ result after, recovering rule before = .ok result after := by
  unfold recovering
  split <;> exact ⟨_, _, rfl⟩

/-- Declarations that recover are always read to the stop. -/
theorem declarationsUntil_ok {declaration : Rule (Option SourceStmt)}
    (recovers : ∀ before, ∃ result after, declaration before = .ok result after)
    (stop : Cursor → Bool) (bound : List Token) (before : Cursor)
    : ∃ statements after,
        declarationsUntil stop declaration bound before = .ok statements after := by
  induction bound generalizing before with
  | nil => exact ⟨_, _, rfl⟩
  | cons _ bound ih =>
      by_cases stops : stop before
      · exact ⟨[], before, by
          change (if stop before then (pure [] : Rule (List SourceStmt)) else _) before = _
          rw [if_pos stops]
          rfl⟩
      · obtain ⟨first, second, firstRun⟩ := recovers before
        obtain ⟨rest, third, restRun⟩ := ih second
        refine ⟨first.toList ++ rest, third, ?_⟩
        change (if stop before then (pure [] : Rule (List SourceStmt)) else _) before = _
        rw [if_neg stops]
        change EStateM.bind _ _ _ = _
        unfold EStateM.bind
        rw [firstRun]
        change EStateM.bind _ _ _ = _
        unfold EStateM.bind
        rw [restRun]
        rfl

/-- Reading a whole text never unwinds. -/
theorem program_ok (allowExpression : Bool) (depth : Nat) (before : Cursor)
    : ∃ statements after, program allowExpression depth before = .ok statements after :=
  declarationsUntil_ok (fun before => recovering_ok _ before) Cursor.atEnd before.ahead before

/-- What the parser yields is what its program rule yields, with the errors in order. -/
theorem parse_of_run {allowExpression : Bool} {depth : Nat} {tokens : List Token}
    {statements : List SourceStmt} {after : Cursor}
    (run : program allowExpression depth (Cursor.start tokens) = .ok statements after)
    : parse allowExpression tokens depth = { statements, errors := after.errors } := by
  unfold parse
  rw [run]

/-- A text that is read without a mistake derives its statements, with nothing left over, or it
trails. -/
theorem derives_or_trails {policy : Policy} {depth : Nat} (allowExpression : Bool)
    (admitsGreedy : ∀ following, Policy.greedy following → policy following)
    {body : List Token} {last : Token} (lastKind : last.kind = .endOfInput)
    (bodyKinds : ∀ token ∈ body, token.kind ≠ .endOfInput)
    (clean : (parse allowExpression (body ++ [last]) depth).errors = [])
    : Derives policy depth body (parse allowExpression (body ++ [last]) depth).statements
      ∨ ∃ written,
          TrailingDerives allowExpression policy depth body
            (parse allowExpression (body ++ [last]) depth).statements written := by
  let start := Cursor.start (body ++ [last])
  have ended : Ended start.ahead := ⟨body, last, rfl, lastKind, bodyKinds⟩
  have sound := rules_sound allowExpression policy admitsGreedy (depth + 1)
  have met
      : Meets (program allowExpression depth) start
          (fun tokens statements after =>
            after.atEnd = true
            ∧ (Derives policy depth tokens statements
              ∨ ∃ written,
                  TrailingDerives allowExpression policy depth tokens statements
                    written)) := by
    refine .get ((meets_declarationsUntil sound Cursor.atEnd (fun _ atEnd => atEnd) start.ahead
      start rfl).weaken ?_)
    intro tokens statements after taken
    obtain ⟨-, taken⟩ := taken (Nat.le_refl _)
    rw [language_policy] at taken
    rcases taken with ⟨derived, atEnd⟩ | ⟨atEnd, trails⟩
    · exact ⟨atEnd, .inl derived⟩
    · exact ⟨atEnd, .inr trails⟩
  have met := met ended
  obtain ⟨statements, after, run⟩ := program_ok allowExpression depth start
  have parsed := parse_of_run run
  rw [run] at met
  rw [parsed] at clean ⊢
  obtain ⟨leads, taken⟩ := met
  obtain ⟨tokens, split, atEnd, derived⟩ := taken clean
  have single := after.ahead_atEnd (leads.ended ended) atEnd
  have same : body ++ [last] = tokens ++ [after.next] := single ▸ split
  have sameBody : body = tokens := (List.append_inj' same rfl).1
  exact sameBody ▸ derived

/-- Where every semicolon is called for nothing trails. -/
theorem derives_of_parse {policy : Policy} {depth : Nat}
    (admitsGreedy : ∀ following, Policy.greedy following → policy following)
    {body : List Token} {last : Token} (lastKind : last.kind = .endOfInput)
    (bodyKinds : ∀ token ∈ body, token.kind ≠ .endOfInput)
    (clean : (parse false (body ++ [last]) depth).errors = [])
    : Derives policy depth body (parse false (body ++ [last]) depth).statements :=
  (derives_or_trails false admitsGreedy lastKind bodyKinds clean).resolve_right
    fun ⟨_, trails⟩ => trails.not_false

end Lox.Grammar
