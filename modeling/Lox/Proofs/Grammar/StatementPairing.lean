import Lox.Proofs.Grammar.ExpressionPairing
import Lox.Proofs.Grammar.StatementCompleteness

/-! The rules for statements and declarations run alike if cursors stay alike past semicolons too.

Recovery skips tokens that no rule has looked at, so the two runs must have all the tokens ahead in
common. Everything nested needs to run alike only behind the token that it is nested in.
-/

namespace Lox.Grammar

namespace Pairing

section

variable {pairing : Pairing} {limit : Nat} {rules rules' : Rules} {before before' : Cursor}

-----
-- Heads of functions and classes

/-- Further parameters are alike on both sides, by induction on the tokens that bound the loop. -/
theorem alike_parametersFrom (earlier : Nat) (bound bound' : List Token)
    (enough : before.ahead.length ≤ bound.length)
    (enough' : before'.ahead.length ≤ bound'.length)
    : pairing.Alike (parametersFrom earlier bound) (parametersFrom earlier bound') before before'
        fun _ _ _ => True := by
  induction bound generalizing earlier bound' before before' with
  | nil => exact .no_rounds enough
  | cons _ bound ih =>
      cases bound' with
      | nil => exact .no_rounds' enough'
      | cons _ bound' =>
          simp only [List.length_cons] at enough enough'
          refine (alike_checkRoom earlier .tooManyParameters nofun).bind fun _ step _ => ?_
          obtain ⟨shorter, shorter'⟩ := step.shorter
          refine (alike_expect .identifier .parameterName (crosses (by decide))).bind
            fun name behind named => ?_
          obtain ⟨rfl, -⟩ := named
          obtain ⟨fewer, fewer'⟩ := behind.strictly (List.cons_ne_nil _ _)
          refine (alike_accept .comma (crosses (by decide))).bind fun more beyond _ => ?_
          obtain ⟨shorter, shorter'⟩ := beyond.shorter
          cases more with
          | false => exact .pure_of trivial
          | true =>
              exact (ih (earlier + 1) bound' (by omega) (by omega)).bind fun _ _ _ =>
                .pure_of trivial

/-- A parameter list is alike on both sides. -/
theorem alike_parameters
    : pairing.Alike parameters parameters before before' fun _ _ _ => True := by
  refine .nextIs fun closes _ => ?_
  cases closes with
  | true => exact .pure_of trivial
  | false => exact .get (alike_parametersFrom 0 _ _ (Nat.le_refl _) (Nat.le_refl _))

/-- A function with a name is alike on both sides, if its body is. -/
theorem alike_namedFunction (parts : pairing.Parts limit rules rules') (role : FunctionRole)
    (within : before.ahead.length ≤ limit)
    : pairing.Alike (namedFunction rules role) (namedFunction rules' role) before before'
        fun tokens _ _ => tokens ≠ [] := by
  refine (alike_expect .identifier _ (crosses (by decide))).bind fun name toName named => ?_
  refine (alike_expect .leftParen _ (crosses (by decide))).bind fun _ toOpening _ => ?_
  refine alike_parameters.bind fun parameters toParameters _ => ?_
  refine (alike_expect .rightParen _ (crosses (by decide))).bind fun _ toClosing _ => ?_
  refine .of_related fun related => ?_
  refine (alike_expect .leftBrace _ (crosses (by decide))).bind fun brace toBrace opens => ?_
  obtain ⟨rfl, opens⟩ := opens
  obtain ⟨rfl, -⟩ := named
  obtain ⟨fewer, -⟩ := toName.strictly (List.cons_ne_nil _ _)
  obtain ⟨shorter, -⟩ := (((toOpening.append toParameters).append toClosing).append toBrace).shorter
  exact (parts.body related toBrace opens (by omega)).bind fun body _ _ => .pure_of (by simp)

/-- A superclass clause is alike on both sides, whether it is there or not. -/
theorem alike_superclassClause
    : pairing.Alike superclassClause superclassClause before before' fun _ _ _ => True := by
  refine (alike_accept .less (crosses (by decide))).bind fun inherits _ _ => ?_
  cases inherits with
  | true =>
      exact (alike_expect .identifier _ (crosses (by decide))).bind fun _ _ _ => .pure_of trivial
  | false => exact .pure_of trivial

/-- An initial value is alike on both sides, and so is whether a function literal is written there.
-/
theorem alike_initialValue (parts : pairing.Parts limit rules rules')
    (within : before.ahead.length ≤ limit)
    : pairing.Alike (initialValue rules) (initialValue rules') before before'
        fun tokens value _ =>
          isFunctionLiteral value = true → ∃ brace ∈ tokens, brace.kind = .leftBrace := by
  refine (alike_accept .equal (crosses (by decide))).bind fun assigned step _ => ?_
  obtain ⟨shorter, -⟩ := step.shorter
  cases assigned with
  | true =>
      exact (parts.expression (by omega)).map some fun tokens value _ read =>
        (read.toFinishes.behind _).braced
  | false => exact .pure_of nofun

-----
-- Full pairings

/-- Cursors that are alike have the same tokens ahead, and stay alike wherever both go on. -/
structure Full (pairing : Pairing) : Prop where
  ahead : ∀ {before before'}, pairing.related before before' → before'.ahead = before.ahead
  facing
    : ∀ {before before' tokens},
        pairing.related before before'
        → tokens <:+ before.ahead
        → Ended tokens
        → pairing.related (before.facing tokens) (before'.facing tokens)

/-- A pairing that crosses semicolons crosses every token of the text. -/
theorem Full.crosses (full : pairing.Full) {kind : TokenKind} (inside : kind ≠ .endOfInput)
    : pairing.Crosses kind := by
  refine ⟨inside, fun {before before'} related found => ?_⟩
  have leads := before.leads_drop (pairing.ended related).1
  have ended := leads.ended (pairing.ended related).1
  have open_ : before.atEnd = false := by simpa [Cursor.atEnd, found] using inside
  have open_' : before'.atEnd = false := by
    simpa [Cursor.atEnd, pairing.next related] using open_
  have moved := full.facing related leads.ahead ended
  simpa [Cursor.facing, Cursor.drop, open_, open_', full.ahead related] using moved

/-- Where skipping ends is told by the tokens ahead alone. -/
theorem skipToStatement_facing (same : before'.ahead = before.ahead)
    : before'.skipToStatement = before'.facing before.skipToStatement.ahead := by
  have next : before'.next = before.next := by rw [Cursor.next, Cursor.next, same]
  have atEnd : before'.atEnd = before.atEnd := by rw [Cursor.atEnd, Cursor.atEnd, next]
  unfold Cursor.skipToStatement
  rw [atEnd]
  split
  · rw [← same]
    rfl
  · rw [next, same]
    rfl

/-- In front of the end of input skipping takes a token at least. -/
theorem skipToStatement_shorter (ended : Ended before.ahead) (open_ : before.atEnd = false)
    : before.skipToStatement.ahead.length < before.ahead.length := by
  have inside : before.next.kind ≠ .endOfInput := by simpa [Cursor.atEnd] using open_
  have split := before.ahead_eq_next_cons ended inside
  have suffix := (skipFrom_suffix before.next before.ahead.tail).length_le
  have positive : 0 < before.ahead.length := List.length_pos_iff.2 ended.ne_nil
  simp only [Cursor.skipToStatement, open_, Bool.false_eq_true, if_false]
  rw [List.length_tail] at suffix
  omega

/-- Skipping to the next statement passes the same tokens on both sides, and at least one of them.
-/
theorem Full.skips (full : pairing.Full) (related : pairing.related before before')
    : ∃ tokens,
        pairing.Step before before' tokens before.skipToStatement before'.skipToStatement
        ∧ (before.atEnd = false → tokens ≠ []) := by
  obtain ⟨ended, -⟩ := pairing.ended related
  have leads := before.leads_skipToStatement ended
  obtain ⟨tokens, split⟩ := leads.ahead
  refine ⟨tokens, ?_, ?_⟩
  · have same : before.skipToStatement = before.facing before.skipToStatement.ahead :=
      skipToStatement_facing rfl
    have same' := skipToStatement_facing (full.ahead related)
    refine ⟨?_, ⟨split.symm, leads.errors, leads.loopDepth, leads.commaEnabled⟩, ?_⟩
    · rw [same, same']
      exact full.facing related leads.ahead (leads.ended ended)
    · rw [same']
      exact ⟨(full.ahead related).trans split.symm, List.prefix_refl _, rfl, rfl⟩
  · rintro open_ rfl
    have shorter := skipToStatement_shorter ended open_
    rw [← split] at shorter
    simp at shorter

-----
-- What statements take

/-- What a place to recover at takes: a token at least, and either a declaration or a mistake. -/
structure Declares (before : Cursor) (tokens : List Token) (result : Option SourceStmt)
    (after : Cursor)
    : Prop where
  progress : before.atEnd = false → tokens ≠ []
  starts : result.isSome = true → Starts (startsDeclaration ·) tokens
  mistaken : result = none → after.errors ≠ before.errors

/-- What statements are made of runs alike in places with fewer tokens ahead than the limit. -/
structure Whole (pairing : Pairing) (limit : Nat) (rules rules' : Rules) : Prop where
  expression
    : ∀ {before before'},
        before.ahead.length ≤ limit
        → pairing.Alike rules.expression rules'.expression before before' TakesOperand
  statement
    : ∀ {before before'},
        before.ahead.length < limit
        → pairing.Alike rules.statement rules'.statement before before'
            (fun tokens _ _ => Starts (startsPlain ·) tokens)
  declaration
    : ∀ {before before'},
        before.ahead.length < limit
        → pairing.Alike rules.declaration rules'.declaration before before' (Declares before)

-----
-- Blocks

/-- Whether the block is over depends on the next token alone. -/
theorem atBlockEnd_eq (same : before'.next = before.next)
    : before'.atBlockEnd = before.atBlockEnd := by
  simp [Cursor.atBlockEnd, Cursor.nextIsAny, Cursor.atEnd, same]

/-- Declarations one behind the other are alike, by induction on the tokens that bound the loop. -/
theorem alike_declarationsUntil (whole : pairing.Whole limit rules rules')
    {stop : Cursor → Bool}
    (agree : ∀ {before before' : Cursor}, before'.next = before.next → stop before' = stop before)
    (atEnd : ∀ before : Cursor, stop before = false → before.atEnd = false)
    (bound bound' : List Token) (within : before.ahead.length < limit)
    (enough : before.ahead.length ≤ bound.length)
    (enough' : before'.ahead.length ≤ bound'.length)
    : pairing.Alike (declarationsUntil stop rules.declaration bound)
        (declarationsUntil stop rules'.declaration bound') before before' fun _ _ _ => True := by
  induction bound generalizing bound' before before' with
  | nil => exact .no_rounds enough
  | cons _ bound ih =>
      cases bound' with
      | nil => exact .no_rounds' enough'
      | cons _ bound' =>
          simp only [List.length_cons] at enough enough'
          refine .of_related fun related => .get ?_
          rw [agree (pairing.next related)]
          cases stops : stop before with
          | true => exact .pure_of trivial
          | false =>
              refine (whole.declaration within).bind fun first step declares => ?_
              obtain ⟨fewer, fewer'⟩ := step.strictly (declares.progress (atEnd before stops))
              exact (ih bound' (by omega) (by omega) (by omega)).bind fun _ _ _ => .pure_of trivial

/-- A block is alike on both sides and ends with its brace. -/
theorem alike_block (whole : pairing.Whole limit rules rules')
    (within : before.ahead.length < limit)
    : pairing.Alike (block rules) (block rules') before before'
        fun tokens _ _ => Ends (· = .rightBrace) tokens := by
  have goesOn (before : Cursor) (open_ : before.atBlockEnd = false) : before.atEnd = false := by
    simp only [Cursor.atBlockEnd, Bool.or_eq_false_iff] at open_
    exact open_.1
  refine (alike_withComma true fun same _ => .get ((alike_declarationsUntil whole atBlockEnd_eq
    goesOn _ _ (by rw [same]; omega) (Nat.le_refl _) (Nat.le_refl _)).weaken
    fun _ _ _ _ _ => trivial)).bind fun statements _ (_ : True) => ?_
  refine (alike_expect .rightBrace .blockEnd (crosses (by decide))).bind
    fun closing _ closes => .pure_of ?_
  obtain ⟨rfl, closes⟩ := closes
  have closed : Ends (· = .rightBrace) [closing] := .singleton closes
  simpa using closed.append _

/-- Bodies of functions are made of declarations. -/
theorem Whole.parts (whole : pairing.Whole limit rules rules')
    : pairing.Parts limit rules rules' where
  expression := whole.expression
  body := fun _ _ _ within =>
    alike_outsideLoops fun same _ => (alike_block whole (by rw [same]; omega)).weaken
      fun _ _ _ closes _ => closes

-----
-- Declarations

/-- Methods in a row are alike on both sides, by induction on the tokens that bound the loop. -/
theorem alike_methodsFrom (parts : pairing.Parts limit rules rules') (bound bound' : List Token)
    (within : before.ahead.length ≤ limit) (enough : before.ahead.length ≤ bound.length)
    (enough' : before'.ahead.length ≤ bound'.length)
    : pairing.Alike (methodsFrom rules bound) (methodsFrom rules' bound') before before'
        fun _ _ _ => True := by
  induction bound generalizing bound' before before' with
  | nil => exact .no_rounds enough
  | cons _ bound ih =>
      cases bound' with
      | nil => exact .no_rounds' enough'
      | cons _ bound' =>
          simp only [List.length_cons] at enough enough'
          refine .of_related fun related => .get ?_
          rw [atBlockEnd_eq (pairing.next related)]
          split
          · exact .pure_of trivial
          · refine (alike_namedFunction parts .method within).bind
              fun ⟨name, function⟩ step some => ?_
            obtain ⟨fewer, fewer'⟩ := step.strictly some
            exact (ih bound' (by omega) (by omega) (by omega)).bind fun _ _ _ => .pure_of trivial

/-- A class declaration is alike on both sides. -/
theorem alike_classDeclaration (parts : pairing.Parts limit rules rules')
    (within : before.ahead.length ≤ limit)
    : pairing.Alike (classDeclaration rules) (classDeclaration rules') before before'
        fun _ _ _ => True := by
  refine (alike_expect .identifier _ (crosses (by decide))).bind fun name toName _ => ?_
  refine alike_superclassClause.bind fun superclass toClause _ => ?_
  refine (alike_expect .leftBrace _ (crosses (by decide))).bind fun _ toBrace _ => .get ?_
  obtain ⟨shorter, -⟩ := ((toName.append toClause).append toBrace).shorter
  refine (alike_methodsFrom parts _ _ (by omega) (Nat.le_refl _) (Nat.le_refl _)).bind
    fun methods _ _ => ?_
  exact (alike_expect .rightBrace _ (crosses (by decide))).bind fun _ _ _ => .pure_of trivial

/-- A function declaration is alike on both sides. -/
theorem alike_functionDeclaration (parts : pairing.Parts limit rules rules')
    (within : before.ahead.length ≤ limit)
    : pairing.Alike (functionDeclaration rules) (functionDeclaration rules') before before'
        fun _ _ _ => True :=
  (alike_namedFunction parts .function within).bind fun _ _ _ => .pure_of trivial

/-- The end of a variable declaration is alike on both sides, with its semicolon or without. -/
theorem alike_variableEnd (full : pairing.Full) (initial : Option SourceExpr)
    : pairing.Alike (variableEnd initial) (variableEnd initial) before before'
        fun _ _ _ => True := by
  unfold variableEnd
  split
  · exact (alike_accept .semicolon (full.crosses (by decide))).bind fun _ _ _ => .pure_of trivial
  · exact (alike_expect .semicolon _ (full.crosses (by decide))).bind fun _ _ _ => .pure_of trivial

/-- A variable declaration is alike on both sides. -/
theorem alike_variableDeclaration (full : pairing.Full) (parts : pairing.Parts limit rules rules')
    (within : before.ahead.length ≤ limit)
    : pairing.Alike (variableDeclaration rules) (variableDeclaration rules') before before'
        fun _ _ _ => True := by
  refine (alike_expect .identifier _ (crosses (by decide))).bind fun name step _ => ?_
  obtain ⟨shorter, -⟩ := step.shorter
  refine (alike_initialValue parts (by omega)).bind fun initial _ _ => ?_
  exact (alike_variableEnd full initial).bind fun _ _ _ => .pure_of trivial

-----
-- Simple statements

/-- An expression statement is alike on both sides, which ends in a semicolon or with the text. -/
theorem alike_expressionStatement (full : pairing.Full)
    (whole : pairing.Whole limit rules rules') (allowExpression : Bool)
    (within : before.ahead.length ≤ limit)
    : pairing.Alike (expressionStatement allowExpression rules)
        (expressionStatement allowExpression rules') before before'
        fun tokens _ _ => Starts (startsExpression ·) tokens := by
  refine (whole.expression within).bind fun value step read => ?_
  refine .get ?_
  rw [Cursor.atEnd, Cursor.atEnd, pairing.next step.related]
  split
  · exact .pure_of (by simpa using read.starts)
  · exact (alike_expect .semicolon _ (full.crosses (by decide))).bind fun _ _ _ =>
      .pure_of (read.starts.append _)

/-- The part of a `for` in front of its stop is alike on both sides, whether it is there or not. -/
theorem alike_expressionBefore (parts : pairing.Parts limit rules rules') (stop : TokenKind)
    (within : before.ahead.length ≤ limit)
    : pairing.Alike (expressionBefore stop rules) (expressionBefore stop rules') before before'
        fun _ _ _ => True := by
  refine .nextIs fun found _ => ?_
  cases found with
  | true => exact .pure_of trivial
  | false => exact (parts.expression within).map some fun _ _ _ _ => trivial

/-- A `print` statement is alike on both sides. -/
theorem alike_printStatement (full : pairing.Full) (whole : pairing.Whole limit rules rules')
    (within : before.ahead.length ≤ limit)
    : pairing.Alike (printStatement rules) (printStatement rules') before before'
        fun _ _ _ => True := by
  refine (whole.expression within).bind fun value _ _ => ?_
  exact (alike_expect .semicolon _ (full.crosses (by decide))).bind fun _ _ _ => .pure_of trivial

/-- A `println` statement is alike on both sides, with its value or without. -/
theorem alike_printLineStatement (full : pairing.Full) (whole : pairing.Whole limit rules rules')
    (within : before.ahead.length ≤ limit)
    : pairing.Alike (printLineStatement rules) (printLineStatement rules') before before'
        fun _ _ _ => True := by
  refine (alike_accept .semicolon (full.crosses (by decide))).bind fun empty step _ => ?_
  obtain ⟨shorter, -⟩ := step.shorter
  cases empty with
  | true => exact .pure_of trivial
  | false =>
      refine (whole.expression (by omega)).bind fun value _ _ => ?_
      exact (alike_expect .semicolon _ (full.crosses (by decide))).bind fun _ _ _ =>
        .pure_of trivial

/-- A `return` is alike on both sides, with its value or without. -/
theorem alike_returnStatement (full : pairing.Full) (whole : pairing.Whole limit rules rules')
    (keyword : Token) (within : before.ahead.length ≤ limit)
    : pairing.Alike (returnStatement rules keyword) (returnStatement rules' keyword) before before'
        fun _ _ _ => True := by
  refine (alike_expressionBefore whole.parts .semicolon within).bind fun value _ _ => ?_
  exact (alike_expect .semicolon _ (full.crosses (by decide))).bind fun _ _ _ => .pure_of trivial

/-- A `break` is alike on both sides, inside of a loop and outside. -/
theorem alike_breakStatement (full : pairing.Full) (keyword : Token)
    : pairing.Alike (breakStatement keyword) (breakStatement keyword) before before'
        fun _ _ _ => True := by
  have ends {before before' : Cursor}
      : pairing.Alike (do let _ ← expect .semicolon .breakEnd; return .breakLoop keyword)
          (do let _ ← expect .semicolon .breakEnd; return .breakLoop keyword) before before'
          fun _ (_ : SourceStmt) _ => True :=
    (alike_expect .semicolon _ (full.crosses (by decide))).bind fun _ _ _ => .pure_of trivial
  refine .of_related fun related => .get ?_
  rw [pairing.loopDepth related]
  split
  · exact (alike_report keyword .breakOutsideLoop nofun).bind fun _ _ _ => ends
  · exact ends

-----
-- Branches and loops

/-- The body of a loop is nested behind the tokens that introduce it. -/
theorem alike_loopBody (whole : pairing.Whole limit rules rules')
    (within : before.ahead.length < limit)
    : pairing.Alike (insideLoop rules.statement) (insideLoop rules'.statement) before before'
        fun _ _ _ => True :=
  alike_insideLoop fun same _ => (whole.statement (by rw [same]; omega)).weaken
    fun _ _ _ _ _ => trivial

variable {allowExpression allowExpression' : Bool}

/-- How expressions that stand as statements end may differ in the two runs. -/
theorem alike_forInitial (full : pairing.Full) (whole : pairing.Whole limit rules rules')
    (written
      : ∀ {before before'},
          before.ahead.length ≤ limit
          → pairing.Alike (expressionStatement allowExpression rules)
              (expressionStatement allowExpression' rules') before before'
              (fun tokens _ _ => Starts (startsExpression ·) tokens))
    (within : before.ahead.length ≤ limit)
    : pairing.Alike (forInitial allowExpression rules) (forInitial allowExpression' rules')
        before before' fun _ _ _ => True := by
  refine (alike_accept .semicolon (full.crosses (by decide))).bind fun empty step _ => ?_
  obtain ⟨shorter, -⟩ := step.shorter
  cases empty with
  | true => exact .pure_of trivial
  | false =>
      refine (alike_accept .varWord (crosses (by decide))).bind fun declares behind _ => ?_
      obtain ⟨shorter, -⟩ := behind.shorter
      cases declares with
      | true =>
          exact (alike_variableDeclaration full whole.parts (by omega)).map some
            fun _ _ _ _ => trivial
      | false => exact (written (by omega)).map some fun _ _ _ _ => trivial

/-- A `for` loop is alike on both sides, clause by clause. -/
theorem alike_forStatement (full : pairing.Full) (whole : pairing.Whole limit rules rules')
    (written
      : ∀ {before before'},
          before.ahead.length ≤ limit
          → pairing.Alike (expressionStatement allowExpression rules)
              (expressionStatement allowExpression' rules') before before'
              (fun tokens _ _ => Starts (startsExpression ·) tokens))
    (within : before.ahead.length ≤ limit)
    : pairing.Alike (forStatement allowExpression rules) (forStatement allowExpression' rules')
        before before' fun _ _ _ => True := by
  refine (alike_expect .leftParen _ (crosses (by decide))).bind fun _ toOpening opens => ?_
  obtain ⟨rfl, -⟩ := opens
  obtain ⟨fewer, -⟩ := toOpening.strictly (List.cons_ne_nil _ _)
  refine (alike_forInitial full whole written (by omega)).bind fun initial toInitial _ => ?_
  obtain ⟨shorter, -⟩ := toInitial.shorter
  refine (alike_expressionBefore whole.parts .semicolon (by omega)).bind
    fun condition toCondition _ => ?_
  refine (alike_expect .semicolon _ (full.crosses (by decide))).bind fun _ toSecond _ => ?_
  obtain ⟨shorter, -⟩ := (toCondition.append toSecond).shorter
  refine (alike_expressionBefore whole.parts .rightParen (by omega)).bind
    fun increment toIncrement _ => ?_
  refine (alike_expect .rightParen _ (crosses (by decide))).bind fun _ toClosing _ => ?_
  obtain ⟨shorter, -⟩ := (toIncrement.append toClosing).shorter
  exact (alike_loopBody whole (by omega)).bind fun body _ _ => .pure_of trivial

/-- A branch behind `else` is alike on both sides, whether it is there or not. -/
theorem alike_elseBranch (whole : pairing.Whole limit rules rules')
    (within : before.ahead.length < limit)
    : pairing.Alike (elseBranch rules) (elseBranch rules') before before' fun _ _ _ => True := by
  refine (alike_accept .elseWord (crosses (by decide))).bind fun otherwise step _ => ?_
  obtain ⟨shorter, -⟩ := step.shorter
  cases otherwise with
  | true => exact (whole.statement (by omega)).map some fun _ _ _ _ => trivial
  | false => exact .pure_of trivial

/-- An `if` statement is alike on both sides. -/
theorem alike_ifStatement (whole : pairing.Whole limit rules rules')
    (within : before.ahead.length ≤ limit)
    : pairing.Alike (ifStatement rules) (ifStatement rules') before before' fun _ _ _ => True := by
  refine (alike_expect .leftParen _ (crosses (by decide))).bind fun _ toOpening opens => ?_
  obtain ⟨rfl, -⟩ := opens
  obtain ⟨fewer, -⟩ := toOpening.strictly (List.cons_ne_nil _ _)
  refine (whole.expression (by omega)).bind fun condition toCondition _ => ?_
  refine (alike_expect .rightParen _ (crosses (by decide))).bind fun _ toClosing _ => ?_
  obtain ⟨shorter, -⟩ := (toCondition.append toClosing).shorter
  refine (whole.statement (by omega)).bind fun thenBranch toThen _ => ?_
  obtain ⟨shorter, -⟩ := toThen.shorter
  exact (alike_elseBranch whole (by omega)).bind fun elseBranch _ _ => .pure_of trivial

/-- A `while` loop is alike on both sides. -/
theorem alike_whileStatement (whole : pairing.Whole limit rules rules')
    (within : before.ahead.length ≤ limit)
    : pairing.Alike (whileStatement rules) (whileStatement rules') before before'
        fun _ _ _ => True := by
  refine (alike_expect .leftParen _ (crosses (by decide))).bind fun _ toOpening opens => ?_
  obtain ⟨rfl, -⟩ := opens
  obtain ⟨fewer, -⟩ := toOpening.strictly (List.cons_ne_nil _ _)
  refine (whole.expression (by omega)).bind fun condition toCondition _ => ?_
  refine (alike_expect .rightParen _ (crosses (by decide))).bind fun _ toClosing _ => ?_
  obtain ⟨shorter, -⟩ := (toCondition.append toClosing).shorter
  exact (alike_loopBody whole (by omega)).bind fun body _ _ => .pure_of trivial

-----
-- Statements and declarations

/-- Behind the keyword that a statement or declaration starts with. -/
theorem alike_behindKeyword {rule rule' : Rule SourceStmt} {starts : TokenKind → Prop}
    {kind : TokenKind} (found : before.next.kind = kind)
    (inside : kind ≠ .endOfInput ∧ kind ≠ .semicolon) (started : starts kind)
    (alike
      : ∀ {between between'},
          between.ahead.length < before.ahead.length
          → pairing.Alike rule rule' between between' fun _ _ _ => True)
    : pairing.Alike (do modify Cursor.drop; rule) (do modify Cursor.drop; rule') before before'
        fun tokens _ _ => Starts starts tokens := by
  refine (alike_drop (found ▸ crosses inside)).bind fun _ step taken => ?_
  subst taken
  obtain ⟨fewer, -⟩ := step.strictly (List.cons_ne_nil _ _)
  exact (alike fewer).weaken fun tokens _ _ _ => ⟨before.next, tokens, rfl, found ▸ started⟩

/-- A statement is alike on both sides, by cases on its first token. -/
theorem alike_statement (full : pairing.Full) (whole : pairing.Whole limit rules rules')
    (written
      : ∀ {before before'},
          before.ahead.length ≤ limit
          → pairing.Alike (expressionStatement allowExpression rules)
              (expressionStatement allowExpression' rules') before before'
              (fun tokens _ _ => Starts (startsExpression ·) tokens))
    (within : before.ahead.length ≤ limit)
    : pairing.Alike (statement allowExpression rules) (statement allowExpression' rules')
        before before' fun tokens _ _ => Starts (startsPlain ·) tokens := by
  have keyword {rule rule' : Rule SourceStmt} {kind : TokenKind} (found : before.next.kind = kind)
      (inside : kind ≠ .endOfInput ∧ kind ≠ .semicolon) (started : startsPlain kind = true)
      (alike
        : ∀ {between between'},
            between.ahead.length < before.ahead.length
            → pairing.Alike rule rule' between between' fun _ _ _ => True)
      : pairing.Alike (do modify Cursor.drop; rule) (do modify Cursor.drop; rule') before before'
          fun tokens _ _ => Starts (startsPlain ·) tokens :=
    alike_behindKeyword found inside started alike
  refine .next ?_
  generalize kind : before.next.kind = found
  cases found with
  | forWord =>
      exact keyword kind (by decide) rfl fun _ => alike_forStatement full whole written (by omega)
  | ifWord => exact keyword kind (by decide) rfl fun _ => alike_ifStatement whole (by omega)
  | printWord =>
      exact keyword kind (by decide) rfl fun _ => alike_printStatement full whole (by omega)
  | printlnWord =>
      exact keyword kind (by decide) rfl fun _ => alike_printLineStatement full whole (by omega)
  | returnWord =>
      exact keyword kind (by decide) rfl fun _ => alike_returnStatement full whole _ (by omega)
  | whileWord => exact keyword kind (by decide) rfl fun _ => alike_whileStatement whole (by omega)
  | breakWord => exact keyword kind (by decide) rfl fun _ => alike_breakStatement full _
  | leftBrace =>
      exact keyword kind (by decide) rfl fun _ =>
        (alike_block whole (by omega)).map _ fun _ _ _ _ => trivial
  | _ =>
      exact (written within).weaken fun _ _ _ starts =>
        starts.imp fun _ => startsPlain_of_expression

/-- A place to recover at: whatever the reason for unwinding, something is recorded. -/
theorem alike_recovering (full : pairing.Full) {rule rule' : Rule SourceStmt}
    (alike
      : pairing.Alike rule rule' before before'
          fun tokens _ _ => Starts (startsDeclaration ·) tokens)
    : pairing.Alike (recovering rule) (recovering rule') before before' (Declares before) := by
  intro related
  have result := alike related
  unfold recovering
  revert result
  -- The tokens that the rule took and those that are skipped behind it make up one stretch.
  have skipped {front : List Token} {after after' : Cursor}
      (step : pairing.Step before before' front after after')
      (recorded : after.errors ≠ before.errors)
      : pairing.Outcome before before' (Declares before) (.ok none after.skipToStatement)
          (.ok none after'.skipToStatement) := by
    obtain ⟨tokens, skips, some⟩ := full.skips step.related
    refine .ok (step.append skips)
      ⟨fun open_ empty => ?_, fun read => (Bool.false_ne_true read).elim, fun _ => ?_⟩
    · obtain ⟨rfl, rfl⟩ := List.append_eq_nil_iff.1 empty
      have same : before.next = after.next := Cursor.next_eq_of_ahead step.passes.ahead
      rw [Cursor.atEnd, same] at open_
      exact some open_ rfl
    · refine fun same => recorded ?_
      have later : after.errors <+: before.errors := same ▸ skips.passes.errors
      exact (later.eq_of_length_le step.passes.errors.length_le)
  cases rule before <;> cases rule' before' <;> rintro (⟨step, holds⟩ | ⟨step, unwinds, recorded⟩)
  · exact .ok step
      ⟨fun _ => holds.ne_nil, fun _ => holds, fun unread => (Option.some_ne_none _ unread).elim⟩
  · next unwinding after after' _ =>
      cases unwinding with
      | mistake => exact skipped step (recorded rfl)
      | tooDeep =>
          have reports
              : pairing.Step after after' [] (after.report after.next .tooMuchNesting)
                  (after'.report after.next .tooMuchNesting) :=
            ⟨pairing.reported _ _ (fun _ => unwinds) step.related, .report _ _ _, .report _ _ _⟩
          have same := pairing.next step.related
          simp only [same]
          refine skipped (step.append reports) ?_
          exact step.passes.errors_ne reports.passes (after.report_errors_ne _ _)

/-- A declaration is alike on both sides, also where it unwinds and skips to the next one. -/
theorem alike_declaration (full : pairing.Full) (whole : pairing.Whole limit rules rules')
    (written
      : ∀ {before before'},
          before.ahead.length ≤ limit
          → pairing.Alike (expressionStatement allowExpression rules)
              (expressionStatement allowExpression' rules') before before'
              (fun tokens _ _ => Starts (startsExpression ·) tokens))
    (within : before.ahead.length ≤ limit)
    : pairing.Alike (declaration allowExpression rules) (declaration allowExpression' rules')
        before before' (Declares before) := by
  refine alike_recovering full (.next ?_)
  have keyword {rule rule' : Rule SourceStmt} {kind : TokenKind} (found : before.next.kind = kind)
      (inside : kind ≠ .endOfInput ∧ kind ≠ .semicolon) (started : startsDeclaration kind = true)
      (alike
        : ∀ {between between'},
            between.ahead.length < before.ahead.length
            → pairing.Alike rule rule' between between' fun _ _ _ => True)
      : pairing.Alike (do modify Cursor.drop; rule) (do modify Cursor.drop; rule') before before'
          fun tokens _ _ => Starts (startsDeclaration ·) tokens :=
    alike_behindKeyword found inside started alike
  generalize kind : before.next.kind = found
  cases found with
  | classWord =>
      exact keyword kind (by decide) rfl fun _ => alike_classDeclaration whole.parts (by omega)
  | funWord =>
      exact keyword kind (by decide) rfl fun _ => alike_functionDeclaration whole.parts (by omega)
  | varWord =>
      exact keyword kind (by decide) rfl fun _ =>
        alike_variableDeclaration full whole.parts (by omega)
  | _ =>
      refine (alike_statement full whole written within).weaken fun _ _ _ starts =>
        starts.imp fun kind plain => ?_
      simp only [startsPlain, Bool.and_eq_true] at plain
      exact plain.1

-----
-- The unfolded grammar

/-- Where no token may be ahead there is no place to compare. -/
theorem Whole.zero : pairing.Whole 0 rules rules' where
  expression := fun within => .no_rounds within
  statement := fun within => absurd within (Nat.not_lt_zero _)
  declaration := fun within => absurd within (Nat.not_lt_zero _)

/-- Rules without any nesting left are alike, since both unwind at once. -/
theorem Whole.exhausted (deep : pairing.unwinds .tooDeep)
    : pairing.Whole limit .exhausted .exhausted where
  expression := fun _ => .throw_ deep nofun
  statement := fun _ => .throw_ deep nofun
  declaration := fun _ => .throw_ deep nofun

/-- One level of nesting more reaches places with one token more ahead. -/
theorem Whole.succ {nesting nesting' : Nat} (full : pairing.Full)
    (written
      : ∀ {limit rules rules' before before'},
          pairing.Whole limit rules rules'
          → before.ahead.length ≤ limit
          → pairing.Alike (expressionStatement allowExpression rules)
              (expressionStatement allowExpression' rules') before before'
              (fun tokens _ _ => Starts (startsExpression ·) tokens))
    (whole
      : pairing.Whole limit (Grammar.rules allowExpression nesting)
          (Grammar.rules allowExpression' nesting'))
    : pairing.Whole (limit + 1) (Grammar.rules allowExpression (nesting + 1))
        (Grammar.rules allowExpression' (nesting' + 1)) where
  expression := fun within => alike_expression whole.parts within
  statement := fun within => alike_statement full whole (written whole) (Nat.le_of_lt_succ within)
  declaration := fun within =>
    alike_declaration full whole (written whole) (Nat.le_of_lt_succ within)

/-- The grammar unfolded to one depth runs alike if expressions that stand as statements do. -/
theorem Full.whole (full : pairing.Full) (deep : pairing.unwinds .tooDeep)
    (written
      : ∀ {limit rules rules' before before'},
          pairing.Whole limit rules rules'
          → before.ahead.length ≤ limit
          → pairing.Alike (expressionStatement allowExpression rules)
              (expressionStatement allowExpression' rules') before before'
              (fun tokens _ _ => Starts (startsExpression ·) tokens))
    (nesting limit : Nat)
    : pairing.Whole limit (Grammar.rules allowExpression nesting)
        (Grammar.rules allowExpression' nesting) := by
  induction nesting generalizing limit with
  | zero => exact .exhausted deep
  | succ nesting ih =>
      cases limit with
      | zero => exact .zero
      | succ limit => exact (ih limit).succ full written

/-- A depth of as many levels as there are tokens ahead makes up for any greater depth. -/
theorem Full.whole_of_le (full : pairing.Full) (allowExpression : Bool) {nesting nesting' : Nat}
    (le : nesting ≤ nesting')
    : pairing.Whole nesting (Grammar.rules allowExpression nesting)
        (Grammar.rules allowExpression nesting') := by
  induction nesting generalizing nesting' with
  | zero => exact .zero
  | succ nesting ih =>
      cases nesting' with
      | zero => exact absurd le (Nat.not_succ_le_zero _)
      | succ nesting' =>
          exact (ih (Nat.le_of_succ_le_succ le)).succ full fun whole within =>
            alike_expressionStatement full whole allowExpression within

end

end Pairing

end Lox.Grammar
