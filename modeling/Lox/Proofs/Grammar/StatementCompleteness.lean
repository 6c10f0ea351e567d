import Lox.Proofs.Grammar.ExpressionCompleteness
import Lox.Proofs.Grammar.StatementSoundness

/-! Whatever stands in the grammar as a statement or declaration is read by the rules.

An ending that is open tells which token behind the statement would still be taken. Everything
nested is read by the rules of one level less, so that the whole grammar follows by induction on
the levels it is unfolded to.
-/

namespace Lox.Grammar

section Declarations

variable {rules : Rules} {inner : Language} {tokens : List Token} {statement : SourceStmt}

-----
-- Functions and classes

/-- Listed parameters are read, by induction on them. -/
theorem Names.reads {names : List Token} (listed : Names tokens names) {earlier : Nat}
    (few : earlier + names.length ≤ maxArguments) (context : Cursor) {bound : List Token}
    (enough : tokens.length ≤ bound.length)
    : Reads (parametersFrom earlier bound) context tokens (· = .rightParen) names := by
  induction listed generalizing earlier bound with
  | last named =>
      intro first rest closes
      have noComma : first.kind ≠ .comma := closes ▸ by decide
      cases bound with
      | nil => simp at enough
      | cons _ bound =>
          refine (bind_of_ok (checkRoom_run few _)).trans ?_
          refine (bind_of_ok (expect_of_kind _ named (by decide))).trans ?_
          exact bind_of_ok (accept_of_other noComma)
  | @more name separator tokens names named separates _ ih =>
      intro first rest closes
      simp only [List.length_cons] at few
      cases bound with
      | nil => simp at enough
      | cons _ bound =>
          have room : earlier < maxArguments := by omega
          have fewer : earlier + 1 + names.length ≤ maxArguments := by omega
          have shorter := Nat.le_of_succ_le (Nat.le_of_succ_le_succ enough)
          refine (bind_of_ok (checkRoom_run room _)).trans ?_
          refine (bind_of_ok (expect_of_kind _ named (by decide))).trans ?_
          refine (bind_of_ok (accept_of_kind separates (by decide))).trans ?_
          exact bind_of_ok (ih fewer shorter first rest closes)

/-- A parameter list of the grammar is read between its parentheses. -/
theorem Parameters.reads {names : List Token} (derived : Parameters tokens names)
    (context : Cursor)
    : Reads parameters context tokens (· = .rightParen) names := by
  intro first rest closes
  cases derived with
  | none =>
      refine (bind_of_ok (nextIs_run .rightParen (by decide))).trans ?_
      rw [closes]
      rfl
  | some listed few =>
      have enough : tokens.length ≤ (tokens ++ first :: rest).length := by simp
      have read := listed.reads (by rwa [Nat.zero_add]) context enough first rest closes
      obtain ⟨token, others, rfl, named⟩ : Starts (· = .identifier) tokens := by
        cases listed with
        | last named | more named => exact ⟨_, _, rfl, named⟩
      refine (bind_of_ok (nextIs_run .rightParen (by decide))).trans ?_
      rw [named]
      exact read

/-- A function of the grammar is read with its name. -/
theorem NamedFunction.reads (complete : rules.Complete inner) {name : Token}
    {function : Lambda Unit} (derived : NamedFunction inner tokens name function)
    (role : FunctionRole) (context : Cursor)
    : Reads (namedFunction rules role) context tokens (fun _ => True) (name, function) := by
  intro first rest _
  obtain ⟨named, opens, listed, closes, block⟩ := derived
  obtain ⟨brace, body, rfl, braces, reads⟩ := block.functionBody_reads complete context
  simp only [List.append_assoc, List.cons_append]
  refine (bind_of_ok (expect_of_kind _ named (by decide))).trans ?_
  refine (bind_of_ok (expect_of_kind _ opens (by decide))).trans ?_
  refine (bind_of_ok (listed.reads context _ _ closes)).trans ?_
  refine (bind_of_ok (expect_of_kind _ closes (by decide))).trans ?_
  refine (bind_of_ok (expect_of_kind _ braces (by decide))).trans ?_
  exact bind_of_ok (reads first rest trivial)

/-- Without a name in front of them no methods are read. -/
theorem methodsFrom_stops {before : Cursor} (bound : List Token)
    (stops : before.atBlockEnd = true)
    : methodsFrom rules bound before = .ok [] before := by
  cases bound with
  | nil => rfl
  | cons _ bound =>
      refine (get_bind _).trans ?_
      rw [if_pos stops]
      rfl

/-- Behind a method that was read the others follow. -/
theorem methodsFrom_goesOn {before between after : Cursor} {token name : Token}
    {bound : List Token} {function : Lambda Unit} {methods : List (Method Unit)}
    (goesOn : before.atBlockEnd = false)
    (head : namedFunction rules .method before = .ok (name, function) between)
    (tail : methodsFrom rules bound between = .ok methods after)
    : methodsFrom rules (token :: bound) before = .ok (.mk name function :: methods) after := by
  refine (get_bind _).trans ?_
  rw [goesOn, if_neg Bool.false_ne_true]
  exact (bind_of_ok head).trans (bind_of_ok tail)

/-- A function starts with its name. -/
theorem NamedFunction.starts {name : Token} {function : Lambda Unit}
    (derived : NamedFunction inner tokens name function)
    : Starts (· = .identifier) tokens := by
  cases derived with
  | mk named => exact ⟨_, _, rfl, named⟩

/-- Methods of the grammar are read, by induction on them. -/
theorem Methods.reads (complete : rules.Complete inner) {methods : List (Method Unit)}
    (derived : Methods inner tokens methods) (context : Cursor) {bound : List Token}
    (enough : tokens.length ≤ bound.length)
    : Reads (methodsFrom rules bound) context tokens (· = .rightBrace) methods := by
  induction derived generalizing bound with
  | nil => exact fun _ _ closes => methodsFrom_stops bound (atBlockEnd_rightBrace closes)
  | @cons tokens name function others methods head _ ih =>
      intro first rest closes
      have read := head.reads complete .method context
      obtain ⟨token, more, rfl, named⟩ := head.starts
      have goesOn : startsDeclaration token.kind := by rw [named]; rfl
      cases bound with
      | nil => simp at enough
      | cons _ bound =>
          have shorter : others.length ≤ bound.length := by
            simp only [List.length_append, List.length_cons] at enough
            omega
          rw [List.append_assoc]
          refine methodsFrom_goesOn (atBlockEnd_of_starts goesOn) ?_ (ih shorter first rest closes)
          cases others with
          | nil => exact read first rest trivial
          | cons next others => exact read next (others ++ first :: rest) trivial

/-- A superclass clause of the grammar is read, and where there is none nothing is. -/
theorem SuperclassClause.reads {superclass : Option (Reference Unit)}
    (derived : SuperclassClause tokens superclass) (context : Cursor)
    : Reads superclassClause context tokens (· = .leftBrace) superclass := by
  intro first rest opens
  cases derived with
  | none => exact bind_of_ok (accept_of_other (opens ▸ by decide))
  | some inherits named =>
      refine (bind_of_ok (accept_of_kind inherits (by decide))).trans ?_
      exact bind_of_ok (expect_of_kind _ named (by decide))

-----
-- Variables

/-- The rest of a variable declaration is read with the ending that the grammar gives it. -/
theorem VariableRest.reads (complete : rules.Complete inner) {ending : Ending}
    (derived : VariableRest inner ending tokens statement) (context : Cursor)
    (commas : context.commaEnabled = true)
    : Reads (variableDeclaration rules) context tokens ending.Stops statement := by
  intro first rest stops
  have assigned {tokens : List Token} {value : SourceExpr} {equals next : Token}
      {others : List Token} (assigns : equals.kind = .equal)
      (initial : inner.expression true tokens value) (stops : Stops 9 true next.kind)
      : initialValue rules (context.facing (equals :: (tokens ++ next :: others)))
          = .ok (some value) (context.facing (next :: others)) :=
    (bind_of_ok (accept_of_kind assigns (by decide))).trans
      (map_of_ok (complete.expression initial context commas next others stops))
  cases derived with
  | @plain name semicolon named ends =>
      have noEqual : semicolon.kind ≠ .equal := ends ▸ by decide
      refine (bind_of_ok (expect_of_kind _ named (by decide))).trans ?_
      have read
          : initialValue rules (context.facing (semicolon :: first :: rest))
              = .ok none (context.facing (semicolon :: first :: rest)) :=
        bind_of_ok (accept_of_other noEqual)
      refine (bind_of_ok read).trans ?_
      exact bind_of_ok (bind_of_ok (expect_of_kind _ ends (by decide)))
  | @initialized name equals tokens value semicolon named assigns initial ends =>
      have stops : Stops 9 true semicolon.kind := ends ▸ by decide
      rw [List.cons_append, List.cons_append, List.append_assoc, List.singleton_append]
      refine (bind_of_ok (expect_of_kind _ named (by decide))).trans ?_
      refine (bind_of_ok (assigned assigns initial stops)).trans ?_
      have ended
          : variableEnd (some value) (context.facing (semicolon :: first :: rest))
              = .ok () (context.facing (first :: rest)) := by
        unfold variableEnd
        split
        · exact bind_of_ok (accept_of_kind ends (by decide))
        · exact bind_of_ok (expect_of_kind _ ends (by decide))
      exact bind_of_ok ended
  | literal named assigns initial =>
      obtain ⟨past, noSemicolon⟩ := stops.2 rfl
      refine (bind_of_ok (expect_of_kind _ named (by decide))).trans ?_
      refine (bind_of_ok (assigned assigns initial past)).trans ?_
      exact bind_of_ok (bind_of_ok (accept_of_other noSemicolon))

end Declarations

section Statements

variable {rules : Rules} {inner : Language} {tokens : List Token} {statement : SourceStmt}
  {inLoop : Bool}

-----
-- Parts of statements

/-- The end of a statement is reached where the expression in front of it ends. -/
theorem expression_stops {kind : TokenKind} (ends : kind = .semicolon ∨ kind = .rightParen)
    : Stops 9 true kind := by
  rcases ends with rfl | rfl <;> decide

/-- Where its end does not stand ahead the expression is read. -/
theorem expressionBefore_of_other {context : Cursor} {stop : TokenKind} {token : Token}
    {rest : List Token} (inside : stop ≠ .endOfInput) (other : token.kind ≠ stop)
    : expressionBefore stop rules (context.facing (token :: rest))
        = (some <$> rules.expression) (context.facing (token :: rest)) := by
  have goesOn : (token.kind == stop) = false := beq_eq_false_iff_ne.2 other
  refine (bind_of_ok (nextIs_run stop inside)).trans ?_
  rw [goesOn, if_neg Bool.false_ne_true]

/-- An expression that may be missing is read up to its stop. -/
theorem OptionalExpression.reads (complete : rules.Complete inner) {value : Option SourceExpr}
    (derived : OptionalExpression inner tokens value) (context : Cursor)
    (commas : context.commaEnabled = true) {stop : TokenKind}
    (ends : stop = .semicolon ∨ stop = .rightParen)
    : Reads (expressionBefore stop rules) context tokens (· = stop) value := by
  intro first rest closes
  have inside : stop ≠ .endOfInput := by rcases ends with rfl | rfl <;> decide
  cases derived with
  | none =>
      refine (bind_of_ok (nextIs_run stop inside)).trans ?_
      simp only [closes, beq_self_eq_true]
      rfl
  | some written =>
      have read := complete.expression written context commas first rest
        (closes ▸ expression_stops ends)
      obtain ⟨token, others, rfl, starts⟩ := complete.expressionStarts written
      have goesOn : token.kind ≠ stop :=
        startsExpression_ne starts (by rcases ends with rfl | rfl <;> rfl)
      exact (expressionBefore_of_other inside goesOn).trans (map_of_ok read)

/-- An expression statement of the grammar is read up to its semicolon. -/
theorem ExpressionStatement.reads (complete : rules.Complete inner) (allowExpression : Bool)
    (derived : ExpressionStatement inner tokens statement) (context : Cursor)
    (commas : context.commaEnabled = true)
    : Reads (expressionStatement allowExpression rules) context tokens (fun _ => True) statement := by
  intro first rest _
  obtain ⟨written, ends⟩ := derived
  rename_i tokens value semicolon
  have stops := expression_stops (.inl ends)
  rw [List.append_assoc, List.singleton_append]
  refine (bind_of_ok (complete.expression written context commas _ _ stops)).trans ?_
  refine (bind_of_ok (atEnd_run (ends ▸ by decide))).trans ?_
  rw [Bool.and_false, if_neg Bool.false_ne_true]
  exact bind_of_ok (expect_of_kind _ ends (by decide))

/-- An expression statement starts as an expression does. -/
theorem ExpressionStatement.starts (complete : rules.Complete inner)
    (derived : ExpressionStatement inner tokens statement)
    : Starts (startsExpression ·) tokens := by
  cases derived with
  | mk written => exact (complete.expressionStarts written).append _

/-- The first clause of a `for` is read, a declaration or an expression. -/
theorem ForInitial.reads (complete : rules.Complete inner) (allowExpression : Bool) {ending : Ending}
    {initial : Option SourceStmt} (derived : ForInitial inner ending tokens initial)
    (context : Cursor) (commas : context.commaEnabled = true)
    : Reads (forInitial allowExpression rules) context tokens ending.Stops initial := by
  intro first rest stops
  cases derived with
  | none ends => exact bind_of_ok (accept_of_kind ends (by decide))
  | @declaration keyword ending tokens declared declares initial =>
      have noSemicolon : keyword.kind ≠ .semicolon := declares ▸ by decide
      refine (bind_of_ok (accept_of_other noSemicolon)).trans ?_
      refine (bind_of_ok (accept_of_kind declares (by decide))).trans ?_
      exact map_of_ok (initial.reads complete context commas first rest stops)
  | expression written =>
      have read := written.reads complete allowExpression context commas first rest trivial
      obtain ⟨token, others, rfl, starts⟩ := written.starts complete
      refine (bind_of_ok (accept_of_other (startsExpression_ne starts rfl))).trans ?_
      refine (bind_of_ok (accept_of_other (startsExpression_ne starts rfl))).trans ?_
      exact map_of_ok read

/-- No branch is open behind the first clause of a `for`. -/
theorem ForInitial.ending {ending : Ending} {initial : Option SourceStmt}
    (derived : ForInitial inner ending tokens initial)
    : ending ≠ .openBranch := by
  cases derived with
  | none | expression => nofun
  | declaration _ rest => cases rest <;> nofun

/-- Behind the first clause of a `for` stands what ends it. -/
theorem ForInitial.stops (complete : rules.Complete inner) {ending : Ending}
    {initial : Option SourceStmt} {condition : Option SourceExpr} {others : List Token}
    {semicolon : Token} (derived : ForInitial inner ending tokens initial)
    (admitted : ending.admits inner.policy (others ++ [semicolon]))
    (tested : OptionalExpression inner others condition) (ends : semicolon.kind = .semicolon)
    : ∃ next more, others ++ [semicolon] = next :: more ∧ ending.Stops next.kind := by
  cases tested with
  | none =>
      refine ⟨semicolon, [], rfl, fun openBranch => absurd openBranch derived.ending, ?_⟩
      intro openLiteral
      exact absurd ends (complete.greedy _ (admitted openLiteral) semicolon.kind rfl).2.2
  | some written =>
      obtain ⟨token, more, rfl, starts⟩ := complete.expressionStarts written
      refine ⟨token, more ++ [semicolon], rfl, ?_⟩
      refine Ending.stops_of_starts complete ?_ admitted
      simp [startsDeclaration, starts]

-----
-- Statements

/-- No initial value is open behind a statement. -/
theorem Statement.ending (complete : rules.Complete inner) {ending : Ending}
    (derived : Statement inner inLoop ending tokens statement)
    : ending ≠ .openLiteral := by
  cases derived with
  | branchElse _ _ _ _ _ _ second => exact complete.statementEnding second
  | loop _ _ _ _ repeated => exact complete.statementEnding repeated
  | forLoop _ _ _ _ _ _ _ _ repeated => exact complete.statementEnding repeated
  | _ => nofun

/-- The kinds of token that a statement other than a declaration can start with. -/
def startsPlain (kind : TokenKind) : Bool :=
  startsDeclaration kind && !([.classWord, .funWord, .varWord].contains kind)

/-- What starts an expression starts a plain statement. -/
theorem startsPlain_of_expression {kind : TokenKind} (starts : startsExpression kind = true)
    : startsPlain kind = true := by
  revert starts
  cases kind <;> decide

/-- A statement starts with a keyword of its own or as an expression does. -/
theorem Statement.starts (complete : rules.Complete inner) {ending : Ending}
    (derived : Statement inner inLoop ending tokens statement)
    : Starts (startsPlain ·) tokens := by
  have keyword {token : Token} {others : List Token} {kind : TokenKind}
      (found : token.kind = kind) (starts : startsPlain kind = true)
      : Starts (startsPlain ·) (token :: others) :=
    ⟨token, others, rfl, found ▸ starts⟩
  cases derived with
  | expression written =>
      exact (written.starts complete).imp fun _ => startsPlain_of_expression
  | print kind | printLine kind | returnValue kind | breakLoop kind | branch kind
  | branchElse kind | loop kind | forLoop kind => exact keyword kind (by decide)
  | block braced =>
      obtain ⟨opens⟩ := braced
      exact keyword opens (by decide)

/-- What follows a condition in parentheses goes on behind them. -/
theorem parenthesized_run {α β : Type} {rule : Rule α} {next : α → Rule β} {context : Cursor}
    {opening closing : Token} {inside others : List Token} {value : α} {opens closes : Expected}
    (opened : opening.kind = .leftParen)
    (read
      : rule (context.facing (inside ++ closing :: others))
        = .ok value (context.facing (closing :: others)))
    (closed : closing.kind = .rightParen)
    : (do
          let _ ← expect .leftParen opens
          let value ← rule
          let _ ← expect .rightParen closes
          next value)
          (context.facing (opening :: (inside ++ closing :: others)))
        = next value (context.facing others) := by
  refine (bind_of_ok (expect_of_kind _ opened (by decide))).trans ?_
  exact (bind_of_ok read).trans (bind_of_ok (expect_of_kind _ closed (by decide)))

/-- The body of a loop is read inside of one more loop. -/
theorem loopBody_reads (complete : rules.Complete inner) {ending : Ending} {body : SourceStmt}
    (repeated : inner.statement true ending tokens body) (context : Cursor)
    (commas : context.commaEnabled = true)
    : Reads (insideLoop rules.statement) context tokens ending.Stops body :=
  (complete.statement repeated { context with loopDepth := context.loopDepth + 1 } commas
    (by simp)).insideLoop

/-- A `break` inside of a loop is read without a report. -/
theorem breakStatement_run {before after : Cursor} {keyword semicolon : Token}
    (inside : before.loopDepth ≠ 0)
    (read : expect .semicolon .breakEnd before = .ok semicolon after)
    : breakStatement keyword before = .ok (.breakLoop keyword) after := by
  refine (get_bind _).trans ?_
  rw [if_neg inside]
  exact bind_of_ok read

/-- What starts with none of the keywords is an expression with a semicolon. -/
theorem statement_of_startsExpression {allowExpression : Bool} {context : Cursor} {token : Token} {rest : List Token}
    (starts : startsExpression token.kind = true)
    : Grammar.statement allowExpression rules (context.facing (token :: rest))
        = expressionStatement allowExpression rules (context.facing (token :: rest)) := by
  refine (next_bind _).trans ?_
  generalize token.kind = kind at starts
  cases kind <;> first | rfl | exact absurd starts (by decide)

/-- A statement is read up to a token that could not belong to it any more. -/
theorem Statement.reads (complete : rules.Complete inner) (allowExpression : Bool) {ending : Ending}
    (derived : Statement inner inLoop ending tokens statement) (context : Cursor)
    (commas : context.commaEnabled = true) (loop : (context.loopDepth != 0) = inLoop)
    : Reads (Grammar.statement allowExpression rules) context tokens ending.Stops statement := by
  intro first rest stops
  have written {tokens : List Token} {value : SourceExpr} {next : Token} {others : List Token}
      (derived : inner.expression true tokens value)
      (ends : next.kind = .semicolon ∨ next.kind = .rightParen)
      : rules.expression (context.facing (tokens ++ next :: others))
          = .ok value (context.facing (next :: others)) :=
    complete.expression derived context commas next others (expression_stops ends)
  cases derived with
  | expression written =>
      have read := written.reads complete allowExpression context commas first rest trivial
      obtain ⟨token, others, rfl, starts⟩ := written.starts complete
      exact (statement_of_startsExpression starts).trans read
  | print kind value ends =>
      simp only [List.append_assoc, List.cons_append, List.nil_append]
      refine (next_bind _).trans ?_
      simp only [kind]
      refine (dropped_run kind (by decide)).trans ?_
      refine (bind_of_ok (written value (.inl ends))).trans ?_
      exact bind_of_ok (expect_of_kind _ ends (by decide))
  | @printLine keyword tokens value semicolon kind value ends =>
      simp only [List.append_assoc, List.cons_append, List.nil_append]
      refine (next_bind _).trans ?_
      simp only [kind]
      refine (dropped_run kind (by decide)).trans ?_
      cases value with
      | none => exact bind_of_ok (accept_of_kind ends (by decide))
      | some value =>
          have read
              : rules.expression (context.facing (tokens ++ semicolon :: first :: rest))
                  = .ok _ (context.facing (semicolon :: first :: rest)) :=
            written value (.inl ends)
          obtain ⟨token, others, rfl, starts⟩ := complete.expressionStarts value
          refine (bind_of_ok (accept_of_other (startsExpression_ne starts rfl))).trans ?_
          refine (bind_of_ok read).trans ?_
          exact bind_of_ok (expect_of_kind _ ends (by decide))
  | returnValue kind value ends =>
      simp only [List.append_assoc, List.cons_append, List.nil_append]
      refine (next_bind _).trans ?_
      simp only [kind]
      refine (dropped_run kind (by decide)).trans ?_
      refine (bind_of_ok (value.reads complete context commas (.inl rfl) _ _ ends)).trans ?_
      exact bind_of_ok (expect_of_kind _ ends (by decide))
  | breakLoop kind within ends =>
      have inside : context.loopDepth ≠ 0 := by simpa [← loop] using within
      refine (next_bind _).trans ?_
      simp only [kind]
      refine (dropped_run kind (by decide)).trans ?_
      exact breakStatement_run inside (expect_of_kind _ ends (by decide))
  | block braced =>
      obtain ⟨opening, tokens, rfl, opens, reads⟩ := braced.reads complete context loop
      refine (next_bind _).trans ?_
      simp only [opens]
      refine (dropped_run opens (by decide)).trans ?_
      exact map_of_ok (reads first rest trivial)
  | @branch _ _ _ _ _ ending _ _ kind opens tested closes thenCase =>
      have thenStops : ending.Stops first.kind :=
        ⟨fun _ => stops.1 rfl, fun literal => absurd literal (complete.statementEnding thenCase)⟩
      have read := complete.statement thenCase context commas loop first rest thenStops
      simp only [List.append_assoc, List.cons_append]
      refine (next_bind _).trans ?_
      simp only [kind]
      refine (dropped_run kind (by decide)).trans ?_
      refine (parenthesized_run opens (written tested (.inr closes)) closes).trans ?_
      refine (bind_of_ok read).trans ?_
      exact bind_of_ok (bind_of_ok (accept_of_other (stops.1 rfl)))
  | @branchElse _ _ _ _ _ _ _ elseWord _ elseTokens elseCase kind opens tested closes thenCase
      otherwise second =>
      have read := complete.statement thenCase context commas loop
      have readElse
          : elseBranch rules (context.facing (elseWord :: (elseTokens ++ first :: rest)))
              = .ok (some elseCase) (context.facing (first :: rest)) :=
        (bind_of_ok (accept_of_kind otherwise (by decide))).trans
          (map_of_ok (complete.statement second context commas loop first rest stops))
      simp only [List.append_assoc, List.cons_append]
      refine (next_bind _).trans ?_
      simp only [kind]
      refine (dropped_run kind (by decide)).trans ?_
      refine (parenthesized_run opens (written tested (.inr closes)) closes).trans ?_
      refine (bind_of_ok (read _ _ (Ending.closed_stops _))).trans ?_
      exact bind_of_ok readElse
  | loop kind opens tested closes repeated =>
      simp only [List.append_assoc, List.cons_append]
      refine (next_bind _).trans ?_
      simp only [kind]
      refine (dropped_run kind (by decide)).trans ?_
      refine (parenthesized_run opens (written tested (.inr closes)) closes).trans ?_
      exact bind_of_ok (loopBody_reads complete repeated context commas first rest stops)
  | @forLoop _ _ _ initialTokens _ _ _ semicolon incrementTokens _ closing _ others _ kind opens
      initial admitted tested ends stepped closes repeated =>
      obtain ⟨next, more, split, nextStops⟩ := initial.stops complete admitted tested ends
      let behind := incrementTokens ++ closing :: (others ++ first :: rest)
      have readInitial := initial.reads complete allowExpression context commas next (more ++ behind) nextStops
      rw [← List.cons_append, ← split, List.append_assoc, List.singleton_append] at readInitial
      have readCondition := tested.reads complete context commas (.inl rfl) semicolon behind ends
      have readIncrement := stepped.reads complete context commas (.inr rfl) closing
        (others ++ first :: rest) closes
      simp only [List.append_assoc, List.cons_append]
      refine (next_bind _).trans ?_
      simp only [kind]
      refine (dropped_run kind (by decide)).trans ?_
      refine (bind_of_ok (expect_of_kind _ opens (by decide))).trans ?_
      refine (bind_of_ok readInitial).trans ?_
      refine (bind_of_ok readCondition).trans ?_
      refine (bind_of_ok (expect_of_kind _ ends (by decide))).trans ?_
      refine (bind_of_ok readIncrement).trans ?_
      refine (bind_of_ok (expect_of_kind _ closes (by decide))).trans ?_
      exact bind_of_ok (loopBody_reads complete repeated context commas first rest stops)

-----
-- Declarations

/-- Where nothing unwinds there is nothing to recover from. -/
theorem recovering_run {rule : Rule SourceStmt} {before after : Cursor}
    (run : rule before = .ok statement after)
    : recovering rule before = .ok (some statement) after := by
  unfold recovering
  rw [run]

/-- A declaration starts with a keyword of its own or as a statement does. -/
theorem Declaration.starts (complete : rules.Complete inner) {ending : Ending}
    (derived : Declaration inner inLoop ending tokens statement)
    : Starts (startsDeclaration ·) tokens := by
  cases derived with
  | «class» kind | function kind | declaration kind =>
      exact ⟨_, _, rfl, by rw [kind]; rfl⟩
  | statement plain =>
      refine (plain.starts complete).imp fun kind starts => ?_
      revert starts
      cases kind <;> decide

/-- What starts with no keyword of a declaration is another statement. -/
theorem declaration_of_startsPlain {allowExpression : Bool} {context : Cursor} {token : Token} {rest : List Token}
    (starts : startsPlain token.kind = true)
    : Grammar.declaration allowExpression rules (context.facing (token :: rest))
        = recovering (Grammar.statement allowExpression rules) (context.facing (token :: rest)) := by
  unfold Grammar.declaration recovering
  rw [next_bind]
  generalize token.kind = kind at starts
  cases kind <;> first | rfl | exact absurd starts (by decide)

/-- A declaration of the grammar is read, by cases on its first token. -/
theorem Declaration.reads (complete : rules.Complete inner) (allowExpression : Bool) {ending : Ending}
    (derived : Declaration inner inLoop ending tokens statement) (context : Cursor)
    (commas : context.commaEnabled = true) (loop : (context.loopDepth != 0) = inLoop)
    : Reads (Grammar.declaration allowExpression rules) context tokens ending.Stops (some statement) := by
  intro first rest stops
  cases derived with
  | @«class» keyword name clause superclass opening tokens methods closing kind named inherits
      opens listed closes =>
      have enough : tokens.length ≤ (tokens ++ closing :: first :: rest).length := by simp
      have readClause := inherits.reads context opening (tokens ++ closing :: first :: rest) opens
      have readMethods := listed.reads complete context enough closing (first :: rest) closes
      simp only [List.append_assoc, List.cons_append, List.nil_append]
      refine recovering_run ((next_bind _).trans ?_)
      simp only [kind]
      refine (dropped_run kind (by decide)).trans ?_
      refine (bind_of_ok (expect_of_kind _ named (by decide))).trans ?_
      refine (bind_of_ok readClause).trans ?_
      refine (bind_of_ok (expect_of_kind _ opens (by decide))).trans ?_
      refine (get_bind _).trans ?_
      refine (bind_of_ok readMethods).trans ?_
      exact bind_of_ok (expect_of_kind _ closes (by decide))
  | function kind defined =>
      have read := defined.reads complete .function context first rest trivial
      refine recovering_run ((next_bind _).trans ?_)
      simp only [kind]
      refine (dropped_run kind (by decide)).trans ?_
      exact bind_of_ok read
  | declaration kind initial =>
      refine recovering_run ((next_bind _).trans ?_)
      simp only [kind]
      refine (dropped_run kind (by decide)).trans ?_
      exact initial.reads complete context commas first rest stops
  | statement plain =>
      have read := plain.reads complete allowExpression context commas loop first rest stops
      obtain ⟨token, others, rfl, starts⟩ := plain.starts complete
      exact (declaration_of_startsPlain starts).trans (recovering_run read)

end Statements

-----
-- The unfolded grammar

/-- The rules unfolded to some depth read what the grammar unfolded to the same depth derives. -/
theorem rules_complete (allowExpression : Bool) (policy : Policy)
    (greedy : ∀ following, policy following → Policy.greedy following) (nesting : Nat)
    : (rules allowExpression nesting).Complete (language policy nesting) := by
  induction nesting with
  | zero =>
      exact {
        greedy
        expression := fun derived => derived.elim
        expressionStarts := fun derived => derived.elim
        names := fun derived => derived.elim
        statement := fun derived => derived.elim
        statementEnding := fun derived => derived.elim
        declaration := fun derived => derived.elim
        declarationStarts := fun derived => derived.elim
      }
  | succ nesting ih =>
      exact {
        greedy
        expression := fun derived => Assignment.reads ih derived
        expressionStarts := fun derived => Assignment.starts derived
        names := fun listed => Names.assignment listed
        statement := fun derived => Statement.reads ih allowExpression derived
        statementEnding := fun derived => Statement.ending ih derived
        declaration := fun derived => Declaration.reads ih allowExpression derived
        declarationStarts := fun derived => Declaration.starts ih derived
      }

/-- A text that derives statements is read as these statements, without a mistake. -/
theorem parse_of_derives {allowExpression : Bool} {policy : Policy} {depth : Nat}
    (greedy : ∀ following, policy following → Policy.greedy following) {body : List Token}
    {last : Token} {statements : List SourceStmt} (lastKind : last.kind = .endOfInput)
    (derived : Derives policy depth body statements)
    : parse allowExpression (body ++ [last]) depth = { statements, errors := [] } := by
  let start := Cursor.start (body ++ [last])
  have complete := rules_complete allowExpression policy greedy (depth + 1)
  have atEnd : (start.facing [last]).atEnd = true := by
    simp [Cursor.atEnd, Cursor.next, Cursor.facing, lastKind]
  have goesOn (token : Token) (others : List Token) (starts : startsDeclaration token.kind = true)
      : (start.facing (token :: others)).atEnd = false := by
    have inside : token.kind ≠ .endOfInput := by
      intro kind
      rw [kind] at starts
      exact absurd starts (by decide)
    simpa [Cursor.atEnd, Cursor.next, Cursor.facing] using inside
  have ends (ending : Ending) : ending.Stops last.kind := by
    rw [lastKind]
    cases ending <;> simp [Ending.Stops, Stops, looseness]
  have derived
      : Sequence (language policy (depth + 1)).policy
          ((language policy (depth + 1)).declaration false) body statements := by
    rwa [language_policy]
  have run : program allowExpression depth start = .ok statements (start.facing [last]) := by
    refine (get_bind _).trans ?_
    exact derived.reads complete start rfl rfl [] atEnd goesOn ends _ (by simp [start, Cursor.start])
  exact parse_of_run run

end Lox.Grammar
