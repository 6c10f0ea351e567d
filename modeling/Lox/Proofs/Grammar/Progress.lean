import Lox.Proofs.Grammar.Repetition

/-! Reading goes forward and comes to an end.

No rule of the grammar steps back or passes the end of input, and a declaration takes a token
wherever one is left. So the loops end by themselves, and a depth of nesting that exceeds the number
of tokens is never used up. What cannot be read is left out, but not without a mistake on record.
-/

namespace Lox.Grammar

-----
-- Rules

/-- The rules of the grammar, with others in place of the parts that they contain. -/
inductive Production (allowExpression : Bool) (rules : Rules) : {α : Type} → Rule α → Prop
  | block : Production allowExpression rules (block rules)
  | functionBody : Production allowExpression rules (functionBody rules)
  | arrowBody (parameters : List Token)
    : Production allowExpression rules (arrowBody rules parameters)
  | groupOrArrow : Production allowExpression rules (groupOrArrow rules)
  | superMethod (keyword : Token) : Production allowExpression rules (superMethod keyword)
  | primary : Production allowExpression rules (primary rules)
  | arguments : Production allowExpression rules (arguments rules)
  | callEnd (callee : SourceExpr) : Production allowExpression rules (callEnd rules callee)
  | call : Production allowExpression rules (call rules)
  | unary : Production allowExpression rules (unary rules)
  | factor : Production allowExpression rules (factor rules)
  | term : Production allowExpression rules (term rules)
  | comparison : Production allowExpression rules (comparison rules)
  | equality : Production allowExpression rules (equality rules)
  | conditional : Production allowExpression rules (conditional rules)
  | comma : Production allowExpression rules (comma rules)
  | logicAnd : Production allowExpression rules (logicAnd rules)
  | logicOr : Production allowExpression rules (logicOr rules)
  | expression : Production allowExpression rules (expression rules)
  | parameters : Production allowExpression rules parameters
  | namedFunction (role : FunctionRole)
    : Production allowExpression rules (namedFunction rules role)
  | functionDeclaration : Production allowExpression rules (functionDeclaration rules)
  | superclassClause : Production allowExpression rules superclassClause
  | classDeclaration : Production allowExpression rules (classDeclaration rules)
  | initialValue : Production allowExpression rules (initialValue rules)
  | variableEnd (initial : Option SourceExpr)
    : Production allowExpression rules (variableEnd initial)
  | variableDeclaration : Production allowExpression rules (variableDeclaration rules)
  | expressionStatement
    : Production allowExpression rules (expressionStatement allowExpression rules)
  | expressionBefore (stop : TokenKind)
    : Production allowExpression rules (expressionBefore stop rules)
  | forInitial : Production allowExpression rules (forInitial allowExpression rules)
  | forStatement : Production allowExpression rules (forStatement allowExpression rules)
  | elseBranch : Production allowExpression rules (elseBranch rules)
  | ifStatement : Production allowExpression rules (ifStatement rules)
  | whileStatement : Production allowExpression rules (whileStatement rules)
  | breakStatement (keyword : Token) : Production allowExpression rules (breakStatement keyword)
  | returnStatement (keyword : Token)
    : Production allowExpression rules (returnStatement rules keyword)
  | printStatement : Production allowExpression rules (printStatement rules)
  | printLineStatement : Production allowExpression rules (printLineStatement rules)
  | statement : Production allowExpression rules (statement allowExpression rules)
  | declaration : Production allowExpression rules (declaration allowExpression rules)

/-- Each rule runs alike with itself. -/
theorem Production.alike {allowExpression : Bool} {rules : Rules} {α : Type} {rule : Rule α}
    (production : Production allowExpression rules rule)
    (whole : ∀ limit, Shared.identity.pairing.Whole limit rules rules) (before : Cursor)
    : ∃ taken, Shared.identity.pairing.Alike rule rule before before taken := by
  have full := Shared.identity.full
  have inner : Shared.identity.pairing.Whole (before.ahead.length + 1) rules rules := whole _
  have parts := inner.parts
  have within : before.ahead.length ≤ before.ahead.length + 1 := Nat.le_succ _
  have below : before.ahead.length < before.ahead.length + 1 := Nat.lt_succ_self _
  have written {limit : Nat} {before before' : Cursor} (within : before.ahead.length ≤ limit)
      : Shared.identity.pairing.Alike (Grammar.expressionStatement allowExpression rules)
          (Grammar.expressionStatement allowExpression rules) before before'
          (fun tokens _ _ => Starts (startsExpression ·) tokens) :=
    Pairing.alike_expressionStatement full (whole limit) allowExpression within
  cases production with
  | block => exact ⟨_, Pairing.alike_block inner below⟩
  | functionBody =>
      refine ⟨fun _ _ _ => True, Pairing.alike_outsideLoops fun same _ => ?_⟩
      exact (Pairing.alike_block inner (same ▸ below)).weaken fun _ _ _ _ _ => trivial
  | arrowBody parameters => exact ⟨_, Pairing.alike_arrowBody parts parameters within⟩
  | groupOrArrow => exact ⟨_, Pairing.alike_groupOrArrow parts within⟩
  | superMethod keyword => exact ⟨_, Pairing.alike_superMethod keyword⟩
  | primary => exact ⟨_, Pairing.alike_primary parts (Nat.le_succ_of_le within)⟩
  | arguments => exact ⟨_, Pairing.alike_arguments parts within⟩
  | callEnd callee => exact ⟨_, Pairing.alike_callEnd parts callee within⟩
  | call => exact ⟨_, Pairing.alike_call parts (Nat.le_succ_of_le within)⟩
  | unary => exact ⟨_, Pairing.alike_unary parts (Nat.le_succ_of_le within)⟩
  | factor => exact ⟨_, Pairing.alike_factor parts (Nat.le_succ_of_le within)⟩
  | term => exact ⟨_, Pairing.alike_term parts (Nat.le_succ_of_le within)⟩
  | comparison => exact ⟨_, Pairing.alike_comparison parts (Nat.le_succ_of_le within)⟩
  | equality => exact ⟨_, Pairing.alike_equality parts (Nat.le_succ_of_le within)⟩
  | conditional => exact ⟨_, Pairing.alike_conditional parts (Nat.le_succ_of_le within)⟩
  | comma => exact ⟨_, Pairing.alike_comma parts (Nat.le_succ_of_le within)⟩
  | logicAnd => exact ⟨_, Pairing.alike_logicAnd parts (Nat.le_succ_of_le within)⟩
  | logicOr => exact ⟨_, Pairing.alike_logicOr parts (Nat.le_succ_of_le within)⟩
  | expression => exact ⟨_, Pairing.alike_expression parts (Nat.le_succ_of_le within)⟩
  | parameters => exact ⟨_, Pairing.alike_parameters⟩
  | namedFunction role => exact ⟨_, Pairing.alike_namedFunction parts role within⟩
  | functionDeclaration => exact ⟨_, Pairing.alike_functionDeclaration parts within⟩
  | superclassClause => exact ⟨_, Pairing.alike_superclassClause⟩
  | classDeclaration => exact ⟨_, Pairing.alike_classDeclaration parts within⟩
  | initialValue => exact ⟨_, Pairing.alike_initialValue parts within⟩
  | variableEnd initial => exact ⟨_, Pairing.alike_variableEnd full initial⟩
  | variableDeclaration => exact ⟨_, Pairing.alike_variableDeclaration full parts within⟩
  | expressionStatement => exact ⟨_, written within⟩
  | expressionBefore stop => exact ⟨_, Pairing.alike_expressionBefore parts stop within⟩
  | forInitial => exact ⟨_, Pairing.alike_forInitial full inner written within⟩
  | forStatement => exact ⟨_, Pairing.alike_forStatement full inner written within⟩
  | elseBranch => exact ⟨_, Pairing.alike_elseBranch inner below⟩
  | ifStatement => exact ⟨_, Pairing.alike_ifStatement inner within⟩
  | whileStatement => exact ⟨_, Pairing.alike_whileStatement inner within⟩
  | breakStatement keyword => exact ⟨_, Pairing.alike_breakStatement full keyword⟩
  | returnStatement keyword => exact ⟨_, Pairing.alike_returnStatement full inner keyword within⟩
  | printStatement => exact ⟨_, Pairing.alike_printStatement full inner within⟩
  | printLineStatement => exact ⟨_, Pairing.alike_printLineStatement full inner within⟩
  | statement => exact ⟨_, Pairing.alike_statement full inner written within⟩
  | declaration => exact ⟨_, Pairing.alike_declaration full inner written within⟩

-----
-- Places

/-- The tokens ahead are the last ones of the text, and the end of input is among them. -/
structure Cursor.Within (cursor : Cursor) (tokens : List Token) : Prop where
  ahead : cursor.ahead <:+ tokens
  some : cursor.ahead ≠ []

/-- The rest of a text that ends does so too, unless nothing is left. -/
theorem Ended.suffix {tokens rest : List Token} (ended : Ended tokens) (suffix : rest <:+ tokens)
    (some : rest ≠ [])
    : Ended rest := by
  obtain ⟨front, rfl⟩ := suffix
  rw [← List.dropLast_concat_getLast some, ← List.append_assoc, Ended.snoc_iff] at ended
  rw [← List.dropLast_concat_getLast some, Ended.snoc_iff]
  exact ⟨ended.1, fun token member => ended.2 token (List.mem_append_right front member)⟩

/-- A cursor within a text that ends has tokens ahead. -/
theorem Cursor.Within.ended {cursor : Cursor} {tokens : List Token} (within : cursor.Within tokens)
    (ended : Ended tokens)
    : Ended cursor.ahead :=
  ended.suffix within.ahead within.some

/-- A cursor that was led to is within the text. -/
theorem Cursor.Leads.within {before after : Cursor} (leads : before.Leads after)
    (ended : Ended before.ahead)
    : after.Within before.ahead :=
  ⟨leads.ahead, (leads.ended ended).ne_nil⟩

/-- A cursor within the rest of a text is within the text. -/
theorem Cursor.Within.trans {before after : Cursor} {tokens : List Token}
    (within : before.Within tokens) (further : after.Within before.ahead)
    : after.Within tokens :=
  ⟨further.ahead.trans within.ahead, further.some⟩

/-- Where a run ends, whether it yields something or unwinds. -/
def reached {α : Type} : EStateM.Result Unwinding Cursor α → Cursor
  | .ok _ after => after
  | .error _ after => after

/-- What passes tokens leads on through the text. -/
theorem Pairing.Alike.leads {α : Type} {rule : Rule α} {before : Cursor}
    {taken : List Token → α → Cursor → Prop}
    (alike : Shared.identity.pairing.Alike rule rule before before taken)
    (ended : Ended before.ahead)
    : before.Leads (reached (rule before)) := by
  have outcome := alike (Shared.identity_refl ended)
  revert outcome
  cases rule before <;> rintro (⟨step, -⟩ | ⟨step, -, -⟩) <;>
    exact step.passes.leads step.related.holds

-----
-- Depth

/-- Two runs over one text that never lack nesting. -/
def Shared.shallow : Shared :=
  { Shared.identity with
    errors := fun recorded recorded' =>
      recorded' = recorded ∧ ∀ diagnostic ∈ recorded, diagnostic.problem ≠ .tooMuchNesting
    deep := False
    reported := fun diagnostic known recorded => by
      refine ⟨by rw [recorded.1], fun other member => ?_⟩
      rcases List.mem_append.1 member with earlier | last
      · exact recorded.2 other earlier
      · obtain rfl := List.mem_singleton.1 last
        exact known }

/-- A depth of as many rules as there are tokens makes up for any greater one. -/
theorem parse_of_length_le {allowExpression : Bool} {tokens : List Token} (ended : Ended tokens)
    {depth : Nat} (deep : tokens.length ≤ depth)
    : parse allowExpression tokens depth = parse allowExpression tokens tokens.length
      ∧ ∀ diagnostic ∈ (parse allowExpression tokens depth).errors,
          diagnostic.problem ≠ .tooMuchNesting := by
  have whole := Shared.shallow.full.whole_of_le allowExpression (Nat.succ_le_succ deep)
  have related : Shared.shallow.Related (Cursor.start tokens) (Cursor.start tokens) :=
    ⟨rfl, rfl, rfl, ⟨rfl, nofun⟩, ended⟩
  have outcome :=
    Pairing.alike_declarationsUntil whole atEnd_eq (fun _ goesOn => goesOn) tokens tokens
      (Nat.lt_succ_self tokens.length) (Nat.le_refl _) (Nat.le_refl _) related
  have read (depth : Nat)
      : program allowExpression depth (Cursor.start tokens)
        = declarationsUntil Cursor.atEnd (rules allowExpression (depth + 1)).declaration tokens
            (Cursor.start tokens) :=
    rfl
  unfold parse
  rw [read, read]
  revert outcome
  cases declarationsUntil Cursor.atEnd (rules allowExpression (tokens.length + 1)).declaration
      tokens (Cursor.start tokens) <;>
    cases declarationsUntil Cursor.atEnd (rules allowExpression (depth + 1)).declaration tokens
      (Cursor.start tokens) <;>
    rintro (⟨step, -⟩ | ⟨step, -, -⟩)
  all_goals
    obtain ⟨same, known⟩ := step.related.errors
    exact ⟨by simp only [same], by simpa only [same] using known⟩

-----
-- Left out

section

variable {allowExpression : Bool} {nesting : Nat} {before after : Cursor}
  {results : List (Option SourceStmt)} {stop : Cursor → Bool}

/-- Where nothing was recorded nothing was left out. -/
theorem Rounds.kept (ended : Ended before.ahead)
    (rounds : Rounds (rules allowExpression nesting).declaration stop before results after)
    (silent : after.errors = before.errors)
    : none ∉ results := by
  generalize declares : (rules allowExpression nesting).declaration = declaration at rounds
  induction rounds with
  | done => exact List.not_mem_nil
  | @round before between after result results goesOn run rest ih =>
      subst declares
      obtain ⟨tokens, passes, declared, stillEnded⟩ := declaration_declares ended run
      have restLeads := rest.leads stillEnded
      have same : between.errors = before.errors := by
        have later : between.errors <+: before.errors := silent ▸ restLeads.errors
        exact later.eq_of_length_le passes.errors.length_le
      have restKept := ih stillEnded (silent.trans same.symm)
      rw [List.mem_cons, not_or]
      exact ⟨fun missing => declared.mistaken missing.symm same, restKept⟩

/-- Declarations are read in rounds until the stop. -/
theorem declarationsUntil_rounds (ended : Ended before.ahead)
    (atEnd : ∀ cursor, stop cursor = false → cursor.atEnd = false)
    : ∃ results after,
        Rounds (rules allowExpression (nesting + 1)).declaration stop before results after
        ∧ stop after = true
        ∧ declarationsUntil stop (rules allowExpression (nesting + 1)).declaration before.ahead
            before
          = .ok (results.filterMap id) after
        ∧ (after.errors = before.errors → none ∉ results) := by
  have shortens : Shortens stop (rules allowExpression (nesting + 1)).declaration :=
    fun ended goesOn run => declaration_shortens ended (atEnd _ goesOn) run
  obtain ⟨statements, after, run⟩ :=
    declarationsUntil_ok (fun cursor => recovering_ok _ cursor) stop before.ahead before
  obtain ⟨results, rounds, stops, rfl⟩ := Rounds.of_run shortens ended (Nat.le_refl _) run
  exact ⟨results, after, rounds, stops, run, rounds.kept ended⟩

end

-----
-- Progress

/-- How a text is read, from any place in it and at any depth of nesting. -/
structure Progress (allowExpression : Bool) (tokens : List Token) : Prop where
  /-- Every loop ends by itself, after rounds that each take a token. -/
  loops
    : ∀ {σ ρ : Type} {nesting : Nat} {round : Round σ ρ} {bounded : σ → List Token → Rule ρ},
        Repetition (rules allowExpression nesting) round bounded
        → ∀ (state : σ) {before : Cursor},
            before.Within tokens
            → Runs round state before (bounded state before.ahead before)
  /-- A depth of as many rules as there are tokens is never used up, and none is better. -/
  depth
    : ∀ {depth : Nat},
        tokens.length ≤ depth
        → parse allowExpression tokens depth = parse allowExpression tokens tokens.length
          ∧ ∀ diagnostic ∈ (parse allowExpression tokens depth).errors,
              diagnostic.problem ≠ .tooMuchNesting
  /-- No rule steps back, passes the end of input or forgets a mistake. -/
  forward
    : ∀ {α : Type} {nesting : Nat} {rule : Rule α} {before : Cursor},
        Production allowExpression (rules allowExpression nesting) rule
        → before.Within tokens
        → (reached (rule before)).Within before.ahead
          ∧ before.errors <+: (reached (rule before)).errors
  /-- In front of the end of input a declaration takes a token, whether it yields a statement or
  recovers. It recovers only behind a mistake. -/
  declares
    : ∀ {nesting : Nat} {before : Cursor},
        before.Within tokens
        → before.atEnd = false
        → ∃ result after,
            (rules allowExpression (nesting + 1)).declaration before = .ok result after
            ∧ after.Within tokens
            ∧ after.ahead.length < before.ahead.length
            ∧ (result = none → before.errors.length < after.errors.length)
  /-- A block without a mistake has a statement for every declaration that was begun. -/
  blocks
    : ∀ {nesting : Nat} {before : Cursor},
        before.Within tokens
        → ∃ results after,
            Rounds (rules allowExpression (nesting + 1)).declaration Cursor.atBlockEnd before
              results after
            ∧ after.atBlockEnd = true
            ∧ declarationsUntil Cursor.atBlockEnd
                  (rules allowExpression (nesting + 1)).declaration before.ahead before
                = .ok (results.filterMap id) after
            ∧ (after.errors = before.errors → none ∉ results)
  /-- So does a whole text, which is read up to the end of input. -/
  text
    : ∀ (depth : Nat),
        ∃ results after,
          Rounds (rules allowExpression (depth + 1)).declaration Cursor.atEnd
            (Cursor.start tokens) results after
          ∧ after.atEnd = true
          ∧ parse allowExpression tokens depth
              = { statements := results.filterMap id, errors := after.errors }
          ∧ ((parse allowExpression tokens depth).errors = [] → none ∉ results)

/-- Reading a text goes forward and comes to an end. -/
theorem parse_progresses (allowExpression : Bool) {tokens : List Token} (ended : Ended tokens)
    : Progress allowExpression tokens where
  loops repetition state _ within :=
    repetition.runs (rules_whole allowExpression _) state (within.ended ended)
  depth := parse_of_length_le ended
  forward {_ _ _ before} production within := by
    obtain ⟨_, alike⟩ := production.alike (rules_whole allowExpression _) before
    have leads := alike.leads (within.ended ended)
    exact ⟨leads.within (within.ended ended), leads.errors⟩
  declares {nesting before} within goesOn := by
    have stillEnded := within.ended ended
    obtain ⟨result, after, run⟩
        : ∃ result after,
            (rules allowExpression (nesting + 1)).declaration before = .ok result after :=
      recovering_ok _ before
    obtain ⟨tokens, passes, declared, afterEnded⟩ := declaration_declares stillEnded run
    obtain ⟨-, fewer⟩ := declaration_shortens stillEnded goesOn run
    refine ⟨result, after, run, ?_, fewer, fun missing => ?_⟩
    · exact within.trans ((passes.leads afterEnded).within stillEnded)
    · refine Nat.lt_of_not_le fun le => declared.mistaken missing ?_
      exact (passes.errors.eq_of_length_le le).symm
  blocks within :=
    declarationsUntil_rounds (within.ended ended) fun cursor stops => by
      simp only [Cursor.atBlockEnd, Bool.or_eq_false_iff] at stops
      exact stops.1
  text depth := by
    have startEnded : Ended (Cursor.start tokens).ahead := ended
    obtain ⟨results, after, rounds, atEnd, parsed⟩ := rounds_of_parse allowExpression depth ended
    refine ⟨results, after, rounds, atEnd, parsed, fun clean => ?_⟩
    rw [parsed] at clean
    exact rounds.kept startEnded clean

/-- A statement that cannot be read, in front of the end of input. -/
theorem parse_progresses_at_end : Progress true [⟨.semicolon, ";", none, 1⟩, Token.endOfInput 1] :=
  parse_progresses true ⟨[_], _, rfl, rfl, by decide⟩

end Lox.Grammar
