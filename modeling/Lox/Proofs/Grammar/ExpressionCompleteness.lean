import Lox.Proofs.Grammar.Reading

/-! Whatever stands in the grammar as an expression is read by the rules, and nothing behind it is.

Each level reads a derived stretch up to a token that the level cannot go on with. The levels
follow the grammar from single operands to assignments.
-/

namespace Lox.Grammar

-----
-- Running the rules of expressions

section Running

variable {context : Cursor} {token : Token} {rest : List Token}

/-- Looking at the next token hands it on and moves nothing. -/
theorem next_bind {α : Type} (next : Token → Rule α)
    : (Grammar.next >>= next) (context.facing (token :: rest))
        = next token (context.facing (token :: rest)) :=
  rfl

/-- A token taken for a value is dropped. -/
theorem takeAs_run (value : SourceExpr) (inside : token.kind ≠ .endOfInput)
    : takeAs value (context.facing (token :: rest)) = .ok value (context.facing rest) :=
  bind_of_ok (drop_run inside)

end Running

section Levels

variable {rules : Rules} {inner : Language} {commas : Bool} {tokens : List Token}
  {value : SourceExpr}

-----
-- Operands

/-- An operand of the grammar is read, by cases on what it is. -/
theorem Primary.reads (complete : rules.Complete inner) (derived : Primary inner tokens value)
    (context : Cursor)
    : Reads (primary rules) context tokens (· ≠ .arrow) value := by
  intro first rest noArrow
  have single {token : Token} {value : SourceExpr} {kind : TokenKind} (found : token.kind = kind)
      (inside : kind ≠ .endOfInput)
      : takeAs value (context.facing ([token] ++ first :: rest))
          = .ok value (context.facing (first :: rest)) :=
    takeAs_run value (found ▸ inside)
  cases derived with
  | falseWord kind | trueWord kind | nilWord kind | number kind | string kind | this kind
  | identifier kind =>
      refine (next_bind _).trans ?_
      simp only [kind]
      exact single kind (by decide)
  | super kind dotted named =>
      refine (next_bind _).trans ?_
      simp only [kind]
      refine (dropped_run kind (by decide)).trans ?_
      refine (bind_of_ok (expect_of_kind _ dotted (by decide))).trans ?_
      exact bind_of_ok (expect_of_kind _ named (by decide))
  | @group opening tokens value closing opens grouped closes =>
      obtain ⟨token, others, rfl, starts⟩ := complete.expressionStarts grouped
      have goesOn : token.kind ≠ .rightParen := startsExpression_ne starts rfl
      have inside := (complete.expression grouped { context with commaEnabled := true } rfl).withComma
      have stops : Stops 9 true closing.kind := closes ▸ by decide
      rw [List.cons_append, List.append_assoc, List.singleton_append]
      refine (next_bind _).trans ?_
      simp only [opens]
      refine (dropped_run opens (by decide)).trans ?_
      refine (bind_of_ok (accept_of_other goesOn)).trans ?_
      refine (bind_of_ok (inside closing _ stops)).trans ?_
      refine (bind_of_ok (expect_of_kind _ closes (by decide))).trans ?_
      exact bind_of_ok (accept?_of_other noArrow)
  | arrow opens closes points block =>
      refine (next_bind _).trans ?_
      simp only [opens]
      refine (dropped_run opens (by decide)).trans ?_
      refine (bind_of_ok (accept_of_kind closes (by decide))).trans ?_
      refine (bind_of_ok (expect_of_kind _ points (by decide))).trans ?_
      exact block.arrowBody_reads complete [] context first rest trivial
  | @arrowNames opening tokens names closing arrow body statements opens listed few closes points
      block =>
      obtain ⟨value, listing, found⟩ := complete.names listed
      obtain ⟨token, others, rfl, starts⟩ := complete.expressionStarts listing
      have goesOn : token.kind ≠ .rightParen := startsExpression_ne starts rfl
      have inside := (complete.expression listing { context with commaEnabled := true } rfl).withComma
      have stops : Stops 9 true closing.kind := closes ▸ by decide
      rw [List.cons_append, List.append_assoc, List.cons_append, List.cons_append]
      refine (next_bind _).trans ?_
      simp only [opens]
      refine (dropped_run opens (by decide)).trans ?_
      refine (bind_of_ok (accept_of_other goesOn)).trans ?_
      refine (bind_of_ok (inside closing _ stops)).trans ?_
      refine (bind_of_ok (expect_of_kind _ closes (by decide))).trans ?_
      refine (bind_of_ok (accept?_of_kind points (by decide))).trans ?_
      simp only [found]
      refine (bind_of_ok (checkNames_run few arrow)).trans ?_
      exact block.arrowBody_reads complete names context first rest trivial

-----
-- Calls

/-- Listed arguments are read, by induction on them. -/
theorem ArgumentList.reads (complete : rules.Complete inner) {values : List SourceExpr}
    (derived : ArgumentList inner tokens values) {earlier : Nat}
    (few : earlier + values.length ≤ maxArguments) (context : Cursor)
    (commas : context.commaEnabled = false) {bound : List Token}
    (enough : tokens.length ≤ bound.length)
    : Reads (argumentsFrom rules earlier bound) context tokens (· = .rightParen) values := by
  induction derived generalizing earlier bound with
  | last argument =>
      intro first rest closes
      obtain ⟨token, others, rfl, -⟩ := complete.expressionStarts argument
      have stops : Stops 9 false first.kind := closes ▸ by decide
      have noComma : first.kind ≠ .comma := closes ▸ by decide
      cases bound with
      | nil => simp at enough
      | cons _ bound =>
          refine (bind_of_ok (checkRoom_run few _)).trans ?_
          refine (bind_of_ok (complete.expression argument context commas first rest stops)).trans ?_
          exact bind_of_ok (accept_of_other noComma)
  | @more tokens value separator others values argument separates _ ih =>
      intro first rest closes
      have stops : Stops 9 false separator.kind := separates ▸ by decide
      simp only [List.length_cons] at few
      simp only [List.length_append, List.length_cons] at enough
      rw [List.append_assoc, List.cons_append]
      cases bound with
      | nil => simp at enough
      | cons _ bound =>
          have room : earlier < maxArguments := by omega
          have fewer : earlier + 1 + values.length ≤ maxArguments := by omega
          have shorter : others.length ≤ bound.length := by
            simp only [List.length_cons] at enough
            omega
          refine (bind_of_ok (checkRoom_run room _)).trans ?_
          refine (bind_of_ok (complete.expression argument context commas _ _ stops)).trans ?_
          refine (bind_of_ok (accept_of_kind separates (by decide))).trans ?_
          exact bind_of_ok (ih fewer shorter first rest closes)

/-- A list of arguments starts as an expression does. -/
theorem ArgumentList.starts (complete : rules.Complete inner) {values : List SourceExpr}
    (derived : ArgumentList inner tokens values)
    : Starts (startsExpression ·) tokens := by
  cases derived with
  | last argument => exact complete.expressionStarts argument
  | more argument => exact (complete.expressionStarts argument).append _

/-- Arguments of the grammar are read up to the parenthesis that closes them. -/
theorem Arguments.reads (complete : rules.Complete inner) {values : List SourceExpr}
    (derived : Arguments inner tokens values) (context : Cursor)
    : Reads (arguments rules) context tokens (· = .rightParen) values := by
  intro first rest closes
  cases derived with
  | none =>
      refine (bind_of_ok (nextIs_run .rightParen (by decide))).trans ?_
      rw [closes]
      rfl
  | some listed few =>
      have inside
          : Reads (do argumentsFrom rules 0 (← get).ahead) { context with commaEnabled := false }
              tokens (· = .rightParen) values := by
        intro first rest closes
        refine (get_bind _).trans ?_
        refine listed.reads complete ?_ _ rfl ?_ first rest closes
        · rwa [Nat.zero_add]
        · simp [Cursor.facing]
      have read := inside.withComma first rest closes
      obtain ⟨token, others, rfl, starts⟩ := listed.starts complete
      have goesOn : (token.kind == .rightParen) = false := by
        simpa using startsExpression_ne starts rfl
      refine (bind_of_ok (nextIs_run .rightParen (by decide))).trans ?_
      rw [goesOn]
      exact read

/-- The arguments of a call are read with their parenthesis. -/
theorem callEnd_run (complete : rules.Complete inner) {values : List SourceExpr}
    {closing : Token} (passed : Arguments inner tokens values)
    (closes : closing.kind = .rightParen) (callee : SourceExpr) (context : Cursor)
    (rest : List Token)
    : callEnd rules callee (context.facing (tokens ++ closing :: rest))
        = .ok (.call callee closing values) (context.facing rest) :=
  (bind_of_ok (passed.reads complete context closing rest closes)).trans
    (bind_of_ok (expect_of_kind _ closes (by decide)))

/-- A derived call is read from its operand on, and as many rounds are left as there are tokens. -/
theorem Call.reads_from (complete : rules.Complete inner) (derived : Call inner tokens value)
    (context : Cursor) (first : Token) (rest : List Token) (noArrow : first.kind ≠ .arrow)
    : ∃ bound,
        rest.length < bound.length
        ∧ Grammar.call rules (context.facing (tokens ++ first :: rest))
            = callFrom rules value bound (context.facing (first :: rest)) := by
  induction derived generalizing first rest with
  | primary operand =>
      refine ⟨first :: rest, Nat.lt_succ_self _, ?_⟩
      exact bind_of_ok (operand.reads complete context first rest noArrow)
  | @call tokens callee opening others values closing front opens passed closes ih =>
      obtain ⟨bound, enough, run⟩ :=
        ih opening (others ++ closing :: first :: rest) (opens ▸ by decide)
      cases bound with
      | nil => simp at enough
      | cons _ bound =>
          refine ⟨bound, ?_, ?_⟩
          · simp only [List.length_append, List.length_cons] at enough
            omega
          · simp only [List.append_assoc, List.cons_append, List.nil_append]
            refine run.trans ?_
            refine (bind_of_ok (accept_of_kind opens (by decide))).trans ?_
            exact bind_of_ok (callEnd_run complete passed closes callee context _)
  | @get tokens object dot name front dotted named ih =>
      obtain ⟨bound, enough, run⟩ := ih dot (name :: first :: rest) (dotted ▸ by decide)
      cases bound with
      | nil => simp at enough
      | cons _ bound =>
          refine ⟨bound, ?_, ?_⟩
          · simp only [List.length_cons] at enough
            omega
          · simp only [List.append_assoc, List.cons_append, List.nil_append]
            refine run.trans ?_
            refine (bind_of_ok (accept_of_other (dotted ▸ by decide))).trans ?_
            refine (bind_of_ok (accept_of_kind dotted (by decide))).trans ?_
            exact bind_of_ok (expect_of_kind _ named (by decide))

/-- Calls and property reads of the grammar are read, by induction on them. -/
theorem Call.reads (complete : rules.Complete inner) (derived : Call inner tokens value)
    (context : Cursor)
    : Reads (Grammar.call rules) context tokens (Stops 0 commas) value := by
  intro first rest stops
  obtain ⟨bound, -, run⟩ := derived.reads_from complete context first rest stops.2
  rw [run]
  have noParen : first.kind ≠ .leftParen := stops.ne (by simp [looseness])
  have noDot : first.kind ≠ .dot := stops.ne (by simp [looseness])
  cases bound with
  | nil => rfl
  | cons _ bound =>
      refine (bind_of_ok (accept_of_other noParen)).trans ?_
      exact bind_of_ok (accept_of_other noDot)

-----
-- Levels of operators

/-- Operators in front of an operand are read, by induction on them. -/
theorem Unary.reads_from (complete : rules.Complete inner) (derived : Unary inner tokens value)
    (context : Cursor) {bound : List Token} (enough : tokens.length ≤ bound.length)
    : Reads (unaryFrom rules bound) context tokens (Stops 0 commas) value := by
  induction derived generalizing bound with
  | call operand =>
      intro first rest stops
      have read := operand.reads complete context first rest stops
      cases bound with
      | nil => exact read
      | cons _ bound =>
          obtain ⟨token, others, rfl, starts⟩ := operand.starts
          have positive : token.kind ∉ [.bang, .minus] := by
            revert starts
            generalize token.kind = kind
            cases kind <;> decide
          exact (bind_of_ok (acceptAny?_of_not_mem positive)).trans read
  | @operator operator tokens value negates operand ih =>
      intro first rest stops
      cases bound with
      | nil => simp at enough
      | cons _ bound =>
          have inside : operator.kind ≠ .endOfInput := by
            intro atEnd
            simp [atEnd] at negates
          refine (bind_of_ok (acceptAny?_of_mem negates inside)).trans ?_
          exact bind_of_ok (ih (Nat.le_of_succ_le_succ enough) first rest stops)

/-- A unary expression of the grammar is read. -/
theorem Unary.reads (complete : rules.Complete inner) (derived : Unary inner tokens value)
    (context : Cursor)
    : Reads (unary rules) context tokens (Stops 0 commas) value := by
  intro first rest stops
  refine (get_bind _).trans ?_
  exact derived.reads_from complete context (by simp [Cursor.facing]) first rest stops

/-- The levels up to an equality are read as chains, one above the other. -/
theorem Equality.reads (complete : rules.Complete inner) (derived : Equality inner tokens value)
    (context : Cursor)
    : Reads (equality rules) context tokens (Stops 4 commas) value := by
  have taken {kinds : List TokenKind} (proper : .endOfInput ∉ kinds) (token : Token)
      (rest : List Token) (found : token.kind ∈ kinds)
      : acceptAny? kinds (context.facing (token :: rest))
          = .ok (some token) (context.facing rest) :=
    acceptAny?_of_mem found fun atEnd => proper (atEnd ▸ found)
  have missing {kinds : List TokenKind} (token : Token) (rest : List Token)
      (other : token.kind ∉ kinds)
      : acceptAny? kinds (context.facing (token :: rest))
          = .ok none (context.facing (token :: rest)) :=
    acceptAny?_of_not_mem other
  have factor {tokens : List Token} {value : SourceExpr} (derived : Factor inner tokens value)
      : Reads (factor rules) context tokens (Stops 1 commas) value :=
    Chain.reads (fun single => Unary.reads complete single context) (taken (by decide)) missing
      (by cases commas <;> decide) (by cases commas <;> decide) derived
  have term {tokens : List Token} {value : SourceExpr} (derived : Term inner tokens value)
      : Reads (term rules) context tokens (Stops 2 commas) value :=
    Chain.reads factor (taken (by decide)) missing
      (by cases commas <;> decide) (by cases commas <;> decide) derived
  have comparison {tokens : List Token} {value : SourceExpr}
      (derived : Comparison inner tokens value)
      : Reads (comparison rules) context tokens (Stops 3 commas) value :=
    Chain.reads term (taken (by decide)) missing
      (by cases commas <;> decide) (by cases commas <;> decide) derived
  exact Chain.reads comparison (taken (by decide)) missing
    (by cases commas <;> decide) (by cases commas <;> decide) derived

/-- A conditional expression of the grammar is read. -/
theorem Conditional.reads (complete : rules.Complete inner)
    (derived : Conditional inner tokens value) (context : Cursor)
    : Reads (conditional rules) context tokens (Stops 5 commas) value := by
  intro first rest stops
  have behind : Stops 4 commas first.kind := stops.tighter (by decide)
  cases derived with
  | equality operand =>
      have noQuestion : first.kind ≠ .question := stops.ne (by simp [looseness])
      refine (bind_of_ok (operand.reads complete context first rest behind)).trans ?_
      exact bind_of_ok (accept_of_other noQuestion)
  | choice tested asks thenCase separates elseCase =>
      have asking : Stops 4 commas .question := by cases commas <;> decide
      have separating : Stops 4 commas .colon := by cases commas <;> decide
      simp only [List.append_assoc, List.cons_append]
      refine (bind_of_ok (tested.reads complete context _ _ (asks ▸ asking))).trans ?_
      refine (bind_of_ok (accept_of_kind asks (by decide))).trans ?_
      refine (bind_of_ok (thenCase.reads complete context _ _ (separates ▸ separating))).trans ?_
      refine (bind_of_ok (expect_of_kind _ separates (by decide))).trans ?_
      exact bind_of_ok (elseCase.reads complete context first rest behind)

/-- Expressions joined by commas are read where the comma is enabled. -/
theorem Comma.reads (complete : rules.Complete inner) (derived : Comma inner commas tokens value)
    (context : Cursor) (enabled : context.commaEnabled = commas)
    : Reads (comma rules) context tokens (Stops 6 commas) value := by
  have run (ahead : List Token)
      : commaOperator? (context.facing ahead)
          = if commas then accept? .comma (context.facing ahead)
            else .ok none (context.facing ahead) := by
    subst enabled
    refine (get_bind _).trans ?_
    cases enabled : context.commaEnabled with
    | false =>
        simp [Cursor.facing, enabled]
        rfl
    | true => simp [Cursor.facing, enabled]
  refine Chain.reads (fun single => Conditional.reads complete single context) ?_ ?_ ?_ ?_ derived
  · intro token rest found
    rw [run]
    cases commas with
    | false => simp at found
    | true => exact accept?_of_kind (by simpa using found) (by decide)
  · intro token rest other
    rw [run]
    cases commas with
    | false => rfl
    | true => exact accept?_of_other (by simpa using other)
  · cases commas <;> decide
  · cases commas <;> decide

/-- A disjunction of conjunctions is read as two chains. -/
theorem LogicOr.reads (complete : rules.Complete inner)
    (derived : LogicOr inner commas tokens value) (context : Cursor)
    (enabled : context.commaEnabled = commas)
    : Reads (logicOr rules) context tokens (Stops 8 commas) value := by
  have taken {kind : TokenKind} (proper : kind ≠ .endOfInput) (token : Token)
      (rest : List Token) (found : token.kind ∈ [kind])
      : accept? kind (context.facing (token :: rest))
          = .ok (some token) (context.facing rest) :=
    accept?_of_kind (List.mem_singleton.1 found) proper
  have missing {kind : TokenKind} (token : Token) (rest : List Token)
      (other : token.kind ∉ [kind])
      : accept? kind (context.facing (token :: rest))
          = .ok none (context.facing (token :: rest)) :=
    accept?_of_other fun same => other (List.mem_singleton.2 same)
  have conjunction {tokens : List Token} {value : SourceExpr}
      (derived : LogicAnd inner commas tokens value)
      : Reads (logicAnd rules) context tokens (Stops 7 commas) value :=
    Chain.reads (fun single => Comma.reads complete single context enabled) (taken (by decide))
      missing (by cases commas <;> decide) (by cases commas <;> decide) derived
  exact Chain.reads conjunction (taken (by decide)) missing
    (by cases commas <;> decide) (by cases commas <;> decide) derived

-----
-- Assignments

/-- A target read as an expression in front of an equals sign becomes an assignment. -/
theorem assignmentFrom_run (complete : rules.Complete inner) {target assigned : SourceExpr}
    (derived : LogicOr inner commas tokens target) {context : Cursor}
    (enabled : context.commaEnabled = commas) {equals first : Token} (token : Token)
    {bound others rest : List Token} (assigns : equals.kind = .equal)
    (read
      : assignmentFrom rules bound (context.facing (others ++ first :: rest))
          = .ok assigned (context.facing (first :: rest)))
    : assignmentFrom rules (token :: bound)
          (context.facing (tokens ++ equals :: (others ++ first :: rest)))
        = assignmentTo target equals assigned (context.facing (first :: rest)) := by
  have assigning : Stops 8 commas .equal := by cases commas <;> decide
  refine (bind_of_ok (derived.reads complete context enabled _ _ (assigns ▸ assigning))).trans ?_
  refine (bind_of_ok (accept?_of_kind assigns (by decide))).trans ?_
  exact bind_of_ok read

/-- Assignments in a row are read, by induction on them. -/
theorem Assignment.reads_from (complete : rules.Complete inner)
    (derived : Assignment inner commas tokens value) (context : Cursor)
    (enabled : context.commaEnabled = commas) {bound : List Token}
    (enough : tokens.length ≤ bound.length)
    : Reads (assignmentFrom rules bound) context tokens (Stops 9 commas) value := by
  induction derived generalizing bound with
  | logic operand =>
      intro first rest stops
      have read := operand.reads complete context enabled first rest (stops.tighter (by decide))
      have noEqual : first.kind ≠ .equal := stops.ne (by simp [looseness])
      cases bound with
      | nil => exact read
      | cons _ bound => exact (bind_of_ok read).trans (bind_of_ok (accept?_of_other noEqual))
  | name named assigns assigned ih =>
      intro first rest stops
      cases bound with
      | nil => simp at enough
      | cons token bound =>
          have shorter := Nat.le_of_succ_le (Nat.le_of_succ_le_succ enough)
          exact assignmentFrom_run complete (Call.logicOr (.primary (.identifier named))) enabled
            token assigns (ih shorter first rest stops)
  | @property front object dot name equals tokens value owner dotted named assigns assigned ih =>
      intro first rest stops
      simp only [List.length_append, List.length_cons] at enough
      cases bound with
      | nil => simp at enough
      | cons token bound =>
          have shorter : tokens.length ≤ bound.length := by
            simp only [List.length_cons] at enough
            omega
          have run := assignmentFrom_run complete (Call.logicOr (.get owner dotted named)) enabled
            token assigns (ih shorter first rest stops)
          simp only [List.append_assoc, List.cons_append, List.nil_append] at run ⊢
          exact run

/-- An expression of the grammar is read. -/
theorem Assignment.reads (complete : rules.Complete inner)
    (derived : Assignment inner commas tokens value) (context : Cursor)
    (enabled : context.commaEnabled = commas)
    : Reads (expression rules) context tokens (Stops 9 commas) value := by
  intro first rest stops
  refine (get_bind _).trans ?_
  exact derived.reads_from complete context enabled (by simp [Cursor.facing]) first rest stops

end Levels

end Lox.Grammar
