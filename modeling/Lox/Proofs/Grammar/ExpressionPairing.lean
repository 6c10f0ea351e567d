import Lox.Proofs.Grammar.Pairing

/-! The rules for expressions run alike wherever the rules for the parts of expressions do.

Loops may be allowed different numbers of rounds in the two runs, as long as each has a round for
every token that is ahead of it. What is nested needs to run alike only behind the token that it is
nested in.
-/

namespace Lox.Grammar

-----
-- What expressions take

/-- An expression never ends in a semicolon, and a function literal has a body. -/
structure Finishes (tokens : List Token) (value : SourceExpr) : Prop where
  ends : Ends (· ≠ .semicolon) tokens
  braced : isFunctionLiteral (some value) = true → ∃ brace ∈ tokens, brace.kind = .leftBrace

/-- More tokens in front do not change how an expression finishes. -/
theorem Finishes.behind {tokens : List Token} {value : SourceExpr}
    (finishes : Finishes tokens value) (front : List Token)
    : Finishes (front ++ tokens) value := by
  refine ⟨finishes.ends.append front, fun literal => ?_⟩
  obtain ⟨brace, member, opens⟩ := finishes.braced literal
  exact ⟨brace, List.mem_append_right _ member, opens⟩

/-- What is no function literal only has to end. -/
theorem Finishes.plain {tokens : List Token} {value : SourceExpr}
    (ends : Ends (· ≠ .semicolon) tokens) (plain : isFunctionLiteral (some value) = false)
    : Finishes tokens value :=
  ⟨ends, fun literal => absurd literal (by simp [plain])⟩

structure Operand (tokens : List Token) (value : SourceExpr) : Prop
    extends Finishes tokens value where
  starts : Starts (startsExpression ·) tokens

/-- What every rule for expressions takes. -/
abbrev TakesOperand (tokens : List Token) (value : SourceExpr) (_ : Cursor) : Prop :=
  Operand tokens value

/-- An operand goes on through further tokens, unless it becomes a function literal by them. -/
theorem Operand.append {tokens others : List Token} {value result : SourceExpr}
    (front : Operand tokens value) (ends : Ends (· ≠ .semicolon) others)
    (literal : isFunctionLiteral (some result) = true → isFunctionLiteral (some value) = true)
    : Operand (tokens ++ others) result := by
  refine ⟨⟨ends.append tokens, fun function => ?_⟩, front.starts.append others⟩
  obtain ⟨brace, member, opens⟩ := front.braced (literal function)
  exact ⟨brace, List.mem_append_left _ member, opens⟩

/-- An operand that is a single token. -/
theorem Operand.single {token : Token} {value : SourceExpr} {kind : TokenKind}
    (found : token.kind = kind) (starts : startsExpression kind = true)
    (plain : isFunctionLiteral (some value) = false)
    : Operand [token] value := by
  refine ⟨.plain (.singleton ?_) plain, ⟨token, [], rfl, found ▸ starts⟩⟩
  exact startsExpression_ne (found ▸ starts) rfl

namespace Pairing

/-- What expressions are made of runs alike in places with fewer tokens ahead than the limit. -/
structure Parts (pairing : Pairing) (limit : Nat) (rules rules' : Rules) : Prop where
  expression
    : ∀ {before before'},
        before.ahead.length ≤ limit
        → pairing.Alike rules.expression rules'.expression before before' TakesOperand
  body
    : ∀ {before before' brace between between'},
        pairing.related before before'
        → pairing.Step before before' [brace] between between'
        → brace.kind = .leftBrace
        → between.ahead.length < limit
        → pairing.Alike (functionBody rules) (functionBody rules') between between'
            (fun tokens _ _ => Ends (· = .rightBrace) tokens)

section

variable {pairing : Pairing} {limit : Nat} {rules rules' : Rules} {before before' : Cursor}

/-- Every pairing crosses operators. -/
theorem crosses_all {kinds : List TokenKind}
    (inside : ∀ kind ∈ kinds, kind ≠ .endOfInput ∧ kind ≠ .semicolon)
    : ∀ kind ∈ kinds, pairing.Crosses kind :=
  fun kind member => crosses (inside kind member)

/-- A step never goes back. -/
theorem Step.shorter {tokens : List Token} {between between' : Cursor}
    (step : pairing.Step before before' tokens between between')
    : between.ahead.length ≤ before.ahead.length
      ∧ between'.ahead.length ≤ before'.ahead.length := by
  have length := step.passes.length
  have length' := step.passes'.length
  omega

/-- Behind a token that was taken there are fewer tokens ahead in both runs. -/
theorem Step.strictly {tokens : List Token} {between between' : Cursor}
    (step : pairing.Step before before' tokens between between') (some : tokens ≠ [])
    : between.ahead.length < before.ahead.length
      ∧ between'.ahead.length < before'.ahead.length := by
  have length := step.passes.length
  have length' := step.passes'.length
  have positive := List.length_pos_iff.2 some
  omega

-----
-- Chains

section Chains

variable {operator? : Rule (Option Token)} {operand operand' : Rule SourceExpr}
  {combine : SourceExpr → Token → SourceExpr → SourceExpr}

/-- A chain of operands is alike on both sides, by induction on the tokens that bound the loop. -/
theorem alike_chainFrom
    (operators
      : ∀ {before before'},
          pairing.Alike operator? operator? before before' fun tokens operator _ =>
            tokens = operator.toList)
    (operands
      : ∀ {before before'},
          before.ahead.length ≤ limit
          → pairing.Alike operand operand' before before' TakesOperand)
    (plain : ∀ left operator right, isFunctionLiteral (some (combine left operator right)) = false)
    (left : SourceExpr) (bound bound' : List Token) (within : before.ahead.length ≤ limit)
    (enough : before.ahead.length ≤ bound.length)
    (enough' : before'.ahead.length ≤ bound'.length)
    : pairing.Alike (chainFrom operator? operand combine left bound)
        (chainFrom operator? operand' combine left bound') before before'
        fun tokens value _ => ∀ front, Operand front left → Operand (front ++ tokens) value := by
  induction bound generalizing left bound' before before' with
  | nil => exact .no_rounds enough
  | cons _ bound ih =>
      cases bound' with
      | nil => exact .no_rounds' enough'
      | cons _ bound' =>
          refine operators.bind fun operator step taken => ?_
          cases operator with
          | none => exact .pure_of fun front held => by simpa [taken] using held
          | some operator =>
              obtain rfl := taken
              obtain ⟨fewer, fewer'⟩ := step.strictly (List.cons_ne_nil _ _)
              refine (operands (by omega)).bind fun right behind read => ?_
              obtain ⟨shorter, shorter'⟩ := behind.shorter
              simp only [List.length_cons] at enough enough'
              refine
                (ih (combine left operator right) bound' (by omega) (by omega) (by omega)).weaken
                  fun others value _ goOn front held => ?_
              have joined : Operand (front ++ (operator :: _)) (combine left operator right) :=
                held.append (read.ends.cons operator) fun literal => by
                  rw [plain] at literal
                  contradiction
              simpa using goOn _ joined

/-- Operands joined by operators are alike on both sides if each operand is. -/
theorem alike_chain
    (operators
      : ∀ {before before'},
          pairing.Alike operator? operator? before before' fun tokens operator _ =>
            tokens = operator.toList)
    (operands
      : ∀ {before before'},
          before.ahead.length ≤ limit
          → pairing.Alike operand operand' before before' TakesOperand)
    (plain : ∀ left operator right, isFunctionLiteral (some (combine left operator right)) = false)
    (within : before.ahead.length ≤ limit)
    : pairing.Alike (chain operator? operand combine) (chain operator? operand' combine)
        before before' TakesOperand := by
  refine (operands within).bind fun left step read => .get ?_
  obtain ⟨shorter, -⟩ := step.shorter
  refine (alike_chainFrom operators operands plain left _ _ (by omega) (Nat.le_refl _)
    (Nat.le_refl _)).weaken fun tokens value _ goOn => ?_
  exact goOn _ read

/-- Trying an operator is alike on both sides and reads it if it is there. -/
theorem alike_operator? (kinds : List TokenKind)
    (inside : ∀ kind ∈ kinds, kind ≠ .endOfInput ∧ kind ≠ .semicolon)
    : pairing.Alike (acceptAny? kinds) (acceptAny? kinds) before before' fun tokens operator _ =>
        tokens = operator.toList := by
  refine (alike_acceptAny? kinds (crosses_all inside)).weaken fun tokens operator _ tried => ?_
  cases operator with
  | none | some operator => exact tried.1

/-- Trying the comma operator is alike on both sides and reads it if it is there. -/
theorem alike_commaOperator?
    : pairing.Alike commaOperator? commaOperator? before before' fun tokens operator _ =>
        tokens = operator.toList := by
  refine .of_related fun related => .get ?_
  rw [pairing.commaEnabled related]
  split
  · exact alike_operator? [.comma] (by decide)
  · exact .pure_of rfl

end Chains

-----
-- Operands

/-- The body behind an arrow is alike on both sides and ends with its brace. -/
theorem alike_arrowBody (parts : pairing.Parts limit rules rules') (parameters : List Token)
    (within : before.ahead.length ≤ limit)
    : pairing.Alike (arrowBody rules parameters) (arrowBody rules' parameters) before before'
        fun tokens value _ => Finishes tokens value := by
  refine .of_related fun related => ?_
  refine (alike_expect .leftBrace .arrowBody (crosses (by decide))).bind fun brace step opens => ?_
  obtain ⟨rfl, opens⟩ := opens
  obtain ⟨fewer, -⟩ := step.strictly (List.cons_ne_nil _ _)
  refine (parts.body related step opens (by omega)).bind fun body _ closes => .pure_of ?_
  rw [List.append_nil]
  refine ⟨(closes.imp ?_).append _, fun _ => ⟨brace, by simp, opens⟩⟩
  rintro _ rfl
  decide

/-- Behind an opening parenthesis. -/
theorem alike_groupOrArrow (parts : pairing.Parts limit rules rules')
    (within : before.ahead.length ≤ limit)
    : pairing.Alike (groupOrArrow rules) (groupOrArrow rules') before before'
        fun tokens value _ => Finishes tokens value := by
  refine (alike_accept .rightParen (crosses (by decide))).bind fun empty step _ => ?_
  obtain ⟨shorter, -⟩ := step.shorter
  cases empty with
  | true =>
      refine (alike_expect .arrow .arrow (crosses (by decide))).bind fun arrow behind _ => ?_
      obtain ⟨shorter, -⟩ := behind.shorter
      exact (alike_arrowBody parts [] (by omega)).weaken fun tokens value _ body =>
        (body.behind _).behind _
  | false =>
      refine (alike_withComma true fun same _ => (parts.expression (by rw [same]; omega)).weaken
        fun _ _ _ read _ => read).bind fun inner behind _ => ?_
      obtain ⟨shorter, -⟩ := behind.shorter
      refine (alike_expect .rightParen .groupEnd (crosses (by decide))).bind
        fun closing beyond closes => ?_
      obtain ⟨shorter, -⟩ := beyond.shorter
      refine (alike_accept? .arrow (crosses (by decide))).bind fun arrow toBody tried => ?_
      obtain ⟨shorter, -⟩ := toBody.shorter
      cases arrow with
      | none =>
          obtain ⟨rfl, closes⟩ := closes
          obtain ⟨rfl, -⟩ := tried
          have closed : Ends (· ≠ .semicolon) [closing] := .singleton (closes ▸ by decide)
          refine .pure_of (.plain ?_ rfl)
          simpa using (closed.append _).append _
      | some arrow =>
          cases parameterNames? inner with
          | none => exact alike_fail _ _ nofun
          | some parameters =>
              refine (alike_checkNames arrow parameters).bind fun _ last _ => ?_
              obtain ⟨shorter, -⟩ := last.shorter
              exact (alike_arrowBody parts parameters (by omega)).weaken fun tokens value _ body =>
                ((((body.behind _).behind _).behind _).behind _).behind _

/-- A token taken for a value is alike on both sides. -/
theorem alike_takeAs (value : SourceExpr) (crosses : pairing.Crosses before.next.kind)
    : pairing.Alike (takeAs value) (takeAs value) before before'
        fun tokens result _ => tokens = [before.next] ∧ result = value :=
  (alike_drop crosses).bind fun _ _ taken => .pure_of ⟨by simpa using taken, rfl⟩

/-- The method behind `super` is alike on both sides. -/
theorem alike_superMethod (keyword : Token)
    : pairing.Alike (superMethod keyword) (superMethod keyword) before before'
        fun tokens value _ => Finishes tokens value := by
  refine (alike_expect .dot .superMember (crosses (by decide))).bind fun dot _ _ => ?_
  refine (alike_expect .identifier .superMethodName (crosses (by decide))).bind
    fun method _ named => .pure_of (.plain ?_ rfl)
  obtain ⟨rfl, named⟩ := named
  have closed : Ends (· ≠ .semicolon) [method] := .singleton (named ▸ by decide)
  simpa using closed.append _

/-- An operand is alike on both sides, by cases on its first token. -/
theorem alike_primary (parts : pairing.Parts limit rules rules')
    (within : before.ahead.length ≤ limit + 1)
    : pairing.Alike (primary rules) (primary rules') before before' TakesOperand := by
  refine .of_related fun related => .next ?_
  have single {kind : TokenKind} {value : SourceExpr} (found : before.next.kind = kind)
      (starts : startsExpression kind = true)
      (plain : isFunctionLiteral (some value) = false)
      (inside : kind ≠ .endOfInput ∧ kind ≠ .semicolon)
      : pairing.Alike (takeAs value) (takeAs value) before before' TakesOperand := by
    refine (alike_takeAs value (found ▸ crosses inside)).weaken fun tokens result _ taken => ?_
    obtain ⟨rfl, rfl⟩ := taken
    exact .single found starts plain
  have dropped {kind : TokenKind} {rule rule' : Rule SourceExpr}
      (found : before.next.kind = kind) (starts : startsExpression kind = true)
      (inside : kind ≠ .endOfInput ∧ kind ≠ .semicolon)
      (alike
        : ∀ {between between'},
            between.ahead.length ≤ limit
            → pairing.Alike rule rule' between between' fun tokens value _ => Finishes tokens value)
      : pairing.Alike (do modify Cursor.drop; rule) (do modify Cursor.drop; rule') before before'
          TakesOperand := by
    refine (alike_drop (found ▸ crosses inside)).bind fun _ step taken => ?_
    subst taken
    obtain ⟨fewer, -⟩ := step.strictly (List.cons_ne_nil _ _)
    exact (alike (by omega)).weaken fun tokens value _ finishes =>
      ⟨finishes.behind _, ⟨before.next, tokens, rfl, found ▸ starts⟩⟩
  generalize kind : before.next.kind = found
  cases found with
  | falseWord | trueWord | nilWord | number | string | thisWord | identifier =>
      exact single kind rfl rfl (by decide)
  | superWord => exact dropped kind rfl (by decide) fun _ => alike_superMethod _
  | leftParen => exact dropped kind rfl (by decide) (alike_groupOrArrow parts)
  | _ => exact alike_fail _ _ nofun

-----
-- Calls

/-- Every argument but the last has a comma behind it, so the rounds suffice in both runs. -/
theorem alike_argumentsFrom (parts : pairing.Parts limit rules rules') (earlier : Nat)
    (bound bound' : List Token) (within : before.ahead.length ≤ limit)
    (enough : before.ahead.length ≤ bound.length)
    (enough' : before'.ahead.length ≤ bound'.length)
    : pairing.Alike (argumentsFrom rules earlier bound) (argumentsFrom rules' earlier bound')
        before before' fun _ _ _ => True := by
  induction bound generalizing earlier bound' before before' with
  | nil => exact .no_rounds enough
  | cons _ bound ih =>
      cases bound' with
      | nil => exact .no_rounds' enough'
      | cons _ bound' =>
          simp only [List.length_cons] at enough enough'
          refine (alike_checkRoom earlier .tooManyArguments nofun).bind fun _ step _ => ?_
          obtain ⟨shorter, shorter'⟩ := step.shorter
          refine (parts.expression (by omega)).bind fun argument behind _ => ?_
          obtain ⟨shorter, shorter'⟩ := behind.shorter
          refine (alike_accept .comma (crosses (by decide))).bind fun more beyond accepted => ?_
          cases more with
          | false => exact .pure_of trivial
          | true =>
              obtain ⟨comma, rfl, -⟩ := accepted
              obtain ⟨fewer, fewer'⟩ := beyond.strictly (List.cons_ne_nil _ _)
              exact (ih (earlier + 1) bound' (by omega) (by omega) (by omega)).bind fun _ _ _ =>
                .pure_of trivial

/-- Arguments are alike on both sides. -/
theorem alike_arguments (parts : pairing.Parts limit rules rules')
    (within : before.ahead.length ≤ limit)
    : pairing.Alike (arguments rules) (arguments rules') before before' fun _ _ _ => True := by
  refine .nextIs fun closes _ => ?_
  cases closes with
  | true => exact .pure_of trivial
  | false =>
      refine alike_withComma false fun same same' => .get ?_
      exact (alike_argumentsFrom parts 0 _ _ (by rw [same]; omega) (Nat.le_refl _)
        (Nat.le_refl _)).weaken fun _ _ _ _ _ => trivial

/-- The arguments of a call and their parenthesis are alike on both sides. -/
theorem alike_callEnd (parts : pairing.Parts limit rules rules') (callee : SourceExpr)
    (within : before.ahead.length ≤ limit)
    : pairing.Alike (callEnd rules callee) (callEnd rules' callee) before before'
        fun tokens value _ => Finishes tokens value := by
  refine (alike_arguments parts within).bind fun values _ _ => ?_
  refine (alike_expect .rightParen .argumentsEnd (crosses (by decide))).bind
    fun closing _ closes => .pure_of (.plain ?_ rfl)
  obtain ⟨rfl, closes⟩ := closes
  have closed : Ends (· ≠ .semicolon) [closing] := .singleton (closes ▸ by decide)
  simpa using closed.append _

/-- Calls and property reads in a row are alike on both sides, by induction on the tokens that bound
the loop. -/
theorem alike_callFrom (parts : pairing.Parts limit rules rules') (callee : SourceExpr)
    (bound bound' : List Token) (within : before.ahead.length ≤ limit + 1)
    (enough : before.ahead.length ≤ bound.length)
    (enough' : before'.ahead.length ≤ bound'.length)
    : pairing.Alike (callFrom rules callee bound) (callFrom rules' callee bound') before before'
        fun tokens value _ => ∀ front, Operand front callee → Operand (front ++ tokens) value := by
  induction bound generalizing callee bound' before before' with
  | nil => exact .no_rounds enough
  | cons _ bound ih =>
      cases bound' with
      | nil => exact .no_rounds' enough'
      | cons _ bound' =>
          simp only [List.length_cons] at enough enough'
          refine (alike_accept .leftParen (crosses (by decide))).bind fun called step accepted => ?_
          cases called with
          | true =>
              obtain ⟨opening, rfl, -⟩ := accepted
              obtain ⟨fewer, fewer'⟩ := step.strictly (List.cons_ne_nil _ _)
              refine (alike_callEnd parts callee (by omega)).bind fun call behind passed => ?_
              obtain ⟨shorter, shorter'⟩ := behind.shorter
              refine (ih call bound' (by omega) (by omega) (by omega)).weaken
                fun others value _ goOn front held => ?_
              have joined : Operand (front ++ ([opening] ++ _)) call :=
                ⟨(passed.behind _).behind _, held.starts.append _⟩
              simpa using goOn _ joined
          | false =>
              obtain ⟨rfl, -⟩ := accepted
              obtain ⟨shorter, shorter'⟩ := step.shorter
              refine (alike_accept .dot (crosses (by decide))).bind fun dotted behind accepted => ?_
              cases dotted with
              | true =>
                  obtain ⟨dot, rfl, -⟩ := accepted
                  obtain ⟨fewer, fewer'⟩ := behind.strictly (List.cons_ne_nil _ _)
                  refine (alike_expect .identifier .propertyName (crosses (by decide))).bind
                    fun name beyond named => ?_
                  obtain ⟨shorter, shorter'⟩ := beyond.shorter
                  obtain ⟨rfl, named⟩ := named
                  refine (ih (.get callee name) bound' (by omega) (by omega) (by omega)).weaken
                    fun others value _ goOn front held => ?_
                  have ends : Ends (· ≠ .semicolon) [dot, name] :=
                    (Ends.singleton (named ▸ by decide)).cons dot
                  have joined : Operand (front ++ [dot, name]) (.get callee name) :=
                    held.append ends nofun
                  simpa using goOn _ joined
              | false =>
                  obtain ⟨rfl, -⟩ := accepted
                  exact .pure_of fun front held => by simpa using held

/-- A call is alike on both sides. -/
theorem alike_call (parts : pairing.Parts limit rules rules')
    (within : before.ahead.length ≤ limit + 1)
    : pairing.Alike (call rules) (call rules') before before' TakesOperand := by
  refine (alike_primary parts within).bind fun callee step read => .get ?_
  obtain ⟨shorter, -⟩ := step.shorter
  exact (alike_callFrom parts callee _ _ (by omega) (Nat.le_refl _) (Nat.le_refl _)).weaken
    fun tokens value _ goOn => goOn _ read

-----
-- Levels

/-- Operators in front of an operand are alike on both sides, by induction on the tokens that bound
the loop. -/
theorem alike_unaryFrom (parts : pairing.Parts limit rules rules') (bound bound' : List Token)
    (within : before.ahead.length ≤ limit + 1) (enough : before.ahead.length ≤ bound.length)
    (enough' : before'.ahead.length ≤ bound'.length)
    : pairing.Alike (unaryFrom rules bound) (unaryFrom rules' bound') before before'
        TakesOperand := by
  induction bound generalizing bound' before before' with
  | nil => exact .no_rounds enough
  | cons _ bound ih =>
      cases bound' with
      | nil => exact .no_rounds' enough'
      | cons _ bound' =>
          simp only [List.length_cons] at enough enough'
          refine (alike_acceptAny? [.bang, .minus] (crosses_all (by decide))).bind
            fun operator step tried => ?_
          cases operator with
          | none =>
              obtain ⟨rfl, -⟩ := tried
              obtain ⟨shorter, -⟩ := step.shorter
              exact alike_call parts (by omega)
          | some operator =>
              obtain ⟨rfl, negates⟩ := tried
              obtain ⟨fewer, fewer'⟩ := step.strictly (List.cons_ne_nil _ _)
              refine (ih bound' (by omega) (by omega) (by omega)).bind fun operand _ read =>
                .pure_of ⟨.plain ?_ rfl, ?_⟩
              · simpa using read.ends.cons operator
              · have starts : startsExpression operator.kind = true := by
                  revert negates
                  generalize operator.kind = kind
                  cases kind <;> simp [startsExpression]
                exact ⟨operator, _, rfl, starts⟩

/-- A unary expression is alike on both sides. -/
theorem alike_unary (parts : pairing.Parts limit rules rules')
    (within : before.ahead.length ≤ limit + 1)
    : pairing.Alike (unary rules) (unary rules') before before' TakesOperand :=
  .get (alike_unaryFrom parts _ _ within (Nat.le_refl _) (Nat.le_refl _))

/-- A product is alike on both sides. -/
theorem alike_factor (parts : pairing.Parts limit rules rules')
    (within : before.ahead.length ≤ limit + 1)
    : pairing.Alike (factor rules) (factor rules') before before' TakesOperand :=
  alike_chain (alike_operator? _ (by decide)) (alike_unary parts) (fun _ _ _ => rfl) within

/-- A sum is alike on both sides. -/
theorem alike_term (parts : pairing.Parts limit rules rules')
    (within : before.ahead.length ≤ limit + 1)
    : pairing.Alike (term rules) (term rules') before before' TakesOperand :=
  alike_chain (alike_operator? _ (by decide)) (alike_factor parts) (fun _ _ _ => rfl) within

/-- A comparison is alike on both sides. -/
theorem alike_comparison (parts : pairing.Parts limit rules rules')
    (within : before.ahead.length ≤ limit + 1)
    : pairing.Alike (comparison rules) (comparison rules') before before' TakesOperand :=
  alike_chain (alike_operator? _ (by decide)) (alike_term parts) (fun _ _ _ => rfl) within

/-- An equality is alike on both sides. -/
theorem alike_equality (parts : pairing.Parts limit rules rules')
    (within : before.ahead.length ≤ limit + 1)
    : pairing.Alike (equality rules) (equality rules') before before' TakesOperand :=
  alike_chain (alike_operator? _ (by decide)) (alike_comparison parts) (fun _ _ _ => rfl) within

/-- A conditional expression is alike on both sides. -/
theorem alike_conditional (parts : pairing.Parts limit rules rules')
    (within : before.ahead.length ≤ limit + 1)
    : pairing.Alike (conditional rules) (conditional rules') before before' TakesOperand := by
  refine (alike_equality parts within).bind fun condition step read => ?_
  obtain ⟨shorter, -⟩ := step.shorter
  refine (alike_accept .question (crosses (by decide))).bind fun asked behind accepted => ?_
  obtain ⟨shorter, -⟩ := behind.shorter
  cases asked with
  | false =>
      obtain ⟨rfl, -⟩ := accepted
      exact .pure_of (by simpa using read)
  | true =>
      refine (alike_equality parts (by omega)).bind fun thenCase beyond _ => ?_
      obtain ⟨shorter, -⟩ := beyond.shorter
      refine (alike_expect .colon .elseOperand (crosses (by decide))).bind fun colon last _ => ?_
      obtain ⟨shorter, -⟩ := last.shorter
      refine (alike_equality parts (by omega)).bind fun elseCase _ second => .pure_of ?_
      refine read.append ?_ nofun
      simpa using (((second.ends.append _).append _).append _)

/-- Expressions joined by commas are alike on both sides. -/
theorem alike_comma (parts : pairing.Parts limit rules rules')
    (within : before.ahead.length ≤ limit + 1)
    : pairing.Alike (comma rules) (comma rules') before before' TakesOperand :=
  alike_chain alike_commaOperator? (alike_conditional parts) (fun _ _ _ => rfl) within

/-- A conjunction is alike on both sides. -/
theorem alike_logicAnd (parts : pairing.Parts limit rules rules')
    (within : before.ahead.length ≤ limit + 1)
    : pairing.Alike (logicAnd rules) (logicAnd rules') before before' TakesOperand :=
  alike_chain (alike_operator? [.andWord] (by decide)) (alike_comma parts) (fun _ _ _ => rfl) within

/-- A disjunction is alike on both sides. -/
theorem alike_logicOr (parts : pairing.Parts limit rules rules')
    (within : before.ahead.length ≤ limit + 1)
    : pairing.Alike (logicOr rules) (logicOr rules') before before' TakesOperand :=
  alike_chain (alike_operator? [.orWord] (by decide)) (alike_logicAnd parts) (fun _ _ _ => rfl)
    within

-----
-- Assignments

/-- What is no target is yielded as it is, which may be a function literal. -/
theorem alike_assignmentTo (target : SourceExpr) (equals : Token) (value : SourceExpr)
    : pairing.Alike (assignmentTo target equals value) (assignmentTo target equals value)
        before before' fun tokens result _ =>
          tokens = []
          ∧ (isFunctionLiteral (some result) = true → isFunctionLiteral (some target) = true) := by
  unfold assignmentTo
  split
  · exact .pure_of ⟨rfl, nofun⟩
  · exact .pure_of ⟨rfl, nofun⟩
  · refine (alike_report equals .invalidAssignmentTarget nofun).bind fun _ _ silent => ?_
    exact .pure_of ⟨by simpa using silent, id⟩

/-- Assignments in a row are alike on both sides, by induction on the tokens that bound the loop. -/
theorem alike_assignmentFrom (parts : pairing.Parts limit rules rules')
    (bound bound' : List Token) (within : before.ahead.length ≤ limit + 1)
    (enough : before.ahead.length ≤ bound.length)
    (enough' : before'.ahead.length ≤ bound'.length)
    : pairing.Alike (assignmentFrom rules bound) (assignmentFrom rules' bound') before before'
        TakesOperand := by
  induction bound generalizing bound' before before' with
  | nil => exact .no_rounds enough
  | cons _ bound ih =>
      cases bound' with
      | nil => exact .no_rounds' enough'
      | cons _ bound' =>
          simp only [List.length_cons] at enough enough'
          refine (alike_logicOr parts within).bind fun target step read => ?_
          obtain ⟨shorter, shorter'⟩ := step.shorter
          refine (alike_accept? .equal (crosses (by decide))).bind fun equals behind tried => ?_
          cases equals with
          | none =>
              obtain ⟨rfl, -⟩ := tried
              exact .pure_of (by simpa using read)
          | some equals =>
              obtain ⟨rfl, -⟩ := tried
              obtain ⟨fewer, fewer'⟩ := behind.strictly (List.cons_ne_nil _ _)
              refine (ih bound' (by omega) (by omega) (by omega)).bind
                fun value beyond assigned => ?_
              refine (alike_assignmentTo target equals value).weaken fun tokens result _ taken => ?_
              obtain ⟨rfl, literal⟩ := taken
              refine read.append ?_ literal
              simpa using assigned.ends.cons equals

/-- An expression is alike on both sides. -/
theorem alike_expression (parts : pairing.Parts limit rules rules')
    (within : before.ahead.length ≤ limit + 1)
    : pairing.Alike (expression rules) (expression rules') before before' TakesOperand :=
  .get (alike_assignmentFrom parts _ _ within (Nat.le_refl _) (Nat.le_refl _))

end

end Pairing

end Lox.Grammar
