import Lox.Proofs.Grammar.Contracts
import Lox.Proofs.Grammar.Operands
import Lox.Proofs.Grammar.Trailing

/-! What the rules for expressions take stands in the grammar.

Beside the tree that was read, each level tells how loose the token is that it stopped at: no
operator of the level or of a tighter one is left ahead.
-/

namespace Lox.Grammar

-----
-- Nested rules

/-- What a rule for one level takes: tokens of the level, up to a token that is looser. -/
def TakesLevel (level : Nat) (commas : Bool) (derives : List Token → SourceExpr → Prop)
    (tokens : List Token) (value : SourceExpr) (after : Cursor)
    : Prop :=
  derives tokens value ∧ Past level commas after.next.kind

/-- The statement ends the text without its semicolon. -/
def EndsText (trailing : Trailing) (inLoop : Bool) (tokens : List Token) (statement : SourceStmt)
    (after : Cursor)
    : Prop :=
  after.atEnd = true ∧ ∃ written, trailing inLoop tokens statement written

/-- What the rule for declarations takes in the contexts in which it is used. -/
def TakesDeclaration (inner : Language) (trailing : Trailing) (inLoop : Bool)
    (tokens : List Token) (result : Option SourceStmt) (after : Cursor)
    : Prop :=
  ∃ statement,
    result = some statement
    ∧ ((∃ ending,
          inner.declaration inLoop ending tokens statement
          ∧ (ending = .openLiteral → Policy.greedy (some after.next.kind)))
        ∨ EndsText trailing inLoop tokens statement after)

/-- What the rule for statements takes. An `else` ahead does not belong to the statement. -/
def TakesStatement (inner : Language) (trailing : Trailing) (inLoop : Bool) (tokens : List Token)
    (statement : SourceStmt) (after : Cursor)
    : Prop :=
  (∃ ending,
    inner.statement inLoop ending tokens statement
    ∧ ending ≠ .openLiteral
    ∧ (ending = .openBranch → after.next.kind ≠ .elseWord))
  ∨ EndsText trailing inLoop tokens statement after

/-- Whether a place is inside a loop of its function. -/
def Cursor.inLoop (cursor : Cursor) : Bool :=
  cursor.loopDepth != 0

/-- Nested rules take what the nested language derives. Parameter names are read as an
expression, and recognised afterwards. -/
structure Rules.Sound (rules : Rules) (inner : Language) (trailing : Trailing) : Prop where
  admitsGreedy : ∀ following, Policy.greedy following → inner.policy following
  expression
    : ∀ before : Cursor,
        Meets rules.expression before
          (TakesLevel 9 before.commaEnabled (inner.expression before.commaEnabled))
  names
    : ∀ {tokens value names},
        inner.expression true tokens value
        → parameterNames? value = some names
        → inner.names tokens names
  statement
    : ∀ before : Cursor,
        before.commaEnabled = true
        → Meets rules.statement before (TakesStatement inner trailing before.inLoop)
  declaration
    : ∀ before : Cursor,
        before.commaEnabled = true
        → Meets rules.declaration before (TakesDeclaration inner trailing before.inLoop)
  declarationNonempty
    : ∀ {inLoop ending tokens statement},
        inner.declaration inLoop ending tokens statement → tokens ≠ []
  trailingNonempty
    : ∀ {inLoop tokens printed written}, trailing inLoop tokens printed written → tokens ≠ []

-----
-- Chains

section Chains

variable {operator? : Rule (Option Token)} {operand : Rule SourceExpr}
  {combine : SourceExpr → Token → SourceExpr → SourceExpr} {operators : List TokenKind}
  {derives : List Token → SourceExpr → Prop} {level : Nat} {commas : Bool}

/-- Going on from a left operand takes more operators and operands of the level. Every round
takes an operator at least, so the bound is not reached before an operator is missing. -/
theorem meets_chainFrom
    (operatorMeets
      : ∀ before : Cursor,
          before.commaEnabled = commas → Meets operator? before (TriedAny operators))
    (operandMeets
      : ∀ before : Cursor,
          before.commaEnabled = commas
          → Meets operand before (TakesLevel level commas derives))
    (owns : ∀ kind, looseness commas kind = level + 1 → kind ∈ operators)
    (bound : List Token) (left : SourceExpr) (before : Cursor)
    (context : before.commaEnabled = commas)
    : Meets (chainFrom operator? operand combine left bound) before
        (fun tokens value after =>
          before.ahead.length ≤ bound.length
          → Past level commas before.next.kind
          → Past (level + 1) commas after.next.kind
            ∧ ∀ front,
                Chain derives operators combine front left
                → Chain derives operators combine (front ++ tokens) value) := by
  induction bound generalizing left before with
  | nil => exact .pure_of_no_rounds
  | cons _ bound ih =>
      refine (operatorMeets before context).bind fun operator second toSecond => ?_
      cases operator with
      | none =>
          refine .pure_of ?_
          rintro tokens split ⟨rfl, missing⟩ - loose
          have same := Cursor.next_eq_of_ahead split
          rw [← same] at missing ⊢
          exact ⟨loose.succ missing owns, fun front derived => by simpa using derived⟩
      | some operator =>
          have context2 := toSecond.commaEnabled.trans context
          refine (operandMeets second context2).bind fun right third toThird => ?_
          have context3 := toThird.commaEnabled.trans context2
          refine (ih (combine left operator right) third context3).weaken ?_
          rintro others value after goOn tokens split ⟨derived, loose⟩ - split2 ⟨rfl, joined⟩
            enough -
          have shorter : third.ahead.length ≤ bound.length := by
            have second' := congrArg List.length split
            have first' := congrArg List.length split2
            simp only [List.length_append, List.length_cons, List.length_nil] at *
            omega
          obtain ⟨stops, continues⟩ := goOn shorter loose
          refine ⟨stops, fun front started => ?_⟩
          have longer := continues _ (.more started joined derived)
          simpa using longer

/-- A chain of operands meets the grammar if each operand does. -/
theorem meets_chain
    (operatorMeets
      : ∀ before : Cursor,
          before.commaEnabled = commas → Meets operator? before (TriedAny operators))
    (operandMeets
      : ∀ before : Cursor,
          before.commaEnabled = commas
          → Meets operand before (TakesLevel level commas derives))
    (owns : ∀ kind, looseness commas kind = level + 1 → kind ∈ operators)
    (before : Cursor) (context : before.commaEnabled = commas)
    : Meets (chain operator? operand combine) before
        (TakesLevel (level + 1) commas (Chain derives operators combine)) := by
  refine (operandMeets before context).bind fun left second toSecond => ?_
  have context2 := toSecond.commaEnabled.trans context
  refine .get ((meets_chainFrom operatorMeets operandMeets owns _ left second context2).weaken ?_)
  rintro others value after goOn tokens - ⟨derived, loose⟩
  obtain ⟨stops, continues⟩ := goOn (Nat.le_refl _) loose
  exact ⟨continues tokens (.one derived), stops⟩

end Chains

-----
-- Blocks and function literals

section Nested

variable {rules : Rules} {inner : Language} {trailing : Trailing}

/-- A declaration is admitted before whatever is left, or the block ends there. -/
theorem admits_of_ahead (sound : rules.Sound inner trailing) {ending : Ending}
    {after final : Cursor} {following : List Token} (split : after.ahead = following ++ final.ahead)
    (open_ : ending = .openLiteral → Policy.greedy (some after.next.kind))
    : ending.admits inner.policy following := by
  intro literal
  refine sound.admitsGreedy _ ?_
  cases following with
  | nil => exact Policy.greedy_none
  | cons token rest =>
      have next : after.next = token := by simp [Cursor.next, split]
      simpa [next] using open_ literal

/-- What is read up to a stop: declarations one behind the other, the last of which may end the
text without its semicolon. Where the stop stands ahead there are none. -/
def TakesSequence (inner : Language) (trailing : Trailing) (stop : Cursor → Bool) (before : Cursor)
    (tokens : List Token) (statements : List SourceStmt) (after : Cursor)
    : Prop :=
  (stop before = true → tokens = [] ∧ statements = [])
  ∧ ((Sequence inner.policy (inner.declaration before.inLoop) tokens statements
        ∧ stop after = true)
      ∨ (after.atEnd = true
        ∧ ∃ written,
            TrailingSequence inner.policy (inner.declaration before.inLoop)
              (trailing before.inLoop) tokens statements written))

/-- Declarations are read up to the stop. Every declaration takes a token, so the bound is not
reached before the stop. -/
theorem meets_declarationsUntil (sound : rules.Sound inner trailing) (stop : Cursor → Bool)
    (stopsAtEnd : ∀ cursor : Cursor, cursor.atEnd = true → stop cursor = true)
    (bound : List Token) (before : Cursor) (context : before.commaEnabled = true)
    : Meets (declarationsUntil stop rules.declaration bound) before
        (fun tokens statements after =>
          before.ahead.length ≤ bound.length
          → TakesSequence inner trailing stop before tokens statements after) := by
  induction bound generalizing before with
  | nil => exact .pure_of_no_rounds
  | cons _ bound ih =>
      refine .get ?_
      split
      · next stops => exact .pure_of fun _ => ⟨fun _ => ⟨rfl, rfl⟩, .inl ⟨.nil, stops⟩⟩
      · next goesOn =>
        refine (sound.declaration before context).bind fun first second toSecond => ?_
        have context2 := toSecond.commaEnabled.trans context
        have sameLoop : second.inLoop = before.inLoop := by
          simp [Cursor.inLoop, toSecond.loopDepth]
        refine (ih second context2).bind fun rest third toThird => .pure_of ?_
        rintro others split2 goOn tokens split ⟨statement, rfl, taken⟩ enough
        have shorter (front : tokens ≠ []) : second.ahead.length ≤ bound.length := by
          have front := List.length_pos_iff.2 front
          have whole := congrArg List.length split
          simp only [List.length_append, List.length_cons] at *
          omega
        refine ⟨fun stops => absurd stops goesOn, ?_⟩
        rw [List.append_nil]
        rcases taken with ⟨ending, derived, open_⟩ | ⟨atEnd, written, trails⟩
        · obtain ⟨-, tail⟩ := goOn (shorter (sound.declarationNonempty derived))
          have admitted := admits_of_ahead sound split2 open_
          rw [sameLoop] at tail
          rcases tail with ⟨tail, stops⟩ | ⟨atEnd, written, tail⟩
          · exact .inl ⟨.cons derived admitted tail, stops⟩
          · exact .inr ⟨atEnd, _, .cons derived admitted tail⟩
        -- Behind the end of the text nothing else is read.
        · obtain ⟨none, -⟩ := goOn (shorter (sound.trailingNonempty trails))
          obtain ⟨rfl, rfl⟩ := none (stopsAtEnd second atEnd)
          refine .inr ⟨?_, _, by simpa using TrailingSequence.last trails⟩
          rwa [Cursor.atEnd, ← Cursor.next_eq_of_ahead split2]

/-- Behind an opening brace: declarations and the closing brace. -/
theorem meets_block (sound : rules.Sound inner trailing) (before : Cursor)
    : Meets (block rules) before
        (fun tokens statements _ =>
          ∀ opening : Token,
            opening.kind = .leftBrace
            → Block inner before.inLoop (opening :: tokens) statements) := by
  have declarations
      : Meets (withComma true do declarationsUntil Cursor.atBlockEnd rules.declaration (← get).ahead)
          before
          (fun tokens statements after =>
            Sequence inner.policy (inner.declaration before.inLoop) tokens statements
            ∨ after.atEnd = true) := by
    let inside : Cursor := { before with commaEnabled := true }
    have stopsAtEnd (cursor : Cursor) (atEnd : cursor.atEnd = true) : cursor.atBlockEnd = true := by
      simp [Cursor.atBlockEnd, atEnd]
    refine meets_inContext (takesBack_withComma true) rfl rfl
      (.get (meets_declarationsUntil sound Cursor.atBlockEnd stopsAtEnd inside.ahead inside rfl)) ?_
    intro tokens statements after taken
    exact (taken (Nat.le_refl _)).2.imp And.left And.left
  refine declarations.bind fun statements second _ => ?_
  refine (meets_expect .rightBrace .blockEnd second (by decide)).bind fun closing third _ => ?_
  refine .pure_of ?_
  rintro _ split ⟨rfl, closes⟩ tokens - (derived | atEnd) opening opens
  · simpa using Block.mk opens derived closes
  · exact absurd closes (Cursor.no_token_atEnd atEnd split (by decide))

/-- The body of a function meets the grammar as a block. -/
theorem meets_functionBody (sound : rules.Sound inner trailing) (before : Cursor)
    : Meets (functionBody rules) before
        (fun tokens statements _ =>
          ∀ opening : Token,
            opening.kind = .leftBrace → Block inner false (opening :: tokens) statements) := by
  let inside : Cursor := { before with loopDepth := 0 }
  exact meets_inContext takesBack_outsideLoops rfl rfl (meets_block sound inside)
    fun _ _ _ taken => taken

/-- Behind an arrow: a block. -/
theorem meets_arrowBody (sound : rules.Sound inner trailing) (parameters : List Token)
    (before : Cursor)
    : Meets (arrowBody rules parameters) before
        (fun tokens value _ =>
          ∃ statements,
            value = .function (.mk parameters statements) ∧ Block inner false tokens statements) := by
  refine (meets_expect .leftBrace .arrowBody before (by decide)).bind fun opening second _ => ?_
  refine (meets_functionBody sound second).bind fun statements third _ => .pure_of ?_
  rintro tokens - block _ - ⟨rfl, opens⟩
  exact ⟨statements, rfl, by simpa using block opening opens⟩

/-- Behind an opening parenthesis: a grouping or a function literal. -/
theorem meets_groupOrArrow (sound : rules.Sound inner trailing) (before : Cursor)
    : Meets (groupOrArrow rules) before
        (fun tokens value _ =>
          ∀ opening : Token,
            opening.kind = .leftParen → Primary inner (opening :: tokens) value) := by
  refine (meets_accept .rightParen before (by decide)).bind fun empty second _ => ?_
  cases empty with
  | true =>
      refine (meets_expect .arrow .arrow second (by decide)).bind fun arrow third _ => ?_
      refine (meets_arrowBody sound [] third).weaken ?_
      rintro body _ - ⟨statements, rfl, block⟩ _ - ⟨rfl, points⟩ _ - ⟨closing, rfl, closes⟩
        opening opens
      exact .arrow opens closes points block
  | false =>
      let inside : Cursor := { second with commaEnabled := true }
      have grouped
          : Meets (withComma true rules.expression) second
              (fun tokens value _ => inner.expression true tokens value) :=
        meets_inContext (takesBack_withComma true) rfl rfl (sound.expression inside)
          fun _ _ _ taken => taken.1
      refine grouped.bind fun value third _ => ?_
      refine (meets_expect .rightParen .groupEnd third (by decide)).bind
        fun closing fourth _ => ?_
      refine (meets_accept? .arrow fourth (by decide)).bind fun arrow fifth _ => ?_
      cases arrow with
      | none =>
          refine .pure_of ?_
          rintro _ - ⟨rfl, -⟩ _ - ⟨rfl, closes⟩ tokens - derived _ - ⟨rfl, -⟩ opening opens
          simpa using Primary.group opens derived closes
      | some arrow =>
          cases listed : parameterNames? value with
          | none => exact .fail _ _
          | some names =>
              refine (meets_checkNames arrow names fifth).bind fun _ sixth _ => ?_
              refine (meets_arrowBody sound names sixth).weaken ?_
              rintro body _ - ⟨statements, rfl, block⟩ _ - ⟨rfl, -, few⟩ _ - ⟨rfl, points⟩
                _ - ⟨rfl, closes⟩ tokens - derived _ - ⟨rfl, -⟩ opening opens
              simpa using
                Primary.arrowNames opens (sound.names derived listed) few closes points block

-----
-- Operands and calls

/-- A token taken for a value meets the grammar as an operand. -/
theorem meets_takeAs (value : SourceExpr) (before : Cursor)
    (inside : before.next.kind ≠ .endOfInput) (derived : Primary inner [before.next] value)
    : Meets (takeAs value) before
        (fun tokens result _ => Primary inner tokens result) := by
  refine (meets_drop before inside).bind fun _ second _ => .pure_of ?_
  rintro _ - rfl
  exact derived

/-- An operand meets the grammar, by cases on its first token. -/
theorem meets_primary (sound : rules.Sound inner trailing) (before : Cursor)
    : Meets (primary rules) before (fun tokens value _ => Primary inner tokens value) := by
  refine .next ?_
  have inside {kind : TokenKind} (found : before.next.kind = kind) (proper : kind ≠ .endOfInput)
      : before.next.kind ≠ .endOfInput :=
    found ▸ proper
  split
  · next kind => exact meets_takeAs _ before (inside kind nofun) (.falseWord kind)
  · next kind => exact meets_takeAs _ before (inside kind nofun) (.trueWord kind)
  · next kind => exact meets_takeAs _ before (inside kind nofun) (.nilWord kind)
  · next kind => exact meets_takeAs _ before (inside kind nofun) (.number kind)
  · next kind => exact meets_takeAs _ before (inside kind nofun) (.string kind)
  · next kind => exact meets_takeAs _ before (inside kind nofun) (.this kind)
  · next kind => exact meets_takeAs _ before (inside kind nofun) (.identifier kind)
  · next kind =>
      refine (meets_drop before (inside kind nofun)).bind fun _ second _ => ?_
      refine (meets_expect .dot .superMember second (by decide)).bind fun dot third _ => ?_
      refine (meets_expect .identifier .superMethodName third (by decide)).bind
        fun method fourth _ => .pure_of ?_
      rintro _ - ⟨rfl, named⟩ _ - ⟨rfl, dotted⟩ _ - rfl
      exact .super kind dotted named
  · next kind =>
      refine (meets_drop before (inside kind nofun)).bind fun _ second _ => ?_
      refine (meets_groupOrArrow sound second).weaken ?_
      rintro tokens value - taken _ - rfl
      exact taken _ kind
  · exact .fail _ _

/-- Arguments are read as long as commas follow. Each is followed by a comma or by nothing that
belongs to it. -/
theorem meets_argumentsFrom (sound : rules.Sound inner trailing)
    (earlier : Nat) (bound : List Token) (before : Cursor)
    (context : before.commaEnabled = false)
    : Meets (argumentsFrom rules earlier bound) before
        (fun tokens values _ =>
          before.ahead.length ≤ bound.length
          → ArgumentList inner tokens values
            ∧ earlier + values.length ≤ maxArguments) := by
  induction bound generalizing earlier before with
  | nil => exact .pure_of_no_rounds
  | cons _ bound ih =>
      refine (meets_checkRoom earlier _ before).bind fun _ second toSecond => ?_
      have context2 := toSecond.commaEnabled.trans context
      refine (sound.expression second).bind fun argument third toThird => ?_
      rw [context2]
      have context3 := toThird.commaEnabled.trans context2
      refine (meets_accept .comma third (by decide)).bind fun more fourth toFourth => ?_
      cases more with
      | false =>
          refine .pure_of ?_
          rintro _ - ⟨rfl, -⟩ tokens - ⟨derived, -⟩ _ - ⟨rfl, -, room⟩ -
          exact ⟨by simpa using ArgumentList.last derived, room⟩
      | true =>
          have context4 := toFourth.commaEnabled.trans context3
          refine (ih (earlier + 1) fourth context4).bind fun others fifth _ => .pure_of ?_
          rintro rest - goOn _ split ⟨separator, rfl, separates⟩ tokens split2 ⟨derived, -⟩
            _ - ⟨rfl, rfl, room⟩ enough
          have shorter : fourth.ahead.length ≤ bound.length := by
            have front := congrArg List.length split2
            have back := congrArg List.length split
            simp only [List.length_append, List.length_cons, List.length_nil] at *
            omega
          obtain ⟨listed, few⟩ := goOn shorter
          refine ⟨by simpa using ArgumentList.more derived separates listed, ?_⟩
          simp only [List.length_cons]
          omega

/-- Arguments meet the grammar. -/
theorem meets_arguments (sound : rules.Sound inner trailing) (before : Cursor)
    : Meets (arguments rules) before
        (fun tokens values _ => Arguments inner tokens values) := by
  refine .nextIs ?_
  split
  · exact .pure_of .none
  · let inside : Cursor := { before with commaEnabled := false }
    refine meets_inContext (takesBack_withComma false) rfl rfl
      (.get (meets_argumentsFrom sound 0 inside.ahead inside rfl)) ?_
    intro tokens values after taken
    obtain ⟨listed, few⟩ := taken (Nat.le_refl _)
    exact .some listed (by omega)

/-- Behind the opening parenthesis of a call. -/
theorem meets_callEnd (sound : rules.Sound inner trailing) (callee : SourceExpr) (before : Cursor)
    : Meets (callEnd rules callee) before
        (fun tokens value _ =>
          ∀ front opening,
            Call inner front callee
            → opening.kind = .leftParen
            → Call inner (front ++ opening :: tokens) value) := by
  refine (meets_arguments sound before).bind fun values second _ => ?_
  refine (meets_expect .rightParen .argumentsEnd second (by decide)).bind
    fun closing third _ => .pure_of ?_
  rintro _ - ⟨rfl, closes⟩ tokens - passed front opening called opens
  simpa using Call.call called opens passed closes

/-- Calls and property reads meet the grammar, by induction on the tokens that bound the loop. -/
theorem meets_callFrom (sound : rules.Sound inner trailing) (callee : SourceExpr)
    (bound : List Token) (before : Cursor)
    : Meets (callFrom rules callee bound) before
        (fun tokens value after =>
          before.ahead.length ≤ bound.length
          → Past 0 before.commaEnabled after.next.kind
            ∧ ∀ front, Call inner front callee → Call inner (front ++ tokens) value) := by
  induction bound generalizing callee before with
  | nil => exact .pure_of_no_rounds
  | cons _ bound ih =>
      refine (meets_accept .leftParen before (by decide)).bind fun called second toSecond => ?_
      cases called with
      | true =>
          refine (meets_callEnd sound callee second).bind fun value third toThird => ?_
          refine (ih value third).weaken ?_
          rintro others result after goOn tokens split2 extend _ split ⟨opening, rfl, opens⟩ enough
          have shorter : third.ahead.length ≤ bound.length := by
            have front := congrArg List.length split
            have back := congrArg List.length split2
            simp only [List.length_append, List.length_cons, List.length_nil] at *
            omega
          obtain ⟨stops, continues⟩ := goOn shorter
          rw [toThird.commaEnabled, toSecond.commaEnabled] at stops
          refine ⟨stops, fun front started => ?_⟩
          simpa using continues _ (extend front opening started opens)
      | false =>
          refine (meets_accept .dot second (by decide)).bind fun dotted third toThird => ?_
          cases dotted with
          | true =>
              refine (meets_expect .identifier .propertyName third (by decide)).bind
                fun name fourth toFourth => ?_
              refine (ih (.get callee name) fourth).weaken ?_
              rintro others result after goOn _ split3 ⟨rfl, named⟩ _ split2 ⟨dot, rfl, dotted⟩
                _ split ⟨rfl, -⟩ enough
              have shorter : fourth.ahead.length ≤ bound.length := by
                have first := congrArg List.length split
                have second := congrArg List.length split2
                have third := congrArg List.length split3
                simp only [List.length_append, List.length_cons, List.length_nil] at *
                omega
              obtain ⟨stops, continues⟩ := goOn shorter
              rw [toFourth.commaEnabled, toThird.commaEnabled, toSecond.commaEnabled] at stops
              refine ⟨stops, fun front started => ?_⟩
              simpa using continues _ (.get started dotted named)
          | false =>
              refine .pure_of ?_
              rintro _ split2 ⟨rfl, notDot⟩ _ split ⟨rfl, notParen⟩ enough
              have same := Cursor.next_eq_of_ahead split2
              rw [same] at notParen
              refine ⟨?_, fun front started => by simpa using started⟩
              refine .inr (Nat.pos_of_ne_zero fun tight => ?_)
              revert tight notDot notParen
              generalize third.next.kind = kind
              cases kind <;> simp [looseness]
              all_goals split <;> simp

/-- A call meets the grammar. -/
theorem meets_call (sound : rules.Sound inner trailing) (before : Cursor)
    : Meets (call rules) before
        (TakesLevel 0 before.commaEnabled (Call inner)) := by
  refine (meets_primary sound before).bind fun callee second toSecond => ?_
  refine .get ((meets_callFrom sound callee second.ahead second).weaken ?_)
  rintro others value after goOn tokens - operand
  obtain ⟨stops, continues⟩ := goOn (Nat.le_refl _)
  rw [toSecond.commaEnabled] at stops
  exact ⟨continues tokens (.primary operand), stops⟩

-----
-- Levels

/-- Operators in front of an operand meet the grammar, by induction on the tokens that bound the
loop. -/
theorem meets_unaryFrom (sound : rules.Sound inner trailing) (bound : List Token) (before : Cursor)
    : Meets (unaryFrom rules bound) before
        (TakesLevel 0 before.commaEnabled (Unary inner)) := by
  have operand (before : Cursor)
      : Meets (call rules) before (TakesLevel 0 before.commaEnabled (Unary inner)) :=
    (meets_call sound before).weaken fun _ _ _ taken => ⟨.call taken.1, taken.2⟩
  induction bound generalizing before with
  | nil => exact operand before
  | cons _ bound ih =>
      refine (meets_acceptAny? [.bang, .minus] before (by decide)).bind
        fun operator second toSecond => ?_
      cases operator with
      | none =>
          refine (operand second).weaken ?_
          rintro tokens value after ⟨derived, stops⟩ _ - ⟨rfl, -⟩
          exact ⟨derived, toSecond.commaEnabled ▸ stops⟩
      | some operator =>
          refine (ih second).bind fun value third toThird => .pure_of ?_
          rintro tokens - ⟨derived, stops⟩ _ - ⟨rfl, negates⟩
          refine ⟨?_, toSecond.commaEnabled ▸ stops⟩
          simpa using Unary.operator negates derived

variable {commas : Bool}

/-- A unary expression meets the grammar. -/
theorem meets_unary (sound : rules.Sound inner trailing) (before : Cursor)
    (context : before.commaEnabled = commas)
    : Meets (unary rules) before (TakesLevel 0 commas (Unary inner)) :=
  context ▸ .get (meets_unaryFrom sound before.ahead before)

/-- A product meets the grammar. -/
theorem meets_factor (sound : rules.Sound inner trailing) (before : Cursor)
    (context : before.commaEnabled = commas)
    : Meets (factor rules) before (TakesLevel 1 commas (Factor inner)) :=
  meets_chain (fun before _ => meets_acceptAny? _ before (by decide)) (meets_unary sound)
    (by intro kind; cases kind <;> cases commas <;> simp [looseness]) before context

/-- A sum meets the grammar. -/
theorem meets_term (sound : rules.Sound inner trailing) (before : Cursor)
    (context : before.commaEnabled = commas)
    : Meets (term rules) before (TakesLevel 2 commas (Term inner)) :=
  meets_chain (fun before _ => meets_acceptAny? _ before (by decide)) (meets_factor sound)
    (by intro kind; cases kind <;> cases commas <;> simp [looseness]) before context

/-- A comparison meets the grammar. -/
theorem meets_comparison (sound : rules.Sound inner trailing) (before : Cursor)
    (context : before.commaEnabled = commas)
    : Meets (comparison rules) before (TakesLevel 3 commas (Comparison inner)) :=
  meets_chain (fun before _ => meets_acceptAny? _ before (by decide)) (meets_term sound)
    (by intro kind; cases kind <;> cases commas <;> simp [looseness]) before context

/-- An equality meets the grammar. -/
theorem meets_equality (sound : rules.Sound inner trailing) (before : Cursor)
    (context : before.commaEnabled = commas)
    : Meets (equality rules) before (TakesLevel 4 commas (Equality inner)) :=
  meets_chain (fun before _ => meets_acceptAny? _ before (by decide)) (meets_comparison sound)
    (by intro kind; cases kind <;> cases commas <;> simp [looseness]) before context

/-- A conditional expression meets the grammar. -/
theorem meets_conditional (sound : rules.Sound inner trailing) (before : Cursor)
    (context : before.commaEnabled = commas)
    : Meets (conditional rules) before (TakesLevel 5 commas (Conditional inner)) := by
  refine (meets_equality sound before context).bind fun condition second toSecond => ?_
  have context2 := toSecond.commaEnabled.trans context
  refine (meets_accept .question second (by decide)).bind fun asked third toThird => ?_
  have context3 := toThird.commaEnabled.trans context2
  cases asked with
  | false =>
      refine .pure_of ?_
      rintro _ split ⟨rfl, -⟩ tokens - ⟨derived, loose⟩
      have same := Cursor.next_eq_of_ahead split
      rw [same] at loose
      exact ⟨by simpa using Conditional.equality derived, loose.conditional⟩
  | true =>
      refine (meets_equality sound third context3).bind fun thenCase fourth toFourth => ?_
      have context4 := toFourth.commaEnabled.trans context3
      refine (meets_expect .colon .elseOperand fourth (by decide)).bind
        fun colon fifth toFifth => ?_
      have context5 := toFifth.commaEnabled.trans context4
      refine (meets_equality sound fifth context5).bind fun elseCase sixth _ => .pure_of ?_
      rintro elseTokens - ⟨second, loose⟩ _ - ⟨rfl, separates⟩ thenTokens - ⟨first, -⟩
        _ - ⟨question, rfl, asks⟩ tokens - ⟨tested, -⟩
      refine ⟨?_, loose.conditional⟩
      simpa using Conditional.choice tested asks first separates second

/-- The comma is taken for an operator where it is enabled, and left alone elsewhere. -/
theorem meets_commaOperator? (before : Cursor) (context : before.commaEnabled = commas)
    : Meets commaOperator? before (TriedAny (if commas then [.comma] else [])) := by
  refine .get ?_
  cases commas with
  | true =>
      simp only [context, ↓reduceIte]
      exact meets_acceptAny? [.comma] before (by decide)
  | false =>
      simp only [context, Bool.false_eq_true, ↓reduceIte]
      exact .pure_of ⟨rfl, by simp⟩

/-- Expressions joined by commas meet the grammar. -/
theorem meets_comma (sound : rules.Sound inner trailing) (before : Cursor)
    (context : before.commaEnabled = commas)
    : Meets (comma rules) before (TakesLevel 6 commas (Comma inner commas)) :=
  meets_chain meets_commaOperator? (meets_conditional sound)
    (by intro kind; cases kind <;> cases commas <;> simp [looseness]) before context

/-- A conjunction meets the grammar. -/
theorem meets_logicAnd (sound : rules.Sound inner trailing) (before : Cursor)
    (context : before.commaEnabled = commas)
    : Meets (logicAnd rules) before (TakesLevel 7 commas (LogicAnd inner commas)) :=
  meets_chain (fun before _ => meets_acceptAny? [.andWord] before (by decide))
    (meets_comma sound)
    (by intro kind; cases kind <;> cases commas <;> simp [looseness]) before context

/-- A disjunction meets the grammar. -/
theorem meets_logicOr (sound : rules.Sound inner trailing) (before : Cursor)
    (context : before.commaEnabled = commas)
    : Meets (logicOr rules) before (TakesLevel 8 commas (LogicOr inner commas)) :=
  meets_chain (fun before _ => meets_acceptAny? [.orWord] before (by decide))
    (meets_logicAnd sound)
    (by intro kind; cases kind <;> cases commas <;> simp [looseness]) before context

-----
-- Assignments

/-- Behind the equals sign: the target is known to have been a target all along. -/
theorem meets_assignmentTo (target : SourceExpr) (equals : Token) (value : SourceExpr)
    (before : Cursor)
    : Meets (assignmentTo target equals value) before
        (fun tokens result after =>
          tokens = []
          ∧ after = before
          ∧ ∀ inner commas front others,
              LogicOr inner commas front target
              → equals.kind = .equal
              → Assignment inner commas others value
              → Assignment inner commas (front ++ equals :: others) result) := by
  unfold assignmentTo
  split
  · refine .pure_of ⟨rfl, rfl, fun inner commas front others derived assigns assigned => ?_⟩
    obtain ⟨name, rfl, named, rfl⟩ := (derived.call rfl).of_variable
    exact .name named assigns assigned
  · refine .pure_of ⟨rfl, rfl, fun inner commas front others derived assigns assigned => ?_⟩
    obtain ⟨owner, dot, rfl, called, dotted, named⟩ := (derived.call rfl).of_get
    simpa using Assignment.property called dotted named assigns assigned
  · refine Meets.bind (P := fun _ _ _ => False) (.report _ _) fun _ second _ => .pure_of ?_
    intro _ _ impossible
    exact impossible.elim

/-- Assignments in a row meet the grammar, by induction on the tokens that bound the loop. -/
theorem meets_assignmentFrom (sound : rules.Sound inner trailing) (bound : List Token)
    (before : Cursor) (context : before.commaEnabled = commas)
    : Meets (assignmentFrom rules bound) before
        (fun tokens value after =>
          before.ahead.length ≤ bound.length
          → TakesLevel 9 commas (Assignment inner commas) tokens value after) := by
  induction bound generalizing before with
  | nil =>
      refine .of_ended fun ended => (meets_logicOr sound before context).weaken ?_
      intro _ _ _ _ enough
      exact absurd (List.length_eq_zero_iff.1 (Nat.le_zero.1 enough)) ended.ne_nil
  | cons _ bound ih =>
      refine (meets_logicOr sound before context).bind fun target second toSecond => ?_
      have context2 := toSecond.commaEnabled.trans context
      refine (meets_accept? .equal second (by decide)).bind fun equals third toThird => ?_
      have context3 := toThird.commaEnabled.trans context2
      cases equals with
      | none =>
          refine .pure_of ?_
          rintro _ split ⟨rfl, missing⟩ tokens - ⟨derived, past⟩ -
          have same := Cursor.next_eq_of_ahead split
          rw [same] at past
          refine ⟨by simpa using Assignment.logic derived, ?_⟩
          have missing : third.next.kind ∉ [TokenKind.equal] := by simpa using missing
          refine past.succ missing fun kind => ?_
          cases kind <;> cases commas <;> simp [looseness]
      | some equals =>
          refine (ih third context3).bind fun value fourth toFourth => ?_
          refine (meets_assignmentTo target equals value fourth).weaken ?_
          rintro _ result after ⟨rfl, rfl, targeted⟩ others - goOn _ split2 ⟨rfl, assigns⟩
            tokens split ⟨derived, -⟩ enough
          have shorter : third.ahead.length ≤ bound.length := by
            have front := congrArg List.length split
            have back := congrArg List.length split2
            simp only [List.length_append, List.length_cons, List.length_nil] at *
            omega
          obtain ⟨assigned, past⟩ := goOn shorter
          exact ⟨by simpa using targeted inner commas _ _ derived assigns assigned, past⟩

/-- An expression meets the grammar. -/
theorem meets_expression (sound : rules.Sound inner trailing) (before : Cursor)
    : Meets (expression rules) before
        (TakesLevel 9 before.commaEnabled (Assignment inner before.commaEnabled)) :=
  .get ((meets_assignmentFrom sound before.ahead before rfl).weaken
    fun _ _ _ taken => taken (Nat.le_refl _))

end Nested

end Lox.Grammar
