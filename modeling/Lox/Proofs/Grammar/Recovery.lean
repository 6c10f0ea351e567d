import Lox.Proofs.Grammar.Endings
import Lox.Proofs.Grammar.Modes

/-! A statement with mistakes spoils nothing around it.

A statement that ends in its only semicolon, and opens nothing that a semicolon could stand in, is
read the same whatever stands behind that semicolon: either it is taken to its end, or a rule
unwinds somewhere inside of it and the rest of it is skipped. What was read before it and what is
read after it is read as if it stood alone.
-/

namespace Lox.Grammar

-----
-- Scraps

/-- A stretch that ends in its only semicolon, and opens no block and no `for`. A keyword of a
statement stands at most in front. -/
structure Scrap (tokens : List Token) : Prop where
  ends
    : ∃ body semicolon,
        tokens = body ++ [semicolon]
        ∧ semicolon.kind = .semicolon
        ∧ ∀ token ∈ body, token.kind ∉ [.semicolon, .leftBrace, .forWord, .endOfInput]
  tail : ∀ token ∈ tokens.tail, token.kind.startsStatement = false

namespace Scrap

variable {first : Token} {tokens : List Token}

/-- A scrap has at least its semicolon. -/
theorem ne_nil (scrap : Scrap tokens) : tokens ≠ [] := by
  obtain ⟨body, semicolon, rfl, -⟩ := scrap.ends
  simp

/-- The first token is the semicolon at the end, or something in front of a scrap. -/
theorem first_cases (scrap : Scrap (first :: tokens))
    : (first.kind = .semicolon ∧ tokens = [])
      ∨ (first.kind ∉ [.semicolon, .leftBrace, .forWord, .endOfInput] ∧ Scrap tokens) := by
  obtain ⟨body, semicolon, split, kind, inside⟩ := scrap.ends
  cases body with
  | nil =>
      obtain ⟨rfl, rfl⟩ : first = semicolon ∧ tokens = [] := by simpa using split
      exact .inl ⟨kind, rfl⟩
  | cons token body =>
      obtain ⟨rfl, rfl⟩ : first = token ∧ tokens = body ++ [semicolon] := by simpa using split
      refine .inr ⟨inside _ (List.mem_cons_self ..), ?_, fun token member => ?_⟩
      · exact ⟨body, semicolon, rfl, kind, fun token member => inside token (by simp [member])⟩
      · exact scrap.tail token (List.mem_of_mem_tail member)

/-- What never stands in a scrap. -/
theorem inside (scrap : Scrap tokens)
    : ∀ token ∈ tokens, token.kind ∉ [.leftBrace, .forWord, .endOfInput] := by
  obtain ⟨body, semicolon, rfl, kind, plain⟩ := scrap.ends
  intro token member
  rcases List.mem_append.1 member with front | last
  · have outside := plain token front
    simp only [List.mem_cons, not_or] at outside ⊢
    exact outside.2
  · obtain rfl : token = semicolon := by simpa using last
    simp [kind]

/-- With a scrap in front the text still ends. -/
theorem ended {rest : List Token} (scrap : Scrap tokens) (ended : Ended rest)
    : Ended (tokens ++ rest) := by
  refine ended.behind fun token member => ?_
  have outside := scrap.inside token member
  simp only [List.mem_cons, not_or] at outside
  exact outside.2.2.1

/-- Skipping from any token of a scrap ends right behind the scrap. -/
theorem skipFrom (scrap : Scrap (first :: tokens)) (rest : List Token)
    : Grammar.skipFrom first (tokens ++ rest) = rest := by
  induction tokens generalizing first with
  | nil =>
      rcases scrap.first_cases with ⟨kind, -⟩ | ⟨-, impossible⟩
      · cases rest with
        | nil => rfl
        | cons token rest => simp [Grammar.skipFrom, kind]
      · exact absurd rfl impossible.ne_nil
  | cons token tokens ih =>
      rcases scrap.first_cases with ⟨-, impossible⟩ | ⟨plain, scrap'⟩
      · cases impossible
      · have notStatement := scrap.tail token (List.mem_cons_self ..)
        have outside := scrap'.inside token (List.mem_cons_self ..)
        simp only [List.mem_cons, not_or] at plain outside
        rw [List.cons_append, Grammar.skipFrom]
        simp only [outside.2.2.1, plain.1, notStatement, decide_false, Bool.or_self,
          Bool.false_eq_true, if_false]
        exact ih scrap'

end Scrap

-----
-- Scraps in front of two texts

section

variable {rest rest' : List Token}

/-- Both places are at the same token of a scrap, with different texts behind the scrap. -/
structure InScrap (rest rest' : List Token) (before before' : Cursor) : Prop where
  ahead : ∃ scrap, Scrap scrap ∧ before.ahead = scrap ++ rest ∧ before'.ahead = scrap ++ rest'
  errors : before'.errors = before.errors
  loopDepth : before'.loopDepth = before.loopDepth
  commaEnabled : before'.commaEnabled = before.commaEnabled

namespace InScrap

variable {before before' : Cursor}

/-- In the same scrap the next token is the same. -/
theorem next (inScrap : InScrap rest rest' before before') : before'.next = before.next := by
  obtain ⟨scrap, holds, ahead, ahead'⟩ := inScrap.ahead
  obtain ⟨first, tokens, rfl⟩ := List.exists_cons_of_ne_nil holds.ne_nil
  simp [Cursor.next, ahead, ahead']

/-- The token ahead belongs to the scrap. -/
theorem next_inside (inScrap : InScrap rest rest' before before')
    : before.next.kind ∉ [.leftBrace, .forWord, .endOfInput] := by
  obtain ⟨scrap, holds, ahead, -⟩ := inScrap.ahead
  obtain ⟨first, tokens, rfl⟩ := List.exists_cons_of_ne_nil holds.ne_nil
  simpa [Cursor.next, ahead] using holds.inside first (List.mem_cons_self ..)

/-- In a scrap the text is not over. -/
theorem atEnd (inScrap : InScrap rest rest' before before')
    : before.atEnd = false ∧ before'.atEnd = false := by
  have inside := inScrap.next_inside
  simp only [List.mem_cons, not_or] at inside
  simp [Cursor.atEnd, inScrap.next, inside.2.2.1]

/-- What is dropped is a token in front of a scrap, or the semicolon in front of the two texts. -/
theorem drop (inScrap : InScrap rest rest' before before')
    : (before.next.kind ≠ .semicolon → InScrap rest rest' before.drop before'.drop)
      ∧ (before.next.kind = .semicolon
        → before.drop.ahead = rest ∧ before'.drop.ahead = rest') := by
  obtain ⟨open_, open_'⟩ := inScrap.atEnd
  obtain ⟨scrap, holds, ahead, ahead'⟩ := inScrap.ahead
  obtain ⟨first, tokens, rfl⟩ := List.exists_cons_of_ne_nil holds.ne_nil
  have same : before.next = first := by simp [Cursor.next, ahead]
  simp only [Cursor.drop, open_, open_', same, Bool.false_eq_true, if_false]
  rcases holds.first_cases with ⟨kind, rfl⟩ | ⟨plain, holds'⟩
  · exact ⟨fun other => absurd kind other, fun _ => ⟨by simp [ahead], by simp [ahead']⟩⟩
  · refine ⟨fun _ => ?_, fun kind => absurd kind ?_⟩
    · exact ⟨⟨tokens, holds', by simp [ahead], by simp [ahead']⟩, inScrap.errors,
        inScrap.loopDepth, inScrap.commaEnabled⟩
    · simp only [List.mem_cons, not_or] at plain
      exact plain.1

/-- Wherever a rule has unwound in a scrap, skipping leads right behind it. -/
theorem skips (inScrap : InScrap rest rest' before before')
    : before.skipToStatement.ahead = rest ∧ before'.skipToStatement.ahead = rest' := by
  obtain ⟨open_, open_'⟩ := inScrap.atEnd
  obtain ⟨scrap, holds, ahead, ahead'⟩ := inScrap.ahead
  obtain ⟨first, tokens, rfl⟩ := List.exists_cons_of_ne_nil holds.ne_nil
  have same : before.next = first := by simp [Cursor.next, ahead]
  have same' : before'.next = first := by simp [Cursor.next, ahead']
  simp only [Cursor.skipToStatement, open_, open_', Bool.false_eq_true, if_false, same, same',
    ahead, ahead', List.cons_append, List.tail_cons]
  exact ⟨holds.skipFrom rest, holds.skipFrom rest'⟩

end InScrap

/-- Two runs inside of one scrap, up to its semicolon. -/
def Pairing.scrap (ended : Ended rest) (ended' : Ended rest') : Pairing where
  related := InScrap rest rest'
  unwinds _ := True
  mistaken := trivial
  ended := by
    intro before before' inScrap
    obtain ⟨scrap, holds, ahead, ahead'⟩ := inScrap.ahead
    exact ⟨ahead ▸ holds.ended ended, ahead' ▸ holds.ended ended'⟩
  next := InScrap.next
  loopDepth := InScrap.loopDepth
  commaEnabled := InScrap.commaEnabled
  moved _ _ inScrap := { inScrap with loopDepth := rfl, commaEnabled := rfl }
  reported _ _ _ inScrap := { inScrap with errors := congrArg (· ++ _) inScrap.errors }
  dropped inScrap _ other := inScrap.drop.1 other

-----
-- Reaching the end of a scrap

variable {ended : Ended rest} {ended' : Ended rest'}

/-- Either both runs have taken the scrap, or both have unwound at one place inside of it. -/
inductive Concluded {α : Type} (rest rest' : List Token)
    : EStateM.Result Unwinding Cursor α → EStateM.Result Unwinding Cursor α → Prop
  | ok {value after after'} (ahead : after.ahead = rest) (ahead' : after'.ahead = rest')
    (errors : after'.errors = after.errors)
    : Concluded rest rest' (.ok value after) (.ok value after')
  | error {unwinding after after'} (inScrap : InScrap rest rest' after after')
    : Concluded rest rest' (.error unwinding after) (.error unwinding after')

/-- From any place of a scrap the two rules take the rest of it, or unwind inside of it. -/
def Concludes {α : Type} (rest rest' : List Token) (rule rule' : Rule α) (before before' : Cursor)
    : Prop :=
  InScrap rest rest' before before' → Concluded rest rest' (rule before) (rule' before')

section

variable {α β : Type} {rule rule' : Rule α} {before before' : Cursor}

/-- Behind rules that stay inside, rules that conclude do so as a whole. -/
theorem Concludes.behind (ended : Ended rest) (ended' : Ended rest')
    {next next' : α → Rule β} {P : List Token → α → Cursor → Prop}
    (first : (Pairing.scrap ended ended').Alike rule rule' before before' P)
    (second
      : ∀ {tokens between between'} value,
          (Pairing.scrap ended ended').Step before before' tokens between between'
          → P tokens value between
          → Concludes rest rest' (next value) (next' value) between between')
    : Concludes rest rest' (rule >>= next) (rule' >>= next') before before' := by
  intro inScrap
  have front := first inScrap
  change Concluded rest rest' (EStateM.bind rule next before) (EStateM.bind rule' next' before')
  unfold EStateM.bind
  revert front
  cases rule before <;> cases rule' before' <;> rintro (⟨step, holds⟩ | ⟨step, -, -⟩)
  · exact second _ step holds step.related
  · exact .error step.related

/-- What only changes the value, or looks at the token behind, leaves a conclusion as it is. -/
theorem Concludes.bind {next next' : α → Rule β} (f : α → β)
    (concludes : Concludes rest rest' rule rule' before before')
    (idle : ∀ {value after}, after.ahead = rest → next value after = .ok (f value) after)
    (idle' : ∀ {value after}, after.ahead = rest' → next' value after = .ok (f value) after)
    : Concludes rest rest' (rule >>= next) (rule' >>= next') before before' := by
  intro inScrap
  have front := concludes inScrap
  change Concluded rest rest' (EStateM.bind rule next before) (EStateM.bind rule' next' before')
  unfold EStateM.bind
  revert front
  cases rule before <;> cases rule' before' <;> rintro (⟨ahead, ahead', errors⟩ | ⟨inScrap⟩)
  · simp only [idle ahead, idle' ahead']
    exact .ok ahead ahead' errors
  · exact .error inScrap

/-- Changing the value that is concluded with changes nothing else. -/
theorem Concludes.pure {f : α → β} (concludes : Concludes rest rest' rule rule' before before')
    : Concludes rest rest' (rule >>= fun value => Pure.pure (f value))
        (rule' >>= fun value => Pure.pure (f value)) before before' :=
  concludes.bind f (fun _ => rfl) (fun _ => rfl)

/-- A token of the kind is taken. -/
theorem accept?_found {cursor : Cursor} {kind : TokenKind} (found : cursor.next.kind = kind)
    (inside : cursor.atEnd = false)
    : accept? kind cursor = .ok (some cursor.next) cursor.drop := by
  simp [accept?, acceptAny?, Cursor.nextIsAny, inside, found]

/-- A token of another kind is left where it stands. -/
theorem accept?_missing {cursor : Cursor} {kind : TokenKind} (missing : cursor.next.kind ≠ kind)
    : accept? kind cursor = .ok none cursor := by
  simp [accept?, acceptAny?, Cursor.nextIsAny, missing]

/-- Another token than the one that has to be there is a mistake. -/
theorem expect_missing {cursor : Cursor} {kind : TokenKind} (item : Expected)
    (missing : cursor.next.kind ≠ kind)
    : expect kind item cursor = .error .mistake (cursor.report cursor.next (.expected item)) :=
  bind_of_ok (accept?_missing missing)

/-- Where something is missing both runs unwind with the same mistake. -/
theorem InScrap.missing (inScrap : InScrap rest rest' before before') (problem : Problem)
    : @Concluded α rest rest' (.error .mistake (before.report before.next problem))
        (.error .mistake (before'.report before'.next problem)) := by
  rw [inScrap.next]
  exact .error { inScrap with errors := congrArg (· ++ _) inScrap.errors }

/-- At the semicolon of a scrap there is nothing left of it but the semicolon. -/
theorem InScrap.concluded {value : α} (inScrap : InScrap rest rest' before before')
    (found : before.next.kind = .semicolon)
    : Concluded rest rest' (.ok value before.drop) (.ok value before'.drop) := by
  obtain ⟨open_, open_'⟩ := inScrap.atEnd
  obtain ⟨ahead, ahead'⟩ := inScrap.drop.2 found
  refine .ok ahead ahead' ?_
  simp [Cursor.drop, open_, open_', inScrap.errors]

/-- In a loop a scrap is concluded as well as outside. -/
theorem Concludes.insideLoop
    (concludes : ∀ {before before'}, Concludes rest rest' rule rule' before before')
    : Concludes rest rest' (insideLoop rule) (insideLoop rule') before before' := by
  intro inScrap
  let deeper (cursor : Cursor) : Cursor := { cursor with loopDepth := cursor.loopDepth + 1 }
  have inside : InScrap rest rest' (deeper before) (deeper before') :=
    { inScrap with loopDepth := congrArg (· + 1) inScrap.loopDepth }
  have result := concludes inside
  unfold Grammar.insideLoop inContext
  revert result
  cases rule (deeper before) <;> cases rule' (deeper before') <;>
    rintro (⟨ahead, ahead', errors⟩ | ⟨within⟩)
  · exact .ok ahead ahead' errors
  · exact .error { within with loopDepth := congrArg (· - 1) within.loopDepth }

/-- The semicolon that a scrap ends in is the end of a statement. -/
theorem concludes_semicolon (item : Expected)
    : Concludes rest rest' (expect .semicolon item) (expect .semicolon item) before before' := by
  intro inScrap
  have same := inScrap.next
  obtain ⟨open_, open_'⟩ := inScrap.atEnd
  by_cases found : before.next.kind = .semicolon
  · have taken : expect .semicolon item before = .ok before.next before.drop :=
      bind_of_ok (accept?_found found open_)
    have taken' : expect .semicolon item before' = .ok before'.next before'.drop :=
      bind_of_ok (accept?_found (same ▸ found) open_')
    rw [taken, taken', same]
    exact inScrap.concluded found
  · rw [expect_missing item found, expect_missing item (same ▸ found)]
    exact inScrap.missing _

/-- No block is opened in a scrap. -/
theorem InScrap.no_brace {tokens : List Token} {between between' : Cursor}
    (inScrap : InScrap rest rest' before before')
    (step : (Pairing.scrap ended ended').Step before before' tokens between between')
    : ∀ token ∈ tokens, token.kind ≠ .leftBrace := by
  obtain ⟨scrap, holds, ahead, -⟩ := inScrap.ahead
  obtain ⟨others, -, behind, -⟩ := step.related.ahead
  have split := step.passes.ahead
  rw [ahead, behind, ← List.append_assoc] at split
  obtain rfl := List.append_cancel_right split
  intro token member
  have outside := holds.inside token (List.mem_append_left _ member)
  simp only [List.mem_cons, not_or] at outside
  exact outside.1

/-- A rule that calls for a brace unwinds in a scrap. -/
theorem concludes_brace {next next' : Token → Rule β} (item : Expected)
    : Concludes rest rest' (expect .leftBrace item >>= next) (expect .leftBrace item >>= next')
        before before' := by
  intro inScrap
  have inside := inScrap.next_inside
  simp only [List.mem_cons, not_or] at inside
  rw [bind_of_error (expect_missing item inside.1),
    bind_of_error (expect_missing item (inScrap.next ▸ inside.1))]
  exact inScrap.missing _

/-- Looking at the cursor takes nothing. -/
theorem Concludes.get {next next' : Cursor → Rule α}
    (concludes : Concludes rest rest' (next before) (next' before') before before')
    : Concludes rest rest' (MonadState.get >>= next) (MonadState.get >>= next') before before' :=
  concludes

/-- Looking at the next token concludes alike if what follows does. -/
theorem Concludes.next {next next' : Token → Rule α}
    (concludes : Concludes rest rest' (next before.next) (next' before.next) before before')
    : Concludes rest rest' (Grammar.next >>= next) (Grammar.next >>= next') before before' := by
  intro inScrap
  have result := concludes inScrap
  change Concluded rest rest' (next before.next before) (next' before'.next before')
  rw [inScrap.next]
  exact result

/-- Asking for the end of the text concludes alike if what follows does. -/
theorem Concludes.atEnd {next next' : Bool → Rule α}
    (concludes : Concludes rest rest' (next before.atEnd) (next' before'.atEnd) before before')
    : Concludes rest rest' (Grammar.atEnd >>= next) (Grammar.atEnd >>= next') before before' :=
  concludes

end

-----
-- Statements in a scrap

/-- The rules that statements are made of stay inside of a scrap, or conclude it. -/
structure Rules.Concluding (ended : Ended rest) (ended' : Ended rest') (rules : Rules) : Prop where
  parts : ∀ limit, (Pairing.scrap ended ended').Parts limit rules rules
  statement
    : ∀ {before before'}, Concludes rest rest' rules.statement rules.statement before before'

section

variable {rules : Rules} {before before' : Cursor}

/-- An expression concludes with the scrap or inside of it, and what follows goes on from there. -/
theorem concludes_expression {α : Type} {next next' : SourceExpr → Rule α}
    (concluding : rules.Concluding ended ended')
    (second
      : ∀ value {between between'},
          Concludes rest rest' (next value) (next' value) between between')
    : Concludes rest rest' (rules.expression >>= next) (rules.expression >>= next')
        before before' :=
  .behind ended ended' ((concluding.parts _).expression (Nat.le_refl _))
    fun value _ _ => second value

/-- An expression statement concludes alike, whatever follows the scrap. -/
theorem concludes_expressionStatement (concluding : rules.Concluding ended ended')
    (allowExpression : Bool)
    : Concludes rest rest' (expressionStatement allowExpression rules)
        (expressionStatement allowExpression rules) before before' := by
  refine concludes_expression concluding fun value between between' inScrap => ?_
  obtain ⟨open_, open_'⟩ := inScrap.atEnd
  refine Concludes.atEnd ?_ inScrap
  rw [open_, open_', Bool.and_false]
  exact (concludes_semicolon _).pure

/-- No function literal stands in a scrap, so a declaration needs its semicolon there. -/
theorem concludes_variableDeclaration (concluding : rules.Concluding ended ended')
    : Concludes rest rest' (variableDeclaration rules) (variableDeclaration rules)
        before before' := by
  have parts := concluding.parts before.ahead.length
  refine Concludes.behind ended ended'
    (Pairing.alike_expect .identifier _ (Pairing.crosses (by decide)))
    fun name step _ inScrap => ?_
  refine Concludes.behind ended ended' (Pairing.alike_initialValue parts step.shorter.1)
    (fun initial step braced => ?_) inScrap
  have plain : isFunctionLiteral initial = false := by
    refine Bool.eq_false_iff.2 fun literal => ?_
    obtain ⟨brace, member, opens⟩ := braced literal
    exact inScrap.no_brace step brace member opens
  unfold variableEnd
  rw [plain, if_neg Bool.false_ne_true]
  exact (concludes_semicolon _).pure.pure

/-- A class declaration concludes alike, since a scrap has no brace to open it. -/
theorem concludes_classDeclaration (ended : Ended rest) (ended' : Ended rest') (rules : Rules)
    : Concludes rest rest' (classDeclaration rules) (classDeclaration rules) before before' := by
  refine Concludes.behind ended ended'
    (Pairing.alike_expect .identifier _ (Pairing.crosses (by decide))) fun name _ _ => ?_
  refine Concludes.behind ended ended' Pairing.alike_superclassClause
    fun superclass _ _ => ?_
  exact concludes_brace _

/-- A function declaration concludes alike, since a scrap has no brace to open it. -/
theorem concludes_functionDeclaration (ended : Ended rest) (ended' : Ended rest') (rules : Rules)
    : Concludes rest rest' (functionDeclaration rules) (functionDeclaration rules)
        before before' := by
  refine Concludes.bind (fun defined => .function defined.1 defined.2) ?_
    (fun _ => rfl) (fun _ => rfl)
  refine Concludes.behind ended ended'
    (Pairing.alike_expect .identifier _ (Pairing.crosses (by decide))) fun name _ _ => ?_
  refine Concludes.behind ended ended'
    (Pairing.alike_expect .leftParen _ (Pairing.crosses (by decide))) fun _ _ _ => ?_
  refine Concludes.behind ended ended' Pairing.alike_parameters
    fun parameters _ _ => ?_
  refine Concludes.behind ended ended'
    (Pairing.alike_expect .rightParen _ (Pairing.crosses (by decide))) fun _ _ _ => ?_
  exact concludes_brace _

/-- A `println` statement concludes alike, whatever follows the scrap. -/
theorem concludes_printLineStatement (concluding : rules.Concluding ended ended')
    : Concludes rest rest' (printLineStatement rules) (printLineStatement rules)
        before before' := by
  intro inScrap
  obtain ⟨open_, open_'⟩ := inScrap.atEnd
  have same := inScrap.next
  by_cases found : before.next.kind = .semicolon
  · have taken : accept .semicolon before = .ok true before.drop :=
      bind_of_ok (accept?_found found open_)
    have taken' : accept .semicolon before' = .ok true before'.drop :=
      bind_of_ok (accept?_found (same ▸ found) open_')
    unfold printLineStatement
    rw [bind_of_ok taken, bind_of_ok taken']
    exact inScrap.concluded found
  · have missing : accept .semicolon before = .ok false before :=
      bind_of_ok (accept?_missing found)
    have missing' : accept .semicolon before' = .ok false before' :=
      bind_of_ok (accept?_missing (same ▸ found))
    unfold printLineStatement
    rw [bind_of_ok missing, bind_of_ok missing']
    exact concludes_expression concluding (fun value => (concludes_semicolon _).pure) inScrap

/-- A `return` concludes alike, whatever follows the scrap. -/
theorem concludes_returnStatement (concluding : rules.Concluding ended ended') (keyword : Token)
    : Concludes rest rest' (returnStatement rules keyword) (returnStatement rules keyword)
        before before' :=
  .behind ended ended'
    (Pairing.alike_expressionBefore (concluding.parts _) .semicolon (Nat.le_refl _))
    fun _ _ _ => (concludes_semicolon _).pure

/-- A `break` concludes alike, whatever follows the scrap. -/
theorem concludes_breakStatement (ended : Ended rest) (ended' : Ended rest') (keyword : Token)
    : Concludes rest rest' (breakStatement keyword) (breakStatement keyword) before before' := by
  intro inScrap
  refine Concludes.get ?_ inScrap
  rw [inScrap.loopDepth]
  split
  · exact .behind ended ended' (Pairing.alike_report keyword .breakOutsideLoop nofun)
      fun _ _ _ => (concludes_semicolon _).pure
  · exact (concludes_semicolon _).pure

/-- A `while` loop concludes alike, whatever follows the scrap. -/
theorem concludes_whileStatement (concluding : rules.Concluding ended ended')
    : Concludes rest rest' (whileStatement rules) (whileStatement rules) before before' := by
  refine Concludes.behind ended ended'
    (Pairing.alike_expect .leftParen _ (Pairing.crosses (by decide))) fun _ _ _ => ?_
  refine concludes_expression concluding fun condition => ?_
  refine Concludes.behind ended ended'
    (Pairing.alike_expect .rightParen _ (Pairing.crosses (by decide))) fun _ _ _ => ?_
  exact (Concludes.insideLoop concluding.statement).pure

/-- No `else` stands behind a scrap. -/
theorem elseBranch_none {after : Cursor} {tokens : List Token} (reached : after.ahead = tokens)
    (other : ∀ token ∈ tokens.head?, token.kind ≠ .elseWord)
    : elseBranch rules after = .ok none after := by
  have missing : after.next.kind ≠ .elseWord := by
    unfold Cursor.next
    rw [reached]
    cases tokens with
    | nil => simp [Token.endOfInput]
    | cons token tokens => exact other token rfl
  have missed : accept .elseWord after = .ok false after := bind_of_ok (accept?_missing missing)
  exact bind_of_ok missed

/-- An `if` statement concludes alike, unless an `else` follows the scrap. -/
theorem concludes_ifStatement (concluding : rules.Concluding ended ended')
    (other : ∀ token ∈ rest.head?, token.kind ≠ .elseWord)
    (other' : ∀ token ∈ rest'.head?, token.kind ≠ .elseWord)
    : Concludes rest rest' (ifStatement rules) (ifStatement rules) before before' := by
  refine Concludes.behind ended ended'
    (Pairing.alike_expect .leftParen _ (Pairing.crosses (by decide))) fun _ _ _ => ?_
  refine concludes_expression concluding fun condition => ?_
  refine Concludes.behind ended ended'
    (Pairing.alike_expect .rightParen _ (Pairing.crosses (by decide))) fun _ _ _ => ?_
  refine concluding.statement.bind (fun thenBranch => .branch condition thenBranch none) ?_ ?_
  · exact fun reached => bind_of_ok (elseBranch_none reached other)
  · exact fun reached => bind_of_ok (elseBranch_none reached other')

/-- Behind the keyword that a statement or declaration starts with. -/
theorem concludes_behindKeyword {rule rule' : Rule SourceStmt} {kind : TokenKind}
    (ended : Ended rest) (ended' : Ended rest') (found : before.next.kind = kind)
    (inside : kind ≠ .endOfInput ∧ kind ≠ .semicolon)
    (concludes : ∀ {between between'}, Concludes rest rest' rule rule' between between')
    : Concludes rest rest' (do modify Cursor.drop; rule) (do modify Cursor.drop; rule')
        before before' :=
  .behind ended ended' (Pairing.alike_drop (found ▸ Pairing.crosses inside))
    fun _ _ _ => concludes

/-- A statement concludes alike, unless an `else` follows the scrap. -/
theorem concludes_statement (allowExpression : Bool) (concluding : rules.Concluding ended ended')
    (other : ∀ token ∈ rest.head?, token.kind ≠ .elseWord)
    (other' : ∀ token ∈ rest'.head?, token.kind ≠ .elseWord)
    : Concludes rest rest' (statement allowExpression rules) (statement allowExpression rules)
        before before' := by
  intro inScrap
  have outside := inScrap.next_inside
  refine Concludes.next ?_ inScrap
  generalize kind : before.next.kind = found at outside
  have keyword {rule : Rule SourceStmt} (inside : found ≠ .endOfInput ∧ found ≠ .semicolon)
      (concludes : ∀ {between between'}, Concludes rest rest' rule rule between between')
      : Concludes rest rest' (do modify Cursor.drop; rule) (do modify Cursor.drop; rule)
          before before' :=
    concludes_behindKeyword ended ended' kind inside concludes
  cases found with
  | forWord | leftBrace => simp at outside
  | ifWord => exact keyword (by decide) (concludes_ifStatement concluding other other')
  | printWord =>
      exact keyword (by decide)
        (concludes_expression concluding fun _ => (concludes_semicolon _).pure)
  | printlnWord => exact keyword (by decide) (concludes_printLineStatement concluding)
  | returnWord => exact keyword (by decide) (concludes_returnStatement concluding _)
  | whileWord => exact keyword (by decide) (concludes_whileStatement concluding)
  | breakWord => exact keyword (by decide) (concludes_breakStatement ended ended' _)
  | _ => exact concludes_expressionStatement concluding allowExpression

/-- A place to recover at leaves a scrap behind in any case. -/
theorem concludes_recovering {rule rule' : Rule SourceStmt}
    (concludes : Concludes rest rest' rule rule' before before')
    : Concludes rest rest' (recovering rule) (recovering rule') before before' := by
  intro inScrap
  have result := concludes inScrap
  unfold recovering
  revert result
  cases rule before <;> cases rule' before' <;> rintro (⟨ahead, ahead', errors⟩ | ⟨inScrap⟩)
  · exact .ok ahead ahead' errors
  · next unwinding after after' =>
      have kept (cursor : Cursor) : cursor.skipToStatement.errors = cursor.errors := by
        unfold Cursor.skipToStatement
        split <;> rfl
      have skipped {after after' : Cursor} (inScrap : InScrap rest rest' after after')
          : Concluded rest rest' (.ok (none : Option SourceStmt) after.skipToStatement)
              (.ok none after'.skipToStatement) := by
        obtain ⟨ahead, ahead'⟩ := inScrap.skips
        exact .ok ahead ahead' (by rw [kept, kept, inScrap.errors])
      cases unwinding with
      | mistake => exact skipped inScrap
      | tooDeep =>
          simp only [inScrap.next]
          exact skipped { inScrap with errors := congrArg (· ++ _) inScrap.errors }

/-- A declaration concludes alike, unless an `else` follows the scrap. -/
theorem concludes_declaration (allowExpression : Bool) (concluding : rules.Concluding ended ended')
    (other : ∀ token ∈ rest.head?, token.kind ≠ .elseWord)
    (other' : ∀ token ∈ rest'.head?, token.kind ≠ .elseWord)
    : Concludes rest rest' (declaration allowExpression rules) (declaration allowExpression rules)
        before before' := by
  refine concludes_recovering (.next ?_)
  generalize kind : before.next.kind = found
  have keyword {rule : Rule SourceStmt} (inside : found ≠ .endOfInput ∧ found ≠ .semicolon)
      (concludes : ∀ {between between'}, Concludes rest rest' rule rule between between')
      : Concludes rest rest' (do modify Cursor.drop; rule) (do modify Cursor.drop; rule)
          before before' :=
    concludes_behindKeyword ended ended' kind inside concludes
  cases found with
  | classWord => exact keyword (by decide) (concludes_classDeclaration ended ended' rules)
  | funWord => exact keyword (by decide) (concludes_functionDeclaration ended ended' rules)
  | varWord => exact keyword (by decide) (concludes_variableDeclaration concluding)
  | _ => exact concludes_statement allowExpression concluding other other'

/-- However deep the grammar is unfolded, its rules stay inside of a scrap or conclude it. -/
theorem rules_concluding (allowExpression : Bool) (ended : Ended rest) (ended' : Ended rest')
    (other : ∀ token ∈ rest.head?, token.kind ≠ .elseWord)
    (other' : ∀ token ∈ rest'.head?, token.kind ≠ .elseWord) (nesting : Nat)
    : (Grammar.rules allowExpression nesting).Concluding ended ended' := by
  induction nesting with
  | zero =>
      refine ⟨fun limit => ⟨fun _ => .throw_ trivial nofun, ?_⟩, fun inScrap => .error inScrap⟩
      exact fun related step opens _ =>
        absurd opens (InScrap.no_brace related step _ (List.mem_singleton_self _))
  | succ nesting ih =>
      refine
        ⟨fun limit => ⟨fun within => ?_, ?_⟩, concludes_statement allowExpression ih other other'⟩
      · exact Pairing.alike_expression (ih.parts limit) (Nat.le_succ_of_le within)
      · exact fun related step opens _ =>
          absurd opens (InScrap.no_brace related step _ (List.mem_singleton_self _))

end

end

-----
-- Texts around a scrap

section

variable {allowExpression : Bool} {depth : Nat} {tokens : List Token} {last : Token}

/-- A text without a mistake that no token behind it goes on with is read by itself. -/
theorem rounds_of_clean (ended : Ended (tokens ++ [last]))
    (closed : EndsClosed (tokens ++ [last]))
    (clean : (parse allowExpression (tokens ++ [last]) depth).errors = []) (first : Token)
    (rest : List Token) (other : first.kind ≠ .elseWord)
    : Rounds (rules allowExpression (depth + 1)).declaration Cursor.atEnd
        (Cursor.start (tokens ++ first :: rest))
        ((parse allowExpression (tokens ++ [last]) depth).statements.map some)
        (Cursor.start (first :: rest)) := by
  have derived := derives_of_closed ended closed clean
  have complete :=
    rules_complete allowExpression .greedy (fun _ greedy => greedy) (depth + 1)
  have noBrace : ¬EndsIn .rightBrace tokens := by
    rcases List.eq_nil_or_concat tokens with rfl | ⟨front, token, rfl⟩
    · simp [EndsIn]
    · have kind := closed front token last (by simp)
      simp [EndsIn, kind]
  have goesOn (token : Token) (others : List Token) (starts : startsDeclaration token.kind = true)
      : ((Cursor.start []).facing (token :: others)).atEnd = false := by
    have inside : token.kind ≠ .endOfInput := by
      intro kind
      rw [kind] at starts
      exact absurd starts (by decide)
    simpa [Cursor.atEnd, Cursor.next, Cursor.facing] using inside
  have derived
      : Sequence (language .greedy (depth + 1)).policy
          ((language .greedy (depth + 1)).declaration false) tokens
          (parse allowExpression (tokens ++ [last]) depth).statements := by
    rwa [language_policy]
  refine derived.rounds complete (Cursor.start []) rfl rfl rest goesOn ?_
  rintro ending final statement front rfl declared
  refine ⟨fun _ => other, fun literal => ?_⟩
  subst literal
  exact absurd ((declaration_endsIn declared).append front) noBrace

/-- Tokens with a semicolon at their end and nowhere else, with no brace that opens a block and no
keyword of a statement behind the first of them, are a scrap. -/
theorem Scrap.of_tokens {scrap : List Token} (ended : Ended (scrap ++ [last]))
    (closes
      : ∃ body semicolon,
          scrap = body ++ [semicolon]
          ∧ semicolon.kind = .semicolon
          ∧ ∀ token ∈ body, token.kind ≠ .semicolon)
    (opensNoBlock : ∀ token ∈ scrap, token.kind ≠ .leftBrace)
    (keywords : ∀ token ∈ scrap.tail, token.kind.startsStatement = false)
    (starts : ∀ token ∈ scrap.head?, token.kind ≠ .forWord)
    : Scrap scrap := by
  obtain ⟨body, semicolon, rfl, semicolonKind, plain⟩ := closes
  refine ⟨⟨body, semicolon, rfl, semicolonKind, fun token member => ?_⟩, keywords⟩
  have inside := (Ended.snoc_iff.1 ended).2 token (by simp [member])
  have noBrace := opensNoBlock token (by simp [member])
  have noFor : token.kind ≠ .forWord := by
    cases body with
    | nil => cases member
    | cons first body =>
        rcases List.mem_cons.1 member with rfl | later
        · exact starts token rfl
        · intro kind
          have notStatement := keywords token (by simp [later])
          simp [kind, TokenKind.startsStatement] at notStatement
  simp [plain token member, noBrace, noFor, inside]

/-- A scrap is one declaration, or one that is left out. -/
theorem round_of_scrap (allowExpression : Bool) {scrap rest : List Token} (holds : Scrap scrap)
    (ended : Ended (scrap ++ [last])) (ended' : Ended rest)
    (other : ∀ token ∈ rest.head?, token.kind ≠ .elseWord)
    : ∃ result errors,
        parse allowExpression (scrap ++ [last]) depth
            = { statements := result.toList, errors }
        ∧ (rules allowExpression (depth + 1)).declaration (Cursor.start (scrap ++ rest))
            = .ok result { Cursor.start rest with errors } := by
  have lastKind := (Ended.snoc_iff.1 ended).1
  have lastEnded : Ended [last] := ⟨[], last, rfl, lastKind, by simp⟩
  have lastOther : ∀ token ∈ [last].head?, token.kind ≠ .elseWord := by simp [lastKind]
  have start
      : InScrap [last] rest (Cursor.start (scrap ++ [last])) (Cursor.start (scrap ++ rest)) :=
    ⟨⟨scrap, holds, rfl, rfl⟩, rfl, rfl, rfl⟩
  have concluding := rules_concluding allowExpression lastEnded ended' lastOther other depth
  have concluded
      : Concluded [last] rest
          ((rules allowExpression (depth + 1)).declaration (Cursor.start (scrap ++ [last])))
          ((rules allowExpression (depth + 1)).declaration (Cursor.start (scrap ++ rest))) :=
    concludes_declaration allowExpression concluding lastOther other start
  obtain ⟨result, after, run⟩
      : ∃ result after,
          (rules allowExpression (depth + 1)).declaration (Cursor.start (scrap ++ [last]))
            = .ok result after :=
    recovering_ok _ _
  obtain ⟨result', after', run'⟩
      : ∃ result after,
          (rules allowExpression (depth + 1)).declaration (Cursor.start (scrap ++ rest))
            = .ok result after :=
    recovering_ok _ _
  rw [run, run'] at concluded
  obtain ⟨ahead, ahead', errors⟩ := concluded
  have startEnded : Ended (Cursor.start (scrap ++ rest)).ahead := holds.ended ended'
  obtain ⟨tokens, passes, -⟩ := declaration_declares startEnded run'
  have goesOn := (start.atEnd).1
  have atEnd : after.atEnd = true := by simp [Cursor.atEnd, Cursor.next, ahead, lastKind]
  refine ⟨result, after.errors, ?_, ?_⟩
  · rw [parse_of_rounds ended (.round goesOn run .done) atEnd]
    cases result <;> rfl
  · rw [run']
    obtain ⟨-, -, loopDepth, commaEnabled⟩ := passes
    cases after'
    cases ahead'
    cases errors
    cases loopDepth
    cases commaEnabled
    rfl

/-- A text, a scrap behind it that may have mistakes, and another text are read one by one. -/
theorem recovery_isolates (allowExpression : Bool) (depth : Nat) {front scrap rest : List Token}
    {frontEnd scrapEnd restEnd : Token}
    (frontEnded : Ended (front ++ [frontEnd])) (scrapEnded : Ended (scrap ++ [scrapEnd]))
    (restEnded : Ended (rest ++ [restEnd]))
    (frontCloses : front = [] ∨ Ends (· = .semicolon) front)
    (clean : (parse allowExpression (front ++ [frontEnd]) depth).errors = [])
    (scrapCloses
      : ∃ body semicolon,
          scrap = body ++ [semicolon]
          ∧ semicolon.kind = .semicolon
          ∧ ∀ token ∈ body, token.kind ≠ .semicolon)
    (opensNoBlock : ∀ token ∈ scrap, token.kind ≠ .leftBrace)
    (keywords : ∀ token ∈ scrap.tail, token.kind.startsStatement = false)
    (starts : ∀ token ∈ scrap.head?, token.kind ≠ .forWord ∧ token.kind ≠ .elseWord)
    (restStarts : ∀ token ∈ rest.head?, token.kind ≠ .elseWord)
    : parse allowExpression (front ++ scrap ++ rest ++ [restEnd]) depth
        = {
            statements :=
              (parse allowExpression (front ++ [frontEnd]) depth).statements
              ++ (parse allowExpression (scrap ++ [scrapEnd]) depth).statements
              ++ (parse allowExpression (rest ++ [restEnd]) depth).statements
            errors :=
              (parse allowExpression (scrap ++ [scrapEnd]) depth).errors
              ++ (parse allowExpression (rest ++ [restEnd]) depth).errors
          } := by
  have holds : Scrap scrap :=
    .of_tokens scrapEnded scrapCloses opensNoBlock keywords fun token first =>
      (starts token first).1
  have frontClosed : EndsClosed (front ++ [frontEnd]) := by
    rcases frontCloses with rfl | ⟨others, token, rfl, kind⟩
    · exact .of_singleton frontEnd
    · rw [List.append_assoc]
      exact .of_semicolon kind
  have noElse : ∀ token ∈ (rest ++ [restEnd]).head?, token.kind ≠ .elseWord := by
    cases rest with
    | nil => simp [(Ended.snoc_iff.1 restEnded).1]
    | cons first rest => exact restStarts
  obtain ⟨first, others, split⟩ := List.exists_cons_of_ne_nil holds.ne_nil
  have firstOther : first.kind ≠ .elseWord := (starts first (by simp [split])).2
  obtain ⟨result, errors, scrapParsed, run⟩ :=
    round_of_scrap allowExpression holds scrapEnded restEnded noElse
  obtain ⟨results, after, restRounds, atEnd, restParsed⟩ :=
    rounds_of_parse allowExpression depth restEnded
  have frontRounds := rounds_of_clean frontEnded frontClosed clean first
    (others ++ (rest ++ [restEnd])) firstOther
  rw [← List.cons_append, ← split] at frontRounds
  have scrapGoesOn
      : (Cursor.start (scrap ++ (rest ++ [restEnd]))).atEnd = false := by
    have inside := (Ended.snoc_iff.1 scrapEnded).2 first (by simp [split])
    simp [Cursor.atEnd, Cursor.next, Cursor.start, split, inside]
  have restBehind := rounds_behind errors restEnded restRounds
  rw [show errors ++ (Cursor.start (rest ++ [restEnd])).errors = errors from List.append_nil _]
    at restBehind
  have rounds := frontRounds.append (.round scrapGoesOn run restBehind)
  have ended : Ended (front ++ (scrap ++ (rest ++ [restEnd]))) :=
    (holds.ended restEnded).behind (Ended.snoc_iff.1 frontEnded).2
  rw [scrapParsed, restParsed]
  have parsed := parse_of_rounds ended rounds atEnd
  have collected
      : ((parse allowExpression (front ++ [frontEnd]) depth).statements.map some
            ++ result :: results).filterMap id
          = (parse allowExpression (front ++ [frontEnd]) depth).statements
            ++ (result.toList ++ results.filterMap id) := by
    rw [List.filterMap_append, List.filterMap_map]
    cases result <;> simp
  rw [collected] at parsed
  simpa only [List.append_assoc] using parsed

/-- A declaration without its name, between two statements that stand. -/
theorem recovery_isolates_nameless
    : parse false
        [⟨.identifier, "a", none, 1⟩, ⟨.semicolon, ";", none, 1⟩, ⟨.varWord, "var", none, 1⟩,
          ⟨.semicolon, ";", none, 1⟩, ⟨.identifier, "a", none, 1⟩, ⟨.semicolon, ";", none, 1⟩,
          Token.endOfInput 1] standardDepth
      = {
          statements :=
            [.expression (.variable ⟨⟨.identifier, "a", none, 1⟩, ()⟩),
              .expression (.variable ⟨⟨.identifier, "a", none, 1⟩, ()⟩)]
          errors := [⟨1, .atLexeme ";", .expected .variableName⟩]
        } :=
  @recovery_isolates false standardDepth [⟨.identifier, "a", none, 1⟩, ⟨.semicolon, ";", none, 1⟩]
    [⟨.varWord, "var", none, 1⟩, ⟨.semicolon, ";", none, 1⟩]
    [⟨.identifier, "a", none, 1⟩, ⟨.semicolon, ";", none, 1⟩]
    (Token.endOfInput 1) (Token.endOfInput 1) (Token.endOfInput 1)
    ⟨_ :: [_], _, rfl, rfl, by decide⟩ ⟨_ :: [_], _, rfl, rfl, by decide⟩
    ⟨_ :: [_], _, rfl, rfl, by decide⟩ (.inr ⟨[_], _, rfl, rfl⟩) rfl ⟨[_], _, rfl, rfl, by decide⟩
    (by decide) (by decide) (by decide) (by decide)

end

end Lox.Grammar
