import Lox.Proofs.Grammar.Contracts
import Lox.Proofs.Grammar.Following
import Lox.Proofs.Grammar.Operands

/-! Reading stretches of tokens that stand in the grammar.

A rule reads a derived stretch up to a token that cannot go on with it. The rules are run
symbolically: one equation for each step, with the tokens behind the stretch left open.
-/

namespace Lox.Grammar

-----
-- Running rules

/-- The cursor at another place of the text. -/
def Cursor.facing (cursor : Cursor) (ahead : List Token) : Cursor :=
  { cursor with ahead }

/-- The rule takes the stretch, whatever stands behind it, if that starts as told. -/
def Reads {α : Type} (rule : Rule α) (context : Cursor) (tokens : List Token)
    (follows : TokenKind → Prop) (value : α)
    : Prop :=
  ∀ first rest,
    follows first.kind
    → rule (context.facing (tokens ++ first :: rest)) = .ok value (context.facing (first :: rest))

section Running

variable {α β : Type} {before after : Cursor}

/-- Behind a rule that yields a value the next one runs. -/
theorem bind_of_ok {rule : Rule α} {next : α → Rule β} {value : α}
    (run : rule before = .ok value after)
    : (rule >>= next) before = next value after := by
  change EStateM.bind rule next before = _
  unfold EStateM.bind
  rw [run]

/-- A rule that unwinds is the end of what follows it. -/
theorem bind_of_error {rule : Rule α} {next : α → Rule β} {unwinding : Unwinding}
    (run : rule before = .error unwinding after)
    : (rule >>= next) before = .error unwinding after := by
  change EStateM.bind rule next before = _
  unfold EStateM.bind
  rw [run]

/-- The value of a rule that succeeds is changed. -/
theorem map_of_ok {rule : Rule α} {f : α → β} {value : α}
    (run : rule before = .ok value after)
    : (f <$> rule) before = .ok (f value) after := by
  change EStateM.map f rule before = _
  unfold EStateM.map
  rw [run]

/-- A rule that unwinds has no value to change. -/
theorem map_of_error {rule : Rule α} {f : α → β} {unwinding : Unwinding}
    (run : rule before = .error unwinding after)
    : (f <$> rule) before = .error unwinding after := by
  change EStateM.map f rule before = _
  unfold EStateM.map
  rw [run]

/-- Looking at the cursor hands it on as it is. -/
theorem get_bind (next : Cursor → Rule α)
    : ((MonadState.get : Rule Cursor) >>= next) before = next before before :=
  rfl

variable {context : Cursor} {tokens : List Token} {follows : TokenKind → Prop} {value : α}

/-- A rule reads the same stretch where its context has been brought in for it. -/
theorem Reads.inContext {enter : Cursor → Cursor} {leave : Cursor → Cursor → Cursor}
    {rule : Rule α} (back : TakesBack enter leave)
    (keepsAhead : ∀ ahead, enter (context.facing ahead) = (enter context).facing ahead)
    (keepsErrors : (enter context).errors = context.errors)
    (reads : Reads rule (enter context) tokens follows value)
    : Reads (inContext enter leave rule) context tokens follows value := by
  intro first rest follow
  have run := reads first rest follow
  rw [← keepsAhead] at run
  unfold Grammar.inContext
  rw [run]
  simp only
  rw [back _ _ (by rw [keepsAhead]; rfl) (by rw [keepsAhead]; rfl)]
  simp [Cursor.facing, keepsErrors]

/-- What is read with the comma operator switched is read behind the switch. -/
theorem Reads.withComma {enabled : Bool} {rule : Rule α}
    (reads : Reads rule { context with commaEnabled := enabled } tokens follows value)
    : Reads (withComma enabled rule) context tokens follows value :=
  .inContext (takesBack_withComma enabled) (fun _ => rfl) rfl reads

/-- What is read outside of loops is read in the body of a function. -/
theorem Reads.outsideLoops {rule : Rule α}
    (reads : Reads rule { context with loopDepth := 0 } tokens follows value)
    : Reads (outsideLoops rule) context tokens follows value :=
  .inContext takesBack_outsideLoops (fun _ => rfl) rfl reads

/-- What is read inside of one more loop is read in the body of a loop. -/
theorem Reads.insideLoop {rule : Rule α}
    (reads : Reads rule { context with loopDepth := context.loopDepth + 1 } tokens follows value)
    : Reads (insideLoop rule) context tokens follows value :=
  .inContext takesBack_insideLoop (fun _ => rfl) rfl reads

variable {token : Token} {rest : List Token}

/-- A token of one of the kinds is taken. -/
theorem acceptAny?_of_mem {kinds : List TokenKind} (found : token.kind ∈ kinds)
    (inside : token.kind ≠ .endOfInput)
    : acceptAny? kinds (context.facing (token :: rest))
        = .ok (some token) (context.facing rest) := by
  simp [acceptAny?, Cursor.nextIsAny, Cursor.atEnd, Cursor.next, Cursor.facing, Cursor.drop,
    found, inside]

/-- A token of no such kind is left where it stands. -/
theorem acceptAny?_of_not_mem {kinds : List TokenKind} (missing : token.kind ∉ kinds)
    : acceptAny? kinds (context.facing (token :: rest))
        = .ok none (context.facing (token :: rest)) := by
  simp [acceptAny?, Cursor.nextIsAny, Cursor.next, Cursor.facing, missing]

/-- A token of the kind is taken. -/
theorem accept?_of_kind {kind : TokenKind} (found : token.kind = kind)
    (inside : kind ≠ .endOfInput)
    : accept? kind (context.facing (token :: rest)) = .ok (some token) (context.facing rest) :=
  acceptAny?_of_mem (by simpa using found) (found ▸ inside)

/-- A token of another kind is left where it stands. -/
theorem accept?_of_other {kind : TokenKind} (missing : token.kind ≠ kind)
    : accept? kind (context.facing (token :: rest)) = .ok none (context.facing (token :: rest)) :=
  acceptAny?_of_not_mem (by simpa using missing)

/-- The answer is that a token of the kind was taken. -/
theorem accept_of_kind {kind : TokenKind} (found : token.kind = kind)
    (inside : kind ≠ .endOfInput)
    : accept kind (context.facing (token :: rest)) = .ok true (context.facing rest) :=
  bind_of_ok (accept?_of_kind found inside)

/-- The answer is that a token of another kind was left. -/
theorem accept_of_other {kind : TokenKind} (missing : token.kind ≠ kind)
    : accept kind (context.facing (token :: rest)) = .ok false (context.facing (token :: rest)) :=
  bind_of_ok (accept?_of_other missing)

/-- A token that has to be there is taken where it is. -/
theorem expect_of_kind {kind : TokenKind} (item : Expected) (found : token.kind = kind)
    (inside : kind ≠ .endOfInput)
    : expect kind item (context.facing (token :: rest)) = .ok token (context.facing rest) :=
  bind_of_ok (accept?_of_kind found inside)

/-- The kind of the next token is looked at and nothing moves. -/
theorem nextIs_run (kind : TokenKind) (inside : kind ≠ .endOfInput)
    : nextIs kind (context.facing (token :: rest))
        = .ok (token.kind == kind) (context.facing (token :: rest)) := by
  change EStateM.Result.ok (Cursor.nextIsAny _ [kind]) _ = _
  by_cases same : token.kind = kind
  · simp [Cursor.nextIsAny, Cursor.atEnd, Cursor.next, Cursor.facing, same, inside]
  · simp [Cursor.nextIsAny, Cursor.next, Cursor.facing, same]

/-- Inside of the text the end is not reached. -/
theorem atEnd_run (inside : token.kind ≠ .endOfInput)
    : atEnd (context.facing (token :: rest)) = .ok false (context.facing (token :: rest)) := by
  change EStateM.Result.ok (Cursor.atEnd _) _ = _
  simp [Cursor.atEnd, Cursor.next, Cursor.facing, inside]

/-- A token inside of the text is dropped. -/
theorem drop_run (inside : token.kind ≠ .endOfInput)
    : (modify Cursor.drop : Rule Unit) (context.facing (token :: rest))
        = .ok () (context.facing rest) := by
  change EStateM.Result.ok () (Cursor.drop _) = _
  simp [Cursor.drop, Cursor.atEnd, Cursor.next, Cursor.facing, inside]

/-- A rule behind the token that it was chosen by. -/
theorem dropped_run {rule : Rule α} {kind : TokenKind} (found : token.kind = kind)
    (inside : kind ≠ .endOfInput)
    : (do modify Cursor.drop; rule) (context.facing (token :: rest))
        = rule (context.facing rest) :=
  bind_of_ok (drop_run (found ▸ inside))

/-- With room for one more argument nothing is reported. -/
theorem checkRoom_run {earlier : Nat} (room : earlier < maxArguments) (problem : Problem)
    : checkRoom earlier problem before = .ok () before := by
  unfold checkRoom
  rw [if_neg (Nat.not_le_of_lt room)]
  rfl

/-- Few enough parameters are not reported. -/
theorem checkNames_run {names : List Token} (few : names.length ≤ maxArguments) (arrow : Token)
    : checkNames arrow names before = .ok () before := by
  unfold checkNames
  rw [if_neg (Nat.not_lt_of_le few)]
  rfl

end Running

-----
-- What may follow

/-- A token that an expression of the level cannot go on with. -/
def Stops (level : Nat) (commas : Bool) (kind : TokenKind) : Prop :=
  level < looseness commas kind ∧ kind ≠ .arrow

instance (level : Nat) (commas : Bool) (kind : TokenKind) : Decidable (Stops level commas kind) :=
  inferInstanceAs (Decidable (_ ∧ _))

/-- What stops a level stops the tighter ones as well. -/
theorem Stops.tighter {level tight : Nat} {commas : Bool} {kind : TokenKind}
    (stops : Stops level commas kind) (le : tight ≤ level)
    : Stops tight commas kind :=
  ⟨Nat.lt_of_le_of_lt le stops.1, stops.2⟩

/-- Operators that the level can go on with do not stop it. -/
theorem Stops.ne {level : Nat} {commas : Bool} {kind operator : TokenKind}
    (stops : Stops level commas kind) (tight : looseness commas operator ≤ level)
    : kind ≠ operator := by
  rintro rfl
  exact Nat.not_lt_of_le tight stops.1

/-- What may follow a statement or declaration. -/
def Ending.Stops (ending : Ending) (kind : TokenKind) : Prop :=
  (ending = .openBranch → kind ≠ .elseWord)
  ∧ (ending = .openLiteral → Grammar.Stops 9 true kind ∧ kind ≠ .semicolon)

/-- The kinds of token that a declaration can start with. -/
def startsDeclaration (kind : TokenKind) : Bool :=
  startsExpression kind || kind.startsStatement || kind == .breakWord || kind == .leftBrace

/-- Nested rules read what the nested language derives. -/
structure Rules.Complete (rules : Rules) (inner : Language) : Prop where
  greedy : ∀ following, inner.policy following → Policy.greedy following
  expression
    : ∀ {commas tokens value},
        inner.expression commas tokens value
        → ∀ context : Cursor,
            context.commaEnabled = commas
            → Reads rules.expression context tokens (Stops 9 commas) value
  expressionStarts
    : ∀ {commas tokens value},
        inner.expression commas tokens value → Starts (startsExpression ·) tokens
  names
    : ∀ {tokens names},
        inner.names tokens names
        → ∃ value, inner.expression true tokens value ∧ parameterNames? value = some names
  statement
    : ∀ {inLoop ending tokens statement},
        inner.statement inLoop ending tokens statement
        → ∀ context : Cursor,
            context.commaEnabled = true
            → (context.loopDepth != 0) = inLoop
            → Reads rules.statement context tokens ending.Stops statement
  /-- Statements other than declarations do not end in an initial value. -/
  statementEnding
    : ∀ {inLoop ending tokens statement},
        inner.statement inLoop ending tokens statement → ending ≠ .openLiteral
  declaration
    : ∀ {inLoop ending tokens statement},
        inner.declaration inLoop ending tokens statement
        → ∀ context : Cursor,
            context.commaEnabled = true
            → (context.loopDepth != 0) = inLoop
            → Reads rules.declaration context tokens ending.Stops (some statement)
  declarationStarts
    : ∀ {inLoop ending tokens statement},
        inner.declaration inLoop ending tokens statement → Starts (startsDeclaration ·) tokens

-----
-- Chains

section Chains

variable {operator? : Rule (Option Token)} {operand : Rule SourceExpr}
  {combine : SourceExpr → Token → SourceExpr → SourceExpr} {before between after : Cursor}

/-- Without an operator the chain ends in front of the next token. -/
theorem chainFrom_of_none {left : SourceExpr} {bound : List Token}
    (missing : operator? before = .ok none before)
    : chainFrom operator? operand combine left bound before = .ok left before := by
  cases bound with
  | nil => rfl
  | cons _ bound => exact bind_of_ok missing

/-- Behind an operator the chain goes on from both operands joined. -/
theorem chainFrom_of_some {left right : SourceExpr} {operator token : Token}
    {bound : List Token} (taken : operator? before = .ok (some operator) between)
    (read : operand between = .ok right after)
    : chainFrom operator? operand combine left (token :: bound) before
        = chainFrom operator? operand combine (combine left operator right) bound after :=
  (bind_of_ok taken).trans (bind_of_ok read)

variable {operators : List TokenKind} {derives : List Token → SourceExpr → Prop}
  {level : Nat} {commas : Bool} {context : Cursor} {tokens : List Token} {value : SourceExpr}

/-- A derived chain is read from its first operand on, and as many rounds are left as there are
tokens. -/
theorem Chain.reads_from
    (operandReads
      : ∀ {tokens value}, derives tokens value → Reads operand context tokens (Stops level commas) value)
    (operatorTaken
      : ∀ (token : Token) rest,
          token.kind ∈ operators
          → operator? (context.facing (token :: rest)) = .ok (some token) (context.facing rest))
    (loose : ∀ kind ∈ operators, Stops level commas kind)
    (derived : Chain derives operators combine tokens value) (first : Token) (rest : List Token)
    (stops : Stops level commas first.kind)
    : ∃ bound,
        rest.length < bound.length
        ∧ chain operator? operand combine (context.facing (tokens ++ first :: rest))
            = chainFrom operator? operand combine value bound (context.facing (first :: rest)) := by
  induction derived generalizing first rest with
  | one single =>
      refine ⟨first :: rest, Nat.lt_succ_self _, ?_⟩
      exact bind_of_ok (operandReads single first rest stops)
  | @more tokens left operator others right front joined back ih =>
      obtain ⟨bound, enough, run⟩ := ih operator (others ++ first :: rest) (loose _ joined)
      cases bound with
      | nil => simp at enough
      | cons token bound =>
          refine ⟨bound, ?_, ?_⟩
          · simp only [List.length_append, List.length_cons] at enough
            omega
          · rw [List.append_assoc, List.cons_append, run]
            exact chainFrom_of_some (operatorTaken _ _ joined) (operandReads back first rest stops)

/-- A chain of the grammar is read as such, by induction on its operands. -/
theorem Chain.reads
    (operandReads
      : ∀ {tokens value}, derives tokens value → Reads operand context tokens (Stops level commas) value)
    (operatorTaken
      : ∀ (token : Token) rest,
          token.kind ∈ operators
          → operator? (context.facing (token :: rest)) = .ok (some token) (context.facing rest))
    (operatorMissing
      : ∀ (token : Token) rest,
          token.kind ∉ operators
          → operator? (context.facing (token :: rest)) = .ok none (context.facing (token :: rest)))
    (loose : ∀ kind ∈ operators, Stops level commas kind)
    (tight : ∀ kind ∈ operators, ¬Stops (level + 1) commas kind)
    (derived : Chain derives operators combine tokens value)
    : Reads (chain operator? operand combine) context tokens (Stops (level + 1) commas) value := by
  intro first rest stops
  obtain ⟨bound, -, run⟩ := Chain.reads_from operandReads operatorTaken loose derived first rest
    (stops.tighter (Nat.le_succ level))
  rw [run]
  exact chainFrom_of_none (operatorMissing _ _ fun found => tight _ found stops)

end Chains

-----
-- Rounds of declarations

/-- The declarations between two places, with nothing for those that had a mistake. -/
inductive Rounds (declaration : Rule (Option SourceStmt)) (stop : Cursor → Bool)
    : Cursor → List (Option SourceStmt) → Cursor → Prop
  | done {cursor} : Rounds declaration stop cursor [] cursor
  | round {before between after result results} (goesOn : stop before = false)
    (run : declaration before = .ok result between)
    (rest : Rounds declaration stop between results after)
    : Rounds declaration stop before (result :: results) after

namespace Rounds

variable {declaration : Rule (Option SourceStmt)} {stop : Cursor → Bool}
  {before between after : Cursor} {results others : List (Option SourceStmt)}

/-- Rounds in a row are rounds. -/
theorem append (front : Rounds declaration stop before results between)
    (back : Rounds declaration stop between others after)
    : Rounds declaration stop before (results ++ others) after := by
  induction front with
  | done => exact back
  | round goesOn run _ ih => exact .round goesOn run (ih back)

/-- A loop that is allowed enough rounds runs through a chain of rounds up to where it stops. -/
theorem run (rounds : Rounds declaration stop before results after) (stops : stop after = true)
    {bound : List Token} (enough : results.length ≤ bound.length)
    : declarationsUntil stop declaration bound before = .ok (results.filterMap id) after := by
  induction rounds generalizing bound with
  | done =>
      cases bound with
      | nil => rfl
      | cons _ bound =>
          refine (get_bind _).trans ?_
          rw [if_pos stops]
          rfl
  | @round _ _ _ result _ goesOn run _ ih =>
      cases bound with
      | nil => simp at enough
      | cons _ bound =>
          refine (get_bind _).trans ?_
          rw [goesOn, if_neg Bool.false_ne_true]
          refine (bind_of_ok run).trans ((bind_of_ok (ih stops (Nat.le_of_succ_le_succ enough))).trans ?_)
          cases result <;> rfl

end Rounds

-----
-- Blocks and function literals

section Nested

variable {rules : Rules} {inner : Language} {context : Cursor} {tokens : List Token}

/-- A closed statement can be followed by anything. -/
theorem Ending.closed_stops (kind : TokenKind) : Ending.closed.Stops kind :=
  ⟨nofun, nofun⟩

/-- Whatever starts a declaration neither continues an open branch nor, if the policy admits it,
an open literal. -/
theorem Ending.stops_of_starts (complete : rules.Complete inner) {ending : Ending} {token : Token}
    {rest : List Token} (starts : startsDeclaration token.kind)
    (admitted : ending.admits inner.policy (token :: rest))
    : ending.Stops token.kind := by
  refine ⟨fun _ elseWord => ?_, fun literal => ?_⟩
  · rw [elseWord] at starts
    exact absurd starts (by decide)
  · have apart : token.kind ≠ .leftParen ∧ token.kind ≠ .minus ∧ token.kind ≠ .semicolon :=
      complete.greedy _ (admitted literal) token.kind rfl
    refine ⟨?_, apart.2.2⟩
    revert starts apart
    generalize token.kind = kind
    cases kind <;> decide

/-- A derived sequence is read declaration by declaration, up to a token that closes the last. -/
theorem Sequence.rounds (complete : rules.Complete inner) {inLoop : Bool} {stop : Cursor → Bool}
    {statements : List SourceStmt} (context : Cursor) (commas : context.commaEnabled = true)
    (loop : (context.loopDepth != 0) = inLoop) {first : Token} (rest : List Token)
    (goesOn
      : ∀ (token : Token) others,
          startsDeclaration token.kind → stop (context.facing (token :: others)) = false)
    (closes
      : ∀ {ending last statement} front,
          tokens = front ++ last
          → inner.declaration inLoop ending last statement
          → ending.Stops first.kind)
    (derived : Sequence inner.policy (inner.declaration inLoop) tokens statements)
    : Rounds rules.declaration stop (context.facing (tokens ++ first :: rest))
        (statements.map some) (context.facing (first :: rest)) := by
  induction derived with
  | nil => exact .done
  | @cons ending tokens statement following others head admitted tail ih =>
      have rounds := ih fun front split derived =>
        closes (tokens ++ front) (by rw [split, List.append_assoc]) derived
      obtain ⟨token, more, rfl, starts⟩ := complete.declarationStarts head
      refine .round (goesOn token _ starts) ?_ rounds
      rw [List.append_assoc]
      have reads := complete.declaration head context commas loop
      cases tail with
      | nil => exact reads first rest (closes [] (List.append_nil _) head)
      | cons head' _ _ =>
          obtain ⟨next, beyond, rfl, nextStarts⟩ := complete.declarationStarts head'
          exact reads next _ (Ending.stops_of_starts complete nextStarts admitted)

/-- No statement is empty, so that a sequence is at least as long as it has statements. -/
theorem Sequence.length_le (complete : rules.Complete inner) {inLoop : Bool}
    {statements : List SourceStmt}
    (derived : Sequence inner.policy (inner.declaration inLoop) tokens statements)
    : statements.length ≤ tokens.length := by
  induction derived with
  | nil => exact Nat.le_refl _
  | cons head _ _ ih =>
      obtain ⟨token, more, rfl, -⟩ := complete.declarationStarts head
      simp only [List.length_append, List.length_cons]
      omega

/-- A derived sequence is read up to a token that stops it. -/
theorem Sequence.reads (complete : rules.Complete inner) {inLoop : Bool} {stop : Cursor → Bool}
    {statements : List SourceStmt} (context : Cursor) (commas : context.commaEnabled = true)
    (loop : (context.loopDepth != 0) = inLoop) {last : Token} (rest : List Token)
    (stops : stop (context.facing (last :: rest)) = true)
    (goesOn
      : ∀ (token : Token) others,
          startsDeclaration token.kind → stop (context.facing (token :: others)) = false)
    (closes : ∀ ending : Ending, ending.Stops last.kind)
    (derived : Sequence inner.policy (inner.declaration inLoop) tokens statements)
    (bound : List Token) (enough : tokens.length ≤ bound.length)
    : declarationsUntil stop rules.declaration bound (context.facing (tokens ++ last :: rest))
        = .ok statements (context.facing (last :: rest)) := by
  have rounds := derived.rounds complete context commas loop rest goesOn fun _ _ _ => closes _
  have fewer : (statements.map some).length ≤ bound.length := by
    rw [List.length_map]
    exact Nat.le_trans (derived.length_le complete) enough
  simpa using rounds.run stops fewer

/-- At a closing brace the block is over. -/
theorem atBlockEnd_rightBrace {closing : Token} {rest : List Token}
    (closes : closing.kind = .rightBrace)
    : (context.facing (closing :: rest)).atBlockEnd = true := by
  simp [Cursor.atBlockEnd, Cursor.nextIsAny, Cursor.atEnd, Cursor.next, Cursor.facing, closes]

/-- A token that starts a declaration does not close the block. -/
theorem atBlockEnd_of_starts {token : Token} {rest : List Token}
    (starts : startsDeclaration token.kind)
    : (context.facing (token :: rest)).atBlockEnd = false := by
  have other {kind : TokenKind} (never : startsDeclaration kind = false) : token.kind ≠ kind := by
    rintro rfl
    simp [never] at starts
  have inside : token.kind ≠ .endOfInput := other rfl
  have open_ : token.kind ≠ .rightBrace := other rfl
  simp [Cursor.atBlockEnd, Cursor.nextIsAny, Cursor.atEnd, Cursor.next, Cursor.facing, inside, open_]

/-- A block is read up to its closing brace, once the opening brace has been taken. -/
theorem Block.reads (complete : rules.Complete inner) {inLoop : Bool} {braced : List Token}
    {statements : List SourceStmt} (derived : Block inner inLoop braced statements)
    (context : Cursor) (loop : (context.loopDepth != 0) = inLoop)
    : ∃ opening tokens,
        braced = opening :: tokens
        ∧ opening.kind = .leftBrace
        ∧ Reads (block rules) context tokens (fun _ => True) statements := by
  obtain ⟨opens, body, closes⟩ := derived
  rename_i opening tokens closing
  refine ⟨opening, tokens ++ [closing], rfl, opens, fun first rest _ => ?_⟩
  rw [List.append_assoc, List.singleton_append]
  let inside : Cursor := { context with commaEnabled := true }
  have declarations
      : Reads (do declarationsUntil Cursor.atBlockEnd rules.declaration (← get).ahead)
          inside tokens (· = .rightBrace) statements := by
    intro last others kind
    have ends (ending : Ending) : ending.Stops last.kind := by
      rw [kind]
      cases ending <;> simp [Ending.Stops, Stops, looseness]
    refine (get_bind _).trans ?_
    refine Sequence.reads complete inside rfl loop _ (atBlockEnd_rightBrace kind)
      (fun _ _ starts => atBlockEnd_of_starts starts) ends body _ ?_
    simp [Cursor.facing]
  refine (bind_of_ok (declarations.withComma closing _ closes)).trans ?_
  exact bind_of_ok (expect_of_kind _ closes (by decide))

/-- The block of a function is read behind its opening brace. -/
theorem Block.functionBody_reads (complete : rules.Complete inner) {braced : List Token}
    {statements : List SourceStmt} (derived : Block inner false braced statements)
    (context : Cursor)
    : ∃ opening tokens,
        braced = opening :: tokens
        ∧ opening.kind = .leftBrace
        ∧ Reads (functionBody rules) context tokens (fun _ => True) statements := by
  let inside : Cursor := { context with loopDepth := 0 }
  obtain ⟨opening, tokens, rfl, opens, reads⟩ := derived.reads complete inside rfl
  exact ⟨opening, tokens, rfl, opens, reads.outsideLoops⟩

/-- The block behind an arrow is read with its parameters checked first. -/
theorem Block.arrowBody_reads (complete : rules.Complete inner) {braced : List Token}
    {statements : List SourceStmt} (derived : Block inner false braced statements)
    (names : List Token) (context : Cursor)
    : Reads (arrowBody rules names) context braced (fun _ => True)
        (.function (.mk names statements)) := by
  obtain ⟨opening, tokens, rfl, opens, reads⟩ := derived.functionBody_reads complete context
  intro first rest _
  refine (bind_of_ok (expect_of_kind _ opens (by decide))).trans ?_
  exact bind_of_ok (reads first rest trivial)

end Nested

end Lox.Grammar
