import Lox.Proofs.Grammar.Endings
import Lox.Proofs.Grammar.LiteralTokens
import Lox.Proofs.Grammar.Modes
import Lox.Token.Scan

/-! A function literal ends the declaration that it initializes.

Behind the brace of the literal the semicolon may be left out, unless what follows can also be read
as going on with the literal: a parenthesis makes a call of it, and a minus a difference. No other
token that starts a declaration goes on with an expression.
-/

namespace Lox.Grammar

-----
-- Where literals come from

section

variable {α β : Type} {before after : Cursor}

/-- Two rules in a row that yield a value each yield one. -/
theorem of_bind_ok {rule : Rule α} {next : α → Rule β} {result : β}
    (run : (rule >>= next) before = .ok result after)
    : ∃ value between, rule before = .ok value between ∧ next value between = .ok result after := by
  change EStateM.bind rule next before = _ at run
  unfold EStateM.bind at run
  cases first : rule before with
  | error unwinding between =>
      rw [first] at run
      contradiction
  | ok value between =>
      rw [first] at run
      exact ⟨value, between, rfl, run⟩

/-- A value that was changed comes from one that the rule yields. -/
theorem of_map_ok {rule : Rule α} {f : α → β} {result : β}
    (run : (f <$> rule) before = .ok result after)
    : ∃ value, rule before = .ok value after ∧ f value = result := by
  change EStateM.map f rule before = _ at run
  unfold EStateM.map at run
  cases first : rule before with
  | error unwinding between =>
      rw [first] at run
      contradiction
  | ok value between =>
      rw [first] at run
      obtain ⟨rfl, rfl⟩ := EStateM.Result.ok.inj run
      exact ⟨value, rfl, rfl⟩

/-- A rule that takes what is known to stand ahead goes on behind it. -/
theorem of_bind_run {rule : Rule α} {next : α → Rule β} {value : α} {between : Cursor}
    {result : β} (run : (rule >>= next) before = .ok result after)
    (first : rule before = .ok value between)
    : next value between = .ok result after :=
  (bind_of_ok first).symm.trans run

/-- A declaration that was not dropped is what the rule yields. -/
theorem recovering_some {rule : Rule SourceStmt} {statement : SourceStmt}
    (run : recovering rule before = .ok (some statement) after)
    : rule before = .ok statement after := by
  unfold recovering at run
  cases inner : rule before with
  | ok value between =>
      rw [inner] at run
      obtain ⟨same, rfl⟩ := EStateM.Result.ok.inj run
      rw [Option.some.inj same]
  | error unwinding between =>
      rw [inner] at run
      cases unwinding <;> simp at run

/-- A loop of operators yields the literal it began with, or none. -/
theorem chainFrom_literal {operator? : Rule (Option Token)} {operand : Rule SourceExpr}
    {combine : SourceExpr → Token → SourceExpr → SourceExpr}
    (plain : ∀ left operator right, isFunctionLiteral (some (combine left operator right)) = false)
    (idle : ∀ {before after}, operator? before = .ok none after → after = before)
    {left : SourceExpr} {bound : List Token} {function : Lambda Unit}
    (run
      : chainFrom operator? operand combine left bound before = .ok (.function function) after)
    : left = .function function
      ∧ after = before
      ∧ (bound ≠ [] → operator? before = .ok none before) := by
  induction bound generalizing left before with
  | nil =>
      obtain ⟨rfl, rfl⟩ : left = .function function ∧ before = after := by
        simpa using EStateM.Result.ok.inj run
      exact ⟨rfl, rfl, fun some => absurd rfl some⟩
  | cons _ bound ih =>
      obtain ⟨operator, between, tried, rest⟩ := of_bind_ok run
      cases operator with
      | none =>
          obtain ⟨rfl, rfl⟩ : left = .function function ∧ between = after := by
            simpa using EStateM.Result.ok.inj rest
          obtain rfl := idle tried
          exact ⟨rfl, rfl, fun _ => tried⟩
      | some operator =>
          obtain ⟨right, behind, -, rest⟩ := of_bind_ok rest
          have literal := plain left operator right
          rw [(ih rest).1] at literal
          contradiction

/-- A chain yields a function literal only as its single operand. -/
theorem chain_literal {operator? : Rule (Option Token)} {operand : Rule SourceExpr}
    {combine : SourceExpr → Token → SourceExpr → SourceExpr}
    (plain : ∀ left operator right, isFunctionLiteral (some (combine left operator right)) = false)
    (idle : ∀ {before after}, operator? before = .ok none after → after = before)
    {function : Lambda Unit}
    (run : chain operator? operand combine before = .ok (.function function) after)
    : operand before = .ok (.function function) after
      ∧ (after.ahead ≠ [] → operator? after = .ok none after) := by
  obtain ⟨left, between, first, rest⟩ := of_bind_ok run
  obtain ⟨rfl, rfl, missing⟩ := chainFrom_literal plain idle rest
  exact ⟨first, missing⟩

/-- Where no token of the kinds is taken nothing moves. -/
theorem acceptAny?_idle {kinds : List TokenKind} (tried : acceptAny? kinds before = .ok none after)
    : after = before := by
  unfold acceptAny? at tried
  split at tried
  · simp at tried
  · simpa using (EStateM.Result.ok.inj tried).2.symm

/-- Where no comma is taken nothing moves. -/
theorem commaOperator?_idle (tried : commaOperator? before = .ok none after)
    : after = before := by
  change (if before.commaEnabled then accept? .comma else pure none) before = _ at tried
  split at tried
  · exact acceptAny?_idle tried
  · simpa using (EStateM.Result.ok.inj tried).2.symm

end

section

variable {rules : Rules} {before after : Cursor}

/-- Where no token of the kind is taken nothing moves, and the next one is of another. -/
theorem accept_missed {kind : TokenKind} (inside : kind ≠ .endOfInput)
    (tried : accept kind before = .ok false after)
    : after = before ∧ before.next.kind ≠ kind := by
  obtain ⟨token, between, tried, rest⟩ := of_bind_ok tried
  obtain ⟨missing, rfl⟩ : token.isSome = false ∧ between = after := by
    simpa using EStateM.Result.ok.inj rest
  obtain rfl : token = none := by simpa using missing
  obtain rfl := acceptAny?_idle tried
  refine ⟨rfl, fun found => ?_⟩
  simp [accept?, acceptAny?, Cursor.nextIsAny, Cursor.atEnd, found, inside] at tried

/-- Trying a token reports nothing. -/
theorem accept_errors {kind : TokenKind} {found : Bool}
    (run : accept kind before = .ok found after)
    : after.errors = before.errors := by
  obtain ⟨token, between, tried, rest⟩ := of_bind_ok run
  obtain ⟨-, rfl⟩ := EStateM.Result.ok.inj rest
  change acceptAny? [kind] before = _ at tried
  unfold acceptAny? at tried
  split at tried
  · obtain ⟨-, rfl⟩ := EStateM.Result.ok.inj tried
    unfold Cursor.drop
    split <;> rfl
  · obtain ⟨-, rfl⟩ := EStateM.Result.ok.inj tried
    rfl

/-- A call or a property read is no literal, so the loop yields the literal it began with. -/
theorem callFrom_literal {callee : SourceExpr} {bound : List Token} {function : Lambda Unit}
    (run : callFrom rules callee bound before = .ok (.function function) after)
    : callee = .function function
      ∧ after = before
      ∧ (bound ≠ [] → before.next.kind ≠ .leftParen) := by
  induction bound generalizing callee before with
  | nil =>
      obtain ⟨rfl, rfl⟩ : callee = .function function ∧ before = after := by
        simpa using EStateM.Result.ok.inj run
      exact ⟨rfl, rfl, fun some => absurd rfl some⟩
  | cons _ bound ih =>
      obtain ⟨called, between, tried, rest⟩ := of_bind_ok run
      cases called with
      | true =>
          obtain ⟨call, behind, ends, rest⟩ := of_bind_ok rest
          obtain ⟨arguments, _, -, ends⟩ := of_bind_ok ends
          obtain ⟨paren, _, -, ends⟩ := of_bind_ok ends
          have built : .call callee paren arguments = call := (EStateM.Result.ok.inj ends).1
          rw [(ih rest).1] at built
          contradiction
      | false =>
          obtain ⟨rfl, noParen⟩ := accept_missed (by decide) tried
          obtain ⟨dotted, beyond, tried', read⟩ := of_bind_ok rest
          cases dotted with
          | true =>
              obtain ⟨name, _, -, read⟩ := of_bind_ok read
              have built := (ih read).1
              contradiction
          | false =>
              obtain ⟨rfl, -⟩ := accept_missed (by decide) tried'
              obtain ⟨rfl, rfl⟩ : callee = .function function ∧ beyond = after := by
                simpa using EStateM.Result.ok.inj read
              exact ⟨rfl, rfl, fun _ => noParen⟩

/-- A call yields a function literal only as its operand, with no parenthesis behind. -/
theorem call_literal {function : Lambda Unit}
    (run : call rules before = .ok (.function function) after)
    : primary rules before = .ok (.function function) after
      ∧ (after.ahead ≠ [] → after.next.kind ≠ .leftParen) := by
  obtain ⟨callee, between, first, rest⟩ := of_bind_ok run
  obtain ⟨rfl, rfl, noParen⟩ := callFrom_literal rest
  exact ⟨first, noParen⟩

/-- A unary expression yields a function literal only as its call, without an operator. -/
theorem unaryFrom_literal {bound : List Token} {function : Lambda Unit}
    (run : unaryFrom rules bound before = .ok (.function function) after)
    : call rules before = .ok (.function function) after := by
  cases bound with
  | nil => exact run
  | cons _ bound =>
      obtain ⟨operator, between, tried, rest⟩ := of_bind_ok run
      cases operator with
      | none =>
          obtain rfl := acceptAny?_idle tried
          exact rest
      | some operator =>
          obtain ⟨operand, _, -, built⟩ := of_bind_ok rest
          have built : .unary operator operand = Expr.function function :=
            (EStateM.Result.ok.inj built).1
          contradiction

/-- A conditional expression yields a function literal only as its condition, with no question mark.
-/
theorem conditional_literal {function : Lambda Unit}
    (run : conditional rules before = .ok (.function function) after)
    : equality rules before = .ok (.function function) after := by
  obtain ⟨condition, between, first, rest⟩ := of_bind_ok run
  obtain ⟨asked, behind, tried, chosen⟩ := of_bind_ok rest
  cases asked with
  | true =>
      obtain ⟨thenCase, _, -, chosen⟩ := of_bind_ok chosen
      obtain ⟨colon, _, -, chosen⟩ := of_bind_ok chosen
      obtain ⟨elseCase, _, -, built⟩ := of_bind_ok chosen
      have built : .conditional condition thenCase elseCase = Expr.function function :=
        (EStateM.Result.ok.inj built).1
      contradiction
  | false =>
      obtain ⟨rfl, -⟩ := accept_missed (by decide) tried
      obtain ⟨rfl, rfl⟩ : condition = .function function ∧ behind = after := by
        simpa using EStateM.Result.ok.inj chosen
      exact first

/-- A literal is no target of an assignment, so assigning to one is a mistake. -/
theorem assignmentFrom_literal {bound : List Token} {function : Lambda Unit}
    (run : assignmentFrom rules bound before = .ok (.function function) after)
    (clean : after.errors = [])
    : logicOr rules before = .ok (.function function) after := by
  cases bound with
  | nil => exact run
  | cons _ bound =>
      obtain ⟨target, between, first, rest⟩ := of_bind_ok run
      obtain ⟨equals, behind, tried, assigned⟩ := of_bind_ok rest
      cases equals with
      | none =>
          obtain rfl := acceptAny?_idle tried
          obtain ⟨rfl, rfl⟩ : target = .function function ∧ behind = after := by
            simpa using EStateM.Result.ok.inj assigned
          exact first
      | some equals =>
          obtain ⟨value, beyond, -, assigned⟩ := of_bind_ok assigned
          unfold assignmentTo at assigned
          split at assigned
          · have built := (EStateM.Result.ok.inj assigned).1
            contradiction
          · have built := (EStateM.Result.ok.inj assigned).1
            contradiction
          · have reported := (EStateM.Result.ok.inj assigned).2
            rw [← reported] at clean
            simp [Cursor.report] at clean

/-- Without a mistake an expression is a function literal only if a single operand is one, and the
token behind it neither calls it nor takes something off it. -/
theorem expression_literal {function : Lambda Unit}
    (run : expression rules before = .ok (.function function) after) (clean : after.errors = [])
    : primary rules before = .ok (.function function) after
      ∧ (after.ahead ≠ [] → after.next.kind ≠ .leftParen ∧ after.next.kind ≠ .minus) := by
  have plain (left : SourceExpr) (operator : Token) (right : SourceExpr)
      : isFunctionLiteral (some (.binary left operator right)) = false :=
    rfl
  have plain' (left : SourceExpr) (operator : Token) (right : SourceExpr)
      : isFunctionLiteral (some (.logical left operator right)) = false :=
    rfl
  have disjunction : logicOr rules before = .ok (.function function) after :=
    assignmentFrom_literal run clean
  have conjunction := (chain_literal plain' acceptAny?_idle disjunction).1
  have listed := (chain_literal plain' acceptAny?_idle conjunction).1
  have choice := (chain_literal plain commaOperator?_idle listed).1
  have compared := (chain_literal plain acceptAny?_idle (conditional_literal choice)).1
  have sum := (chain_literal plain acceptAny?_idle compared).1
  obtain ⟨product, noSign⟩ := chain_literal plain acceptAny?_idle sum
  have negated := (chain_literal plain acceptAny?_idle product).1
  obtain ⟨operand, noParen⟩ := call_literal (unaryFrom_literal negated)
  refine ⟨operand, fun more => ⟨noParen more, fun minus => ?_⟩⟩
  have missing := noSign more
  simp [acceptAny?, Cursor.nextIsAny, Cursor.atEnd, minus] at missing

end

-----
-- Declarations of literals

section

variable {allowExpression : Bool} {depth : Nat} {keyword name equals semicolon last : Token}
  {literal names rest : List Token} {function : Lambda Unit}

/-- A text that declares a variable with the tokens of a literal, without a mistake, derives the
literal. -/
theorem derives_literal (keywordKind : keyword.kind = .varWord) (assigns : equals.kind = .equal)
    (written : LiteralTokens literal names) (semicolonKind : semicolon.kind = .semicolon)
    (ended : Ended (keyword :: name :: equals :: (literal ++ [semicolon, last])))
    (declared
      : (parse allowExpression
          (keyword :: name :: equals :: (literal ++ [semicolon, last])) depth).errors = [])
    : ∃ statements,
        (language .greedy depth).expression true literal (.function (.mk names statements)) := by
  have closed : EndsClosed ((keyword :: name :: equals :: literal) ++ [semicolon, last]) :=
    .of_semicolon semicolonKind
  have split
      : keyword :: name :: equals :: literal ++ [semicolon, last]
        = keyword :: name :: equals :: (literal ++ [semicolon]) ++ [last] := by
    simp
  rw [← List.cons_append, ← List.cons_append, ← List.cons_append, split] at declared ended
  rw [split] at closed
  have derived := derives_of_closed ended closed declared
  generalize whole : keyword :: name :: equals :: (literal ++ [semicolon]) = tokens at derived
  generalize (parse allowExpression _ depth).statements = statements at derived
  cases derived with
  | nil => contradiction
  | @cons ending front _ following _ head _ tail =>
      cases (show Declaration (language .greedy depth) false ending front _ from head) with
      | «class» kind | function kind =>
          obtain rfl := (List.cons.inj whole).1
          rw [keywordKind] at kind
          contradiction
      | declaration _ initial =>
          exact written.of_initial assigns initial (List.cons.inj whole).2.symm
      | statement plain =>
          have complete := rules_complete false .greedy (fun _ greedy => greedy) depth
          obtain ⟨token, others, rfl, starts⟩ := Statement.starts complete plain
          obtain rfl := (List.cons.inj whole).1
          rw [keywordKind] at starts
          contradiction

/-- The kinds of token behind a literal that could go on with it. -/
def goesOnWithLiteral (kind : TokenKind) : Bool :=
  kind == .leftParen || kind == .minus

/-- A declaration of a literal is read up to any token that does not go on with the literal. -/
theorem literal_declared (keywordKind : keyword.kind = .varWord) (named : name.kind = .identifier)
    (assigns : equals.kind = .equal)
    (derived : (language .greedy depth).expression true literal (.function function))
    {first : Token} (others : List Token)
    (starts : startsDeclaration first.kind = true ∨ first.kind = .endOfInput)
    (apart : goesOnWithLiteral first.kind = false)
    : (rules allowExpression (depth + 1)).declaration
          (Cursor.start (keyword :: name :: equals :: (literal ++ first :: others)))
        = .ok (some (.variable name (some (.function function))))
            (Cursor.start (first :: others)) := by
  have complete := rules_complete allowExpression .greedy (fun _ greedy => greedy) (depth + 1)
  have declared
      : (language .greedy (depth + 1)).declaration false .openLiteral
          (keyword :: name :: equals :: literal) (.variable name (some (.function function))) :=
    Declaration.declaration keywordKind (.literal named assigns derived)
  refine complete.declaration declared (Cursor.start []) rfl rfl first others ?_
  refine ⟨nofun, fun _ => ?_⟩
  revert starts apart
  generalize first.kind = kind
  cases kind <;> decide

/-- A declaration of a literal with a semicolon behind it is read up to the semicolon, whatever
follows. -/
theorem literal_declared_closed (keywordKind : keyword.kind = .varWord)
    (named : name.kind = .identifier) (assigns : equals.kind = .equal)
    (derived : (language .greedy depth).expression true literal (.function function))
    (semicolonKind : semicolon.kind = .semicolon) (first : Token) (others : List Token)
    : (rules allowExpression (depth + 1)).declaration
          (Cursor.start (keyword :: name :: equals :: (literal ++ semicolon :: first :: others)))
        = .ok (some (.variable name (some (.function function))))
            (Cursor.start (first :: others)) := by
  have complete := rules_complete allowExpression .greedy (fun _ greedy => greedy) (depth + 1)
  have declared
      : (language .greedy (depth + 1)).declaration false .closed
          (keyword :: name :: equals :: (literal ++ [semicolon]))
          (.variable name (some (.function function))) :=
    Declaration.declaration keywordKind (.initialized named assigns derived semicolonKind)
  have reads := complete.declaration declared (Cursor.start []) rfl rfl first others
    (Ending.closed_stops _)
  simpa [Cursor.facing, Cursor.start] using reads

/-- In front of a token that goes on with the literal no declaration of the literal is read. -/
theorem literal_not_declared (keywordKind : keyword.kind = .varWord)
    (named : name.kind = .identifier) (assigns : equals.kind = .equal)
    (derived : (language .greedy depth).expression true literal (.function function))
    {first : Token} {others : List Token} {after : Cursor}
    (goesOn : goesOnWithLiteral first.kind = true) (clean : after.errors = [])
    : (rules allowExpression (depth + 1)).declaration
          (Cursor.start (keyword :: name :: equals :: (literal ++ first :: others)))
        ≠ .ok (some (.variable name (some (.function function)))) after := by
  intro run
  -- without any nesting there is no literal to begin with
  obtain ⟨nesting, rfl⟩ : ∃ nesting, depth = nesting + 1 :=
    Nat.exists_eq_succ_of_ne_zero fun flat => by subst flat; exact derived
  have derived : Assignment (language .greedy nesting) true literal (.function function) := derived
  have complete := rules_complete allowExpression .greedy (fun _ greedy => greedy) nesting
  let context := Cursor.start []
  let tokens := literal ++ first :: others
  have declares
      : (do modify Cursor.drop; variableDeclaration (rules allowExpression (nesting + 1)))
            (context.facing (keyword :: name :: equals :: tokens))
          = .ok (.variable name (some (.function function))) after := by
    have rule := recovering_some run
    rw [show Cursor.start _ = context.facing (keyword :: name :: equals :: tokens) from rfl,
      next_bind] at rule
    simpa only [keywordKind] using rule
  have declares := of_bind_run declares (drop_run (keywordKind ▸ by decide))
  have declares := of_bind_run declares (expect_of_kind _ named (by decide))
  obtain ⟨initial, between, started, declares⟩ := of_bind_ok declares
  have started := of_bind_run started (accept_of_kind assigns (by decide))
  obtain ⟨value, read, rfl⟩ := of_map_ok started
  obtain ⟨_, last, ended, built⟩ := of_bind_ok declares
  obtain ⟨same, rfl⟩ := EStateM.Result.ok.inj built
  obtain rfl : value = .function function := by simpa using same
  have cleanBetween : between.errors = [] := by
    obtain ⟨_, behind, tried, rest⟩ := of_bind_ok ended
    obtain ⟨-, rfl⟩ := EStateM.Result.ok.inj rest
    rw [← accept_errors tried]
    exact clean
  obtain ⟨operand, apart⟩ := expression_literal read cleanBetween
  have noArrow : first.kind ≠ .arrow := by
    intro arrow
    rw [arrow] at goesOn
    contradiction
  have single : Primary (language .greedy nesting) literal (.function function) := by
    cases derived with
    | logic operand =>
        cases operand.call rfl with
        | primary operand => exact operand
  have reached := (single.reads complete context first others noArrow).symm.trans operand
  obtain ⟨-, rfl⟩ := EStateM.Result.ok.inj reached
  have apart : first.kind ≠ .leftParen ∧ first.kind ≠ .minus := apart (List.cons_ne_nil _ _)
  simp [goesOnWithLiteral, apart] at goesOn

/-- A text without a mistake that is not over begins with a declaration. -/
theorem first_round {tokens : List Token} (ended : Ended tokens)
    (open_ : (Cursor.start tokens).atEnd = false)
    (clean : (parse allowExpression tokens depth).errors = [])
    : ∃ statement between,
        (rules allowExpression (depth + 1)).declaration (Cursor.start tokens)
            = .ok (some statement) between
        ∧ between.errors = []
        ∧ Starts (startsDeclaration ·) tokens
        ∧ (parse allowExpression tokens depth).statements.head? = some statement := by
  obtain ⟨results, after, rounds, atEnd, parsed⟩ := rounds_of_parse allowExpression depth ended
  rw [parsed] at clean ⊢
  cases rounds with
  | done =>
      rw [open_] at atEnd
      contradiction
  | @round _ between _ result _ _ run rest =>
      have startEnded : Ended (Cursor.start tokens).ahead := ended
      obtain ⟨taken, passes, declares, stillEnded⟩ := declaration_declares startEnded run
      have cleanBetween : between.errors = [] := by
        have later : between.errors <+: [] := clean ▸ (rest.leads stillEnded).errors
        exact List.prefix_nil.1 later
      cases result with
      | none => exact absurd cleanBetween (declares.mistaken rfl)
      | some statement =>
          have split : tokens = taken ++ between.ahead := passes.ahead
          refine ⟨statement, between, run, cleanBetween, ?_, rfl⟩
          rw [split]
          exact (declares.starts rfl).append _

/-- Once a declaration has been read without a mistake, the rest is read from a fresh start. -/
theorem parse_of_declaration {tokens : List Token} {statement : SourceStmt} (ended : Ended tokens)
    (restEnded : Ended rest) (open_ : (Cursor.start tokens).atEnd = false)
    (run
      : (rules allowExpression (depth + 1)).declaration (Cursor.start tokens)
        = .ok (some statement) (Cursor.start rest))
    (clean : (parse allowExpression rest depth).errors = [])
    : parse allowExpression tokens depth
        = {
            statements := statement :: (parse allowExpression rest depth).statements
            errors := []
          } := by
  obtain ⟨results, after, rounds, atEnd, parsed⟩ := rounds_of_parse allowExpression depth restEnded
  rw [parse_of_rounds ended (.round open_ run rounds) atEnd]
  rw [parsed] at clean ⊢
  have silent : after.errors = [] := clean
  rw [silent]
  rfl

/-- A text without a mistake begins with a declaration, unless it is over. -/
theorem starts_of_clean {first : Token} {others : List Token} (ended : Ended (first :: others))
    (clean : (parse allowExpression (first :: others) depth).errors = [])
    : startsDeclaration first.kind = true ∨ first.kind = .endOfInput := by
  by_cases atEnd : first.kind = .endOfInput
  · exact .inr atEnd
  · have open_ : (Cursor.start (first :: others)).atEnd = false := by
      simpa [Cursor.atEnd, Cursor.next, Cursor.start] using atEnd
    obtain ⟨-, -, -, -, ⟨_, _, same, starts⟩, -⟩ := first_round ended open_ clean
    obtain ⟨rfl, -⟩ := List.cons.inj same
    exact .inl starts

/-- What follows a declaration of a function literal is read by itself, whether the semicolon stands
or not. Without the semicolon it must not start with a parenthesis or a minus. -/
theorem literal_ends_declaration (allowExpression : Bool) (depth : Nat)
    {keyword name equals semicolon declarationEnd restEnd : Token}
    {literal names rest : List Token} (keywordKind : keyword.kind = .varWord)
    (named : name.kind = .identifier) (assigns : equals.kind = .equal)
    (written : LiteralTokens literal names) (semicolonKind : semicolon.kind = .semicolon)
    (ended : Ended (keyword :: name :: equals :: (literal ++ [semicolon, declarationEnd])))
    (restEnded : Ended (rest ++ [restEnd]))
    (declared
      : (parse allowExpression
            (keyword :: name :: equals :: (literal ++ [semicolon, declarationEnd])) depth).errors
        = [])
    (clean : (parse allowExpression (rest ++ [restEnd]) depth).errors = [])
    : ∃ statements,
        let whole : Parse :=
          {
            statements :=
              .variable name (some (.function (.mk names statements)))
              :: (parse allowExpression (rest ++ [restEnd]) depth).statements
            errors := []
          }
        parse allowExpression
            (keyword :: name :: equals :: (literal ++ semicolon :: (rest ++ [restEnd]))) depth
          = whole
        ∧ (parse allowExpression
              (keyword :: name :: equals :: (literal ++ (rest ++ [restEnd]))) depth
            = whole
          ↔ ∀ first ∈ rest.head?, first.kind ≠ .leftParen ∧ first.kind ≠ .minus) := by
  obtain ⟨statements, derived⟩ :=
    derives_literal keywordKind assigns written semicolonKind ended declared
  obtain ⟨first, others, split⟩ : ∃ first others, rest ++ [restEnd] = first :: others :=
    List.exists_cons_of_ne_nil (by simp)
  have inside
      : ∀ token ∈ keyword :: name :: equals :: (literal ++ [semicolon]),
          token.kind ≠ .endOfInput := by
    have whole
        : Ended (keyword :: name :: equals :: (literal ++ [semicolon]) ++ [declarationEnd]) := by
      simpa using ended
    exact (Ended.snoc_iff.1 whole).2
  have endedWith
      : Ended (keyword :: name :: equals :: (literal ++ semicolon :: (rest ++ [restEnd]))) := by
    simpa using restEnded.behind inside
  have endedWithout : Ended (keyword :: name :: equals :: (literal ++ (rest ++ [restEnd]))) := by
    have front : ∀ token ∈ keyword :: name :: equals :: literal, token.kind ≠ .endOfInput :=
      fun token member => inside token (List.mem_append_left [semicolon] member)
    simpa using restEnded.behind front
  have goesOn (tokens : List Token) : (Cursor.start (keyword :: tokens)).atEnd = false := by
    simp [Cursor.atEnd, Cursor.next, Cursor.start, keywordKind]
  refine ⟨statements, ?_, fun same token member => ?_, fun apart => ?_⟩
  · refine parse_of_declaration endedWith restEnded (goesOn _) ?_ clean
    rw [split]
    exact literal_declared_closed keywordKind named assigns derived semicolonKind first others
  · obtain ⟨statement, between, run, cleanBetween, -, begins⟩ :=
      first_round endedWithout (goesOn _) (congrArg Parse.errors same)
    rw [same] at begins
    obtain rfl : .variable name (some (.function (.mk names statements))) = statement :=
      Option.some.inj begins
    obtain ⟨more, rfl⟩ : ∃ more, rest = token :: more := by
      cases rest with
      | nil => contradiction
      | cons head more => exact ⟨more, by rw [Option.some.inj member]⟩
    have apart : goesOnWithLiteral token.kind = false :=
      Bool.eq_false_iff.2 fun goesOn =>
        literal_not_declared keywordKind named assigns derived goesOn cleanBetween run
    simpa [goesOnWithLiteral] using apart
  · refine parse_of_declaration endedWithout restEnded (goesOn _) ?_ clean
    have apart : goesOnWithLiteral first.kind = false := by
      cases rest with
      | nil =>
          obtain rfl : restEnd = first := (List.cons.inj split).1
          rw [(Ended.snoc_iff.1 restEnded).1]
          rfl
      | cons head more =>
          obtain rfl : head = first := (List.cons.inj split).1
          simpa [goesOnWithLiteral] using apart head rfl
    rw [split] at restEnded clean ⊢
    exact literal_declared keywordKind named assigns derived others
      (starts_of_clean restEnded clean) apart

/-- A literal without a semicolon, in front of a print statement. -/
theorem literal_ends_before_print
    : ∃ statements,
        parse false
            [⟨.varWord, "var", none, 1⟩, ⟨.identifier, "f", none, 1⟩, ⟨.equal, "=", none, 1⟩,
              ⟨.leftParen, "(", none, 1⟩, ⟨.identifier, "a", none, 1⟩, ⟨.rightParen, ")", none, 1⟩,
              ⟨.arrow, "->", none, 1⟩, ⟨.leftBrace, "\x7b", none, 1⟩,
              ⟨.returnWord, "return", none, 1⟩, ⟨.semicolon, ";", none, 1⟩,
              ⟨.rightBrace, "\x7d", none, 1⟩, ⟨.printWord, "print", none, 1⟩,
              ⟨.identifier, "f", none, 1⟩, ⟨.semicolon, ";", none, 1⟩, Token.endOfInput 1]
            standardDepth
          = {
              statements :=
                [.variable ⟨.identifier, "f", none, 1⟩
                    (some (.function (.mk [⟨.identifier, "a", none, 1⟩] statements))),
                  .print (.variable ⟨⟨.identifier, "f", none, 1⟩, ()⟩)]
              errors := []
            } := by
  have body
      : Balanced .brace [⟨.returnWord, "return", none, 1⟩, ⟨.semicolon, ";", none, 1⟩] :=
    .cons rfl rfl (.word rfl rfl)
  obtain ⟨statements, -, ends⟩ :=
    @literal_ends_declaration false standardDepth ⟨.varWord, "var", none, 1⟩
      ⟨.identifier, "f", none, 1⟩ ⟨.equal, "=", none, 1⟩ ⟨.semicolon, ";", none, 1⟩
      (Token.endOfInput 1) (Token.endOfInput 1) _ [⟨.identifier, "a", none, 1⟩]
      [⟨.printWord, "print", none, 1⟩, ⟨.identifier, "f", none, 1⟩, ⟨.semicolon, ";", none, 1⟩]
      rfl rfl rfl
      (@LiteralTokens.mk ⟨.leftParen, "(", none, 1⟩ [⟨.identifier, "a", none, 1⟩] _
        ⟨.rightParen, ")", none, 1⟩ ⟨.arrow, "->", none, 1⟩ ⟨.leftBrace, "\x7b", none, 1⟩ _
        ⟨.rightBrace, "\x7d", none, 1⟩ rfl (.inr (.last rfl)) rfl rfl rfl body rfl)
      rfl ⟨_ :: _ :: _ :: _ :: _ :: _ :: _ :: _ :: _ :: _ :: _ :: [_], _, rfl, rfl, by decide⟩
      ⟨_ :: _ :: [_], _, rfl, rfl, by decide⟩ rfl rfl
  exact ⟨statements, ends.2 (by decide)⟩

/-- In front of a group the literal is called, so that both are read as one declaration. -/
theorem literal_called_by_group
    : let read (source : String) := parse false (scan source).tokens standardDepth
      (read "var f = () -> {};").errors = []
      ∧ (read "(true);").errors = []
      ∧ (read "var f = () -> {} (true);").statements.length = 1
      ∧ (read "var f = () -> {} (true);").statements
          ≠ (read "var f = () -> {}; (true);").statements := by
  refine ⟨by decide +kernel, by decide +kernel, by decide +kernel, fun same => ?_⟩
  exact absurd (congrArg List.length same) (by decide +kernel)

end

end Lox.Grammar
