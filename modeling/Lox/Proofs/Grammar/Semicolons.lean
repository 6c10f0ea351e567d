import Lox.Proofs.Grammar.Recovery
import Lox.Token.Scan

/-! A forgotten semicolon spoils the beginning of what stands behind it.

The mistake is found at the first token behind the statement. Recovery skips the token at which a
declaration failed before it looks for a place to stop at, so a keyword that starts a statement
does not stop it there.
-/

namespace Lox.Grammar

-----
-- What is skipped

/-- Recovery skips tokens up to the first place at which it may stop: right behind a semicolon, in
front of a keyword that starts a statement, or in front of the end. -/
structure Skipped (tokens rest : List Token) : Prop where
  plain : ∀ token ∈ tokens, token.kind.startsStatement = false ∧ token.kind ≠ .endOfInput
  single : ∀ token ∈ tokens.dropLast, token.kind ≠ .semicolon
  stops
    : EndsIn .semicolon tokens
      ∨ Starts (fun kind => kind.startsStatement = true ∨ kind = .endOfInput) rest

/-- What is skipped ends behind a semicolon or in front of a statement, and nowhere before. -/
theorem skipFrom_skipped {tokens : List Token} (ended : Ended tokens) {previous : Token}
    (open_ : previous.kind ≠ .semicolon)
    : ∃ skipped,
        tokens = skipped ++ skipFrom previous tokens
        ∧ Skipped skipped (skipFrom previous tokens) := by
  induction tokens generalizing previous with
  | nil => exact absurd rfl ended.ne_nil
  | cons token rest ih =>
      rw [skipFrom]
      split
      · next stops =>
          have stops : token.kind.startsStatement = true ∨ token.kind = .endOfInput := by
            simpa [open_, or_comm] using stops
          exact ⟨[], rfl, by simp, by simp, .inr ⟨token, rest, rfl, stops⟩⟩
      · next goesOn =>
          obtain ⟨inside, plain⟩
              : token.kind ≠ .endOfInput ∧ token.kind.startsStatement = false := by
            simpa [open_] using goesOn
          have restEnded := ended.tail inside
          by_cases ends : token.kind = .semicolon
          · have same : skipFrom token rest = rest := by
              obtain ⟨next, others, rfl⟩ := List.exists_cons_of_ne_nil restEnded.ne_nil
              simp [skipFrom, ends]
            rw [same]
            refine ⟨[token], rfl, by simpa using ⟨plain, inside⟩, by simp, .inl ?_⟩
            simp [EndsIn, ends]
          · obtain ⟨skipped, split, others, single, stops⟩ := ih restEnded ends
            refine ⟨token :: skipped, congrArg (token :: ·) split, ?_, ?_, ?_⟩
            · exact List.forall_mem_cons.2 ⟨⟨plain, inside⟩, others⟩
            · cases skipped with
              | nil => simp
              | cons next skipped => exact List.forall_mem_cons.2 ⟨ends, single⟩
            · exact stops.imp_left fun last => last.append [token]

-----
-- Where something is missing

/-- A keyword that starts a statement is no other token. -/
theorem startsStatement_ne {kind other : TokenKind} (starts : kind.startsStatement = true)
    (never : other.startsStatement = false)
    : kind ≠ other := by
  rintro rfl
  simp [never] at starts

/-- No expression goes on with a keyword of a statement. -/
theorem stops_of_startsStatement (kind : TokenKind) (starts : kind.startsStatement = true)
    : Stops 9 true kind := by
  revert starts
  cases kind <;> decide

/-- No expression starts with a keyword of a statement. -/
theorem outside_of_startsStatement {kind : TokenKind} (starts : kind.startsStatement = true)
    : startsExpression kind = false := by
  revert starts
  cases kind <;> decide

/-- The rule takes the tokens and unwinds at a keyword behind them that starts a statement, where
it calls for something else. -/
def Misses {α : Type} (rule : Rule α) (context : Cursor) (tokens : List Token) (item : Expected)
    : Prop :=
  ∀ (keyword : Token) rest,
    keyword.kind.startsStatement = true
    → rule (context.facing (tokens ++ keyword :: rest))
      = .error .mistake ((context.facing (keyword :: rest)).report keyword (.expected item))

namespace Misses

variable {α β : Type} {rule : Rule α} {next : α → Rule β} {value : α} {context : Cursor}
  {tokens : List Token} {item : Expected}

/-- What is missing for a rule is missing for what follows it. -/
theorem bind (misses : Misses rule context tokens item)
    : Misses (rule >>= next) context tokens item :=
  fun keyword rest starts => bind_of_error (misses keyword rest starts)

/-- What is missing for a rule is missing however its value is changed. -/
theorem map {f : α → β} (misses : Misses rule context tokens item)
    : Misses (f <$> rule) context tokens item :=
  fun keyword rest starts => map_of_error (misses keyword rest starts)

/-- A token that starts no statement is missing in front of one that does. -/
theorem expect {kind : TokenKind} (other : kind.startsStatement = false)
    : Misses (Grammar.expect kind item) context [] item := by
  intro keyword rest starts
  have apart : keyword.kind ≠ kind := startsStatement_ne starts other
  exact expect_missing item apart

/-- A rule that takes nothing may come first. -/
theorem idle
    (run
      : ∀ (keyword : Token) rest,
          keyword.kind.startsStatement = true
          → rule (context.facing (tokens ++ keyword :: rest))
            = .ok value (context.facing (tokens ++ keyword :: rest)))
    (misses : Misses (next value) context tokens item)
    : Misses (rule >>= next) context tokens item :=
  fun keyword rest starts =>
    (bind_of_ok (run keyword rest starts)).trans (misses keyword rest starts)

/-- A rule that takes a single token may come first. -/
theorem cons {token : Token}
    (run : ∀ rest, rule (context.facing (token :: rest)) = .ok value (context.facing rest))
    (misses : Misses (next value) context tokens item)
    : Misses (rule >>= next) context (token :: tokens) item :=
  fun keyword rest starts => (bind_of_ok (run _)).trans (misses keyword rest starts)

/-- A rule that takes all the tokens may come first. -/
theorem behind {follows : TokenKind → Prop} (read : Reads rule context tokens follows value)
    (follow : ∀ kind : TokenKind, kind.startsStatement = true → follows kind)
    (misses : Misses (next value) context [] item)
    : Misses (rule >>= next) context tokens item :=
  fun keyword rest starts =>
    (bind_of_ok (read keyword rest (follow _ starts))).trans (misses keyword rest starts)

end Misses

/-- Where no expression can start, none is read. -/
def Rules.Declines (rules : Rules) (context : Cursor) : Prop :=
  ∀ (token : Token) rest,
    startsExpression token.kind = false
    → rules.expression (context.facing (token :: rest))
      = .error .mistake ((context.facing (token :: rest)).report token (.expected .expression))

/-- No expression starts with a keyword that starts a statement. -/
theorem rules_declines (allowExpression : Bool) {depth : Nat} (nested : 0 < depth)
    (context : Cursor)
    : (rules allowExpression depth).Declines context := by
  intro token rest missing
  obtain ⟨nesting, rfl⟩ : ∃ nesting, depth = nesting + 1 :=
    Nat.exists_eq_succ_of_ne_zero (Nat.pos_iff_ne_zero.1 nested)
  let rules := rules allowExpression nesting
  let unwinds : EStateM.Result Unwinding Cursor SourceExpr :=
    .error .mistake ((context.facing (token :: rest)).report token (.expected .expression))
  have noOperand : startsOperand token.kind = false := by
    simp only [startsExpression, Bool.or_eq_false_iff] at missing
    exact missing.1.1
  have noOperator : token.kind ∉ [TokenKind.bang, .minus] := by
    intro member
    have negates : token.kind = .bang ∨ token.kind = .minus := by simpa using member
    rcases negates with kind | kind <;> simp [startsExpression, kind] at missing
  have operand : primary rules (context.facing (token :: rest)) = unwinds := by
    refine (next_bind _).trans ?_
    generalize token.kind = kind at noOperand
    cases kind <;> first | rfl | exact absurd noOperand (by decide)
  have negated : unary rules (context.facing (token :: rest)) = unwinds :=
    (bind_of_ok (acceptAny?_of_not_mem noOperator)).trans (bind_of_error operand)
  have compared : equality rules (context.facing (token :: rest)) = unwinds :=
    bind_of_error (bind_of_error (bind_of_error (bind_of_error negated)))
  have joined : logicOr rules (context.facing (token :: rest)) = unwinds :=
    bind_of_error (bind_of_error (bind_of_error (bind_of_error compared)))
  exact (get_bind _).trans (bind_of_error joined)

/-- In front of such a keyword an expression is missing. -/
theorem Rules.Declines.misses {rules : Rules} {context : Cursor}
    (declines : rules.Declines context)
    : Misses rules.expression context [] .expression :=
  fun keyword rest starts => declines keyword rest (outside_of_startsStatement starts)

-----
-- Statements without their semicolon

/-- What a statement calls for where its semicolon is missing. Function literals need none, and
neither do statements that end in a brace or in another statement. -/
def awaits? : SourceStmt → Option Expected
  | .expression _ => some .expressionEnd
  | .print _ | .printLine (some _) => some .printEnd
  | .printLine none | .returnValue _ none => some .expression
  | .returnValue _ (some _) => some .returnEnd
  | .variable _ initial => if isFunctionLiteral initial then none else some .variableEnd
  | _ => none

section

variable {rules : Rules} {inner : Language} {context : Cursor} {whole tokens : List Token}
  {value : SourceExpr} {optional : Option SourceExpr} {statement : SourceStmt}
  {semicolon : Token} {item : Expected} {ending : Ending}

/-- Without the semicolon the tokens in front of it are left. -/
theorem tokens_eq_of_snoc (others : List Token) {last : Token}
    (split : others ++ [last] = tokens ++ [semicolon])
    : tokens = others :=
  (List.append_inj' split rfl).1.symm

/-- An expression is read up to a keyword behind it. -/
theorem misses_behindExpression (complete : rules.Complete inner)
    (derived : inner.expression true tokens value) (commas : context.commaEnabled = true)
    {next : SourceExpr → Rule SourceStmt} (misses : Misses (next value) context [] item)
    : Misses (rules.expression >>= next) context tokens item :=
  .behind (complete.expression derived context commas) stops_of_startsStatement misses

/-- An expression statement misses its semicolon. -/
theorem misses_expressionStatement (complete : rules.Complete inner) (allowExpression : Bool)
    (derived : inner.expression true tokens value) (commas : context.commaEnabled = true)
    : Misses (expressionStatement allowExpression rules) context tokens .expressionEnd := by
  refine misses_behindExpression complete derived commas (.idle (fun keyword rest starts =>
    atEnd_run (startsStatement_ne starts rfl)) ?_)
  rw [Bool.and_false, if_neg Bool.false_ne_true]
  exact .bind (.expect rfl)

/-- A `print` statement misses its semicolon. -/
theorem misses_printStatement (complete : rules.Complete inner)
    (derived : inner.expression true tokens value) (commas : context.commaEnabled = true)
    : Misses (printStatement rules) context tokens .printEnd :=
  misses_behindExpression complete derived commas (.bind (.expect rfl))

/-- Without an expression the keyword is taken for the beginning of one. -/
theorem misses_printLineStatement (complete : rules.Complete inner)
    (declines : rules.Declines context) (derived : OptionalExpression inner tokens optional)
    (awaits : awaits? (.printLine optional) = some item) (commas : context.commaEnabled = true)
    : Misses (printLineStatement rules) context tokens item := by
  cases derived with
  | none =>
      obtain rfl : Expected.expression = item := Option.some.inj awaits
      refine .idle (fun _ _ starts => accept_of_other (startsStatement_ne starts rfl)) ?_
      exact .bind declines.misses
  | some derived =>
      obtain rfl : Expected.printEnd = item := Option.some.inj awaits
      obtain ⟨first, others, rfl, starts⟩ := complete.expressionStarts derived
      refine .idle (fun _ _ _ => accept_of_other (startsExpression_ne starts rfl)) ?_
      exact misses_behindExpression complete derived commas (.bind (.expect rfl))

/-- A `return` misses its semicolon, with its value or without. -/
theorem misses_returnStatement (complete : rules.Complete inner)
    (declines : rules.Declines context) (derived : OptionalExpression inner tokens optional)
    {word : Token} (awaits : awaits? (.returnValue word optional) = some item)
    (commas : context.commaEnabled = true)
    : Misses (returnStatement rules word) context tokens item := by
  cases derived with
  | none =>
      obtain rfl : Expected.expression = item := Option.some.inj awaits
      refine .bind fun keyword rest starts => ?_
      have noSemicolon : keyword.kind ≠ .semicolon := startsStatement_ne starts rfl
      refine (expressionBefore_of_other (by decide) noSemicolon).trans ?_
      exact declines.misses.map keyword rest starts
  | @some _ value derived =>
      obtain rfl : Expected.returnEnd = item := Option.some.inj awaits
      have read
          : Reads (expressionBefore .semicolon rules) context tokens (Stops 9 true)
              (some value) := by
        intro first rest stops
        have read := complete.expression derived context commas first rest stops
        obtain ⟨token, others, rfl, starts⟩ := complete.expressionStarts derived
        have goesOn : token.kind ≠ .semicolon := startsExpression_ne starts rfl
        exact (expressionBefore_of_other (by decide) goesOn).trans (map_of_ok read)
      exact .behind read stops_of_startsStatement (.bind (.expect rfl))

/-- A variable declaration misses its semicolon, unless a function literal ends it. -/
theorem misses_variableEnd {initial : Option SourceExpr}
    (noLiteral : ¬isFunctionLiteral initial = true)
    : Misses (variableEnd initial) context [] .variableEnd := by
  rw [variableEnd, if_neg noLiteral]
  exact .bind (.expect rfl)

/-- A variable declaration read up to its missing semicolon misses it. -/
theorem misses_variableDeclaration (complete : rules.Complete inner)
    (derived : VariableRest inner ending whole statement) (split : whole = tokens ++ [semicolon])
    (awaits : awaits? statement = some item) (commas : context.commaEnabled = true)
    : Misses (variableDeclaration rules) context tokens item := by
  cases derived with
  | @plain name last named ends =>
      obtain rfl := tokens_eq_of_snoc [name] split
      obtain rfl : Expected.variableEnd = item := Option.some.inj awaits
      refine .cons (fun _ => expect_of_kind _ named (by decide)) ?_
      have noValue {keyword : Token} {rest : List Token}
          (starts : keyword.kind.startsStatement = true)
          : initialValue rules (context.facing (keyword :: rest))
              = .ok none (context.facing (keyword :: rest)) :=
        bind_of_ok (accept_of_other (startsStatement_ne starts rfl))
      exact .idle (fun _ _ => noValue) (.bind (misses_variableEnd (by decide)))
  | @initialized name equals others value last named assigns initial ends =>
      obtain rfl := tokens_eq_of_snoc (name :: equals :: others) split
      simp only [awaits?, Option.ite_none_left_eq_some, Option.some.injEq] at awaits
      obtain ⟨noLiteral, rfl⟩ := awaits
      have read
          : Reads (initialValue rules) context (equals :: others) (Stops 9 true) (some value) :=
        fun first rest stops =>
          (bind_of_ok (accept_of_kind assigns (by decide))).trans
            (map_of_ok (complete.expression initial context commas first rest stops))
      refine .cons (fun _ => expect_of_kind _ named (by decide)) ?_
      exact .behind read stops_of_startsStatement (.bind (misses_variableEnd noLiteral))
  | literal => cases awaits

/-- A statement that awaits a semicolon misses it, by cases on its first token. -/
theorem misses_statement (complete : rules.Complete inner) (declines : rules.Declines context)
    (allowExpression : Bool) (derived : Statement inner false ending whole statement)
    (split : whole = tokens ++ [semicolon]) (awaits : awaits? statement = some item)
    (commas : context.commaEnabled = true)
    : Misses (Grammar.statement allowExpression rules) context tokens item := by
  have behindWord {word : Token} {others : List Token} {kind : TokenKind}
      {rule : Rule SourceStmt} (found : word.kind = kind) (inside : kind ≠ .endOfInput)
      (misses : Misses rule context others item)
      : Misses (do modify Cursor.drop; rule) context (word :: others) item :=
    .cons (fun _ => drop_run (found ▸ inside)) misses
  intro keyword rest starts
  cases derived with
  | expression written =>
      obtain ⟨derived, ends⟩ := written
      obtain rfl := tokens_eq_of_snoc _ split
      obtain rfl : Expected.expressionEnd = item := Option.some.inj awaits
      have misses := misses_expressionStatement complete allowExpression derived commas
      obtain ⟨token, others, rfl, starts'⟩ := complete.expressionStarts derived
      exact (statement_of_startsExpression starts').trans (misses keyword rest starts)
  | @print word others value last kind derived ends =>
      obtain rfl := tokens_eq_of_snoc (word :: others) split
      obtain rfl : Expected.printEnd = item := Option.some.inj awaits
      have misses := misses_printStatement complete derived commas
      refine (next_bind _).trans ?_
      simp only [kind]
      exact behindWord kind (by decide) misses keyword rest starts
  | @printLine word others value last kind derived ends =>
      obtain rfl := tokens_eq_of_snoc (word :: others) split
      have misses := misses_printLineStatement complete declines derived awaits commas
      refine (next_bind _).trans ?_
      simp only [kind]
      exact behindWord kind (by decide) misses keyword rest starts
  | @returnValue word others value last kind derived ends =>
      obtain rfl := tokens_eq_of_snoc (word :: others) split
      have misses := misses_returnStatement complete declines derived awaits commas
      refine (next_bind _).trans ?_
      simp only [kind]
      exact behindWord kind (by decide) misses keyword rest starts
  | breakLoop | block | branch | branchElse | loop | forLoop => cases awaits

/-- A declaration that unwinds is dropped, up to the next statement. -/
theorem recovering_unwinds {rule : Rule SourceStmt} {before after : Cursor}
    (run : rule before = .error .mistake after)
    : recovering rule before = .ok none after.skipToStatement := by
  unfold recovering
  rw [run]

/-- A declaration that lacks its semicolon is left out, and the keyword behind it is skipped. -/
theorem Declaration.recovers (complete : rules.Complete inner) (declines : rules.Declines context)
    (allowExpression : Bool) (derived : Declaration inner false ending whole statement)
    (split : whole = tokens ++ [semicolon]) (ends : semicolon.kind = .semicolon)
    (awaits : awaits? statement = some item) (commas : context.commaEnabled = true)
    {keyword : Token} (rest : List Token) (starts : keyword.kind.startsStatement = true)
    : Grammar.declaration allowExpression rules (context.facing (tokens ++ keyword :: rest))
        = .ok none
            { context.facing (skipFrom keyword rest) with
              errors := context.errors ++ [Diagnostic.atToken keyword (.expected item)] } := by
  have skips
      : ((context.facing (keyword :: rest)).report keyword (.expected item)).skipToStatement
          = { context.facing (skipFrom keyword rest) with
              errors := context.errors ++ [Diagnostic.atToken keyword (.expected item)] } := by
    have inside : keyword.kind ≠ .endOfInput := startsStatement_ne starts rfl
    simp [Cursor.skipToStatement, Cursor.atEnd, Cursor.next, Cursor.report, Cursor.facing, inside]
  rw [← skips]
  cases derived with
  | «class» | function => cases awaits
  | @declaration word ending others declared kind initial =>
      cases tokens with
      | nil =>
          obtain rfl : others = [] := (List.cons.inj split).2
          cases initial
      | cons token tokens =>
          obtain ⟨rfl, shorter⟩ := List.cons.inj split
          refine recovering_unwinds ((next_bind _).trans ?_)
          simp only [kind]
          refine (dropped_run kind (by decide)).trans ?_
          have misses := misses_variableDeclaration complete initial shorter awaits commas
          exact misses keyword rest starts
  | statement plain =>
      have misses := misses_statement complete declines allowExpression plain split awaits commas
      obtain ⟨token, others, rfl, startsPlain⟩ := plain.starts complete
      cases tokens with
      | nil =>
          obtain ⟨rfl, -⟩ := List.cons.inj split
          rw [ends] at startsPlain
          exact absurd startsPlain (by decide)
      | cons first tokens =>
          obtain ⟨rfl, -⟩ := List.cons.inj split
          refine (declaration_of_startsPlain startsPlain).trans ?_
          exact recovering_unwinds (misses keyword rest starts)

end

-----
-- Texts with a forgotten semicolon

section

variable {allowExpression : Bool} {depth : Nat} {front rest : List Token}
  {semicolon last keyword : Token} {statement : SourceStmt} {item : Expected}

/-- A text of one statement that needs its semicolon derives that statement. -/
theorem declaration_of_single (ended : Ended (front ++ [semicolon] ++ [last]))
    (ends : semicolon.kind = .semicolon)
    (read
      : parse allowExpression (front ++ [semicolon] ++ [last]) depth
        = { statements := [statement], errors := [] })
    : ∃ ending,
        (language .greedy (depth + 1)).declaration false ending (front ++ [semicolon])
          statement := by
  have closed : EndsClosed (front ++ [semicolon] ++ [last]) := by
    rw [List.append_assoc]
    exact .of_semicolon ends
  have derived := derives_of_closed ended closed (congrArg Parse.errors read)
  rw [read] at derived
  generalize front ++ [semicolon] = whole at derived
  cases derived with
  | cons head _ tail =>
      cases tail
      rw [List.append_nil]
      exact ⟨_, head⟩

/-- The statement is left out, and what follows is read from the place at which recovery stops.
Without any nesting no expression is missed: it would be too deep. -/
theorem parse_of_forgotten (nested : 0 < depth)
    (frontEnded : Ended (front ++ [semicolon] ++ [last]))
    (ends : semicolon.kind = .semicolon)
    (read
      : parse allowExpression (front ++ [semicolon] ++ [last]) depth
        = { statements := [statement], errors := [] })
    (awaits : awaits? statement = some item) (ended : Ended (keyword :: rest))
    (starts : keyword.kind.startsStatement = true)
    : parse allowExpression (front ++ keyword :: rest) depth
        = {
            statements := (parse allowExpression (skipFrom keyword rest) depth).statements
            errors :=
              Diagnostic.atToken keyword (.expected item)
              :: (parse allowExpression (skipFrom keyword rest) depth).errors
          } := by
  have inside : keyword.kind ≠ .endOfInput := startsStatement_ne starts rfl
  obtain ⟨ending, declared⟩ := declaration_of_single frontEnded ends read
  have complete := rules_complete allowExpression .greedy (fun _ greedy => greedy) depth
  have commas : (Cursor.start []).commaEnabled = true := rfl
  have run
      : (rules allowExpression (depth + 1)).declaration (Cursor.start (front ++ keyword :: rest))
          = .ok none
              { Cursor.start (skipFrom keyword rest) with
                errors := [Diagnostic.atToken keyword (.expected item)] } :=
    Declaration.recovers complete (rules_declines allowExpression nested _) allowExpression declared
      rfl ends awaits commas rest starts
  have resumedEnded := (ended.tail inside).skipFrom keyword
  obtain ⟨results, after, rounds, atEnd, parsed⟩ :=
    rounds_of_parse allowExpression depth resumedEnded
  have behind := rounds_behind [Diagnostic.atToken keyword (.expected item)] resumedEnded rounds
  have frontKinds := (Ended.snoc_iff.1 frontEnded).2
  have wholeEnded : Ended (front ++ keyword :: rest) :=
    ended.behind fun token member => frontKinds token (List.mem_append_left _ member)
  have goesOn : (Cursor.start (front ++ keyword :: rest)).atEnd = false := by
    cases front with
    | nil => simpa [Cursor.atEnd, Cursor.next, Cursor.start] using inside
    | cons first front =>
        simpa [Cursor.atEnd, Cursor.next, Cursor.start] using frontKinds first (by simp)
  rw [parse_of_rounds wholeEnded (.round goesOn run behind) atEnd, parsed]
  rfl

/-- Recovery does not stop in front of the keyword at which the semicolon is missing: it is
skipped, with all that stands behind it up to the next place to stop at. What is left is read by
itself. -/
theorem forgotten_semicolon_resumes (nested : 0 < depth)
    (frontEnded : Ended (front ++ [semicolon] ++ [last]))
    (ends : semicolon.kind = .semicolon)
    (read
      : parse allowExpression (front ++ [semicolon] ++ [last]) depth
        = { statements := [statement], errors := [] })
    (awaits : awaits? statement = some item) (ended : Ended (keyword :: rest))
    (starts : keyword.kind.startsStatement = true)
    : ∃ skipped resumed,
        rest = skipped ++ resumed
        ∧ Skipped skipped resumed
        ∧ parse allowExpression (front ++ keyword :: rest) depth
          = {
              statements := (parse allowExpression resumed depth).statements
              errors :=
                Diagnostic.atToken keyword (.expected item)
                :: (parse allowExpression resumed depth).errors
            } := by
  have noSemicolon : keyword.kind ≠ .semicolon := startsStatement_ne starts rfl
  have inside : keyword.kind ≠ .endOfInput := startsStatement_ne starts rfl
  obtain ⟨skipped, split, skips⟩ := skipFrom_skipped (ended.tail inside) noSemicolon
  exact ⟨skipped, skipFrom keyword rest, split, skips,
    parse_of_forgotten nested frontEnded ends read awaits ended starts⟩

/-- Two statements with no semicolon between them. -/
theorem forgotten_semicolon_resumes_behind_print
    : ∃ skipped resumed,
        [⟨.identifier, "b", none, 1⟩, ⟨.semicolon, ";", none, 1⟩, Token.endOfInput 1]
          = skipped ++ resumed
        ∧ Skipped skipped resumed
        ∧ parse false
            [⟨.printWord, "print", none, 1⟩, ⟨.identifier, "a", none, 1⟩,
              ⟨.printWord, "print", none, 1⟩, ⟨.identifier, "b", none, 1⟩,
              ⟨.semicolon, ";", none, 1⟩, Token.endOfInput 1] standardDepth
          = {
              statements := (parse false resumed standardDepth).statements
              errors :=
                ⟨1, .atLexeme "print", .expected .printEnd⟩
                :: (parse false resumed standardDepth).errors
            } :=
  @forgotten_semicolon_resumes false standardDepth
    [⟨.printWord, "print", none, 1⟩, ⟨.identifier, "a", none, 1⟩]
    [⟨.identifier, "b", none, 1⟩, ⟨.semicolon, ";", none, 1⟩, Token.endOfInput 1]
    ⟨.semicolon, ";", none, 1⟩ (Token.endOfInput 1) ⟨.printWord, "print", none, 1⟩
    (.print (.variable ⟨⟨.identifier, "a", none, 1⟩, ()⟩)) .printEnd
    (by decide) ⟨_ :: _ :: [_], _, rfl, rfl, by decide⟩ rfl rfl rfl
    ⟨_ :: _ :: [_], _, rfl, rfl, by decide⟩ rfl

/-- The statement behind the one that lacks its semicolon is lost, although nothing is wrong with
it. -/
theorem forgotten_semicolon_loses_print
    : let read (source : String) := parse false (scan source).tokens standardDepth
      (read "print 1;").errors = []
      ∧ (read "print 2;").errors = []
      ∧ (read "print 1 print 2;").errors.length = 1
      ∧ (read "print 1 print 2;").statements ≠ (read "print 2;").statements := by
  refine ⟨by decide +kernel, by decide +kernel, by decide +kernel, fun same => ?_⟩
  exact absurd (congrArg List.length same) (by decide +kernel)

/-- A statement that ends in its only semicolon is lost as a whole when the semicolon in front of
it is forgotten. -/
theorem forgotten_semicolon_loses_scrap {scrap others : List Token} (nested : 0 < depth)
    (frontEnded : Ended (front ++ [semicolon] ++ [last])) (ends : semicolon.kind = .semicolon)
    (read
      : parse allowExpression (front ++ [semicolon] ++ [last]) depth
        = { statements := [statement], errors := [] })
    (awaits : awaits? statement = some item) (behind : Scrap (keyword :: scrap))
    (ended : Ended others) (starts : keyword.kind.startsStatement = true)
    : parse allowExpression (front ++ keyword :: (scrap ++ others)) depth
        = {
            statements := (parse allowExpression others depth).statements
            errors :=
              Diagnostic.atToken keyword (.expected item)
              :: (parse allowExpression others depth).errors
          } := by
  have wholeEnded : Ended (keyword :: (scrap ++ others)) := behind.ended ended
  rw [parse_of_forgotten nested frontEnded ends read awaits wholeEnded starts, behind.skipFrom]

end

end Lox.Grammar
