import Lox.Proofs.Grammar.Rounds

/-! Whether expressions may end a text matters only where a text lacks its last semicolon.

Only an expression that is followed by the end of input is read differently. An expression never
takes a semicolon as its last token, so none of them reaches the end of a text that ends in one.
Elsewhere a text that is read because an expression may end it is one that trails, and it is read
like any other once the semicolon is written.
-/

namespace Lox.Grammar

/-- Nothing but a semicolon stands in front of the end of input. -/
def EndsClosed (tokens : List Token) : Prop :=
  ∀ front token last, tokens = front ++ [token, last] → token.kind = .semicolon

/-- A text with a semicolon in front of its end is closed. -/
theorem EndsClosed.of_semicolon {front : List Token} {semicolon last : Token}
    (kind : semicolon.kind = .semicolon)
    : EndsClosed (front ++ [semicolon, last]) := by
  intro others token final split
  have same := (List.append_inj' split rfl).2
  obtain ⟨rfl, -⟩ : semicolon = token ∧ last = final := by simpa using same
  exact kind

/-- A text without any other token is closed. -/
theorem EndsClosed.of_singleton (last : Token) : EndsClosed [last] := by
  intro front token final split
  have length := congrArg List.length split
  simp at length

/-- The rest of a closed text is closed. -/
theorem EndsClosed.suffix {tokens rest : List Token} (closed : EndsClosed tokens)
    (suffix : rest <:+ tokens)
    : EndsClosed rest := by
  obtain ⟨front, rfl⟩ := suffix
  rintro others token last rfl
  exact closed (front ++ others) token last (by simp)

/-- Two runs from one cursor, in front of a semicolon at the end. -/
def Shared.closed : Shared :=
  { Shared.identity with
    ahead := fun tokens => Ended tokens ∧ EndsClosed tokens
    ended := And.left
    suffix := fun held suffix ended => ⟨ended, held.2.suffix suffix⟩ }

/-- In front of a semicolon at the end no expression reaches the end. -/
theorem inside_of_operand {before after : Cursor} {tokens : List Token} {value : SourceExpr}
    (closed : EndsClosed before.ahead) (ended : Ended after.ahead)
    (passes : before.Passes tokens after) (read : Operand tokens value)
    : after.atEnd = false := by
  refine Bool.eq_false_iff.2 fun atEnd => ?_
  have kind : after.next.kind = .endOfInput := by simpa [Cursor.atEnd] using atEnd
  obtain ⟨last, rest, split⟩ := List.exists_cons_of_ne_nil ended.ne_nil
  have same : after.next = last := by simp [Cursor.next, split]
  obtain rfl := Ended.eq_singleton (split ▸ ended) (same ▸ kind)
  obtain ⟨front, token, rfl, open_⟩ := read.ends
  exact open_ (closed front token last (by simpa [split] using passes.ahead))

/-- In a closed text an expression statement is alike whether a trailing expression is allowed or
not. -/
theorem alike_closedStatement {limit : Nat} {rules rules' : Rules} {before before' : Cursor}
    (allowExpression allowExpression' : Bool)
    (whole : Shared.closed.pairing.Whole limit rules rules') (within : before.ahead.length ≤ limit)
    : Shared.closed.pairing.Alike (expressionStatement allowExpression rules)
        (expressionStatement allowExpression' rules') before before'
        fun tokens _ _ => Starts (startsExpression ·) tokens := by
  refine .of_related fun related => (whole.expression within).bind fun value step read => ?_
  have inside := inside_of_operand related.holds.2 step.related.holds.1 step.passes read
  have inside' := (atEnd_eq step.related.next).trans inside
  refine .get ?_
  rw [inside, inside', Bool.and_false, Bool.and_false]
  exact (Pairing.alike_expect .semicolon _ (Shared.closed.full.crosses (by decide))).bind
    fun _ _ _ => .pure_of (read.starts.append _)

/-- A closed text is parsed alike whether a trailing expression is allowed or not. -/
theorem parse_of_closed {depth : Nat} {tokens : List Token} (ended : Ended tokens)
    (closed : EndsClosed tokens) (allowExpression allowExpression' : Bool)
    : parse allowExpression tokens depth = parse allowExpression' tokens depth := by
  obtain ⟨results, after, rounds, atEnd, parsed⟩ := rounds_of_parse allowExpression depth ended
  have whole (limit : Nat)
      : Shared.closed.pairing.Whole limit (rules allowExpression (depth + 1))
          (rules allowExpression' (depth + 1)) :=
    Shared.closed.full.whole (fun _ => trivial)
      (alike_closedStatement allowExpression allowExpression') (depth + 1) limit
  have same : Shared.closed.Related (Cursor.start tokens) (Cursor.start tokens) :=
    ⟨rfl, rfl, rfl, rfl, ended, closed⟩
  obtain ⟨after', rounds', related⟩ := rounds.paired whole atEnd_eq same
  have atEnd' := (atEnd_eq related.next).trans atEnd
  rw [parsed, parse_of_rounds ended rounds' atEnd']
  have recorded : after'.errors = after.errors := related.errors
  rw [recorded]

/-- Such a text derives what is read from it without a mistake. -/
theorem derives_of_closed {allowExpression : Bool} {depth : Nat} {tokens : List Token}
    {last : Token} (ended : Ended (tokens ++ [last])) (closed : EndsClosed (tokens ++ [last]))
    (clean : (parse allowExpression (tokens ++ [last]) depth).errors = [])
    : Derives .greedy depth tokens (parse allowExpression (tokens ++ [last]) depth).statements := by
  obtain ⟨lastKind, bodyKinds⟩ := Ended.snoc_iff.1 ended
  rw [parse_of_closed ended closed allowExpression false] at clean ⊢
  exact derives_of_parse (fun _ greedy => greedy) lastKind bodyKinds clean

-----
-- Expressions at the end

/-- Where an expression may end the text, every text that is read without a mistake anyway is read
the same. One that is read only there lacks the semicolon of its last expression, which is printed
instead. -/
theorem trailing_expression_printed (depth : Nat) {body : List Token} {last semicolon : Token}
    (ended : Ended (body ++ [last])) (ends : semicolon.kind = .semicolon)
    : ((parse false (body ++ [last]) depth).errors = []
        → parse true (body ++ [last]) depth = parse false (body ++ [last]) depth)
      ∧ ((parse true (body ++ [last]) depth).errors = []
        → (parse false (body ++ [last]) depth).errors ≠ []
        → ∃ front printed written,
            parse true (body ++ [last]) depth = { statements := front ++ [printed], errors := [] }
            ∧ parse false (body ++ [semicolon] ++ [last]) depth
              = { statements := front ++ [written], errors := [] }
            ∧ EndsPrinted written printed) := by
  obtain ⟨lastKind, bodyKinds⟩ := Ended.snoc_iff.1 ended
  have read {allowExpression : Bool} {body : List Token} {statements : List SourceStmt}
      (derived : Derives .greedy depth body statements)
      : parse allowExpression (body ++ [last]) depth = { statements, errors := [] } :=
    parse_of_derives (fun _ greedy => greedy) lastKind derived
  refine ⟨fun clean => ?_, fun clean mistaken => ?_⟩
  · have derived := derives_of_parse (fun _ greedy => greedy) lastKind bodyKinds clean
    rw [read derived]
    exact (read derived).symm
  · obtain derived | ⟨statements, trails⟩ :=
      derives_or_trails true (fun _ greedy => greedy) lastKind bodyKinds clean
    case inl => exact absurd (congrArg Parse.errors (read derived)) mistaken
    obtain ⟨front, written, printed, rfl, split, inside⟩ := trails.endsPrinted
    refine ⟨front, printed, written, ?_, read (trails.terminated ends), inside⟩
    rw [← split, ← clean]

/-- A branch in a loop ends a text, with no semicolon behind the branch. -/
theorem trailing_expression_printed_branch
    : ∃ front printed written,
        parse true
            [⟨.whileWord, "while", none, 1⟩, ⟨.leftParen, "(", none, 1⟩,
              ⟨.identifier, "a", none, 1⟩, ⟨.rightParen, ")", none, 1⟩,
              ⟨.ifWord, "if", none, 1⟩, ⟨.leftParen, "(", none, 1⟩,
              ⟨.identifier, "b", none, 1⟩, ⟨.rightParen, ")", none, 1⟩,
              ⟨.identifier, "c", none, 1⟩, Token.endOfInput 1] standardDepth
          = { statements := front ++ [printed], errors := [] }
        ∧ parse false
            [⟨.whileWord, "while", none, 1⟩, ⟨.leftParen, "(", none, 1⟩,
              ⟨.identifier, "a", none, 1⟩, ⟨.rightParen, ")", none, 1⟩,
              ⟨.ifWord, "if", none, 1⟩, ⟨.leftParen, "(", none, 1⟩,
              ⟨.identifier, "b", none, 1⟩, ⟨.rightParen, ")", none, 1⟩,
              ⟨.identifier, "c", none, 1⟩, ⟨.semicolon, ";", none, 1⟩, Token.endOfInput 1]
            standardDepth
          = { statements := front ++ [written], errors := [] }
        ∧ EndsPrinted written printed :=
  (@trailing_expression_printed standardDepth
    [⟨.whileWord, "while", none, 1⟩, ⟨.leftParen, "(", none, 1⟩, ⟨.identifier, "a", none, 1⟩,
      ⟨.rightParen, ")", none, 1⟩, ⟨.ifWord, "if", none, 1⟩, ⟨.leftParen, "(", none, 1⟩,
      ⟨.identifier, "b", none, 1⟩, ⟨.rightParen, ")", none, 1⟩, ⟨.identifier, "c", none, 1⟩]
    (Token.endOfInput 1) ⟨.semicolon, ";", none, 1⟩ ⟨_, _, rfl, rfl, by decide⟩ rfl).2
    (by decide +kernel) (by decide +kernel)

end Lox.Grammar
