import Lox.Proofs.Grammar.Following

/-! Texts that end in an expression whose semicolon is left out.

The semicolon belongs to the last expression statement of the text, which may be the last part of
branches and loops. Without it the expression is printed.
-/

namespace Lox.Grammar

/-- What stands at the end of a text, inside of a loop or not: the tokens, the statement that they
are without the semicolon, and the statement that they are with it. -/
abbrev Trailing := Bool → List Token → SourceStmt → SourceStmt → Prop

-----
-- Statements and declarations

section

variable (allowExpression : Bool) (inner : Language) (nested : Trailing) (inLoop : Bool)

/-- A statement whose semicolon is left out at the end of the text. -/
inductive TrailingStatement : List Token → SourceStmt → SourceStmt → Prop
  | expression {tokens value} (allowed : allowExpression = true)
    (derived : inner.expression true tokens value)
    : TrailingStatement tokens (.printLine (some value)) (.expression value)
  | branch {keyword opening tokens condition closing thenTokens printed written}
    (kind : keyword.kind = .ifWord) (opens : opening.kind = .leftParen)
    (tested : inner.expression true tokens condition) (closes : closing.kind = .rightParen)
    (first : nested inLoop thenTokens printed written)
    : TrailingStatement (keyword :: opening :: (tokens ++ closing :: thenTokens))
        (.branch condition printed none) (.branch condition written none)
  | branchElse {keyword opening tokens condition closing thenTokens thenBranch elseWord elseTokens
      printed written}
    (kind : keyword.kind = .ifWord) (opens : opening.kind = .leftParen)
    (tested : inner.expression true tokens condition) (closes : closing.kind = .rightParen)
    (first : inner.statement inLoop .closed thenTokens thenBranch)
    (otherwise : elseWord.kind = .elseWord)
    (second : nested inLoop elseTokens printed written)
    : TrailingStatement
        (keyword :: opening :: (tokens ++ closing :: (thenTokens ++ elseWord :: elseTokens)))
        (.branch condition thenBranch (some printed)) (.branch condition thenBranch (some written))
  | loop {keyword opening tokens condition closing others printed written}
    (kind : keyword.kind = .whileWord) (opens : opening.kind = .leftParen)
    (tested : inner.expression true tokens condition) (closes : closing.kind = .rightParen)
    (repeated : nested true others printed written)
    : TrailingStatement (keyword :: opening :: (tokens ++ closing :: others))
        (.loop condition printed) (.loop condition written)
  | forLoop {keyword opening initialEnding initialTokens initial conditionTokens condition
      semicolon incrementTokens increment closing others printed written}
    (kind : keyword.kind = .forWord) (opens : opening.kind = .leftParen)
    (starts : ForInitial inner initialEnding initialTokens initial)
    (admitted : initialEnding.admits inner.policy (conditionTokens ++ [semicolon]))
    (tested : OptionalExpression inner conditionTokens condition)
    (ends : semicolon.kind = .semicolon)
    (stepped : OptionalExpression inner incrementTokens increment)
    (closes : closing.kind = .rightParen)
    (repeated : nested true others printed written)
    : TrailingStatement
        (keyword :: opening :: (initialTokens
          ++ (conditionTokens ++ semicolon :: (incrementTokens ++ closing :: others))))
        (Grammar.forLoop initial condition increment printed)
        (Grammar.forLoop initial condition increment written)

end

/-- Declarations one behind the other, the last of which lacks its semicolon. -/
inductive TrailingSequence (policy : Policy)
    (declaration : Ending → List Token → SourceStmt → Prop)
    (last : List Token → SourceStmt → SourceStmt → Prop)
    : List Token → List SourceStmt → List SourceStmt → Prop
  | last {tokens printed written} (trails : last tokens printed written)
    : TrailingSequence policy declaration last tokens [printed] [written]
  | cons {ending tokens first following printed written}
    (head : declaration ending tokens first) (admitted : ending.admits policy following)
    (tail : TrailingSequence policy declaration last following printed written)
    : TrailingSequence policy declaration last (tokens ++ following) (first :: printed)
        (first :: written)

/-- What trails in the language with so many levels of nesting. -/
def trailing (allowExpression : Bool) (policy : Policy) : Nat → Trailing
  | 0 => fun _ _ _ _ => False
  | nesting + 1 =>
      TrailingStatement allowExpression (language policy nesting)
        (trailing allowExpression policy nesting)

/-- Whole programs whose last semicolon is left out. -/
def TrailingDerives (allowExpression : Bool) (policy : Policy) (depth : Nat)
    : List Token → List SourceStmt → List SourceStmt → Prop :=
  TrailingSequence policy ((language policy (depth + 1)).declaration false)
    (trailing allowExpression policy (depth + 1) false)

-----
-- With the semicolon

section

variable {allowExpression inLoop : Bool} {policy : Policy} {nesting : Nat} {tokens : List Token}
  {printed written : SourceStmt}

/-- Where no expression may end the text nothing trails. -/
theorem trailing_false : ¬trailing false policy nesting inLoop tokens printed written := by
  induction nesting generalizing inLoop tokens printed written with
  | zero => exact id
  | succ nesting ih =>
      intro trails
      cases (trails : TrailingStatement _ _ _ _ _ _ _) with
      | expression allowed => cases allowed
      | branch _ _ _ _ first => exact ih first
      | branchElse _ _ _ _ _ _ second => exact ih second
      | loop _ _ _ _ repeated => exact ih repeated
      | forLoop _ _ _ _ _ _ _ _ repeated => exact ih repeated

/-- What ends with a trailing expression has at least one token. -/
theorem trailing_ne_nil
    (trails : trailing allowExpression policy nesting inLoop tokens printed written)
    : tokens ≠ [] := by
  cases nesting with
  | zero => exact trails.elim
  | succ nesting =>
      cases (trails : TrailingStatement _ _ _ _ _ _ _) with
      | expression _ derived =>
          obtain ⟨first, rest, rfl, -⟩ := language_expression_starts derived
          exact List.cons_ne_nil _ _
      | _ => exact List.cons_ne_nil _ _

/-- With the semicolon it is a statement like others. -/
theorem trailing_statement {semicolon : Token}
    (trails : trailing allowExpression policy nesting inLoop tokens printed written)
    (ends : semicolon.kind = .semicolon)
    : ∃ ending,
        (language policy nesting).statement inLoop ending (tokens ++ [semicolon]) written
        ∧ ending ≠ .openLiteral := by
  induction nesting generalizing inLoop tokens printed written with
  | zero => exact trails.elim
  | succ nesting ih =>
      change ∃ ending,
        Statement (language policy nesting) inLoop ending (tokens ++ [semicolon]) written
        ∧ ending ≠ .openLiteral
      cases (trails : TrailingStatement _ _ _ _ _ _ _) with
      | expression _ derived => exact ⟨.closed, .expression (.mk derived ends), nofun⟩
      | branch kind opens tested closes first =>
          obtain ⟨ending, first, -⟩ := ih first
          refine ⟨.openBranch, ?_, nofun⟩
          simpa using Statement.branch kind opens tested closes first
      | branchElse kind opens tested closes first otherwise second =>
          obtain ⟨ending, second, notLiteral⟩ := ih second
          refine ⟨ending, ?_, notLiteral⟩
          simpa using Statement.branchElse kind opens tested closes first otherwise second
      | loop kind opens tested closes repeated =>
          obtain ⟨ending, repeated, notLiteral⟩ := ih repeated
          refine ⟨ending, ?_, notLiteral⟩
          simpa using Statement.loop kind opens tested closes repeated
      | forLoop kind opens starts admitted tested separates stepped closes repeated =>
          obtain ⟨ending, repeated, notLiteral⟩ := ih repeated
          refine ⟨ending, ?_, notLiteral⟩
          simpa using
            Statement.forLoop kind opens starts admitted tested separates stepped closes repeated

/-- With a semicolon behind it a trailing expression is a declaration. -/
theorem trailing_declaration {semicolon : Token}
    (trails : trailing allowExpression policy nesting inLoop tokens printed written)
    (ends : semicolon.kind = .semicolon)
    : ∃ ending,
        (language policy nesting).declaration inLoop ending (tokens ++ [semicolon]) written
        ∧ ending ≠ .openLiteral := by
  obtain ⟨ending, derived, notLiteral⟩ := trailing_statement trails ends
  cases nesting with
  | zero => exact derived.elim
  | succ nesting => exact ⟨ending, .statement derived, notLiteral⟩

end

section

variable {allowExpression : Bool} {policy : Policy} {depth : Nat} {tokens : List Token}
  {printed written : List SourceStmt}

/-- A text with a trailing expression has at least one token. -/
theorem TrailingDerives.ne_nil
    (derived : TrailingDerives allowExpression policy depth tokens printed written)
    : tokens ≠ [] := by
  unfold TrailingDerives at derived
  induction derived with
  | last trails => exact trailing_ne_nil trails
  | cons _ _ _ ih => exact List.append_ne_nil_of_right_ne_nil _ ih

/-- No trailing expression is printed where none is allowed. -/
theorem TrailingDerives.not_false
    (derived : TrailingDerives false policy depth tokens printed written)
    : False := by
  unfold TrailingDerives at derived
  induction derived with
  | last trails => exact trailing_false trails
  | cons _ _ _ ih => exact ih

/-- With the semicolon it is a program like others. -/
theorem TrailingDerives.terminated {semicolon : Token}
    (derived : TrailingDerives allowExpression policy depth tokens printed written)
    (ends : semicolon.kind = .semicolon)
    : Derives policy depth (tokens ++ [semicolon]) written := by
  induction derived with
  | last trails =>
      obtain ⟨ending, derived, notLiteral⟩ := trailing_declaration trails ends
      have single : Derives policy depth (_ ++ []) [_] :=
        .cons derived (fun literal => absurd literal notLiteral) .nil
      rwa [List.append_nil] at single
  | cons head admitted tail ih =>
      rw [List.append_assoc]
      refine .cons head (fun literal => ?_) ih
      obtain ⟨next, rest, rfl⟩ := List.exists_cons_of_ne_nil (ne_nil tail)
      exact admitted literal

end

-----
-- What is printed

/-- The last part of the one statement is an expression that the other one prints. Branches and
loops end in their last part, however a `for` is written. -/
inductive EndsPrinted : SourceStmt → SourceStmt → Prop
  | expression (value : SourceExpr) : EndsPrinted (.expression value) (.printLine (some value))
  | thenBranch (condition : SourceExpr) {written printed} (inside : EndsPrinted written printed)
    : EndsPrinted (.branch condition written none) (.branch condition printed none)
  | elseBranch (condition : SourceExpr) (thenBranch : SourceStmt) {written printed}
    (inside : EndsPrinted written printed)
    : EndsPrinted (.branch condition thenBranch (some written))
        (.branch condition thenBranch (some printed))
  | loop (condition : SourceExpr) {written printed} (inside : EndsPrinted written printed)
    : EndsPrinted (.loop condition written) (.loop condition printed)
  | forLoop (initial : Option SourceStmt) (condition increment : Option SourceExpr)
    {written printed} (inside : EndsPrinted written printed)
    : EndsPrinted (Grammar.forLoop initial condition increment written)
        (Grammar.forLoop initial condition increment printed)

/-- The tree of a trailing expression ends with a statement that prints it. -/
theorem trailing_endsPrinted {allowExpression inLoop : Bool} {policy : Policy} {nesting : Nat}
    {tokens : List Token} {printed written : SourceStmt}
    (trails : trailing allowExpression policy nesting inLoop tokens printed written)
    : EndsPrinted written printed := by
  induction nesting generalizing inLoop tokens printed written with
  | zero => exact trails.elim
  | succ nesting ih =>
      cases (trails : TrailingStatement _ _ _ _ _ _ _) with
      | expression => exact .expression _
      | branch _ _ _ _ first => exact .thenBranch _ (ih first)
      | branchElse _ _ _ _ _ _ second => exact .elseBranch _ _ (ih second)
      | loop _ _ _ _ repeated => exact .loop _ (ih repeated)
      | forLoop _ _ _ _ _ _ _ _ repeated => exact .forLoop _ _ _ (ih repeated)

/-- Of a whole program only the last statement differs. -/
theorem TrailingDerives.endsPrinted {allowExpression : Bool} {policy : Policy} {depth : Nat}
    {tokens : List Token} {printed written : List SourceStmt}
    (derived : TrailingDerives allowExpression policy depth tokens printed written)
    : ∃ front last last',
        written = front ++ [last] ∧ printed = front ++ [last'] ∧ EndsPrinted last last' := by
  unfold TrailingDerives at derived
  induction derived with
  | last trails => exact ⟨[], _, _, rfl, rfl, trailing_endsPrinted trails⟩
  | @cons _ _ first _ _ _ _ _ _ ih =>
      obtain ⟨front, last, last', rfl, rfl, inside⟩ := ih
      exact ⟨first :: front, last, last', rfl, rfl, inside⟩

end Lox.Grammar
