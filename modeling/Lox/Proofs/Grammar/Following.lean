import Lox.Proofs.Grammar.Language

/-! Which tokens go on with what stands before them, and which tokens start something.

Every operator belongs to one level of the expression grammar. An expression of a level ends in
front of the first token that belongs to a looser level or to none.
-/

namespace Lox.Grammar

-----
-- Tokens that continue

/-- How loosely a token holds on to the expression before it. Tokens that cannot continue any
expression are loosest of all, and so is a comma that separates. An arrow belongs to the
parentheses before it, and to no expression as a whole. -/
def looseness (commas : Bool) : TokenKind → Nat
  | .leftParen | .dot => 0
  | .slash | .star => 1
  | .minus | .plus => 2
  | .greater | .greaterEqual | .less | .lessEqual => 3
  | .bangEqual | .equalEqual => 4
  | .question => 5
  | .comma => if commas then 6 else 10
  | .andWord => 7
  | .orWord => 8
  | .equal => 9
  | _ => 10

/-- An expression of the level cannot go on with the token. A second question mark is left over,
since conditionals do not chain. -/
def Past (level : Nat) (commas : Bool) (kind : TokenKind) : Prop :=
  kind = .question ∨ level < looseness commas kind

/-- Once the operators of the next level are missing, the next level is past as well. -/
theorem Past.succ {level : Nat} {commas : Bool} {kind : TokenKind} {operators : List TokenKind}
    (past : Past level commas kind) (missing : kind ∉ operators)
    (owns : ∀ kind, looseness commas kind = level + 1 → kind ∈ operators)
    : Past (level + 1) commas kind := by
  rcases past with question | loose
  · exact .inl question
  · exact .inr (Nat.lt_of_le_of_ne loose fun equal => missing (owns kind equal.symm))

/-- The level of conditionals has no operator but the question mark. -/
theorem Past.conditional {commas : Bool} {kind : TokenKind} (past : Past 4 commas kind)
    : Past 5 commas kind := by
  by_cases question : kind = .question
  · exact .inl question
  · have missing : kind ∉ [TokenKind.question] := by simpa using question
    refine past.succ missing fun kind => ?_
    cases kind <;> cases commas <;> simp [looseness]

/-- The semicolon is left out only where the next token could neither be it nor go on with the
function literal. No other token that goes on with an expression can start what follows. -/
def Policy.greedy : Policy :=
  fun following =>
    ∀ kind ∈ following, kind ≠ .leftParen ∧ kind ≠ .minus ∧ kind ≠ .semicolon

/-- A token that cannot go on an expression may follow one that was read greedily. -/
theorem Past.greedy {kind : TokenKind} (past : Past 9 true kind)
    (notSemicolon : kind ≠ .semicolon)
    : Policy.greedy (some kind) := by
  rintro _ ⟨rfl⟩
  refine ⟨?_, ?_, notSemicolon⟩
  all_goals rintro rfl; simp [Past, looseness] at past

/-- The end of the text may follow an expression that was read greedily. -/
theorem Policy.greedy_none : Policy.greedy none := by
  simp [Policy.greedy]

-----
-- Tokens that start

/-- The kinds of token that a single operand can start with. -/
def startsOperand : TokenKind → Bool
  | .falseWord | .trueWord | .nilWord | .number | .string | .thisWord | .identifier
  | .superWord | .leftParen => true
  | _ => false

/-- The kinds of token that an expression can start with. -/
def startsExpression (kind : TokenKind) : Bool :=
  startsOperand kind || kind == .bang || kind == .minus

/-- A token that starts an expression is none of those that never do. -/
theorem startsExpression_ne {kind other : TokenKind} (starts : startsExpression kind = true)
    (never : startsExpression other = false)
    : kind ≠ other := by
  rintro rfl
  simp [never] at starts

/-- A stretch of tokens is not empty, and its first token is as told. -/
def Starts (starts : TokenKind → Prop) (tokens : List Token) : Prop :=
  ∃ first rest, tokens = first :: rest ∧ starts first.kind

/-- What starts something starts it whatever follows. -/
theorem Starts.append {starts : TokenKind → Prop} {tokens : List Token}
    (started : Starts starts tokens) (others : List Token)
    : Starts starts (tokens ++ others) := by
  obtain ⟨first, rest, rfl, holds⟩ := started
  exact ⟨first, rest ++ others, rfl, holds⟩

/-- What starts in a stronger sense starts in a weaker one. -/
theorem Starts.imp {P Q : TokenKind → Prop} {tokens : List Token}
    (started : Starts P tokens) (implies : ∀ kind, P kind → Q kind)
    : Starts Q tokens := by
  obtain ⟨first, rest, rfl, holds⟩ := started
  exact ⟨first, rest, rfl, implies _ holds⟩

section

variable {inner : Language} {tokens : List Token} {value : SourceExpr}

/-- An operand starts as one. -/
theorem Primary.starts (derived : Primary inner tokens value)
    : Starts (startsOperand ·) tokens := by
  cases derived with
  | falseWord kind | trueWord kind | nilWord kind | number kind | string kind | this kind
  | identifier kind => exact ⟨_, [], rfl, by simp [kind, startsOperand]⟩
  | super kind => exact ⟨_, _, rfl, by simp [kind, startsOperand]⟩
  | group opens | arrow opens | arrowNames opens =>
      exact ⟨_, _, rfl, by simp [opens, startsOperand]⟩

/-- A call starts as an operand does. -/
theorem Call.starts (derived : Call inner tokens value)
    : Starts (startsOperand ·) tokens := by
  induction derived with
  | primary operand => exact operand.starts
  | call _ _ _ _ ih | get _ _ _ ih => exact ih.append _

/-- A unary expression starts with an operator or as an operand does. -/
theorem Unary.starts (derived : Unary inner tokens value)
    : Starts (startsExpression ·) tokens := by
  cases derived with
  | call operand => exact operand.starts.imp fun _ starts => by simp [startsExpression, starts]
  | operator negates =>
      refine ⟨_, _, rfl, ?_⟩
      rcases List.mem_cons.1 negates with kind | kind
      · simp [kind, startsExpression]
      · simp [List.mem_singleton.1 kind, startsExpression]

/-- A chain starts as its first operand does. -/
theorem Chain.starts {operand : List Token → SourceExpr → Prop} {operators : List TokenKind}
    {combine : SourceExpr → Token → SourceExpr → SourceExpr}
    (operandStarts
      : ∀ {tokens value}, operand tokens value → Starts (startsExpression ·) tokens)
    (derived : Chain operand operators combine tokens value)
    : Starts (startsExpression ·) tokens := by
  induction derived with
  | one single => exact operandStarts single
  | more _ _ _ ih => exact ih.append _

/-- An equality starts as an expression does. -/
theorem Equality.starts (derived : Equality inner tokens value)
    : Starts (startsExpression ·) tokens :=
  Chain.starts (Chain.starts (Chain.starts (Chain.starts Unary.starts))) derived

/-- A conditional expression starts as an expression does. -/
theorem Conditional.starts (derived : Conditional inner tokens value)
    : Starts (startsExpression ·) tokens := by
  cases derived with
  | equality operand => exact operand.starts
  | choice tested => exact tested.starts.append _

/-- A disjunction starts as an expression does. -/
theorem LogicOr.starts {commas : Bool} (derived : LogicOr inner commas tokens value)
    : Starts (startsExpression ·) tokens :=
  Chain.starts (Chain.starts (Chain.starts Conditional.starts)) derived

/-- An assignment starts as an expression does. -/
theorem Assignment.starts {commas : Bool} (derived : Assignment inner commas tokens value)
    : Starts (startsExpression ·) tokens := by
  cases derived with
  | logic operand => exact operand.starts
  | name named => exact ⟨_, _, rfl, by simp [named, startsExpression, startsOperand]⟩
  | property owner =>
      exact (owner.starts.imp fun _ starts => by simp [startsExpression, starts]).append _

end

/-- Whatever is nested, an expression starts with one of the tokens that start expressions. -/
theorem language_expression_starts {policy : Policy} {nesting : Nat} {commas : Bool}
    {tokens : List Token} {value : SourceExpr}
    (derived : (language policy nesting).expression commas tokens value)
    : Starts (startsExpression ·) tokens := by
  cases nesting with
  | zero => exact derived.elim
  | succ nesting => exact Assignment.starts derived

end Lox.Grammar
