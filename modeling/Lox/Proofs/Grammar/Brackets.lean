import Lox.Proofs.Grammar.Language

/-! Brackets stand in pairs in whatever the grammar derives.

This holds of parentheses and of braces, each sort by itself, and it is why the bracket that closes
a stretch can be found without knowing what stands inside of it.
-/

namespace Lox.Grammar

-----
-- Pairs

inductive Bracket where
  | parenthesis
  | brace

namespace Bracket

def opening : Bracket → TokenKind
  | .parenthesis => .leftParen
  | .brace => .leftBrace

def closing : Bracket → TokenKind
  | .parenthesis => .rightParen
  | .brace => .rightBrace

/-- What stands behind the bracket that closes the last of so many open ones and one more. -/
def behindClosing (bracket : Bracket) : Nat → List Token → List Token
  | _, [] => []
  | depth, token :: rest =>
      if token.kind = bracket.opening then
        behindClosing bracket (depth + 1) rest
      else if token.kind = bracket.closing then
        match depth with
        | 0 => rest
        | outer + 1 => behindClosing bracket outer rest
      else
        behindClosing bracket depth rest

end Bracket

/-- Every bracket of the sort has its partner. -/
inductive Balanced (bracket : Bracket) : List Token → Prop
  | nil : Balanced bracket []
  | other {token} (notOpening : token.kind ≠ bracket.opening)
    (notClosing : token.kind ≠ bracket.closing)
    : Balanced bracket [token]
  | pair {opening inside closing} (opens : opening.kind = bracket.opening)
    (paired : Balanced bracket inside) (closes : closing.kind = bracket.closing)
    : Balanced bracket (opening :: (inside ++ [closing]))
  | append {front back} (left : Balanced bracket front) (right : Balanced bracket back)
    : Balanced bracket (front ++ back)

def isBracket (kind : TokenKind) : Bool :=
  kind matches .leftParen | .rightParen | .leftBrace | .rightBrace

section

variable {bracket : Bracket} {opening closing token : Token} {inside tokens rest : List Token}

namespace Balanced

/-- A token that is no bracket is balanced. -/
theorem word {kind : TokenKind} (found : token.kind = kind) (plain : isBracket kind = false)
    : Balanced bracket [token] := by
  refine .other ?_ ?_ <;> intro same <;> rw [same] at found <;> subst found <;>
    cases bracket <;> cases plain

/-- A token that is no bracket may stand in front of balanced tokens. -/
theorem cons {kind : TokenKind} (found : token.kind = kind) (plain : isBracket kind = false)
    (balanced : Balanced bracket tokens)
    : Balanced bracket (token :: tokens) :=
  (word found plain).append balanced

/-- A stretch in brackets of either sort, and what follows it. -/
theorem enclosed (sort : Bracket) (opens : opening.kind = sort.opening)
    (paired : Balanced bracket inside) (closes : closing.kind = sort.closing)
    (balanced : Balanced bracket rest)
    : Balanced bracket (opening :: (inside ++ closing :: rest)) := by
  have front : Balanced bracket (opening :: (inside ++ [closing])) := by
    by_cases same : sort = bracket
    · subst same
      exact .pair opens paired closes
    · have apart : sort.opening ≠ bracket.opening ∧ sort.opening ≠ bracket.closing
          ∧ sort.closing ≠ bracket.opening ∧ sort.closing ≠ bracket.closing := by
        cases sort <;> cases bracket <;> first | contradiction | decide
      rw [← opens, ← closes] at apart
      exact (Balanced.other apart.1 apart.2.1).append
        (paired.append (.other apart.2.2.1 apart.2.2.2))
  simpa using front.append balanced

/-- The search for a closing bracket passes over a stretch in which all brackets have partners. -/
theorem behindClosing (balanced : Balanced bracket tokens) (depth : Nat) (rest : List Token)
    : bracket.behindClosing depth (tokens ++ rest) = bracket.behindClosing depth rest := by
  have apart : bracket.closing ≠ bracket.opening := by
    cases bracket <;> decide
  induction balanced generalizing depth rest with
  | nil => rfl
  | other notOpening notClosing => simp [Bracket.behindClosing, notOpening, notClosing]
  | pair opens _ closes ih =>
      simp [Bracket.behindClosing, opens, closes, apart, ih]
  | append _ _ left right => rw [List.append_assoc, left, right]

/-- The bracket that closes a stretch is found whatever follows it. -/
theorem unique {front front' rest rest' : List Token} {closing closing' : Token}
    (balanced : Balanced bracket front) (balanced' : Balanced bracket front')
    (closes : closing.kind = bracket.closing) (closes' : closing'.kind = bracket.closing)
    (same : front ++ closing :: rest = front' ++ closing' :: rest')
    : front = front' ∧ closing = closing' ∧ rest = rest' := by
  have apart : bracket.closing ≠ bracket.opening := by
    cases bracket <;> decide
  have behind := congrArg (bracket.behindClosing 0) same
  rw [balanced.behindClosing, balanced'.behindClosing] at behind
  obtain rfl : rest = rest' := by
    simpa [Bracket.behindClosing, closes, closes', apart] using behind
  have fronts : front ++ [closing] = front' ++ [closing'] := by
    refine (List.append_left_inj rest).1 ?_
    rwa [List.append_assoc, List.append_assoc]
  obtain ⟨rfl, last⟩ := List.append_inj' fronts rfl
  exact ⟨rfl, (List.cons.inj last).1, rfl⟩

end Balanced

end

-----
-- Expressions

/-- In whatever a nested place derives, brackets stand in pairs. -/
structure Language.Balances (bracket : Bracket) (inner : Language) : Prop where
  expression
    : ∀ {commas tokens value}, inner.expression commas tokens value → Balanced bracket tokens
  names : ∀ {tokens names}, inner.names tokens names → Balanced bracket tokens
  statement
    : ∀ {inLoop ending tokens statement},
        inner.statement inLoop ending tokens statement → Balanced bracket tokens
  declaration
    : ∀ {inLoop ending tokens statement},
        inner.declaration inLoop ending tokens statement → Balanced bracket tokens

section

variable {bracket : Bracket} {inner : Language} {commas : Bool} {tokens : List Token}
  {value : SourceExpr}

/-- A sequence of statements is balanced, by induction on it. -/
theorem Sequence.balanced {policy : Policy}
    {declaration : Ending → List Token → SourceStmt → Prop} {statements : List SourceStmt}
    (each
      : ∀ {ending tokens statement}, declaration ending tokens statement → Balanced bracket tokens)
    (derived : Sequence policy declaration tokens statements)
    : Balanced bracket tokens := by
  induction derived with
  | nil => exact .nil
  | cons head _ _ ih => exact (each head).append ih

/-- A block is balanced, its braces included. -/
theorem Block.balanced (balances : inner.Balances bracket) {inLoop : Bool}
    {statements : List SourceStmt} (derived : Block inner inLoop tokens statements)
    : Balanced bracket tokens := by
  cases derived with
  | mk opens body closes =>
      exact .enclosed .brace opens (Sequence.balanced balances.declaration body) closes .nil

/-- Parameters are balanced, by induction on them. -/
theorem Names.balanced {names : List Token} (listed : Names tokens names)
    : Balanced bracket tokens := by
  induction listed with
  | last named => exact .word named rfl
  | more named separates _ ih => exact .cons named rfl (.cons separates rfl ih)

/-- A chain of operands is balanced, by induction on it. -/
theorem Chain.balanced {operand : List Token → SourceExpr → Prop} {operators : List TokenKind}
    {combine : SourceExpr → Token → SourceExpr → SourceExpr}
    (each : ∀ {tokens value}, operand tokens value → Balanced bracket tokens)
    (plain : ∀ kind ∈ operators, isBracket kind = false)
    (derived : Chain operand operators combine tokens value)
    : Balanced bracket tokens := by
  induction derived with
  | one single => exact each single
  | more _ joined back ih => exact ih.append (.cons rfl (plain _ joined) (each back))

/-- An operand is balanced, by cases on what it is. -/
theorem Primary.balanced (balances : inner.Balances bracket) (derived : Primary inner tokens value)
    : Balanced bracket tokens := by
  cases derived with
  | super kind dotted named => exact .cons kind rfl (.cons dotted rfl (.word named rfl))
  | group opens grouped closes =>
      exact .enclosed .parenthesis opens (balances.expression grouped) closes .nil
  | arrow opens closes points block =>
      exact .enclosed .parenthesis opens .nil closes (.cons points rfl (block.balanced balances))
  | arrowNames opens listed _ closes points block =>
      exact .enclosed .parenthesis opens (balances.names listed) closes
        (.cons points rfl (block.balanced balances))
  | falseWord kind | trueWord kind | nilWord kind | number kind | string kind | this kind
  | identifier kind => exact .word kind rfl

/-- Arguments are balanced, by induction on them. -/
theorem ArgumentList.balanced (balances : inner.Balances bracket) {values : List SourceExpr}
    (listed : ArgumentList inner tokens values)
    : Balanced bracket tokens := by
  induction listed with
  | last argument => exact balances.expression argument
  | more argument separates _ ih =>
      exact (balances.expression argument).append (.cons separates rfl ih)

/-- An argument list is balanced, its parentheses included. -/
theorem Arguments.balanced (balances : inner.Balances bracket) {values : List SourceExpr}
    (derived : Arguments inner tokens values)
    : Balanced bracket tokens := by
  cases derived with
  | none => exact .nil
  | some listed => exact listed.balanced balances

/-- Calls and property reads are balanced, by induction on them. -/
theorem Call.balanced (balances : inner.Balances bracket) (derived : Call inner tokens value)
    : Balanced bracket tokens := by
  induction derived with
  | primary operand => exact operand.balanced balances
  | call _ opens passed closes ih =>
      exact ih.append (.enclosed .parenthesis opens (passed.balanced balances) closes .nil)
  | get _ dotted named ih => exact ih.append (.cons dotted rfl (.word named rfl))

/-- An operator in front of a balanced operand is no bracket. -/
theorem Unary.balanced (balances : inner.Balances bracket) (derived : Unary inner tokens value)
    : Balanced bracket tokens := by
  induction derived with
  | call operand => exact operand.balanced balances
  | @operator operator _ _ negates _ ih =>
      have plain : isBracket operator.kind = false := by
        revert negates
        generalize operator.kind = kind
        cases kind <;> decide
      exact .cons rfl plain ih

/-- The levels up to an equality are chains, one above the other. -/
theorem Equality.balanced (balances : inner.Balances bracket)
    (derived : Equality inner tokens value)
    : Balanced bracket tokens := by
  refine Chain.balanced (fun comparison => ?_) (by decide) derived
  refine Chain.balanced (fun term => ?_) (by decide) comparison
  refine Chain.balanced (fun factor => ?_) (by decide) term
  exact Chain.balanced (fun unary => unary.balanced balances) (by decide) factor

/-- A conditional expression is balanced. -/
theorem Conditional.balanced (balances : inner.Balances bracket)
    (derived : Conditional inner tokens value)
    : Balanced bracket tokens := by
  cases derived with
  | equality operand => exact operand.balanced balances
  | choice tested asks first separates second =>
      exact (tested.balanced balances).append
        (.cons asks rfl
          ((first.balanced balances).append (.cons separates rfl (second.balanced balances))))

/-- An assignment is balanced, its target as well. -/
theorem Assignment.balanced (balances : inner.Balances bracket)
    (derived : Assignment inner commas tokens value)
    : Balanced bracket tokens := by
  induction derived with
  | logic operand =>
      refine Chain.balanced (fun conjunction => ?_) (by decide) operand
      refine Chain.balanced (fun list => ?_) (by decide) conjunction
      exact Chain.balanced (fun conditional => conditional.balanced balances)
        (by cases commas <;> decide) list
  | name named assigns _ ih => exact .cons named rfl (.cons assigns rfl ih)
  | property owner dotted named assigns _ ih =>
      exact (owner.balanced balances).append
        (.cons dotted rfl (.cons named rfl (.cons assigns rfl ih)))

/-- An expression that may be missing is balanced. -/
theorem OptionalExpression.balanced (balances : inner.Balances bracket) {value : Option SourceExpr}
    (derived : OptionalExpression inner tokens value)
    : Balanced bracket tokens := by
  cases derived with
  | none => exact .nil
  | some written => exact balances.expression written

end

-----
-- Statements and declarations

section

variable {bracket : Bracket} {inner : Language} {inLoop : Bool} {ending : Ending}
  {tokens : List Token} {statement : SourceStmt}

/-- A parameter list is balanced, its parentheses included. -/
theorem Parameters.balanced {parameters : List Token} (derived : Parameters tokens parameters)
    : Balanced bracket tokens := by
  cases derived with
  | none => exact .nil
  | some listed => exact listed.balanced

/-- A superclass clause is balanced. -/
theorem SuperclassClause.balanced {superclass : Option (Reference Unit)}
    (derived : SuperclassClause tokens superclass)
    : Balanced bracket tokens := by
  cases derived with
  | none => exact .nil
  | some inherits named => exact .cons inherits rfl (.word named rfl)

/-- A function is balanced behind its name. -/
theorem NamedFunction.balanced (balances : inner.Balances bracket) {name : Token}
    {function : Lambda Unit} (derived : NamedFunction inner tokens name function)
    : Balanced bracket tokens := by
  cases derived with
  | mk named opens listed closes block =>
      exact .cons named rfl
        (.enclosed .parenthesis opens listed.balanced closes (block.balanced balances))

/-- Methods are balanced, by induction on them. -/
theorem Methods.balanced (balances : inner.Balances bracket) {methods : List (Method Unit)}
    (derived : Methods inner tokens methods)
    : Balanced bracket tokens := by
  induction derived with
  | nil => exact .nil
  | cons head _ ih => exact (head.balanced balances).append ih

/-- The rest of a variable declaration is balanced. -/
theorem VariableRest.balanced (balances : inner.Balances bracket)
    (derived : VariableRest inner ending tokens statement)
    : Balanced bracket tokens := by
  cases derived with
  | plain named ends => exact .cons named rfl (.word ends rfl)
  | initialized named assigns initial ends =>
      exact .cons named rfl
        (.cons assigns rfl ((balances.expression initial).append (.word ends rfl)))
  | literal named assigns initial =>
      exact .cons named rfl (.cons assigns rfl (balances.expression initial))

/-- An expression statement is balanced. -/
theorem ExpressionStatement.balanced (balances : inner.Balances bracket)
    (derived : ExpressionStatement inner tokens statement)
    : Balanced bracket tokens := by
  cases derived with
  | mk written ends => exact (balances.expression written).append (.word ends rfl)

/-- The first clause of a `for` is balanced. -/
theorem ForInitial.balanced (balances : inner.Balances bracket) {initial : Option SourceStmt}
    (derived : ForInitial inner ending tokens initial)
    : Balanced bracket tokens := by
  cases derived with
  | none ends => exact .word ends rfl
  | declaration declares rest => exact .cons declares rfl (rest.balanced balances)
  | expression written => exact written.balanced balances

/-- A statement is balanced, by cases on its first token. -/
theorem Statement.balanced (balances : inner.Balances bracket)
    (derived : Statement inner inLoop ending tokens statement)
    : Balanced bracket tokens := by
  cases derived with
  | expression written => exact written.balanced balances
  | print kind written ends =>
      exact .cons kind rfl ((balances.expression written).append (.word ends rfl))
  | printLine kind written ends | returnValue kind written ends =>
      exact .cons kind rfl ((written.balanced balances).append (.word ends rfl))
  | breakLoop kind _ ends => exact .cons kind rfl (.word ends rfl)
  | block braced => exact braced.balanced balances
  | branch kind opens tested closes first =>
      exact .cons kind rfl
        (.enclosed .parenthesis opens (balances.expression tested) closes
          (balances.statement first))
  | branchElse kind opens tested closes first otherwise second =>
      exact .cons kind rfl
        (.enclosed .parenthesis opens (balances.expression tested) closes
          ((balances.statement first).append
            (.cons otherwise rfl (balances.statement second))))
  | loop kind opens tested closes repeated =>
      exact .cons kind rfl
        (.enclosed .parenthesis opens (balances.expression tested) closes
          (balances.statement repeated))
  | forLoop kind opens starts _ tested ends stepped closes repeated =>
      have clauses :=
        (starts.balanced balances).append
          ((tested.balanced balances).append (.cons ends rfl (stepped.balanced balances)))
      simpa using Balanced.cons kind rfl
        (.enclosed .parenthesis opens clauses closes (balances.statement repeated))

/-- A declaration is balanced, by cases on its first token. -/
theorem Declaration.balanced (balances : inner.Balances bracket)
    (derived : Declaration inner inLoop ending tokens statement)
    : Balanced bracket tokens := by
  cases derived with
  | «class» kind named inherits opens listed closes =>
      exact .cons kind rfl
        (.cons named rfl
          (inherits.balanced.append
            (.enclosed .brace opens (listed.balanced balances) closes .nil)))
  | function kind defined => exact .cons kind rfl (defined.balanced balances)
  | declaration kind rest => exact .cons kind rfl (rest.balanced balances)
  | statement plain => exact plain.balanced balances

end

/-- Brackets stand in pairs at any depth of nesting. -/
theorem language_balances (bracket : Bracket) (policy : Policy) (nesting : Nat)
    : (language policy nesting).Balances bracket := by
  induction nesting with
  | zero => exact ⟨False.elim, False.elim, False.elim, False.elim⟩
  | succ nesting ih =>
      exact
        {
          expression := Assignment.balanced ih,
          names := Names.balanced,
          statement := Statement.balanced ih,
          declaration := Declaration.balanced ih
        }

end Lox.Grammar
