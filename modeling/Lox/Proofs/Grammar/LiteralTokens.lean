import Lox.Proofs.Grammar.Brackets
import Lox.Proofs.Grammar.Operands

/-! What the tokens of a function literal derive.

Names in parentheses, an arrow and a body in braces can be read as nothing but that literal: a group
could not be followed by the arrow, and the body is as long as its braces say.
-/

namespace Lox.Grammar

-----
-- Tokens

/-- The tokens of a function literal with these parameters: names in parentheses, an arrow, and a
body in braces. Inside of the body every brace has its partner. -/
inductive LiteralTokens : List Token → List Token → Prop
  | mk {opening listed names closing arrow leftBrace body rightBrace}
    (opens : opening.kind = .leftParen) (lists : listed = [] ∧ names = [] ∨ Names listed names)
    (closes : closing.kind = .rightParen) (points : arrow.kind = .arrow)
    (opensBody : leftBrace.kind = .leftBrace) (paired : Balanced .brace body)
    (closesBody : rightBrace.kind = .rightBrace)
    : LiteralTokens
        (opening :: (listed ++ closing :: arrow :: leftBrace :: (body ++ [rightBrace]))) names

/-- The same tokens list the same parameters. -/
theorem Names.unique {tokens names names' : List Token} (listed : Names tokens names)
    (listed' : Names tokens names')
    : names = names' := by
  induction listed generalizing names' with
  | last => cases listed'; rfl
  | more _ _ _ ih =>
      cases listed' with
      | more _ _ rest => rw [ih rest]

section

variable {inner : Language} {tokens front rest following : List Token} {value : SourceExpr}

/-- An expression begins with an operand, behind which no arrow stands. Only what negates it can
stand in front. -/
inductive FirstOperand (inner : Language) : List Token → Prop
  | mk {negations front back value} (negate : ∀ token ∈ negations, token.kind ∈ [.bang, .minus])
    (operand : Primary inner front value) (apart : ∀ token ∈ back.head?, token.kind ≠ .arrow)
    : FirstOperand inner (negations ++ (front ++ back))

/-- No arrow comes first in two parts of which none starts with one. -/
theorem head_append_ne_arrow (apart : ∀ token ∈ front.head?, token.kind ≠ .arrow)
    (apart' : ∀ token ∈ rest.head?, token.kind ≠ .arrow)
    : ∀ token ∈ (front ++ rest).head?, token.kind ≠ .arrow := by
  cases front with
  | nil => exact apart'
  | cons => exact apart

/-- The first operand is the same with more tokens behind, unless an arrow is the first of them. -/
theorem FirstOperand.append (first : FirstOperand inner tokens)
    (apart : ∀ token ∈ rest.head?, token.kind ≠ .arrow)
    : FirstOperand inner (tokens ++ rest) := by
  cases first with
  | mk negate operand apart' =>
      simpa using FirstOperand.mk negate operand (head_append_ne_arrow apart' apart)

/-- The first operand is the same in front of a token that is no arrow. -/
theorem FirstOperand.append_cons {token : Token} {kind : TokenKind}
    (first : FirstOperand inner tokens) (found : token.kind = kind) (other : kind ≠ .arrow)
    : FirstOperand inner (tokens ++ token :: rest) :=
  first.append fun _ same => Option.some.inj same ▸ found ▸ other

/-- An operand is its own first operand. -/
theorem Primary.firstOperand (operand : Primary inner tokens value)
    : FirstOperand inner tokens := by
  have first : FirstOperand inner ([] ++ (tokens ++ [])) :=
    .mk (List.forall_mem_nil _) operand fun _ none => (Option.not_mem_none _ none).elim
  simpa using first

/-- A call starts with its first operand. -/
theorem Call.firstOperand (derived : Call inner tokens value) : FirstOperand inner tokens := by
  induction derived with
  | primary operand => exact operand.firstOperand
  | call _ opens _ _ ih => exact ih.append_cons opens (by decide)
  | get _ dotted _ ih => exact ih.append_cons dotted (by decide)

/-- A unary expression starts with its first operand, unless it starts with an operator. -/
theorem Unary.firstOperand (derived : Unary inner tokens value) : FirstOperand inner tokens := by
  induction derived with
  | call operand => exact operand.firstOperand
  | operator negates _ ih =>
      cases ih with
      | mk negate operand apart =>
          exact .mk (List.forall_mem_cons.2 ⟨negates, negate⟩) operand apart

/-- A chain starts with the first operand of its own first one. -/
theorem Chain.firstOperand {operand : List Token → SourceExpr → Prop}
    {operators : List TokenKind} {combine : SourceExpr → Token → SourceExpr → SourceExpr}
    (first : ∀ {tokens value}, operand tokens value → FirstOperand inner tokens)
    (noArrow : .arrow ∉ operators)
    (derived : Chain operand operators combine tokens value)
    : FirstOperand inner tokens := by
  induction derived with
  | one single => exact first single
  | more _ joined _ ih => exact ih.append_cons rfl fun arrow => noArrow (arrow ▸ joined)

/-- A conditional expression starts with its first operand. -/
theorem Conditional.firstOperand (derived : Conditional inner tokens value)
    : FirstOperand inner tokens := by
  have equality {tokens : List Token} {value : SourceExpr}
      (derived : Equality inner tokens value)
      : FirstOperand inner tokens := by
    refine Chain.firstOperand (fun comparison => ?_) (by decide) derived
    refine Chain.firstOperand (fun term => ?_) (by decide) comparison
    refine Chain.firstOperand (fun factor => ?_) (by decide) term
    exact Chain.firstOperand Unary.firstOperand (by decide) factor
  cases derived with
  | equality operand => exact equality operand
  | choice tested asks => exact (equality tested).append_cons asks (by decide)

/-- An assignment starts with its first operand. -/
theorem Assignment.firstOperand {commas : Bool} (derived : Assignment inner commas tokens value)
    : FirstOperand inner tokens := by
  cases derived with
  | logic operand =>
      refine Chain.firstOperand (fun conjunction => ?_) (by decide) operand
      refine Chain.firstOperand (fun list => ?_) (by decide) conjunction
      exact Chain.firstOperand Conditional.firstOperand (by cases commas <;> decide) list
  | name named assigns =>
      have first : FirstOperand inner [_] := (Primary.identifier named).firstOperand
      exact first.append_cons assigns (by decide)
  | property owner dotted => exact owner.firstOperand.append_cons dotted (by decide)

/-- A block is as long as the brace that closes it says. -/
theorem Block.eq_of_balanced (balances : inner.Balances .brace) {inLoop : Bool}
    {braced body : List Token} {statements : List SourceStmt} {leftBrace rightBrace : Token}
    (derived : Block inner inLoop braced statements) (paired : Balanced .brace body)
    (closesBody : rightBrace.kind = .rightBrace)
    (split : braced ++ following = leftBrace :: (body ++ rightBrace :: rest))
    : braced = leftBrace :: (body ++ [rightBrace]) := by
  cases derived with
  | @mk opening inside _ closing opens declared closes =>
      have inner := Sequence.balanced balances.declaration declared
      obtain ⟨rfl, same⟩
          : opening = leftBrace
            ∧ inside ++ closing :: following = body ++ rightBrace :: rest := by
        simpa using split
      obtain ⟨rfl, rfl, -⟩ := inner.unique paired closes closesBody same
      rfl

end

-----
-- Recognition

section

variable {policy : Policy} {nesting : Nat} {tokens front literal names following rest : List Token}
  {value : SourceExpr}

/-- What a language takes for names is names, at whatever level of nesting. -/
theorem names_of_language (listed : (language policy nesting).names tokens names)
    : Names tokens names := by
  cases nesting with
  | zero => exact False.elim listed
  | succ nesting => exact listed

/-- Where the tokens of a literal stand, an operand is that literal. A group could not be followed
by the arrow. -/
theorem LiteralTokens.of_primary (written : LiteralTokens literal names)
    (operand : Primary (language policy nesting) front value)
    (split : front ++ following = literal ++ rest)
    (apart : ∀ inside, value = .grouping inside → ∀ token ∈ following.head?, token.kind ≠ .arrow)
    : ∃ statements,
        Primary (language policy nesting) literal (.function (.mk names statements)) := by
  have balances (bracket : Bracket) := language_balances bracket policy nesting
  cases written with
  | @mk opening listed _ closing arrow leftBrace body rightBrace
      opens listing closes points opensBody paired closesBody =>
      have noParens : Balanced .parenthesis listed := by
        rcases listing with ⟨rfl, -⟩ | listing
        · exact .nil
        · exact listing.balanced
      cases operand with
      | @group opening' inside _ closing' _ grouped closes' =>
          have tail : inside ++ closing' :: following
              = listed ++ closing :: (arrow :: leftBrace :: (body ++ [rightBrace]) ++ rest) := by
            simpa using (List.cons.inj split).2
          obtain ⟨-, -, rfl⟩ :=
            ((balances _).expression grouped).unique noParens closes' closes tail
          exact absurd points (apart _ rfl arrow rfl)
      | @arrow opening' closing' arrow' braced statements opens' closes' points' block =>
          have tail : [] ++ closing' :: (arrow' :: braced ++ following)
              = listed ++ closing :: (arrow :: leftBrace :: (body ++ [rightBrace]) ++ rest) := by
            simpa using (List.cons.inj split).2
          obtain ⟨rfl, rfl, same⟩ := Balanced.nil.unique noParens closes' closes tail
          obtain rfl : names = [] := by
            rcases listing with ⟨-, rfl⟩ | listing
            · rfl
            · cases listing
          have bodies : braced ++ following = leftBrace :: (body ++ rightBrace :: rest) := by
            simpa using (List.cons.inj same).2
          obtain rfl := block.eq_of_balanced (balances _) paired closesBody bodies
          exact ⟨statements, .arrow opens closes points block⟩
      | @arrowNames opening' listed' names' closing' arrow' braced statements
          opens' listing' few closes' points' block =>
          have tail : listed' ++ closing' :: (arrow' :: braced ++ following)
              = listed ++ closing :: (arrow :: leftBrace :: (body ++ [rightBrace]) ++ rest) := by
            simpa using (List.cons.inj split).2
          obtain ⟨rfl, rfl, same⟩ :=
            ((balances _).names listing').unique noParens closes' closes tail
          obtain rfl : names' = names := by
            have listing' : Names listed' names' := names_of_language listing'
            rcases listing with ⟨rfl, -⟩ | listing
            · cases listing'
            · exact listing'.unique listing
          have bodies : braced ++ following = leftBrace :: (body ++ rightBrace :: rest) := by
            simpa using (List.cons.inj same).2
          obtain rfl := block.eq_of_balanced (balances _) paired closesBody bodies
          exact ⟨statements, .arrowNames opens listing' few closes points block⟩
      | falseWord kind | trueWord kind | nilWord kind | number kind | string kind | this kind
      | identifier kind | super kind =>
          obtain rfl := (List.cons.inj split).1
          rw [opens] at kind
          contradiction

/-- Where the tokens of a literal stand, an expression begins with that literal. -/
theorem LiteralTokens.of_assignment {commas : Bool} (written : LiteralTokens literal names)
    (derived : Assignment (language policy nesting) commas tokens value)
    (split : tokens ++ following = literal ++ rest)
    (apart : ∀ token ∈ following.head?, token.kind ≠ .arrow)
    : ∃ statements,
        Primary (language policy nesting) literal (.function (.mk names statements)) := by
  cases derived.firstOperand with
  | @mk negations front back value negate operand apart' =>
      have plain : negations = [] := by
        cases negations with
        | nil => rfl
        | cons negation negations =>
            cases written with
            | mk opens =>
                obtain rfl := (List.cons.inj split).1
                have negates := negate _ (List.mem_cons_self ..)
                simp [opens] at negates
      subst plain
      have whole : front ++ (back ++ following) = literal ++ rest := by
        simpa using split
      exact written.of_primary operand whole fun _ _ => head_append_ne_arrow apart' apart

/-- Where a variable is initialized with the tokens of a literal, it is with that literal. Without
any nesting there is no initial value at all. -/
theorem LiteralTokens.of_initial {ending : Ending} {name equals semicolon : Token}
    {declared : SourceStmt} (written : LiteralTokens literal names)
    (assigns : equals.kind = .equal)
    (initial : VariableRest (language policy nesting) ending tokens declared)
    (split : tokens ++ following = name :: equals :: (literal ++ [semicolon]))
    : ∃ statements,
        (language policy nesting).expression true literal (.function (.mk names statements)) := by
  have whole {nesting : Nat}
      (single
        : ∃ statements,
            Primary (language policy nesting) literal (.function (.mk names statements)))
      : ∃ statements,
          Assignment (language policy nesting) true literal (.function (.mk names statements)) :=
    single.imp fun _ single => .logic (Call.logicOr (.primary single))
  cases initial with
  | plain _ ends =>
      obtain ⟨-, rfl, -⟩ : _ = name ∧ _ = equals ∧ _ := by simpa using split
      rw [assigns] at ends
      contradiction
  | @initialized _ _ tokens value final _ _ initial ends =>
      have same : tokens ++ final :: following = literal ++ [semicolon] := by
        simpa using (List.cons.inj (List.cons.inj split).2).2
      cases nesting with
      | zero => exact False.elim initial
      | succ nesting =>
          have derived : Assignment (language policy nesting) true tokens value := initial
          refine whole (written.of_assignment derived same ?_)
          rintro _ ⟨rfl⟩ arrow
          rw [ends] at arrow
          contradiction
  | @literal _ _ tokens function _ _ initial =>
      have same : tokens ++ following = literal ++ [semicolon] :=
        (List.cons.inj (List.cons.inj split).2).2
      cases nesting with
      | zero => exact False.elim initial
      | succ nesting =>
          have derived
              : Assignment (language policy nesting) true tokens (.function function) :=
            initial
          cases derived with
          | logic operand =>
              cases operand.call rfl with
              | primary operand =>
                  exact whole (written.of_primary operand same fun _ group => by contradiction)

end

end Lox.Grammar
