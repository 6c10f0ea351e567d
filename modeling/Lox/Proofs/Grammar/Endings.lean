import Lox.Proofs.Grammar.StatementCompleteness

/-! How declarations end. Only a function literal can stand without the semicolon behind it. -/

namespace Lox.Grammar

def EndsIn (kind : TokenKind) (tokens : List Token) : Prop :=
  tokens.getLast?.map (·.kind) = some kind

/-- More tokens in front leave the last one as it is. -/
theorem EndsIn.append {kind : TokenKind} {tokens : List Token} (ends : EndsIn kind tokens)
    (front : List Token)
    : EndsIn kind (front ++ tokens) := by
  unfold EndsIn at ends ⊢
  cases tokens with
  | nil => cases ends
  | cons first rest => simpa [List.getLast?_append] using ends

/-- A block ends with its closing brace. -/
theorem Block.endsIn {inner : Language} {inLoop : Bool} {tokens : List Token}
    {statements : List SourceStmt} (derived : Block inner inLoop tokens statements)
    : EndsIn .rightBrace tokens := by
  cases derived with
  | mk opens body closes =>
      have closing : EndsIn .rightBrace [_] := congrArg some closes
      exact closing.append (_ :: _)

/-- A function literal ends in the brace of its body. -/
theorem Assignment.literal_endsIn {inner : Language} {commas : Bool} {tokens : List Token}
    {function : Lambda Unit} (derived : Assignment inner commas tokens (.function function))
    : EndsIn .rightBrace tokens := by
  cases derived with
  | logic operand =>
      cases operand.call rfl with
      | primary operand =>
          cases operand with
          | @arrow opening closing arrow _ _ _ _ _ block =>
              exact block.endsIn.append [opening, closing, arrow]
          | @arrowNames opening tokens _ closing arrow _ _ _ _ _ _ _ block =>
              have ends := block.endsIn.append (opening :: (tokens ++ [closing, arrow]))
              simpa using ends

/-- Only a function literal leaves a declaration without its semicolon. -/
theorem declaration_endsIn {nesting : Nat} {inLoop : Bool} {tokens : List Token}
    {statement : SourceStmt}
    (derived : (language .greedy nesting).declaration inLoop .openLiteral tokens statement)
    : EndsIn .rightBrace tokens := by
  cases nesting with
  | zero => exact derived.elim
  | succ nesting =>
      cases (derived : Declaration (language .greedy nesting) inLoop _ tokens statement) with
      | declaration _ rest =>
          cases rest with
          | literal named assigns initial =>
              cases nesting with
              | zero => exact initial.elim
              | succ nesting => exact (Assignment.literal_endsIn initial).append [_, _, _]
      | statement plain =>
          have complete := rules_complete false .greedy (fun _ greedy => greedy) nesting
          exact absurd rfl (plain.ending complete)

end Lox.Grammar
