import Lox.Proofs.Grammar.Language

/-! What a tree says about the tokens it was derived from.

Assignment targets and parameter names are read as expressions first and recognised by their tree
afterwards. The tree alone tells that nothing but a target or a list of names was read.
-/

namespace Lox.Grammar

-----
-- Operands

/-- Trees that some operator made out of others. -/
def isOperation : SourceExpr → Bool
  | .unary .. | .binary .. | .logical .. | .conditional .. => true
  | _ => false

section

variable {inner : Language} {commas : Bool} {tokens : List Token} {value : SourceExpr}

/-- A chain that did not make an operation is a single operand. -/
theorem Chain.operand {operand : List Token → SourceExpr → Prop} {operators : List TokenKind}
    {combine : SourceExpr → Token → SourceExpr → SourceExpr}
    (derived : Chain operand operators combine tokens value)
    (combined : ∀ left operator right, isOperation (combine left operator right) = true)
    (single : isOperation value = false)
    : operand tokens value := by
  cases derived with
  | one single => exact single
  | more front joined back => simp [combined] at single

/-- An equality without an operation is a call. -/
theorem Equality.call (derived : Equality inner tokens value)
    (single : isOperation value = false)
    : Call inner tokens value := by
  have binary (left : SourceExpr) (operator : Token) (right : SourceExpr)
      : isOperation (.binary left operator right) = true :=
    rfl
  have comparison : Comparison inner tokens value := Chain.operand derived binary single
  have term : Term inner tokens value := Chain.operand comparison binary single
  have factor : Factor inner tokens value := Chain.operand term binary single
  have unary : Unary inner tokens value := Chain.operand factor binary single
  cases unary with
  | call operand => exact operand
  | operator => simp [isOperation] at single

/-- An expression without an assignment that is no operation is a call or tighter. -/
theorem LogicOr.call (derived : LogicOr inner commas tokens value)
    (single : isOperation value = false)
    : Call inner tokens value := by
  have conjunction : LogicAnd inner commas tokens value :=
    Chain.operand derived (fun _ _ _ => rfl) single
  have comma : Comma inner commas tokens value :=
    Chain.operand conjunction (fun _ _ _ => rfl) single
  have conditional : Conditional inner tokens value :=
    Chain.operand comma (fun _ _ _ => rfl) single
  cases conditional with
  | equality operand => exact operand.call single
  | choice => simp [isOperation] at single

/-- A call is an expression of every looser level. -/
theorem Call.equality (derived : Call inner tokens value) : Equality inner tokens value :=
  .one (.one (.one (.one (.call derived))))

/-- A call alone is a disjunction. -/
theorem Call.logicOr (derived : Call inner tokens value) : LogicOr inner commas tokens value :=
  .one (.one (.one (.equality derived.equality)))

/-- A variable is a single name. -/
theorem Call.of_variable {target : Reference Unit}
    (derived : Call inner tokens (.variable target))
    : ∃ name : Token, tokens = [name] ∧ name.kind = .identifier ∧ target = reference name := by
  cases derived with
  | primary operand =>
      cases operand with
      | identifier kind => exact ⟨_, rfl, kind, rfl⟩

/-- A property read is a call or tighter, a dot and a name. -/
theorem Call.of_get {object : SourceExpr} {name : Token}
    (derived : Call inner tokens (.get object name))
    : ∃ front dot,
        tokens = front ++ [dot, name]
        ∧ Call inner front object
        ∧ dot.kind = .dot
        ∧ name.kind = .identifier := by
  cases derived with
  | primary operand => cases operand
  | get front dotted named => exact ⟨_, _, rfl, front, dotted, named⟩

end

-----
-- Parameter names

/-- One more name behind a comma is listed. -/
theorem Names.snoc {tokens names : List Token} {separator name : Token}
    (listed : Names tokens names) (separates : separator.kind = .comma)
    (named : name.kind = .identifier)
    : Names (tokens ++ [separator, name]) (names ++ [name]) := by
  induction listed with
  | last first => exact .more first separates (.last named)
  | more first separates' _ ih => exact .more first separates' ih

/-- The tokens are one name, the only parameter. -/
def SingleName (tokens names : List Token) : Prop :=
  ∃ name : Token, tokens = [name] ∧ names = [name] ∧ name.kind = .identifier

section

variable {inner : Language} {tokens names : List Token} {value : SourceExpr}

/-- A call that lists parameters is a single name. -/
theorem Call.singleName (derived : Call inner tokens value)
    (listed : parameterNames? value = some names)
    : SingleName tokens names := by
  cases derived with
  | primary operand =>
      cases operand with
      | identifier kind =>
          obtain rfl : [_] = names := Option.some.inj listed
          exact ⟨_, rfl, rfl, kind⟩
      | _ => simp [parameterNames?] at listed
  | call | get => simp [parameterNames?] at listed

/-- Operators other than the comma make no list of names. -/
theorem Chain.singleName {operand : List Token → SourceExpr → Prop}
    {operators : List TokenKind}
    (operandNames
      : ∀ {tokens value},
          operand tokens value → parameterNames? value = some names → SingleName tokens names)
    (notComma : .comma ∉ operators)
    (derived : Chain operand operators .binary tokens value)
    (listed : parameterNames? value = some names)
    : SingleName tokens names := by
  cases derived with
  | one single => exact operandNames single listed
  | @more _ _ operator _ _ front joined back =>
      have kind : operator.kind ≠ .comma := fun comma => notComma (comma ▸ joined)
      simp [parameterNames?, kind] at listed

/-- A conditional expression that lists parameters is a single name. -/
theorem Conditional.singleName (derived : Conditional inner tokens value)
    (listed : parameterNames? value = some names)
    : SingleName tokens names := by
  have unary {tokens value} (derived : Unary inner tokens value)
      (listed : parameterNames? value = some names)
      : SingleName tokens names := by
    cases derived with
    | call operand => exact operand.singleName listed
    | operator => simp [parameterNames?] at listed
  cases derived with
  | equality operand =>
      refine Chain.singleName (fun comparison listed => ?_) (by decide) operand listed
      refine Chain.singleName (fun term listed => ?_) (by decide) comparison listed
      refine Chain.singleName (fun factor listed => ?_) (by decide) term listed
      exact Chain.singleName unary (by decide) factor listed
  | choice => simp [parameterNames?] at listed

/-- An expression that lists names derives from nothing but names and commas. -/
theorem Comma.listedNames (derived : Comma inner true tokens value)
    (listed : parameterNames? value = some names)
    : Names tokens names := by
  unfold Comma at derived
  induction derived generalizing names with
  | one single =>
      obtain ⟨name, rfl, rfl, named⟩ := single.singleName listed
      exact .last named
  | @more _ left operator _ right front joined back ih =>
      have comma : operator.kind = .comma := by simpa using joined
      simp only [parameterNames?, comma, ↓reduceIte] at listed
      obtain ⟨firsts, firstsListed, rest⟩ := Option.bind_eq_some_iff.1 listed
      obtain ⟨lasts, lastsListed, same⟩ := Option.bind_eq_some_iff.1 rest
      obtain rfl : firsts ++ lasts = names := Option.some.inj same
      obtain ⟨name, rfl, rfl, named⟩ := back.singleName lastsListed
      exact (ih firstsListed).snoc comma named

/-- An expression that lists parameters is names with commas between them. -/
theorem Assignment.listedNames (derived : Assignment inner true tokens value)
    (listed : parameterNames? value = some names)
    : Names tokens names := by
  cases derived with
  | logic operand =>
      have noLogic {operand : List Token → SourceExpr → Prop} {operators : List TokenKind}
          (derived : Chain operand operators .logical tokens value)
          : operand tokens value := by
        cases derived with
        | one single => exact single
        | more => simp [parameterNames?] at listed
      exact Comma.listedNames (noLogic (noLogic operand)) listed
  | name | property => simp [parameterNames?] at listed

/-- A chain of names can be added to with further names. -/
theorem Names.comma_append {front firsts : List Token} {left : SourceExpr} {separator : Token}
    (listed : Names tokens names) (chained : Comma inner true front left)
    (leftNames : parameterNames? left = some firsts) (separates : separator.kind = .comma)
    : ∃ value,
        Comma inner true (front ++ separator :: tokens) value
        ∧ parameterNames? value = some (firsts ++ names) := by
  have single {name : Token} (named : name.kind = .identifier)
      : Conditional inner [name] (.variable (reference name)) :=
    .equality (Call.equality (.primary (.identifier named)))
  induction listed generalizing front firsts left separator with
  | last named =>
      refine ⟨_, .more chained (by simp [separates]) (single named), ?_⟩
      simp [parameterNames?, separates, leftNames, reference]
  | @more name separator' tokens names named separates' rest ih =>
      have longer
          : Comma inner true (front ++ separator :: [name])
              (.binary left separator (.variable (reference name))) :=
        .more chained (by simp [separates]) (single named)
      have longerNames
          : parameterNames? (.binary left separator (.variable (reference name)))
              = some (firsts ++ [name]) := by
        simp [parameterNames?, separates, leftNames, reference]
      obtain ⟨value, derived, all⟩ := ih longer longerNames separates'
      refine ⟨value, ?_, ?_⟩
      · simpa using derived
      · simpa using all

/-- Names with commas between them are an expression that lists them. -/
theorem Names.assignment (listed : Names tokens names)
    : ∃ value, Assignment inner true tokens value ∧ parameterNames? value = some names := by
  have single {name : Token} (named : name.kind = .identifier)
      : Comma inner true [name] (.variable (reference name)) :=
    .one (.equality (Call.equality (.primary (.identifier named))))
  have comma {value : SourceExpr} {tokens : List Token} (derived : Comma inner true tokens value)
      : Assignment inner true tokens value :=
    .logic (.one (.one derived))
  cases listed with
  | last named => exact ⟨_, comma (single named), rfl⟩
  | more named separates rest =>
      obtain ⟨value, derived, all⟩ := rest.comma_append (single named) rfl separates
      exact ⟨value, comma derived, all⟩

end

end Lox.Grammar
