import Lox.Proofs.Grammar.Rounds

/-! Loops of the grammar without a bound on their rounds.

The grammar bounds every loop by the tokens that are ahead when the loop begins. Here each loop is
taken apart into rounds, and a run of it is a chain of rounds that ends by itself. What bounds the
chain is that every round which goes on takes a token.
-/

namespace Lox.Grammar

-----
-- Chains of rounds

section

variable {σ ρ : Type}

/-- A round leaves a state to go on from or yields what the loop stands for. -/
abbrev Round (σ ρ : Type) := σ → Rule (σ ⊕ ρ)

/-- A loop that nothing bounds runs until a round yields its result or unwinds. -/
inductive Runs (round : Round σ ρ) : σ → Cursor → EStateM.Result Unwinding Cursor ρ → Prop
  | finished {state before result after} (run : round state before = .ok (.inr result) after)
    : Runs round state before (.ok result after)
  | unwound {state before unwinding after} (run : round state before = .error unwinding after)
    : Runs round state before (.error unwinding after)
  | again {state state' before between outcome}
    (run : round state before = .ok (.inl state') between)
    (takes : between.ahead.length < before.ahead.length)
    (rest : Runs round state' between outcome)
    : Runs round state before outcome

/-- A bounded loop unfolds into a round and the loop with a bound that is shorter by one. -/
def Unfolds (round : Round σ ρ) (bounded : σ → List Token → Rule ρ) : Prop :=
  ∀ state token bound,
    bounded state (token :: bound)
      = do
          match ← round state with
          | .inl state => bounded state bound
          | .inr result => return result

/-- Wherever a round goes on it has taken a token. -/
def Takes (round : Round σ ρ) : Prop :=
  ∀ state {before before' : Cursor},
    Shared.identity.pairing.Alike (round state) (round state) before before'
      fun tokens result _ => result.isLeft = true → tokens ≠ []

/-- With a round for each token ahead a bounded loop does not end for lack of rounds. -/
theorem Runs.of_bounded {round : Round σ ρ} {bounded : σ → List Token → Rule ρ}
    (unfolds : Unfolds round bounded) (takes : Takes round) {bound : List Token} {state : σ}
    {before : Cursor} (ended : Ended before.ahead) (enough : before.ahead.length ≤ bound.length)
    : Runs round state before (bounded state bound before) := by
  induction bound generalizing state before with
  | nil => exact absurd (List.length_eq_zero_iff.1 (Nat.le_zero.1 enough)) ended.ne_nil
  | cons token bound ih =>
      rw [unfolds]
      cases run : round state before with
      | error unwinding after =>
          rw [bind_of_error run]
          exact .unwound run
      | ok result between =>
          rw [bind_of_ok run]
          cases result with
          | inr result => exact .finished run
          | inl state' =>
              obtain ⟨tokens, _, _, step, some⟩ :=
                (takes state).of_ok (Shared.identity_refl ended) run
              obtain ⟨fewer, -⟩ := step.strictly (some rfl)
              simp only [List.length_cons] at enough
              exact .again run fewer (ih step.related.holds (by omega))

end

-----
-- Rounds

/-- An operator of a level and the operand behind it. -/
def chainRound (operator? : Rule (Option Token)) (operand : Rule SourceExpr)
    (combine : SourceExpr → Token → SourceExpr → SourceExpr)
    : Round SourceExpr SourceExpr :=
  fun left => do
    match ← operator? with
    | none => return .inr left
    | some operator =>
        let right ← operand
        return .inl (combine left operator right)

/-- A call or a property read behind what has been read. -/
def callRound (rules : Rules) : Round SourceExpr SourceExpr :=
  fun callee => do
    if ← accept .leftParen then
      let call ← callEnd rules callee
      return .inl call
    else if ← accept .dot then
      let name ← expect .identifier .propertyName
      return .inl (.get callee name)
    else
      return .inr callee

/-- The operand is negated by the operators in front of it, the last of which comes first. -/
def negated (operators : List Token) (operand : SourceExpr) : SourceExpr :=
  operators.foldl (fun value operator => .unary operator value) operand

def unaryRound (rules : Rules) : Round (List Token) SourceExpr :=
  fun operators => do
    match ← acceptAny? [.bang, .minus] with
    | none =>
        let operand ← call rules
        return .inr (negated operators operand)
    | some operator => return .inl (operator :: operators)

/-- The value is assigned to the targets in front of it, the last of which comes first. -/
def assigned (targets : List (SourceExpr × Token)) (value : SourceExpr) : Rule SourceExpr :=
  targets.foldlM (fun value target => assignmentTo target.1 target.2 value) value

def assignmentRound (rules : Rules) : Round (List (SourceExpr × Token)) SourceExpr :=
  fun targets => do
    let target ← logicOr rules
    match ← accept? .equal with
    | none =>
        let value ← assigned targets target
        return .inr value
    | some equals => return .inl ((target, equals) :: targets)

/-- Another item of a list with commas between the items. -/
def itemRound {α : Type} (full : Problem) (item : Rule α) : Round (List α) (List α) :=
  fun earlier => do
    checkRoom earlier.length full
    let last ← item
    if ← accept .comma then return .inl (earlier ++ [last]) else return .inr (earlier ++ [last])

/-- Another declaration or method, up to where there are no more. -/
def memberRound {α : Type} (stop : Cursor → Bool) (member : Rule (List α))
    : Round (List α) (List α) :=
  fun earlier => do
    if stop (← get) then
      return .inr earlier
    else
      let last ← member
      return .inl (earlier ++ last)

-----
-- Unfolding

section

variable (rules : Rules)

/-- A chain of operands unfolds into rounds, an operator and an operand each. -/
theorem chain_unfolds (operator? : Rule (Option Token)) (operand : Rule SourceExpr)
    (combine : SourceExpr → Token → SourceExpr → SourceExpr)
    : Unfolds (chainRound operator? operand combine) (chainFrom operator? operand combine) := by
  intro left token bound
  simp only [chainFrom, chainRound, bind_assoc]
  congr 1
  funext operator
  cases operator <;> simp

/-- Calls and property reads unfold into rounds. -/
theorem call_unfolds : Unfolds (callRound rules) (callFrom rules) := by
  intro callee token bound
  simp only [callFrom, callRound, bind_assoc]
  congr 1
  funext called
  cases called
  · simp only [Bool.false_eq_true, if_false, bind_assoc]
    congr 1
    funext dotted
    cases dotted <;> simp
  · simp

/-- Operators in front of an operand unfold into rounds. -/
theorem unary_unfolds
    : Unfolds (unaryRound rules)
        (fun operators bound => negated operators <$> unaryFrom rules bound) := by
  intro operators token bound
  simp only [unaryFrom, unaryRound, bind_assoc, map_bind]
  congr 1
  funext operator
  cases operator with
  | none => simp
  | some operator =>
      simp only [pure_bind, map_eq_pure_bind, bind_assoc]
      rfl

/-- Assignments in a row unfold into rounds, a target each. -/
theorem assignment_unfolds
    : Unfolds (assignmentRound rules)
        (fun targets bound => assignmentFrom rules bound >>= assigned targets) := by
  intro targets token bound
  simp only [assignmentFrom, assignmentRound, bind_assoc]
  congr 1
  funext target
  congr 1
  funext equals
  cases equals with
  | none => simp
  | some equals =>
      simp only [bind_assoc, pure_bind]
      rfl

/-- Arguments unfold into rounds, an argument each. -/
theorem arguments_unfolds
    : Unfolds (itemRound .tooManyArguments rules.expression)
        (fun earlier bound => (earlier ++ ·) <$> argumentsFrom rules earlier.length bound) := by
  intro earlier token bound
  simp only [argumentsFrom, itemRound, bind_assoc, map_bind]
  congr 1
  funext _
  congr 1
  funext argument
  congr 1
  funext separated
  cases separated <;> simp

/-- Parameters unfold into rounds, a name each. -/
theorem parameters_unfolds
    : Unfolds (itemRound .tooManyParameters (expect .identifier .parameterName))
        (fun earlier bound => (earlier ++ ·) <$> parametersFrom earlier.length bound) := by
  intro earlier token bound
  simp only [parametersFrom, itemRound, bind_assoc, map_bind]
  congr 1
  funext _
  congr 1
  funext argument
  congr 1
  funext separated
  cases separated <;> simp

/-- A method as the only member of a list. -/
def methodMember (rules : Rules) : Rule (List (Method Unit)) := do
  let (name, function) ← namedFunction rules .method
  return [.mk name function]

/-- Methods unfold into rounds, a method each. -/
theorem methods_unfolds
    : Unfolds (memberRound Cursor.atBlockEnd (methodMember rules))
        (fun earlier bound => (earlier ++ ·) <$> methodsFrom rules bound) := by
  intro earlier token bound
  simp only [methodsFrom, memberRound, methodMember, bind_assoc, map_bind]
  congr 1
  funext cursor
  split <;> simp

/-- Declarations unfold into rounds, a declaration each. -/
theorem declarations_unfolds (stop : Cursor → Bool)
    : Unfolds (memberRound stop (Option.toList <$> rules.declaration))
        (fun earlier bound => (earlier ++ ·) <$> declarationsUntil stop rules.declaration bound) := by
  intro earlier token bound
  simp only [declarationsUntil, memberRound, bind_assoc, map_bind]
  congr 1
  funext cursor
  split <;> simp

end

-----
-- Progress

section

variable {rules : Rules}

/-- Whatever the rule yields, it has taken a token. -/
abbrev Reading {α : Type} (rule : Rule α) : Prop :=
  ∀ {before before' : Cursor},
    Shared.identity.pairing.Alike rule rule before before' fun tokens _ _ => tokens ≠ []

/-- What is read as an operand reads a token at least. -/
theorem Reading.of_operand {rule : Rule SourceExpr}
    (alike
      : ∀ {limit} {before before' : Cursor},
          before.ahead.length ≤ limit + 1
          → Shared.identity.pairing.Alike rule rule before before' TakesOperand)
    : Reading rule :=
  fun {before _} =>
    (alike (Nat.le_succ before.ahead.length)).weaken fun _ _ _ read => read.starts.ne_nil

/-- A token that has to be there is read. -/
theorem Reading.expect {kind : TokenKind} (item : Expected)
    (inside : kind ≠ .endOfInput ∧ kind ≠ .semicolon)
    : Reading (expect kind item) :=
  (Pairing.alike_expect kind item (Pairing.crosses inside)).weaken fun tokens token _ taken => by
    simp [taken.1]

/-- Every round of a chain takes a token at least. -/
theorem chain_takes {operator? : Rule (Option Token)} {operand : Rule SourceExpr}
    {combine : SourceExpr → Token → SourceExpr → SourceExpr}
    (operators
      : ∀ {before before' : Cursor},
          Shared.identity.pairing.Alike operator? operator? before before'
            fun tokens operator _ => tokens = operator.toList)
    (operands : Reading operand)
    : Takes (chainRound operator? operand combine) := by
  intro left before before'
  refine operators.bind fun operator _ taken => ?_
  cases operator with
  | none => exact .pure_of nofun
  | some operator => exact operands.bind fun right _ _ => .pure_of (by simp [taken])

/-- Every round of a call takes a token at least. -/
theorem call_takes (whole : ∀ limit, Shared.identity.pairing.Whole limit rules rules)
    : Takes (callRound rules) := by
  intro callee before before'
  refine (Pairing.alike_accept .leftParen (Pairing.crosses (by decide))).bind
    fun called _ opens => ?_
  cases called with
  | true =>
      obtain ⟨paren, rfl, -⟩ := opens
      refine (Pairing.alike_callEnd (whole _).parts callee (Nat.le_refl _)).bind
        fun call _ _ => .pure_of (by simp)
  | false =>
      refine (Pairing.alike_accept .dot (Pairing.crosses (by decide))).bind fun dotted _ dot => ?_
      cases dotted with
      | true =>
          refine (Reading.expect .propertyName (by decide)).bind fun name _ _ => ?_
          exact .pure_of (by simp [*])
      | false => exact .pure_of nofun

/-- Every round of a unary expression takes a token at least. -/
theorem unary_takes (whole : ∀ limit, Shared.identity.pairing.Whole limit rules rules)
    : Takes (unaryRound rules) := by
  intro operators before before'
  refine (Pairing.alike_operator? [.bang, .minus] (by decide)).bind fun operator _ taken => ?_
  cases operator with
  | none =>
      exact (Pairing.alike_call (whole _).parts (Nat.le_succ _)).bind fun _ _ _ => .pure_of nofun
  | some operator => exact .pure_of (by simp [taken])

/-- Assigning to the targets found so far is alike on both sides, whether each can be assigned to or
not. -/
theorem alike_assigned (targets : List (SourceExpr × Token)) (value : SourceExpr)
    {before before' : Cursor}
    : Shared.identity.pairing.Alike (assigned targets value) (assigned targets value) before before'
        fun _ _ _ => True := by
  induction targets generalizing value before before' with
  | nil => exact .pure_of trivial
  | cons target targets ih =>
      exact (Pairing.alike_assignmentTo target.1 target.2 value).bind fun value _ _ =>
        (ih value).weaken fun _ _ _ _ => trivial

/-- Every round of an assignment takes a token at least. -/
theorem assignment_takes (whole : ∀ limit, Shared.identity.pairing.Whole limit rules rules)
    : Takes (assignmentRound rules) := by
  intro targets before before'
  refine (Pairing.alike_logicOr (whole _).parts (Nat.le_succ _)).bind fun target _ read => ?_
  refine (Pairing.alike_accept? .equal (Pairing.crosses (by decide))).bind fun equals _ taken => ?_
  cases equals with
  | none => exact (alike_assigned targets target).bind fun _ _ _ => .pure_of nofun
  | some equals => exact .pure_of (by simp [read.starts.ne_nil])

/-- Every round of a list takes a token at least. -/
theorem item_takes {α : Type} {full : Problem} {item : Rule α} (known : full ≠ .tooMuchNesting)
    (reads : Reading item)
    : Takes (itemRound full item) := by
  intro earlier before before'
  refine (Pairing.alike_checkRoom _ full known).bind fun _ _ _ => ?_
  refine reads.bind fun last _ some => ?_
  refine (Pairing.alike_accept .comma (Pairing.crosses (by decide))).bind fun separated _ _ => ?_
  cases separated with
  | true => exact .pure_of (by simp [some])
  | false => exact .pure_of nofun

/-- Every round of members takes a token at least, unless the stop is reached. -/
theorem member_takes {α : Type} {stop : Cursor → Bool} {member : Rule (List α)}
    (agree : ∀ {before before' : Cursor}, before'.next = before.next → stop before' = stop before)
    (reads
      : ∀ {before before' : Cursor},
          stop before = false
          → Shared.identity.pairing.Alike member member before before'
              fun tokens _ _ => tokens ≠ [])
    : Takes (memberRound stop member) := by
  intro earlier before before'
  refine .of_related fun related => .get ?_
  rw [agree (Shared.identity.pairing.next related)]
  cases stops : stop before with
  | true => exact .pure_of nofun
  | false =>
      simp only [Bool.false_eq_true, if_false]
      exact (reads stops).bind fun last _ some => .pure_of (by simp [some])

-----
-- The loops of the grammar

/-- The rounds and the bounded form of everything that the grammar repeats. -/
inductive Repetition (rules : Rules)
    : {σ ρ : Type} → Round σ ρ → (σ → List Token → Rule ρ) → Prop
  | factors
    : Repetition rules (chainRound (acceptAny? [.slash, .star]) (unary rules) .binary)
        (chainFrom (acceptAny? [.slash, .star]) (unary rules) .binary)
  | terms
    : Repetition rules (chainRound (acceptAny? [.minus, .plus]) (factor rules) .binary)
        (chainFrom (acceptAny? [.minus, .plus]) (factor rules) .binary)
  | comparisons
    : Repetition rules
        (chainRound (acceptAny? [.greater, .greaterEqual, .less, .lessEqual]) (term rules) .binary)
        (chainFrom (acceptAny? [.greater, .greaterEqual, .less, .lessEqual]) (term rules) .binary)
  | equalities
    : Repetition rules
        (chainRound (acceptAny? [.bangEqual, .equalEqual]) (comparison rules) .binary)
        (chainFrom (acceptAny? [.bangEqual, .equalEqual]) (comparison rules) .binary)
  | commas
    : Repetition rules (chainRound commaOperator? (conditional rules) .binary)
        (chainFrom commaOperator? (conditional rules) .binary)
  | conjunctions
    : Repetition rules (chainRound (accept? .andWord) (comma rules) .logical)
        (chainFrom (accept? .andWord) (comma rules) .logical)
  | disjunctions
    : Repetition rules (chainRound (accept? .orWord) (logicAnd rules) .logical)
        (chainFrom (accept? .orWord) (logicAnd rules) .logical)
  | calls : Repetition rules (callRound rules) (callFrom rules)
  | negations
    : Repetition rules (unaryRound rules)
        (fun operators bound => negated operators <$> unaryFrom rules bound)
  | assignments
    : Repetition rules (assignmentRound rules)
        (fun targets bound => assignmentFrom rules bound >>= assigned targets)
  | arguments
    : Repetition rules (itemRound .tooManyArguments rules.expression)
        (fun earlier bound => (earlier ++ ·) <$> argumentsFrom rules earlier.length bound)
  | parameters
    : Repetition rules (itemRound .tooManyParameters (expect .identifier .parameterName))
        (fun earlier bound => (earlier ++ ·) <$> parametersFrom earlier.length bound)
  | methods
    : Repetition rules (memberRound Cursor.atBlockEnd (methodMember rules))
        (fun earlier bound => (earlier ++ ·) <$> methodsFrom rules bound)
  | declarations
    : Repetition rules (memberRound Cursor.atEnd (Option.toList <$> rules.declaration))
        (fun earlier bound =>
          (earlier ++ ·) <$> declarationsUntil Cursor.atEnd rules.declaration bound)
  | blockDeclarations
    : Repetition rules (memberRound Cursor.atBlockEnd (Option.toList <$> rules.declaration))
        (fun earlier bound =>
          (earlier ++ ·) <$> declarationsUntil Cursor.atBlockEnd rules.declaration bound)

namespace Repetition

variable {σ ρ : Type} {round : Round σ ρ} {bounded : σ → List Token → Rule ρ}

/-- Each of the parser's loops unfolds into its rounds, by cases on which it is. -/
theorem unfolds (repetition : Repetition rules round bounded)
    : Unfolds round bounded := by
  cases repetition with
  | factors | terms | comparisons | equalities | commas | conjunctions | disjunctions =>
      exact chain_unfolds _ _ _
  | calls => exact call_unfolds rules
  | negations => exact unary_unfolds rules
  | assignments => exact assignment_unfolds rules
  | arguments => exact arguments_unfolds rules
  | parameters => exact parameters_unfolds
  | methods => exact methods_unfolds rules
  | declarations | blockDeclarations => exact declarations_unfolds rules _

/-- Each of the parser's loops takes a token at least in every round, by cases on which it is. -/
theorem takes (whole : ∀ limit, Shared.identity.pairing.Whole limit rules rules)
    (repetition : Repetition rules round bounded)
    : Takes round := by
  have parts (limit : Nat) : Shared.identity.pairing.Parts limit rules rules := (whole limit).parts
  have declaration {before before' : Cursor} (goesOn : before.atEnd = false)
      : Shared.identity.pairing.Alike (Option.toList <$> rules.declaration)
          (Option.toList <$> rules.declaration) before before' fun tokens _ _ => tokens ≠ [] :=
    ((whole _).declaration (Nat.lt_succ_self _)).map _ fun _ _ _ declares =>
      declares.progress goesOn
  cases repetition with
  | factors =>
      exact chain_takes (Pairing.alike_operator? _ (by decide))
        (Reading.of_operand (Pairing.alike_unary (parts _)))
  | terms =>
      exact chain_takes (Pairing.alike_operator? _ (by decide))
        (Reading.of_operand (Pairing.alike_factor (parts _)))
  | comparisons =>
      exact chain_takes (Pairing.alike_operator? _ (by decide))
        (Reading.of_operand (Pairing.alike_term (parts _)))
  | equalities =>
      exact chain_takes (Pairing.alike_operator? _ (by decide))
        (Reading.of_operand (Pairing.alike_comparison (parts _)))
  | commas =>
      exact chain_takes Pairing.alike_commaOperator?
        (Reading.of_operand (Pairing.alike_conditional (parts _)))
  | conjunctions =>
      exact chain_takes (Pairing.alike_operator? [.andWord] (by decide))
        (Reading.of_operand (Pairing.alike_comma (parts _)))
  | disjunctions =>
      exact chain_takes (Pairing.alike_operator? [.orWord] (by decide))
        (Reading.of_operand (Pairing.alike_logicAnd (parts _)))
  | calls => exact call_takes whole
  | negations => exact unary_takes whole
  | assignments => exact assignment_takes whole
  | arguments =>
      exact item_takes nofun fun {before _} =>
        ((whole before.ahead.length).expression (Nat.le_refl _)).weaken fun _ _ _ read =>
          read.starts.ne_nil
  | parameters => exact item_takes nofun (Reading.expect .parameterName (by decide))
  | methods =>
      refine member_takes Pairing.atBlockEnd_eq fun _ => ?_
      exact (Pairing.alike_namedFunction (parts _) .method (Nat.le_refl _)).bind
        fun _ _ some => .pure_of (by simpa using some)
  | declarations => exact member_takes atEnd_eq declaration
  | blockDeclarations =>
      refine member_takes Pairing.atBlockEnd_eq fun stops => declaration ?_
      simp only [Cursor.atBlockEnd, Bool.or_eq_false_iff] at stops
      exact stops.1

/-- Every loop of the grammar ends by itself before its bound does. -/
theorem runs (whole : ∀ limit, Shared.identity.pairing.Whole limit rules rules)
    (repetition : Repetition rules round bounded) (state : σ) {before : Cursor}
    (ended : Ended before.ahead)
    : Runs round state before (bounded state before.ahead before) :=
  .of_bounded repetition.unfolds (repetition.takes whole) ended (Nat.le_refl _)

end Repetition

end

end Lox.Grammar
