import Lox.Proofs.Renaming.Actions

/-! Programs run side by side with what they become.

One level of evaluation ends alike on both machines if the level below does, and so all levels
together do.
-/

namespace Lox

inductive Completion.Turns (rename : Renaming) (standing : Standing)
    : Completion → Completion → Prop
  | normal : Turns rename standing .normal .normal
  | broke : Turns rename standing .broke .broke
  | returned {value value' : Value} (turns : value.Turns rename standing value')
    : Turns rename standing (.returned value) (.returned value')

/-- Runs trees as it runs what they become, wherever the machines are. -/
structure Evaluator.Keeps (rename : Renaming) (parts : Evaluator) : Prop where
  evaluate {ground : Ground} {marks : List Bool} {expr expr' : BoundExpr}
    (stands : ground.At marks) (becomes : expr.Becomes rename marks expr')
    : Together rename ground (parts.evaluate expr) (parts.evaluate expr')
        (Related (Value.Turns rename))
  execute {ground : Ground} {marks : List Bool} {stmt stmt' : BoundStmt}
    (stands : ground.At marks) (becomes : stmt.Becomes rename marks stmt')
    : Together rename ground (parts.execute stmt) (parts.execute stmt')
        (Related (Completion.Turns rename))

/-- Values of several expressions. -/
inductive ValuesTurn (rename : Renaming) (standing : Standing) : List Value → List Value → Prop
  | nil : ValuesTurn rename standing [] []
  | cons {first first' : Value} {rest rest' : List Value}
    (head : first.Turns rename standing first') (tail : ValuesTurn rename standing rest rest')
    : ValuesTurn rename standing (first :: rest) (first' :: rest')

section

variable {rename : Renaming}

/-- Values that turned stay turned when more scopes are marked. -/
theorem ValuesTurn.extend {standing after : Standing} (more : standing.Extends after)
    {values values' : List Value} (turns : ValuesTurn rename standing values values')
    : ValuesTurn rename after values values' := by
  induction turns with
  | nil => exact .nil
  | cons head _ ih => exact .cons (head.extend more) ih

/-- As many values are there on both sides. -/
theorem ValuesTurn.length {standing : Standing} {values values' : List Value}
    (turns : ValuesTurn rename standing values values')
    : values'.length = values.length := by
  induction turns with
  | nil => rfl
  | cons _ _ ih => exact congrArg (· + 1) ih

namespace Evaluator

variable {ground : Ground} {marks : List Bool} {parts : Evaluator}

-----
-- Lists

/-- Expressions in a row run together, by induction on them. -/
theorem together_evaluateAll (keeps : parts.Keeps rename) {exprs exprs' : List BoundExpr}
    (stands : ground.At marks) (becomes : BecomesExprs rename marks exprs exprs')
    : Together rename ground (parts.evaluateAll exprs) (parts.evaluateAll exprs')
        (Related (ValuesTurn rename)) := by
  induction exprs generalizing ground exprs' with
  | nil =>
      obtain rfl := becomes
      exact .pure .nil
  | cons first rest ih =>
      obtain ⟨first', rest', rfl, head, tail⟩ := becomes
      refine (keeps.evaluate stands head).bind fun value value' between more turns => ?_
      refine (ih (stands.extend more) tail).bind fun values values' after further turnsRest => ?_
      exact .pure (.cons (turns.extend further.standing) turnsRest)

/-- Statements in a row run together, by induction on them. -/
theorem together_executeAll (keeps : parts.Keeps rename) {stmts stmts' : List BoundStmt}
    (stands : ground.At marks) (becomes : BecomesStmts rename marks stmts stmts')
    : Together rename ground (parts.executeAll stmts) (parts.executeAll stmts')
        (Related (Completion.Turns rename)) := by
  induction stmts generalizing ground stmts' with
  | nil =>
      obtain rfl := becomes
      exact .pure .normal
  | cons first rest ih =>
      obtain ⟨first', rest', rfl, head, tail⟩ := becomes
      refine (keeps.execute stands head).bind fun completion completion' between more turns => ?_
      cases turns with
      | normal => exact ih (stands.extend more) tail
      | broke => exact .pure .broke
      | returned turns => exact .pure (.returned turns)

/-- Definitions in a row run together under the names that they turn into, by induction on them. -/
theorem together_defineAll {scope : Nat} {mark : Bool} {names names' : List Token}
    {values values' : List Value} (known : ground.standing scope = some (mark :: marks))
    (turnsNames : rename.TurnsTokens mark names names')
    (turnsValues : ValuesTurn rename ground.standing values values')
    : Together rename ground (defineAll scope (names.zip values))
        (defineAll scope (names'.zip values')) (fun _ _ _ => True) := by
  induction turnsNames generalizing ground values values' with
  | nil => exact .pure trivial
  | cons head _ ih =>
      cases turnsValues with
      | nil => exact .pure trivial
      | cons turns turnsRest =>
          refine (together_defineIn known head.lexeme turns).bind fun _ _ between more _ => ?_
          exact ih (more.standing _ _ known) (turnsRest.extend more.standing)

-----
-- Calls

/-- Invoking closures that turn into each other runs together. -/
theorem together_invoke (keeps : parts.Keeps rename) {closure closure' : Closure}
    {arguments arguments' : List Value} (turns : closure.Turns rename ground.standing closure')
    (turnsArguments : ValuesTurn rename ground.standing arguments arguments')
    : Together rename ground (parts.invoke closure arguments) (parts.invoke closure' arguments')
        (Related (Value.Turns rename)) := by
  obtain ⟨marks, known, becomes⟩ := turns.function
  obtain ⟨mark, parameters, body⟩ := becomes.parts
  unfold invoke
  rw [turns.scope, turns.isInitializer]
  refine (together_newScope mark known).bind fun scope scope' between more opened => ?_
  obtain ⟨rfl, knownScope⟩ := opened
  refine (together_defineAll knownScope parameters
    (turnsArguments.extend more.standing)).bind fun _ _ filled further _ => ?_
  refine (together_within scope' (together_executeAll keeps
    (further.standing _ _ knownScope) body)).bind fun completion completion' after last turns => ?_
  split
  · exact together_receiverIn ((more.trans (further.trans last)).standing _ _ known)
  · cases turns with
    | normal | broke => exact .pure (.literal .nil)
    | returned turns => exact .pure turns

/-- Instances of classes that turn into each other are made together. -/
theorem together_construct (keeps : parts.Keeps rename) {lineage lineage' : Lineage}
    {arguments arguments' : List Value} (turns : lineage.Turns rename ground.standing lineage')
    (turnsArguments : ValuesTurn rename ground.standing arguments arguments')
    : Together rename ground (parts.construct lineage arguments)
        (parts.construct lineage' arguments') (Related (Value.Turns rename)) := by
  refine (together_newObject turns).bind fun object object' between more turnsObject => ?_
  have initializers : Option.Rel (Closure.Waits rename between.standing) lineage.initializer?
      lineage'.initializer? :=
    (turns.extend more.standing).methods "init"
  revert initializers
  generalize lineage.initializer? = initializer
  generalize lineage'.initializer? = initializer'
  intro initializers
  cases initializers with
  | none => exact .pure turnsObject
  | some waits =>
      refine (together_bindMethod waits turnsObject).bind fun bound bound' after further turns => ?_
      refine (together_invoke keeps turns
        (turnsArguments.extend (more.trans further).standing)).bind fun _ _ _ last _ => ?_
      exact .pure (turnsObject.extend (further.trans last).standing)

/-- Applying callables that turn into each other runs together. -/
theorem together_apply (keeps : parts.Keeps rename) {callee callee' : Callable}
    {arguments arguments' : List Value} (turns : callee.Turns rename ground.standing callee')
    (turnsArguments : ValuesTurn rename ground.standing arguments arguments')
    : Together rename ground (parts.apply callee arguments) (parts.apply callee' arguments')
        (Related (Value.Turns rename)) := by
  cases turns with
  | closure turns => exact together_invoke keeps turns turnsArguments
  | «class» turns => exact together_construct keeps turns turnsArguments
  | native function =>
      cases function
      exact together_readClock

/-- Calls of values that turn into each other run together, also where they cannot be called. -/
theorem together_call (keeps : parts.Keeps rename) {callee callee' : Value}
    {arguments arguments' : List Value} (paren : Token)
    (turns : callee.Turns rename ground.standing callee')
    (turnsArguments : ValuesTurn rename ground.standing arguments arguments')
    : Together rename ground (parts.call callee arguments paren)
        (parts.call callee' arguments' paren) (Related (Value.Turns rename)) := by
  have callables := turns.callable?
  unfold call
  revert callables
  generalize callee.callable? = callable
  generalize callee'.callable? = callable'
  intro callables
  cases callables with
  | none => exact together_failAt paren _
  | some turnsCallable =>
      simp only [turnsCallable.arity, turnsArguments.length]
      split
      · refine (together_tell _ _).bind fun _ _ between more _ => ?_
        have applied := together_apply keeps (turnsCallable.extend more.standing)
          (turnsArguments.extend more.standing)
        exact together_iff.2 ((together_iff.1 applied).limitNesting fun _ _ faults =>
          faults.limited paren)
      · exact together_failAt paren _

-----
-- Expressions

/-- An expression runs together with what it becomes, by cases on it. -/
theorem together_evaluateStep (keeps : parts.Keeps rename) {expr expr' : BoundExpr}
    (stands : ground.At marks) (becomes : expr.Becomes rename marks expr')
    : Together rename ground (parts.evaluateStep expr) (parts.evaluateStep expr')
        (Related (Value.Turns rename)) := by
  cases expr with
  | literal value =>
      obtain rfl := becomes
      exact .pure (.literal value)
  | grouping inner =>
      obtain ⟨inner', rfl, becomes⟩ := becomes
      exact keeps.evaluate stands becomes
  | unary operator operand =>
      obtain ⟨operand', rfl, becomes⟩ := becomes
      refine (keeps.evaluate stands becomes).bind fun value value' between more turns => ?_
      exact together_ofExcept (applyUnary_turns operator turns)
  | binary left operator right =>
      obtain ⟨left', right', rfl, becomesLeft, becomesRight⟩ := becomes
      refine (keeps.evaluate stands becomesLeft).bind fun value value' between more turns => ?_
      refine (keeps.evaluate (stands.extend more) becomesRight).bind
        fun other other' after further turnsOther => ?_
      exact together_ofExcept
        (applyBinary_turns operator (turns.extend further.standing) turnsOther)
  | logical left operator right =>
      obtain ⟨left', right', rfl, becomesLeft, becomesRight⟩ := becomes
      refine (keeps.evaluate stands becomesLeft).bind fun value value' between more turns => ?_
      have decides : decidesEarly operator value' = decidesEarly operator value := by
        unfold decidesEarly
        rw [turns.isTruthy]
      rw [decides]
      split
      · exact .pure turns
      · exact keeps.evaluate (stands.extend more) becomesRight
  | conditional condition thenCase elseCase =>
      obtain ⟨condition', thenCase', elseCase', rfl, becomes, becomesThen, becomesElse⟩ := becomes
      refine (keeps.evaluate stands becomes).bind fun value value' between more turns => ?_
      rw [turns.isTruthy]
      split
      · exact keeps.evaluate (stands.extend more) becomesThen
      · exact keeps.evaluate (stands.extend more) becomesElse
  | «variable» target =>
      obtain ⟨target', rfl, turns⟩ := becomes
      exact together_readVariable stands turns
  | assign target value =>
      obtain ⟨target', value', rfl, turnsTarget, becomes⟩ := becomes
      refine (keeps.evaluate stands becomes).bind fun value value' between more turns => ?_
      refine (together_writeVariable (stands.extend more) turnsTarget turns).bind
        fun _ _ after further _ => ?_
      exact .pure (turns.extend further.standing)
  | call callee paren arguments =>
      obtain ⟨callee', arguments', rfl, becomesCallee, becomes⟩ := becomes
      refine (keeps.evaluate stands becomesCallee).bind fun value value' between more turns => ?_
      refine (together_evaluateAll keeps (stands.extend more) becomes).bind
        fun values values' after further turnsArguments => ?_
      exact together_call keeps paren (turns.extend further.standing) turnsArguments
  | get object name =>
      obtain ⟨object', rfl, becomes⟩ := becomes
      refine (keeps.evaluate stands becomes).bind fun value value' between more turns => ?_
      exact together_readProperty name turns
  | set object name value =>
      obtain ⟨object', value', rfl, becomesObject, becomes⟩ := becomes
      refine (keeps.evaluate stands becomesObject).bind fun value value' between more turns => ?_
      cases turns with
      | object address turnsLineage =>
          refine (keeps.evaluate (stands.extend more) becomes).bind
            fun value value' after further turns => ?_
          refine (together_setField address name.lexeme turns).bind fun _ _ last added _ => ?_
          exact .pure (turns.extend added.standing)
      | _ => exact together_failAt name _
  | this keyword =>
      obtain ⟨rfl, turns⟩ := becomes
      exact together_readVariable stands turns
  | super keyword method =>
      obtain ⟨rfl, turns⟩ := becomes
      exact together_readSuper method stands turns
  | function function =>
      obtain ⟨function', rfl, becomes⟩ := becomes
      refine together_currentScope.bind fun scope scope' between more same => ?_
      obtain ⟨rfl, rfl⟩ := same
      refine (together_newClosure [] (more.standing _ _ stands) becomes none false).bind
        fun _ _ _ _ turns => ?_
      exact .pure (.closure turns)

-----
-- Loops

/-- A loop runs together with what it becomes, by induction on the rounds that are left. -/
theorem together_repeatWhile {test test' : Run Value} {body body' : Run Completion}
    (tested
      : ∀ {ground : Ground},
          ground.At marks → Together rename ground test test' (Related (Value.Turns rename)))
    (repeated
      : ∀ {ground : Ground},
          ground.At marks → Together rename ground body body' (Related (Completion.Turns rename)))
    (rounds : Nat) (stands : ground.At marks)
    : Together rename ground (repeatWhile test body rounds) (repeatWhile test' body' rounds)
        (Related (Completion.Turns rename)) := by
  induction rounds generalizing ground with
  | zero => exact .throw (.same _)
  | succ rounds ih =>
      refine (tested stands).bind fun value value' between more turns => ?_
      have stands := stands.extend more
      rw [turns.isTruthy]
      split
      · refine (repeated stands).bind fun completion completion' after further turns => ?_
        cases turns with
        | normal => exact ih (stands.extend further)
        | broke => exact .pure .normal
        | returned turns => exact .pure (.returned turns)
      · exact .pure .normal

-----
-- Classes

/-- Reading the superclass runs together. -/
theorem together_readSuperclass {target target' : Reference (Option Nat)}
    (stands : ground.At marks) (turnsTarget : rename.TurnsReference marks target target')
    : Together rename ground (readSuperclass target) (readSuperclass target')
        (Related (Lineage.Turns rename)) := by
  refine (together_readVariable stands turnsTarget).bind fun value value' between more turns => ?_
  have fails {α β : Type} {post : α → β → Ground → Prop}
      : Together rename between (Run.failAt target.name .superclassNotClass)
          (Run.failAt target'.name .superclassNotClass) post := by
    obtain ⟨turnsName⟩ := turnsTarget
    exact together_failAt_turns turnsName (.inr rfl)
  cases turns with
  | «class» turns => exact .pure turns
  | _ => exact fails

/-- Methods of a subclass stand in one more scope, which is that of `super`. -/
theorem together_methodScope {superclass superclass' : Option Lineage} (stands : ground.At marks)
    (turns : Option.Rel (Lineage.Turns rename ground.standing) superclass superclass')
    : Together rename ground (methodScope superclass) (methodScope superclass')
        (fun scope scope' after =>
          scope' = scope
          ∧ after.standing scope
              = some (if superclass.isSome then false :: marks else marks)) := by
  refine together_currentScope.bind fun scope scope' between more same => ?_
  obtain ⟨rfl, rfl⟩ := same
  have known := more.standing _ _ stands
  cases turns with
  | none => exact .pure ⟨rfl, known⟩
  | some turns =>
      refine (together_newScope false known).bind fun scope scope' opened further here => ?_
      obtain ⟨rfl, known⟩ := here
      refine (together_defineIn known (.unmarked "super")
        (.class (turns.extend (more.trans further).standing))).bind fun _ _ after last _ => ?_
      exact .pure ⟨rfl, last.standing _ _ known⟩

/-- The methods of a class, before the class itself is made. -/
def MethodsTurn (rename : Renaming) (standing : Standing) (table table' : Table Closure) : Prop :=
  ∀ name, Option.Rel (Closure.Waits rename standing) (table.get? name) (table'.get? name)

/-- Methods are created together, by induction on them. -/
theorem together_createMethods {scope : Nat} {table table' : Table Closure}
    {methods methods' : List (Method (Option Nat))} (known : ground.standing scope = some marks)
    (turns : MethodsTurn rename ground.standing table table')
    (becomes : BecomesMethods rename (false :: marks) methods methods')
    : Together rename ground (createMethods scope table methods)
        (createMethods scope table' methods') (Related (MethodsTurn rename)) := by
  induction methods generalizing ground table table' methods' with
  | nil =>
      obtain rfl := becomes
      exact .pure turns
  | cons method rest ih =>
      obtain ⟨name, function⟩ := method
      obtain ⟨function', rest', rfl, becomes, becomesRest⟩ := becomes
      refine (together_newClosure [false] known becomes (some name.lexeme)
        (name.lexeme = "init")).bind fun closure closure' between more waits => ?_
      refine ih (more.standing _ _ known) (fun other => ?_) becomesRest
      change Option.Rel _ ((table.insert name.lexeme closure).get? other)
        ((table'.insert name.lexeme closure').get? other)
      rw [Table.get?_insert, Table.get?_insert]
      split
      · exact .some waits
      · exact optionRel_imp (turns other) fun _ _ waits => waits.extend more.standing

/-- A class is created together with what it becomes. -/
theorem together_createClass (name : Token) {superclass superclass' : Option Lineage}
    {methods methods' : List (Method (Option Nat))} (stands : ground.At marks)
    (turns : Option.Rel (Lineage.Turns rename ground.standing) superclass superclass')
    (becomes
      : BecomesMethods rename (false :: if superclass.isSome then false :: marks else marks) methods
          methods')
    : Together rename ground (createClass name superclass methods)
        (createClass name superclass' methods') (Related (Lineage.Turns rename)) := by
  refine (together_methodScope stands turns).bind fun scope scope' between more opened => ?_
  obtain ⟨rfl, known⟩ := opened
  refine (together_createMethods known (fun _ => .none) becomes).bind
    fun table table' created further waiting => ?_
  refine together_freshId.bind fun id id' after last same => .pure ?_
  have waiting (name : String) := optionRel_imp (waiting name) fun _ _ waits =>
    waits.extend last.standing
  cases turns with
  | none => exact .of_body ⟨same, rfl⟩ waiting
  | some turns =>
      exact (turns.extend (more.trans (further.trans last)).standing).extend_methods ⟨same, rfl⟩
        waiting

/-- A superclass clause is evaluated together, whether it is there or not. -/
theorem together_findSuperclass {target target' : Option (Reference (Option Nat))}
    (stands : ground.At marks)
    (turns : Option.Rel (rename.TurnsReference marks) target target')
    : Together rename ground (findSuperclass target) (findSuperclass target')
        (fun superclass superclass' after =>
          Option.Rel (Lineage.Turns rename after.standing) superclass superclass'
          ∧ superclass.isSome = target.isSome) := by
  cases turns with
  | none => exact .pure ⟨.none, rfl⟩
  | some turns =>
      exact (together_readSuperclass stands turns).map fun _ _ _ _ turns => ⟨.some turns, rfl⟩

/-- The name stands for no class at first, but it has a value from then on. -/
theorem together_declareClass {name : Token} {superclass superclass' : Option (Reference (Option Nat))}
    {methods methods' : List (Method (Option Nat))} (stands : ground.At marks)
    (turnsName : rename.TurnsToken (marks.headD false) name name)
    (turns : Option.Rel (rename.TurnsReference marks) superclass superclass')
    (becomes
      : BecomesMethods rename (false :: if superclass.isSome then false :: marks else marks) methods
          methods')
    : Together rename ground (declareClass name superclass methods)
        (declareClass name superclass' methods') (fun _ _ _ => True) := by
  refine (together_findSuperclass stands turns).bind fun found found' between more turns => ?_
  obtain ⟨turnsFound, same⟩ := turns
  rw [← same] at becomes
  have stands := stands.extend more
  refine (together_define stands turnsName (.literal .nil)).bind fun _ _ named further defined => ?_
  have turnsFound := optionRel_imp turnsFound fun _ _ turns => turns.extend further.standing
  have stands := stands.extend further
  refine (together_createClass name stands turnsFound becomes).bind
    fun lineage lineage' created grown turnsLineage => ?_
  refine together_currentScope.bind fun scope scope' last further' same => ?_
  obtain ⟨rfl, rfl⟩ := same
  have here : created.current = between.current := grown.current.trans further.current
  have defined := further'.defined _ _ (grown.defined _ _ defined)
  rw [← here] at defined
  have known := further'.standing _ _ (stands.extend grown)
  refine (together_assignFrom_defined known turnsName defined
    (.class (turnsLineage.extend further'.standing))).bind fun _ _ _ _ _ => ?_
  exact together_tell _ _

-----
-- Statements

/-- An expression that may be missing runs together with what it becomes. -/
theorem together_evaluateOptional (keeps : parts.Keeps rename) {value value' : Option BoundExpr}
    (stands : ground.At marks) (becomes : BecomesOptional rename marks value value')
    : Together rename ground (parts.evaluateOptional value) (parts.evaluateOptional value')
        (Related (Value.Turns rename)) := by
  cases value with
  | none =>
      obtain rfl := becomes
      exact .pure (.literal .nil)
  | some value =>
      obtain ⟨value', rfl, becomes⟩ := becomes
      exact keeps.evaluate stands becomes

/-- A statement runs together with what it becomes, by cases on it. -/
theorem together_executeStep (rounds : Nat) (keeps : parts.Keeps rename) {stmt stmt' : BoundStmt}
    (stands : ground.At marks) (becomes : stmt.Becomes rename marks stmt')
    : Together rename ground (executeStep rounds parts stmt) (executeStep rounds parts stmt')
        (Related (Completion.Turns rename)) := by
  cases stmt with
  | expression value =>
      obtain ⟨value', rfl, becomes⟩ := becomes
      exact (keeps.evaluate stands becomes).bind fun _ _ _ _ _ => .pure .normal
  | print value =>
      obtain ⟨value', rfl, becomes⟩ := becomes
      refine (keeps.evaluate stands becomes).bind fun value value' between more turns => ?_
      rw [turns.text]
      exact (together_print value.text).bind fun _ _ _ _ _ => .pure .normal
  | printLine value =>
      obtain ⟨value', rfl, becomes⟩ := becomes
      cases value with
      | none =>
          obtain rfl := becomes
          exact (together_print "\n").bind fun _ _ _ _ _ => .pure .normal
      | some value =>
          obtain ⟨value', rfl, becomes⟩ := becomes
          refine (keeps.evaluate stands becomes).bind fun value value' between more turns => ?_
          rw [turns.text]
          exact (together_print (value.text ++ "\n")).bind fun _ _ _ _ _ => .pure .normal
  | «variable» name initial =>
      obtain ⟨name', initial', rfl, turnsName, becomes⟩ := becomes
      refine (together_evaluateOptional keeps stands becomes).bind
        fun value value' between more turns => ?_
      refine (together_define (stands.extend more) turnsName turns).bind fun _ _ _ _ _ => ?_
      exact (together_tell _ _).bind fun _ _ _ _ _ => .pure .normal
  | block statements =>
      obtain ⟨mark, statements', rfl, becomes⟩ := becomes
      refine together_currentScope.bind fun scope scope' between more same => ?_
      obtain ⟨rfl, rfl⟩ := same
      refine (together_newScope mark (more.standing _ _ stands)).bind
        fun scope scope' after further opened => ?_
      obtain ⟨rfl, known⟩ := opened
      exact together_within scope' (together_executeAll keeps known becomes)
  | branch condition thenBranch elseBranch =>
      obtain ⟨condition', thenBranch', elseBranch', rfl, becomes, becomesThen, becomesElse⟩ :=
        becomes
      refine (keeps.evaluate stands becomes).bind fun value value' between more turns => ?_
      refine (together_tell _ _).bind fun _ _ after further _ => ?_
      have stands := (stands.extend more).extend further
      rw [turns.isTruthy]
      split
      · exact keeps.execute stands becomesThen
      · cases elseBranch with
        | none =>
            obtain rfl := becomesElse
            exact .pure .normal
        | some elseBranch =>
            obtain ⟨elseBranch', rfl, becomes⟩ := becomesElse
            exact keeps.execute stands becomes
  | loop condition body =>
      obtain ⟨condition', body', rfl, becomesCondition, becomes⟩ := becomes
      exact together_repeatWhile (fun stands => keeps.evaluate stands becomesCondition)
        (fun stands => keeps.execute stands becomes) rounds stands
  | breakLoop keyword =>
      obtain rfl := becomes
      exact .pure .broke
  | returnValue keyword value =>
      obtain ⟨value', rfl, becomes⟩ := becomes
      exact (together_evaluateOptional keeps stands becomes).bind
        fun _ _ _ _ turns => .pure (.returned turns)
  | function name function =>
      obtain ⟨function', rfl, turnsName, becomes⟩ := becomes
      refine together_currentScope.bind fun scope scope' between more same => ?_
      obtain ⟨rfl, rfl⟩ := same
      refine (together_newClosure [] (more.standing _ _ stands) becomes
        (some name.lexeme) false).bind fun closure closure' after further turns => ?_
      refine (together_define (stands.extend (more.trans further)) turnsName
        (.closure turns)).bind fun _ _ _ _ _ => ?_
      exact (together_tell _ _).bind fun _ _ _ _ _ => .pure .normal
  | «class» name superclass methods =>
      have declared {superclass superclass' : Option (Reference (Option Nat))}
          {methods' : List (Method (Option Nat))}
          (ends
            : Together rename ground (declareClass name superclass methods)
                (declareClass name superclass' methods') (fun _ _ _ => True))
          : Together rename ground
              (executeStep rounds parts (.class name superclass methods))
              (executeStep rounds parts (.class name superclass' methods'))
              (Related (Completion.Turns rename)) :=
        ends.bind fun _ _ _ _ _ => .pure .normal
      cases superclass with
      | none =>
          obtain ⟨methods', rfl, turnsName, becomes⟩ := becomes
          exact declared (together_declareClass stands turnsName .none becomes)
      | some superclass =>
          obtain ⟨superclass', methods', rfl, turnsName, turns, becomes⟩ := becomes
          exact declared (together_declareClass stands turnsName (.some turns) becomes)

-----
-- All levels

/-- For every limit on open calls the parts run together, by induction on it. -/
theorem keeps_ofNesting (rename : Renaming) (rounds nesting : Nat)
    : (ofNesting rounds nesting).Keeps rename := by
  induction nesting with
  | zero => exact ⟨fun _ _ => .throw (.same _), fun _ _ => .throw (.same _)⟩
  | succ nesting ih => exact ⟨together_evaluateStep ih, together_executeStep rounds ih⟩

/-- A program runs together with what it becomes. -/
theorem together_executeProgram (keeps : parts.Keeps rename) {stmts stmts' : List BoundStmt}
    (stands : ground.At marks) (becomes : BecomesStmts rename marks stmts stmts')
    : Together rename ground (parts.executeProgram stmts) (parts.executeProgram stmts')
        (fun _ _ _ => True) := by
  induction stmts generalizing ground stmts' with
  | nil =>
      obtain rfl := becomes
      exact .pure trivial
  | cons first rest ih =>
      obtain ⟨first', rest', rfl, head, tail⟩ := becomes
      exact (keeps.execute stands head).bind fun _ _ _ more _ => ih (stands.extend more) tail

end Evaluator

end

end Lox
