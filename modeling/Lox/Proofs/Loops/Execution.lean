import Lox.Proofs.Loops.Actions

/-! Trees run side by side with what they are without a hollow scope.

One level of evaluation ends alike on both machines if the level below does, and so all levels
together do.
-/

namespace Lox

/-- Runs trees as it runs what they are without the hollow scope, wherever the machines are. -/
structure Evaluator.Omits (parts : Evaluator) : Prop where
  evaluate {footing : Footing} {gap : Gap} {expr expr' : BoundExpr} (stands : footing.At gap)
    (omits : expr.Omits gap expr')
    : omission.Together footing (parts.evaluate expr) (parts.evaluate expr') (LaidOut Value.Like)
  execute {footing : Footing} {gap : Gap} {stmt stmt' : BoundStmt} (stands : footing.At gap)
    (omits : stmt.Omits gap stmt')
    : omission.Together footing (parts.execute stmt) (parts.execute stmt')
        (LaidOut Completion.Like)

namespace Loops

open Evaluator

variable {footing : Footing} {gap : Gap} {parts : Evaluator}

-----
-- Lists

/-- Expressions in a row run together, by induction on them. -/
theorem together_evaluateAll (keeps : parts.Omits) {exprs exprs' : List BoundExpr}
    (stands : footing.At gap) (omits : OmitsExprs gap exprs exprs')
    : omission.Together footing (parts.evaluateAll exprs) (parts.evaluateAll exprs')
        (LaidOut ValuesLike) := by
  induction exprs generalizing footing exprs' with
  | nil =>
      obtain rfl := omits
      exact .pure .nil
  | cons first rest ih =>
      obtain ⟨first', rest', rfl, head, tail⟩ := omits
      refine (keeps.evaluate stands head).bind fun value value' between more alike => ?_
      refine (ih (stands.extend more) tail).bind fun values values' after further alikeRest => ?_
      exact .pure (.cons (alike.mono further.below) alikeRest)

/-- Statements in a row run together, by induction on them. -/
theorem together_executeAll (keeps : parts.Omits) {stmts stmts' : List BoundStmt}
    (stands : footing.At gap) (omits : OmitsStmts gap stmts stmts')
    : omission.Together footing (parts.executeAll stmts) (parts.executeAll stmts')
        (LaidOut Completion.Like) := by
  induction stmts generalizing footing stmts' with
  | nil =>
      obtain rfl := omits
      exact .pure .normal
  | cons first rest ih =>
      obtain ⟨first', rest', rfl, head, tail⟩ := omits
      refine (keeps.execute stands head).bind fun completion completion' between more alike => ?_
      cases alike with
      | normal => exact ih (stands.extend more) tail
      | broke => exact .pure .broke
      | returned alike => exact .pure (.returned alike)

/-- Definitions in a row run together, by induction on the names. -/
theorem together_defineAll {scope scope' : Nat} (names : List Token) {values values' : List Value}
    (known : footing.layout scope = some (gap, scope')) (real : gap ≠ some 0)
    (alike : ValuesLike footing.layout.likeness values values')
    : omission.Together footing (defineAll scope (names.zip values))
        (defineAll scope' (names.zip values')) (fun _ _ _ => True) := by
  induction names generalizing footing values values' with
  | nil => exact .pure trivial
  | cons name rest ih =>
      cases alike with
      | nil => exact .pure trivial
      | cons head tail =>
          refine (together_defineIn name.lexeme known real head).bind fun _ _ between more _ => ?_
          exact ih (more.layout _ _ known) (tail.mono more.below)

-----
-- Calls

/-- Invoking closures that are alike runs together. -/
theorem together_invoke (keeps : parts.Omits) {closure closure' : Closure}
    {arguments arguments' : List Value} (called : closure.OmitsIn footing.layout id closure')
    (alike : ValuesLike footing.layout.likeness arguments arguments')
    : omission.Together footing (parts.invoke closure arguments) (parts.invoke closure' arguments')
        (LaidOut Value.Like) := by
  obtain ⟨gap, known, omits, receiver⟩ := called.function
  obtain ⟨parameters, body⟩ := omits.parts
  unfold invoke
  rw [called.isInitializer, parameters]
  refine (together_newScope known).bind fun scope scope' between more opened => ?_
  refine (together_defineAll _ opened gap.inner_ne_zero (alike.mono more.below)).bind
    fun _ _ filled further _ => ?_
  have opened := further.layout _ _ opened
  refine (together_within opened (together_executeAll keeps ⟨scope', opened⟩ body)).bind
    fun completion completion' after last ended => ?_
  split
  · next isInitializer =>
      have whole := omission.trans more (omission.trans further last)
      exact together_receiverIn (whole.layout _ _ known) (receiver isInitializer)
  · cases ended with
    | normal | broke => exact .pure (.literal .nil)
    | returned alike => exact .pure alike

/-- Instances of classes that are alike are made together. -/
theorem together_construct (keeps : parts.Omits) {lineage lineage' : Lineage}
    {arguments arguments' : List Value}
    (constructed : lineage.Like footing.layout.likeness lineage')
    (alike : ValuesLike footing.layout.likeness arguments arguments')
    : omission.Together footing (parts.construct lineage arguments)
        (parts.construct lineage' arguments') (LaidOut Value.Like) := by
  refine (together_newObject constructed).bind fun object object' between more created => ?_
  have initializers
      : Option.Rel between.layout.likeness.methods lineage.initializer? lineage'.initializer? :=
    (constructed.mono more.below).methods "init"
  revert initializers
  generalize lineage.initializer? = initializer
  generalize lineage'.initializer? = initializer'
  intro initializers
  cases initializers with
  | none => exact .pure created
  | some waits =>
      refine (together_bindMethod waits created).bind fun bound bound' after further called => ?_
      have alike := alike.mono (omission.trans more further).below
      refine (together_invoke keeps called alike).bind fun _ _ _ last _ => ?_
      exact .pure (created.mono (omission.trans further last).below)

/-- Applying callables that are alike runs together. -/
theorem together_apply (keeps : parts.Omits) {callee callee' : Callable}
    {arguments arguments' : List Value} (applied : callee.Like footing.layout.likeness callee')
    (alike : ValuesLike footing.layout.likeness arguments arguments')
    : omission.Together footing (parts.apply callee arguments) (parts.apply callee' arguments')
        (LaidOut Value.Like) := by
  cases applied with
  | closure called => exact together_invoke keeps called alike
  | «class» constructed => exact together_construct keeps constructed alike
  | native function =>
      cases function
      exact together_readClock

/-- Calls of values that are alike run together, also where they cannot be called. -/
theorem together_call (keeps : parts.Omits) {callee callee' : Value}
    {arguments arguments' : List Value} (paren : Token)
    (called : callee.Like footing.layout.likeness callee')
    (alike : ValuesLike footing.layout.likeness arguments arguments')
    : omission.Together footing (parts.call callee arguments paren)
        (parts.call callee' arguments' paren) (LaidOut Value.Like) := by
  have callables := called.callable?
  unfold call
  revert callables
  generalize callee.callable? = callable
  generalize callee'.callable? = callable'
  intro callables
  cases callables with
  | none => exact together_failAt paren _
  | some applied =>
      simp only [applied.arity, alike.length]
      split
      · refine (together_tell (.call _ _ called)).bind fun _ _ between more _ => ?_
        have applied :=
          together_apply keeps (applied.mono more.below) (alike.mono more.below)
        exact applied.limitNesting fun _ _ faults => faults.limited paren
      · exact together_failAt paren _

-----
-- Expressions

/-- An expression runs together with the one apart by the gap, by cases on it. -/
theorem together_evaluateStep (keeps : parts.Omits) {expr expr' : BoundExpr}
    (stands : footing.At gap) (omits : expr.Omits gap expr')
    : omission.Together footing (parts.evaluateStep expr) (parts.evaluateStep expr')
        (LaidOut Value.Like) := by
  cases expr with
  | literal value =>
      obtain rfl := omits
      exact .pure (.literal value)
  | grouping inner =>
      obtain ⟨inner', rfl, omits⟩ := omits
      exact keeps.evaluate stands omits
  | unary operator operand =>
      obtain ⟨operand', rfl, omits⟩ := omits
      refine (keeps.evaluate stands omits).bind fun value value' between more alike => ?_
      exact together_ofExcept (applyUnary_like operator alike)
  | binary left operator right =>
      obtain ⟨left', right', rfl, omitsLeft, omitsRight⟩ := omits
      refine (keeps.evaluate stands omitsLeft).bind fun value value' between more alike => ?_
      refine (keeps.evaluate (stands.extend more) omitsRight).bind
        fun other other' after further alikeOther => ?_
      exact together_ofExcept (applyBinary_like operator (alike.mono further.below) alikeOther)
  | logical left operator right =>
      obtain ⟨left', right', rfl, omitsLeft, omitsRight⟩ := omits
      refine (keeps.evaluate stands omitsLeft).bind fun value value' between more alike => ?_
      have decides : decidesEarly operator value' = decidesEarly operator value := by
        unfold decidesEarly
        rw [alike.isTruthy]
      rw [decides]
      split
      · exact .pure alike
      · exact keeps.evaluate (stands.extend more) omitsRight
  | conditional condition thenCase elseCase =>
      obtain ⟨condition', thenCase', elseCase', rfl, omits, omitsThen, omitsElse⟩ := omits
      refine (keeps.evaluate stands omits).bind fun value value' between more alike => ?_
      rw [alike.isTruthy]
      split
      · exact keeps.evaluate (stands.extend more) omitsThen
      · exact keeps.evaluate (stands.extend more) omitsElse
  | «variable» target =>
      obtain ⟨target', rfl, omits⟩ := omits
      exact together_readVariable stands omits
  | assign target value =>
      obtain ⟨target', value', rfl, omitsTarget, omits⟩ := omits
      refine (keeps.evaluate stands omits).bind fun value value' between more alike => ?_
      refine (together_writeVariable (stands.extend more) omitsTarget alike).bind
        fun _ _ after further _ => ?_
      exact .pure (alike.mono further.below)
  | call callee paren arguments =>
      obtain ⟨callee', arguments', rfl, omitsCallee, omits⟩ := omits
      refine (keeps.evaluate stands omitsCallee).bind fun value value' between more called => ?_
      refine (together_evaluateAll keeps (stands.extend more) omits).bind
        fun values values' after further alike => ?_
      exact together_call keeps paren (called.mono further.below) alike
  | get object name =>
      obtain ⟨object', rfl, omits⟩ := omits
      refine (keeps.evaluate stands omits).bind fun value value' between more alike => ?_
      exact together_readProperty name alike
  | set object name value =>
      obtain ⟨object', value', rfl, omitsObject, omits⟩ := omits
      refine (keeps.evaluate stands omitsObject).bind fun value value' between more alike => ?_
      cases alike with
      | object address _ =>
          refine (keeps.evaluate (stands.extend more) omits).bind
            fun value value' after further alike => ?_
          refine (together_setField address name.lexeme alike).bind fun _ _ last added _ => ?_
          exact .pure (alike.mono added.below)
      | _ => exact together_failAt name _
  | this keyword =>
      obtain ⟨keyword', rfl, omits⟩ := omits
      exact together_readVariable stands omits
  | super keyword method =>
      obtain ⟨keyword', rfl, omits, apart⟩ := omits
      exact together_readSuper method stands omits apart
  | function function =>
      obtain ⟨function', rfl, omits⟩ := omits
      refine (together_currentScope stands).bind fun scope scope' between more here => ?_
      refine (together_newClosure id here.2 omits none false nofun).bind fun _ _ _ _ created => ?_
      exact .pure (.closure created)

-----
-- Loops

/-- A loop runs together with the one apart by the gap, by induction on the rounds that are left. -/
theorem together_repeatWhile {test test' : Run Value} {body body' : Run Completion}
    (tested
      : ∀ {footing : Footing},
          footing.At gap → omission.Together footing test test' (LaidOut Value.Like))
    (repeated
      : ∀ {footing : Footing},
          footing.At gap → omission.Together footing body body' (LaidOut Completion.Like))
    (rounds : Nat) (stands : footing.At gap)
    : omission.Together footing (repeatWhile test body rounds) (repeatWhile test' body' rounds)
        (LaidOut Completion.Like) := by
  induction rounds generalizing footing with
  | zero => exact .throw (.same _)
  | succ rounds ih =>
      refine (tested stands).bind fun value value' between more alike => ?_
      have stands := stands.extend more
      rw [alike.isTruthy]
      split
      · refine (repeated stands).bind fun completion completion' after further alike => ?_
        cases alike with
        | normal => exact ih (stands.extend further)
        | broke => exact .pure .normal
        | returned alike => exact .pure (.returned alike)
      · exact .pure .normal

-----
-- Classes

/-- Reading the superclass runs together. -/
theorem together_readSuperclass {target target' : Reference (Option Nat)}
    (stands : footing.At gap) (omits : target.Omits gap target')
    : omission.Together footing (readSuperclass target) (readSuperclass target')
        (LaidOut Lineage.Like) := by
  refine (together_readVariable stands omits).bind fun value value' between more alike => ?_
  rw [omits.name]
  cases alike with
  | «class» alike => exact .pure alike
  | _ => exact together_failAt target.name _

/-- A superclass clause is evaluated together, whether it is there or not. -/
theorem together_findSuperclass {target target' : Option (Reference (Option Nat))}
    (stands : footing.At gap) (omits : Option.Rel (Reference.Omits gap) target target')
    : omission.Together footing (findSuperclass target) (findSuperclass target')
        (fun superclass superclass' after =>
          Option.Rel (Lineage.Like after.layout.likeness) superclass superclass'
          ∧ superclass.isSome = target.isSome) := by
  cases omits with
  | none => exact .pure ⟨.none, rfl⟩
  | some omits =>
      exact (together_readSuperclass stands omits).map fun _ _ _ _ alike => ⟨.some alike, rfl⟩

/-- Methods of a subclass stand in one more scope, which is that of `super`. -/
theorem together_methodScope {superclass superclass' : Option Lineage} (stands : footing.At gap)
    (alike : Option.Rel (Lineage.Like footing.layout.likeness) superclass superclass')
    : omission.Together footing (methodScope superclass) (methodScope superclass')
        (fun scope scope' after =>
          after.layout scope = some (if superclass.isSome then gap.inner else gap, scope')) := by
  refine (together_currentScope stands).bind fun scope scope' between more here => ?_
  cases alike with
  | none => exact .pure here.2
  | some alike =>
      refine (together_newScope here.2).bind fun scope scope' opened further known => ?_
      have alike := alike.mono (omission.trans more further).below
      refine (together_defineIn "super" known gap.inner_ne_zero (.class alike)).bind
        fun _ _ after last _ => ?_
      exact .pure (last.layout _ _ known)

/-- Methods are created together, by induction on them. -/
theorem together_createMethods {scope scope' : Nat} {table table' : Table Closure}
    {methods methods' : List (Method (Option Nat))}
    (known : footing.layout scope = some (gap, scope'))
    (alike : MethodsLike footing.layout.likeness table table')
    (names : table'.names = table.names) (omits : OmitsMethods gap.inner methods methods')
    : omission.Together footing (createMethods scope table methods)
        (createMethods scope' table' methods')
        (fun table table' after =>
          MethodsLike after.layout.likeness table table' ∧ table'.names = table.names) := by
  induction methods generalizing footing table table' methods' with
  | nil =>
      obtain rfl := omits
      exact .pure ⟨alike, names⟩
  | cons method rest ih =>
      obtain ⟨name, function⟩ := method
      obtain ⟨function', rest', rfl, omits, omitsRest⟩ := omits
      refine (together_newClosure Gap.inner known omits (some name.lexeme) _
        fun _ => gap.inner_ne_zero).bind fun closure closure' between more waits => ?_
      exact ih (more.layout _ _ known) ((alike.mono more.below).insert _ waits)
        (Table.names_insert_congr names _ _ _) omitsRest

/-- Classes that are alike are created together. -/
theorem together_createClass (name : Token) {superclass superclass' : Option Lineage}
    {methods methods' : List (Method (Option Nat))} (stands : footing.At gap)
    (alike : Option.Rel (Lineage.Like footing.layout.likeness) superclass superclass')
    (omits
      : OmitsMethods (if superclass.isSome then gap.inner else gap).inner methods methods')
    : omission.Together footing (createClass name superclass methods)
        (createClass name superclass' methods')
        (fun lineage lineage' after =>
          lineage.Like after.layout.likeness lineage'
          ∧ lineage'.head.methods.size = lineage.head.methods.size) := by
  refine (together_methodScope stands alike).bind fun scope scope' between more known => ?_
  refine (together_createMethods known (fun _ => .none) rfl omits).bind
    fun table table' created further waiting => ?_
  refine together_freshId.bind fun id id' after last same => .pure ?_
  obtain ⟨waiting, names⟩ := waiting
  have waiting := waiting.mono last.below
  have size : table'.size = table.size := by
    have lengths := congrArg List.length names
    rwa [Table.names, Table.names, List.length_map, List.length_map] at lengths
  cases alike with
  | none => exact ⟨.of_body ⟨same, rfl⟩ waiting, size⟩
  | some alike =>
      have alike := alike.mono (omission.trans more (omission.trans further last)).below
      exact ⟨alike.extend_methods ⟨same, rfl⟩ waiting, size⟩

/-- The name stands for no class at first, but it has a value from then on. -/
theorem together_declareClass (name : Token)
    {superclass superclass' : Option (Reference (Option Nat))}
    {methods methods' : List (Method (Option Nat))} (stands : footing.At gap)
    (real : gap ≠ some 0)
    (omitsSuperclass : Option.Rel (Reference.Omits gap) superclass superclass')
    (omits
      : OmitsMethods (if superclass.isSome then gap.inner else gap).inner methods methods')
    : omission.Together footing (declareClass name superclass methods)
        (declareClass name superclass' methods') (fun _ _ _ => True) := by
  refine (together_findSuperclass stands omitsSuperclass).bind
    fun found found' between more alike => ?_
  obtain ⟨alike, same⟩ := alike
  rw [← same] at omits
  have stands := stands.extend more
  refine (together_define name stands real (.literal .nil)).bind fun _ _ named further defined => ?_
  have alikeNamed := optionRel_imp alike fun _ _ alike => alike.mono further.below
  have stands := stands.extend further
  refine (together_createClass name stands alikeNamed omits).bind
    fun lineage lineage' created grown alikeLineage => ?_
  obtain ⟨alikeLineage, size⟩ := alikeLineage
  refine (together_currentScope (stands.extend grown)).bind fun scope scope' last added here => ?_
  obtain ⟨rfl, known⟩ := here
  have defined := added.defined _ _ (grown.defined _ _ defined)
  rw [← grown.current, ← added.current] at defined
  refine (together_assignFrom_defined known real defined
    (.class (alikeLineage.mono added.below))).bind fun _ _ _ _ _ => ?_
  have names : found'.map Lineage.name = found.map Lineage.name := by
    cases alike with
    | none => rfl
    | some alike => exact congrArg some alike.name
  rw [names, size]
  exact together_tell (.same _)

-----
-- Statements

/-- An expression that may be missing runs together with the one apart by the gap. -/
theorem together_evaluateOptional (keeps : parts.Omits) {value value' : Option BoundExpr}
    (stands : footing.At gap) (omits : OmitsOptional gap value value')
    : omission.Together footing (parts.evaluateOptional value) (parts.evaluateOptional value')
        (LaidOut Value.Like) := by
  cases value with
  | none =>
      obtain rfl := omits
      exact .pure (.literal .nil)
  | some value =>
      obtain ⟨value', rfl, omits⟩ := omits
      exact keeps.evaluate stands omits

/-- A statement runs together with the one apart by the gap, by cases on it. -/
theorem together_executeStep (rounds : Nat) (keeps : parts.Omits) {stmt stmt' : BoundStmt}
    (stands : footing.At gap) (omits : stmt.Omits gap stmt')
    : omission.Together footing (executeStep rounds parts stmt) (executeStep rounds parts stmt')
        (LaidOut Completion.Like) := by
  cases stmt with
  | expression value =>
      obtain ⟨value', rfl, omits⟩ := omits
      exact (keeps.evaluate stands omits).bind fun _ _ _ _ _ => .pure .normal
  | print value =>
      obtain ⟨value', rfl, omits⟩ := omits
      refine (keeps.evaluate stands omits).bind fun value value' between more alike => ?_
      rw [alike.text]
      exact (together_print value.text).bind fun _ _ _ _ _ => .pure .normal
  | printLine value =>
      obtain ⟨value', rfl, omits⟩ := omits
      cases value with
      | none =>
          obtain rfl := omits
          exact (together_print "\n").bind fun _ _ _ _ _ => .pure .normal
      | some value =>
          obtain ⟨value', rfl, omits⟩ := omits
          refine (keeps.evaluate stands omits).bind fun value value' between more alike => ?_
          rw [alike.text]
          exact (together_print (value.text ++ "\n")).bind fun _ _ _ _ _ => .pure .normal
  | «variable» name initial =>
      obtain ⟨real, initial', rfl, omits⟩ := omits
      refine (together_evaluateOptional keeps stands omits).bind
        fun value value' between more alike => ?_
      refine (together_define name (stands.extend more) real alike).bind fun _ _ _ further _ => ?_
      have alike := alike.mono further.below
      exact (together_tell (.defineVariable _ alike)).bind fun _ _ _ _ _ => .pure .normal
  | block statements =>
      obtain ⟨statements', rfl, omits⟩ := omits
      refine (together_currentScope stands).bind fun scope scope' between more here => ?_
      refine (together_newScope here.2).bind fun scope scope' after further opened => ?_
      exact together_within opened (together_executeAll keeps ⟨scope', opened⟩ omits)
  | branch condition thenBranch elseBranch =>
      obtain ⟨condition', thenBranch', elseBranch', rfl, omits, omitsThen, omitsElse⟩ := omits
      refine (keeps.evaluate stands omits).bind fun value value' between more alike => ?_
      refine (together_tell (.condition alike)).bind fun _ _ after further _ => ?_
      have stands := (stands.extend more).extend further
      rw [alike.isTruthy]
      split
      · exact keeps.execute stands omitsThen
      · cases elseBranch with
        | none =>
            obtain rfl := omitsElse
            exact .pure .normal
        | some elseBranch =>
            obtain ⟨elseBranch', rfl, omits⟩ := omitsElse
            exact keeps.execute stands omits
  | loop condition body =>
      obtain ⟨condition', body', rfl, omitsCondition, omits⟩ := omits
      exact together_repeatWhile (fun stands => keeps.evaluate stands omitsCondition)
        (fun stands => keeps.execute stands omits) rounds stands
  | breakLoop keyword =>
      obtain rfl := omits
      exact .pure .broke
  | returnValue keyword value =>
      obtain ⟨value', rfl, omits⟩ := omits
      exact (together_evaluateOptional keeps stands omits).bind
        fun _ _ _ _ alike => .pure (.returned alike)
  | function name function =>
      obtain ⟨real, function', rfl, omits⟩ := omits
      refine (together_currentScope stands).bind fun scope scope' between more here => ?_
      refine (together_newClosure id here.2 omits (some name.lexeme) false nofun).bind
        fun closure closure' after further created => ?_
      have stands := (stands.extend more).extend further
      refine (together_define name stands real (.closure created)).bind fun _ _ _ _ _ => ?_
      exact (together_tell (.same _)).bind fun _ _ _ _ _ => .pure .normal
  | «class» name superclass methods =>
      have declared {superclass superclass' : Option (Reference (Option Nat))}
          {methods' : List (Method (Option Nat))}
          (ends
            : omission.Together footing (declareClass name superclass methods)
                (declareClass name superclass' methods') (fun _ _ _ => True))
          : omission.Together footing (executeStep rounds parts (.class name superclass methods))
              (executeStep rounds parts (.class name superclass' methods'))
              (LaidOut Completion.Like) :=
        ends.bind fun _ _ _ _ _ => .pure .normal
      cases superclass with
      | none =>
          obtain ⟨real, methods', rfl, omits⟩ := omits
          exact declared (together_declareClass name stands real .none omits)
      | some superclass =>
          obtain ⟨real, superclass', methods', rfl, omitsSuperclass, omits⟩ := omits
          exact declared (together_declareClass name stands real (.some omitsSuperclass) omits)

-----
-- All levels

/-- For every limit on open calls the parts run together, by induction on it. -/
theorem omits_ofNesting (rounds nesting : Nat) : (ofNesting rounds nesting).Omits := by
  induction nesting with
  | zero => exact ⟨fun _ _ => .throw (.same _), fun _ _ => .throw (.same _)⟩
  | succ nesting ih => exact ⟨together_evaluateStep ih, together_executeStep rounds ih⟩

end Loops

end Lox
