import Lox.Proofs.Joining.Actions

/-! Programs run side by side with themselves on other lines.

One level of evaluation keeps two machines to each other if the level below does, and so all levels
together do.
-/

namespace Lox

def Completion.moved (move : Nat → Nat) : Completion → Completion
  | .returned value => .returned (value.moved move)
  | completion => completion

/-- Evaluators that run trees as they run the same trees on other lines. -/
structure Evaluator.Mirrors (move : Nat → Nat) (heading : String) (whole part : Evaluator)
    : Prop where
  evaluate (expr : BoundExpr)
    : Lox.Mirrors move heading (Value.moved move) (whole.evaluate expr)
        (part.evaluate (expr.moved move))
  execute (stmt : BoundStmt)
    : Lox.Mirrors move heading (Completion.moved move) (whole.execute stmt)
        (part.execute (stmt.moved move))

namespace Evaluator

section

variable {move : Nat → Nat} {heading : String} {whole part : Evaluator}

-----
-- Lists

/-- Expressions in a row are mirrored, by induction on them. -/
theorem mirrors_evaluateAll (parts : whole.Mirrors move heading part) (exprs : List BoundExpr)
    : Lox.Mirrors move heading (List.map (Value.moved move)) (whole.evaluateAll exprs)
        (part.evaluateAll (movedExprs move exprs)) := by
  induction exprs with
  | nil => exact .pure _ []
  | cons first rest ih =>
      exact (parts.evaluate first).bind fun value => ih.bind fun values =>
        .pure (List.map (Value.moved move)) (value :: values)

/-- Statements in a row are mirrored, by induction on them. -/
theorem mirrors_executeAll (parts : whole.Mirrors move heading part) (stmts : List BoundStmt)
    : Lox.Mirrors move heading (Completion.moved move) (whole.executeAll stmts)
        (part.executeAll (movedStmts move stmts)) := by
  induction stmts with
  | nil => exact .pure (Completion.moved move) .normal
  | cons first rest ih =>
      refine (parts.execute first).bind fun completion => ?_
      cases completion with
      | normal => exact ih
      | broke => exact .pure (Completion.moved move) .broke
      | returned value => exact .pure (Completion.moved move) (.returned value)

/-- Definitions in a row are mirrored, by induction on the names. -/
theorem mirrors_defineAll (scope : Nat) (names : List Token) (values : List Value)
    : Lox.Mirrors move heading id (defineAll scope (names.zip values))
        (defineAll scope
          ((names.map (Token.moved move)).zip (values.map (Value.moved move)))) := by
  induction names generalizing values with
  | nil => exact .pure id ()
  | cons name rest ih =>
      cases values with
      | nil => exact .pure id ()
      | cons value values =>
          exact (mirrors_defineIn scope name.lexeme value).bind fun _ => ih values

-----
-- Calls

/-- Invoking a closure is mirrored by invoking the moved one. -/
theorem mirrors_invoke (parts : whole.Mirrors move heading part) (closure : Closure)
    (arguments : List Value)
    : Lox.Mirrors move heading (Value.moved move) (whole.invoke closure arguments)
        (part.invoke (closure.moved move) (arguments.map (Value.moved move))) := by
  obtain ⟨id, ⟨parameters, body⟩, outer, name, isInitializer⟩ := closure
  refine (mirrors_newScope outer).bind fun scope => ?_
  refine (mirrors_defineAll scope parameters arguments).bind fun _ => ?_
  refine (mirrors_within scope (mirrors_executeAll parts body)).bind fun completion => ?_
  cases isInitializer with
  | true => exact mirrors_receiverIn outer
  | false => cases completion <;> exact .pure (Value.moved move) _

/-- Making an instance is mirrored by making one of the moved class. -/
theorem mirrors_construct (parts : whole.Mirrors move heading part) (lineage : Lineage)
    (arguments : List Value)
    : Lox.Mirrors move heading (Value.moved move) (whole.construct lineage arguments)
        (part.construct (lineage.moved move) (arguments.map (Value.moved move))) := by
  refine (mirrors_newObject lineage).bind fun object => ?_
  rw [Lineage.moved_initializer?]
  cases lineage.initializer? with
  | none => exact .pure (Value.moved move) object
  | some initializer =>
      refine (mirrors_bindMethod initializer object).bind fun bound => ?_
      exact (mirrors_invoke parts bound arguments).bind fun _ => .pure (Value.moved move) object

/-- A call at the limit on open calls is mirrored at the moved parenthesis. -/
theorem mirrors_limitNesting (paren : Token) {call call' : Run Value}
    (called : Lox.Mirrors move heading (Value.moved move) call call')
    : Lox.Mirrors move heading (Value.moved move) (limitNesting paren call)
        (limitNesting (paren.moved move) call') := by
  refine Mirrors.iff_together.2 ((Mirrors.iff_together.1 called).limitNesting ?_)
  rintro fault _ rfl
  cases fault <;> rfl

/-- Applying a function or a class is mirrored by applying the moved one. -/
theorem mirrors_apply (parts : whole.Mirrors move heading part) (callee : Callable)
    (arguments : List Value)
    : Lox.Mirrors move heading (Value.moved move) (whole.apply callee arguments)
        (part.apply (callee.moved move) (arguments.map (Value.moved move))) := by
  cases callee with
  | closure function => exact mirrors_invoke parts function arguments
  | «class» lineage => exact mirrors_construct parts lineage arguments
  | native function =>
      cases function
      exact mirrors_readClock

/-- A call is mirrored by one of the moved value, also where it cannot be called. -/
theorem mirrors_call (parts : whole.Mirrors move heading part) (callee : Value)
    (arguments : List Value) (paren : Token)
    : Lox.Mirrors move heading (Value.moved move) (whole.call callee arguments paren)
        (part.call (callee.moved move) (arguments.map (Value.moved move)) (paren.moved move)) := by
  unfold call
  rw [Value.moved_callable?]
  cases callee.callable? with
  | none => exact mirrors_failAt paren _
  | some callable =>
      simp only [Option.map_some, Callable.moved_arity, List.length_map]
      split
      · refine (mirrors_tell _ _).bind fun _ => ?_
        exact mirrors_limitNesting paren (mirrors_apply parts callable arguments)
      · exact mirrors_failAt paren _

-----
-- Expressions

/-- An expression is mirrored by the moved one, by cases on it. -/
theorem mirrors_evaluateStep (parts : whole.Mirrors move heading part) (expr : BoundExpr)
    : Lox.Mirrors move heading (Value.moved move) (whole.evaluateStep expr)
        (part.evaluateStep (expr.moved move)) := by
  cases expr with
  | literal value => exact .pure (Value.moved move) _
  | grouping inner => exact parts.evaluate inner
  | unary operator operand =>
      refine (parts.evaluate operand).bind fun operand => ?_
      rw [applyUnary_moved]
      exact mirrors_ofExcept _
  | binary left operator right =>
      refine (parts.evaluate left).bind fun left => ?_
      refine (parts.evaluate right).bind fun right => ?_
      rw [applyBinary_moved]
      exact mirrors_ofExcept _
  | logical left operator right =>
      refine (parts.evaluate left).bind fun left => ?_
      have decides
          : decidesEarly (operator.moved move) (left.moved move) = decidesEarly operator left := by
        unfold decidesEarly
        rw [Value.moved_isTruthy]
        rfl
      rw [decides]
      split
      · exact .pure (Value.moved move) left
      · exact parts.evaluate right
  | conditional condition thenCase elseCase =>
      refine (parts.evaluate condition).bind fun condition => ?_
      rw [Value.moved_isTruthy]
      split
      · exact parts.evaluate thenCase
      · exact parts.evaluate elseCase
  | «variable» target => exact mirrors_readVariable target
  | assign target value =>
      refine (parts.evaluate value).bind fun value => ?_
      exact (mirrors_writeVariable target value).bind fun _ => .pure (Value.moved move) value
  | call callee paren arguments =>
      refine (parts.evaluate callee).bind fun callee => ?_
      refine (mirrors_evaluateAll parts arguments).bind fun arguments => ?_
      exact mirrors_call parts callee arguments paren
  | get object name =>
      exact (parts.evaluate object).bind fun object => mirrors_readProperty object name
  | set object name value =>
      refine (parts.evaluate object).bind fun object => ?_
      cases object with
      | object address lineage =>
          refine (parts.evaluate value).bind fun value => ?_
          exact (mirrors_setField address name.lexeme value).bind fun _ =>
            .pure (Value.moved move) value
      | _ => exact mirrors_failAt name _
  | this keyword => exact mirrors_readVariable keyword
  | super keyword method => exact mirrors_readSuper keyword method
  | function function =>
      refine mirrors_currentScope.bind fun scope => ?_
      exact (mirrors_newClosure function scope none false).bind fun _ =>
        .pure (Value.moved move) _

-----
-- Loops

/-- A loop is mirrored by the moved one, by induction on the rounds that are left. -/
theorem mirrors_repeatWhile {test test' : Run Value} {body body' : Run Completion}
    (tested : Lox.Mirrors move heading (Value.moved move) test test')
    (repeated : Lox.Mirrors move heading (Completion.moved move) body body') (rounds : Nat)
    : Lox.Mirrors move heading (Completion.moved move) (repeatWhile test body rounds)
        (repeatWhile test' body' rounds) := by
  induction rounds with
  | zero => exact .throw _ .tooManyRounds
  | succ rounds ih =>
      refine tested.bind fun condition => ?_
      rw [Value.moved_isTruthy]
      split
      · refine repeated.bind fun completion => ?_
        cases completion with
        | normal => exact ih
        | broke => exact .pure (Completion.moved move) .normal
        | returned value => exact .pure (Completion.moved move) (.returned value)
      · exact .pure (Completion.moved move) .normal

-----
-- Classes

/-- Reading the superclass is mirrored. -/
theorem mirrors_readSuperclass (target : Reference (Option Nat))
    : Lox.Mirrors move heading (Lineage.moved move) (readSuperclass target)
        (readSuperclass (target.moved move)) := by
  refine (mirrors_readVariable target).bind fun value => ?_
  cases value with
  | «class» lineage => exact .pure (Lineage.moved move) lineage
  | _ => exact mirrors_failAt target.name _

/-- A superclass clause is mirrored by the moved one, whether it is there or not. -/
theorem mirrors_findSuperclass (target : Option (Reference (Option Nat)))
    : Lox.Mirrors move heading (Option.map (Lineage.moved move)) (findSuperclass target)
        (findSuperclass (target.map (·.moved move))) := by
  cases target with
  | none => exact .pure (Option.map (Lineage.moved move)) none
  | some target => exact (mirrors_readSuperclass target).map fun _ => rfl

/-- Creating methods is mirrored by creating the moved ones, by induction on them. -/
theorem mirrors_createMethods (scope : Nat) (table : Table Closure)
    (methods : List (Method (Option Nat)))
    : Lox.Mirrors move heading (Table.map (Closure.moved move))
        (createMethods scope table methods)
        (createMethods scope (table.map (Closure.moved move)) (movedMethods move methods)) := by
  induction methods generalizing table with
  | nil => exact .pure (Table.map (Closure.moved move)) table
  | cons method rest ih =>
      obtain ⟨name, function⟩ := method
      refine (mirrors_newClosure function scope (some name.lexeme)
        (name.lexeme = "init")).bind fun closure => ?_
      have inserted := ih (table.insert name.lexeme closure)
      rw [Table.map_insert] at inserted
      exact inserted

/-- The scope of the methods is the same on both sides. -/
theorem mirrors_methodScope (superclass : Option Lineage)
    : Lox.Mirrors move heading id (methodScope superclass)
        (methodScope (superclass.map (Lineage.moved move))) := by
  refine mirrors_currentScope.bind fun current => ?_
  cases superclass with
  | none => exact .pure id current
  | some lineage =>
      refine (mirrors_newScope current).bind fun scope => ?_
      exact (mirrors_defineIn scope "super" (.class lineage)).bind fun _ => .pure id scope

/-- Creating a class is mirrored by creating the moved one. -/
theorem mirrors_createClass (name : Token) (superclass : Option Lineage)
    (methods : List (Method (Option Nat)))
    : Lox.Mirrors move heading (Lineage.moved move) (createClass name superclass methods)
        (createClass (name.moved move) (superclass.map (Lineage.moved move))
          (movedMethods move methods)) := by
  refine (mirrors_methodScope superclass).bind fun scope => ?_
  refine (mirrors_createMethods scope .empty methods).bind fun table => ?_
  refine mirrors_freshId.bind fun id => ?_
  cases superclass <;> exact .pure (Lineage.moved move) _

/-- A class declaration is mirrored by the moved one. -/
theorem mirrors_declareClass (name : Token) (superclass : Option (Reference (Option Nat)))
    (methods : List (Method (Option Nat)))
    : Lox.Mirrors move heading id (declareClass name superclass methods)
        (declareClass (name.moved move) (superclass.map (·.moved move))
          (movedMethods move methods)) := by
  refine (mirrors_findSuperclass superclass).bind fun superclass => ?_
  refine (mirrors_define name .nil).bind fun _ => ?_
  refine (mirrors_createClass name superclass methods).bind fun lineage => ?_
  refine mirrors_currentScope.bind fun scope => ?_
  refine (mirrors_assignFrom scope name (.class lineage)).bind fun _ => ?_
  exact mirrors_tell _ _

-----
-- Statements

/-- An expression that may be missing is mirrored by the moved one. -/
theorem mirrors_evaluateOptional (parts : whole.Mirrors move heading part)
    (value : Option BoundExpr)
    : Lox.Mirrors move heading (Value.moved move) (whole.evaluateOptional value)
        (part.evaluateOptional (movedOptional move value)) := by
  cases value with
  | none => exact .pure (Value.moved move) .nil
  | some value => exact parts.evaluate value

/-- A statement is mirrored by the moved one, by cases on it. -/
theorem mirrors_executeStep (rounds : Nat) (parts : whole.Mirrors move heading part)
    (stmt : BoundStmt)
    : Lox.Mirrors move heading (Completion.moved move) (executeStep rounds whole stmt)
        (executeStep rounds part (stmt.moved move)) := by
  have normal {α β : Type} {image : α → β} {action : Run α} {action' : Run β}
      (ends : Lox.Mirrors move heading image action action')
      : Lox.Mirrors move heading (Completion.moved move)
          (action >>= fun _ => return Completion.normal)
          (action' >>= fun _ => return Completion.normal) :=
    ends.bind fun _ => .pure (Completion.moved move) .normal
  cases stmt with
  | expression value => exact normal (parts.evaluate value)
  | print value =>
      refine (parts.evaluate value).bind fun value => ?_
      rw [Value.moved_text]
      exact normal (mirrors_print value.text)
  | printLine value =>
      cases value with
      | none => exact normal (mirrors_print "\n")
      | some value =>
          refine (parts.evaluate value).bind fun value => ?_
          rw [Value.moved_text]
          exact normal (mirrors_print (value.text ++ "\n"))
  | «variable» name initial =>
      refine (mirrors_evaluateOptional parts initial).bind fun value => ?_
      refine (mirrors_define name value).bind fun _ => ?_
      exact normal (mirrors_tell _ _)
  | block statements =>
      refine mirrors_currentScope.bind fun current => ?_
      refine (mirrors_newScope current).bind fun scope => ?_
      exact mirrors_within scope (mirrors_executeAll parts statements)
  | branch condition thenBranch elseBranch =>
      refine (parts.evaluate condition).bind fun condition => ?_
      refine (mirrors_tell _ _).bind fun _ => ?_
      rw [Value.moved_isTruthy]
      split
      · exact parts.execute thenBranch
      · cases elseBranch with
        | none => exact .pure (Completion.moved move) .normal
        | some elseBranch => exact parts.execute elseBranch
  | loop condition body =>
      exact mirrors_repeatWhile (parts.evaluate condition) (parts.execute body) rounds
  | breakLoop keyword => exact .pure (Completion.moved move) .broke
  | returnValue keyword value =>
      exact (mirrors_evaluateOptional parts value).bind fun value =>
        .pure (Completion.moved move) (.returned value)
  | function name function =>
      refine mirrors_currentScope.bind fun scope => ?_
      refine (mirrors_newClosure function scope (some name.lexeme) false).bind fun closure => ?_
      refine (mirrors_define name (.closure closure)).bind fun _ => ?_
      exact normal (mirrors_tell _ _)
  | «class» name superclass methods => exact normal (mirrors_declareClass name superclass methods)

-----
-- All levels

/-- For every limit on open calls the parts are mirrored, by induction on it. -/
theorem mirrors_ofNesting (move : Nat → Nat) (heading : String) (rounds nesting : Nat)
    : (ofNesting rounds nesting).Mirrors move heading (ofNesting rounds nesting) := by
  induction nesting with
  | zero => exact ⟨fun _ => .throw _ .tooDeep, fun _ => .throw _ .tooDeep⟩
  | succ nesting ih => exact ⟨mirrors_evaluateStep ih, mirrors_executeStep rounds ih⟩

/-- A program runs on any lines as it runs on its own. -/
theorem mirrors_executeProgram (parts : whole.Mirrors move heading part) (stmts : List BoundStmt)
    : Lox.Mirrors move heading id (whole.executeProgram stmts)
        (part.executeProgram (movedStmts move stmts)) := by
  induction stmts with
  | nil => exact .pure id ()
  | cons first rest ih => exact (parts.execute first).bind fun _ => ih

/-- Of two programs behind one another, the second runs if the first ends. -/
theorem executeProgram_append (evaluator : Evaluator) (front back : List BoundStmt)
    (machine : Machine)
    : evaluator.executeProgram (front ++ back) machine
        = match evaluator.executeProgram front machine with
          | .ok _ after => evaluator.executeProgram back after
          | .error fault after => .error fault after := by
  induction front generalizing machine with
  | nil => rfl
  | cons first rest ih =>
      have run (program : List BoundStmt)
          : evaluator.executeProgram (first :: program) machine
              = match evaluator.execute first machine with
                | .ok _ between => evaluator.executeProgram program between
                | .error fault after => .error fault after := by
        change EStateM.bind (evaluator.execute first)
          (fun _ => evaluator.executeProgram program) machine = _
        unfold EStateM.bind
        cases evaluator.execute first machine <;> rfl
      rw [List.cons_append, run, run]
      cases evaluator.execute first machine with
      | ok completion after => exact ih after
      | error fault after => rfl

end

end Evaluator

end Lox
