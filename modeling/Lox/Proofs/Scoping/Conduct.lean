import Lox.Proofs.Running.Settling
import Lox.Proofs.Scoping.Calls

/-! What the single actions of a watched run satisfy, the whole run satisfies.

A claim about watched runs that goes from one action to the next needs no induction of its own: it
is enough that the actions satisfy it that a watcher is made of. The places that these are made at
are sound, and so are the places that functions come from.
-/

namespace Lox.Scoping

open Binding
open Grammar (SourceExpr SourceStmt)

/-- The claim holds of all actions of a watcher and goes from one to the next. -/
structure Watch.Conduct (holds : ∀ {α : Type}, Watch α → Prop) : Prop where
  pure {α : Type} (value : α) : holds (Pure.pure value : Watch α)
  bind {α β : Type} {action : Watch α} {next : α → Watch β} (front : holds action)
    (back : ∀ value, holds (next value))
    : holds (action >>= next)
  /-- Looking up in the book where a function comes from. -/
  origin {α : Type} (id : Nat) {next : Origin → Watch α}
    (back
      : ∀ origin : Origin, origin.site.Sound → origin.function.Proper → holds (next origin))
    : holds (MonadState.get >>= fun watched : Watched => next (watched.originOf id))
  /-- Whatever leaves the scopes of the machine alone. -/
  quiet {α : Type} {action : Run α}
    (scopes : ∀ machine, (stateOf (action machine)).scopes = machine.scopes)
    : holds (Watch.lift action)
  define {name : Token} (isName : name.IsName) (value : Value)
    : holds (Watch.lift (Run.define name value))
  complete {site : Site} {name : Token} (isName : name.IsName) (value : Value)
    : holds (Watch.complete site name value)
  openScope (frame : Frame) (parent : Nat) : holds (Watch.openScope frame parent)
  /-- Opening the scope of a call, with its parameters defined. -/
  fill (place : List Nat) (parent : Nat) (pairs : List (Token × Value))
    : holds (do
        let scope ← Watch.openScope { kind := .function, place } parent
        Watch.lift (Evaluator.defineAll scope pairs)
        return scope)
  within {α : Type} (scope : Nat) {action : Watch α} (inside : holds action)
    : holds (Watch.within scope action)
  limitNesting (paren : Token) {action : Watch Value} (inside : holds action)
    : holds (Watcher.limitNesting paren action)
  newFunction {site : Site} {function : Lambda Unit} (met : site.Sound) (proper : function.Proper)
    (scope : Nat) (name : Option String) (isInitializer : Bool)
    : holds (Watcher.newFunction site function scope name isInitializer)
  bindMethod (method : Closure) (receiver : Value) : holds (Watch.bindMethod method receiver)
  readVariable {site : Site} (met : site.Sound) (name : Token)
    : holds (Watch.readVariable site (.read name))
  readThis {site : Site} (met : site.Sound) (keyword : Token)
    : holds (Watch.readVariable site (.this keyword))
  writeVariable {site : Site} {name : Token} (met : site.Sound) (isName : name.IsName)
    (value : Value)
    : holds (Watch.writeVariable site name value)
  readSuper {site : Site} {keyword : Token} (met : site.Sound) (spelled : keyword.lexeme = "super")
    (method : Token)
    : holds (Watch.readSuper site keyword method)
  declareClass {site : Site} {name : Token} {clause : Option (Reference Unit)}
    {methods : List (Method Unit)} (met : site.Sound) (isName : name.IsName)
    (proper : ProperMethods methods)
    : holds (Watcher.declareClass site name clause methods)

/-- The watcher satisfies the claim at all sound places. -/
structure Watcher.Obeys (holds : ∀ {α : Type}, Watch α → Prop) (parts : Watcher) : Prop where
  evaluate
    : ∀ {site : Site} {expr : SourceExpr},
        site.Sound → expr.Proper → holds (parts.evaluate site expr)
  execute
    : ∀ {site : Site} {stmt : SourceStmt},
        site.Sound → stmt.Proper → holds (parts.execute site stmt)

-----
-- Actions that leave scopes alone

/-- Whatever is only looked up stays as it is. -/
theorem scopes_of_peeks {α : Type} {action : Run α} (peeks : Running.Peeks action)
    (machine : Machine)
    : (stateOf (action machine)).scopes = machine.scopes := by
  rcases peeks machine with ⟨value, run⟩ | ⟨fault, run⟩ <;> rw [run] <;> rfl

/-- An event of the trace leaves the environments alone. -/
theorem scopes_tell (event : TraceEvent) (machine : Machine)
    : (stateOf (Run.tell event machine)).scopes = machine.scopes :=
  (Machine.told_same machine event).1

-----
-- Everything else a watcher does

namespace Watcher.Obeys

open Watch (Conduct)

variable {holds : ∀ {α : Type}, Watch α → Prop} {parts : Watcher}

/-- Without any nesting left nothing happens that could break the conduct. -/
theorem exhausted (conduct : Conduct holds) : Watcher.exhausted.Obeys holds :=
  {
    evaluate := fun _ _ => conduct.quiet (scopes_of_peeks (.throw .tooDeep))
    execute := fun _ _ => conduct.quiet (scopes_of_peeks (.throw .tooDeep))
  }

section

variable (conduct : Conduct holds) (obeys : parts.Obeys holds)

include conduct obeys

/-- Expressions in a row obey the conduct, by induction on them. -/
theorem evaluateAll {exprs : List SourceExpr} {site : Site} (met : site.Sound)
    (proper : ProperExprs exprs)
    : holds (parts.evaluateAll site exprs) := by
  induction exprs generalizing site with
  | nil => exact conduct.pure _
  | cons first rest ih =>
      obtain ⟨properFirst, properRest⟩ := proper
      have behind := met.kept (bindExpr_kept first site.scopes properFirst)
      refine conduct.bind (obeys.evaluate (met.child 0) properFirst) fun _ => ?_
      exact conduct.bind (ih (behind.child 1) properRest) fun _ => conduct.pure _

/-- Statements in a row obey the conduct, by induction on them. -/
theorem executeAll {stmts : List SourceStmt} {site : Site} (met : site.Sound)
    (proper : ProperStmts stmts)
    : holds (parts.executeAll site stmts) := by
  induction stmts generalizing site with
  | nil => exact conduct.pure _
  | cons first rest ih =>
      obtain ⟨properFirst, properRest⟩ := proper
      refine conduct.bind (obeys.execute (met.child 0) properFirst) fun completion => ?_
      cases completion with
      | normal => exact ih ((met.behind properFirst).child 1) properRest
      | broke | returned => exact conduct.pure _

/-- An expression that may be missing obeys the conduct. -/
theorem evaluateOptional {value : Option SourceExpr} {site : Site} (met : site.Sound)
    (proper : ProperOptional value)
    : holds (parts.evaluateOptional site value) := by
  cases value with
  | none => exact conduct.pure _
  | some value => exact obeys.evaluate (met.child 0) proper

-----
-- Calls

/-- A function called from its origin obeys the conduct. -/
theorem invokeFrom {origin : Origin} (met : origin.site.Sound) (proper : origin.function.Proper)
    (closure : Closure) (arguments : List Value)
    : holds (parts.invokeFrom origin closure arguments) := by
  let fill : Watch Nat := do
    let scope ← Watch.openScope { kind := .function, place := origin.site.place } closure.scope
    Watch.lift (Evaluator.defineAll scope (closure.function.parameters.zip arguments))
    return scope
  have regrouped (next : Nat → Watch Value)
      : (do
          let scope ← Watch.openScope { kind := .function, place := origin.site.place }
            closure.scope
          Watch.lift (Evaluator.defineAll scope (closure.function.parameters.zip arguments))
          next scope)
        = fill >>= next := by
    simp only [fill, bind_assoc, pure_bind]
  have inside := obeys.executeAll conduct (met.inside proper) proper.body
  have split : parts.invokeFrom origin closure arguments = fill >>= _ := regrouped _
  rw [split]
  refine conduct.bind (conduct.fill _ _ _) fun scope => ?_
  refine conduct.bind (conduct.within scope inside) fun completion => ?_
  split
  · exact conduct.quiet (scopes_of_peeks (Running.peeks_receiverIn _))
  · cases completion with
    | returned value => exact conduct.pure _
    | normal | broke => exact conduct.pure _

/-- A closure obeys the conduct, since it comes from a function of the text. -/
theorem invoke (closure : Closure) (arguments : List Value)
    : holds (parts.invoke closure arguments) :=
  conduct.origin closure.id fun _ met proper => obeys.invokeFrom conduct met proper _ _

/-- Making an instance obeys the conduct. -/
theorem construct (lineage : Lineage) (arguments : List Value)
    : holds (parts.construct lineage arguments) := by
  refine conduct.bind (conduct.quiet fun _ => rfl) fun object => ?_
  cases lineage.initializer? with
  | none => exact conduct.pure _
  | some initializer =>
      refine conduct.bind (conduct.bindMethod _ _) fun bound => ?_
      exact conduct.bind (obeys.invoke conduct bound arguments) fun _ => conduct.pure _

/-- Applying a function or a class obeys the conduct. -/
theorem apply (callee : Callable) (arguments : List Value)
    : holds (parts.apply callee arguments) := by
  cases callee with
  | closure function => exact obeys.invoke conduct function arguments
  | «class» lineage => exact obeys.construct conduct lineage arguments
  | native function =>
      cases function
      exact @Conduct.quiet @holds conduct _ Run.readClock fun _ => rfl

/-- A call of any value obeys the conduct. -/
theorem call (callee : Value) (arguments : List Value) (paren : Token)
    : holds (parts.call callee arguments paren) := by
  unfold Watcher.call
  cases callee.callable? with
  | none => exact conduct.quiet fun _ => rfl
  | some callable =>
      simp only
      split
      · refine conduct.bind (conduct.quiet (scopes_tell _)) fun _ => ?_
        exact conduct.limitNesting paren (obeys.apply conduct callable arguments)
      · exact conduct.quiet fun _ => rfl

end

-----
-- Expressions

/-- Reading a property obeys the conduct, whether a field or a method answers. -/
theorem readProperty (conduct : Conduct holds) (object : Value) (name : Token)
    : holds (Watch.readProperty object name) := by
  cases object with
  | object address lineage =>
      refine conduct.bind (conduct.quiet fun _ => rfl) fun field => ?_
      cases field with
      | some value => exact conduct.pure value
      | none =>
          simp only
          cases lineage.method? name.lexeme with
          | some method => exact conduct.bind (conduct.bindMethod _ _) fun _ => conduct.pure _
          | none => exact conduct.quiet fun _ => rfl
  | literal | native | closure | «class» =>
      exact conduct.quiet (scopes_of_peeks (Running.peeks_failAt name .propertyOfNonInstance))

/-- An expression obeys the conduct, by cases on it. -/
theorem evaluateStep (conduct : Conduct holds) (obeys : parts.Obeys holds) {site : Site}
    {expr : SourceExpr} (met : site.Sound) (proper : expr.Proper)
    : holds (parts.evaluateStep site expr) := by
  have behind {first : SourceExpr} (proper : first.Proper)
      : (site.after (bindExpr first)).Sound :=
    met.kept (bindExpr_kept first site.scopes proper)
  cases expr with
  | literal value => exact conduct.pure _
  | grouping inner => exact obeys.evaluate (met.child 0) proper
  | unary operator operand =>
      have properOperand : operand.Proper := proper
      refine conduct.bind (obeys.evaluate (met.child 0) properOperand) fun _ => ?_
      exact conduct.quiet (scopes_of_peeks (Running.peeks_ofExcept _))
  | binary left operator right =>
      obtain ⟨properLeft, properRight⟩ := proper
      refine conduct.bind (obeys.evaluate (met.child 0) properLeft) fun _ => ?_
      refine conduct.bind (obeys.evaluate ((behind properLeft).child 1) properRight) fun _ => ?_
      exact conduct.quiet (scopes_of_peeks (Running.peeks_ofExcept _))
  | logical left operator right =>
      obtain ⟨properLeft, properRight⟩ := proper
      refine conduct.bind (obeys.evaluate (met.child 0) properLeft) fun value => ?_
      split
      · exact conduct.pure _
      · exact obeys.evaluate ((behind properLeft).child 1) properRight
  | conditional condition thenCase elseCase =>
      obtain ⟨tested, first, second⟩ := proper
      refine conduct.bind (obeys.evaluate (met.child 0) tested) fun value => ?_
      split
      · exact obeys.evaluate ((behind tested).child 1) first
      · have last := (behind tested).kept (bindExpr_kept thenCase _ first)
        exact obeys.evaluate (last.child 2) second
  | «variable» target => exact conduct.readVariable met _
  | assign target value =>
      obtain ⟨isName, properValue⟩ := proper
      refine conduct.bind (obeys.evaluate (met.child 0) properValue) fun assigned => ?_
      refine conduct.bind (conduct.writeVariable (behind properValue) isName assigned) fun _ => ?_
      exact conduct.pure _
  | call callee paren arguments =>
      obtain ⟨properCallee, properArguments⟩ := proper
      have argued := obeys.evaluateAll conduct ((behind properCallee).child 1) properArguments
      refine conduct.bind (obeys.evaluate (met.child 0) properCallee) fun calleeValue => ?_
      exact conduct.bind argued fun values => obeys.call conduct calleeValue values paren
  | get object name =>
      have properObject : object.Proper := proper
      refine conduct.bind (obeys.evaluate (met.child 0) properObject) fun value => ?_
      exact readProperty conduct value name
  | set object name value =>
      obtain ⟨properObject, properValue⟩ := proper
      refine conduct.bind (obeys.evaluate ((behind properValue).child 0) properObject)
        fun objectValue => ?_
      cases objectValue with
      | object address lineage =>
          refine conduct.bind (obeys.evaluate (met.child 1) properValue) fun _ => ?_
          exact conduct.bind (conduct.quiet fun _ => rfl) fun _ => conduct.pure _
      | literal | native | closure | «class» => exact conduct.quiet fun _ => rfl
  | this keyword => exact conduct.readThis met _
  | super keyword method => exact conduct.readSuper met proper _
  | function function =>
      refine conduct.bind (conduct.quiet fun _ => rfl) fun scope => ?_
      exact conduct.bind (conduct.newFunction (met.child 0) proper _ _ _) fun _ => conduct.pure _

-----
-- Statements

/-- A loop obeys the conduct, by induction on the rounds that are left. -/
theorem repeatWhile (conduct : Conduct holds) {test : Watch Value} {body : Watch Completion}
    (tested : holds test) (repeated : holds body) (rounds : Nat)
    : holds (Watcher.repeatWhile test body rounds) := by
  induction rounds with
  | zero => exact conduct.quiet fun _ => rfl
  | succ rounds ih =>
      refine conduct.bind tested fun condition => ?_
      split
      · refine conduct.bind repeated fun completion => ?_
        cases completion with
        | normal => exact ih
        | broke | returned => exact conduct.pure _
      · exact conduct.pure _

/-- A statement obeys the conduct, by cases on it. -/
theorem executeStep (conduct : Conduct holds) (obeys : parts.Obeys holds) (rounds : Nat)
    {site : Site} {stmt : SourceStmt} (met : site.Sound) (proper : stmt.Proper)
    : holds (Watcher.executeStep rounds parts site stmt) := by
  have quietly (completion : Completion) (event : TraceEvent)
      : holds (do Watch.lift (Run.tell event); return completion) :=
    conduct.bind (conduct.quiet (scopes_tell event)) fun _ => conduct.pure _
  have printing (text : String)
      : holds (do Watch.lift (Run.print text); return Completion.normal) :=
    conduct.bind (conduct.quiet fun _ => rfl) fun _ => conduct.pure _
  cases stmt with
  | expression value =>
      exact conduct.bind (obeys.evaluate (met.child 0) proper) fun _ => conduct.pure _
  | print value =>
      exact conduct.bind (obeys.evaluate (met.child 0) proper) fun value => printing _
  | printLine value =>
      cases value with
      | none => exact printing _
      | some value =>
          exact conduct.bind (obeys.evaluate (met.child 0) proper) fun value => printing _
  | «variable» name initial =>
      obtain ⟨isName, properInitial⟩ := proper
      have initialized := obeys.evaluateOptional conduct (met.declaring isName) properInitial
      refine conduct.bind initialized fun value => ?_
      exact conduct.bind (conduct.complete isName value) fun _ => quietly _ _
  | block statements =>
      refine conduct.bind (conduct.quiet fun _ => rfl) fun current => ?_
      refine conduct.bind (conduct.openScope _ _) fun scope => ?_
      exact conduct.within scope (obeys.executeAll conduct met.block proper)
  | branch condition thenBranch elseBranch =>
      obtain ⟨tested, ⟨first, -⟩, second⟩ := proper
      have behind := met.kept (bindExpr_kept condition site.scopes tested)
      refine conduct.bind (obeys.evaluate (met.child 0) tested) fun value => ?_
      refine conduct.bind (conduct.quiet (scopes_tell _)) fun _ => ?_
      split
      · exact obeys.execute (behind.child 1) first
      · cases elseBranch with
        | none => exact conduct.pure _
        | some elseBranch => exact obeys.execute ((behind.behind first).child 2) second.1
  | loop condition body =>
      obtain ⟨tested, properBody, -⟩ := proper
      have behind := met.kept (bindExpr_kept condition site.scopes tested)
      exact repeatWhile conduct (obeys.evaluate (met.child 0) tested)
        (obeys.execute (behind.looping.child 1) properBody) rounds
  | breakLoop => exact conduct.pure _
  | returnValue keyword value =>
      have checked := met.kept (checkReturn_kept keyword site.scopes)
      exact conduct.bind (obeys.evaluateOptional conduct checked proper) fun _ => conduct.pure _
  | function name function =>
      obtain ⟨isName, properFunction⟩ := proper
      refine conduct.bind (conduct.quiet fun _ => rfl) fun scope => ?_
      refine conduct.bind (conduct.newFunction ((met.introducing isName).child 0) properFunction
        scope _ _) fun closure => ?_
      exact conduct.bind (conduct.define isName _) fun _ => quietly _ _
  | «class» name clause methods =>
      obtain ⟨isName, -, properMethods⟩ := proper
      exact conduct.bind (conduct.declareClass met isName properMethods) fun _ => conduct.pure _

-----
-- All levels and whole programs

/-- For every limit on open calls the parts obey the conduct, by induction on it. -/
theorem ofNesting (conduct : Conduct holds) (rounds nesting : Nat)
    : (Watcher.ofNesting rounds nesting).Obeys holds := by
  induction nesting with
  | zero => exact exhausted conduct
  | succ nesting ih =>
      exact {
        evaluate := ih.evaluateStep conduct
        execute := ih.executeStep conduct rounds
      }

/-- A program obeys the conduct. -/
theorem executeProgram (conduct : Conduct holds) (obeys : parts.Obeys holds)
    {stmts : List SourceStmt} {site : Site} (met : site.Sound) (proper : ProperStmts stmts)
    : holds (parts.executeProgram site stmts) := by
  induction stmts generalizing site with
  | nil => exact conduct.pure _
  | cons first rest ih =>
      obtain ⟨properFirst, properRest⟩ := proper
      refine conduct.bind (obeys.execute (met.child 0) properFirst) fun _ => ?_
      exact ih ((met.behind properFirst).child 1) properRest

end Watcher.Obeys

end Lox.Scoping
