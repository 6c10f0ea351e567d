import Lox.Proofs.Objects.Actions

/-! Whatever is asked for in the course of a run is known to the world it is asked for in. -/

namespace Lox

open Running (Task Script)

/-- A function has the same parameters without its distances. -/
theorem Lambda.parameters_unbound {ρ : Type} (function : Lambda ρ)
    : function.unbound.parameters = function.parameters := by
  cases function
  rfl

/-- The body of a function is bare where the function is. -/
theorem Lambda.body_unbound {ρ : Type} (function : Lambda ρ)
    : function.unbound.body = unboundStmts function.body := by
  cases function
  rfl

-----
-- Tasks

def Completion.Known (world : World) : Completion → Prop
  | .normal | .broke => True
  | .returned value => value.Known world

/-- A completion that is known stays known. -/
theorem World.Extends.completion {before after : World} (more : before.Extends after)
    {completion : Completion} (known : completion.Known before)
    : completion.Known after := by
  cases completion with
  | normal | broke => trivial
  | returned value => exact more.value known

/-- The code is proper, the values are known, and a scope that is entered has one around it.
Arguments that are passed on to a function are as
many as it has parameters. -/
def Running.Task.Known (world : World) : Task → Prop
  | .evaluate expr => expr.unbound.Proper
  | .evaluateAll exprs => ProperExprs (unboundExprs exprs)
  | .execute stmt => stmt.unbound.Proper
  | .executeAll stmts | .program stmts => ProperStmts (unboundStmts stmts)
  | .repeatWhile condition body _ => condition.unbound.Proper ∧ body.unbound.Proper
  | .enter parent bindings stmts =>
      parent < world.machine.scopes.size
      ∧ (∀ binding ∈ bindings, binding.2.Known world ∧ binding.1.lexeme ≠ "this")
      ∧ ProperStmts (unboundStmts stmts)
  | .call callee arguments _ => callee.Known world ∧ ∀ value ∈ arguments, value.Known world
  | .limited _ callee arguments | .apply callee arguments =>
      callee.Known world
      ∧ (∀ value ∈ arguments, value.Known world)
      ∧ arguments.length = callee.arity
  | .invoke closure arguments =>
      closure.Known world
      ∧ (∀ value ∈ arguments, value.Known world)
      ∧ arguments.length = closure.arity

/-- What the task may hand back. -/
def Running.Task.Yields (world : World) : (task : Task) → task.Answer → Prop
  | .evaluate _, value | .call .., value | .limited .., value | .apply .., value
  | .invoke .., value => value.Known world
  | .evaluateAll _, values => ∀ value ∈ values, value.Known world
  | .execute _, completion | .executeAll _, completion | .repeatWhile .., completion
  | .enter .., completion => completion.Known world
  | .program _, _ => True

/-- What can be called of a known value is known. -/
theorem Value.callable?_known {world : World} {value : Value} {callable : Callable}
    (known : value.Known world) (found : value.callable? = some callable)
    : callable.Known world := by
  cases value with
  | literal | object => cases found
  | closure | «class» | native => exact Option.some.inj found ▸ known

namespace World

variable {α β : Type} {post : α → World → Prop}

-----
-- Scripts

/-- In the world, the script does nothing by itself that would make it unsound, asks for what is
known only, and ends as told. -/
def Fits (post : α → World → Prop) : World → Script α → Prop
  | world, .done value => post value world
  | world, .act action next =>
      world.Keeps action fun value after => after.Fits post (next value)
  | world, .ask task next =>
      task.Known world
      ∧ ∀ answer after,
          world.Extends after
          → after.Sound
          → task.Yields after answer
          → after.Fits post (next answer)

namespace Fits

variable {world : World}

/-- A value alone fits what holds of it. -/
theorem done {value : α} (holds : post value world) : world.Fits post (pure value) :=
  holds

/-- An action that keeps the world fits. -/
theorem does {action : Run α} (keeps : world.Keeps action post)
    : world.Fits post (Script.does action) :=
  keeps

/-- A task about known values fits what its answers are known for. -/
theorem asks {task : Task} {post : task.Answer → World → Prop} (known : task.Known world)
    (implies : ∀ answer after, task.Yields after answer → post answer after)
    : world.Fits post (Script.asks task) :=
  ⟨known, fun answer after _ _ yields => implies answer after yields⟩

/-- An action in front of a script fits if what follows does in every world that may come. -/
theorem doesThen {action : Run β} {next : β → Script α} {post' : β → World → Prop}
    (keeps : world.Keeps action post')
    (rest
      : ∀ value after,
          world.Extends after → after.Sound → post' value after → after.Fits post (next value))
    : world.Fits post (Script.does action >>= next) :=
  keeps.weaken fun value after grows => rest value after grows.toExtends

/-- A task in front of a script fits if what follows does for every answer. -/
theorem asksThen {task : Task} {next : task.Answer → Script α} (known : task.Known world)
    (rest
      : ∀ answer after,
          world.Extends after
          → after.Sound
          → task.Yields after answer
          → after.Fits post (next answer))
    : world.Fits post (Script.asks task >>= next) :=
  ⟨known, rest⟩

end Fits

variable {world : World}

/-- Expressions in a row yield known values, by induction on them. -/
theorem fits_evaluateAll {exprs : List BoundExpr} (known : ProperExprs (unboundExprs exprs))
    : world.Fits (fun values after => ∀ value ∈ values, value.Known after)
        (Running.evaluateAllScript exprs) := by
  cases exprs with
  | nil => exact .done fun _ none => by cases none
  | cons first rest =>
      refine .asksThen known.1 fun value between _ _ first => ?_
      refine .asksThen known.2 fun values after more _ rest => .done ?_
      exact List.forall_mem_cons.2 ⟨more.value first, rest⟩

/-- Statements in a row yield a known completion, by induction on them. -/
theorem fits_executeAll {stmts : List BoundStmt} (known : ProperStmts (unboundStmts stmts))
    : world.Fits (fun completion after => completion.Known after)
        (Running.executeAllScript stmts) := by
  cases stmts with
  | nil => exact .done trivial
  | cons first rest =>
      refine .asksThen known.1 fun completion between _ _ ending => ?_
      cases completion with
      | normal => exact .asks known.2 fun _ _ => id
      | broke => exact .done trivial
      | returned value => exact .done ending

/-- A program fits whatever is known at its start. -/
theorem fits_program {stmts : List BoundStmt} (known : ProperStmts (unboundStmts stmts))
    : world.Fits (fun _ _ => True) (Running.programScript stmts) := by
  cases stmts with
  | nil => exact .done trivial
  | cons first rest =>
      exact .asksThen known.1 fun _ _ _ _ _ => .asks known.2 fun _ _ => id

/-- A loop yields a known completion, by induction on the rounds that are left. -/
theorem fits_repeatWhile (sound : world.Sound) {condition : BoundExpr} {body : BoundStmt}
    (known : condition.unbound.Proper ∧ body.unbound.Proper) (rounds : Nat)
    : world.Fits (fun completion after => completion.Known after)
        (Running.repeatWhileScript condition body rounds) := by
  cases rounds with
  | zero => exact .does (.throw sound _)
  | succ rounds =>
      refine .asksThen known.1 fun test between _ _ _ => ?_
      split
      · refine .asksThen known.2 fun completion after _ _ ending => ?_
        cases completion with
        | normal => exact .asks known fun _ _ => id
        | broke => exact .done trivial
        | returned value => exact .done ending
      · exact .done trivial

/-- An initializer hands back its receiver. -/
theorem fits_invoke {closure : Closure} {arguments : List Value} (known : closure.Known world)
    (values : ∀ value ∈ arguments, value.Known world)
    : world.Fits (fun value after => value.Known after)
        (Running.invokeScript closure arguments) := by
  have bindings : ∀ binding ∈ closure.function.parameters.zip arguments,
      binding.2.Known world ∧ binding.1.lexeme ≠ "this" := by
    intro binding member
    obtain ⟨parameter, argument⟩ := List.of_mem_zip member
    have parameters := known.proper.parameters
    rw [Lambda.parameters_unbound] at parameters
    exact ⟨values _ argument, (parameters _ parameter).2.1⟩
  have body := known.proper.body
  rw [Lambda.body_unbound] at body
  refine .asksThen ⟨known.inside, bindings, body⟩ fun completion after _ sound ending => ?_
  split
  · exact .does ((keeps_receiverIn sound closure.scope).weaken fun _ _ _ _ received => received.1)
  · cases completion with
    | returned value => exact .done ending
    | normal | broke => exact .done trivial

/-- An initializer that is inherited takes as many arguments as the class does. -/
theorem fits_construct (sound : world.Sound) {lineage : Lineage} {arguments : List Value}
    (known : lineage.Known world) (values : ∀ value ∈ arguments, value.Known world)
    (counted : arguments.length = lineage.arity)
    : world.Fits (fun value after => value.Known after)
        (Running.constructScript lineage arguments) := by
  refine .doesThen (keeps_newObject sound known) fun object between more sound created => ?_
  cases found : lineage.initializer? with
  | none => exact .done created.1
  | some initializer =>
      have isMethod := sound.method (more.lineage known) found
      have isObject : object.IsObject := ⟨_, _, created.2⟩
      refine .doesThen (keeps_bindMethod sound isMethod created.1 isObject) ?_
      intro bound between' more' sound initialized
      have arity : arguments.length = bound.arity := by
        unfold Closure.arity
        rw [initialized.2, counted]
        unfold Lineage.arity
        rw [found]
        rfl
      refine .asksThen ⟨initialized.1, (more.trans more').values values, arity⟩ ?_
      exact fun _ after last _ _ => .done ((more'.trans last).value created.1)

/-- Applying a known function or class to known values yields a known value. -/
theorem fits_apply (sound : world.Sound) {callee : Callable} {arguments : List Value}
    (known : callee.Known world) (values : ∀ value ∈ arguments, value.Known world)
    (counted : arguments.length = callee.arity)
    : world.Fits (fun value after => value.Known after)
        (Running.applyScript arguments callee) := by
  cases callee with
  | closure function => exact .asks ⟨known, values, counted⟩ fun _ _ => id
  | «class» lineage => exact fits_construct sound known values counted
  | native function =>
      cases function
      exact .does (keeps_readClock sound)

/-- Arguments are counted before anything is made of them. -/
theorem fits_call (sound : world.Sound) {callee : Value} {arguments : List Value}
    (known : callee.Known world) (values : ∀ value ∈ arguments, value.Known world)
    (paren : Token)
    : world.Fits (fun value after => value.Known after)
        (Running.callScript callee arguments paren) := by
  unfold Running.callScript
  cases found : callee.callable? with
  | none => exact .does (keeps_failAt sound paren _)
  | some callable =>
      simp only
      split
      · next counted =>
          refine .doesThen (keeps_tell sound _) fun _ after more sound _ => ?_
          have callable := more.callable (Value.callable?_known known found)
          exact .asks ⟨callable, more.values values, counted⟩ fun _ _ => id
      · exact .does (keeps_failAt sound paren _)

/-- The value is evaluated only if it can be assigned to a field of the object. -/
def setValue (value : BoundExpr) : Value → Script (Option (Nat × Value))
  | .object address _ => do
      let value ← Script.asks (.evaluate value)
      return some (address, value)
  | _ => return none

/-- The parts of an assignment to a field: the address of the instance, if it is one, and the
value. -/
def setParts (object value : BoundExpr) : Script (Option (Nat × Value)) := do
  let object ← Script.asks (.evaluate object)
  setValue value object

/-- The object and the value of an assignment to a field are known. -/
theorem fits_setParts {object value : BoundExpr} (known : object.unbound.Proper)
    (known' : value.unbound.Proper)
    : world.Fits
        (fun assigned after =>
          ∀ address value,
            assigned = some (address, value)
            → address < after.machine.objects.size ∧ value.Known after)
        (setParts object value) := by
  refine .asksThen known fun object between _ sound known => ?_
  cases object with
  | object address lineage =>
      refine .asksThen known' fun value after more _ known' => .done ?_
      intro address' value' same
      cases same
      exact ⟨Nat.lt_of_lt_of_le (sound.instances _ _ known).1 more.objects, known'⟩
  | _ => exact .done fun _ _ none => by cases none

/-- An expression yields a known value, by cases on it; assignments to fields are told apart. -/
theorem fits_evaluate (sound : world.Sound) {expr : BoundExpr} (known : expr.unbound.Proper)
    (other : ∀ object name value, expr ≠ .set object name value)
    : world.Fits (fun value after => value.Known after) (Running.evaluateScript expr) := by
  cases expr with
  | literal value => exact .done trivial
  | grouping inner => exact .asks known fun _ _ => id
  | unary operator operand =>
      refine .asksThen known fun value after _ sound _ => .does ?_
      exact keeps_ofExcept sound fun _ => applyUnary_known operator value
  | binary left operator right =>
      refine .asksThen known.1 fun left between _ _ _ => ?_
      refine .asksThen known.2 fun right after _ sound known => .does ?_
      exact keeps_ofExcept sound fun _ => applyBinary_known operator left known
  | logical left operator right =>
      refine .asksThen known.1 fun value after _ _ decided => ?_
      split
      · exact .done decided
      · exact .asks known.2 fun _ _ => id
  | conditional condition thenCase elseCase =>
      refine .asksThen known.1 fun test after _ _ _ => ?_
      split
      · exact .asks known.2.1 fun _ _ => id
      · exact .asks known.2.2 fun _ _ => id
  | «variable» target =>
      exact .does ((keeps_readVariable sound target).weaken fun _ _ _ _ known => known.1)
  | assign target value =>
      refine .asksThen known.2 fun value between _ sound assigned => ?_
      refine .doesThen (keeps_writeVariable sound assigned known.1) fun _ after more _ _ => ?_
      exact .done (more.value assigned)
  | call callee paren arguments =>
      refine .asksThen known.1 fun callee between _ _ called => ?_
      refine .asksThen known.2 fun arguments after more _ values => ?_
      exact .asks ⟨more.value called, values⟩ fun _ _ => id
  | get object name =>
      refine .asksThen known fun object after _ sound known => .does ?_
      exact keeps_readProperty sound known name
  | set object name value => exact absurd rfl (other object name value)
  | this keyword =>
      exact .does ((keeps_readVariable sound keyword).weaken fun _ _ _ _ known => known.1)
  | super keyword method => exact .does (keeps_readSuper sound keyword method)
  | function function =>
      refine .doesThen (keeps_currentScope sound) fun scope between _ sound inside => ?_
      have plain (flag : false = true)
          : ∃ receiver,
              between.machine.scopes.cell? scope "this" = some receiver ∧ receiver.IsObject := by
        cases flag
      refine .doesThen (keeps_newClosure sound known inside none plain) ?_
      intro closure after _ _ created
      exact .done created.1

/-- A statement yields a known completion, by cases on it. -/
theorem fits_execute (sound : world.Sound) {stmt : BoundStmt} (known : stmt.unbound.Proper)
    (rounds : Nat)
    : world.Fits (fun completion after => completion.Known after)
        (Running.executeScript rounds stmt) := by
  cases stmt with
  | expression value => exact .asksThen known fun _ _ _ _ _ => .done trivial
  | print value =>
      refine .asksThen known fun value between _ sound _ => ?_
      exact .doesThen (keeps_print sound _) fun _ _ _ _ _ => .done trivial
  | printLine value =>
      cases value with
      | none => exact .doesThen (keeps_print sound _) fun _ _ _ _ _ => .done trivial
      | some value =>
          refine .asksThen known fun value between _ sound _ => ?_
          exact .doesThen (keeps_print sound _) fun _ _ _ _ _ => .done trivial
  | «variable» name initial =>
      have rest (value : Value) (between : World) (sound : between.Sound)
          (evaluated : value.Known between)
          : between.Fits (fun completion after => completion.Known after) (do
              Script.does (Run.define name value)
              Script.does (Run.tell (.defineVariable name.lexeme value))
              return Completion.normal) := by
        refine .doesThen (keeps_define sound evaluated known.1) fun _ _ _ sound _ => ?_
        exact .doesThen (keeps_tell sound _) fun _ _ _ _ _ => .done trivial
      cases initial with
      | none => exact rest .nil world sound trivial
      | some initial => exact .asksThen known.2 fun value between _ => rest value between
  | block statements =>
      refine .doesThen (keeps_currentScope sound) fun scope between _ _ inside => ?_
      exact .asks ⟨inside, List.forall_mem_nil _, known⟩ fun _ _ => id
  | branch condition thenBranch elseBranch =>
      refine .asksThen known.1 fun test between _ sound _ => ?_
      refine .doesThen (keeps_tell sound _) fun _ after _ _ _ => ?_
      split
      · exact .asks known.2.1.1 fun _ _ => id
      · cases elseBranch with
        | none => exact .done trivial
        | some elseBranch => exact .asks known.2.2.1 fun _ _ => id
  | loop condition body => exact .asks ⟨known.1, known.2.1⟩ fun _ _ => id
  | breakLoop keyword => exact .done trivial
  | returnValue keyword value =>
      cases value with
      | none => exact .done trivial
      | some value => exact .asksThen known fun _ _ _ _ returned => .done returned
  | function name function =>
      refine .doesThen (keeps_currentScope sound) fun scope between _ sound inside => ?_
      have plain (flag : false = true)
          : ∃ receiver,
              between.machine.scopes.cell? scope "this" = some receiver ∧ receiver.IsObject := by
        cases flag
      refine .doesThen (keeps_newClosure sound known.2 inside _ plain) ?_
      intro closure _ _ sound made
      have created : (Value.closure closure).Known _ := made.1
      refine .doesThen (keeps_define sound created known.1) fun _ _ _ sound _ => ?_
      exact .doesThen (keeps_tell sound _) fun _ _ _ _ _ => .done trivial
  | «class» name superclass methods =>
      refine .doesThen (keeps_declareClass sound known.1 superclass known.2.2) ?_
      exact fun _ _ _ _ _ => .done trivial

end World

end Lox
