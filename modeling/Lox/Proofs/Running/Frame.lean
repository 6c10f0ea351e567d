import Lox.Proofs.Running.Confinement

/-! What a call leaves alone.

A call can change only what its callee, its arguments and the global scope lead to, and what it
creates itself. Every activation of a function has a scope of its own.
-/

namespace Lox

-----
-- Trees without a condition

section

variable {ρ : Type}

mutual
/-- Everything in an expression is allowed if all is, by induction on the tree. -/
theorem Expr.every_true : ∀ expr : Expr ρ, expr.Every fun _ => True
  | .literal _ | .variable _ | .this _ | .super _ _ => trivial
  | .grouping inner => inner.every_true
  | .unary _ operand => operand.every_true
  | .binary left _ right => ⟨left.every_true, right.every_true⟩
  | .logical left _ right => ⟨left.every_true, right.every_true⟩
  | .conditional condition thenCase elseCase =>
      ⟨condition.every_true, thenCase.every_true, elseCase.every_true⟩
  | .assign _ value => value.every_true
  | .call callee _ arguments => ⟨callee.every_true, everyExprs_true arguments⟩
  | .get object _ => object.every_true
  | .set object _ value => ⟨object.every_true, value.every_true⟩
  | .function function => function.every_true

/-- Everything in expressions is allowed if all is. -/
theorem everyExprs_true : ∀ exprs : List (Expr ρ), EveryExprs (fun _ => True) exprs
  | [] => trivial
  | first :: rest => ⟨first.every_true, everyExprs_true rest⟩

/-- Everything in an optional expression is allowed if all is. -/
theorem everyOptional_true : ∀ value : Option (Expr ρ), EveryOptional (fun _ => True) value
  | none => trivial
  | some value => value.every_true

/-- Everything in a statement is allowed if all is, by induction on the tree. -/
theorem Stmt.every_true : ∀ stmt : Stmt ρ, stmt.Every fun _ => True
  | .expression value => value.every_true
  | .print value => value.every_true
  | .printLine value => everyOptional_true value
  | .variable _ initial => everyOptional_true initial
  | .block statements => everyStmts_true statements
  | .branch condition thenBranch elseBranch =>
      ⟨condition.every_true, thenBranch.every_true, everyElse_true elseBranch⟩
  | .loop condition body => ⟨condition.every_true, body.every_true⟩
  | .breakLoop _ => trivial
  | .returnValue _ value => everyOptional_true value
  | .function _ function => function.every_true
  | .class _ _ methods => everyMethods_true methods

/-- Everything in statements is allowed if all is. -/
theorem everyStmts_true : ∀ stmts : List (Stmt ρ), EveryStmts (fun _ => True) stmts
  | [] => trivial
  | first :: rest => ⟨first.every_true, everyStmts_true rest⟩

/-- Everything in a branch that may be missing is allowed if all is. -/
theorem everyElse_true : ∀ branch : Option (Stmt ρ), EveryElse (fun _ => True) branch
  | none => trivial
  | some branch => branch.every_true

/-- Everything in a function is allowed if all is. -/
theorem Lambda.every_true : ∀ function : Lambda ρ, function.Every fun _ => True
  | .mk _ body => ⟨trivial, everyStmts_true body⟩

/-- Everything in methods is allowed if all is. -/
theorem everyMethods_true : ∀ methods : List (Method ρ), EveryMethods (fun _ => True) methods
  | [] => trivial
  | .mk _ function :: rest => ⟨function.every_true, everyMethods_true rest⟩
end

end

-----
-- Reachability

namespace Running

/-- Where a machine keeps something. -/
inductive Place where
  | scope (place : Nat)
  | object (address : Nat)

end Running

open Running (Place Region)

/-- A class leads to the scopes of its methods and of those that it inherits. -/
def Lineage.Mentions (lineage : Lineage) (place : Place) : Prop :=
  ∃ body ∈ lineage.head :: lineage.ancestors,
    ∃ name method, body.methods.get? name = some method ∧ place = .scope method.scope

def Value.Mentions : Value → Place → Prop
  | .literal _, _ | .native _, _ => False
  | .closure function, place => place = .scope function.scope
  | .class lineage, place => lineage.Mentions place
  | .object address lineage, place => place = .object address ∨ lineage.Mentions place

/-- Some of the values, or the global scope, lead to the place. -/
inductive Machine.Reaches (machine : Machine) (roots : List Value) : Place → Prop
  | root {value : Value} {place : Place} (listed : value ∈ roots)
    (mentioned : value.Mentions place)
    : Reaches machine roots place
  | global : Reaches machine roots (.scope globalScope)
  | parent {scope parent : Nat} (reached : Reaches machine roots (.scope scope))
    (above : machine.scopes.parent? scope = some parent)
    : Reaches machine roots (.scope parent)
  | cell {scope : Nat} {name : String} {value : Value} {place : Place}
    (reached : Reaches machine roots (.scope scope))
    (found : machine.scopes.cell? scope name = some value) (mentioned : value.Mentions place)
    : Reaches machine roots place
  | field {address : Nat} {fields : Table Value} {name : String} {value : Value} {place : Place}
    (reached : Reaches machine roots (.object address))
    (there : machine.objects[address]? = some fields)
    (found : fields.get? name = some value) (mentioned : value.Mentions place)
    : Reaches machine roots place

/-- What was there before, and cannot be reached from the values or the global scope, is the same
afterwards. The scope that the machine stands in is the same in any case. -/
structure Machine.KeepsBeyond (roots : List Value) (before after : Machine) : Prop where
  current : after.current = before.current
  scope
    : ∀ scope < before.scopes.size,
        ¬before.Reaches roots (.scope scope)
        → after.scopes.scopes[scope]? = before.scopes.scopes[scope]?
  object
    : ∀ address < before.objects.size,
        ¬before.Reaches roots (.object address)
        → after.objects[address]? = before.objects[address]?

namespace Running

/-- All that can be reached, and all that is still to be created. -/
def Region.reached (machine : Machine) (roots : List Value) : Region where
  scope scope := machine.Reaches roots (.scope scope) ∨ machine.scopes.size ≤ scope
  address address := machine.Reaches roots (.object address) ∨ machine.objects.size ≤ address
  function _ := True
  outermost _ := True

section

variable {machine : Machine} {roots : List Value}

/-- A class that only mentions what is reached is in the region, by induction on its ancestors. -/
theorem Region.reached_lineage {lineage : Lineage}
    (mentioned : ∀ place, lineage.Mentions place → machine.Reaches roots place)
    : lineage.In (.reached machine roots) := by
  intro body listed name method found
  exact ⟨.inl (mentioned _ ⟨body, listed, name, method, found, rfl⟩), method.function.every_true⟩

/-- A value lies in what is reached if everything that it mentions does. -/
theorem Region.reached_value {value : Value}
    (mentioned : ∀ place, value.Mentions place → machine.Reaches roots place)
    : value.In (.reached machine roots) := by
  cases value with
  | literal value => trivial
  | native function => trivial
  | closure function => exact ⟨.inl (mentioned _ rfl), function.function.every_true⟩
  | «class» lineage => exact reached_lineage mentioned
  | object address lineage =>
      exact ⟨.inl (mentioned _ (.inl rfl)), reached_lineage fun _ => mentioned _ ∘ .inr⟩

/-- What the roots reach is closed, since a path that goes on is a path. -/
theorem Region.reached_closed
    : (Region.reached machine roots).Closed machine.scopes machine.objects where
  global := .inl .global
  newScopes _ := .inr
  newAddresses _ := .inr
  parents scope parent inside above := by
    rcases inside with reached | new
    · exact .inl (.parent reached above)
    · exact absurd (Forest.lt_size_of_parent? above) (Nat.not_lt_of_le new)
  cells scope name value inside found := by
    rcases inside with reached | new
    · exact reached_value fun _ => .cell reached found
    · exact absurd (Forest.lt_size_of_cell? found) (Nat.not_lt_of_le new)
  fields address fields name value inside there found := by
    rcases inside with reached | new
    · exact reached_value fun _ => .field reached there found
    · exact absurd (Array.getElem?_eq_some_iff.1 there).1 (Nat.not_lt_of_le new)

/-- A call that is made at any machine keeps what lies beyond its callee and its arguments. -/
theorem Moment.call_keepsBeyond (rounds : Nat) {moment : Moment} {callee : Value}
    {arguments : List Value} {paren : Token} (made : moment.task = .call callee arguments paren)
    : moment.machine.KeepsBeyond (callee :: arguments) (moment.after rounds) := by
  obtain ⟨nesting, task, machine⟩ := moment
  obtain rfl : task = _ := made
  have root value (listed : value ∈ callee :: arguments)
      : value.In (.reached machine (callee :: arguments)) :=
    Region.reached_value fun _ => .root listed
  have inside
      : Moment.Inside (.reached machine (callee :: arguments))
          { nesting, task := .call callee arguments paren, machine } :=
    ⟨Region.reached_closed, root _ List.mem_cons_self, fun _ listed =>
      root _ (List.mem_cons_of_mem _ listed)⟩
  have spares := (inside.outcome rounds).spares
  exact {
    current := spares.current
    scope := fun scope old unreached =>
      spares.scope scope fun within => within.elim unreached (Nat.not_le_of_lt old)
    object := fun address old unreached =>
      spares.object address fun within => within.elim unreached (Nat.not_le_of_lt old)
  }

end

-----
-- Activations apart

namespace Moment

/-- The scope that the moment opens. -/
def opened? (moment : Moment) : Option Nat :=
  match moment.task with
  | .enter .. => some moment.machine.scopes.size
  | _ => none

end Moment

/-- Every value lies in the whole machine. -/
theorem Region.whole_value (value : Value) : value.In (.whole (fun _ => True) fun _ => True) := by
  have ofClosure (closure : Closure) : closure.In (.whole (fun _ => True) fun _ => True) :=
    ⟨trivial, closure.function.every_true⟩
  have ofLineage (lineage : Lineage) : lineage.In (.whole (fun _ => True) fun _ => True) :=
    fun _ _ _ method _ => ofClosure method
  cases value with
  | literal value => trivial
  | native function => trivial
  | closure function => exact ofClosure function
  | «class» lineage => exact ofLineage lineage
  | object address lineage => exact ⟨trivial, ofLineage lineage⟩

/-- Every moment lies in the whole machine. -/
theorem Moment.inside_whole (moment : Moment) : moment.Inside (.whole (fun _ => True) fun _ => True) := by
  obtain ⟨nesting, task, machine⟩ := moment
  have closed : (Region.whole (fun _ => True) fun _ => True).Closed machine.scopes machine.objects :=
    {
      global := trivial,
      newScopes := fun _ _ => trivial,
      newAddresses := fun _ _ => trivial,
      parents := fun _ _ _ _ => trivial,
      cells := fun _ _ value _ _ => Region.whole_value value,
      fields := fun _ _ _ value _ _ _ => Region.whole_value value
    }
  have values (arguments : List Value)
      : ∀ value ∈ arguments, value.In (.whole (fun _ => True) fun _ => True) :=
    fun value _ => Region.whole_value value
  have callables (callee : Callable) : callee.In (.whole (fun _ => True) fun _ => True) := by
    cases callee with
    | closure function => exact Region.whole_value (.closure function)
    | «class» lineage => exact Region.whole_value (.class lineage)
    | native function => trivial
  refine ⟨closed, ?_⟩
  cases task with
  | evaluate expr => exact ⟨trivial, expr.every_true⟩
  | evaluateAll exprs => exact ⟨trivial, everyExprs_true exprs⟩
  | execute stmt => exact ⟨trivial, stmt.every_true⟩
  | executeAll stmts => exact ⟨trivial, everyStmts_true stmts⟩
  | repeatWhile condition body rounds => exact ⟨trivial, condition.every_true, body.every_true⟩
  | enter parent bindings stmts =>
      exact ⟨trivial, fun binding _ => Region.whole_value binding.2, everyStmts_true stmts⟩
  | call callee arguments paren => exact ⟨Region.whole_value callee, values arguments⟩
  | limited paren callee arguments => exact ⟨callables callee, values arguments⟩
  | apply callee arguments => exact ⟨callables callee, values arguments⟩
  | invoke closure arguments => exact ⟨Region.whole_value (.closure closure), values arguments⟩
  | program stmts => exact ⟨trivial, everyStmts_true stmts, fun _ _ => trivial⟩

section

variable {moment inner inner' : Moment} {rounds scope scope' : Nat}

/-- A moment opens at most the scope that comes next. -/
theorem Moment.eq_size_of_opened? (opens : moment.opened? = some scope)
    : scope = moment.machine.scopes.size := by
  unfold opened? at opens
  split at opens
  · exact (Option.some.inj opens).symm
  · cases opens

/-- A moment that opens a scope has a single part, which finds the scope there. -/
theorem Moment.parts_of_opened? (rounds : Nat) (opens : moment.opened? = some scope)
    : ∃ part, moment.parts rounds = [part] ∧ scope < part.machine.scopes.size := by
  obtain rfl := eq_size_of_opened? opens
  unfold opened? at opens
  split at opens
  · next parent bindings stmts entering =>
      refine ⟨_, parts_enter rounds entering, ?_⟩
      change _ < (moment.machine.scopes.scopes.push _).size
      rw [Array.size_push]
      exact Nat.lt_succ_self _
  · cases opens

/-- The scope that a moment opens is there for everything inside of the moment. -/
theorem Moment.opened_lt_size (opens : moment.opened? = some scope) {index : Nat}
    {path : List Nat} (found : moment.at? rounds (index :: path) = some inner)
    : scope < inner.machine.scopes.size := by
  obtain ⟨part, single, there⟩ := parts_of_opened? rounds opens
  obtain ⟨first, at', beyond⟩ := Option.bind_eq_some_iff.1 found
  have listed := List.mem_of_getElem? at'
  rw [single] at listed
  obtain rfl := List.mem_singleton.1 listed
  exact Nat.lt_of_lt_of_le there (first.inside_whole.at? beyond).2.1

/-- The scope that a moment opens is there when the moment is over. -/
theorem Moment.opened_lt_after (rounds : Nat) (opens : moment.opened? = some scope)
    : scope < (moment.after rounds).scopes.size := by
  obtain ⟨part, single, there⟩ := parts_of_opened? rounds opens
  have spaced := moment.inside_whole.parts rounds
  rw [single] at spaced
  have more := (part.inside_whole.outcome rounds).spares.moreScopes
  exact Nat.lt_of_lt_of_le there (Nat.le_trans more (spaced.ends part List.mem_cons_self))

/-- What an earlier part opens was there before anything that a later part opens. -/
theorem Moment.opened_lt_opened {index index' : Nat} {path path' : List Nat}
    (found : moment.at? rounds (index :: path) = some inner)
    (found' : moment.at? rounds (index' :: path') = some inner')
    (opens : inner.opened? = some scope) (opens' : inner'.opened? = some scope')
    (earlier : index < index')
    : scope < scope' := by
  obtain ⟨part, there, beyond⟩ := Option.bind_eq_some_iff.1 found
  obtain ⟨part', there', beyond'⟩ := Option.bind_eq_some_iff.1 found'
  obtain ⟨isPart, rfl⟩ := List.getElem?_eq_some_iff.1 there
  obtain ⟨isPart', rfl⟩ := List.getElem?_eq_some_iff.1 there'
  have spaced := moment.inside_whole.parts rounds
  obtain rfl := eq_size_of_opened? opens'
  calc
    scope < (inner.after rounds).scopes.size := opened_lt_after rounds opens
    _ ≤ _ := (inside_whole _).at? beyond |>.2.2
    _ ≤ _ := List.pairwise_iff_getElem.1 spaced.apart index index' isPart isPart' earlier
    _ ≤ _ := (inside_whole _).at? beyond' |>.2.1

/-- Moments at different places of a run open different scopes. -/
theorem Moment.opened_apart {path path' : List Nat} (found : moment.at? rounds path = some inner)
    (found' : moment.at? rounds path' = some inner') (opens : inner.opened? = some scope)
    (opens' : inner'.opened? = some scope') (apart : path ≠ path')
    : scope ≠ scope' := by
  induction path generalizing moment path' with
  | nil =>
      obtain rfl := Option.some.inj found
      cases path' with
      | nil => exact absurd rfl apart
      | cons index path' =>
          rw [eq_size_of_opened? opens']
          exact Nat.ne_of_lt (opened_lt_size opens found')
  | cons index path ih =>
      cases path' with
      | nil =>
          obtain rfl := Option.some.inj found'
          rw [eq_size_of_opened? opens]
          exact Nat.ne_of_gt (opened_lt_size opens' found)
      | cons index' path' =>
          rcases Nat.lt_trichotomy index index' with before | rfl | behind
          · exact Nat.ne_of_lt (opened_lt_opened found found' opens opens' before)
          · obtain ⟨part, there, beyond⟩ := Option.bind_eq_some_iff.1 found
            obtain ⟨part', there', beyond'⟩ := Option.bind_eq_some_iff.1 found'
            obtain rfl := Option.some.inj (there.symm.trans there')
            exact ih beyond beyond' fun same => apart (same ▸ rfl)
          · exact Nat.ne_of_gt (opened_lt_opened found' found opens' opens behind)

end

-----
-- Runs of programs

/-- Wherever a call is made in the run of a program, and however it ends, it changes nothing that
was there before and that neither its callee nor its arguments nor the global scope lead to. An
activation of a function runs its body in a scope of its own inside of the one that the function
was created in, with nothing in it but the parameters. No two activations share their scope, and
none shares it with a block. -/
theorem calls_keep_frame (limits : Limits) (program : Program) (machine : Machine)
    : (∀ path moment callee arguments paren,
        (Moment.start limits program.statements machine).at? limits.rounds path = some moment
        → moment.task = .call callee arguments paren
        → moment.machine.KeepsBeyond (callee :: arguments) (moment.after limits.rounds))
      ∧ (∀ path moment closure arguments,
        (Moment.start limits program.statements machine).at? limits.rounds path = some moment
        → moment.task = .invoke closure arguments
        → (Moment.start limits program.statements machine).at? limits.rounds (path ++ [0])
            = some (moment.entering closure arguments)
          ∧ (Moment.start limits program.statements machine).at? limits.rounds (path ++ [0, 0])
            = some (moment.body closure arguments)
          ∧ (moment.entering closure arguments).opened?
            = some (moment.body closure arguments).machine.current)
      ∧ ∀ path path' moment moment' scope scope',
          (Moment.start limits program.statements machine).at? limits.rounds path = some moment
          → (Moment.start limits program.statements machine).at? limits.rounds path' = some moment'
          → moment.opened? = some scope
          → moment'.opened? = some scope'
          → path ≠ path'
          → scope ≠ scope' := by
  refine ⟨?_, ?_, ?_⟩
  · intro path moment callee arguments paren reached made
    exact Moment.call_keepsBeyond limits.rounds made
  · intro path moment closure arguments reached invoking
    refine ⟨?_, ?_, rfl⟩
    · rw [Moment.at?_append, reached]
      change (moment.parts limits.rounds)[0]?.bind _ = _
      rw [Moment.parts_invoke limits.rounds invoking]
      rfl
    · rw [Moment.at?_append, reached]
      exact Moment.at?_body limits.rounds invoking
  · intro path path' moment moment' scope scope' reached reached' opens opens' apart
    exact Moment.opened_apart reached reached' opens opens' apart

/-- The function is called twice from a block, whose scope is left alone by both calls. -/
example
    : let program :=
        Program.ofSource false []
          "fun f(x) \x7b return x; \x7d \x7b var kept = true; f(f(kept)); \x7d" 20
      let start :=
        Moment.start { nesting := 20, rounds := 1 } program.statements (.start 0 fun _ => 0)
      let call := [1, 0, 0, 0, 1, 0, 0]
      (start.at? 1 (call ++ [1, 0, 2, 0, 0, 0, 0])).bind Moment.opened? = some 2
      ∧ (start.at? 1 (call ++ [2, 0, 0, 0, 0])).bind Moment.opened? = some 3 := by
  decide +kernel

end Running

end Lox
