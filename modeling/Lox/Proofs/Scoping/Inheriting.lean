import Lox.Proofs.Scoping.Conduct
import Lox.Proofs.Scoping.Execution
import Lox.Proofs.Scoping.Noting

/-! Where the superclass comes from that `super` stands for.

A class statement looks its superclass up once and keeps it under `super`, in a scope of its own.
No declaration and no assignment gets at that name, so what the scope holds is what the clause was
evaluated to, however long ago.
-/

namespace Lox.Scoping

open Binding

-----
-- Class statements with a superclass

/-- The execution of a class statement with a superclass clause. -/
structure Inheritance where
  /-- Where the statement stands. -/
  site : Site
  name : Token
  /-- What the clause names. -/
  target : Token
  superclass : Lineage
  /-- The lookup of the superclass. -/
  clause : Lookup

namespace Inheritance

/-- The scope of the program text around the methods, where `super` stands for the superclass. -/
def frame (made : Inheritance) : Frame :=
  { kind := .superclass, place := made.site.place }

/-- Its instance, which is the first scope that is opened behind the lookup of the superclass. -/
def scope (made : Inheritance) : Nat :=
  made.clause.machine.scopes.size

/-- The clause was evaluated to the superclass. -/
structure Made (made : Inheritance) : Prop where
  site : made.clause.site = made.site.inheriting made.name made.target
  use : made.clause.use = .read made.target
  read
    : Run.readVariable (made.clause.site.reference made.clause.use) made.clause.machine
        = .ok (.class made.superclass) made.clause.machine
  found : made.clause.fault = none

end Inheritance

/-- A part of a list is its last entry, or comes before it. -/
theorem split_snoc {α : Type} {front earlier later : List α} {last entry : α}
    (split : front ++ [last] = earlier ++ entry :: later)
    : (earlier = front ∧ entry = last) ∨ ∃ later, front = earlier ++ entry :: later := by
  rcases List.eq_nil_or_concat later with rfl | ⟨later, other, rfl⟩
  · obtain ⟨rfl, here⟩ := List.append_inj' split rfl
    exact .inl ⟨rfl, (List.cons.inj here).1.symm⟩
  · rw [List.concat_eq_append, ← List.cons_append, ← List.append_assoc] at split
    exact .inr ⟨later, (List.append_inj' split rfl).1⟩

-----
-- The book

/-- Every scope of a superclass holds what a class statement put there. -/
def Stems (earlier : List Lookup) (frameOf : Nat → Frame) (scopes : Forest Value) : Prop :=
  ∀ scope value,
    (frameOf scope).kind = .superclass
    → scopes.cell? scope "super" = some value
    → ∃ made : Inheritance,
        made.clause ∈ earlier
        ∧ made.Made
        ∧ made.frame = frameOf scope
        ∧ made.scope = scope
        ∧ value = .class made.superclass

/-- A lookup of a method of a superclass was made on a machine where every superclass stems from a
lookup before it, and went as the machine says. -/
structure Lookup.Stems (lookup : Lookup) (earlier : List Lookup) (keyword method : Token) : Prop where
  site : lookup.site.Sound
  spelled : keyword.lexeme = "super"
  stems : Scoping.Stems earlier lookup.frameOf lookup.machine.scopes
  outcome
    : ∃ before : Watched,
        before.machine = lookup.machine
        ∧ lookup.fault = faultOf (Watch.superMethod (lookup.site.reference lookup.use) method before)

/-- Every superclass that is kept, and every one that was looked up, stems from a class
statement. -/
structure Watched.Anchored (watched : Watched) : Prop where
  origins
    : ∀ id, (watched.originOf id).site.Sound ∧ (watched.originOf id).function.Proper
  stems : Stems watched.lookups watched.frameOf watched.machine.scopes
  lookups
    : ∀ earlier lookup later keyword method,
        watched.lookups = earlier ++ lookup :: later
        → lookup.use = .super keyword method
        → lookup.Stems earlier keyword method

-----
-- Changes to scopes

namespace Stems

variable {earlier : List Lookup} {frameOf : Nat → Frame} {scopes scopes' : Forest Value}

/-- Later lookups do not disturb where a superclass came from. -/
theorem more (stems : Stems earlier frameOf scopes) (later : List Lookup)
    : Stems (earlier ++ later) frameOf scopes := by
  intro scope value kind held
  obtain ⟨made, member, rest⟩ := stems scope value kind held
  exact ⟨made, List.mem_append_left _ member, rest⟩

/-- Other names do not matter, nor do scopes of other kinds. -/
theorem kept (stems : Stems earlier frameOf scopes)
    (same
      : ∀ scope,
          (frameOf scope).kind = .superclass
          → scopes'.cell? scope "super" = scopes.cell? scope "super")
    : Stems earlier frameOf scopes' :=
  fun scope value kind held => stems scope value kind ((same scope kind).symm.trans held)

/-- A scope that has just been opened holds nothing. -/
theorem opened (stems : Stems earlier frameOf scopes) (frame : Frame) (parent : Nat)
    : Stems earlier (setAt frameOf scopes.size frame) (scopes.push (some parent)) := by
  intro scope value kind held
  rw [Forest.cell?_push] at held
  have apart : scope ≠ scopes.size := Nat.ne_of_lt (Forest.lt_size_of_cell? held)
  rw [Watched.setAt_of_ne frameOf frame apart] at kind ⊢
  exact stems scope value kind held

end Stems

/-- The action writes to no scope under the name `super`. -/
def SparesSuper {α : Type} (action : Run α) : Prop :=
  ∀ machine scope,
    (stateOf (action machine)).scopes.cell? scope "super" = machine.scopes.cell? scope "super"

namespace SparesSuper

variable {α β : Type} {action : Run α} {next : α → Run β}

/-- An action that leaves the environments alone touches no `super`. -/
theorem quiet (scopes : ∀ machine, (stateOf (action machine)).scopes = machine.scopes)
    : SparesSuper action :=
  fun machine scope => by rw [scopes]

/-- Two actions in a row touch no `super` if neither does. -/
theorem bind (front : SparesSuper action) (back : ∀ value, SparesSuper (next value))
    : SparesSuper (action >>= next) := by
  intro machine scope
  have first := front machine scope
  cases run : action machine with
  | ok value between =>
      rw [run] at first
      rw [bind_ok run]
      exact (back value between scope).trans first
  | error fault between =>
      rw [run] at first
      rw [bind_error run]
      exact first

/-- Looking at the machine touches no `super` if what follows does not. -/
theorem get {next : Machine → Run β} (back : ∀ machine, SparesSuper (next machine))
    : SparesSuper (MonadState.get >>= next) :=
  fun machine scope => back machine machine scope

/-- Defining another name touches no `super`. -/
theorem defineIn (scope : Nat) {name : String} (other : name ≠ "super") (value : Value)
    : SparesSuper (Run.defineIn scope name value) :=
  fun machine scope' => machine.scopes.cell?_put_of_ne scope value scope' other.symm

/-- Defining a name of the program touches no `super`, since that is a keyword. -/
theorem define {name : Token} (isName : name.IsName) (value : Value)
    : SparesSuper (Run.define name value) :=
  .bind (.quiet fun _ => rfl) fun scope => defineIn scope isName.2.2 value

/-- Assigning to a name of the program touches no `super`. -/
theorem assignFrom (scope : Nat) {name : Token} (isName : name.IsName) (value : Value)
    : SparesSuper (Run.assignFrom scope name value) := by
  refine .get fun machine => ?_
  cases machine.scopes.holder? scope name.lexeme with
  | some holder => exact defineIn holder isName.2.2 value
  | none => exact .quiet (scopes_of_peeks (Running.peeks_failAt _ _))

/-- Writing a variable of the program touches no `super`. -/
theorem writeVariable {target : Reference (Option Nat)} (isName : target.name.IsName)
    (value : Value)
    : SparesSuper (Run.writeVariable target value) := by
  obtain ⟨name, binding⟩ := target
  cases binding with
  | none => exact assignFrom globalScope isName value
  | some distance =>
      refine .get fun machine => .bind (.quiet (scopes_of_peeks (Running.peeks_ofAccess _ _))) ?_
      exact fun scope => defineIn scope isName.2.2 value

end SparesSuper

/-- Parameters are defined in the scope of their function alone. -/
theorem cell?_defineAll (scope : Nat) (pairs : List (Token × Value)) (machine : Machine)
    {other : Nat} (apart : other ≠ scope) (name : String)
    : (stateOf (Evaluator.defineAll scope pairs machine)).scopes.cell? other name
        = machine.scopes.cell? other name := by
  induction pairs generalizing machine with
  | nil => rfl
  | cons pair rest ih =>
      let (parameter, value) := pair
      have defined
          : Run.defineIn scope parameter.lexeme value machine
              = .ok () { machine with
                scopes := machine.scopes.put scope parameter.lexeme value } :=
        rfl
      change (stateOf ((Run.defineIn scope parameter.lexeme value >>= fun _ =>
        Evaluator.defineAll scope rest) machine)).scopes.cell? other name = _
      rw [bind_ok defined, ih]
      change (machine.scopes.put scope parameter.lexeme value).cell? other name = _
      rw [Forest.cell?_put, if_neg fun both => apart both.1]

-----
-- Actions

/-- An action has come to an end. If a lookup went wrong by an error of the program, the action did
so with it. -/
structure Watched.Leads {α : Type} (before : Watched) (outcome : EStateM.Result Fault Watched α)
    : Prop where
  anchored : (stateOf outcome).Anchored
  lookups
    : ∃ lookups,
        (stateOf outcome).lookups = before.lookups ++ lookups
        ∧ ∀ lookup ∈ lookups, ∀ error,
            lookup.fault = some (.runtime error) → faultOf outcome = some (.runtime error)

def Watch.Anchors {α : Type} (action : Watch α) : Prop :=
  ∀ before : Watched, before.Anchored → before.Leads (action before)

namespace Watched

variable {α β : Type} {before : Watched}

/-- A step that makes no lookup leads on from the lookups before it. -/
theorem Leads.still {outcome : EStateM.Result Fault Watched α}
    (anchored : (stateOf outcome).Anchored) (same : (stateOf outcome).lookups = before.lookups)
    : before.Leads outcome :=
  ⟨anchored, [], same.trans (List.append_nil _).symm, fun _ member => nomatch member⟩

/-- Two steps in a row lead on if each does from where it starts. -/
theorem Leads.bind {action : Watch α} {next : α → Watch β} (front : before.Leads (action before))
    (back
      : ∀ value between,
          action before = .ok value between
          → between.Anchored
          → between.Leads (next value between))
    : before.Leads ((action >>= next) before) := by
  obtain ⟨anchored, lookups, made, failing⟩ := front
  cases run : action before with
  | error fault between =>
      rw [bind_error run]
      rw [run] at anchored made failing
      exact ⟨anchored, lookups, made, failing⟩
  | ok value between =>
      rw [run] at anchored made failing
      obtain ⟨anchored, further, more, failing'⟩ := back value between run anchored
      rw [bind_ok run]
      refine ⟨anchored, lookups ++ further, ?_, fun lookup member error failed => ?_⟩
      · rw [more, ← List.append_assoc]
        exact congrArg (· ++ further) made
      · rcases List.mem_append.1 member with member | member
        · cases failing lookup member error failed
        · exact failing' lookup member error failed

/-- Numbers and completed declarations do not matter, nor does the current scope. -/
theorem Anchored.with (anchored : before.Anchored) {after : Watched}
    (origins : ∀ id, (after.originOf id).site.Sound ∧ (after.originOf id).function.Proper)
    (stems : Stems before.lookups after.frameOf after.machine.scopes)
    (lookups : after.lookups = before.lookups)
    : after.Anchored := by
  refine ⟨origins, lookups ▸ stems, ?_⟩
  rw [lookups]
  exact anchored.lookups

/-- The machine changes, but no superclass. -/
theorem Anchored.lift (anchored : before.Anchored) {action : Run α}
    (same
      : ∀ scope,
          (before.frameOf scope).kind = .superclass
          → (stateOf (action before.machine)).scopes.cell? scope "super"
            = before.machine.scopes.cell? scope "super")
    : before.Leads (Watch.lift action before) := by
  have state
      : stateOf (Watch.lift action before)
          = { before with machine := stateOf (action before.machine) } := by
    unfold Watch.lift
    cases action before.machine <;> rfl
  have after : Anchored { before with machine := stateOf (action before.machine) } :=
    anchored.with anchored.origins (anchored.stems.kept same) rfl
  exact .still (state ▸ after) (by rw [state])

end Watched

namespace Watch.Anchors

variable {α β : Type}

/-- A value alone leaves every superclass where it came from. -/
theorem pure (value : α) : Anchors (Pure.pure value : Watch α) :=
  fun _ anchored => .still anchored rfl

/-- Two steps in a row leave every superclass where it came from if each does. -/
theorem bind {action : Watch α} {next : α → Watch β} (front : Anchors action)
    (back : ∀ value, Anchors (next value))
    : Anchors (action >>= next) :=
  fun before anchored =>
    (front before anchored).bind fun value between _ => back value between

/-- An action of the machine that touches no `super` leaves every superclass where it came from. -/
theorem lift {action : Run α} (spares : SparesSuper action) : Anchors (Watch.lift action) :=
  fun before anchored => anchored.lift fun scope _ => spares before.machine scope

/-- An action that leaves the environments alone leaves every superclass where it came from. -/
theorem quiet {action : Run α}
    (scopes : ∀ machine, (stateOf (action machine)).scopes = machine.scopes)
    : Anchors (Watch.lift action) :=
  lift (.quiet scopes)

/-- Looking at the watched state moves nothing if what follows does not. -/
theorem get {next : Watched → Watch β} (back : ∀ watched, Anchors (next watched))
    : Anchors (MonadState.get >>= next) :=
  fun before anchored => back before before anchored

/-- A new environment starts without a `super`. -/
theorem openScope (frame : Frame) (parent : Nat) : Anchors (Watch.openScope frame parent) :=
  fun _ anchored =>
    .still (anchored.with anchored.origins (anchored.stems.opened frame parent) rfl) rfl

/-- An environment for parameters holds no `super`, since they are names. -/
theorem fill (place : List Nat) (parent : Nat) (pairs : List (Token × Value))
    : Anchors (do
        let scope ← Watch.openScope { kind := .function, place } parent
        Watch.lift (Evaluator.defineAll scope pairs)
        return scope) := by
  intro before anchored
  refine (openScope _ _ before anchored).bind fun scope opened run anchored => ?_
  have defined : opened.Leads (Watch.lift (Evaluator.defineAll scope pairs) opened) := by
    cases run
    refine anchored.lift fun other kind => cell?_defineAll _ pairs _ ?_ _
    rintro rfl
    have isFunction : FrameKind.function = .superclass :=
      (congrArg Frame.kind (Watched.setAt_self _ _ _)).symm.trans kind
    cases isFunction
  exact defined.bind fun _ _ _ anchored => pure scope _ anchored

/-- A new closure remembers a function of the text and the place that it stands at. -/
theorem newClosure {origin : Origin} (met : origin.site.Sound) (proper : origin.function.Proper)
    (function : BoundLambda) (scope : Nat) (name : Option String) (isInitializer : Bool)
    : Anchors (Watch.newClosure origin function scope name isInitializer) := by
  intro before anchored
  refine .still (anchored.with (fun id => ?_) anchored.stems rfl) rfl
  change (setAt before.originOf before.machine.nextId origin id).site.Sound
    ∧ (setAt before.originOf before.machine.nextId origin id).function.Proper
  unfold setAt
  split
  · exact ⟨met, proper⟩
  · exact anchored.origins id

/-- The origin of a closure is a function of the text, which is all that follows may rely on. -/
theorem origin (id : Nat) {next : Origin → Watch α}
    (back
      : ∀ origin : Origin, origin.site.Sound → origin.function.Proper → Anchors (next origin))
    : Anchors (MonadState.get >>= fun watched : Watched => next (watched.originOf id)) :=
  fun before anchored =>
    back _ (anchored.origins id).1 (anchored.origins id).2 before anchored

/-- A receiver is not kept under `super`. -/
theorem bindMethod (method : Closure) (receiver : Value)
    : Anchors (Watch.bindMethod method receiver) := by
  have other : "this" ≠ "super" := by decide
  let next (origin : Origin) : Watch Closure := do
    let frame := origin.site.frames.headD { kind := .receiver, place := [] }
    let scope ← Watch.openScope frame method.scope
    Watch.lift (Run.defineIn scope "this" receiver)
    Watch.newClosure origin method.function scope method.name method.isInitializer
  exact @origin _ method.id next fun origin met proper =>
    (openScope _ _).bind fun scope =>
      (lift (.defineIn scope other receiver)).bind fun _ => newClosure met proper _ _ _ _

/-- A finished declaration defines no `super`. -/
theorem complete {site : Site} {name : Token} (isName : name.IsName) (value : Value)
    : Anchors (Watch.complete site name value) :=
  (lift (.define isName value)).bind fun _ _ anchored =>
    .still (anchored.with anchored.origins anchored.stems rfl) rfl

/-- What leaves every superclass alone does so inside of another scope. -/
theorem within (scope : Nat) {action : Watch α} (inside : Anchors action)
    : Anchors (Watch.within scope action) := by
  intro before anchored
  let entered : Watched := { before with machine := { before.machine with current := scope } }
  have enters : entered.Anchored := anchored.with anchored.origins anchored.stems rfl
  obtain ⟨ended, lookups, made, failing⟩ := inside entered enters
  unfold Watch.within
  simp only
  cases run : action entered with
  | ok value after =>
      rw [run] at ended made failing
      exact ⟨ended.with ended.origins ended.stems rfl, lookups, made, failing⟩
  | error fault after =>
      rw [run] at ended made failing
      exact ⟨ended.with ended.origins ended.stems rfl, lookups, made, failing⟩

/-- What leaves every superclass alone does so inside of a call. -/
theorem limitNesting (paren : Token) {action : Watch Value} (inside : Anchors action)
    : Anchors (Watcher.limitNesting paren action) := by
  intro before anchored
  obtain ⟨ended, lookups, made, failing⟩ := inside before anchored
  cases run : action before with
  | ok value after =>
      rw [run] at ended made failing
      rw [Watcher.limitNesting_ok run]
      exact ⟨ended, lookups, made, failing⟩
  | error fault after =>
      rw [run] at ended made failing
      rw [Watcher.limitNesting_error run]
      cases fault with
      | tooDeep =>
          refine ⟨ended, lookups, made, fun lookup member error failed => ?_⟩
          cases failing lookup member error failed
      | _ => exact ⟨ended, lookups, made, failing⟩

-----
-- Lookups

/-- A lookup is noted down with the state it was made in. -/
theorem note {site : Site} {use : Use} {action : Watch α} (inside : Anchors action)
    (silent : Silent action)
    (told
      : ∀ keyword method,
          use = .super keyword method
          → site.Sound
            ∧ keyword.lexeme = "super"
            ∧ ∀ before,
                faultOf (action before)
                  = faultOf (Watch.superMethod (site.reference use) method before))
    : Anchors (Watch.note site use action) := by
  intro before anchored
  have ended := (inside before anchored).anchored
  have same := silent before
  have noted {after : Watched} (fault : Option Fault) (outcome : fault = faultOf (action before))
      (ended : after.Anchored) (same : after.lookups = before.lookups)
      : (Watch.noted after (before.entry site use fault)).Anchored := by
    refine ⟨ended.origins, ended.stems.more _, ?_⟩
    intro earlier lookup later keyword method split isSuper
    have split : before.lookups ++ [before.entry site use fault] = earlier ++ lookup :: later :=
      same ▸ split
    rcases split_snoc split with ⟨rfl, rfl⟩ | ⟨later, split⟩
    · obtain ⟨met, spelled, goes⟩ := told keyword method isSuper
      exact ⟨met, spelled, anchored.stems, before, rfl, outcome.trans (goes before)⟩
    · exact anchored.lookups earlier lookup later keyword method split isSuper
  unfold Watch.note
  cases run : action before with
  | ok value after =>
      rw [run] at ended same
      refine ⟨noted none (by rw [run]; rfl) ended same, [_], congrArg (· ++ [_]) same, ?_⟩
      intro lookup member error failed
      obtain rfl := List.mem_singleton.1 member
      cases failed
  | error fault after =>
      rw [run] at ended same
      refine ⟨noted (some fault) (by rw [run]; rfl) ended same, [_], congrArg (· ++ [_]) same, ?_⟩
      intro lookup member error failed
      obtain rfl := List.mem_singleton.1 member
      exact failed

/-- A variable that is read is no method of a superclass. -/
theorem readVariable (site : Site) {use : Use} (other : ∀ keyword method, use ≠ .super keyword method)
    : Anchors (Watch.readVariable site use) :=
  note (quiet (scopes_of_peeks (Running.peeks_readVariable _))) (.lift _)
    fun keyword method same => absurd same (other keyword method)

/-- A variable that is written is no method of a superclass. -/
theorem writeVariable (site : Site) {name : Token} (isName : name.IsName) (value : Value)
    : Anchors (Watch.writeVariable site name value) :=
  note (lift (.writeVariable isName value)) (.lift _) fun _ _ same => nomatch same

/-- Finding the method of a superclass changes no environment. -/
theorem superMethod (keyword : Reference (Option Nat)) (method : Token)
    : Anchors (Watch.superMethod keyword method) := by
  unfold Watch.superMethod
  cases keyword.binding with
  | none => exact quiet (scopes_of_peeks (.throw .unboundSuper))
  | some distance =>
      refine (quiet (scopes_of_peeks (Running.peeks_readVariable _))).bind fun superclass => ?_
      refine get fun watched => ?_
      refine (quiet (scopes_of_peeks (Running.peeks_ofAccess _ _))).bind fun scope => ?_
      refine (quiet (scopes_of_peeks (Running.peeks_receiverIn _))).bind fun receiver => ?_
      cases superclass with
      | «class» lineage =>
          simp only
          cases lineage.method? method.lexeme with
          | some found => exact (bindMethod found _).bind fun closure => pure _
          | none => exact quiet (scopes_of_peeks (Running.peeks_failAt _ _))
      | literal | native | closure | object =>
          exact quiet (scopes_of_peeks (.throw .superNotClass))

/-- At `super` the superclass comes from the clause of the class around it. -/
theorem readSuper {site : Site} {keyword : Token} (met : site.Sound)
    (spelled : keyword.lexeme = "super") (method : Token)
    : Anchors (Watch.readSuper site keyword method) := by
  refine note (superMethod _ _) (.superMethod _ _) ?_
  intro keyword' method' same
  obtain ⟨rfl, rfl⟩ := Use.super.inj same
  exact ⟨met, spelled, fun _ => rfl⟩

-----
-- Class statements

/-- Changing the value that an action yields leaves every superclass alone. -/
theorem map {action : Watch α} (inside : Anchors action) (change : α → β)
    : Anchors (change <$> action) :=
  inside.bind fun value => pure (change value)

/-- Evaluating a superclass clause defines no `super` yet. -/
theorem findSuperclass (site : Site) (name : Token) (clause : Option (Reference Unit))
    : Anchors (Watcher.findSuperclass site name clause) := by
  cases clause with
  | none => exact pure _
  | some target =>
      have read : Anchors (Watch.readVariable (site.inheriting name target.name) (.read target.name)) :=
        readVariable _ fun _ _ same => nomatch same
      refine map (read.bind fun value => ?_) _
      cases value with
      | «class» lineage => exact pure _
      | literal | native | closure | object =>
          exact quiet (scopes_of_peeks (Running.peeks_failAt _ .superclassNotClass))

/-- Creating the methods of a class leaves every superclass where it came from, by induction on
them. -/
theorem createMethods {methods : List (Method Unit)} {site : Site} (met : site.Sound)
    (proper : ProperMethods methods) (scope : Nat) (table : Table Closure)
    : Anchors (Watcher.createMethods site scope table methods) := by
  induction methods generalizing site table with
  | nil => exact pure _
  | cons first rest ih =>
      obtain ⟨name, function⟩ := first
      obtain ⟨properFirst, properRest⟩ := proper
      have behind := met.kept (bindFunction_kept function site.scopes properFirst)
      refine (newClosure (met.child 0) properFirst _ _ _ _).bind fun closure => ?_
      exact ih (behind.child 1) properRest _

end Watch.Anchors

/-- A read that succeeds changes nothing but the notes. -/
theorem Watch.readVariable_ok {site : Site} {use : Use} {before after : Watched} {value : Value}
    (run : Watch.readVariable site use before = .ok value after)
    : Run.readVariable (site.reference use) before.machine = .ok value before.machine
      ∧ after = Watch.noted before (before.entry site use none) := by
  unfold Watch.readVariable Watch.note Watch.lift at run
  rcases Running.peeks_readVariable (site.reference use) before.machine with
    ⟨found, read⟩ | ⟨fault, read⟩
  · rw [read] at run
    cases run
    exact ⟨read, rfl⟩
  · rw [read] at run
    cases run

/-- The superclass of a statement has been looked up, and no scope has been opened since. -/
def Watched.Inherits (watched : Watched) (site : Site) (superclass : Option Lineage) : Prop :=
  ∀ lineage,
    superclass = some lineage
    → ∃ made : Inheritance,
        made.clause ∈ watched.lookups
        ∧ made.Made
        ∧ made.site = site
        ∧ made.scope = watched.machine.scopes.size
        ∧ made.superclass = lineage

/-- The value of a superclass clause is what was read for the class at its place. -/
theorem Watcher.findSuperclass_inherits {site : Site} {name : Token}
    {clause : Option (Reference Unit)} {superclass : Option Lineage} {before after : Watched}
    (run : Watcher.findSuperclass site name clause before = .ok superclass after)
    : after.Inherits site superclass := by
  cases clause with
  | none =>
      cases run
      exact nofun
  | some target =>
      let inside := site.inheriting name target.name
      let use : Use := .read target.name
      obtain ⟨found, middle, read, run⟩ := bind_succeeds run
      obtain ⟨value, middle', looked, read⟩ := bind_succeeds read
      obtain ⟨evaluated, rfl⟩ := Watch.readVariable_ok looked
      cases value with
      | literal | native | closure | object => cases read
      | «class» lineage =>
          cases read
          cases run
          rintro _ ⟨⟩
          let made : Inheritance := {
            site, name, superclass := found, target := target.name,
            clause := before.entry inside use none
          }
          exact ⟨made, List.mem_append_right _ List.mem_cons_self, ⟨rfl, rfl, evaluated, rfl⟩, rfl,
            rfl, rfl⟩

/-- The scope of the methods holds the superclass that the clause evaluated to. -/
theorem Watched.Anchored.methodScope {before : Watched} (anchored : before.Anchored) {site : Site}
    {superclass : Option Lineage} (inherits : before.Inherits site superclass)
    : before.Leads (Watcher.methodScope site superclass before) := by
  cases superclass with
  | none => exact .still anchored rfl
  | some lineage =>
      obtain ⟨made, member, isMade, rfl, opened, rfl⟩ := inherits lineage rfl
      refine .still (anchored.with anchored.origins ?_ rfl) rfl
      let scopes := before.machine.scopes
      let frame : Frame := { kind := .superclass, place := made.site.place }
      have size : scopes.size < (scopes.push (some before.machine.current)).size :=
        Nat.lt_of_lt_of_eq (Nat.lt_succ_self _) (Forest.size_push _ _).symm
      intro scope value kind held
      change (setAt before.frameOf scopes.size frame scope).kind = .superclass at kind
      change ((scopes.push (some before.machine.current)).put scopes.size "super"
        (.class made.superclass)).cell? scope "super" = some value at held
      change ∃ _, _ ∧ _ ∧ _ = setAt before.frameOf scopes.size frame scope ∧ _
      rw [Forest.cell?_put] at held
      split at held
      · next both =>
          obtain ⟨rfl, -, -⟩ := both
          refine ⟨made, member, isMade, ?_, opened, (Option.some.inj held).symm⟩
          exact (Watched.setAt_self _ _ _).symm
      · exact anchored.stems.opened frame before.machine.current scope value kind held

/-- A class declaration puts a superclass where its clause says, and nothing else. -/
theorem Watch.Anchors.declareClass {site : Site} {name : Token} {clause : Option (Reference Unit)}
    {methods : List (Method Unit)} (met : site.Sound) (isName : name.IsName)
    (proper : ProperMethods methods)
    : Anchors (Watcher.declareClass site name clause methods) := by
  intro before anchored
  refine (findSuperclass site name clause before anchored).bind ?_
  intro superclass found run anchored
  have inherits := Watcher.findSuperclass_inherits run
  refine (lift (.define isName .nil) found anchored).bind ?_
  intro _ defined run anchored
  have inherits : defined.Inherits site superclass := by
    cases run
    intro lineage same
    obtain ⟨made, member, isMade, here, opened, above⟩ := inherits lineage same
    exact ⟨made, member, isMade, here, opened.trans (Forest.size_put _ _ _ _).symm, above⟩
  have created
      : defined.Leads (Watcher.createClass site name clause superclass methods defined) := by
    refine (anchored.methodScope inherits).bind fun scope between _ anchored => ?_
    refine Anchors.bind ?_ (fun table => ?_) between anchored
    · exact createMethods (met.amongMethods isName clause) proper scope .empty
    · exact (quiet fun _ => rfl).bind fun id => pure _
  refine created.bind fun lineage between _ anchored => ?_
  refine Anchors.bind (quiet fun _ => rfl) (fun current => ?_) between anchored
  exact (lift (.assignFrom current isName _)).bind fun _ => quiet (scopes_tell _)

/-- A watcher leads from one anchored state to the next. -/
theorem Watch.Anchors.conduct : Conduct fun {α} (action : Watch α) => action.Anchors :=
  {
    pure := pure
    bind := bind
    origin := origin
    quiet := quiet
    define := fun isName value => lift (.define isName value)
    complete := complete
    openScope := openScope
    fill := fill
    within := within
    limitNesting := limitNesting
    newFunction := fun met proper _ _ _ => newClosure met proper _ _ _ _
    bindMethod := bindMethod
    readVariable := fun _ _ => readVariable _ fun _ _ same => nomatch same
    readThis := fun _ _ => readVariable _ fun _ _ same => nomatch same
    writeVariable := fun _ => writeVariable _
    readSuper := readSuper
    declareClass := declareClass
  }

end Lox.Scoping
