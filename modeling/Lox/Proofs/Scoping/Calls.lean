import Lox.Proofs.Scoping.Lookups

/-! Calls while watched.

A body runs at the place where the binder met it, whatever called it and from where: the scope of
the call is an instance of the scope of the function, inside the scopes it was created in.
-/

namespace Lox.Scoping

open Binding
open Grammar (SourceExpr SourceStmt)

-----
-- Places of a run

/-- The machine has reached the site. -/
structure Watched.At (watched : Watched) (site : Site) : Prop where
  fits : watched.FitsAt watched.machine.current site
  met : site.Sound

/-- How what stands at the site may end. -/
def Watched.Allows (watched : Watched) (site : Site) : Completion → Prop
  | .normal => True
  | .broke => site.scopes.loopDepth ≠ 0
  | .returned value => site.scopes.inFunction = true ∧ watched.Traced value

/-- Declarations outside of all scopes only make names global that may become so. -/
def Site.Admits (site : Site) (fresh : String → Prop) (stmt : SourceStmt) : Prop :=
  site.frames = [] → ∀ name, stmt.introduces? = some name → fresh name.lexeme

/-- Both run the parts of a program alike, at every site that the machine can reach. -/
structure Watcher.Follows (fresh : String → Prop) (evaluator : Evaluator) (watcher : Watcher)
    : Prop where
  evaluate
    : ∀ {before : Watched} {site : Site} {expr : SourceExpr},
        before.Sound
        → before.At site
        → expr.Proper
        → (bindExpr expr site.scopes).2.errors = []
        → Tracks fresh (evaluator.evaluate (bindExpr expr site.scopes).1)
            (watcher.evaluate site expr) before (fun value after => after.Traced value)
  execute
    : ∀ {before : Watched} {site : Site} {stmt : SourceStmt},
        before.Sound
        → before.At site
        → stmt.Proper
        → (bindStmt stmt site.scopes).2.errors = []
        → site.Admits fresh stmt
        → Tracks fresh (evaluator.execute (bindStmt stmt site.scopes).1)
            (watcher.execute site stmt) before
            (fun completion after =>
              after.Allows site completion
              ∧ (completion = .normal
                → after.FitsAt after.machine.current (site.after (bindStmt stmt))))

section

variable {fresh : String → Prop} {before after : Watched} {site : Site}

namespace Watched.At

/-- A site that is reached stays reached when the state grows. -/
theorem grows (reached : before.At site) (grows : before.Grows fresh after) : after.At site :=
  ⟨grows.current ▸ grows.fitsAt reached.fits, reached.met⟩

/-- A part of a site is reached where the site is. -/
theorem child (reached : before.At site) (number : Nat) : before.At (site.child number) :=
  ⟨reached.fits.child number, reached.met.child number⟩

/-- A site is reached with whatever keeps its scopes. -/
theorem kept (reached : before.At site) {scopes : Scopes} (kept : site.scopes.Kept scopes)
    : before.At { site with scopes } :=
  ⟨reached.fits.kept kept, reached.met.kept kept⟩

/-- Behind an expression. -/
theorem behind (reached : before.At site) {expr : SourceExpr} (proper : expr.Proper)
    : before.At (site.after (bindExpr expr)) :=
  reached.kept (bindExpr_kept expr site.scopes proper)

end Watched.At

/-- Behind a statement, what it introduces is known. -/
theorem Site.Sound.behind (met : site.Sound) {stmt : SourceStmt} (proper : stmt.Proper)
    : (site.after (bindStmt stmt)).Sound := by
  have kept := bindStmt_introduces stmt site.scopes proper
  cases introduced : stmt.introduces? with
  | none =>
      rw [introduced] at kept
      exact met.kept kept
  | some name =>
      rw [introduced] at kept
      have isName : name.IsName := by
        cases stmt with
        | «variable» | function | «class» =>
            obtain rfl := Option.some.inj introduced
            exact proper.1
        | expression | print | printLine | block | branch | loop | breakLoop | returnValue =>
            cases introduced
      exact (met.introducing isName).kept kept

/-- Without errors behind a part there were none in front of it. -/
theorem errors_nil {scopes scopes' : Scopes} (kept : scopes.Kept scopes')
    (clean : scopes'.errors = [])
    : scopes.errors = [] :=
  kept.errors.nil clean

/-- A completion that a site allows stays allowed when the state grows. -/
theorem Watched.Allows.grows {completion : Completion} (allows : before.Allows site completion)
    (more : before.Extends fresh after)
    : after.Allows site completion := by
  cases completion with
  | normal => trivial
  | broke => exact allows
  | returned value => exact ⟨allows.1, more.traced allows.2⟩

end

-----
-- Lists of parts

namespace Watcher.Follows

variable {fresh : String → Prop} {evaluator : Evaluator} {watcher : Watcher}

/-- Expressions in a row are tracked, by induction on them. -/
theorem evaluateAll (follows : watcher.Follows fresh evaluator) {exprs : List SourceExpr}
    {before : Watched} {site : Site} (sound : before.Sound) (reached : before.At site)
    (proper : ProperExprs exprs) (clean : (bindExprs exprs site.scopes).2.errors = [])
    : Tracks fresh (evaluator.evaluateAll (bindExprs exprs site.scopes).1)
        (watcher.evaluateAll site exprs) before
        (fun values after => ∀ value ∈ values, after.Traced value) := by
  induction exprs generalizing before site with
  | nil => exact .pure sound fun _ member => absurd member List.not_mem_nil
  | cons first rest ih =>
      obtain ⟨properFirst, properRest⟩ := proper
      have cleanFirst := errors_nil (bindExprs_kept rest _ properRest) clean
      refine (follows.evaluate sound (reached.child 0) properFirst cleanFirst).bind ?_
      intro value between grows sound traced
      have others := ih sound ((reached.grows grows).behind properFirst |>.child 1) properRest clean
      refine others.bind fun values last grows' sound tracedRest => ?_
      refine .pure sound fun found member => ?_
      rcases List.mem_cons.1 member with rfl | member
      · exact grows'.traced traced
      · exact tracedRest found member

/-- Statements in a row are tracked, by induction on them. -/
theorem executeAll (follows : watcher.Follows fresh evaluator) {stmts : List SourceStmt}
    {before : Watched} {site : Site} (sound : before.Sound) (reached : before.At site)
    (proper : ProperStmts stmts) (clean : (bindStmts stmts site.scopes).2.errors = [])
    (inner : site.frames ≠ [])
    : Tracks fresh (evaluator.executeAll (bindStmts stmts site.scopes).1)
        (watcher.executeAll site stmts) before
        (fun completion after => after.Allows site completion) := by
  induction stmts generalizing before site with
  | nil => exact .pure sound trivial
  | cons first rest ih =>
      obtain ⟨properFirst, properRest⟩ := proper
      have cleanFirst := (bindStmts_errors properRest _).nil clean
      have admits : site.Admits fresh first := fun none => absurd none inner
      refine (follows.execute sound (reached.child 0) properFirst cleanFirst admits).bind ?_
      intro completion between grows sound ⟨allows, behind⟩
      cases completion with
      | broke => exact .pure sound allows
      | returned value => exact .pure sound allows
      | normal =>
          obtain ⟨locals, globals⟩ := behind rfl
          have next : between.At (site.after (bindStmt first)) :=
            ⟨⟨locals, globals⟩, reached.met.behind properFirst⟩
          refine (ih sound (next.child 1) properRest clean inner).weaken ?_
          intro completion after _ allows
          obtain ⟨inFunction, loopDepth⟩ := bindStmt_context properFirst site.scopes
          cases completion with
          | normal => trivial
          | broke =>
              change (bindStmt first site.scopes).2.loopDepth ≠ 0 at allows
              rw [loopDepth] at allows
              exact allows
          | returned value =>
              obtain ⟨inside, traced⟩ := allows
              change (bindStmt first site.scopes).2.inFunction = true at inside
              exact ⟨inFunction ▸ inside, traced⟩

end Watcher.Follows

-----
-- Calls

/-- A function keeps its text, with the body bound where the binder met it. -/
theorem bindFunction_eq (function : Lambda Unit) (site : Site)
    : (bindFunction function site.scopes).1
          = .mk function.parameters (bindStmts function.body (site.inside function).scopes).1
      ∧ (bindFunction function site.scopes).2.errors
          = (bindStmts function.body (site.inside function).scopes).2.errors := by
  obtain ⟨parameters, body⟩ := function
  exact ⟨rfl, Scopes.closed_errors _⟩

/-- What the machine runs for a function is what the binder made of it. -/
theorem Watched.Holds.text {watched : Watched} {closure : Closure} (holds : watched.Holds closure)
    : closure.function.parameters = (watched.originOf closure.id).function.parameters
      ∧ closure.function.body
        = (bindStmts (watched.originOf closure.id).function.body
            ((watched.originOf closure.id).site.inside
              (watched.originOf closure.id).function).scopes).1 := by
  have same := holds.function
  rw [(bindFunction_eq _ _).1] at same
  rw [same]
  exact ⟨rfl, rfl⟩

/-- Every parameter is given one of the arguments. -/
theorem exists_mem_zip {parameters : List Token} {arguments : List Value}
    (count : arguments.length = parameters.length) {name : Token} (member : name ∈ parameters)
    : ∃ value, (name, value) ∈ parameters.zip arguments := by
  obtain ⟨index, less, rfl⟩ := List.mem_iff_getElem.1 member
  have given : index < arguments.length := count ▸ less
  have paired : index < (parameters.zip arguments).length := by
    rw [List.length_zip]
    exact Nat.lt_min.2 ⟨less, given⟩
  refine ⟨arguments[index], ?_⟩
  rw [← List.getElem_zip (h := paired)]
  exact List.getElem_mem _

namespace Watcher.Follows

variable {fresh : String → Prop} {evaluator : Evaluator} {watcher : Watcher}

/-- Invoking a closure is tracked by its origin. -/
theorem invoke (follows : watcher.Follows fresh evaluator) {before : Watched}
    (sound : before.Sound) {closure : Closure} (free : before.Free closure)
    {arguments : List Value} (traced : ∀ value ∈ arguments, before.Traced value)
    (count : arguments.length = closure.arity)
    : Tracks fresh (evaluator.invoke closure arguments) (watcher.invoke closure arguments) before
        (fun value after => after.Traced value) := by
  let origin := before.originOf closure.id
  obtain ⟨met, proper, clean⟩ := free.holds.origin
  obtain ⟨parameters, body⟩ := free.holds.text
  have cleanBody := (bindFunction_eq origin.function origin.site).2.symm.trans clean
  let frame : Frame := { kind := .function, place := origin.site.place }
  have opens : Tracks fresh (Run.newScope closure.scope) (Watch.openScope frame closure.scope)
      before (fun scope after =>
        after = before.opened frame closure.scope ∧ scope = before.machine.scopes.size) :=
    tracks_openScope sound closure.scope (by simp [frame]) (by simp [frame])
  have watched
      : watcher.invoke closure arguments before
          = watcher.invokeFrom origin closure arguments before :=
    rfl
  refine Tracks.congr ?_ rfl watched
  unfold Evaluator.invoke Watcher.invokeFrom
  refine opens.bind ?_
  rintro scope opened grows soundOpened ⟨rfl, rfl⟩
  have known
      : before.machine.scopes.size < (before.opened frame closure.scope).machine.scopes.size := by
    change _ < (before.machine.scopes.push (some closure.scope)).size
    rw [Forest.size_push]
    exact Nat.lt_succ_self _
  have inner : before.machine.scopes.size ≠ globalScope := Nat.ne_of_gt sound.rooted
  refine (tracks_defineAll soundOpened known inner
    (fun pair member => proper.parameters _ (parameters ▸ (List.of_mem_zip member).1))
    (fun pair member => grows.traced (traced _ (List.of_mem_zip member).2))).bind ?_
  intro _ filled grows' soundFilled defined
  have reached : (filled.moved before.machine.scopes.size).At
      (origin.site.inside origin.function) := by
    refine ⟨?_, met.inside proper⟩
    refine free.fits.inside origin.function (grows'.toExtends.trans (.moved filled _)) ?_
    intro name member
    rw [← parameters] at member
    obtain ⟨value, listed⟩ := exists_mem_zip count member
    exact defined _ listed
  have runs := follows.executeAll (soundFilled.moved before.machine.scopes.size) reached
    proper.body cleanBody (by simp [Site.inside, Site.after, Site.opened])
  rw [body]
  refine (runs.within fun completion between after more allows => allows.grows more).bind ?_
  intro completion last grows'' soundLast allows
  have grown := (grows.trans grows').trans grows''
  by_cases isInitializer : closure.isInitializer = true
  · rw [if_pos isInitializer, if_pos isInitializer]
    obtain ⟨address, lineage, held⟩ := (grown.free free).receiver soundLast isInitializer
    exact (tracks_receiverIn soundLast held).weaken fun _ _ _ holds => holds.2
  · rw [if_neg isInitializer, if_neg isInitializer]
    cases completion with
    | normal => exact .pure soundLast trivial
    | broke => exact .pure soundLast trivial
    | returned value => exact .pure soundLast allows.2

/-- Making an instance is tracked, with its initializer. -/
theorem construct (follows : watcher.Follows fresh evaluator) {before : Watched}
    (sound : before.Sound) {lineage : Lineage} (tracedClass : before.Class lineage)
    {arguments : List Value} (traced : ∀ value ∈ arguments, before.Traced value)
    (count : arguments.length = lineage.arity)
    : Tracks fresh (evaluator.construct lineage arguments) (watcher.construct lineage arguments)
        before (fun value after => after.Traced value) := by
  unfold Evaluator.construct Watcher.construct
  refine (tracks_newObject sound tracedClass).bind ?_
  rintro object created grows soundCreated ⟨own, address, rfl⟩
  cases has : lineage.initializer? with
  | none => exact .pure soundCreated own
  | some initializer =>
      have waiting : created.Waiting initializer := own.method has
      refine (tracks_bindMethod soundCreated waiting own).bind ?_
      intro bound between grows' soundBetween ⟨free, function⟩
      have arity : arguments.length = bound.arity := by
        rw [count, Lineage.arity, has]
        simp [Closure.arity, function]
      have given : ∀ value ∈ arguments, between.Traced value := fun value member =>
        (grows.trans grows').traced (traced value member)
      refine (follows.invoke soundBetween free given arity).bind ?_
      intro _ last grows'' soundLast _
      exact .pure soundLast ((grows'.trans grows'').class_ own)

/-- What stops a run inside a call may come to be blamed on the call. -/
theorem limitNesting {before : Watched} {action : Run Value} {watch : Watch Value}
    {post : Value → Watched → Prop} (paren : Token) (tracks : Tracks fresh action watch before post)
    : Tracks fresh (Evaluator.limitNesting paren action) (Watcher.limitNesting paren watch) before
        post := by
  unfold Tracks at tracks ⊢
  cases outcome : watch before with
  | ok value after =>
      rw [outcome] at tracks
      rw [Watcher.limitNesting_ok outcome]
      exact ⟨Evaluator.limitNesting_ok tracks.1, tracks.2⟩
  | error fault after =>
      rw [outcome] at tracks
      obtain ⟨run, grows, sound, ordinary⟩ := tracks
      rw [Watcher.limitNesting_error outcome]
      exact ⟨Evaluator.limitNesting_error run, grows, sound, ordinary.limited paren⟩

/-- A call of a traced value is tracked, also where it cannot be called. -/
theorem call (follows : watcher.Follows fresh evaluator) {before : Watched}
    (sound : before.Sound) {callee : Value} (tracedCallee : before.Traced callee)
    {arguments : List Value} (traced : ∀ value ∈ arguments, before.Traced value) (paren : Token)
    : Tracks fresh (evaluator.call callee arguments paren) (watcher.call callee arguments paren)
        before (fun value after => after.Traced value) := by
  have counted {callable : Callable}
      (applies
        : ∀ {between : Watched},
            between.Sound
            → before.Grows fresh between
            → arguments.length = callable.arity
            → Tracks fresh (evaluator.apply callable arguments)
                (watcher.apply callable arguments) between
                (fun value after => after.Traced value))
      : Tracks fresh
          (if arguments.length = callable.arity then do
            Run.tell (.call callee arguments.length paren.line)
            Evaluator.limitNesting paren (evaluator.apply callable arguments)
          else
            Run.failAt paren (.wrongArity callable.arity arguments.length))
          (if arguments.length = callable.arity then do
            Watch.lift (Run.tell (.call callee arguments.length paren.line))
            Watcher.limitNesting paren (watcher.apply callable arguments)
          else
            Watch.lift (Run.failAt paren (.wrongArity callable.arity arguments.length)))
          before (fun value after => after.Traced value) := by
    by_cases count : arguments.length = callable.arity
    · rw [if_pos count, if_pos count]
      refine (tracks_tell sound _).bind fun _ between grows soundBetween _ => ?_
      exact limitNesting paren (applies soundBetween grows count)
    · rw [if_neg count, if_neg count]
      exact .failAt sound paren _
  unfold Evaluator.call Watcher.call
  cases callee with
  | literal | object => exact .failAt sound paren .notCallable
  | native function => exact counted fun sound _ _ => tracks_readClock sound
  | closure closure =>
      refine counted fun sound grows count => ?_
      exact follows.invoke sound (grows.free tracedCallee)
        (fun value member => grows.traced (traced value member)) count
  | «class» lineage =>
      refine counted fun sound grows count => ?_
      exact follows.construct sound (grows.class_ tracedCallee)
        (fun value member => grows.traced (traced value member)) count

end Watcher.Follows

end Lox.Scoping
