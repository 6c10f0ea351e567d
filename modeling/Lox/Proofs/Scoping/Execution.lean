import Lox.Proofs.Scoping.Classes

/-! Executing statements while watched, and whole programs.

Levels of nesting are put on one another: what holds of the parts of a statement holds of the
statement.
-/

namespace Lox.Scoping

open Binding
open Grammar (SourceExpr SourceStmt)

section

variable {fresh : String → Prop} {before : Watched} {site : Site}

/-- Behind a statement, the name that it introduces has a value. -/
theorem Watched.FitsAt.behind {scope : Nat} (fits : before.FitsAt scope site) {stmt : SourceStmt}
    (proper : stmt.Proper)
    (defined
      : ∀ name,
          stmt.introduces? = some name
          → (before.machine.scopes.cell? scope name.lexeme).isSome = true)
    : before.FitsAt scope (site.after (bindStmt stmt)) := by
  have kept := bindStmt_introduces stmt site.scopes proper
  cases introduced : stmt.introduces? with
  | none =>
      rw [introduced] at kept
      exact fits.kept kept
  | some name =>
      rw [introduced] at kept
      exact (fits.introducing (defined name introduced)).kept kept

/-- A declaration may define its name where the site admits it. -/
theorem Watched.At.mayWrite (reached : before.At site) (sound : before.Sound) {name : Token}
    (admits : site.frames = [] → fresh name.lexeme)
    : before.MayWrite fresh before.machine.current name.lexeme :=
  fun global => .inl (admits (reached.fits.locals.frames_nil sound global))

namespace Watcher

-----
-- Loops

/-- A loop is tracked by the watched loop, by induction on the rounds that are left. -/
theorem tracks_repeatWhile {test : Run Value} {watchTest : Watch Value} {body : Run Completion}
    {watchBody : Watch Completion} (rounds : Nat) {before : Watched} (sound : before.Sound)
    (reached : before.At site)
    (tests
      : ∀ {between : Watched},
          between.Sound → between.At site → Tracks fresh test watchTest between fun _ _ => True)
    (bodies
      : ∀ {between : Watched},
          between.Sound
          → between.At site
          → Tracks fresh body watchBody between
              (fun completion after => after.Allows site.looping completion))
    : Tracks fresh (Evaluator.repeatWhile test body rounds)
        (repeatWhile watchTest watchBody rounds) before
        (fun completion after => after.Allows site completion) := by
  induction rounds generalizing before with
  | zero => exact .fail sound trivial
  | succ rounds ih =>
      refine (tests sound reached).bind fun condition tested grows sound _ => ?_
      by_cases truthy : condition.isTruthy = true
      · rw [if_pos truthy, if_pos truthy]
        refine (bodies sound (reached.grows grows)).bind ?_
        intro completion between grows' sound allows
        cases completion with
        | normal => exact ih sound ((reached.grows grows).grows grows')
        | broke => exact .pure sound trivial
        | returned value => exact .pure sound allows
      · rw [if_neg truthy, if_neg truthy]
        exact .pure sound trivial

namespace Follows

variable {evaluator : Evaluator} {watcher : Watcher}

-----
-- Single statements

/-- An expression that may be missing is tracked. -/
theorem evaluateOptional (follows : watcher.Follows fresh evaluator)
    {value : Option SourceExpr} (sound : before.Sound) (reached : before.At site)
    (proper : ProperOptional value) (clean : (bindOptional value site.scopes).2.errors = [])
    : Tracks fresh (evaluator.evaluateOptional (bindOptional value site.scopes).1)
        (watcher.evaluateOptional site value) before (fun value after => after.Traced value) := by
  cases value with
  | none => exact .pure sound trivial
  | some value => exact follows.evaluate sound (reached.child 0) proper clean

/-- A statement that introduces nothing. -/
theorem plain {action : Run Completion} {watch : Watch Completion} {stmt : SourceStmt}
    (reached : before.At site) (proper : stmt.Proper) (nothing : stmt.introduces? = none)
    (tracks
      : Tracks fresh action watch before (fun completion after => after.Allows site completion))
    : Tracks fresh action watch before
        (fun completion after =>
          after.Allows site completion
          ∧ (completion = .normal
            → after.FitsAt after.machine.current (site.after (bindStmt stmt)))) := by
  refine tracks.weaken fun completion after grows allows => ⟨allows, fun _ => ?_⟩
  refine (reached.grows grows).fits.behind proper fun name introduced => ?_
  rw [nothing] at introduced
  cases introduced

/-- A variable declaration is tracked, and its name defined behind it. -/
theorem executeVariable (follows : watcher.Follows fresh evaluator) (rounds : Nat)
    {name : Token} {initial : Option SourceExpr} (sound : before.Sound)
    (reached : before.At site) (proper : (Stmt.variable name initial).Proper)
    (clean : (bindStmt (.variable name initial) site.scopes).2.errors = [])
    (admits : site.Admits fresh (.variable name initial))
    : Tracks fresh
        (Evaluator.executeStep rounds evaluator (bindStmt (.variable name initial) site.scopes).1)
        (Watcher.executeStep rounds watcher site (.variable name initial)) before
        (fun completion after =>
          after.Allows site completion
          ∧ (completion = .normal
            → after.FitsAt after.machine.current
                (site.after (bindStmt (.variable name initial))))) := by
  obtain ⟨isName, properInitial⟩ := proper
  have pending : before.At (site.declaring name) :=
    ⟨reached.fits.declaring name, reached.met.declaring isName⟩
  have cleanInitial
      : (bindOptional initial (site.declaring name).scopes).2.errors = [] := by
    obtain ⟨locals, globals, same⟩ :=
      (bindOptional initial (site.declaring name).scopes).2.defined_eq name.lexeme
    change ((bindOptional initial (site.declaring name).scopes).2.defined name.lexeme).errors = []
      at clean
    rw [same] at clean
    exact clean
  refine (follows.evaluateOptional sound pending properInitial cleanInitial).bind ?_
  intro value between grows soundBetween traced
  have here := reached.grows grows
  refine (tracks_complete soundBetween (here.fits.locals.lt_size soundBetween) isName traced
    (here.mayWrite soundBetween fun none => admits none name rfl)).bind ?_
  intro _ defined grows' soundDefined has
  refine (tracks_tell soundDefined _).bind fun _ after grows'' soundAfter _ => ?_
  refine .pure soundAfter ⟨trivial, fun _ => ?_⟩
  have reachedAfter := (here.grows grows').grows grows''
  refine reachedAfter.fits.behind ⟨isName, properInitial⟩ fun introduced same => ?_
  obtain rfl := Option.some.inj same
  rw [grows''.current]
  exact grows''.cell _ _ has

/-- A function has a value before anything in it runs. -/
theorem executeFunction (rounds : Nat) {name : Token} {function : Lambda Unit}
    (sound : before.Sound) (reached : before.At site)
    (proper : (Stmt.function name function).Proper)
    (clean : (bindStmt (.function name function) site.scopes).2.errors = [])
    (admits : site.Admits fresh (.function name function))
    : Tracks fresh
        (Evaluator.executeStep rounds evaluator (bindStmt (.function name function) site.scopes).1)
        (Watcher.executeStep rounds watcher site (.function name function)) before
        (fun completion after =>
          after.Allows site completion
          ∧ (completion = .normal
            → after.FitsAt after.machine.current
                (site.after (bindStmt (.function name function))))) := by
  obtain ⟨isName, properFunction⟩ := proper
  let origin : Origin := { function, site := (site.introducing name).child 0 }
  have met : origin.Sound := ⟨(reached.met.introducing isName).child 0, properFunction, clean⟩
  refine (tracks_currentScope sound).bind ?_
  rintro scope start _ soundStart ⟨rfl, rfl⟩
  refine (tracks_newClosure soundStart met start.machine.current (some name.lexeme) false).bind ?_
  rintro closure between grows soundBetween ⟨holds, isOrigin, isScope, plain⟩
  have here := reached.grows grows
  have free (after : Watched) (grows' : between.Grows fresh after)
      (has : (after.machine.scopes.cell? between.machine.current name.lexeme).isSome = true)
      : after.Traced (.closure closure) := by
    have fits := ((here.grows grows').fits.introducing (grows'.current.symm ▸ has)).child 0
    refine ⟨grows'.holds holds, ?_, fun isTrue => ?_⟩
    · rw [grows'.originOf _ holds.known, isOrigin, isScope, ← grows.current, ← grows'.current]
      exact fits
    · rw [plain] at isTrue
      cases isTrue
  refine (tracks_define soundBetween isName (here.fits.locals.lt_size soundBetween) free
    (here.mayWrite soundBetween fun none => admits none name rfl)).bind ?_
  intro _ defined grows' soundDefined has
  refine (tracks_tell soundDefined _).bind fun _ after grows'' soundAfter _ => ?_
  refine .pure soundAfter ⟨trivial, fun _ => ?_⟩
  have reachedAfter := (here.grows grows').grows grows''
  refine reachedAfter.fits.behind ⟨isName, properFunction⟩ fun introduced same => ?_
  obtain rfl := Option.some.inj same
  rw [grows''.current]
  exact grows''.cell _ _ has

/-- A class declaration is tracked, its superclass clause first. -/
theorem executeClass (rounds : Nat) {name : Token} {clause : Option (Reference Unit)}
    {methods : List (Method Unit)} (sound : before.Sound) (reached : before.At site)
    (proper : (Stmt.class name clause methods).Proper)
    (clean : (bindStmt (.class name clause methods) site.scopes).2.errors = [])
    (admits : site.Admits fresh (.class name clause methods))
    : Tracks fresh
        (Evaluator.executeStep rounds evaluator
          (bindStmt (.class name clause methods) site.scopes).1)
        (Watcher.executeStep rounds watcher site (.class name clause methods)) before
        (fun completion after =>
          after.Allows site completion
          ∧ (completion = .normal
            → after.FitsAt after.machine.current
                (site.after (bindStmt (.class name clause methods))))) := by
  obtain ⟨isName, superName, properMethods⟩ := proper
  obtain ⟨bound, errors⟩ := site.bindClass_eq name clause methods
  have allowed (between : Watched) (grows : before.Grows fresh between)
      : between.MayWrite fresh between.machine.current name.lexeme := by
    intro global
    rw [grows.current] at global
    rcases reached.mayWrite sound (fun none => admits none name rfl) global with new | known
    · exact .inl new
    · exact .inr (grows.cell _ _ known)
  rw [bound]
  refine (tracks_declareClass sound reached isName allowed properMethods
    (errors.symm.trans clean)).bind ?_
  intro _ after grows soundAfter has
  refine .pure soundAfter ⟨trivial, fun _ => ?_⟩
  refine (reached.grows grows).fits.behind ⟨isName, superName, properMethods⟩ ?_
  intro introduced same
  obtain rfl := Option.some.inj same
  exact has

-----
-- Nested statements

/-- A block is tracked in a scope of its own. -/
theorem executeBlock (follows : watcher.Follows fresh evaluator) (rounds : Nat)
    {statements : List SourceStmt} (sound : before.Sound) (reached : before.At site)
    (proper : ProperStmts statements)
    (clean : (bindStmt (.block statements) site.scopes).2.errors = [])
    : Tracks fresh
        (Evaluator.executeStep rounds evaluator (bindStmt (.block statements) site.scopes).1)
        (Watcher.executeStep rounds watcher site (.block statements)) before
        (fun completion after => after.Allows site completion) := by
  let frame : Frame := { kind := .block, place := site.place }
  refine (tracks_currentScope sound).bind ?_
  rintro scope start _ soundStart ⟨rfl, rfl⟩
  refine (tracks_openScope soundStart start.machine.current (by simp) (by simp)).bind ?_
  rintro scope opened grows soundOpened ⟨rfl, rfl⟩
  have moves
      : (start.opened frame start.machine.current).Extends fresh
          ((start.opened frame start.machine.current).moved start.machine.scopes.size) :=
    .moved _ _
  have inside
      : ((start.opened frame start.machine.current).moved start.machine.scopes.size).At
          (site.opened .block) :=
    ⟨moves.fitsAt reached.fits.block, reached.met.block⟩
  have cleanInside : (bindStmts statements (site.opened .block).scopes).2.errors = [] :=
    (Scopes.closed_errors _).symm.trans clean
  have runs := follows.executeAll (soundOpened.moved _) inside proper cleanInside
    (by simp [Site.opened])
  exact runs.within fun completion between after more allows => allows.grows more

/-- The function and the loops around a part are those around the whole. -/
theorem allows_of_kept {watched : Watched} {scopes : Scopes} {completion : Completion}
    (kept : site.scopes.Kept scopes)
    (allows : watched.Allows { site with scopes } completion)
    : watched.Allows site completion := by
  cases completion with
  | normal => trivial
  | broke =>
      change scopes.loopDepth ≠ 0 at allows
      rw [kept.loopDepth] at allows
      exact allows
  | returned value =>
      obtain ⟨inside, traced⟩ := allows
      change scopes.inFunction = true at inside
      rw [kept.inFunction] at inside
      exact ⟨inside, traced⟩

/-- An `if` statement is tracked, whichever branch is taken. -/
theorem executeBranch (follows : watcher.Follows fresh evaluator) (rounds : Nat)
    {condition : SourceExpr} {thenBranch : SourceStmt} {elseBranch : Option SourceStmt}
    (sound : before.Sound) (reached : before.At site)
    (proper : (Stmt.branch condition thenBranch elseBranch).Proper)
    (clean : (bindStmt (.branch condition thenBranch elseBranch) site.scopes).2.errors = [])
    : Tracks fresh
        (Evaluator.executeStep rounds evaluator
          (bindStmt (.branch condition thenBranch elseBranch) site.scopes).1)
        (Watcher.executeStep rounds watcher site (.branch condition thenBranch elseBranch)) before
        (fun completion after => after.Allows site completion) := by
  obtain ⟨tested, ⟨first, nothing⟩, second⟩ := proper
  have testKept := bindExpr_kept condition site.scopes tested
  have thenKept := bindStmt_introduces thenBranch (bindExpr condition site.scopes).2 first
  rw [nothing] at thenKept
  have cleanThen := errors_nil (bindElse_kept elseBranch _ second) clean
  have cleanTest := errors_nil thenKept cleanThen
  refine (follows.evaluate sound (reached.child 0) tested cleanTest).bind ?_
  intro value between grows soundBetween _
  refine (tracks_tell soundBetween _).bind fun _ told grows' soundTold _ => ?_
  have thenReached := ((reached.grows grows).grows grows').behind tested
  by_cases truthy : value.isTruthy = true
  · rw [if_pos truthy, if_pos truthy]
    have admits : (site.after (bindExpr condition)).Admits fresh thenBranch := by
      intro _ name introduced
      rw [nothing] at introduced
      cases introduced
    refine (follows.execute soundTold (thenReached.child 1) first cleanThen admits).weaken ?_
    intro completion after _ ⟨allows, _⟩
    exact allows_of_kept testKept allows
  · rw [if_neg truthy, if_neg truthy]
    cases elseBranch with
    | none => exact .pure soundTold trivial
    | some elseBranch =>
        obtain ⟨properElse, nothingElse⟩ := second
        have elseReached := thenReached.kept thenKept
        have admits
            : ((site.after (bindExpr condition)).after (bindStmt thenBranch)).Admits fresh
                elseBranch := by
          intro _ name introduced
          rw [nothingElse] at introduced
          cases introduced
        refine (follows.execute soundTold (elseReached.child 2) properElse clean admits).weaken ?_
        intro completion after _ ⟨allows, _⟩
        exact allows_of_kept (testKept.trans thenKept) allows

/-- A loop statement is tracked, its condition and its body. -/
theorem executeLoop (follows : watcher.Follows fresh evaluator) (rounds : Nat)
    {condition : SourceExpr} {body : SourceStmt} (sound : before.Sound)
    (reached : before.At site) (proper : (Stmt.loop condition body).Proper)
    (clean : (bindStmt (.loop condition body) site.scopes).2.errors = [])
    : Tracks fresh
        (Evaluator.executeStep rounds evaluator (bindStmt (.loop condition body) site.scopes).1)
        (Watcher.executeStep rounds watcher site (.loop condition body)) before
        (fun completion after => after.Allows site completion) := by
  obtain ⟨tested, properBody, nothing⟩ := proper
  have testKept := bindExpr_kept condition site.scopes tested
  have bodyKept := bindStmt_introduces body (bindExpr condition site.scopes).2.enteredLoop properBody
  rw [nothing] at bodyKept
  have cleanTest := errors_nil (Scopes.Kept.leftLoop bodyKept) clean
  refine tracks_repeatWhile rounds sound reached ?_ ?_
  · intro between soundBetween here
    exact (follows.evaluate soundBetween (here.child 0) tested cleanTest).weaken
      fun _ _ _ _ => trivial
  · intro between soundBetween here
    have behind := here.behind tested
    have inside : between.At (site.after (bindExpr condition)).looping :=
      ⟨behind.fits.looping, behind.met.looping⟩
    have admits : (site.after (bindExpr condition)).looping.Admits fresh body := by
      intro _ name introduced
      rw [nothing] at introduced
      cases introduced
    refine (follows.execute soundBetween (inside.child 1) properBody clean admits).weaken ?_
    intro completion after _ ⟨allows, _⟩
    cases completion with
    | normal => trivial
    | broke => exact Nat.succ_ne_zero _
    | returned value =>
        have outside : after.Allows site (.returned value) :=
          allows_of_kept testKept allows
        exact outside

/-- A statement is tracked, by cases on it. -/
theorem executeStep (follows : watcher.Follows fresh evaluator) (rounds : Nat)
    {stmt : SourceStmt} (sound : before.Sound) (reached : before.At site) (proper : stmt.Proper)
    (clean : (bindStmt stmt site.scopes).2.errors = []) (admits : site.Admits fresh stmt)
    : Tracks fresh (Evaluator.executeStep rounds evaluator (bindStmt stmt site.scopes).1)
        (Watcher.executeStep rounds watcher site stmt) before
        (fun completion after =>
          after.Allows site completion
          ∧ (completion = .normal
            → after.FitsAt after.machine.current (site.after (bindStmt stmt)))) := by
  have here := reached.child 0
  cases stmt with
  | expression value =>
      have properValue : value.Proper := proper
      refine plain reached proper rfl ?_
      refine (follows.evaluate sound here properValue clean).bind fun _ _ _ sound _ => ?_
      exact .pure sound trivial
  | print value =>
      have properValue : value.Proper := proper
      refine plain reached proper rfl ?_
      refine (follows.evaluate sound here properValue clean).bind fun value _ _ sound _ => ?_
      exact (tracks_print sound value.text).bind fun _ _ _ sound _ => .pure sound trivial
  | printLine value =>
      refine plain reached proper rfl ?_
      cases value with
      | none => exact (tracks_print sound "\n").bind fun _ _ _ sound _ => .pure sound trivial
      | some value =>
          have properValue : value.Proper := proper
          refine (follows.evaluate sound here properValue clean).bind fun value _ _ sound _ => ?_
          exact (tracks_print sound (value.text ++ "\n")).bind
            fun _ _ _ sound _ => .pure sound trivial
  | «variable» name initial => exact follows.executeVariable rounds sound reached proper clean admits
  | block statements =>
      exact plain reached proper rfl (follows.executeBlock rounds sound reached proper clean)
  | branch condition thenBranch elseBranch =>
      exact plain reached proper rfl (follows.executeBranch rounds sound reached proper clean)
  | loop condition body =>
      exact plain reached proper rfl (follows.executeLoop rounds sound reached proper clean)
  | breakLoop keyword =>
      refine plain reached proper rfl (.pure sound ?_)
      intro outside
      change (if site.scopes.loopDepth = 0 then _ else _ : Scopes).errors = [] at clean
      rw [if_pos outside] at clean
      simp [Scopes.error] at clean
  | returnValue keyword value =>
      have properValue : ProperOptional value := proper
      have kept := checkReturn_kept keyword site.scopes
      have cleanCheck := errors_nil (bindOptional_kept value _ properValue) clean
      have inside : site.scopes.inFunction = true := by
        change (if site.scopes.inFunction then _ else _ : Scopes).errors = [] at cleanCheck
        split at cleanCheck
        · assumption
        · simp [Scopes.error] at cleanCheck
      refine plain reached proper rfl ?_
      refine (follows.evaluateOptional sound (reached.kept kept) properValue clean).bind ?_
      intro value after _ sound traced
      exact .pure sound ⟨inside, traced⟩
  | function name function => exact executeFunction rounds sound reached proper clean admits
  | «class» name clause methods => exact executeClass rounds sound reached proper clean admits

end Follows

-----
-- All levels

/-- For every limit on open calls the watcher follows the evaluator, by induction on it. -/
theorem follows_ofNesting (fresh : String → Prop) (rounds nesting : Nat)
    : (ofNesting rounds nesting).Follows fresh (Evaluator.ofNesting rounds nesting) := by
  induction nesting with
  | zero =>
      exact
        {
          evaluate := fun sound _ _ _ => .fail sound trivial
          execute := fun sound _ _ _ _ => .fail sound trivial
        }
  | succ nesting ih =>
      exact { evaluate := ih.evaluateStep, execute := ih.executeStep rounds }

namespace Follows

variable {evaluator : Evaluator} {watcher : Watcher}

/-- There is no loop or function around a program that could be left. -/
theorem executeProgram (follows : watcher.Follows fresh evaluator)
    {statements : List SourceStmt} {before : Watched} {site : Site} (sound : before.Sound)
    (reached : before.At site) (proper : ProperStmts statements)
    (clean : (bindStmts statements site.scopes).2.errors = [])
    (outsideFunction : site.scopes.inFunction = false)
    (outsideLoop : site.scopes.loopDepth = 0)
    (admits : ∀ stmt ∈ statements, site.Admits fresh stmt)
    : Tracks fresh (evaluator.executeProgram (bindStmts statements site.scopes).1)
        (watcher.executeProgram site statements) before
        (fun _ after => after.FitsAt after.machine.current (site.after (bindStmts statements))) := by
  induction statements generalizing before site with
  | nil => exact .pure sound reached.fits
  | cons first rest ih =>
      obtain ⟨properFirst, properRest⟩ := proper
      have cleanFirst := (bindStmts_errors properRest _).nil clean
      have admitsFirst := admits first List.mem_cons_self
      refine (follows.execute sound (reached.child 0) properFirst cleanFirst admitsFirst).bind ?_
      intro completion between grows soundBetween ⟨allows, behind⟩
      have normal : completion = .normal := by
        cases completion with
        | normal => rfl
        | broke => exact absurd outsideLoop allows
        | returned value =>
            have inside : site.scopes.inFunction = true := allows.1
            rw [outsideFunction] at inside
            cases inside
      obtain ⟨locals, globals⟩ := behind normal
      have next : between.At (site.after (bindStmt first)) :=
        ⟨⟨locals, globals⟩, reached.met.behind properFirst⟩
      obtain ⟨inFunction, loopDepth⟩ := bindStmt_context properFirst site.scopes
      refine (ih soundBetween (next.child 1) properRest clean (inFunction.trans outsideFunction)
        (loopDepth.trans outsideLoop)
        fun stmt member => admits stmt (List.mem_cons_of_mem _ member)).weaken ?_
      intro _ after _ fits
      exact ⟨fits.locals, fits.globals⟩

end Follows

end Watcher

end

end Lox.Scoping
