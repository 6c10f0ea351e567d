import Lox.Proofs.Scoping.Evaluation

/-! Declaring classes while watched.

Methods are created before there is a receiver: all that the binder saw around them is there, but
for the scope of the receiver, which each bound method brings along.
-/

namespace Lox.Scoping

open Binding

-----
-- What the binder does at a class

namespace Site

variable (site : Site) (name : Token)

/-- The superclass as the binder finds it. -/
def superclass (clause : Option (Reference Unit)) : Option (Reference (Option Nat)) :=
  clause.map fun target => (site.inheriting name target.name).reference (.read target.name)

/-- A class is bound to its superclass clause and its methods, each in its own scopes. -/
theorem bindClass_eq (clause : Option (Reference Unit)) (methods : List (Method Unit))
    : (bindStmt (.class name clause methods) site.scopes).1
          = .class name (site.superclass name clause)
              (bindMethods methods (site.amongMethods name clause).scopes).1
      ∧ (bindStmt (.class name clause methods) site.scopes).2.errors
          = (bindMethods methods (site.amongMethods name clause).scopes).2.errors := by
  cases clause with
  | none => exact ⟨rfl, Scopes.closed_errors _⟩
  | some target => exact ⟨rfl, (Scopes.closed_errors _).trans (Scopes.closed_errors _)⟩

/-- The class that a place stands in does not matter to the names there. -/
theorem declaringClass_scopes
    : (site.declaringClass name).scopes = (site.introducing name).scopes.enteredClass .plain :=
  Scopes.introduced_enteredClass site.scopes .plain (some name)

/-- A superclass clause keeps the scopes of the class. -/
theorem inheriting_kept (superclass : Token)
    : ((site.introducing name).scopes.enteredClass .subclass).Kept
        (site.inheriting name superclass).scopes := by
  have kept := enterSubclass_kept name superclass (site.declaringClass name).scopes
  rw [declaringClass_scopes] at kept
  have scopes
      : (site.inheriting name superclass).scopes
          = (enterSubclass name superclass (site.declaringClass name).scopes).2 :=
    rfl
  rw [scopes, declaringClass_scopes]
  exact kept

/-- The only names of the scope around methods. -/
def receiverView : Table Bool :=
  Table.empty.insert "this" true

def superclassView : Table Bool :=
  Table.empty.insert "super" true

/-- Without a superclass the receiver alone stands around the methods. -/
theorem amongMethods_plain
    : (site.amongMethods name none).scopes.views
          = receiverView :: (site.introducing name).scopes.views
      ∧ (site.amongMethods name none).scopes.globals
          = (site.introducing name).scopes.globals := by
  have scopes
      : (site.amongMethods name none).scopes
          = ((site.declaringClass name).scopes.opened).defined "this" :=
    rfl
  rw [scopes, declaringClass_scopes]
  exact ⟨rfl, rfl⟩

/-- With a superclass the receiver and the superclass stand around the methods. -/
theorem amongMethods_subclass (target : Reference Unit)
    : (site.amongMethods name (some target)).scopes.views
          = receiverView :: superclassView :: (site.introducing name).scopes.views
      ∧ (site.amongMethods name (some target)).scopes.globals
          = (site.introducing name).scopes.globals := by
  have kept := (site.inheriting_kept name target.name).trans (bindRead_kept target.name _)
  have views
      : (bindRead target.name (site.inheriting name target.name).scopes).2.views
          = (site.introducing name).scopes.views :=
    kept.views
  refine ⟨?_, kept.globals⟩
  rw [← views]
  rfl

/-- Whatever changes only the class of the place and its own name changes no other name. -/
theorem inheriting_other {superclass : Token} (other : superclass.lexeme ≠ name.lexeme)
    : (∀ distance,
        flagAt? (site.inheriting name superclass).scopes.views distance superclass.lexeme
          = flagAt? site.scopes.views distance superclass.lexeme)
      ∧ (site.inheriting name superclass).scopes.globals.get? superclass.lexeme
          = site.scopes.globals.get? superclass.lexeme := by
  have kept := site.inheriting_kept name superclass
  have views
      : (site.inheriting name superclass).scopes.views = (site.introducing name).scopes.views :=
    kept.views
  have globals
      : (site.inheriting name superclass).scopes.globals
          = (site.introducing name).scopes.globals :=
    kept.globals
  have changes := (site.scopes.declared_changes name true).trans
    ((site.scopes.declared name true).defined_changes name.lexeme)
  obtain ⟨sameViews, sameGlobals⟩ := changes.other fun view => by
    rw [Table.get?_insert_of_ne _ _ other, Table.get?_insertIfNew_of_ne _ _ other]
  rw [views, globals]
  exact ⟨sameViews, sameGlobals⟩

end Site

-----
-- Methods

section

variable {fresh : String → Prop} {before : Watched} {site : Site}

/-- A site that is awaited stays so with whatever keeps its scopes. -/
theorem Watched.Awaits.kept {scope : Nat} (awaits : before.Awaits scope site) {scopes : Scopes}
    (kept : site.scopes.Kept scopes)
    : before.Awaits scope { site with scopes } := by
  have views : scopes.views = site.scopes.views := kept.views
  obtain ⟨locals, globals⟩ := awaits
  refine ⟨?_, ?_⟩
  · rw [← views] at locals
    exact locals
  · change before.Covers scopes.globals
    rw [kept.globals]
    exact globals

/-- Methods are created as their origins say, by induction on them. -/
theorem tracks_createMethods {methods : List (Method Unit)} {before : Watched} {site : Site}
    (sound : before.Sound) {scope : Nat} (awaits : before.Awaits scope site) (met : site.Sound)
    (proper : ProperMethods methods) (clean : (bindMethods methods site.scopes).2.errors = [])
    {table : Table Closure}
    (waiting : ∀ name method, table.get? name = some method → before.Waiting method)
    : Tracks fresh (Evaluator.createMethods scope table (bindMethods methods site.scopes).1)
        (Watcher.createMethods site scope table methods) before
        (fun table after =>
          ∀ name method, table.get? name = some method → after.Waiting method) := by
  induction methods generalizing before site table with
  | nil => exact .pure sound waiting
  | cons first rest ih =>
      obtain ⟨name, function⟩ := first
      obtain ⟨properFirst, properRest⟩ := proper
      have kept := bindFunction_kept function site.scopes properFirst
      have cleanFirst : (bindFunction function site.scopes).2.errors = [] :=
        (bindMethods_errors properRest _).nil clean
      have origin : Origin.Sound { function, site := site.child 0 } :=
        ⟨met.child 0, properFirst, cleanFirst⟩
      refine (tracks_newClosure sound origin scope (some name.lexeme)
        (name.lexeme = "init")).bind ?_
      rintro closure between grows soundBetween ⟨holds, from_, scope_, -⟩
      have awaiting : between.Awaits scope site := grows.awaits awaits
      have next : between.Awaits scope ((site.after (bindFunction function)).child 1) :=
        ⟨(awaiting.kept kept).locals, (awaiting.kept kept).globals⟩
      refine ih soundBetween next ((met.kept kept).child 1) properRest clean ?_
      intro found method has
      rw [Table.get?_insert] at has
      split at has
      · obtain rfl := Option.some.inj has
        refine ⟨holds, ?_⟩
        rw [from_, scope_]
        exact ⟨awaiting.locals, awaiting.globals⟩
      · exact grows.waiting (waiting found method has)

-----
-- Classes

/-- The scope that methods are created in. -/
theorem tracks_methodScope (sound : before.Sound) {name : Token}
    (fits : before.FitsAt before.machine.current (site.introducing name))
    {clause : Option (Reference Unit)} {superclass : Option Lineage}
    (alike : superclass.isSome = clause.isSome)
    (traced : ∀ lineage, superclass = some lineage → before.Class lineage)
    : Tracks fresh (Evaluator.methodScope superclass) (Watcher.methodScope site superclass) before
        (fun scope after => after.Awaits scope (site.amongMethods name clause)) := by
  have only (name : String) (found : Site.receiverView.get? name = some true) : name = "this" := by
    unfold Site.receiverView at found
    rw [Table.get?_insert] at found
    split at found
    · assumption
    · cases found
  cases superclass with
  | none =>
      obtain rfl : clause = none := by
        cases clause with
        | none => rfl
        | some target => cases alike
      obtain ⟨views, globals⟩ := site.amongMethods_plain name
      refine (tracks_currentScope sound).bind ?_
      rintro scope between _ sound ⟨rfl, rfl⟩
      refine .pure sound ⟨?_, ?_⟩
      · exact ⟨_, site.frames, _, _, rfl, views, rfl, only, fits.locals⟩
      · rw [globals]
        exact fits.globals
  | some lineage =>
      obtain ⟨target, rfl⟩ := Option.isSome_iff_exists.1 alike.symm
      obtain ⟨views, globals⟩ := site.amongMethods_subclass name target
      let frame : Frame := { kind := .superclass, place := site.place }
      let filled := before.openedWith frame before.machine.current "super" (.class lineage)
      have grows : before.Grows fresh filled := .openedWith sound frame _ _ _
      have filledSound : filled.Sound :=
        sound.openedWith _ (traced lineage rfl) (fun isReceiver => by cases isReceiver)
          (fun _ => ⟨rfl, lineage, rfl⟩)
      have watched
          : Watcher.methodScope site (some lineage) before
              = .ok before.machine.scopes.size filled :=
        rfl
      refine .of_ok watched rfl grows filledSound ⟨?_, ?_⟩
      · refine ⟨_, frame :: site.frames, _, _, rfl, views, rfl, only, ?_⟩
        have opens : (before.opened frame before.machine.current).Grows fresh filled :=
          .put _ _ _ fun global => absurd global (Nat.ne_of_gt sound.rooted)
        refine fits.locals.opened opens.toExtends fun name found => ?_
        unfold Site.superclassView at found
        rw [Table.get?_insert] at found
        split at found
        · next same =>
            rw [same, before.cell?_openedWith frame _ "super" _]
            rfl
        · cases found
      · rw [globals]
        exact grows.covers fits.globals

/-- A class is created with the methods that its origins say. -/
theorem tracks_createClass (sound : before.Sound) {name : Token}
    (fits : before.FitsAt before.machine.current (site.introducing name)) (met : site.Sound)
    (isName : name.IsName) {clause : Option (Reference Unit)} {superclass : Option Lineage}
    (alike : superclass.isSome = clause.isSome)
    (traced : ∀ lineage, superclass = some lineage → before.Class lineage)
    {methods : List (Method Unit)} (proper : ProperMethods methods)
    (clean : (bindMethods methods (site.amongMethods name clause).scopes).2.errors = [])
    : Tracks fresh
        (Evaluator.createClass name superclass
          (bindMethods methods (site.amongMethods name clause).scopes).1)
        (Watcher.createClass site name clause superclass methods) before
        (fun lineage after => after.Class lineage) := by
  refine (tracks_methodScope sound fits alike traced).bind ?_
  intro scope between grows soundBetween awaits
  have none (name : String) (method : Closure)
      (has : (Table.empty : Table Closure).get? name = some method)
      : between.Waiting method := by
    cases has
  refine (tracks_createMethods soundBetween awaits (met.amongMethods isName clause) proper clean
    none).bind ?_
  intro table between' grows' sound' waiting
  refine (tracks_freshId sound').bind fun id last grows'' soundLast _ => ?_
  refine .pure soundLast ?_
  have own : ∀ found method, table.get? found = some method → last.Waiting method :=
    fun found method has => grows''.waiting (waiting found method has)
  cases superclass with
  | none =>
      intro body member found method has
      obtain rfl := List.mem_singleton.1 member
      exact own found method has
  | some lineage =>
      intro body member found method has
      rcases List.mem_cons.1 member with rfl | inherited
      · exact own found method has
      · have kept := ((grows.trans grows').trans grows'').class_ (traced lineage rfl)
        exact kept body inherited found method has

/-- No class inherits from itself. -/
theorem inheriting_apart {name : Token} {target : Reference Unit} {methods : List (Method Unit)}
    (proper : ProperMethods methods)
    (clean
      : (bindMethods methods (site.amongMethods name (some target)).scopes).2.errors = [])
    : target.name.lexeme ≠ name.lexeme := by
  have outside : (site.amongMethods name (some target)).scopes.errors = [] :=
    (bindMethods_errors proper _).nil clean
  have read
      : (bindRead target.name (site.inheriting name target.name).scopes).2.errors = [] :=
    outside
  have entered : (site.inheriting name target.name).scopes.errors = [] :=
    errors_nil (bindRead_kept target.name _) read
  intro same
  change (if target.name.lexeme = name.lexeme then _ else _ : Scopes).errors = [] at entered
  rw [if_pos same] at entered
  simp [Scopes.error] at entered

/-- A superclass is looked up before the class itself has a value. -/
theorem tracks_readSuperclass (sound : before.Sound) (reached : before.At site) {name : Token}
    (isName : name.IsName) {target : Token} (other : target.lexeme ≠ name.lexeme)
    : Tracks fresh
        (Evaluator.readSuperclass ((site.inheriting name target).reference (.read target)))
        (Watcher.readSuperclass (site.inheriting name target) target) before
        (fun lineage after => after.Class lineage) := by
  obtain ⟨views, globals⟩ := site.inheriting_other name other
  have ready : before.Ready (site.inheriting name target) target.lexeme :=
    (reached.fits.ready reached.met.standing target.lexeme).congr
      (Site.stands_inheriting reached.met isName target) rfl views globals
  refine (tracks_read sound ready).bind fun value between _ sound traced => ?_
  cases value with
  | «class» lineage => exact .pure sound traced
  | literal | native | closure | object => exact .failAt sound target .superclassNotClass

/-- A superclass clause is tracked, whether it is there or not. -/
theorem tracks_findSuperclass (sound : before.Sound) (reached : before.At site) {name : Token}
    (isName : name.IsName) {clause : Option (Reference Unit)} {methods : List (Method Unit)}
    (proper : ProperMethods methods)
    (clean : (bindMethods methods (site.amongMethods name clause).scopes).2.errors = [])
    : Tracks fresh (Evaluator.findSuperclass (site.superclass name clause))
        (Watcher.findSuperclass site name clause) before
        (fun superclass after =>
          superclass.isSome = clause.isSome
          ∧ ∀ lineage, superclass = some lineage → after.Class lineage) := by
  cases clause with
  | none => exact .pure sound ⟨rfl, fun _ same => nomatch same⟩
  | some target =>
      have other := inheriting_apart proper clean
      refine ((tracks_readSuperclass sound reached isName other).map some).weaken ?_
      rintro _ after _ ⟨lineage, rfl, traced⟩
      exact ⟨rfl, fun found same => Option.some.inj same ▸ traced⟩

/-- The name is defined while the class is being created. -/
theorem tracks_declareClass (sound : before.Sound) (reached : before.At site) {name : Token}
    (isName : name.IsName)
    (allowed
      : ∀ between,
          before.Grows fresh between
          → between.MayWrite fresh between.machine.current name.lexeme)
    {clause : Option (Reference Unit)} {methods : List (Method Unit)}
    (proper : ProperMethods methods)
    (clean : (bindMethods methods (site.amongMethods name clause).scopes).2.errors = [])
    : Tracks fresh
        (Evaluator.declareClass name (site.superclass name clause)
          (bindMethods methods (site.amongMethods name clause).scopes).1)
        (Watcher.declareClass site name clause methods) before
        (fun _ after =>
          (after.machine.scopes.cell? after.machine.current name.lexeme).isSome = true) := by
  unfold Evaluator.declareClass Watcher.declareClass
  refine (tracks_findSuperclass sound reached isName proper clean).bind ?_
  intro found between grows soundBetween ⟨alike, traced⟩
  have here := reached.grows grows
  have defines
      : Tracks fresh (Run.define name .nil) (Watch.lift (Run.define name .nil)) between
          (fun _ after =>
            (after.machine.scopes.cell? after.machine.current name.lexeme).isSome = true) :=
    tracks_define soundBetween isName (here.fits.locals.lt_size soundBetween)
      (fun _ _ _ => trivial) (allowed between grows)
  refine defines.bind fun _ defined more soundDefined has => ?_
  have inside : defined.FitsAt defined.machine.current (site.introducing name) :=
    (here.grows more).fits.introducing has
  refine (tracks_createClass soundDefined inside reached.met isName alike
    (fun lineage same => more.class_ (traced lineage same)) proper clean).bind ?_
  intro lineage created more' soundCreated tracedClass
  have kept
      : (created.machine.scopes.cell? created.machine.current name.lexeme).isSome = true := by
    rw [more'.current]
    exact more'.cell _ _ has
  refine (tracks_currentScope soundCreated).bind ?_
  rintro scope current _ soundCurrent ⟨rfl, rfl⟩
  have tracedValue : current.Traced (.class lineage) := tracedClass
  refine (tracks_assignFrom soundCurrent _ isName tracedValue).bind ?_
  intro _ assigned assigns soundAssigned _
  refine (tracks_tell soundAssigned _).weaken fun _ last tells _ => ?_
  rw [tells.current, assigns.current]
  exact tells.cell _ _ (assigns.cell _ _ kept)

end

end Lox.Scoping
