import Lox.Proofs.Binding.Walk
import Lox.Proofs.Table

/-! Binding a program where more global names are known.

Nothing depends on it but which reads count as reads of a variable in its own initializer. Under a
name that is known they do not: behind everything that is passed over stands a defined global.
-/

namespace Lox

/-- A variable of one of the names is read in its own initializer. -/
def Diagnostic.readsItself (names : List String) (diagnostic : Diagnostic) : Bool :=
  match diagnostic.problem, diagnostic.site with
  | .readInOwnInitializer, .atLexeme lexeme => names.contains lexeme
  | _, _ => false

/-- A report at another name is no self-read of a name that became known. -/
theorem Diagnostic.readsItself_of_other {names : List String} {token : Token} (problem : Problem)
    (other : token.lexeme ∉ names)
    : (Diagnostic.atToken token problem).readsItself names = false := by
  unfold atToken Site.ofToken readsItself
  by_cases last : token.kind = .endOfInput <;> cases problem <;> simp [last, other]

/-- All but the reads of the names in their own initializers. -/
def Diagnostic.others (names : List String) (diagnostics : List Diagnostic) : List Diagnostic :=
  diagnostics.filter fun diagnostic => !diagnostic.readsItself names

/-- The second list is the first, in its order, without some diagnostics that may be spared. -/
inductive Diagnostic.Spared (mayBe : Diagnostic → Prop) : List Diagnostic → List Diagnostic → Prop
  | none : Spared mayBe [] []
  | keep {all kept} (diagnostic : Diagnostic) (rest : Spared mayBe all kept)
    : Spared mayBe (diagnostic :: all) (diagnostic :: kept)
  | spare {diagnostic all kept} (may : mayBe diagnostic) (rest : Spared mayBe all kept)
    : Spared mayBe (diagnostic :: all) kept

namespace Diagnostic.Spared

variable {mayBe : Diagnostic → Prop} {all kept : List Diagnostic}

/-- Nothing is spared of the same reports. -/
theorem refl (diagnostics : List Diagnostic) : Spared mayBe diagnostics diagnostics := by
  induction diagnostics with
  | nil => exact .none
  | cons diagnostic rest ih => exact .keep diagnostic ih

/-- What is spared of two lists is spared of both in a row. -/
theorem append (front : Spared mayBe all kept) {all' kept' : List Diagnostic}
    (back : Spared mayBe all' kept')
    : Spared mayBe (all ++ all') (kept ++ kept') := by
  induction front with
  | none => exact back
  | keep diagnostic rest ih => exact .keep diagnostic ih
  | spare may rest ih => exact .spare may ih

/-- What a stronger condition spares a weaker one spares too. -/
theorem weaken (spared : Spared mayBe all kept) {mayBe' : Diagnostic → Prop}
    (weaker : ∀ diagnostic, mayBe diagnostic → mayBe' diagnostic)
    : Spared mayBe' all kept := by
  induction spared with
  | none => exact .none
  | keep diagnostic rest ih => exact .keep diagnostic ih
  | spare may rest ih => exact .spare (weaker _ may) ih

/-- Where exactly the reads of the names may be spared, and none is kept, all of them are. -/
theorem others {names : List String} (spared : Spared mayBe all kept)
    (may : ∀ diagnostic, mayBe diagnostic → diagnostic.readsItself names = true)
    (none : ∀ diagnostic ∈ kept, diagnostic.readsItself names = false)
    : kept = Diagnostic.others names all := by
  unfold Diagnostic.others
  induction spared with
  | none => rfl
  | keep diagnostic rest ih =>
      obtain ⟨here, none⟩ := List.forall_mem_cons.1 none
      rw [List.filter_cons_of_pos (by simp [here]), ← ih none]
  | spare here rest ih => rw [List.filter_cons_of_neg (by simp [may _ here]), ← ih none]

end Diagnostic.Spared

namespace Binding

/-- The error of a read of one of the names in its own initializer, at a token that may be read. -/
def IsOwnRead (mayRead : Token → Prop) (names : List String) (diagnostic : Diagnostic) : Prop :=
  ∃ name,
    mayRead name
    ∧ name.lexeme ∈ names
    ∧ diagnostic = Diagnostic.atToken name .readInOwnInitializer

-----
-- Two places that differ in what is known

/-- The same place, where some more globals are known to be defined. What is read are tokens that
may be read. -/
structure Scopes.Informs (mayRead : Token → Prop) (names : List String) (less more : Scopes)
    : Prop where
  same : more = { less with globals := more.globals, errors := more.errors }
  known (name : String) (extra : name ∈ names) : more.globals.get? name = some true
  globals (name : String) (old : name ∉ names)
    : more.globals.get? name = less.globals.get? name
  errors : Diagnostic.Spared (IsOwnRead mayRead names) less.errors more.errors
  others : ∀ error ∈ more.errors, error.readsItself names = false

/-- Outside of all scopes a declaration concerns the globals. -/
theorem Scopes.declared_outside {scopes : Scopes} (outside : scopes.locals = []) (name : Token)
    (tracked : Bool)
    : scopes.declared name tracked
        = { scopes with globals := scopes.globals.insertIfNew name.lexeme false } := by
  simp only [declared, outside]

/-- A definition outside of all scopes makes the name a known global. -/
theorem Scopes.defined_outside {scopes : Scopes} (outside : scopes.locals = []) (name : String)
    : scopes.defined name = { scopes with globals := scopes.globals.insert name true } := by
  simp only [defined, outside]

namespace Scopes.Informs

variable {mayRead : Token → Prop} {names : List String} {less more : Scopes}

/-- A change that has nothing to do with globals or errors. -/
theorem changed (informs : less.Informs mayRead names more) (change : Scopes → Scopes)
    (apart
      : ∀ globals errors,
          change { less with globals := globals, errors := errors }
            = { change less with globals := globals, errors := errors })
    : (change less).Informs mayRead names (change more) := by
  obtain ⟨same, known, globals, errors, others⟩ := informs
  have unchanged := apart less.globals less.errors
  have moved := apart more.globals more.errors
  rw [← same] at moved
  have more' : (change more).globals = more.globals ∧ (change more).errors = more.errors := by
    rw [moved]
    exact ⟨rfl, rfl⟩
  have less' : (change less).globals = less.globals ∧ (change less).errors = less.errors := by
    rw [unchanged]
    exact ⟨rfl, rfl⟩
  refine ⟨?_, ?_, ?_, ?_, ?_⟩
  · rw [more'.1, more'.2]
    exact moved
  · rw [more'.1]
    exact known
  · rw [more'.1, less'.1]
    exact globals
  · rw [more'.2, less'.2]
    exact errors
  · rw [more'.2]
    exact others

/-- Using an entry leaves the two states apart by the known names alone. -/
theorem used (informs : less.Informs mayRead names more) (distance : Nat) (name : String)
    : (less.used distance name).Informs mayRead names (more.used distance name) :=
  informs.changed (·.used distance name) fun _ _ => rfl

/-- A scope opened on both sides leaves them apart by the known names alone. -/
theorem opened (informs : less.Informs mayRead names more)
    : less.opened.Informs mayRead names more.opened :=
  informs.changed Scopes.opened fun _ _ => rfl

/-- A scope closed on both sides reports the same warnings. -/
theorem closed (informs : less.Informs mayRead names more)
    : less.closed.Informs mayRead names more.closed := by
  refine informs.changed Scopes.closed fun globals errors => ?_
  obtain ⟨locals⟩ := less
  cases locals <;> rfl

/-- Entering a function on both sides leaves them apart by the known names alone. -/
theorem enteredFunction (informs : less.Informs mayRead names more)
    : less.enteredFunction.Informs mayRead names more.enteredFunction :=
  informs.changed Scopes.enteredFunction fun _ _ => rfl

/-- Entering a loop on both sides leaves them apart by the known names alone. -/
theorem enteredLoop (informs : less.Informs mayRead names more)
    : less.enteredLoop.Informs mayRead names more.enteredLoop :=
  informs.changed Scopes.enteredLoop fun _ _ => rfl

/-- Leaving a loop on both sides leaves them apart by the known names alone. -/
theorem leftLoop (informs : less.Informs mayRead names more)
    : Informs mayRead names { less with loopDepth := less.loopDepth - 1 }
        { more with loopDepth := more.loopDepth - 1 } :=
  informs.changed (fun scopes => { scopes with loopDepth := scopes.loopDepth - 1 })
    fun _ _ => rfl

/-- Entering a class on both sides leaves them apart by the known names alone. -/
theorem enteredClass (informs : less.Informs mayRead names more) (context : ClassContext)
    : (less.enteredClass context).Informs mayRead names (more.enteredClass context) :=
  informs.changed (·.enteredClass context) fun _ _ => rfl

/-- The local scopes do not depend on the names that are known. -/
theorem locals (informs : less.Informs mayRead names more) : more.locals = less.locals := by
  rw [informs.same]

/-- The warnings do not depend on the names that are known. -/
theorem warnings (informs : less.Informs mayRead names more) : more.warnings = less.warnings := by
  rw [informs.same]

/-- The class context does not depend on the names that are known. -/
theorem classContext (informs : less.Informs mayRead names more)
    : more.classContext = less.classContext := by
  rw [informs.same]

/-- The function that is left was entered from two places that differ alike. -/
theorem leftFunction (informs : less.Informs mayRead names more) {before before' : Scopes}
    (entered : before.Informs mayRead names before')
    : (less.leftFunction before).Informs mayRead names (more.leftFunction before') := by
  have back : more.leftFunction before' = more.leftFunction before := by
    rw [entered.same]
    rfl
  rw [back]
  exact informs.changed (·.leftFunction before) fun _ _ => rfl

/-- Globals may change on both sides as long as the known ones stay defined. -/
theorem withGlobals (informs : less.Informs mayRead names more) {table table' : Table Bool}
    (known : ∀ name ∈ names, table'.get? name = some true)
    (globals : ∀ name, name ∉ names → table'.get? name = table.get? name)
    : Informs mayRead names { less with globals := table } { more with globals := table' } := by
  refine ⟨?_, known, globals, informs.errors, informs.others⟩
  rw [informs.same]

/-- A declaration is made alike on both sides, in a scope or outside of all. -/
theorem declared (informs : less.Informs mayRead names more) (name : Token) (tracked : Bool)
    : (less.declared name tracked).Informs mayRead names (more.declared name tracked) := by
  cases inside : less.locals with
  | nil =>
      rw [declared_outside inside, declared_outside (informs.locals.trans inside)]
      refine informs.withGlobals (fun other extra => ?_) fun other old => ?_
      · have known := informs.known other extra
        rw [Table.get?_insertIfNew]
        split
        · next new =>
            rw [new.1, new.2] at known
            cases known
        · exact known
      · rw [Table.get?_insertIfNew, Table.get?_insertIfNew, informs.globals other old]
        by_cases here : other = name.lexeme
        · rw [← here, informs.globals other old]
        · simp only [here, false_and, if_false]
  | cons scope outer =>
      refine informs.changed (·.declared name tracked) fun globals errors => ?_
      simp only [Scopes.declared, inside]

/-- A definition is made alike on both sides, in a scope or outside of all. -/
theorem defined (informs : less.Informs mayRead names more) (name : String)
    : (less.defined name).Informs mayRead names (more.defined name) := by
  cases inside : less.locals with
  | nil =>
      rw [defined_outside inside, defined_outside (informs.locals.trans inside)]
      refine informs.withGlobals (fun other extra => ?_) fun other old => ?_
      · rw [Table.get?_insert, informs.known other extra, ite_self]
      · rw [Table.get?_insert, Table.get?_insert, informs.globals other old]
  | cons scope outer =>
      refine informs.changed (·.defined name) fun globals errors => ?_
      simp only [Scopes.defined, inside]

/-- An error that is none of the reads in question. -/
theorem error (informs : less.Informs mayRead names more) (token : Token) {problem : Problem}
    (other : (Diagnostic.atToken token problem).readsItself names = false)
    : (less.error token problem).Informs mayRead names (more.error token problem) := by
  refine ⟨?_, informs.known, informs.globals, informs.errors.append (.refl _), ?_⟩
  · exact congrArg (fun scopes : Scopes =>
      { scopes with errors := more.errors ++ [Diagnostic.atToken token problem] }) informs.same
  · intro error member
    rcases List.mem_append.1 member with earlier | here
    · exact informs.others error earlier
    · exact List.mem_singleton.1 here ▸ other

/-- One of the reads in question is an error where the name is not known. -/
theorem error_less (informs : less.Informs mayRead names more) {name : Token}
    (among : mayRead name) (extra : name.lexeme ∈ names)
    : (less.error name .readInOwnInitializer).Informs mayRead names more := by
  refine ⟨informs.same, informs.known, informs.globals, ?_, informs.others⟩
  have spared := informs.errors.append (.spare ⟨name, among, extra, rfl⟩ .none)
  rwa [List.append_nil] at spared

end Scopes.Informs

/-- A step comes to the same, but for the reads in question, where the names are known. -/
def Informed (mayRead : Token → Prop) (names : List String) {α : Type} (action : Binder α) : Prop :=
  ∀ less more : Scopes,
    less.Informs mayRead names more
    → (action more).1 = (action less).1 ∧ (action less).2.Informs mayRead names (action more).2

namespace Informed

variable {mayRead : Token → Prop} {names : List String} {α β : Type}

/-- The same value on both sides depends on no known name. -/
theorem pure (value : α) : Informed mayRead names (Pure.pure value) :=
  fun _ _ informs => ⟨rfl, informs⟩

/-- Two actions in a row differ by spared reports alone if each does. -/
theorem bind {action : Binder α} {next : α → Binder β} (front : Informed mayRead names action)
    (back : ∀ value, Informed mayRead names (next value))
    : Informed mayRead names (action >>= next) := by
  intro less more informs
  obtain ⟨same, between⟩ := front less more informs
  change (next (action more).1 (action more).2).1 = (next (action less).1 (action less).2).1
    ∧ (next (action less).1 (action less).2).2.Informs mayRead names
        (next (action more).1 (action more).2).2
  rw [same]
  exact back (action less).1 _ _ between

/-- A change that respects the difference may be made on both sides. -/
theorem changes {change : Scopes → Scopes}
    (kept
      : ∀ less more : Scopes,
          less.Informs mayRead names more
          → (change less).Informs mayRead names (change more))
    : Informed mayRead names (modify change) :=
  fun less more informs => ⟨rfl, kept less more informs⟩

/-- An assignment finds the same entry on both sides. -/
theorem nearest (name : Token) : Informed mayRead names (bindNearest name) := by
  intro less more informs
  unfold bindNearest
  rw [informs.locals]
  cases nearest? name.lexeme less.locals with
  | none => exact ⟨rfl, informs⟩
  | some distance => exact ⟨rfl, informs.used distance _⟩

/-- No read of a name that is known counts as one of the reads in question. -/
theorem read {name : Token} (among : mayRead name) : Informed mayRead names (bindRead name) := by
  intro less more informs
  have search : more.search name.lexeme = less.search name.lexeme := by
    rw [informs.same]
    rfl
  unfold bindRead
  simp only [search]
  cases (less.search name.lexeme).distance with
  | some distance => exact ⟨rfl, informs.used distance _⟩
  | none =>
      by_cases extra : name.lexeme ∈ names
      · have known
            : more.readsItself name.lexeme (less.search name.lexeme).passedPending = false := by
          simp [Scopes.readsItself, informs.known name.lexeme extra]
        simp only [known, Bool.false_eq_true, if_false]
        split
        · exact ⟨rfl, informs.error_less among extra⟩
        · exact ⟨rfl, informs⟩
      · have same
            : more.readsItself name.lexeme (less.search name.lexeme).passedPending
                = less.readsItself name.lexeme (less.search name.lexeme).passedPending := by
          have function : more.inFunction = less.inFunction := by rw [informs.same]
          unfold Scopes.readsItself
          rw [informs.globals name.lexeme extra, function]
        simp only [same]
        split
        · exact ⟨rfl, informs.error name (Diagnostic.readsItself_of_other _ extra)⟩
        · exact ⟨rfl, informs⟩

/-- `this` finds the same scope on both sides. -/
theorem this (keyword : Token) : Informed mayRead names (bindThis keyword) := by
  intro less more informs
  have near := nearest keyword less more informs
  unfold bindThis
  rw [informs.classContext]
  cases less.classContext with
  | outside => exact ⟨rfl, informs.error keyword rfl⟩
  | plain | subclass => exact near

/-- `super` finds the same scope on both sides. -/
theorem super (keyword : Token) : Informed mayRead names (bindSuper keyword) := by
  intro less more informs
  have near := nearest keyword less more informs
  unfold bindSuper
  rw [informs.classContext]
  cases less.classContext with
  | outside | plain => exact ⟨rfl, informs.error keyword rfl⟩
  | subclass => exact near

/-- A `break` is judged alike on both sides. -/
theorem checkBreak (keyword : Token) : Informed mayRead names (checkBreak keyword) := by
  refine .changes fun less more informs => ?_
  have depth : more.loopDepth = less.loopDepth := by rw [informs.same]
  rw [depth]
  split
  · exact informs.error keyword rfl
  · exact informs

/-- A `return` is judged alike on both sides. -/
theorem checkReturn (keyword : Token) : Informed mayRead names (checkReturn keyword) := by
  refine .changes fun less more informs => ?_
  have function : more.inFunction = less.inFunction := by rw [informs.same]
  rw [function]
  split
  · exact informs
  · exact informs.error keyword rfl

/-- A superclass clause is judged alike on both sides. -/
theorem enterSubclass (name superclass : Token)
    : Informed mayRead names (enterSubclass name superclass) := by
  refine .changes fun less more informs => ?_
  have entered := informs.enteredClass .subclass
  simp only
  split
  · exact entered.error superclass rfl
  · exact entered

/-- What happens in a scope differs by spared reports alone. -/
theorem inScope {action : Binder α} (inside : Informed mayRead names action)
    : Informed mayRead names (inScope action) := by
  have opens : Informed mayRead names (modify Scopes.opened) := .changes fun _ _ => (·.opened)
  have closes : Informed mayRead names (modify Scopes.closed) := .changes fun _ _ => (·.closed)
  exact opens.bind fun _ => inside.bind fun _ => closes.bind fun _ => .pure _

/-- What happens in a loop differs by spared reports alone. -/
theorem inLoop {action : Binder α} (inside : Informed mayRead names action)
    : Informed mayRead names (inLoop action) := by
  have enters : Informed mayRead names (modify Scopes.enteredLoop) :=
    .changes fun _ _ => (·.enteredLoop)
  refine enters.bind fun _ => inside.bind fun _ => bind ?_ fun _ => .pure _
  exact .changes fun _ _ => (·.leftLoop)

/-- What happens in a function differs by spared reports alone. -/
theorem inFunction {action : Binder α} (inside : Informed mayRead names action)
    : Informed mayRead names (inFunction action) := by
  intro less more informs
  obtain ⟨same, after⟩ := inside _ _ informs.enteredFunction
  exact ⟨same, after.leftFunction informs⟩

/-- What happens in a class differs by spared reports alone. -/
theorem inClass {action : Binder α} (inside : Informed mayRead names action)
    : Informed mayRead names (inClass action) := by
  intro less more informs
  obtain ⟨same, after⟩ := inside _ _ (informs.enteredClass .plain)
  refine ⟨same, ?_⟩
  have left := after.enteredClass less.classContext
  change Scopes.Informs mayRead names _ (Scopes.enteredClass _ more.classContext)
  rw [informs.classContext]
  exact left

/-- Every step of the binder differs by spared reports alone when more names are known. -/
theorem steps (mayRead : Token → Prop) (names : List String)
    : Steps mayRead (Informed mayRead names) where
  pure := pure
  bind := bind
  read := read
  nearest := nearest
  this := this
  super := super
  declare name := changes fun _ _ informs => informs.declared name true
  define name := changes fun _ _ informs => informs.defined name.lexeme
  declareParameter name :=
    changes fun _ _ informs => (informs.declared name false).defined name.lexeme
  defineImplicit name := changes fun _ _ informs => informs.defined name
  checkBreak := checkBreak
  checkReturn := checkReturn
  enterSubclass := enterSubclass
  inScope := inScope
  inLoop := inLoop
  inFunction := inFunction
  inClass := inClass

end Informed

end Binding

-----
-- Whole programs

/-- What is bound and what is warned about are the same, and so are the errors but for some that
may be spared. -/
structure Bound.Spares (mayBe : Diagnostic → Prop) (less more : Bound) : Prop where
  statements : more.statements = less.statements
  warnings : more.warnings = less.warnings
  errors : Diagnostic.Spared mayBe less.errors more.errors

/-- What is bound and what is warned about are the same, and so are the errors but for the reads of
the names in their own initializers. -/
structure Bound.Informs (names : List String) (less more : Bound) : Prop where
  statements : more.statements = less.statements
  warnings : more.warnings = less.warnings
  errors : more.errors = Diagnostic.others names less.errors

section

variable {known more : List String}

/-- The names that are known besides. -/
theorem mem_besides {name : String}
    : name ∈ (more.filter fun name => !known.contains name) ↔ name ∈ more ∧ name ∉ known := by
  simp

/-- At the start the two states differ by the names that only one side knows. -/
theorem start_informs (mayRead : Token → Prop) (larger : known ⊆ more)
    : (Binding.Scopes.start known).Informs mayRead (more.filter fun name => !known.contains name)
        (.start more) := by
  have marked (listed : List String) (name : String)
      : (Binding.Scopes.start listed).globals.get? name
          = if name ∈ listed then some true else none :=
    Table.get?_marked listed .empty name
  refine ⟨rfl, fun name extra => ?_, fun name old => ?_, .none,
    fun _ member => absurd member List.not_mem_nil⟩
  · rw [marked, if_pos (mem_besides.1 extra).1]
  · rw [marked, marked]
    by_cases old' : name ∈ known
    · rw [if_pos old', if_pos (larger old')]
    · rw [if_neg old', if_neg fun new => old (mem_besides.2 ⟨new, old'⟩)]

/-- Names that are known besides keep reads of them from being errors, and do nothing else. -/
theorem bind_spares (larger : known ⊆ more) (statements : List (Stmt Unit))
    : let names := more.filter fun name => !known.contains name
      let isRead (name : Token) := ∃ target ∈ Binding.stmtsVariables statements, target.name = name
      (bind known statements).Spares (Binding.IsOwnRead isRead names) (bind more statements)
      ∧ ∀ error ∈ (bind more statements).errors, error.readsItself names = false := by
  intro names isRead
  obtain ⟨same, informs⟩ :=
    (Binding.Informed.steps isRead names).bindStmts statements
      (fun target member => ⟨target, member, rfl⟩) _ _ (start_informs isRead larger)
  exact ⟨⟨same, informs.warnings, informs.errors⟩, informs.others⟩

/-- In a proper tree all of these reads are errors at a name. -/
theorem bind_informs (larger : known ⊆ more) {statements : List (Stmt Unit)}
    (proper : ProperStmts statements)
    : (bind known statements).Informs (more.filter fun name => !known.contains name)
        (bind more statements) := by
  obtain ⟨spares, others⟩ := bind_spares larger statements
  refine ⟨spares.statements, spares.warnings, spares.errors.others ?_ others⟩
  rintro _ ⟨_, ⟨target, member, rfl⟩, extra, rfl⟩
  have isName := Binding.stmtsVariables_proper statements proper target member
  have inside : target.name.kind ≠ .endOfInput := by simp [isName.1]
  simpa [Diagnostic.atToken, Site.ofToken, inside, Diagnostic.readsItself] using extra

end

end Lox
