import Lox.Proofs.Binding.Lookup
import Lox.Proofs.Joining.Trees

/-! Binding a program that stands further down, behind other programs.

What a reference is bound to depends on the open scopes alone. Which globals are known only decides
what is an error, and the more are known the less is.
-/

namespace Lox.Binding

-----
-- Knowing more globals

/-- Every global known to be defined in the narrow table is so in the wide one, and no global is
pending in the wide table alone. -/
structure Knows (wide narrow : Table Bool) : Prop where
  known (name : String) (known : narrow.get? name = some true) : wide.get? name = some true
  pending (name : String) (pending : wide.get? name = some false) : narrow.get? name = some false

namespace Knows

variable {wide narrow : Table Bool}

/-- A name that both define is known to both. -/
theorem insert (knows : Knows wide narrow) (name : String)
    : Knows (wide.insert name true) (narrow.insert name true) := by
  refine ⟨fun other known => ?_, fun other pending => ?_⟩
  · rw [Table.get?_insert] at known ⊢
    split
    · rfl
    · next apart => exact knows.known other (by rwa [if_neg apart] at known)
  · rw [Table.get?_insert] at pending ⊢
    split at pending
    · cases pending
    · next apart => rw [if_neg apart, knows.pending other pending]

/-- A name that both declare anew is known to the whole if it is to the part. -/
theorem insertIfNew (knows : Knows wide narrow) (name : String)
    : Knows (wide.insertIfNew name false) (narrow.insertIfNew name false) := by
  refine ⟨fun other known => ?_, fun other pending => ?_⟩
  · rw [Table.get?_insertIfNew] at known ⊢
    split at known
    · cases known
    · have known := knows.known other known
      split
      · next new =>
          rw [new.1, new.2] at known
          cases known
      · exact known
  · rw [Table.get?_insertIfNew] at pending ⊢
    split
    · rfl
    · next old =>
        split at pending
        · next new =>
            obtain ⟨rfl, new⟩ := new
            cases found : narrow.get? other with
            | none => exact absurd ⟨rfl, found⟩ old
            | some flag =>
                cases flag with
                | false => rfl
                | true =>
                    have known := knows.known _ found
                    rw [new] at known
                    cases known
        · exact knows.pending other pending

end Knows

/-- The whole program and one of its parts at the same place. The same scopes are open, the whole
knows at least the globals that the part knows, and has no errors unless the part has some. -/
structure Scopes.Exceeds (whole part : Scopes) : Prop where
  views : whole.views = part.views
  globals : Knows whole.globals part.globals
  errors (clean : part.errors = []) : whole.errors = []
  inFunction : whole.inFunction = part.inFunction
  classContext : whole.classContext = part.classContext
  loopDepth : whole.loopDepth = part.loopDepth
  functionBase : whole.functionBase = part.functionBase

/-- Two steps of the walk keep to each other, and the results are the same but for their lines. -/
def Agrees {α β : Type} (image : α → β) (whole : Binder α) (part : Binder β) : Prop :=
  ∀ (wide : Scopes) (narrow : Scopes),
    wide.Exceeds narrow
    → (part narrow).1 = image (whole wide).1 ∧ (whole wide).2.Exceeds (part narrow).2

namespace Agrees

variable {α β γ δ : Type} {image : α → β} {whole : Binder α} {part : Binder β}

/-- Doing nothing agrees. -/
theorem pure (image : α → β) (value : α)
    : Agrees image (Pure.pure value) (Pure.pure (image value)) :=
  fun _ _ exceeds => ⟨rfl, exceeds⟩

/-- Steps in a row agree if each does. -/
theorem bind {image' : γ → δ} {next : α → Binder γ} {next' : β → Binder δ}
    (front : Agrees image whole part)
    (back : ∀ value, Agrees image' (next value) (next' (image value)))
    : Agrees image' (whole >>= next) (part >>= next') := by
  intro wide narrow exceeds
  obtain ⟨same, between⟩ := front wide narrow exceeds
  have rest := back (whole wide).1 (whole wide).2 (part narrow).2 between
  rw [← same] at rest
  exact rest

/-- A change agrees if the whole still exceeds the part behind it. -/
theorem changed {change change' : Scopes → Scopes}
    (kept : ∀ wide narrow : Scopes, wide.Exceeds narrow → (change wide).Exceeds (change' narrow))
    : Agrees id (modify change) (modify change') :=
  fun wide narrow exceeds => ⟨rfl, kept wide narrow exceeds⟩

end Agrees

-----
-- Single changes

namespace Scopes.Exceeds

variable {whole part : Scopes}

/-- As many scopes are open in the whole as in the part. -/
theorem length (exceeds : whole.Exceeds part) : whole.locals.length = part.locals.length := by
  rw [← whole.views_length, exceeds.views, part.views_length]

/-- Either no scope is open in both, or in both one that has the same names. -/
theorem innermost (exceeds : whole.Exceeds part)
    : whole.locals = [] ∧ part.locals = []
      ∨ ∃ scope others scope' others',
          whole.locals = scope :: others
          ∧ part.locals = scope' :: others'
          ∧ scope'.names = scope.names
          ∧ others'.map (·.names) = others.map (·.names) := by
  have views : whole.locals.map (·.names) = part.locals.map (·.names) := exceeds.views
  cases outer : whole.locals with
  | nil => exact .inl ⟨rfl, by simpa [outer] using views.symm⟩
  | cons scope others =>
      rw [outer, List.map_cons] at views
      obtain ⟨scope', others', split, names, rest⟩ := List.map_eq_cons_iff.1 views.symm
      exact .inr ⟨scope, others, scope', others', rfl, split, names, rest⟩

/-- What is noted beside the names is of no interest. -/
theorem used (exceeds : whole.Exceeds part) (distance : Nat) (name : String)
    : (whole.used distance name).Exceeds (part.used distance name) :=
  { exceeds with
    views :=
      (Scopes.Kept.used whole distance name).views.trans
        (exceeds.views.trans (Scopes.Kept.used part distance name).views.symm) }

/-- With an error in the part, nothing is claimed of the errors of the whole. -/
theorem error (exceeds : whole.Exceeds part) (token token' : Token) (problem : Problem)
    : (whole.error token problem).Exceeds (part.error token' problem) :=
  { exceeds with errors := fun clean => absurd clean (by simp [Scopes.error]) }

/-- A mistake of the part alone does no harm. -/
theorem error_part (exceeds : whole.Exceeds part) (token : Token) (problem : Problem)
    : whole.Exceeds (part.error token problem) :=
  { exceeds with errors := fun clean => absurd clean (by simp [Scopes.error]) }

/-- Opening a scope in both keeps them together. -/
theorem opened (exceeds : whole.Exceeds part) : whole.opened.Exceeds part.opened :=
  { exceeds with views := congrArg (_ :: ·) exceeds.views }

/-- Closing a scope in both keeps them together. -/
theorem closed (exceeds : whole.Exceeds part) : whole.closed.Exceeds part.closed := by
  unfold Scopes.closed
  obtain ⟨none, none'⟩ | ⟨_, _, _, _, split, split', -, same⟩ := exceeds.innermost
  · rw [none, none']
    exact exceeds
  · rw [split, split']
    exact { exceeds with views := same.symm }

/-- Entering a function in both keeps them together. -/
theorem entered (exceeds : whole.Exceeds part)
    : whole.enteredFunction.Exceeds part.enteredFunction :=
  { exceeds with inFunction := rfl, loopDepth := rfl, functionBase := exceeds.length }

/-- Leaving a function in both keeps them together, if they were before it. -/
theorem left (exceeds : whole.Exceeds part) {wholeBefore partBefore : Scopes}
    (before : wholeBefore.Exceeds partBefore)
    : (whole.leftFunction wholeBefore).Exceeds (part.leftFunction partBefore) :=
  { exceeds with
    inFunction := before.inFunction
    loopDepth := before.loopDepth
    functionBase := before.functionBase }

/-- Entering a loop in both keeps them together. -/
theorem enteredLoop (exceeds : whole.Exceeds part)
    : whole.enteredLoop.Exceeds part.enteredLoop :=
  { exceeds with loopDepth := congrArg (· + 1) exceeds.loopDepth }

/-- Leaving a loop in both keeps them together. -/
theorem leftLoop (exceeds : whole.Exceeds part)
    : Exceeds { whole with loopDepth := whole.loopDepth - 1 }
        { part with loopDepth := part.loopDepth - 1 } :=
  { exceeds with loopDepth := congrArg (· - 1) exceeds.loopDepth }

/-- Entering a class in both keeps them together. -/
theorem enteredClass (exceeds : whole.Exceeds part) (context : ClassContext)
    : (whole.enteredClass context).Exceeds (part.enteredClass context) :=
  { exceeds with classContext := rfl }

/-- A global that is declared in both stays pending where it was, and nowhere else. -/
theorem declared (exceeds : whole.Exceeds part) {name name' : Token}
    (same : name'.lexeme = name.lexeme) (tracked : Bool)
    : (whole.declared name tracked).Exceeds (part.declared name' tracked) := by
  unfold Scopes.declared
  rw [same]
  obtain ⟨none, none'⟩ | ⟨_, _, _, _, split, split', names, rest⟩ := exceeds.innermost
  · rw [none, none']
    exact { exceeds with views := rfl, globals := exceeds.globals.insertIfNew _ }
  · rw [split, split']
    exact { exceeds with
      views := by simp [Scopes.views, LocalScope.declared, same, names, rest] }

/-- Defining a name in both keeps them together. -/
theorem defined (exceeds : whole.Exceeds part) (name : String)
    : (whole.defined name).Exceeds (part.defined name) := by
  unfold Scopes.defined
  obtain ⟨none, none'⟩ | ⟨_, _, _, _, split, split', names, rest⟩ := exceeds.innermost
  · rw [none, none']
    exact { exceeds with views := rfl, globals := exceeds.globals.insert _ }
  · rw [split, split']
    exact { exceeds with views := by simp [Scopes.views, LocalScope.defined, names, rest] }

/-- What reads itself in the whole does so in the part, too. -/
theorem readsItself (exceeds : whole.Exceeds part) {name : String} {passedPending : Bool}
    (reads : whole.readsItself name passedPending = true)
    : part.readsItself name passedPending = true := by
  obtain ⟨known, pending⟩ := exceeds.globals
  unfold Scopes.readsItself at reads ⊢
  simp only [exceeds.inFunction, Bool.and_eq_true, Bool.or_eq_true, decide_eq_true_eq] at reads ⊢
  obtain ⟨starts, unknown⟩ := reads
  refine ⟨starts.imp_right fun global => ⟨global.1, pending name global.2⟩, fun defined => ?_⟩
  exact unknown (known name defined)

end Scopes.Exceeds

-----
-- Names

section

variable (move : Nat → Nat)

/-- A search looks at names, and at nothing else that is known of the scopes. -/
theorem searchFrom_congr (name : String) (own distance : Nat) (passed : Bool)
    {locals locals' : List LocalScope} (views : locals.map (·.names) = locals'.map (·.names))
    : searchFrom name own distance passed locals = searchFrom name own distance passed locals' := by
  induction locals generalizing distance passed locals' with
  | nil => rw [List.map_eq_nil_iff.1 views.symm]
  | cons scope outer ih =>
      obtain ⟨scope', outer', rfl, names, rest⟩ := List.map_eq_cons_iff.1 views.symm
      have names : scope'.names = scope.names := names
      have inner (distance : Nat) (passed : Bool) := ih distance passed rest.symm
      simp only [searchFrom, names, inner]

/-- The nearest declaration depends on the names of the scopes alone, by induction on the scopes. -/
theorem nearest?_congr (name : String) {locals locals' : List LocalScope}
    (views : locals.map (·.names) = locals'.map (·.names))
    : nearest? name locals = nearest? name locals' := by
  have inViews (locals : List LocalScope)
      : nearest? name locals = (locals.map (·.names)).findIdx? (·.contains name) := by
    rw [List.findIdx?_map]
    rfl
  rw [inViews, inViews, views]

/-- Looking for the nearest declaration agrees, since the same scopes have the same names. -/
theorem bindNearest_agrees (name : Token)
    : Agrees id (bindNearest name) (bindNearest (name.moved move)) := by
  intro wide narrow exceeds
  unfold bindNearest
  rw [Token.moved_lexeme, ← nearest?_congr name.lexeme exceeds.views]
  cases nearest? name.lexeme wide.locals with
  | none => exact ⟨rfl, exceeds⟩
  | some distance => exact ⟨rfl, exceeds.used distance _⟩

/-- A read agrees: what the part knows globally the whole knows as well. -/
theorem bindRead_agrees (name : Token)
    : Agrees id (bindRead name) (bindRead (name.moved move)) := by
  intro wide narrow exceeds
  have same : narrow.search name.lexeme = wide.search name.lexeme := by
    unfold Scopes.search
    rw [← exceeds.length, ← exceeds.functionBase]
    exact (searchFrom_congr _ _ _ _ exceeds.views).symm
  unfold bindRead
  simp only [Token.moved_lexeme, same]
  cases (wide.search name.lexeme).distance with
  | some distance => exact ⟨rfl, exceeds.used distance _⟩
  | none =>
      simp only
      by_cases wideReads
          : wide.readsItself name.lexeme (wide.search name.lexeme).passedPending = true
      · rw [if_pos wideReads, if_pos (exceeds.readsItself wideReads)]
        exact ⟨rfl, exceeds.error _ _ _⟩
      · rw [if_neg wideReads]
        split
        · exact ⟨rfl, exceeds.error_part _ _⟩
        · exact ⟨rfl, exceeds⟩

/-- Binding `this` agrees. -/
theorem bindThis_agrees (keyword : Token)
    : Agrees id (bindThis keyword) (bindThis (keyword.moved move)) := by
  intro wide narrow exceeds
  have near := bindNearest_agrees move keyword wide narrow exceeds
  unfold bindThis
  rw [exceeds.classContext]
  cases narrow.classContext with
  | outside => exact ⟨rfl, exceeds.error _ _ _⟩
  | plain | subclass => exact near

/-- Binding `super` agrees. -/
theorem bindSuper_agrees (keyword : Token)
    : Agrees id (bindSuper keyword) (bindSuper (keyword.moved move)) := by
  intro wide narrow exceeds
  have near := bindNearest_agrees move keyword wide narrow exceeds
  unfold bindSuper
  rw [exceeds.classContext]
  cases narrow.classContext with
  | outside | plain => exact ⟨rfl, exceeds.error _ _ _⟩
  | subclass => exact near

/-- Declaring a name agrees. -/
theorem declare_agrees (name : Token) : Agrees id (declare name) (declare (name.moved move)) :=
  .changed fun _ _ exceeds => exceeds.declared (Token.moved_lexeme move name) true

/-- Defining a name agrees. -/
theorem define_agrees (name : Token) : Agrees id (define name) (define (name.moved move)) :=
  .changed fun _ _ exceeds => exceeds.defined name.lexeme

/-- Defining `this` or `super` agrees. -/
theorem defineImplicit_agrees (name : String)
    : Agrees id (defineImplicit name) (defineImplicit name) :=
  .changed fun _ _ exceeds => exceeds.defined name

/-- Checking a `break` agrees. -/
theorem checkBreak_agrees (keyword : Token)
    : Agrees id (checkBreak keyword) (checkBreak (keyword.moved move)) := by
  refine .changed fun wide narrow exceeds => ?_
  rw [exceeds.loopDepth]
  split
  · exact exceeds.error _ _ _
  · exact exceeds

/-- Checking a `return` agrees. -/
theorem checkReturn_agrees (keyword : Token)
    : Agrees id (checkReturn keyword) (checkReturn (keyword.moved move)) := by
  refine .changed fun wide narrow exceeds => ?_
  rw [exceeds.inFunction]
  split
  · exact exceeds
  · exact exceeds.error _ _ _

/-- A superclass clause agrees. -/
theorem bindSuperclass_agrees (name : Token) (superclass : Reference Unit)
    : Agrees (Reference.moved move) (bindSuperclass name superclass)
        (bindSuperclass (name.moved move) (superclass.moved move)) := by
  have entered
      : Agrees id (enterSubclass name superclass.name)
          (enterSubclass (name.moved move) (superclass.name.moved move)) := by
    refine .changed fun wide narrow exceeds => ?_
    by_cases same : superclass.name.lexeme = name.lexeme
    · have moved : (superclass.name.moved move).lexeme = (name.moved move).lexeme := same
      rw [if_pos same, if_pos moved]
      exact (exceeds.enteredClass .subclass).error _ _ _
    · have moved : (superclass.name.moved move).lexeme ≠ (name.moved move).lexeme := same
      rw [if_neg same, if_neg moved]
      exact exceeds.enteredClass .subclass
  exact entered.bind fun _ => (bindRead_agrees move superclass.name).bind fun _ => .pure _ _

/-- Parameters are complete at once, on any line. -/
theorem declareParameters_agrees (parameters : List Token)
    : Agrees id (parameters.forM declareParameter)
        ((parameters.map (·.moved move)).forM declareParameter) := by
  induction parameters with
  | nil => exact .pure id ()
  | cons name rest ih =>
      have here : Agrees id (declareParameter name) (declareParameter (name.moved move)) :=
        .changed fun _ _ exceeds =>
          (exceeds.declared (Token.moved_lexeme move name) false).defined name.lexeme
      exact here.bind fun _ => ih

end

-----
-- Contexts

section

variable {α β : Type} {image : α → β} {whole : Binder α} {part : Binder β}

/-- What agrees inside a scope agrees around it. -/
theorem inScope_agrees (inside : Agrees image whole part)
    : Agrees image (inScope whole) (inScope part) := by
  have opens := Agrees.changed fun _ _ exceeds => Scopes.Exceeds.opened exceeds
  have closes := Agrees.changed fun _ _ exceeds => Scopes.Exceeds.closed exceeds
  exact opens.bind fun _ => inside.bind fun _ => closes.bind fun _ => .pure _ _

/-- What agrees inside a loop agrees around it. -/
theorem inLoop_agrees (inside : Agrees image whole part)
    : Agrees image (inLoop whole) (inLoop part) := by
  have enters := Agrees.changed fun _ _ exceeds => Scopes.Exceeds.enteredLoop exceeds
  have leaves := Agrees.changed fun _ _ exceeds => Scopes.Exceeds.leftLoop exceeds
  exact enters.bind fun _ => inside.bind fun _ => leaves.bind fun _ => .pure _ _

/-- What agrees inside a function agrees around it. -/
theorem inFunction_agrees (inside : Agrees image whole part)
    : Agrees image (inFunction whole) (inFunction part) := by
  intro wide narrow exceeds
  obtain ⟨same, after⟩ := inside _ _ exceeds.entered
  exact ⟨same, after.left exceeds⟩

/-- What agrees inside a class agrees around it. -/
theorem inClass_agrees (inside : Agrees image whole part)
    : Agrees image (inClass whole) (inClass part) := by
  intro wide narrow exceeds
  obtain ⟨same, after⟩ := inside _ _ (exceeds.enteredClass .plain)
  refine ⟨same, ?_⟩
  have left := after.enteredClass wide.classContext
  rw [exceeds.classContext] at left
  change Scopes.Exceeds (Scopes.enteredClass _ wide.classContext) _
  rw [exceeds.classContext]
  exact left

end

-----
-- Whole trees

section

variable (move : Nat → Nat)

mutual
/-- Binding an expression in the whole agrees with binding it in the part, by cases on the
expression. -/
theorem bindExpr_agrees
    : ∀ expr : Expr Unit, Agrees (Expr.moved move) (bindExpr expr) (bindExpr (expr.moved move))
  | .literal _ => .pure _ _
  | .grouping inner => (bindExpr_agrees inner).bind fun _ => .pure _ _
  | .unary _ operand => (bindExpr_agrees operand).bind fun _ => .pure _ _
  | .binary left _ right =>
      (bindExpr_agrees left).bind fun _ => (bindExpr_agrees right).bind fun _ => .pure _ _
  | .logical left _ right =>
      (bindExpr_agrees left).bind fun _ => (bindExpr_agrees right).bind fun _ => .pure _ _
  | .conditional condition thenCase elseCase =>
      (bindExpr_agrees condition).bind fun _ =>
        (bindExpr_agrees thenCase).bind fun _ =>
          (bindExpr_agrees elseCase).bind fun _ => .pure _ _
  | .variable target => (bindRead_agrees move target.name).bind fun _ => .pure _ _
  | .assign target value =>
      (bindExpr_agrees value).bind fun _ =>
        (bindNearest_agrees move target.name).bind fun _ => .pure _ _
  | .call callee _ arguments =>
      (bindExpr_agrees callee).bind fun _ => (bindExprs_agrees arguments).bind fun _ => .pure _ _
  | .get object _ => (bindExpr_agrees object).bind fun _ => .pure _ _
  | .set object _ value =>
      (bindExpr_agrees value).bind fun _ => (bindExpr_agrees object).bind fun _ => .pure _ _
  | .this keyword => (bindThis_agrees move keyword.name).bind fun _ => .pure _ _
  | .super keyword _ => (bindSuper_agrees move keyword.name).bind fun _ => .pure _ _
  | .function function => (bindFunction_agrees function).bind fun _ => .pure _ _

/-- Binding expressions agrees, one behind the other. -/
theorem bindExprs_agrees
    : ∀ exprs : List (Expr Unit),
        Agrees (movedExprs move) (bindExprs exprs) (bindExprs (movedExprs move exprs))
  | [] => .pure _ _
  | first :: rest =>
      (bindExpr_agrees first).bind fun _ => (bindExprs_agrees rest).bind fun _ => .pure _ _

/-- Binding an expression that may be left out agrees. -/
theorem bindOptional_agrees
    : ∀ value : Option (Expr Unit),
        Agrees (movedOptional move) (bindOptional value) (bindOptional (movedOptional move value))
  | none => .pure _ _
  | some value => (bindExpr_agrees value).bind fun _ => .pure _ _

/-- Binding a statement in the whole agrees with binding it in the part, by cases on the statement.
-/
theorem bindStmt_agrees
    : ∀ stmt : Stmt Unit, Agrees (Stmt.moved move) (bindStmt stmt) (bindStmt (stmt.moved move))
  | .expression value => (bindExpr_agrees value).bind fun _ => .pure _ _
  | .print value => (bindExpr_agrees value).bind fun _ => .pure _ _
  | .printLine value => (bindOptional_agrees value).bind fun _ => .pure _ _
  | .variable name initial =>
      (declare_agrees move name).bind fun _ =>
        (bindOptional_agrees initial).bind fun _ =>
          (define_agrees move name).bind fun _ => .pure _ _
  | .block statements =>
      (inScope_agrees (bindStmts_agrees statements)).bind fun _ => .pure _ _
  | .branch condition thenBranch elseBranch =>
      (bindExpr_agrees condition).bind fun _ =>
        (bindStmt_agrees thenBranch).bind fun _ =>
          (bindElse_agrees elseBranch).bind fun _ => .pure _ _
  | .loop condition body =>
      (bindExpr_agrees condition).bind fun _ =>
        (inLoop_agrees (bindStmt_agrees body)).bind fun _ => .pure _ _
  | .breakLoop keyword => (checkBreak_agrees move keyword).bind fun _ => .pure _ _
  | .returnValue keyword value =>
      (checkReturn_agrees move keyword).bind fun _ =>
        (bindOptional_agrees value).bind fun _ => .pure _ _
  | .function name function =>
      (declare_agrees move name).bind fun _ =>
        (define_agrees move name).bind fun _ =>
          (bindFunction_agrees function).bind fun _ => .pure _ _
  | .class name none methods =>
      inClass_agrees <|
        (declare_agrees move name).bind fun _ =>
          (define_agrees move name).bind fun _ =>
            (inScope_agrees ((defineImplicit_agrees "this").bind fun _ =>
              bindMethods_agrees methods)).bind fun _ => .pure _ _
  | .class name (some superclass) methods =>
      inClass_agrees <|
        (declare_agrees move name).bind fun _ =>
          (define_agrees move name).bind fun _ =>
            (bindSuperclass_agrees move name superclass).bind fun _ =>
              (inScope_agrees ((defineImplicit_agrees "super").bind fun _ =>
                inScope_agrees ((defineImplicit_agrees "this").bind fun _ =>
                  bindMethods_agrees methods))).bind fun _ => .pure _ _

/-- Binding statements agrees, one behind the other. -/
theorem bindStmts_agrees
    : ∀ stmts : List (Stmt Unit),
        Agrees (movedStmts move) (bindStmts stmts) (bindStmts (movedStmts move stmts))
  | [] => .pure _ _
  | first :: rest =>
      (bindStmt_agrees first).bind fun _ => (bindStmts_agrees rest).bind fun _ => .pure _ _

/-- Binding a branch that may be left out agrees. -/
theorem bindElse_agrees
    : ∀ branch : Option (Stmt Unit),
        Agrees (movedElse move) (bindElse branch) (bindElse (movedElse move branch))
  | none => .pure _ _
  | some branch => (bindStmt_agrees branch).bind fun _ => .pure _ _

/-- Binding a function agrees, from inside its scope. -/
theorem bindFunction_agrees
    : ∀ function : Lambda Unit,
        Agrees (Lambda.moved move) (bindFunction function) (bindFunction (function.moved move))
  | .mk parameters body =>
      inFunction_agrees <| inScope_agrees <|
        (declareParameters_agrees move parameters).bind fun _ =>
          (bindStmts_agrees body).bind fun _ => .pure _ _

/-- Binding methods agrees, one behind the other. -/
theorem bindMethods_agrees
    : ∀ methods : List (Method Unit),
        Agrees (movedMethods move) (bindMethods methods) (bindMethods (movedMethods move methods))
  | [] => .pure _ _
  | .mk _ function :: rest =>
      (bindFunction_agrees function).bind fun _ =>
        (bindMethods_agrees rest).bind fun _ => .pure _ _
end

end

end Lox.Binding
