import Lox.Proofs.Binding.Lookup
import Lox.Proofs.Table

/-! Binding leaves the scopes as it finds them, but for names declared directly in the innermost.

This holds of every tree and from all scopes, whatever is wrong with the program: scopes are closed
where they were opened, the contexts of functions, classes and loops are taken back, and a name that
is declared is defined in the end. So each distance counts scopes that are open at its place.
-/

namespace Lox

-----
-- Names and distances

mutual
/-- The names that a statement declares in the scope that it stands in. No declaration is read as a
branch or as the body of a loop, but a tree may have one there. -/
def Stmt.declares {ρ : Type} : Stmt ρ → List String
  | .variable name _ | .function name _ | .class name _ _ => [name.lexeme]
  | .branch _ thenBranch elseBranch => thenBranch.declares ++ declaredElse elseBranch
  | .loop _ body => body.declares
  | _ => []

def declaredElse {ρ : Type} : Option (Stmt ρ) → List String
  | none => []
  | some branch => branch.declares
end

/-- The distance, if there is one, leads to one of so many scopes. -/
def Reference.BoundBelow (depth : Nat) (reference : Reference (Option Nat)) : Prop :=
  ∀ distance ∈ reference.binding, distance < depth

mutual
/-- With so many scopes open around the expression, each of its distances leads to a scope that is
open at its place. -/
def Expr.BoundBelow (depth : Nat) : BoundExpr → Prop
  | .literal _ => True
  | .grouping inner => inner.BoundBelow depth
  | .unary _ operand => operand.BoundBelow depth
  | .binary left _ right => left.BoundBelow depth ∧ right.BoundBelow depth
  | .logical left _ right => left.BoundBelow depth ∧ right.BoundBelow depth
  | .conditional condition thenCase elseCase =>
      condition.BoundBelow depth ∧ thenCase.BoundBelow depth ∧ elseCase.BoundBelow depth
  | .variable target => target.BoundBelow depth
  | .assign target value => target.BoundBelow depth ∧ value.BoundBelow depth
  | .call callee _ arguments => callee.BoundBelow depth ∧ ExprsBoundBelow depth arguments
  | .get object _ => object.BoundBelow depth
  | .set object _ value => object.BoundBelow depth ∧ value.BoundBelow depth
  | .this keyword => keyword.BoundBelow depth
  | .super keyword _ => keyword.BoundBelow depth
  | .function function => function.BoundBelow depth

def ExprsBoundBelow (depth : Nat) : List BoundExpr → Prop
  | [] => True
  | first :: rest => first.BoundBelow depth ∧ ExprsBoundBelow depth rest

def OptionalBoundBelow (depth : Nat) : Option BoundExpr → Prop
  | none => True
  | some value => value.BoundBelow depth

/-- A block opens a scope, a class one for `this` and, around it, one for `super`. -/
def Stmt.BoundBelow (depth : Nat) : BoundStmt → Prop
  | .expression value => value.BoundBelow depth
  | .print value => value.BoundBelow depth
  | .printLine value => OptionalBoundBelow depth value
  | .variable _ initial => OptionalBoundBelow depth initial
  | .block statements => StmtsBoundBelow (depth + 1) statements
  | .branch condition thenBranch elseBranch =>
      condition.BoundBelow depth
      ∧ thenBranch.BoundBelow depth
      ∧ ElseBoundBelow depth elseBranch
  | .loop condition body => condition.BoundBelow depth ∧ body.BoundBelow depth
  | .breakLoop _ => True
  | .returnValue _ value => OptionalBoundBelow depth value
  | .function _ function => function.BoundBelow depth
  | .class _ none methods => MethodsBoundBelow (depth + 1) methods
  | .class _ (some superclass) methods =>
      superclass.BoundBelow depth ∧ MethodsBoundBelow (depth + 2) methods

def StmtsBoundBelow (depth : Nat) : List BoundStmt → Prop
  | [] => True
  | first :: rest => first.BoundBelow depth ∧ StmtsBoundBelow depth rest

def ElseBoundBelow (depth : Nat) : Option BoundStmt → Prop
  | none => True
  | some branch => branch.BoundBelow depth

/-- A function opens one scope for its parameters and its body. -/
def Lambda.BoundBelow (depth : Nat) : BoundLambda → Prop
  | .mk _ body => StmtsBoundBelow (depth + 1) body

def MethodsBoundBelow (depth : Nat) : List (Method (Option Nat)) → Prop
  | [] => True
  | .mk _ function :: rest => function.BoundBelow depth ∧ MethodsBoundBelow depth rest
end

namespace Binding

-----
-- Scopes

/-- The names added to a scope, or marked where it has them, are defined. -/
def withNames (names : List String) (view : Table Bool) : Table Bool :=
  names.foldl (fun view name => view.insert name true) view

/-- The names were declared in the innermost scope, or globally where none is open, and all of them
are defined. As many scopes are open as before, each with its names and its unused declarations, and
the names of the others are as they were. So is the context. -/
structure Scopes.Gains (before : Scopes) (names : List String) (after : Scopes) : Prop where
  changes : before.Changes (withNames names) after
  inFunction : after.inFunction = before.inFunction
  classContext : after.classContext = before.classContext
  loopDepth : after.loopDepth = before.loopDepth
  functionBase : after.functionBase = before.functionBase

namespace Scopes

/-- Changes that agree on every scope are the same change. -/
theorem Changes.congr {before after : Scopes} {change change' : Table Bool → Table Bool}
    (changes : before.Changes change after) (same : ∀ view, change view = change' view)
    : before.Changes change' after := by
  obtain rfl : change = change' := funext same
  exact changes

/-- A change of the current scope leaves as many scopes as there were. -/
theorem Changes.length {before after : Scopes} {change : Table Bool → Table Bool}
    (changes : before.Changes change after)
    : after.locals.length = before.locals.length := by
  rw [← after.views_length, ← before.views_length]
  rcases changes with ⟨before, after, -⟩ | ⟨view, views, before, after, -⟩
  · rw [before, after]
  · rw [before, after, List.length_cons, List.length_cons]

namespace Gains

variable {before between after : Scopes} {names names' : List String}

/-- Names gained by the current scope leave as many scopes as there were. -/
theorem length (gains : before.Gains names after)
    : after.locals.length = before.locals.length :=
  gains.changes.length

/-- Scopes that are kept gain no names. -/
theorem of_kept (kept : before.Kept after) : before.Gains [] after where
  changes := by
    have views : after.views = before.views := kept.views
    cases split : before.views with
    | nil => exact .inl ⟨split, views.trans split, kept.globals⟩
    | cons view outer => exact .inr ⟨view, outer, split, views.trans split, kept.globals⟩
  inFunction := kept.inFunction
  classContext := kept.classContext
  loopDepth := kept.loopDepth
  functionBase := kept.functionBase

/-- Names gained one after the other are gained together. -/
theorem trans (front : before.Gains names between) (back : between.Gains names' after)
    : before.Gains (names ++ names') after where
  changes :=
    (front.changes.trans back.changes).congr fun _ => List.foldl_append.symm
  inFunction := back.inFunction.trans front.inFunction
  classContext := back.classContext.trans front.classContext
  loopDepth := back.loopDepth.trans front.loopDepth
  functionBase := back.functionBase.trans front.functionBase

/-- A definition gains its name. -/
theorem defined (scopes : Scopes) (name : String)
    : scopes.Gains [name] (scopes.defined name) := by
  have changes := scopes.defined_changes name
  obtain ⟨locals, globals, same⟩ := scopes.defined_eq name
  rw [same] at changes ⊢
  exact ⟨changes, rfl, rfl, rfl, rfl⟩

/-- A name is pending until it is defined, whatever lies in between. -/
theorem pending {scopes : Scopes} {name : Token} {tracked : Bool}
    (inside : (scopes.declared name tracked).Gains [] after)
    : scopes.Gains [name.lexeme] (after.defined name.lexeme) := by
  have changes :=
    ((scopes.declared_changes name tracked).trans inside.changes).trans
      (after.defined_changes name.lexeme)
  obtain ⟨locals, globals, declared⟩ := scopes.declared_eq name tracked
  obtain ⟨locals', globals', defined⟩ := after.defined_eq name.lexeme
  rw [declared] at inside
  rw [defined] at changes ⊢
  exact {
    changes := changes.congr fun view => view.insert_insertIfNew name.lexeme false true
    inFunction := inside.inFunction
    classContext := inside.classContext
    loopDepth := inside.loopDepth
    functionBase := inside.functionBase
  }

/-- Whatever was declared in a scope is gone with the scope. -/
theorem closed {scopes : Scopes} (inside : scopes.opened.Gains names after)
    : scopes.Gains [] after.closed := by
  rcases inside.changes with ⟨none, -⟩ | ⟨view, views, split, views', globals⟩
  · cases none
  · obtain ⟨-, rfl⟩ := List.cons.inj split
    obtain ⟨scope, others, found, -, same⟩ := List.map_eq_cons_iff.1 views'
    have closed
        : after.closed
            = { after with
                locals := others, warnings := after.warnings ++ scope.unusedWarnings } := by
      unfold Scopes.closed
      rw [found]
    rw [closed]
    exact {
      changes := by
        cases outer : scopes.views with
        | nil => exact .inl ⟨outer, same.trans outer, globals⟩
        | cons view outer' => exact .inr ⟨view, outer', outer, same.trans outer, globals⟩
      inFunction := inside.inFunction
      classContext := inside.classContext
      loopDepth := inside.loopDepth
      functionBase := inside.functionBase
    }

/-- What a function gains is gained by the scope it stands in, with the context around it. -/
theorem leftFunction (inside : before.enteredFunction.Gains names after)
    : before.Gains names (after.leftFunction before) :=
  ⟨inside.changes, rfl, inside.classContext, rfl, rfl⟩

/-- What the body of a loop gains is gained by the scope it stands in, with one loop less. -/
theorem leftLoop (inside : before.enteredLoop.Gains names after)
    : before.Gains names { after with loopDepth := after.loopDepth - 1 } :=
  ⟨inside.changes, inside.inFunction, inside.classContext,
    by simp [inside.loopDepth, enteredLoop], inside.functionBase⟩

/-- What a class gains is gained by the scope it stands in, with the context around it. -/
theorem leftClass {context : ClassContext}
    (inside : (before.enteredClass context).Gains names after)
    : before.Gains names (after.enteredClass before.classContext) :=
  ⟨inside.changes, inside.inFunction, rfl, inside.loopDepth, inside.functionBase⟩

end Gains

end Scopes

-----
-- Actions

/-- Where so many scopes are open, the action declares the names and yields something as told. -/
def Settles {α : Type} (depth : Nat) (names : List String) (action : Binder α) (post : α → Prop)
    : Prop :=
  ∀ scopes : Scopes,
    scopes.locals.length = depth
    → scopes.Gains names (action scopes).2 ∧ post (action scopes).1

namespace Settles

variable {α β : Type} {depth : Nat} {names names' : List String} {action : Binder α}
  {next : α → Binder β} {mid : α → Prop} {post : β → Prop}

/-- A value alone gains no names. -/
theorem pure {value : α} (holds : mid value) : Settles depth [] (Pure.pure value) mid :=
  fun scopes _ => ⟨.of_kept (.refl scopes), holds⟩

/-- Two steps in a row gain the names of both. -/
theorem append (front : Settles depth names action mid)
    (back : ∀ value, mid value → Settles depth names' (next value) post)
    : Settles depth (names ++ names') (action >>= next) post := by
  intro scopes open_
  obtain ⟨gains, holds⟩ := front scopes open_
  obtain ⟨gains', holds'⟩ := back _ holds (action scopes).2 (gains.length.trans open_)
  exact ⟨gains.trans gains', holds'⟩

/-- An action that declares nothing, and another behind it. -/
theorem step (front : Settles depth [] action mid)
    (back : ∀ value, mid value → Settles depth names (next value) post)
    : Settles depth names (action >>= next) post :=
  front.append back

/-- Changing the value that a step yields gains no names. -/
theorem yield {change : α → β} (front : Settles depth names action mid)
    (changed : ∀ value, mid value → post (change value))
    : Settles depth names (action >>= fun value => Pure.pure (change value)) post := by
  intro scopes open_
  obtain ⟨gains, holds⟩ := front scopes open_
  exact ⟨gains, changed _ holds⟩

/-- A step that keeps the scopes settles with no names. -/
theorem of_kept (kept : ∀ scopes : Scopes, scopes.Kept (action scopes).2)
    : Settles depth [] action fun _ => True :=
  fun scopes _ => ⟨.of_kept (kept scopes), trivial⟩

/-- Between the declaration and the definition of a name another action takes place. -/
theorem pending {name : Token} (inside : Settles depth [] action mid)
    (back : ∀ value, mid value → Settles depth names (next value) post)
    : Settles depth (name.lexeme :: names)
        (do declare name; let value ← action; define name; next value) post := by
  intro scopes open_
  have declared : (scopes.declared name true).locals.length = depth :=
    (scopes.declared_changes name true).length.trans open_
  obtain ⟨gains, holds⟩ := inside (scopes.declared name true) declared
  have settled := gains.pending
  obtain ⟨gains', holds'⟩ := back _ holds _ (settled.length.trans open_)
  exact ⟨settled.trans gains', holds'⟩

/-- A name that is declared and defined is gained in front of what follows. -/
theorem introduced {name : Token} {action : Binder β} (behind : Settles depth names action post)
    : Settles depth (name.lexeme :: names) (do declare name; define name; action) post := by
  have between : Settles depth [] (Pure.pure () : Binder Unit) fun _ => True := .pure trivial
  exact .pending between fun _ _ => behind

/-- A name defined without a declaration is gained. -/
theorem implicit (name : String) : Settles depth [name] (defineImplicit name) fun _ => True :=
  fun scopes _ => ⟨.defined scopes name, trivial⟩

/-- The names gained by an inner scope are gone when it is closed. -/
theorem inScope (inside : Settles (depth + 1) names action mid)
    : Settles depth [] (Binding.inScope action) mid := by
  intro scopes open_
  have deeper : scopes.opened.locals.length = depth + 1 := congrArg (· + 1) open_
  obtain ⟨gains, holds⟩ := inside scopes.opened deeper
  exact ⟨gains.closed, holds⟩

/-- The body of a loop gains its names for the scope around it. -/
theorem inLoop (inside : Settles depth names action mid)
    : Settles depth names (Binding.inLoop action) mid := by
  intro scopes open_
  obtain ⟨gains, holds⟩ := inside scopes.enteredLoop open_
  exact ⟨gains.leftLoop, holds⟩

/-- A function hands the context around it back when it is left. -/
theorem inFunction (inside : Settles depth names action mid)
    : Settles depth names (Binding.inFunction action) mid := by
  intro scopes open_
  obtain ⟨gains, holds⟩ := inside scopes.enteredFunction open_
  exact ⟨gains.leftFunction, holds⟩

/-- The class that an action is in may become a subclass on the way. -/
theorem inClass (context : ClassContext)
    (inside
      : ∀ scopes : Scopes,
          scopes.locals.length = depth
          → (scopes.enteredClass context).Gains names (action (scopes.enteredClass .plain)).2
            ∧ mid (action (scopes.enteredClass .plain)).1)
    : Settles depth names (Binding.inClass action) mid := by
  intro scopes open_
  obtain ⟨gains, holds⟩ := inside scopes open_
  exact ⟨gains.leftClass, holds⟩

end Settles

-----
-- Names

section

variable {depth : Nat} (name : Token)

/-- An assignment gains no names and its distance leads to an open scope. -/
theorem bindNearest_settles
    : Settles depth [] (bindNearest name) fun binding =>
        Reference.BoundBelow depth { name, binding } := by
  refine fun scopes open_ => ⟨.of_kept (bindNearest_kept name scopes), fun distance bound => ?_⟩
  obtain ⟨⟨flag, found⟩, -⟩ := bindNearest_some bound
  exact Nat.lt_of_lt_of_eq (lt_of_flagAt? found) (scopes.views_length.trans open_)

/-- A read gains no names and its distance leads to an open scope. -/
theorem bindRead_settles
    : Settles depth [] (bindRead name) fun binding =>
        Reference.BoundBelow depth { name, binding } := by
  refine fun scopes open_ => ⟨.of_kept (bindRead_kept name scopes), fun distance bound => ?_⟩
  obtain ⟨flag, found, -⟩ := bindRead_some bound
  exact Nat.lt_of_lt_of_eq (lt_of_flagAt? found) (scopes.views_length.trans open_)

/-- Where `this` has no place it is bound to nothing. -/
theorem bindThis_settles
    : Settles depth [] (bindThis name) fun binding =>
        Reference.BoundBelow depth { name, binding } := by
  refine fun scopes open_ => ⟨.of_kept (bindThis_kept name scopes), ?_⟩
  unfold bindThis
  split
  · exact nofun
  · exact (bindNearest_settles name scopes open_).2
  · exact (bindNearest_settles name scopes open_).2

/-- `super` gains no names and its distance leads to an open scope. -/
theorem bindSuper_settles
    : Settles depth [] (bindSuper name) fun binding =>
        Reference.BoundBelow depth { name, binding } := by
  refine fun scopes open_ => ⟨.of_kept (bindSuper_kept name scopes), ?_⟩
  unfold bindSuper
  split
  · exact nofun
  · exact nofun
  · exact (bindNearest_settles name scopes open_).2

end

/-- Parameters are gained in their order, by induction on them. -/
theorem declareParameters_settles (depth : Nat) (parameters : List Token)
    : Settles depth (parameters.map (·.lexeme)) (parameters.forM declareParameter)
        fun _ => True := by
  induction parameters with
  | nil => exact .pure trivial
  | cons first rest ih =>
      intro scopes open_
      have gains := (Scopes.Gains.of_kept (.refl (scopes.declared first false))).pending
      obtain ⟨gains', -⟩ := ih _ (gains.length.trans open_)
      exact ⟨gains.trans gains', trivial⟩

-----
-- Whole trees

mutual
/-- An expression gains no names, by induction on the tree; functions open scopes and close them
again. -/
theorem bindExpr_settles (depth : Nat)
    : ∀ expr : Expr Unit, Settles depth [] (bindExpr expr) (Expr.BoundBelow depth)
  | .literal _ => .pure trivial
  | .grouping inner => (bindExpr_settles depth inner).yield fun _ below => below
  | .unary _ operand => (bindExpr_settles depth operand).yield fun _ below => below
  | .binary left _ right =>
      (bindExpr_settles depth left).step fun _ first =>
        (bindExpr_settles depth right).yield fun _ second => ⟨first, second⟩
  | .logical left _ right =>
      (bindExpr_settles depth left).step fun _ first =>
        (bindExpr_settles depth right).yield fun _ second => ⟨first, second⟩
  | .conditional condition thenCase elseCase =>
      (bindExpr_settles depth condition).step fun _ tested =>
        (bindExpr_settles depth thenCase).step fun _ first =>
          (bindExpr_settles depth elseCase).yield fun _ second => ⟨tested, first, second⟩
  | .variable target => (bindRead_settles target.name).yield fun _ below => below
  | .assign target value =>
      (bindExpr_settles depth value).step fun _ assigned =>
        (bindNearest_settles target.name).yield fun _ below => ⟨below, assigned⟩
  | .call callee _ arguments =>
      (bindExpr_settles depth callee).step fun _ called =>
        (bindExprs_settles depth arguments).yield fun _ passed => ⟨called, passed⟩
  | .get object _ => (bindExpr_settles depth object).yield fun _ below => below
  | .set object _ value =>
      (bindExpr_settles depth value).step fun _ assigned =>
        (bindExpr_settles depth object).yield fun _ below => ⟨below, assigned⟩
  | .this keyword => (bindThis_settles keyword.name).yield fun _ below => below
  | .super keyword _ => (bindSuper_settles keyword.name).yield fun _ below => below
  | .function function => (bindFunction_settles depth function).yield fun _ below => below

/-- Expressions in a row gain no names. -/
theorem bindExprs_settles (depth : Nat)
    : ∀ exprs : List (Expr Unit), Settles depth [] (bindExprs exprs) (ExprsBoundBelow depth)
  | [] => .pure trivial
  | first :: rest =>
      (bindExpr_settles depth first).step fun _ below =>
        (bindExprs_settles depth rest).yield fun _ others => ⟨below, others⟩

/-- An expression that may be missing gains no names. -/
theorem bindOptional_settles (depth : Nat)
    : ∀ value : Option (Expr Unit),
        Settles depth [] (bindOptional value) (OptionalBoundBelow depth)
  | none => .pure trivial
  | some value => (bindExpr_settles depth value).yield fun _ below => below

/-- A statement gains the names that it declares, by induction on the tree. -/
theorem bindStmt_settles (depth : Nat)
    : ∀ stmt : Stmt Unit, Settles depth stmt.declares (bindStmt stmt) (Stmt.BoundBelow depth)
  | .expression value => (bindExpr_settles depth value).yield fun _ below => below
  | .print value => (bindExpr_settles depth value).yield fun _ below => below
  | .printLine value => (bindOptional_settles depth value).yield fun _ below => below
  | .variable _ initial =>
      .pending (bindOptional_settles depth initial) fun _ below => .pure below
  | .block statements =>
      (bindStmts_settles (depth + 1) statements).inScope.yield fun _ below => below
  | .branch condition thenBranch elseBranch =>
      (bindExpr_settles depth condition).step fun _ tested =>
        (bindStmt_settles depth thenBranch).append fun _ first =>
          (bindElse_settles depth elseBranch).yield fun _ second => ⟨tested, first, second⟩
  | .loop condition body =>
      (bindExpr_settles depth condition).step fun _ tested =>
        (bindStmt_settles depth body).inLoop.yield fun _ below => ⟨tested, below⟩
  | .breakLoop keyword => (Settles.of_kept (checkBreak_kept keyword)).yield fun _ _ => trivial
  | .returnValue keyword value =>
      (Settles.of_kept (checkReturn_kept keyword)).step fun _ _ =>
        (bindOptional_settles depth value).yield fun _ below => below
  | .function _ function =>
      .introduced ((bindFunction_settles depth function).yield fun _ below => below)
  | .class name none methods => by
      have bodies :=
        ((Settles.implicit "this").append fun _ _ =>
          bindMethods_settles (depth + 1) methods).inScope
      have inside
          : Settles depth [name.lexeme]
              (do
                declare name
                define name
                let methods ← inScope do
                  defineImplicit "this"
                  bindMethods methods
                return Stmt.class name none methods)
              (Stmt.BoundBelow depth) :=
        .introduced (bodies.yield fun _ below => below)
      exact .inClass .plain fun scopes open_ => inside (scopes.enteredClass .plain) open_
  | .class name (some superclass) methods => by
      have bodies :=
        ((Settles.implicit "super").append fun _ _ =>
          ((Settles.implicit "this").append fun _ _ =>
            bindMethods_settles (depth + 2) methods).inScope).inScope
      -- What stands behind the step that makes the class a subclass.
      have behind
          : Settles depth []
              (do
                let binding ← bindRead superclass.name
                let methods ← inScope do
                  defineImplicit "super"
                  inScope do
                    defineImplicit "this"
                    bindMethods methods
                return Stmt.class name (some { name := superclass.name, binding }) methods)
              (Stmt.BoundBelow depth) :=
        (bindRead_settles superclass.name).step fun _ bound =>
          bodies.yield fun _ below => ⟨bound, below⟩
      refine .inClass .subclass fun scopes open_ => ?_
      let header := (scopes.enteredClass .plain).introduced (some name)
      have introduced
          : (scopes.enteredClass .subclass).Gains [name.lexeme]
              (header.enteredClass .subclass) := by
        have same
            : header.enteredClass .subclass
              = (scopes.enteredClass .subclass).introduced (some name) := by
          change ((scopes.enteredClass .plain).introduced (some name)).enteredClass .subclass = _
          rw [scopes.introduced_enteredClass, scopes.introduced_enteredClass]
          rfl
        rw [same]
        exact .pending (.of_kept (.refl _))
      have entered := introduced.trans (.of_kept (enterSubclass_kept name superclass.name header))
      obtain ⟨gains, holds⟩ := behind _ (entered.length.trans open_)
      exact ⟨entered.trans gains, holds⟩

/-- Statements in a row gain the names that each of them declares. -/
theorem bindStmts_settles (depth : Nat)
    : ∀ stmts : List (Stmt Unit),
        Settles depth (stmts.flatMap (·.declares)) (bindStmts stmts) (StmtsBoundBelow depth)
  | [] => .pure trivial
  | first :: rest =>
      (bindStmt_settles depth first).append fun _ below =>
        (bindStmts_settles depth rest).yield fun _ others => ⟨below, others⟩

/-- A branch that may be missing gains the names that it declares. -/
theorem bindElse_settles (depth : Nat)
    : ∀ branch : Option (Stmt Unit),
        Settles depth (declaredElse branch) (bindElse branch) (ElseBoundBelow depth)
  | none => .pure trivial
  | some branch => (bindStmt_settles depth branch).yield fun _ below => below

/-- A function gains no names for the scope it stands in. -/
theorem bindFunction_settles (depth : Nat)
    : ∀ function : Lambda Unit,
        Settles depth [] (bindFunction function) (Lambda.BoundBelow depth)
  | .mk parameters body =>
      ((declareParameters_settles (depth + 1) parameters).append fun _ _ =>
        (bindStmts_settles (depth + 1) body).yield fun _ below => below).inScope.inFunction

/-- Methods in a row gain no names for the scope they stand in. -/
theorem bindMethods_settles (depth : Nat)
    : ∀ methods : List (Method Unit),
        Settles depth [] (bindMethods methods) (MethodsBoundBelow depth)
  | [] => .pure trivial
  | .mk _ function :: rest =>
      (bindFunction_settles depth function).step fun _ below =>
        (bindMethods_settles depth rest).yield fun _ others => ⟨below, others⟩
end

-----
-- Whole programs

/-- Names that are gained are defined ones. -/
theorem entries_withNames {names : List String} {view : Table Bool}
    (defined : ∀ entry ∈ view.entries, entry.2 = true)
    : ∀ entry ∈ (withNames names view).entries, entry.2 = true := by
  induction names generalizing view with
  | nil => exact defined
  | cons name rest ih =>
      refine ih fun entry member => ?_
      rcases Table.mem_insertEntry member with rfl | earlier
      · rfl
      · exact defined entry earlier

/-- Binding an expression leaves the scopes as they were, binding a statement adds the names that it
declares directly, which are defined then, and each distance is less than the number of scopes that
are open at its place. This holds of all trees and from all scopes, whatever errors are found.
Behind a whole program no scope is open, and all global names are defined. -/
theorem binding_restores_scopes
    : (∀ (expr : Expr Unit) (scopes : Scopes),
        scopes.Gains [] (bindExpr expr scopes).2
        ∧ (bindExpr expr scopes).1.BoundBelow scopes.locals.length)
      ∧ (∀ (stmt : Stmt Unit) (scopes : Scopes),
          scopes.Gains stmt.declares (bindStmt stmt scopes).2
          ∧ (bindStmt stmt scopes).1.BoundBelow scopes.locals.length)
      ∧ ∀ (known : List String) (statements : List (Stmt Unit)),
          (bindStmts statements (.start known)).2.locals = []
          ∧ (∀ entry ∈ (bind known statements).globals.entries, entry.2 = true)
          ∧ StmtsBoundBelow 0 (bind known statements).statements := by
  refine ⟨fun expr scopes => bindExpr_settles scopes.locals.length expr scopes rfl,
    fun stmt scopes => bindStmt_settles scopes.locals.length stmt scopes rfl, ?_⟩
  intro known statements
  obtain ⟨gains, below⟩ := bindStmts_settles 0 statements (.start known) rfl
  refine ⟨List.length_eq_zero_iff.1 gains.length, ?_, below⟩
  have known_defined : ∀ entry ∈ (Scopes.start known).globals.entries, entry.2 = true :=
    @entries_withNames known .empty nofun
  rcases gains.changes with ⟨-, -, globals⟩ | ⟨view, views, open_, -⟩
  · change ∀ entry ∈ (bindStmts statements (.start known)).2.globals.entries, entry.2 = true
    rw [globals]
    exact entries_withNames known_defined
  · cases open_

end Binding

end Lox
