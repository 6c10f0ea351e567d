import Lox.Proofs.Binding.Fading
import Lox.Proofs.Usage.Survey

/-! What binding makes of the open scopes, told by the survey of what was bound.

A name that a use has been bound to is not unused from there on, until it is declared again in the
same scope. What is unused where a scope is closed is warned about, scope by scope.
-/

namespace Lox.Scoping

open Binding
open Grammar (SourceExpr SourceStmt)

/-- A use marks its name at the distance that it is bound to. -/
theorem Use.bound_uses (use : Use) (scopes : Scopes)
    : scopes.Uses use.token.lexeme (use.bound scopes) := by
  cases use with
  | read name => exact bindRead_uses name scopes
  | write name => exact bindNearest_uses name scopes
  | this keyword =>
      change scopes.Uses keyword.lexeme (bindThis keyword scopes)
      unfold bindThis
      split
      · exact .inl ⟨rfl, rfl, rfl⟩
      · exact bindNearest_uses keyword scopes
      · exact bindNearest_uses keyword scopes
  | super keyword method =>
      change scopes.Uses keyword.lexeme (bindSuper keyword scopes)
      unfold bindSuper
      split
      · exact .inl ⟨rfl, rfl, rfl⟩
      · exact .inl ⟨rfl, rfl, rfl⟩
      · exact bindNearest_uses keyword scopes

/-- Names are names, and keywords are the keywords that they stand for. -/
def Use.Proper : Use → Prop
  | .read name | .write name => name.IsName
  | .this keyword => keyword.lexeme = "this"
  | .super keyword _ => keyword.lexeme = "super"

-----
-- Bodies

/-- What is known of the names of a body where its scope is closed. -/
def Body.closing (body : Body) : LocalScope :=
  (bindStmts body.statements body.start.scopes).2.locals.headD .empty

/-- What is warned about where the scope is closed. -/
def Body.warnings (body : Body) : List Diagnostic :=
  body.closing.unusedWarnings

def Survey.warnings (survey : Survey) : List Diagnostic :=
  survey.bodies.flatMap Body.warnings

/-- Parameters are not warned about. -/
theorem declareParameters_innermost {scopes : Scopes} {scope : LocalScope}
    {others : List LocalScope} (split : scopes.locals = scope :: others)
    (parameters : List Token)
    : (parameters.forM declareParameter scopes).2
        = {
            scopes with
            locals := { scope with names := withParameters scope.names parameters } :: others
          } := by
  induction parameters generalizing scopes scope with
  | nil =>
      change scopes = { scopes with locals := scope :: others }
      rw [← split]
  | cons first rest ih =>
      let names := (scope.names.insertIfNew first.lexeme false).insert first.lexeme true
      have declared
          : (declareParameter first scopes).2
              = { scopes with locals := { scope with names := names } :: others } := by
        change (scopes.declared first false).defined first.lexeme = _
        simp [Scopes.declared, Scopes.defined, split, LocalScope.declared, LocalScope.defined,
          names]
      have split'
          : (declareParameter first scopes).2.locals = { scope with names := names } :: others := by
        rw [declared]
      change (rest.forM declareParameter (declareParameter first scopes).2).2 = _
      rw [ih split', declared]
      rfl

/-- A body starts with a scope of its own, which has its parameters. -/
theorem Body.opens (body : Body)
    : ∃ scope,
        body.start.scopes.locals = scope :: body.site.scopes.locals
        ∧ body.start.scopes.warnings = body.site.scopes.warnings
        ∧ scope.unused = .empty
        ∧ ∀ name,
            scope.names.contains name = true → name ∈ body.parameters.map (·.lexeme) := by
  cases body with
  | block site statements => exact ⟨.empty, rfl, rfl, rfl, fun name known => by cases known⟩
  | function site lambda =>
      have split : site.scopes.enteredFunction.opened.locals = .empty :: site.scopes.locals := rfl
      have start : (Body.function site lambda).start.scopes = _ :=
        declareParameters_innermost split lambda.parameters
      refine ⟨{ LocalScope.empty with names := withParameters .empty lambda.parameters }, ?_, ?_,
        rfl, fun name listed => ?_⟩
      · rw [start]
        rfl
      · rw [start]
        rfl
      · unfold Table.contains at listed
        rw [get?_withParameters] at listed
        split at listed
        · assumption
        · cases listed

-----
-- Accounts

/-- The use is bound to the name in the scope at the distance from a place with so many scopes
around it. -/
def BoundFrom (depth distance : Nat) (name : String) (entry : Site × Use) : Prop :=
  entry.2.token.lexeme = name
  ∧ ∃ found,
      entry.1.distance entry.2 = some found ∧ distance + entry.1.frames.length = found + depth

/-- The survey accounts for what has become of the open scopes, but for the `skip` innermost of
them. The depth says how many scopes are around the place. -/
structure Accounts (depth skip : Nat) (survey : Survey) (before after : Scopes) : Prop where
  length : after.locals.length = before.locals.length
  fades
    : ∀ (distance : Nat) (scope : LocalScope),
        skip ≤ distance
        → before.locals[distance]? = some scope
        → ∃ scope', after.locals[distance]? = some scope' ∧ scope.Fades scope'
  spent
    : ∀ entry ∈ survey.uses, ∀ distance distance',
        entry.1.distance entry.2 = some distance
        → distance' + entry.1.frames.length = distance + depth
        → skip ≤ distance'
        → ∃ scope, after.locals[distance']? = some scope ∧ scope.Spent entry.2.token.lexeme
  kept
    : ∀ (distance : Nat) (scope scope' : LocalScope) (name : String),
        skip ≤ distance
        → before.locals[distance]? = some scope
        → after.locals[distance]? = some scope'
        → (∀ entry ∈ survey.uses, ¬BoundFrom depth distance name entry)
        → scope'.unused.get? name = scope.unused.get? name
  warnings : after.warnings = before.warnings ++ survey.warnings
  named : ∀ entry ∈ survey.uses, entry.2.Proper
  proper : ∀ body ∈ survey.bodies, ProperStmts body.statements

namespace Accounts

variable {depth skip : Nat} {survey survey' : Survey} {before between after : Scopes}

/-- Without uses the scopes and warnings are accounted for by nothing. -/
theorem quiet (locals : after.locals = before.locals) (warnings : after.warnings = before.warnings)
    : Accounts depth skip .empty before after := by
  refine ⟨by rw [locals], fun distance scope _ here => ⟨scope, locals ▸ here, .refl scope⟩,
    fun _ none => absurd none List.not_mem_nil, fun distance scope scope' name _ here there _ => ?_,
    ?_, fun _ none => absurd none List.not_mem_nil, fun _ none => absurd none List.not_mem_nil⟩
  · rw [locals, here] at there
    rw [Option.some.inj there]
  · rw [warnings]
    exact (List.append_nil _).symm

/-- Two parts in a row are accounted for by both surveys. -/
theorem append (front : Accounts depth skip survey before between)
    (back : Accounts depth skip survey' between after)
    : Accounts depth skip (survey ++ survey') before after := by
  refine ⟨back.length.trans front.length, ?_, ?_, ?_, ?_, ?_, ?_⟩
  · intro distance scope outer here
    obtain ⟨scope', there, fades⟩ := front.fades distance scope outer here
    obtain ⟨scope'', there', fades'⟩ := back.fades distance scope' outer there
    exact ⟨scope'', there', fades.trans fades'⟩
  · intro entry member distance distance' bound same outer
    rcases List.mem_append.1 member with member | member
    · obtain ⟨scope, here, spent⟩ :=
        front.spent entry member distance distance' bound same outer
      obtain ⟨scope', there, fades⟩ := back.fades distance' scope outer here
      exact ⟨scope', there, spent.fades fades⟩
    · exact back.spent entry member distance distance' bound same outer
  · intro distance scope scope'' name outer here there' free
    obtain ⟨scope', there, -⟩ := front.fades distance scope outer here
    have ⟨free, free'⟩ := List.forall_mem_append.1 free
    exact (back.kept distance scope' scope'' name outer there there' free').trans
      (front.kept distance scope scope' name outer here there free)
  · rw [back.warnings, front.warnings, List.append_assoc]
    exact congrArg _ List.flatMap_append.symm
  · exact List.forall_mem_append.2 ⟨front.named, back.named⟩
  · intro body member
    exact (List.mem_append.1 member).elim (front.proper body) (back.proper body)

/-- Behind a use its name is spent in the scope that it is bound to, and all else is as before. -/
theorem use (site : Site) (use : Use) (proper : use.Proper)
    : Accounts site.frames.length 0 (.use site use) site.scopes (use.bound site.scopes).2 := by
  have named : ∀ entry ∈ (Survey.use site use).uses, entry.2.Proper :=
    fun entry member => List.mem_singleton.1 member ▸ proper
  rcases use.bound_uses site.scopes with
    ⟨unbound, locals, warnings⟩ | ⟨found, scope, bound, here, has⟩
  · have untouched : Accounts site.frames.length 0 .empty site.scopes (use.bound site.scopes).2 :=
      .quiet locals warnings
    refine {
      untouched with
      spent := fun entry member distance distance' bound => ?_
      kept := fun distance scope scope' name outer here there _ =>
        untouched.kept distance scope scope' name outer here there
          fun _ none => absurd none List.not_mem_nil
      named
    }
    obtain rfl := List.mem_singleton.1 member
    exact absurd (unbound.symm.trans bound) nofun
  · rw [bound]
    let name := use.token.lexeme
    have recorded : site.distance use = some found := congrArg Prod.fst bound
    refine ⟨List.length_modify _ _ _, fun distance earlier _ there => ?_,
      fun entry member distance distance' bound' same _ => ?_,
      fun distance earlier later other _ there there' free => ?_, (List.append_nil _).symm, named,
      fun _ none => absurd none List.not_mem_nil⟩
    · simp only [Scopes.used, List.getElem?_modify, there]
      by_cases same : found = distance
      · exact ⟨_, rfl, by simpa [same] using LocalScope.Fades.erased earlier name⟩
      · exact ⟨_, rfl, by simpa [same] using LocalScope.Fades.refl earlier⟩
    · obtain rfl := List.mem_singleton.1 member
      obtain rfl : found = distance := Option.some.inj (recorded.symm.trans bound')
      obtain rfl : distance' = found := Nat.add_right_cancel same
      refine ⟨{ scope with unused := scope.unused.erase name }, ?_, has, ?_⟩
      · simp [Scopes.used, here, name]
      · exact (Table.get?_erase _ _ _).trans (if_pos rfl)
    · simp only [Scopes.used, List.getElem?_modify, there] at there'
      by_cases same : found = distance
      · simp only [same, if_true] at there'
        obtain rfl := Option.some.inj there'
        refine (Table.get?_erase _ _ _).trans (if_neg fun isName => ?_)
        exact free (site, use) (List.mem_singleton_self _)
          ⟨isName.symm, found, recorded, by rw [same]⟩
      · simp only [same, if_false] at there'
        obtain rfl := Option.some.inj there'
        rfl

/-- Open scopes and warnings are all that matters. -/
theorem congr {before' after' : Scopes} (accounts : Accounts depth skip survey before after)
    (locals : before'.locals = before.locals) (warnings : before'.warnings = before.warnings)
    (locals' : after'.locals = after.locals) (warnings' : after'.warnings = after.warnings)
    : Accounts depth skip survey before' after' := by
  obtain ⟨length, fades, spent, kept, told, named, proper⟩ := accounts
  rw [← locals, ← locals'] at length
  rw [← locals, ← locals'] at fades
  rw [← locals'] at spent
  rw [← locals, ← locals'] at kept
  rw [← warnings, ← warnings'] at told
  exact ⟨length, fades, spent, kept, told, named, proper⟩

/-- What holds of all scopes holds of all but the innermost. -/
theorem skipping (accounts : Accounts depth 0 survey before after)
    : Accounts depth 1 survey before after :=
  {
    accounts with
    fades := fun distance scope _ => accounts.fades distance scope (Nat.zero_le _)
    spent := fun entry member distance distance' bound same _ =>
      accounts.spent entry member distance distance' bound same (Nat.zero_le _)
    kept := fun distance scope scope' name _ =>
      accounts.kept distance scope scope' name (Nat.zero_le _)
  }

/-- A name that is defined before and behind makes no difference. -/
theorem defined (accounts : Accounts depth 0 survey before after) (name : String)
    : Accounts depth 0 survey (before.defined name) (after.defined name) := by
  refine ⟨?_, ?_, ?_, ?_, ?_, accounts.named, accounts.proper⟩
  · rw [Scopes.locals_defined, Scopes.locals_defined, List.length_modifyHead,
      List.length_modifyHead]
    exact accounts.length
  · intro distance scope outer here
    rw [Scopes.locals_defined, List.getElem?_modifyHead] at here ⊢
    split
    · next innermost =>
        rw [if_pos innermost] at here
        obtain ⟨earlier, there, rfl⟩ := Option.map_eq_some_iff.1 here
        obtain ⟨scope', there', fades⟩ := accounts.fades distance earlier outer there
        exact ⟨scope'.defined name, by rw [there']; rfl, fades.defined name⟩
    · next further =>
        rw [if_neg further] at here
        exact accounts.fades distance scope outer here
  · intro entry member distance distance' bound same outer
    obtain ⟨scope, here, spent⟩ :=
      accounts.spent entry member distance distance' bound same outer
    rw [Scopes.locals_defined, List.getElem?_modifyHead]
    split
    · refine ⟨scope.defined name, by rw [here]; rfl, ?_, spent.used⟩
      exact Table.contains_insert.2 (.inr spent.known)
    · exact ⟨scope, here, spent⟩
  · intro distance scope scope' other outer here there free
    rw [Scopes.locals_defined, List.getElem?_modifyHead] at here there
    split at here
    · next innermost =>
        rw [if_pos innermost] at there
        obtain ⟨earlier, here', rfl⟩ := Option.map_eq_some_iff.1 here
        obtain ⟨later, there', rfl⟩ := Option.map_eq_some_iff.1 there
        exact accounts.kept distance earlier later other outer here' there' free
    · next further =>
        rw [if_neg further] at there
        exact accounts.kept distance scope scope' other outer here there free
  · rw [Scopes.warnings_defined, Scopes.warnings_defined]
    exact accounts.warnings

/-- A name that is introduced is a matter of the innermost scope. -/
theorem introduced {name : Option Token}
    (accounts : Accounts depth 0 survey (before.introduced name) after)
    : Accounts depth 1 survey before after := by
  obtain ⟨length, others, warnings⟩ := before.locals_introduced name
  have further {distance : Nat} {scope : LocalScope} (outer : 1 ≤ distance)
      (here : before.locals[distance]? = some scope)
      : (before.introduced name).locals[distance]? = some scope := by
    obtain ⟨distance, rfl⟩ := Nat.exists_eq_add_of_lt outer
    rw [Nat.zero_add] at here ⊢
    rw [others]
    exact here
  exact ⟨accounts.length.trans length,
    fun distance scope outer here =>
      accounts.fades distance scope (Nat.zero_le _) (further outer here),
    accounts.skipping.spent,
    fun distance scope scope' other outer here =>
      accounts.kept distance scope scope' other (Nat.zero_le _) (further outer here),
    warnings ▸ accounts.warnings, accounts.named, accounts.proper⟩

/-- Closing a scope adds what was unused in it to the warnings. -/
theorem closed {outer inner : Scopes} {scope : LocalScope}
    (accounts : Accounts (depth + 1) 1 survey inner after)
    (split : inner.locals = scope :: outer.locals) (same : inner.warnings = outer.warnings)
    (uses : survey'.uses = survey.uses)
    (told
      : survey'.warnings = survey.warnings ++ (after.locals.headD .empty).unusedWarnings)
    (proper : ∀ body ∈ survey'.bodies, ProperStmts body.statements)
    : Accounts depth 0 survey' outer after.closed := by
  refine ⟨?_, ?_, ?_, ?_, ?_, uses ▸ accounts.named, proper⟩
  · rw [Scopes.locals_closed, List.length_tail, accounts.length, split]
    rfl
  · intro distance scope' _ here
    rw [Scopes.locals_closed, List.getElem?_tail]
    refine accounts.fades (distance + 1) scope' (Nat.le_add_left 1 distance) ?_
    rw [split]
    exact here
  · intro entry member distance distance' bound level _
    rw [Scopes.locals_closed, List.getElem?_tail]
    rw [uses] at member
    exact accounts.spent entry member distance (distance' + 1) bound (by omega)
      (Nat.le_add_left 1 distance')
  · intro distance scope' scope'' name _ here there free
    rw [Scopes.locals_closed, List.getElem?_tail] at there
    refine accounts.kept (distance + 1) scope' scope'' name (Nat.le_add_left 1 distance)
      (by rw [split]; exact here) there fun entry member => ?_
    rintro ⟨isName, found, recorded, level⟩
    exact free entry (uses ▸ member) ⟨isName, found, recorded, by omega⟩
  · rw [Scopes.warnings_closed, accounts.warnings, same, told, List.append_assoc]

/-- The scope around methods declares nothing that could be unused. -/
theorem implicit {outer : Scopes} {name : String}
    (accounts : Accounts (depth + 1) 0 survey (outer.opened.defined name) after)
    : Accounts depth 0 survey outer after.closed := by
  refine accounts.skipping.closed rfl rfl rfl ?_ accounts.proper
  obtain ⟨scope, here, fades⟩ := accounts.fades 0 _ (Nat.le_refl 0) rfl
  have silent : scope.unusedWarnings = [] := by
    unfold LocalScope.unusedWarnings
    refine List.map_eq_nil_iff.2 (Table.entries_of_get?_none fun other => ?_)
    cases left : scope.unused.get? other with
    | none => rfl
    | some token => exact absurd (fades.unused other token left) nofun
  rw [List.headD_eq_head?_getD, List.head?_eq_getElem?, here, Option.getD_some, silent,
    List.append_nil]

/-- A body is accounted for by its survey, with the warnings of the scope that it closes. -/
theorem body (body : Body) (proper : ProperStmts body.statements)
    (accounts
      : Accounts (depth + 1) 1 body.survey body.start.scopes
          (bindStmts body.statements body.start.scopes).2)
    : Accounts depth 0 (body.survey ++ .body body) body.site.scopes
        (bindStmts body.statements body.start.scopes).2.closed := by
  obtain ⟨scope, split, warnings, -⟩ := body.opens
  refine accounts.closed split warnings (List.append_nil _) ?_ fun other member => ?_
  · unfold Survey.warnings
    rw [Survey.bodies_append, List.flatMap_append]
    exact congrArg _ (List.append_nil _)
  · rcases List.mem_append.1 member with member | member
    · exact accounts.proper other member
    · obtain rfl := List.mem_singleton.1 member
      exact proper

end Accounts

-----
-- Whole trees

/-- A superclass clause changes neither scopes nor warnings by itself. -/
theorem enterSubclass_quiet (name superclass : Token) (scopes : Scopes)
    : (enterSubclass name superclass scopes).2.locals = scopes.locals
      ∧ (enterSubclass name superclass scopes).2.warnings = scopes.warnings := by
  change (if superclass.lexeme = name.lexeme then _ else _ : Scopes).locals = _
    ∧ (if superclass.lexeme = name.lexeme then _ else _ : Scopes).warnings = _
  split <;> exact ⟨rfl, rfl⟩

/-- At the head of a class its name is introduced. -/
theorem declaringClass_quiet (site : Site) (name : Token)
    : (site.declaringClass name).scopes.locals = (site.scopes.introduced (some name)).locals
      ∧ (site.declaringClass name).scopes.warnings
          = (site.scopes.introduced (some name)).warnings := by
  change ((site.scopes.enteredClass .plain).introduced (some name)).locals = _
    ∧ ((site.scopes.enteredClass .plain).introduced (some name)).warnings = _
  rw [Scopes.introduced_enteredClass]
  exact ⟨rfl, rfl⟩

mutual
/-- An expression is accounted for by its survey, by induction on the tree. -/
theorem accounts_expr
    : ∀ (expr : SourceExpr) (site : Site),
        expr.Proper
        → Accounts site.frames.length 0 (surveyExpr site expr) site.scopes
            (bindExpr expr site.scopes).2
  | .literal _, _, _ => .quiet rfl rfl
  | .grouping inner, site, proper => accounts_expr inner (site.child 0) proper
  | .unary _ operand, site, proper => accounts_expr operand (site.child 0) proper
  | .binary left _ right, site, ⟨properLeft, properRight⟩ =>
      (accounts_expr left (site.child 0) properLeft).append
        (accounts_expr right ((site.after (bindExpr left)).child 1) properRight)
  | .logical left _ right, site, ⟨properLeft, properRight⟩ =>
      (accounts_expr left (site.child 0) properLeft).append
        (accounts_expr right ((site.after (bindExpr left)).child 1) properRight)
  | .conditional condition thenCase elseCase, site, ⟨tested, first, second⟩ =>
      let thenSite := site.after (bindExpr condition)
      ((accounts_expr condition (site.child 0) tested).append
        (accounts_expr thenCase (thenSite.child 1) first)).append
          (accounts_expr elseCase ((thenSite.after (bindExpr thenCase)).child 2) second)
  | .variable target, site, isName => .use site (.read target.name) isName
  | .assign target value, site, ⟨isName, proper⟩ =>
      (accounts_expr value (site.child 0) proper).append
        (.use (site.after (bindExpr value)) (.write target.name) isName)
  | .call callee _ arguments, site, ⟨properCallee, properArguments⟩ =>
      (accounts_expr callee (site.child 0) properCallee).append
        (accounts_exprs arguments ((site.after (bindExpr callee)).child 1) properArguments)
  | .get object _, site, proper => accounts_expr object (site.child 0) proper
  | .set object _ value, site, ⟨properObject, properValue⟩ =>
      (accounts_expr value (site.child 1) properValue).append
        (accounts_expr object ((site.after (bindExpr value)).child 0) properObject)
  | .this keyword, site, isThis => .use site (.this keyword.name) isThis
  | .super keyword method, site, isSuper => .use site (.super keyword.name method) isSuper
  | .function function, site, proper => accounts_function function (site.child 0) proper

/-- Expressions in a row are accounted for by their survey. -/
theorem accounts_exprs
    : ∀ (exprs : List SourceExpr) (site : Site),
        ProperExprs exprs
        → Accounts site.frames.length 0 (surveyExprs site exprs) site.scopes
            (bindExprs exprs site.scopes).2
  | [], _, _ => .quiet rfl rfl
  | first :: rest, site, ⟨properFirst, properRest⟩ =>
      (accounts_expr first (site.child 0) properFirst).append
        (accounts_exprs rest ((site.after (bindExpr first)).child 1) properRest)

/-- An optional expression is accounted for by its survey. -/
theorem accounts_optional
    : ∀ (value : Option SourceExpr) (site : Site),
        ProperOptional value
        → Accounts site.frames.length 0 (surveyOptional site value) site.scopes
            (bindOptional value site.scopes).2
  | none, _, _ => .quiet rfl rfl
  | some value, site, proper => accounts_expr value (site.child 0) proper

/-- A statement introduces its name before it does anything else. -/
theorem accounts_stmt
    : ∀ (stmt : SourceStmt) (site : Site),
        stmt.Proper
        → Accounts site.frames.length 0 (surveyStmt site stmt)
            (site.scopes.introduced stmt.introduces?) (bindStmt stmt site.scopes).2
  | .expression value, site, proper => accounts_expr value (site.child 0) proper
  | .print value, site, proper => accounts_expr value (site.child 0) proper
  | .printLine value, site, proper => accounts_optional value site proper
  | .variable name initial, site, ⟨_, proper⟩ =>
      (accounts_optional initial (site.declaring name) proper).defined name.lexeme
  | .block statements, site, proper =>
      .body (.block site statements) proper
        (accounts_stmts statements (site.opened .block) proper)
  | .branch condition thenBranch elseBranch, site, ⟨tested, ⟨first, nothing⟩, second⟩ => by
      let thenSite := site.after (bindExpr condition)
      have branch := accounts_stmt thenBranch (thenSite.child 1) first
      rw [nothing] at branch
      exact ((accounts_expr condition (site.child 0) tested).append branch).append
        (accounts_else elseBranch ((thenSite.after (bindStmt thenBranch)).child 2) second)
  | .loop condition body, site, ⟨tested, proper, nothing⟩ => by
      have inside :=
        accounts_stmt body ((site.after (bindExpr condition)).looping.child 1) proper
      rw [nothing] at inside
      exact (accounts_expr condition (site.child 0) tested).append
        (inside.congr rfl rfl rfl rfl)
  | .breakLoop keyword, site, _ => by
      change Accounts site.frames.length 0 .empty site.scopes
        (if site.scopes.loopDepth = 0 then _ else _)
      split <;> exact .quiet rfl rfl
  | .returnValue keyword value, site, proper => by
      have checked
          : Accounts site.frames.length 0 .empty site.scopes
              (checkReturn keyword site.scopes).2 := by
        change Accounts site.frames.length 0 .empty site.scopes
          (if site.scopes.inFunction then _ else _)
        split <;> exact .quiet rfl rfl
      exact checked.append (accounts_optional value (site.after (checkReturn keyword)) proper)
  | .function name function, site, ⟨_, proper⟩ =>
      accounts_function function ((site.introducing name).child 0) proper
  | .class name none methods, site, ⟨_, _, proper⟩ => by
      obtain ⟨locals, warnings⟩ := declaringClass_quiet site name
      have inside := accounts_methods methods (site.amongMethods name none) proper
      have nothing
          : Accounts site.frames.length 0 .empty (site.scopes.introduced (some name))
              (site.declaringClass name).scopes :=
        .quiet locals warnings
      exact (nothing.append inside.implicit).congr rfl rfl rfl rfl
  | .class name (some superclass) methods, site, ⟨_, named, proper⟩ => by
      obtain ⟨locals, warnings⟩ := declaringClass_quiet site name
      obtain ⟨locals', warnings'⟩ :=
        enterSubclass_quiet name superclass.name (site.declaringClass name).scopes
      have inside := accounts_methods methods (site.amongMethods name (some superclass)) proper
      have clause :=
        Accounts.use (site.inheriting name superclass.name) (.read superclass.name) (named _ rfl)
      have clause :=
        clause.congr (locals'.trans locals).symm (warnings'.trans warnings).symm rfl rfl
      exact (clause.append inside.implicit.implicit).congr rfl rfl rfl rfl

/-- Statements in a row are accounted for by their survey. -/
theorem accounts_stmts
    : ∀ (stmts : List SourceStmt) (site : Site),
        ProperStmts stmts
        → Accounts site.frames.length 1 (surveyStmts site stmts) site.scopes
            (bindStmts stmts site.scopes).2
  | [], _, _ => .quiet rfl rfl
  | first :: rest, site, ⟨properFirst, properRest⟩ =>
      (accounts_stmt first (site.child 0) properFirst).introduced.append
        (accounts_stmts rest ((site.after (bindStmt first)).child 1) properRest)

/-- A branch that may be missing is accounted for by its survey. -/
theorem accounts_else
    : ∀ (branch : Option SourceStmt) (site : Site),
        ProperElse branch
        → Accounts site.frames.length 0 (surveyElse site branch) site.scopes
            (bindElse branch site.scopes).2
  | none, _, _ => .quiet rfl rfl
  | some branch, site, ⟨proper, nothing⟩ => by
      have inside := accounts_stmt branch site proper
      rw [nothing] at inside
      exact inside

/-- A function is accounted for by its survey. -/
theorem accounts_function
    : ∀ (function : Lambda Unit) (site : Site),
        function.Proper
        → Accounts site.frames.length 0 (surveyFunction site function) site.scopes
            (bindFunction function site.scopes).2
  | .mk parameters body, site, ⟨_, proper⟩ =>
      (Accounts.body (.function site (.mk parameters body)) proper
        (accounts_stmts body (site.inside (.mk parameters body)) proper)).congr rfl rfl rfl rfl

/-- Methods in a row are accounted for by their survey. -/
theorem accounts_methods
    : ∀ (methods : List (Method Unit)) (site : Site),
        ProperMethods methods
        → Accounts site.frames.length 0 (surveyMethods site methods) site.scopes
            (bindMethods methods site.scopes).2
  | [], _, _ => .quiet rfl rfl
  | .mk _ function :: rest, site, ⟨properFirst, properRest⟩ =>
      (accounts_function function (site.child 0) properFirst).append
        (accounts_methods rest ((site.after (bindFunction function)).child 1) properRest)
end

end Lox.Scoping
