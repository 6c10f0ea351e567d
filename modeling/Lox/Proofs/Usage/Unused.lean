import Lox.Proofs.Usage.Accounts
import Lox.Proofs.Usage.Places

/-! Declarations that are unused where their scope is closed.

Such a declaration is the last of its name in its scope, and all uses that are bound to the name in
this scope stand in statements before it: they were bound to an earlier declaration of the name.
-/

namespace Lox.Scoping

open Binding
open Grammar (SourceStmt)

-----
-- Statements of a scope

/-- The place of a statement in a list that starts at the place. -/
def placeOf (place : List Nat) : Nat → List Nat
  | 0 => 0 :: place
  | index + 1 => placeOf (1 :: place) index

/-- The statement with the number declares the name. -/
def DeclaresAt (statements : List SourceStmt) (index : Nat) (name : Token) : Prop :=
  ∃ stmt, statements[index]? = some stmt ∧ stmt.introduces? = some name

/-- One of the statements before the given number declares the name. -/
def DeclaredBefore (statements : List SourceStmt) (index : Nat) (name : String) : Prop :=
  ∃ earlier < index, ∃ token, DeclaresAt statements earlier token ∧ token.lexeme = name

/-- A name declared before a place is declared before every later one. -/
theorem DeclaredBefore.mono {statements : List SourceStmt} {index index' : Nat} {name : String}
    (declared : DeclaredBefore statements index name) (le : index ≤ index')
    : DeclaredBefore statements index' name := by
  obtain ⟨earlier, less, rest⟩ := declared
  exact ⟨earlier, Nat.lt_of_lt_of_le less le, rest⟩

/-- The statement with the number is the last one that declares the name. -/
structure LastToDeclare (statements : List SourceStmt) (index : Nat) (name : Token) : Prop where
  declared : DeclaresAt statements index name
  last
    : ∀ later other,
        index < later → DeclaresAt statements later other → other.lexeme ≠ name.lexeme

/-- The use is bound to the name in the scope that is the innermost at this depth. -/
def BoundAt (depth : Nat) (name : String) (entry : Site × Use) : Prop :=
  entry.2.token.lexeme = name
  ∧ ∃ distance,
      entry.1.distance entry.2 = some distance ∧ entry.1.frames.length = distance + depth

-----
-- One statement

/-- What a statement that introduces the name, if any, makes of the scope that it stands in. -/
structure Introduces (introduced : Option Token) (before after : LocalScope) : Prop where
  names
    : ∀ name,
        after.names.contains name = true
        → before.names.contains name = true
          ∨ ∃ token, introduced = some token ∧ token.lexeme = name
  unused
    : ∀ name token,
        after.unused.get? name = some token
        → introduced = some token ∧ token.lexeme = name
          ∨ before.unused.get? name = some token
            ∧ ∀ other, introduced = some other → other.lexeme ≠ name
  distinct : before.unused.Distinct → after.unused.Distinct

/-- What a statement introduces is in the current scope, declared and defined. -/
theorem introduced_head {scopes : Scopes} {scope : LocalScope}
    (here : scopes.locals[0]? = some scope) (name : Token)
    : (scopes.introduced (some name)).locals[0]?
        = some ((scope.declared name true).defined name.lexeme) := by
  rw [Scopes.introduced, Scopes.locals_defined, List.getElem?_modifyHead, if_pos rfl,
    Scopes.locals_declared, List.getElem?_modifyHead, if_pos rfl, here]
  rfl

/-- Behind a statement there still is a current scope. -/
theorem introduced_innermost {scopes : Scopes} {scope : LocalScope}
    (here : scopes.locals[0]? = some scope) (introduced : Option Token)
    : ∃ scope',
        (scopes.introduced introduced).locals[0]? = some scope'
        ∧ Introduces introduced scope scope' := by
  cases introduced with
  | none =>
      exact ⟨scope, here, fun _ => .inl, fun _ _ left => .inr ⟨left, nofun⟩, id⟩
  | some name =>
      refine ⟨(scope.declared name true).defined name.lexeme, introduced_head here name, ?_, ?_, ?_⟩
      · intro other known
        rcases Table.contains_insert.1 known with same | known
        · exact .inr ⟨name, rfl, same.symm⟩
        · rcases Table.contains_insertIfNew.1 known with same | known
          · exact .inr ⟨name, rfl, same.symm⟩
          · exact .inl known
      · intro other token left
        change (scope.unused.insert name.lexeme name).get? other = some token at left
        rw [Table.get?_insert] at left
        split at left
        · next same => exact .inl ⟨left, Option.some.inj left ▸ same.symm⟩
        · next apart =>
            refine .inr ⟨left, fun found same => ?_⟩
            obtain rfl := Option.some.inj same
            exact Ne.symm apart
      · exact fun distinct => distinct.insert name.lexeme name

/-- Behind a statement, what is used in it is not unused. -/
theorem stmt_innermost {stmt : SourceStmt} {site : Site} (proper : stmt.Proper)
    {scope : LocalScope} (here : site.scopes.locals[0]? = some scope)
    : ∃ scope',
        (bindStmt stmt site.scopes).2.locals[0]? = some scope'
        ∧ Introduces stmt.introduces? scope scope'
        ∧ ∀ name,
            ∀ entry ∈ (surveyStmt site stmt).uses,
              BoundAt site.frames.length name entry → scope'.Spent name := by
  obtain ⟨between, introduced, introduces⟩ := introduced_innermost here stmt.introduces?
  have accounts := accounts_stmt stmt site proper
  obtain ⟨scope', there, fades⟩ := accounts.fades 0 between (Nat.le_refl 0) introduced
  have sameNames : scope'.names = between.names := by
    have views := (bindStmt_introduces stmt site.scopes proper).views
    have first := congrArg (·[0]?) views
    simpa [Scopes.views, introduced, there] using first
  refine ⟨scope', there, ⟨fun name known => ?_, fun name token left => ?_, fun distinct => ?_⟩, ?_⟩
  · exact introduces.names name (sameNames ▸ known)
  · exact introduces.unused name token (fades.unused name token left)
  · exact fades.distinct (introduces.distinct distinct)
  · rintro name entry member ⟨rfl, distance, bound, level⟩
    obtain ⟨found, there', spent⟩ :=
      accounts.spent entry member distance 0 bound (by omega) (Nat.le_refl 0)
    obtain rfl : scope' = found := Option.some.inj (there.symm.trans there')
    exact spent

-----
-- All statements of a scope

/-- No statement has anything to do with the name in their scope. -/
structure Untouched (site : Site) (statements : List SourceStmt) (name : String) : Prop where
  declared : ∀ index other, DeclaresAt statements index other → other.lexeme ≠ name
  uses : ∀ entry ∈ (surveyStmts site statements).uses, ¬BoundAt site.frames.length name entry

/-- The last statement that declares the name, behind all uses of the name in their scope. The
names told were known before. -/
structure Retires (site : Site) (statements : List SourceStmt) (known : String → Prop)
    (index : Nat) (name : Token)
    : Prop
    extends LastToDeclare statements index name where
  uses
    : ∀ entry ∈ (surveyStmts site statements).uses,
        BoundAt site.frames.length name.lexeme entry
        → ∃ earlier < index,
            placeOf site.place earlier <:+ entry.1.place
            ∧ (known name.lexeme ∨ DeclaredBefore statements (earlier + 1) name.lexeme)

section

variable {site : Site} {first : SourceStmt} {rest : List SourceStmt} {name : String}

/-- A name declared further on is declared behind one statement more. -/
theorem DeclaredBefore.cons {index : Nat} (declared : DeclaredBefore rest index name)
    : DeclaredBefore (first :: rest) (index + 1) name := by
  obtain ⟨earlier, less, token, declares, same⟩ := declared
  exact ⟨earlier + 1, Nat.succ_lt_succ less, token, declares, same⟩

/-- A use in statements is in the first one or in the rest. -/
theorem mem_surveyStmts_cons {entry : Site × Use}
    : entry ∈ (surveyStmts site (first :: rest)).uses
        ↔ entry ∈ (surveyStmt (site.child 0) first).uses
          ∨ entry ∈ (surveyStmts ((site.after (bindStmt first)).child 1) rest).uses :=
  List.mem_append

/-- A name is untouched if neither the first statement nor the rest touches it. -/
theorem Untouched.cons
    (untouched : Untouched ((site.after (bindStmt first)).child 1) rest name)
    (other : ∀ token, first.introduces? = some token → token.lexeme ≠ name)
    (free
      : ∀ entry ∈ (surveyStmt (site.child 0) first).uses,
          ¬BoundAt site.frames.length name entry)
    : Untouched site (first :: rest) name := by
  refine ⟨fun index token declares => ?_, fun entry member => ?_⟩
  · cases index with
    | zero =>
        obtain ⟨stmt, here, introduced⟩ := declares
        obtain rfl := Option.some.inj here
        exact other token introduced
    | succ index => exact untouched.declared index token declares
  · rcases mem_surveyStmts_cons.1 member with member | member
    · exact free entry member
    · exact untouched.uses entry member

/-- A name that is introduced, and nothing more. -/
theorem Untouched.retires {token : Token} {known : String → Prop}
    (untouched : Untouched ((site.after (bindStmt first)).child 1) rest token.lexeme)
    (introduced : first.introduces? = some token)
    (free
      : ∀ entry ∈ (surveyStmt (site.child 0) first).uses,
          ¬BoundAt site.frames.length token.lexeme entry)
    : Retires site (first :: rest) known 0 token := by
  refine ⟨⟨⟨first, rfl, introduced⟩, fun later other beyond declares => ?_⟩,
    fun entry member bound => ?_⟩
  · cases later with
    | zero => exact absurd beyond (Nat.lt_irrefl 0)
    | succ later => exact untouched.declared later other declares
  · rcases mem_surveyStmts_cons.1 member with member | member
    · exact absurd bound (free entry member)
    · exact absurd bound (untouched.uses entry member)

/-- One more statement before the others. What it uses was known behind it. -/
theorem Retires.cons {index : Nat} {token : Token} {known known' : String → Prop}
    (retires : Retires ((site.after (bindStmt first)).child 1) rest known' index token)
    (level : Level site.place site.frames)
    (learned
      : ∀ name,
          known' name → known name ∨ ∃ other, first.introduces? = some other ∧ other.lexeme = name)
    (spent
      : ∀ name, ∀ entry ∈ (surveyStmt (site.child 0) first).uses,
          BoundAt site.frames.length name entry → known' name)
    : Retires site (first :: rest) known (index + 1) token := by
  have behind {earlier : Nat} (there : known' token.lexeme)
      : known token.lexeme ∨ DeclaredBefore (first :: rest) (earlier + 1) token.lexeme := by
    refine (learned _ there).imp_right fun declared => ?_
    obtain ⟨other, introduced, same⟩ := declared
    exact ⟨0, Nat.succ_pos earlier, other, ⟨first, rfl, introduced⟩, same⟩
  refine ⟨⟨retires.declared, fun later other beyond declares => ?_⟩,
    fun entry member bound => ?_⟩
  · cases later with
    | zero => exact absurd beyond (Nat.not_lt_zero _)
    | succ later => exact retires.last later other (Nat.lt_of_succ_lt_succ beyond) declares
  · rcases mem_surveyStmts_cons.1 member with member | member
    · have placed := placed_stmt first (site.child 0) (level.part 0)
      exact ⟨0, Nat.succ_pos index, (placed.uses entry member).1,
        behind (spent _ entry member bound)⟩
    · obtain ⟨earlier, less, inside, there⟩ := retires.uses entry member bound
      refine ⟨earlier + 1, Nat.succ_lt_succ less, inside, ?_⟩
      rcases there with there | declared
      · exact behind there
      · exact .inr declared.cons

end

/-- What is unused behind the statements was so before, and they leave it alone, or the last of them
to declare the name comes behind all uses. -/
theorem stmts_innermost {statements : List SourceStmt} {site : Site}
    (proper : ProperStmts statements) (level : Level site.place site.frames)
    {scope : LocalScope} (here : site.scopes.locals[0]? = some scope)
    : ∃ scope',
        (bindStmts statements site.scopes).2.locals[0]? = some scope'
        ∧ (scope.unused.Distinct → scope'.unused.Distinct)
        ∧ ∀ name token,
            scope'.unused.get? name = some token
            → scope.unused.get? name = some token ∧ Untouched site statements name
              ∨ token.lexeme = name
                ∧ ∃ index,
                    Retires site statements (fun name => scope.names.contains name = true) index
                      token := by
  induction statements generalizing site scope with
  | nil =>
      refine ⟨scope, here, id, fun name token left => .inl ⟨left, ?_, ?_⟩⟩
      · intro index other declares
        obtain ⟨stmt, none, -⟩ := declares
        cases none
      · exact fun _ none => absurd none List.not_mem_nil
  | cons first rest ih =>
      obtain ⟨properFirst, properRest⟩ := proper
      have reached : (site.child 0).scopes.locals[0]? = some scope := here
      obtain ⟨middle, between, introduces, spent⟩ :=
        stmt_innermost properFirst reached
      let next := (site.after (bindStmt first)).child 1
      have behind : Level next.place next.frames := (level.part 1).level
      obtain ⟨scope', there, distinct, unused⟩ :=
        ih properRest behind between
      refine ⟨scope', there, fun before => distinct (introduces.distinct before),
        fun name token left => ?_⟩
      rcases unused name token left with ⟨remained, untouched⟩ | ⟨same, index, retires⟩
      · have free
            : ∀ entry ∈ (surveyStmt (site.child 0) first).uses,
                ¬BoundAt site.frames.length name entry := by
          intro entry member bound
          exact absurd ((spent name entry member bound).used.symm.trans remained) nofun
        rcases introduces.unused name token remained with ⟨introduced, rfl⟩ | ⟨before, other⟩
        · exact .inr ⟨rfl, 0, untouched.retires introduced free⟩
        · exact .inl ⟨before, untouched.cons other free⟩
      · refine .inr ⟨same, index + 1, retires.cons level introduces.names ?_⟩
        exact fun name entry member bound => (spent name entry member bound).known

-----
-- Bodies

/-- What a body warns about is the last declaration of its name there, and comes behind all uses of
the name. -/
theorem Body.retires {body : Body} (proper : ProperStmts body.statements)
    (inner : Inner body.site.place body.site.frames) {entry : String × Token}
    (warned : entry ∈ body.closing.unused.entries)
    : entry.2.lexeme = entry.1
      ∧ ∃ index,
          Retires body.start body.statements (· ∈ body.parameters.map (·.lexeme)) index
            entry.2 := by
  obtain ⟨scope, split, -, silent, listed⟩ := body.opens
  have here : body.start.scopes.locals[0]? = some scope := by rw [split]; rfl
  obtain ⟨scope', there, distinct, unused⟩ :=
    stmts_innermost proper (Body.level inner) here
  have closing : body.closing = scope' := by
    unfold Body.closing
    rw [List.headD_eq_head?_getD, List.head?_eq_getElem?, there, Option.getD_some]
  have apart : scope'.unused.Distinct := distinct (by rw [silent]; exact Table.distinct_empty)
  rw [closing] at warned
  rcases unused entry.1 entry.2 (apart.get?_of_mem warned) with
    ⟨before, -⟩ | ⟨same, index, retires⟩
  · rw [silent] at before
    cases before
  · refine ⟨same, index, retires.toLastToDeclare, fun use member bound => ?_⟩
    obtain ⟨earlier, less, inside, known⟩ := retires.uses use member bound
    exact ⟨earlier, less, inside, known.imp_left (listed _)⟩

end Lox.Scoping
