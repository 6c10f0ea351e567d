import Lox.Proofs.Usage.References
import Lox.Proofs.Usage.Session

/-! Exactly the declarations that nothing uses any more are warned about.

A declaration is deserted if it is the last one of its name in its scope and no variable behind its
name is bound to it. What is deserted stays among the unused names until its scope is closed.
-/

namespace Lox

/-- What is found under a name is an entry of the table. -/
theorem Table.mem_of_get? {α : Type} {table : Table α} {name : String} {value : α}
    (found : table.get? name = some value)
    : (name, value) ∈ table.entries := by
  obtain ⟨front, back, split, -⟩ := List.lookup_eq_some_iff.1 found
  rw [split]
  exact List.mem_append_right _ List.mem_cons_self

namespace Scoping

open Binding
open Grammar (SourceStmt)

-----
-- Places of the statements of a scope

/-- The place of a statement is inside of the place of its list. -/
theorem suffix_placeOf (place : List Nat) (index : Nat) : place <:+ placeOf place index := by
  induction index generalizing place with
  | zero => exact List.suffix_cons 0 place
  | succ index ih => exact (List.suffix_cons 1 place).trans (ih _)

/-- A place is in one statement only. -/
theorem placeOf_unique {place inner : List Nat} {index index' : Nat}
    (inside : placeOf place index <:+ inner) (inside' : placeOf place index' <:+ inner)
    : index = index' := by
  induction index generalizing place index' with
  | zero =>
      cases index' with
      | zero => rfl
      | succ later =>
          have behind := (suffix_placeOf (1 :: place) later).trans inside'
          exact absurd (Survey.part_unique inside behind) (by decide)
  | succ index ih =>
      cases index' with
      | zero =>
          have behind := (suffix_placeOf (1 :: place) index).trans inside
          exact absurd (Survey.part_unique inside' behind) (by decide)
      | succ later => exact congrArg _ (ih inside inside')

/-- Every use stands in a statement. -/
theorem uses_numbered {statements : List SourceStmt} {site : Site}
    (level : Level site.place site.frames)
    : ∀ entry ∈ (surveyStmts site statements).uses,
        ∃ index, placeOf site.place index <:+ entry.1.place := by
  induction statements generalizing site with
  | nil => exact fun _ none => absurd none List.not_mem_nil
  | cons first rest ih =>
      intro entry member
      rcases mem_surveyStmts_cons.1 member with member | member
      · exact ⟨0, ((placed_stmt first (site.child 0) (level.part 0)).uses entry member).1⟩
      · obtain ⟨index, inside⟩ := ih (level.part 1).level entry member
        exact ⟨index + 1, inside⟩

-----
-- Statements that leave a name alone

section

variable {stmt : SourceStmt} {statements : List SourceStmt} {site : Site}
  {scope scope' : LocalScope}

/-- A name that the statement introduces and does not use is unused. -/
theorem stmt_deserts (proper : stmt.Proper) (here : site.scopes.locals[0]? = some scope)
    (there : (bindStmt stmt site.scopes).2.locals[0]? = some scope') {name : Token}
    (introduced : stmt.introduces? = some name)
    (free
      : ∀ entry ∈ (surveyStmt site stmt).uses, ¬BoundAt site.frames.length name.lexeme entry)
    : scope'.unused.get? name.lexeme = some name := by
  have accounts := accounts_stmt stmt site proper
  rw [introduced] at accounts
  have kept :=
    accounts.kept 0 _ scope' name.lexeme (Nat.le_refl 0) (introduced_head here name) there
      fun entry member bound => free entry member (by simpa [BoundFrom, BoundAt] using bound)
  rw [kept]
  exact Table.get?_insert_self _ _ _

/-- A name that the statement neither introduces nor uses is as unused as before. -/
theorem stmt_spares (proper : stmt.Proper) (here : site.scopes.locals[0]? = some scope)
    (there : (bindStmt stmt site.scopes).2.locals[0]? = some scope') {name : String}
    (other : ∀ token, stmt.introduces? = some token → token.lexeme ≠ name)
    (free : ∀ entry ∈ (surveyStmt site stmt).uses, ¬BoundAt site.frames.length name entry)
    : scope'.unused.get? name = scope.unused.get? name := by
  have accounts := accounts_stmt stmt site proper
  have unbound : ∀ entry ∈ (surveyStmt site stmt).uses,
      ¬BoundFrom site.frames.length 0 name entry :=
    fun entry member bound => free entry member (by simpa [BoundFrom, BoundAt] using bound)
  cases introduced : stmt.introduces? with
  | none =>
      rw [introduced] at accounts
      exact accounts.kept 0 scope scope' name (Nat.le_refl 0) here there unbound
  | some token =>
      rw [introduced] at accounts
      rw [accounts.kept 0 _ scope' name (Nat.le_refl 0) (introduced_head here token) there unbound]
      exact Table.get?_insert_of_ne _ _ (other token introduced).symm

/-- Statements that do not touch a name leave its entry among the unused ones as it is. -/
theorem Untouched.spares {name : String} (untouched : Untouched site statements name)
    (proper : ProperStmts statements) (here : site.scopes.locals[0]? = some scope)
    (there : (bindStmts statements site.scopes).2.locals[0]? = some scope')
    : scope'.unused.get? name = scope.unused.get? name := by
  induction statements generalizing site scope with
  | nil =>
      obtain rfl := Option.some.inj (here.symm.trans there)
      rfl
  | cons first rest ih =>
      obtain ⟨properFirst, properRest⟩ := proper
      have reached : (site.child 0).scopes.locals[0]? = some scope := here
      obtain ⟨middle, between, -⟩ := stmt_innermost properFirst reached
      have inRest : Untouched ((site.after (bindStmt first)).child 1) rest name := by
        refine ⟨fun index other declares => ?_, fun entry member => ?_⟩
        · exact untouched.declared (index + 1) other declares
        · exact untouched.uses entry (mem_surveyStmts_cons.2 (.inr member))
      refine (ih inRest properRest between there).trans ?_
      refine stmt_spares properFirst reached between
        (fun token introduced => untouched.declared 0 token ⟨first, rfl, introduced⟩)
        fun entry member => ?_
      exact untouched.uses entry (mem_surveyStmts_cons.2 (.inl member))

/-- No use of the name in this scope stands in the statement of the number or behind it. -/
def FreeFrom (site : Site) (statements : List SourceStmt) (index : Nat) (name : String) : Prop :=
  ∀ entry ∈ (surveyStmts site statements).uses, ∀ later,
    index ≤ later
    → placeOf site.place later <:+ entry.1.place
    → ¬BoundAt site.frames.length name entry

/-- The last declaration of a name that is not used from there on is left over. -/
theorem LastToDeclare.deserted {index : Nat} {name : Token}
    (last : LastToDeclare statements index name) (free : FreeFrom site statements index name.lexeme)
    (proper : ProperStmts statements) (level : Level site.place site.frames)
    (here : site.scopes.locals[0]? = some scope)
    (there : (bindStmts statements site.scopes).2.locals[0]? = some scope')
    : scope'.unused.get? name.lexeme = some name := by
  induction statements generalizing site scope index with
  | nil =>
      obtain ⟨stmt, none, -⟩ := last.declared
      cases none
  | cons first rest ih =>
      obtain ⟨properFirst, properRest⟩ := proper
      have reached : (site.child 0).scopes.locals[0]? = some scope := here
      obtain ⟨middle, between, -⟩ := stmt_innermost properFirst reached
      have behind : Level ((site.after (bindStmt first)).child 1).place
          ((site.after (bindStmt first)).child 1).frames :=
        (level.part 1).level
      cases index with
      | zero =>
          obtain ⟨stmt, found, introduced⟩ := last.declared
          obtain rfl : first = stmt := Option.some.inj found
          have deserted : middle.unused.get? name.lexeme = some name := by
            refine stmt_deserts properFirst reached between introduced fun entry member => ?_
            have inside := ((placed_stmt first (site.child 0) (level.part 0)).uses entry member).1
            exact free entry (mem_surveyStmts_cons.2 (.inl member)) 0 (Nat.le_refl 0) inside
          have untouched
              : Untouched ((site.after (bindStmt first)).child 1) rest name.lexeme := by
            refine ⟨fun later other declares => ?_, fun entry member => ?_⟩
            · exact last.last (later + 1) other (Nat.succ_pos later) declares
            · obtain ⟨later, inside⟩ := uses_numbered behind entry member
              exact free entry (mem_surveyStmts_cons.2 (.inr member)) (later + 1) (Nat.zero_le _)
                inside
          exact (untouched.spares properRest between there).trans deserted
      | succ index =>
          refine ih ⟨last.declared, fun later other beyond declares => ?_⟩ ?_ properRest behind
            between there
          · exact last.last (later + 1) other (Nat.succ_lt_succ beyond) declares
          · intro entry member later le inside
            exact free entry (mem_surveyStmts_cons.2 (.inr member)) (later + 1)
              (Nat.succ_le_succ le) inside

end

/-- What comes behind all uses of its name is not used from there on. -/
theorem Retires.free {site : Site} {statements : List SourceStmt} {known : String → Prop}
    {index : Nat} {name : Token} (retires : Retires site statements known index name)
    : FreeFrom site statements index name.lexeme := by
  intro entry member later le inside bound
  obtain ⟨earlier, less, inside', -⟩ := retires.uses entry member bound
  obtain rfl := placeOf_unique inside inside'
  exact absurd less (Nat.not_lt_of_le le)

/-- A declared name is a name, and no keyword. -/
theorem DeclaresAt.isName {statements : List SourceStmt} {index : Nat} {name : Token}
    (declares : DeclaresAt statements index name) (proper : ProperStmts statements)
    : name.IsName := by
  obtain ⟨stmt, here, introduced⟩ := declares
  induction statements generalizing index with
  | nil => cases here
  | cons first rest ih =>
      cases index with
      | succ index => exact ih proper.2 here
      | zero =>
          obtain rfl := Option.some.inj here
          exact proper.1.isName introduced

-----
-- Bodies

/-- The node reads or writes a variable. -/
def Use.IsVariable : Use → Prop
  | .read _ | .write _ => True
  | .this _ | .super _ _ => False

/-- A use of a declared name is the use of a variable. -/
theorem Use.Proper.isVariable {use : Use} (proper : use.Proper) {name : Token}
    (isName : name.IsName) (same : use.token.lexeme = name.lexeme)
    : use.IsVariable := by
  cases use with
  | read _ | write _ => trivial
  | this keyword => exact absurd (same.symm.trans proper) isName.2.1
  | super keyword _ => exact absurd (same.symm.trans proper) isName.2.2

namespace Body

variable {body : Body}

/-- The use is bound to the name in the scope of the body. -/
def Binds (body : Body) (name : String) (entry : Site × Use) : Prop :=
  entry.2.token.lexeme = name
  ∧ ∃ distance,
      entry.1.distance entry.2 = some distance ∧ entry.1.frames[distance]? = some body.frame

/-- The statement of the number is the last one to declare the name in the body. No variable in it
or in a later statement is bound to the name there. -/
structure Deserts (body : Body) (uses : List (Site × Use)) (index : Nat) (name : Token) : Prop
    extends LastToDeclare body.statements index name where
  unused
    : ∀ entry ∈ uses,
        entry.2.IsVariable
        → ∀ later,
            index ≤ later
            → placeOf body.site.place later <:+ entry.1.place
            → ¬body.Binds name.lexeme entry

/-- Among the uses of a body, its scope is told by the depth. -/
theorem binds_iff (inner : Inner body.site.place body.site.frames) {name : String}
    {entry : Site × Use} (member : entry ∈ body.survey.uses)
    : body.Binds name entry ↔ BoundAt body.start.frames.length name entry := by
  refine and_congr_right fun _ => exists_congr fun distance => and_congr_right fun _ => ?_
  refine ⟨fun here => depth inner member here, fun long => ?_⟩
  obtain ⟨part, -, -, front, split, -⟩ :=
    (among_stmts body.statements body.start (level inner)).uses entry member
  rw [start_frames] at split long
  rw [split, List.length_append] at long
  obtain rfl : distance = front.length := by omega
  rw [split, List.getElem?_append_right (Nat.le_refl _), Nat.sub_self]
  rfl

variable {survey : Survey} {place : List Nat} {frames : List Frame}

/-- What is not used behind a name in its body is not used anywhere. -/
theorem deserts_iff (placed : survey.Placed place frames)
    (named : ∀ entry ∈ survey.uses, entry.2.Proper) (member : body ∈ survey.bodies)
    (proper : ProperStmts body.statements) {index : Nat} {name : Token}
    : body.Deserts survey.uses index name
        ↔ LastToDeclare body.statements index name
          ∧ FreeFrom body.start body.statements index name.lexeme := by
  have inner := (placed.bodies body member).2
  unfold FreeFrom
  rw [start_place]
  constructor
  · intro deserts
    refine ⟨deserts.toLastToDeclare, fun entry own later le inside bound => ?_⟩
    have listed := placed.complete body member entry own
    have isVariable := (named entry listed).isVariable (deserts.declared.isName proper) bound.1
    exact deserts.unused entry listed isVariable later le inside ((binds_iff inner own).2 bound)
  · rintro ⟨last, free⟩
    refine ⟨last, fun entry listed _ later le inside binds => ?_⟩
    obtain ⟨distance, -, here⟩ := binds.2
    have own := placed.owned entry listed body member (List.mem_of_getElem? here)
    exact free entry own later le inside ((binds_iff inner own).1 binds)

/-- From the start of a body to its end the scope of the body is the innermost one. -/
theorem closes (proper : ProperStmts body.statements)
    (inner : Inner body.site.place body.site.frames)
    : ∃ scope,
        body.start.scopes.locals[0]? = some scope
        ∧ (bindStmts body.statements body.start.scopes).2.locals[0]? = some body.closing
        ∧ body.closing.unused.Distinct := by
  obtain ⟨scope, split, -, silent, -⟩ := body.opens
  have here : body.start.scopes.locals[0]? = some scope := by rw [split]; rfl
  obtain ⟨scope', there, distinct, -⟩ := stmts_innermost proper (level inner) here
  have closing : body.closing = scope' := by
    unfold Body.closing
    rw [List.headD_eq_head?_getD, List.head?_eq_getElem?, there, Option.getD_some]
  rw [closing]
  exact ⟨scope, here, there, distinct (by rw [silent]; exact Table.distinct_empty)⟩

/-- The names that are unused where the scope is closed. -/
def leftOver (body : Body) : List Token :=
  body.closing.unused.entries.map Prod.snd

/-- The names left over are those that some statement of the body declares last, with no use from
there on. -/
theorem mem_leftOver (placed : survey.Placed place frames)
    (named : ∀ entry ∈ survey.uses, entry.2.Proper) (member : body ∈ survey.bodies)
    (proper : ProperStmts body.statements) {name : Token}
    : name ∈ body.leftOver ↔ ∃ index, body.Deserts survey.uses index name := by
  have inner := (placed.bodies body member).2
  constructor
  · intro left
    obtain ⟨entry, listed, rfl⟩ := List.mem_map.1 left
    obtain ⟨-, index, retires⟩ := retires proper inner listed
    refine ⟨index, (deserts_iff placed named member proper).2 ?_⟩
    exact ⟨retires.toLastToDeclare, retires.free⟩
  · rintro ⟨index, deserts⟩
    obtain ⟨last, free⟩ := (deserts_iff placed named member proper).1 deserts
    obtain ⟨scope, here, there, -⟩ := closes proper inner
    have left := last.deserted free proper (level inner) here there
    exact List.mem_map.2 ⟨_, Table.mem_of_get? left, rfl⟩

end Body

-----
-- Warnings

/-- The warning at a local that is never used. -/
def unusedWarning (name : Token) : Diagnostic :=
  Diagnostic.atToken name (.unusedLocal name.lexeme)

namespace Body

variable {body : Body}

/-- The names left over are those that are unused when the scope is closed. -/
theorem lexemes_leftOver (proper : ProperStmts body.statements)
    (inner : Inner body.site.place body.site.frames)
    : body.leftOver.map (·.lexeme) = body.closing.unused.names := by
  unfold leftOver Table.names
  rw [List.map_map]
  exact List.map_congr_left fun entry listed => (retires proper inner listed).1

/-- The warnings of a body are those for the names left over. -/
theorem warnings_leftOver (proper : ProperStmts body.statements)
    (inner : Inner body.site.place body.site.frames)
    : body.warnings = body.leftOver.map unusedWarning := by
  unfold leftOver warnings LocalScope.unusedWarnings
  rw [List.map_map]
  refine List.map_congr_left fun entry listed => ?_
  obtain ⟨named, -⟩ := retires proper inner listed
  simp only [Function.comp, unusedWarning, named]

end Body

/-- What is warned about in a bound program, whose uses and scopes the survey lists. -/
structure WarnsExactly (survey : Survey) (bound : Bound) : Prop where
  /-- The references of the program carry the distances that the survey tells. -/
  references : stmtsReferences bound.statements = survey.references
  /-- Each scope is listed once, and not before the scopes inside of it. -/
  ordered
    : survey.bodies.Pairwise fun earlier later =>
        earlier.frame ≠ later.frame ∧ earlier.frame ∉ later.site.frames
  /-- Scope by scope there is one warning for each name that is deserted, and no other. Parameters,
  `this`, `super` and globals are declared by no statement of a body. -/
  warnings
    : ∃ deserted : Body → List Token,
        bound.warnings = survey.bodies.flatMap (fun body => (deserted body).map unusedWarning)
        ∧ ∀ body ∈ survey.bodies,
            ((deserted body).map (·.lexeme)).Nodup
            ∧ ∀ name, name ∈ deserted body ↔ ∃ index, body.Deserts survey.uses index name

/-- In whatever is read from a text, whether or not it could be read without errors, exactly the
locals are warned about that are declared last under their name in their scope and not used behind
their name. Inner scopes come first. -/
theorem unused_exactly (known : List String) (allowExpression : Bool) (source : String)
    (depth : Nat)
    : WarnsExactly (textSurvey 0 known allowExpression source depth)
        (bind known (textStatements allowExpression source depth)) := by
  have accounts := textSurvey_accounts 0 known allowExpression source depth
  have placed := textSurvey_placed 0 known allowExpression source depth
  have within (body : Body)
      (member : body ∈ (textSurvey 0 known allowExpression source depth).bodies) :=
    And.intro (accounts.proper body member) (placed.bodies body member).2
  refine ⟨?_, placed.ordered.imp fun {earlier later} apart => ?_, Body.leftOver, ?_,
    fun body member => ⟨?_, fun name => ?_⟩⟩
  · exact references_stmts _ (.start 0 known)
  · rw [Body.start_frames] at apart
    exact not_or.1 fun around => apart (List.mem_cons.2 around)
  · refine (warnings_surveyed 0 known allowExpression source depth).trans ?_
    refine congrArg List.flatten (List.map_congr_left ?_)
    exact fun body member => Body.warnings_leftOver (within body member).1 (within body member).2
  · obtain ⟨proper, inner⟩ := within body member
    rw [Body.lexemes_leftOver proper inner]
    obtain ⟨scope, -, -, distinct⟩ := Body.closes proper inner
    exact distinct
  · exact Body.mem_leftOver placed accounts.named member (within body member).1

end Scoping

end Lox
