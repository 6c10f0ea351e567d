import Lox.Proofs.Binding.Breaks
import Lox.Proofs.Grammar.Gathering
import Lox.Proofs.Grammar.Moving
import Mathlib.Data.List.Nodup

/-! Both checks of `break` agree.

Reading counts the loops around a `break` as it takes tokens, and binding counts them in the tree.
A `break` that can be found in a tree was taken from one token, and either both of them report it
or neither does.
-/

namespace Lox.Grammar

-----
-- Breaks that are gathered

/-- The breaks in a piece. A statement is told whether it stands in a loop. -/
def Piece.breaks : Piece → List Break
  | .token _ | .name _ => []
  | .expression value => value.breaks
  | .statement inLoop stmt | .declaration inLoop stmt => stmt.breaks inLoop
  | .function literal => literal.breaks
  | .method declared => declared.function.breaks

/-- The breaks in expressions are those of each. -/
theorem exprsBreaks_eq_flatMap (exprs : List SourceExpr)
    : exprsBreaks exprs = exprs.flatMap Expr.breaks := by
  induction exprs with
  | nil => rfl
  | cons first rest ih => simp [exprsBreaks, ih]

/-- The breaks in an optional expression are those of it. -/
theorem optionalBreaks_eq_flatMap (value : Option SourceExpr)
    : optionalBreaks value = value.toList.flatMap Expr.breaks := by
  cases value <;> simp [optionalBreaks]

/-- The breaks in statements are those of each, with the same loop around them. -/
theorem stmtsBreaks_eq_flatMap (inLoop : Bool) (stmts : List SourceStmt)
    : stmtsBreaks inLoop stmts = stmts.flatMap (Stmt.breaks inLoop) := by
  induction stmts with
  | nil => rfl
  | cons first rest ih => simp [stmtsBreaks, ih]

/-- The breaks in a branch are those of it, with the same loop around it. -/
theorem elseBreaks_eq_flatMap (inLoop : Bool) (branch : Option SourceStmt)
    : elseBreaks inLoop branch = branch.toList.flatMap (Stmt.breaks inLoop) := by
  cases branch <;> simp [elseBreaks]

/-- The breaks in methods are those of their functions. -/
theorem methodsBreaks_eq_flatMap (methods : List (Method Unit))
    : methodsBreaks methods = methods.flatMap (·.function.breaks) := by
  induction methods with
  | nil => rfl
  | cons first rest ih =>
      obtain ⟨name, function⟩ := first
      simp [methodsBreaks, Method.function, ih]

/-- A break in a larger piece is one in a piece of it. -/
theorem Forms.breaks {pieces : List Piece} {piece : Piece} (forms : Forms pieces piece)
    : piece.breaks ⊆ pieces.flatMap Piece.breaks := by
  intro place found
  cases forms
  all_goals
    simp_all [Piece.breaks, Expr.breaks, Stmt.breaks, Lambda.breaks, Method.function,
      exprsBreaks_eq_flatMap, optionalBreaks_eq_flatMap, stmtsBreaks_eq_flatMap,
      elseBreaks_eq_flatMap, methodsBreaks_eq_flatMap, List.flatMap_map, or_comm]

-----
-- Reports

open Binding (breakReports breakReports_append)

/-- What the breaks among the tokens taken on the way have to do with the mistakes. -/
structure Noted (first second : Place) (pieces : List Piece) (taken noted : List Token) : Prop where
  ahead : first.ahead = taken ++ second.ahead
  reports
    : breakReports second.errors
      = breakReports first.errors ++ noted.map (Diagnostic.atToken · .breakOutsideLoop)
  among : noted ⊆ taken
  /-- If tokens are told apart, the breaks outside of loops are those that were reported. -/
  places (apart : taken.Nodup)
    : ∀ piece ∈ pieces, ∀ place ∈ piece.breaks,
        place.keyword ∈ taken ∧ (place.inLoop = false ↔ place.keyword ∈ noted)

namespace Noted

variable {first second third : Place} {pieces others : List Piece}
  {taken noted taken' noted' : List Token}

/-- Reports noted in two parts are noted in both. -/
theorem append (front : Noted first second pieces taken noted)
    (back : Noted second third others taken' noted')
    : Noted first third (pieces ++ others) (taken ++ taken') (noted ++ noted') := by
  refine ⟨?_, ?_, List.append_subset.2 ⟨?_, ?_⟩, fun apart piece member place found => ?_⟩
  · rw [front.ahead, back.ahead, List.append_assoc]
  · rw [back.reports, front.reports, List.map_append, List.append_assoc]
  · exact List.subset_append_of_subset_left _ front.among
  · exact List.subset_append_of_subset_right _ back.among
  · obtain ⟨apartFront, apartBack, disjoint⟩ := List.nodup_append.1 apart
    -- A token taken on one stretch is not reported on the other.
    rcases List.mem_append.1 member with member | member
    · obtain ⟨inside, same⟩ := front.places apartFront piece member place found
      have elsewhere : place.keyword ∉ noted' := fun reported =>
        disjoint _ inside _ (back.among reported) rfl
      simp [inside, same, elsewhere]
    · obtain ⟨inside, same⟩ := back.places apartBack piece member place found
      have elsewhere : place.keyword ∉ noted := fun reported =>
        disjoint _ (front.among reported) _ inside rfl
      simp [inside, same, elsewhere]

/-- Reports stay noted for other pieces with the same breaks. -/
theorem listed (all : Noted first second pieces taken noted)
    (covered : ∀ piece ∈ others, piece.breaks ⊆ pieces.flatMap Piece.breaks)
    : Noted first second others taken noted :=
  { all with
    places := fun apart piece member place found => by
      obtain ⟨part, listed, inside⟩ := List.mem_flatMap.1 (covered piece member found)
      exact all.places apart part listed place inside }

/-- On a stretch without a piece that holds a `break`. -/
theorem plain (ahead : first.ahead = taken ++ second.ahead)
    (reports : breakReports second.errors = breakReports first.errors)
    (none : ∀ piece ∈ pieces, piece.breaks = [])
    : Noted first second pieces taken [] := by
  refine ⟨ahead, by simp [reports], List.nil_subset _, fun _ piece member place found => ?_⟩
  rw [none piece member] at found
  exact absurd found List.not_mem_nil

end Noted

/-- What is gathered on the way has noted a report for each break outside of loops. -/
theorem Gathers.noted {first second : Place} {pieces : List Piece}
    (gathered : Gathers first second pieces)
    : ∃ taken noted, Noted first second pieces taken noted := by
  induction gathered with
  | nothing => exact ⟨[], [], .plain rfl rfl fun _ none => absurd none List.not_mem_nil⟩
  | append front back ihFront ihBack =>
      obtain ⟨taken, noted, first⟩ := ihFront
      obtain ⟨taken', noted', second⟩ := ihBack
      exact ⟨_, _, first.append second⟩
  | among gathered listed ih =>
      obtain ⟨taken, noted, all⟩ := ih
      exact ⟨taken, noted, all.listed fun piece member place found =>
        List.mem_flatMap.2 ⟨piece, listed member, found⟩⟩
  | @token token ahead errors inside => exact ⟨[token], [], .plain rfl rfl (by simp [Piece.breaks])⟩
  | @mistake ahead errors token problem syntactic other =>
      refine ⟨[], [], .plain rfl ?_ fun _ none => absurd none List.not_mem_nil⟩
      simp [breakReports, Diagnostic.atToken, other]
  | @loopBreak keyword ahead errors kind =>
      refine ⟨[keyword], [], rfl, by simp, List.nil_subset _, fun _ piece member place found => ?_⟩
      obtain rfl := List.mem_singleton.1 member
      obtain rfl := List.mem_singleton.1 found
      simp
  | @misplacedBreak keyword ahead errors kind =>
      refine ⟨[keyword], [keyword], rfl, ?_, List.Subset.refl _, fun _ piece member place found => ?_⟩
      · simp [breakReports, Diagnostic.atToken]
      · obtain rfl := List.mem_singleton.1 member
        obtain rfl := List.mem_singleton.1 found
        simp
  | formed gathered forms listed ih =>
      obtain ⟨taken, noted, all⟩ := ih
      refine ⟨taken, noted, all.listed fun piece member place found => ?_⟩
      rcases List.mem_cons.1 member with rfl | member
      · obtain ⟨part, among, inside⟩ := List.mem_flatMap.1 (forms.breaks found)
        exact List.mem_flatMap.2 ⟨part, listed among, inside⟩
      · exact List.mem_flatMap.2 ⟨piece, member, found⟩

/-- Where no two tokens share a line, a `break` that was read is reported by both checks or by
neither. -/
theorem break_reported_iff {allowExpression : Bool} {depth : Nat} (known : List String)
    {tokens : List Token} (apart : (tokens.map (·.line)).Nodup) {place : Break}
    (found : place ∈ stmtsBreaks false (parse allowExpression tokens depth).statements)
    : Diagnostic.atToken place.keyword .breakOutsideLoop
        ∈ (bind known (parse allowExpression tokens depth).statements).errors
      ↔ Diagnostic.atToken place.keyword .breakOutsideLoop
        ∈ (parse allowExpression tokens depth).errors := by
  obtain ⟨rest, gathered⟩ := parse_gathers allowExpression tokens depth
  obtain ⟨taken, noted, all⟩ := gathered.noted
  have split : tokens = taken ++ rest := all.ahead
  have takenApart : (taken.map (·.line)).Nodup := by
    rw [split, List.map_append] at apart
    exact (List.nodup_append.1 apart).1
  have places {other : Break}
      (read : other ∈ stmtsBreaks false (parse allowExpression tokens depth).statements)
      : other.keyword ∈ taken ∧ (other.inLoop = false ↔ other.keyword ∈ noted) := by
    rw [stmtsBreaks_eq_flatMap] at read
    obtain ⟨stmt, member, inside⟩ := List.mem_flatMap.1 read
    exact all.places (takenApart.of_map _) (.declaration false stmt)
      (List.mem_map.2 ⟨stmt, member, rfl⟩) other inside
  -- Reports at different tokens differ.
  have same {first second : Token} (inside : first ∈ taken) (inside' : second ∈ taken)
      (equal
        : Diagnostic.atToken first .breakOutsideLoop = Diagnostic.atToken second .breakOutsideLoop)
      : first = second :=
    List.inj_on_of_nodup_map takenApart inside inside' (congrArg Diagnostic.line equal)
  have isBreak (errors : List Diagnostic)
      : Diagnostic.atToken place.keyword .breakOutsideLoop ∈ errors
        ↔ Diagnostic.atToken place.keyword .breakOutsideLoop ∈ breakReports errors := by
    simp [breakReports, Diagnostic.atToken]
  obtain ⟨inside, outside⟩ := places found
  have parsedReports
      : breakReports (parse allowExpression tokens depth).errors
        = noted.map (Diagnostic.atToken · .breakOutsideLoop) :=
    all.reports
  rw [isBreak, Binding.bind_breakReports, isBreak (parse allowExpression tokens depth).errors,
    parsedReports]
  constructor
  · intro bound
    obtain ⟨other, read, reported⟩ := List.mem_filterMap.1 bound
    obtain ⟨otherInside, otherOutside⟩ := places read
    obtain ⟨misplaced, equal⟩
        : other.inLoop = false
          ∧ Diagnostic.atToken other.keyword .breakOutsideLoop
            = Diagnostic.atToken place.keyword .breakOutsideLoop := by
      simpa [Break.report?] using reported
    obtain sameToken := same otherInside inside equal
    exact List.mem_map.2 ⟨_, sameToken ▸ otherOutside.1 misplaced, rfl⟩
  · intro parsed
    obtain ⟨token, reported, equal⟩
        : ∃ token ∈ noted,
            Diagnostic.atToken token .breakOutsideLoop
              = Diagnostic.atToken place.keyword .breakOutsideLoop :=
      List.mem_map.1 parsed
    have sameToken := same (all.among reported) inside equal
    have misplaced := outside.2 (sameToken ▸ reported)
    exact List.mem_filterMap.2 ⟨place, found, by simp [Break.report?, misplaced]⟩

/-- After a parse without mistakes no `break` is left to report. -/
theorem bind_breakReports_of_clean {allowExpression : Bool} {depth : Nat} (known : List String)
    {tokens : List Token} (apart : (tokens.map (·.line)).Nodup)
    (clean : (parse allowExpression tokens depth).errors = [])
    : breakReports (bind known (parse allowExpression tokens depth).statements).errors = [] := by
  refine List.eq_nil_iff_forall_not_mem.2 fun report bound => ?_
  obtain ⟨place, read, reported⟩
      : ∃ place ∈ stmtsBreaks false (parse allowExpression tokens depth).statements,
          place.report? = some report :=
    List.mem_filterMap.1 (Binding.bind_breakReports _ _ ▸ bound)
  obtain ⟨-, rfl⟩
      : place.inLoop = false ∧ Diagnostic.atToken place.keyword .breakOutsideLoop = report := by
    simpa [Break.report?] using reported
  have both := (break_reported_iff known apart read).1 (List.mem_of_mem_filter bound)
  rw [clean] at both
  exact absurd both List.not_mem_nil

-----
-- Lines of their own

/-- Every token on a line of its own. Lines 0 and 1 are kept free for what stands on no line. -/
def onOwnLines (tokens : List Token) : List Token :=
  tokens.mapIdx fun index token => { token with line := index + 2 }

/-- The line on which a token stood before it was given a line of its own. -/
def lineBefore (tokens : List Token) (own : Nat) : Nat :=
  if own < 2 then own else (tokens.map (·.line)).getD (own - 2) 0

/-- No two tokens stand on one line when each has its own. -/
theorem onOwnLines_apart (tokens : List Token) : ((onOwnLines tokens).map (·.line)).Nodup := by
  refine List.nodup_iff_injective_getElem.2 fun first second same => Fin.ext ?_
  simpa [onOwnLines] using same

/-- Moving the tokens back from their own lines is the text again. -/
theorem movedTokens_onOwnLines (tokens : List Token)
    : movedTokens (lineBefore tokens) (onOwnLines tokens) = tokens := by
  refine List.ext_getElem (by simp [movedTokens, onOwnLines]) fun index inside inside' => ?_
  have own : lineBefore tokens (index + 2) = (tokens.map (·.line)).getD index 0 :=
    if_neg (by omega)
  simp [movedTokens, onOwnLines, Token.moved, inside', own]

-----
-- Both checks

/-- What reading and binding report of the breaks in a token list. Reports name nothing but lines,
so tokens are told apart by lines of their own. -/
structure BreakChecksAgree (allowExpression : Bool) (known : List String) (tokens : List Token)
    (depth : Nat)
    : Prop where
  /-- On lines of their own no two tokens share a line. -/
  apart : ((onOwnLines tokens).map (·.line)).Nodup
  /-- But for their lines the tokens are read as they are on lines of their own, with the same
  mistakes. -/
  parsed
    : parse allowExpression tokens depth
      = (parse allowExpression (onOwnLines tokens) depth).moved (lineBefore tokens)
  /-- Binding what is read reports the same breaks, too. -/
  bound
    : breakReports (bind known (parse allowExpression tokens depth).statements).errors
      = (breakReports
          (bind known (parse allowExpression (onOwnLines tokens) depth).statements).errors).map
          (·.moved (lineBefore tokens))
  /-- Binding reports a `break` in what was read just if reading did, at the same token. -/
  same
    : ∀ place ∈ stmtsBreaks false (parse allowExpression (onOwnLines tokens) depth).statements,
        Diagnostic.atToken place.keyword .breakOutsideLoop
          ∈ (bind known (parse allowExpression (onOwnLines tokens) depth).statements).errors
        ↔ Diagnostic.atToken place.keyword .breakOutsideLoop
          ∈ (parse allowExpression (onOwnLines tokens) depth).errors
  /-- What is read without a mistake holds no `break` to report. -/
  silent
    : (parse allowExpression tokens depth).errors = []
      → ∀ error ∈ (bind known (parse allowExpression tokens depth).statements).errors,
          error.problem ≠ .breakOutsideLoop

/-- Both checks agree on every token list, with other mistakes in it or without. -/
theorem break_checks_agree (allowExpression : Bool) (known : List String) (tokens : List Token)
    (depth : Nat)
    : BreakChecksAgree allowExpression known tokens depth := by
  have parsed
      : parse allowExpression tokens depth
        = (parse allowExpression (onOwnLines tokens) depth).moved (lineBefore tokens) := by
    have fixed : lineBefore tokens 1 = 1 := rfl
    have moved := parse_moved fixed allowExpression (onOwnLines tokens) depth
    rwa [movedTokens_onOwnLines] at moved
  have bound
      : breakReports (bind known (parse allowExpression tokens depth).statements).errors
        = (breakReports
            (bind known (parse allowExpression (onOwnLines tokens) depth).statements).errors).map
            (·.moved (lineBefore tokens)) := by
    rw [parsed, Binding.bind_breakReports, Binding.bind_breakReports, Parse.moved,
      stmtsBreaks_moved, List.filterMap_map, List.map_filterMap]
    exact List.filterMap_congr fun place _ => place.report?_moved _
  refine ⟨onOwnLines_apart tokens, parsed, bound,
    fun _ => break_reported_iff known (onOwnLines_apart tokens), fun clean error reported => ?_⟩
  have ownClean : (parse allowExpression (onOwnLines tokens) depth).errors = [] := by
    rw [parsed] at clean
    exact List.map_eq_nil_iff.1 clean
  rw [bind_breakReports_of_clean known (onOwnLines_apart tokens) ownClean, List.map_nil] at bound
  intro isBreak
  have among
      : error ∈ breakReports (bind known (parse allowExpression tokens depth).statements).errors :=
    List.mem_filter.2 ⟨reported, decide_eq_true isBreak⟩
  exact absurd (bound ▸ among) List.not_mem_nil

end Lox.Grammar
