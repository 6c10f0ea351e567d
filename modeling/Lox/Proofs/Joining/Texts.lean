import Lox.Proofs.Joining.Derivations
import Lox.Proofs.Token.Spelling
import Lox.Proofs.Token.Splitting

/-! Source texts on the lines below one another.

The tokens of the texts are the tokens of the whole, each text further down by the lines of the
texts above it.
-/

namespace Lox

-----
-- Lexical errors

/-- A segment is reported if it is a mistake. -/
theorem PlacedSegment.diagnostic?_isSome (placed : PlacedSegment)
    : placed.diagnostic?.isSome = placed.segment.isMistake := by
  obtain ⟨segment, startLine⟩ := placed
  cases segment <;> rfl

/-- Every segment that is a mistake is reported. -/
theorem scan_errors_eq_nil {source : String}
    : (scan source).errors = []
      ↔ ∀ segment ∈ Segment.split source.toList, segment.isMistake = false := by
  have placed (line : Nat) (segments : List Segment)
      : (Segment.place line segments).filterMap PlacedSegment.diagnostic? = []
        ↔ ∀ segment ∈ segments, segment.isMistake = false := by
    induction segments generalizing line with
    | nil => simp [Segment.place]
    | cons segment rest ih =>
        have here := PlacedSegment.diagnostic?_isSome ⟨segment, line⟩
        cases found : PlacedSegment.diagnostic? ⟨segment, line⟩ with
        | none => simp_all [Segment.place]
        | some diagnostic => simp_all [Segment.place]
  exact placed 1 _

/-- The text ends neither inside a string nor inside a block comment. -/
def LeavesNothingOpen (source : String) : Prop :=
  ∀ segment ∈ Segment.split source.toList, segment.isOpen = false

/-- A text that is scanned without errors leaves nothing open. -/
theorem leavesNothingOpen_of_scanned {source : String} (scanned : (scan source).errors = [])
    : LeavesNothingOpen source :=
  fun segment member => Segment.isOpen_of_isMistake (scan_errors_eq_nil.1 scanned segment member)

/-- What is left open is reported as such. -/
theorem leavesNothingOpen_of_errors {source : String}
    (terminated
      : ∀ diagnostic ∈ (scan source).errors,
          diagnostic.problem ≠ .unterminatedString ∧ diagnostic.problem ≠ .unterminatedComment)
    : LeavesNothingOpen source := by
  intro segment member
  obtain ⟨line, placed⟩ := Segment.exists_place 1 member
  have reported {diagnostic : Diagnostic}
      (found : PlacedSegment.diagnostic? ⟨segment, line⟩ = some diagnostic)
      : diagnostic ∈ (scan source).errors :=
    List.mem_filterMap.2 ⟨_, placed, found⟩
  cases segment with
  | openString => exact absurd rfl (terminated _ (reported rfl)).1
  | openComment => exact absurd rfl (terminated _ (reported rfl)).2
  | _ => rfl

-----
-- Lines

/-- How many lines a text has. The last one need not be ended. -/
def lineCount (source : String) : Nat :=
  1 + source.toList.count '\n'

/-- Tokens stand on the lines of their text. -/
theorem lexemes_lines {source : String} {token : Token} (member : token ∈ lexemes source)
    : 1 ≤ token.line ∧ token.line ≤ lineCount source := by
  obtain ⟨placed, placedMember, found⟩ := List.mem_filterMap.1 member
  obtain ⟨starts, ends⟩ := Segment.place_lines placedMember
  rw [Segment.split_covers] at ends
  unfold PlacedSegment.token? at found
  split at found
  · obtain rfl := Option.some.inj found
    exact ⟨Nat.le_trans starts (Nat.le_add_right _ _), ends⟩
  · cases found

-----
-- One text below another

/-- Tokens that stand so many lines further down. -/
theorem tokens_below (line below : Nat) (segments : List Segment)
    : (Segment.place (line + below) segments).filterMap PlacedSegment.token?
        = Grammar.movedTokens (· + below)
            ((Segment.place line segments).filterMap PlacedSegment.token?) := by
  have token (placed : PlacedSegment)
      : PlacedSegment.token? { placed with startLine := placed.startLine + below }
          = placed.token?.map (·.moved (· + below)) := by
    obtain ⟨segment, startLine⟩ := placed
    cases segment with
    | lexeme kind text =>
        have line : startLine + below + Segment.newlines (.lexeme kind text)
            = startLine + Segment.newlines (.lexeme kind text) + below := by omega
        simp [PlacedSegment.token?, PlacedSegment.endLine, Token.moved, line]
    | _ => rfl
  rw [Segment.place_add, List.filterMap_map, Grammar.movedTokens, List.map_filterMap]
  exact congrArg (List.filterMap · _) (funext token)

/-- Errors of segments that start so many lines further down. -/
theorem errors_below (line below : Nat) (segments : List Segment)
    : (Segment.place (line + below) segments).filterMap PlacedSegment.diagnostic?
        = ((Segment.place line segments).filterMap PlacedSegment.diagnostic?).map
            (·.moved (· + below)) := by
  have diagnostic (placed : PlacedSegment)
      : PlacedSegment.diagnostic? { placed with startLine := placed.startLine + below }
          = placed.diagnostic?.map (·.moved (· + below)) := by
    obtain ⟨segment, startLine⟩ := placed
    have line : startLine + below + segment.newlines = startLine + segment.newlines + below := by
      omega
    cases segment <;>
      simp [PlacedSegment.diagnostic?, PlacedSegment.endLine, Diagnostic.moved, line]
  rw [Segment.place_add, List.filterMap_map, List.map_filterMap]
  exact congrArg (List.filterMap · _) (funext diagnostic)

section

variable {first : String} (closed : LeavesNothingOpen first) (second : String)

include closed

/-- A text below a closed one is split behind the newline. -/
theorem split_below
    : Segment.split (first ++ "\n" ++ second).toList
        = Segment.split first.toList ++ .blank '\n' :: Segment.split second.toList := by
  rw [String.toList_append, String.toList_append, List.append_assoc]
  exact Segment.split_newline _ closed

/-- The second text starts on the line below the last one of the first. -/
theorem place_below
    : Segment.place 1 (Segment.split (first ++ "\n" ++ second).toList)
        = Segment.place 1 (Segment.split first.toList)
          ++ ⟨.blank '\n', lineCount first⟩
            :: Segment.place (1 + lineCount first) (Segment.split second.toList) := by
  have line : 1 + first.toList.count '\n' + Segment.newlines (.blank '\n')
      = 1 + lineCount first := by
    rw [lineCount, Nat.add_comm 1 (1 + _)]
    rfl
  rw [split_below closed, Segment.place_append, Segment.split_covers, Segment.place, line]
  rfl

/-- The tokens of a text below a closed one stand lower by its lines. -/
theorem lexemes_below
    : lexemes (first ++ "\n" ++ second)
        = lexemes first ++ Grammar.movedTokens (· + lineCount first) (lexemes second) := by
  unfold lexemes
  rw [place_below closed, List.filterMap_append, List.filterMap_cons_none rfl, tokens_below]

/-- The errors of a text below a closed one stand lower by its lines. -/
theorem scan_errors_below
    : (scan (first ++ "\n" ++ second)).errors
        = (scan first).errors ++ (scan second).errors.map (·.moved (· + lineCount first)) := by
  change List.filterMap _ _ = List.filterMap _ _ ++ (List.filterMap _ _).map _
  rw [place_below closed, List.filterMap_append, List.filterMap_cons_none rfl, errors_below]

end

/-- A text below another is scanned without errors if both are. -/
theorem scan_below {first second : String} (scanned : (scan first).errors = [])
    (scannedSecond : (scan second).errors = [])
    : (scan (first ++ "\n" ++ second)).errors = [] := by
  rw [scan_errors_below (leavesNothingOpen_of_scanned scanned), scanned, scannedSecond]
  rfl

/-- A text in front of another one is scanned on its own, unless it ends inside a string or a
block comment. The text behind it is scanned on its own as well, and lies as many lines further
down as the newlines in front of it. -/
theorem scan_line_by_line (first second : String)
    (terminated
      : ∀ diagnostic ∈ (scan first).errors,
          diagnostic.problem ≠ .unterminatedString ∧ diagnostic.problem ≠ .unterminatedComment)
    : (scan (first ++ "\n" ++ second)).tokens
          = (scan first).tokens.dropLast
            ++ (scan second).tokens.map (·.moved (· + (first.toList.count '\n' + 1)))
      ∧ (scan (first ++ "\n" ++ second)).errors
          = (scan first).errors
            ++ (scan second).errors.map (·.moved (· + (first.toList.count '\n' + 1))) := by
  have closed := leavesNothingOpen_of_errors terminated
  have lines : lineCount first = first.toList.count '\n' + 1 := Nat.add_comm _ _
  rw [← lines]
  refine ⟨?_, scan_errors_below closed second⟩
  have last : 1 + (first ++ "\n" ++ second).toList.count '\n'
      = 1 + second.toList.count '\n' + lineCount first := by
    simp only [String.toList_append, List.count_append, lines]
    change 1 + (_ + 1 + _) = _
    omega
  rw [scan_tokens, scan_tokens, scan_tokens, lexemes_below closed, last, List.dropLast_concat,
    List.map_append, List.append_assoc]
  rfl

/-- The first text has an unexpected character, ends in a slash, and is followed by one. -/
theorem scan_line_by_line_slashes
    : (scan "a\n# 1./\n/ \"b").tokens
          = (scan "a\n# 1./").tokens.dropLast
            ++ (scan "/ \"b").tokens.map (·.moved (· + 2))
      ∧ (scan "a\n# 1./\n/ \"b").errors
          = (scan "a\n# 1./").errors ++ (scan "/ \"b").errors.map (·.moved (· + 2)) :=
  scan_line_by_line "a\n# 1./" "/ \"b" (by decide +kernel)

-----
-- Any number of texts

/-- Texts on the lines below one another. -/
def joined (sources : List String) : String :=
  "\n".intercalate sources

/-- The line that a line of the joined texts is in its own text. -/
def localLine : List String → Nat → Nat
  | [], line => line
  | source :: rest, line =>
      if line ≤ lineCount source then line else localLine rest (line - lineCount source)

/-- Tokens of the first text are on lines of their own already. -/
theorem movedTokens_first (source : String) (rest : List String)
    : Grammar.movedTokens (localLine (source :: rest)) (lexemes source) = lexemes source := by
  refine (List.map_congr_left fun token member => ?_).trans (List.map_id _)
  obtain ⟨-, inside⟩ := lexemes_lines member
  simp [Token.moved, localLine, inside]

/-- Tokens of the texts below are as they are without the first text. -/
theorem movedTokens_rest (source : String) (rest : List String) {tokens : List Token}
    (positive : ∀ token ∈ tokens, 1 ≤ token.line)
    : Grammar.movedTokens (localLine (source :: rest))
          (Grammar.movedTokens (· + lineCount source) tokens)
        = Grammar.movedTokens (localLine rest) tokens := by
  refine List.map_map.trans (List.map_congr_left fun token member => ?_)
  have outside : ¬token.line + lineCount source ≤ lineCount source := by
    have positive := positive token member
    omega
  simp [Token.moved, localLine, outside]

/-- Joined texts are the first, a newline and the others joined. -/
theorem joined_cons (source next : String) (rest : List String)
    : joined (source :: next :: rest) = source ++ "\n" ++ joined (next :: rest) :=
  String.intercalate_cons_cons

end Lox
