import Lox.Proofs.Grammar.Endings
import Lox.Proofs.Grammar.StatementSoundness
import Lox.Proofs.Joining.Texts

/-! Programs below one another are read as one program.

A text whose last token is a semicolon ends in a declaration that no token behind it can go on
with, so that its statements are the same with and without the texts below it.
-/

namespace Lox.Grammar

variable {depth : Nat}

-----
-- Programs below one another

/-- Behind a program that does not end in a brace another program goes on. -/
theorem Derives.append {tokens others : List Token} {statements rest : List SourceStmt}
    (front : Derives .greedy depth tokens statements) (noBrace : ¬EndsIn .rightBrace tokens)
    (back : Derives .greedy depth others rest)
    : Derives .greedy depth (tokens ++ others) (statements ++ rest) := by
  induction front with
  | nil => exact back
  | @cons ending tokens first following statements head admitted tail ih =>
      rw [List.append_assoc]
      refine .cons head ?_ (ih fun ends => noBrace (ends.append tokens))
      cases following with
      | nil =>
          rintro rfl
          rw [List.append_nil] at noBrace
          exact absurd (declaration_endsIn head) noBrace
      | cons token following => exact admitted

/-- A part of a program: its tokens, and the statements that they derive. -/
structure Part (depth : Nat) where
  tokens : List Token
  statements : List SourceStmt
  derived : Derives .greedy depth tokens statements
  noBrace : ¬EndsIn .rightBrace tokens

namespace Part

/-- The tokens that all parts have together. -/
def tokensOf (parts : List (Part depth)) : List Token :=
  (parts.map tokens).flatten

def statementsOf (parts : List (Part depth)) : List SourceStmt :=
  (parts.map statements).flatten

/-- Parts behind one another are a program. -/
theorem derived_all (parts : List (Part depth))
    : Derives .greedy depth (tokensOf parts) (statementsOf parts) := by
  induction parts with
  | nil => exact .nil
  | cons part rest ih => exact part.derived.append part.noBrace ih

/-- The part on other lines. -/
def moved (move : Nat → Nat) (part : Part depth) : Part depth :=
  {
    tokens := movedTokens move part.tokens,
    statements := movedStmts move part.statements,
    derived := part.derived.moved move,
    noBrace := by
      have kinds : (movedTokens move part.tokens).getLast?.map (·.kind)
          = part.tokens.getLast?.map (·.kind) := by
        simp [movedTokens, List.getLast?_map, Function.comp_def]
      unfold EndsIn
      rw [kinds]
      exact part.noBrace
  }

/-- The tokens of moved parts are the moved tokens. -/
theorem tokensOf_moved (move : Nat → Nat) (parts : List (Part depth))
    : tokensOf (parts.map (moved move)) = movedTokens move (tokensOf parts) := by
  induction parts with
  | nil => rfl
  | cons part rest ih =>
      change movedTokens move part.tokens ++ tokensOf (rest.map (moved move)) = _
      rw [ih, ← movedTokens_append]
      rfl

/-- A part is read as its statements. -/
theorem parse_tokens (part : Part depth) {last : Token} (lastKind : last.kind = .endOfInput)
    : parse false (part.tokens ++ [last]) depth = { statements := part.statements, errors := [] } :=
  parse_of_derives (fun _ greedy => greedy) lastKind part.derived

end Part

-----
-- Texts below one another

/-- A text whose last token is a semicolon. -/
def Terminated (source : String) : Prop :=
  EndsIn .semicolon (lexemes source)

instance (source : String) : Decidable (Terminated source) :=
  inferInstanceAs (Decidable (_ = _))

/-- A text that can be read, with nothing that could go on behind it. -/
structure Readable (depth : Nat) (source : String) : Prop where
  scan : (scan source).errors = []
  parse : (Lox.parse false (Lox.scan source).tokens depth).errors = []
  terminated : Terminated source

/-- The statements that stand in a text. -/
def statementsIn (depth : Nat) (source : String) : List SourceStmt :=
  (parse false (scan source).tokens depth).statements

/-- The text as the only part of itself. -/
def Readable.part {source : String} (readable : Readable depth source) : Part depth :=
  {
    tokens := lexemes source,
    statements := statementsIn depth source,
    derived := by
      have inside (token : Token) (member : token ∈ lexemes source)
          : token.kind ≠ .endOfInput :=
        (lexemes_spelled source token member).inside
      have clean := readable.parse
      unfold statementsIn
      rw [scan_tokens] at clean ⊢
      exact derives_of_parse (fun _ greedy => greedy) rfl inside clean,
    noBrace := fun ends => by
      have kinds := ends.symm.trans readable.terminated
      cases kinds
  }

/-- The parts of several texts: the tokens of each text, on the lines that they have in all. -/
theorem joined_parts {sources : List String} (readable : ∀ source ∈ sources, Readable depth source)
    : (scan (joined sources)).errors = []
      ∧ ∃ parts : List (Part depth),
          lexemes (joined sources) = Part.tokensOf parts
          ∧ parts.map (fun part => movedTokens (localLine sources) part.tokens)
              = sources.map lexemes := by
  induction sources with
  | nil => exact ⟨rfl, [], rfl, rfl⟩
  | cons source rest ih =>
      have here := readable source List.mem_cons_self
      obtain ⟨scanned, parts, tokens, alone⟩ :=
        ih fun source member => readable source (List.mem_cons_of_mem _ member)
      cases rest with
      | nil =>
          refine ⟨here.scan, [here.part], (List.append_nil _).symm, ?_⟩
          exact congrArg (· :: []) (movedTokens_first source [])
      | cons next others =>
          rw [joined_cons]
          refine ⟨scan_below here.scan scanned,
            here.part :: parts.map (Part.moved (· + lineCount source)), ?_, ?_⟩
          · rw [lexemes_below (leavesNothingOpen_of_scanned here.scan), tokens, ← Part.tokensOf_moved]
            rfl
          · rw [List.map_cons, List.map_cons, List.map_map, ← alone]
            refine List.cons_eq_cons.2 ⟨movedTokens_first source _, List.map_congr_left ?_⟩
            intro part member
            refine movedTokens_rest source _ fun token tokenMember => ?_
            have within : token ∈ lexemes (joined (next :: others)) := by
              rw [tokens]
              exact List.mem_flatten.2 ⟨part.tokens, List.mem_map_of_mem member, tokenMember⟩
            exact (lexemes_lines within).1

/-- Texts that can be read are read together, as the statements of all of them on other lines. -/
theorem parse_joined {sources : List String} (readable : ∀ source ∈ sources, Readable depth source)
    : (scan (joined sources)).errors = []
      ∧ ∃ parts : List (List SourceStmt),
          parse false (scan (joined sources)).tokens depth
              = { statements := parts.flatten, errors := [] }
          ∧ parts.map (movedStmts (localLine sources)) = sources.map (statementsIn depth) := by
  obtain ⟨scanned, parts, tokens, alone⟩ := joined_parts readable
  refine ⟨scanned, parts.map Part.statements, ?_, ?_⟩
  · rw [scan_tokens, tokens]
    exact parse_of_derives (fun _ greedy => greedy) rfl (Part.derived_all parts)
  · -- What a part derives is what its text was read as, since reading is unique.
    have read (part : Part depth)
        : movedStmts (localLine sources) part.statements
            = (parse false (movedTokens (localLine sources) part.tokens ++ [.endOfInput 0])
                depth).statements :=
      (congrArg Parse.statements ((part.moved (localLine sources)).parse_tokens rfl)).symm
    have readAlone (source : String) (member : source ∈ sources)
        : (parse false (lexemes source ++ [.endOfInput 0]) depth).statements
            = statementsIn depth source := by
      have read
          : parse false (lexemes source ++ [.endOfInput 0]) depth
              = { statements := statementsIn depth source, errors := [] } :=
        (readable source member).part.parse_tokens rfl
      rw [read]
    calc (parts.map Part.statements).map (movedStmts (localLine sources))
      _ = (parts.map fun part => movedTokens (localLine sources) part.tokens).map
            fun tokens => (parse false (tokens ++ [.endOfInput 0]) depth).statements := by
        rw [List.map_map, List.map_map]
        exact List.map_congr_left fun part _ => read part
      _ = sources.map (statementsIn depth) := by
        rw [alone, List.map_map]
        exact List.map_congr_left readAlone

end Lox.Grammar
