import Lox.Proofs.Grammar.StatementCompleteness
import Lox.Proofs.Token.Spelling

/-! What reading accepts: exactly the grammar, and always as the tree the grammar tells. -/

namespace Lox.Grammar

/-- A text read without a mistake derives what was read, down to its last token. A text that
derives statements with every semicolon written is read without a mistake, as these statements.
Reading and deriving may nest equally deep, whatever the limit is. -/
theorem parse_recognizes_grammar (source : String) (depth : Nat)
    : ((parse false (scan source).tokens depth).errors = []
        → Derives .documented depth (lexemes source)
            (parse false (scan source).tokens depth).statements)
      ∧ ∀ statements,
          Derives .terminated depth (lexemes source) statements
          → parse false (scan source).tokens depth = { statements, errors := [] } := by
  rw [scan_tokens]
  refine ⟨fun clean => ?_, fun statements derived => ?_⟩
  · have inside (token : Token) (member : token ∈ lexemes source) : token.kind ≠ .endOfInput :=
      (lexemes_spelled source token member).inside
    exact derives_of_parse (fun _ _ => trivial) rfl inside clean
  · exact parse_of_derives (fun _ never => never.elim) rfl derived

/-- Both directions say something: a function literal may stand with its semicolon or without. -/
theorem parse_recognizes_literals
    : let source := "var f = (a, b) -> { return a; } print f(a, b);"
      Derives .documented standardDepth (lexemes source)
        (parse false (scan source).tokens standardDepth).statements :=
  (parse_recognizes_grammar "var f = (a, b) -> { return a; } print f(a, b);" standardDepth).1
    (by decide +kernel)

end Lox.Grammar
