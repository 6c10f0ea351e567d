import Lox.Proofs.Joining.Texts
import Lox.Proofs.Token.Segmentation

/-! Tokens do not depend on the layout of a text.

A word followed by a blank is read as on its own, and so is what stands behind the blank. Words of
a text can therefore be laid out anew, with other blanks and comments between them.
-/

namespace Lox

open Number (isDigit)
open Segment (isBlank isLetter isWordChar)

-----
-- Layouts

/-- Blanks and complete comments. The newline that ends a line comment belongs to it. -/
inductive Filler : List Char → Prop
  | nil : Filler []
  | blank {c rest} (blank : isBlank c = true) (more : Filler rest) : Filler (c :: rest)
  | lineComment {body rest} (oneLine : '\n' ∉ body) (more : Filler rest)
    : Filler ('/' :: '/' :: (body ++ '\n' :: rest))
  /-- A block comment ends at the first `*/` behind its opening. -/
  | blockComment {body rest} (first : ¬['*', '/'] <:+: body ++ ['*']) (more : Filler rest)
    : Filler ('/' :: '*' :: (body ++ '*' :: '/' :: rest))

/-- Lexemes in their order, with a separator between each two of them. A separator starts with a
blank. -/
inductive Spaced : List String → List Char → Prop
  | nil : Spaced [] []
  | last {lexeme} : Spaced [lexeme] lexeme.toList
  | cons {lexeme next rest c filler text} (blank : isBlank c = true) (filled : Filler filler)
    (others : Spaced (next :: rest) text)
    : Spaced (lexeme :: next :: rest) (lexeme.toList ++ c :: (filler ++ text))

-----
-- Words in front of blanks

/-- There are four blank characters. -/
theorem isBlank_cases {c : Char} (blank : isBlank c = true)
    : c = ' ' ∨ c = '\t' ∨ c = '\r' ∨ c = '\n' := by
  simpa [isBlank, or_assoc] using blank

/-- No character of a word is blank. -/
theorem isBlank_of_isWordChar {c : Char} (inWord : isWordChar c = true) : isBlank c = false := by
  by_cases blank : isBlank c = true
  · rcases isBlank_cases blank with rfl | rfl | rfl | rfl <;> cases inWord
  · exact Bool.not_eq_true _ ▸ blank

/-- No digit is blank. -/
theorem isBlank_of_isDigit {c : Char} (digit : isDigit c = true) : isBlank c = false :=
  isBlank_of_isWordChar (by simp [isWordChar, digit])

namespace Lexeme

variable {kind : TokenKind} {text behind : List Char} {literal : Option Literal}

/-- Only strings hold blanks. -/
theorem blanks (lexeme : Lexeme kind text literal)
    : (∃ body, text = '"' :: (body ++ ['"']) ∧ '"' ∉ body) ∨ ∀ c ∈ text, isBlank c = false := by
  cases lexeme with
  | operator listed =>
      have plain : operators.all (fun entry => entry.1.all fun c => !isBlank c) = true := by decide
      exact .inr (by simpa using List.all_eq_true.1 plain _ listed)
  | whole first more =>
      exact .inr (List.forall_mem_cons.2
        ⟨isBlank_of_isDigit first, fun c member => isBlank_of_isDigit (more c member)⟩)
  | decimal first more second others =>
      refine .inr (List.forall_mem_cons.2 ⟨isBlank_of_isDigit first, fun c member => ?_⟩)
      rcases List.mem_append.1 member with digit | point
      · exact isBlank_of_isDigit (more c digit)
      rcases List.mem_cons.1 point with rfl | fraction
      · rfl
      rcases List.mem_cons.1 fraction with rfl | other
      · exact isBlank_of_isDigit second
      · exact isBlank_of_isDigit (others c other)
  | string unquoted => exact .inl ⟨_, rfl, unquoted⟩
  | word first more =>
      exact .inr (List.forall_mem_cons.2
        ⟨isBlank_of_isWordChar (by simp [isWordChar, first]),
          fun c member => isBlank_of_isWordChar (more c member)⟩)

/-- A word does not go on behind a word that is followed by a blank. -/
theorem length_le_of_blank {kind' : TokenKind} {longer : List Char} {literal' : Option Literal}
    (lexeme : Lexeme kind text literal) (lexeme' : Lexeme kind' longer literal')
    (apart : ∀ c ∈ behind.head?, isBlank c = true) (leads : longer <+: text ++ behind)
    : longer.length ≤ text.length := by
  refine Nat.le_of_not_lt fun beyond => ?_
  obtain ⟨others, rfl⟩ : text <+: longer :=
    List.prefix_of_prefix_length_le (List.prefix_append _ _) leads (Nat.le_of_lt beyond)
  have othersLead : others <+: behind := (List.prefix_append_right_inj text).1 leads
  obtain ⟨c, more, rfl⟩ : ∃ c more, others = c :: more := by
    refine List.exists_cons_of_ne_nil fun none => ?_
    simp [none] at beyond
  have blank : isBlank c = true := by
    obtain ⟨rest, rfl⟩ := othersLead
    exact apart c rfl
  rcases lexeme'.blanks with ⟨body, quoted, unquoted⟩ | plain
  · -- The shorter word is a string as well, and both strings end at the same quote.
    obtain ⟨first, rest, rfl⟩ := List.exists_cons_of_ne_nil lexeme.text_ne_nil
    obtain ⟨rfl, back⟩ := List.cons.inj quoted
    obtain ⟨-, body', same, unquoted'⟩ := lexeme.string_of_quote List.prefix_rfl
    obtain ⟨-, rfl⟩ := List.cons.inj same
    have stops (front : List Char) (inside : '"' ∉ front) (c : Char) (member : c ∈ front)
        : (c != '"') = true :=
      bne_iff_ne.2 fun isQuote => inside (isQuote ▸ member)
    obtain ⟨run, -⟩ := Segment.run_of_stop (p := (· != '"')) (List.prefix_refl (body ++ ['"']))
      (stops body unquoted) (by decide)
    have leads' : body' ++ '"' :: c :: more <+: body ++ ['"'] := ⟨[], by simpa using back⟩
    obtain ⟨run', -⟩ := Segment.run_of_stop (p := (· != '"')) leads' (stops body' unquoted')
      (by decide)
    have length := leads'.length_le
    rw [← run, run'] at length
    simp at length
  · have notBlank := plain c (by simp)
    rw [blank] at notBlank
    cases notBlank

/-- A word in front of a blank, or at the end of a text, is the longest one there. -/
theorem longest_of_blank (lexeme : Lexeme kind text literal)
    (apart : ∀ c ∈ behind.head?, isBlank c = true)
    : LongestLexeme kind text behind := by
  refine ⟨⟨literal, lexeme⟩,
    fun _ _ _ lexeme' leads => lexeme.length_le_of_blank lexeme' apart leads, fun opens => ?_⟩
  obtain ⟨c, rest, rfl⟩ := List.exists_cons_of_ne_nil lexeme.text_ne_nil
  obtain ⟨rfl, second, more, found, isOpening⟩ := Segment.opensComment_cons opens
  -- Nothing but the slash itself starts with a slash, so its opening is the blank behind it.
  have listed := lexeme.operator_of_other List.prefix_rfl (by decide) (by decide) (by decide)
  rcases cases_of_mem_operators listed with ⟨_, same, -⟩ | ⟨_, _, same, two, -⟩
  · obtain ⟨-, rfl⟩ := List.cons.inj same
    have blank := apart second (List.head?_eq_some_iff.2 ⟨more, found⟩)
    rcases isOpening with rfl | rfl <;> cases blank
  · obtain ⟨rfl, -⟩ := List.cons.inj same
    cases two

end Lexeme

-----
-- Words of a text

/-- Every token of a text but the end of input is a word, and has the literal of the word. -/
theorem lexemes_words (source : String)
    : ∀ token ∈ lexemes source, Lexeme token.kind token.lexeme.toList token.literal := by
  intro token member
  obtain ⟨placed, placedMember, found⟩ := List.mem_filterMap.1 member
  unfold PlacedSegment.token? at found
  split at found
  · next kind text segment =>
      obtain rfl := Option.some.inj found
      have inside := PlacedSegment.segment_mem placedMember
      rw [segment] at inside
      obtain ⟨literal, lexeme⟩ :=
        (Segment.split_segmented source.toList).lexemes kind text inside
      simpa [lexeme.ofLexeme?_eq] using lexeme
  · cases found

-----
-- Segments of a layout

/-- The token of a segment, wherever it stands. -/
def Segment.unplacedToken? : Segment → Option Token
  | .lexeme kind text =>
      some
        {
          kind,
          lexeme := String.ofList text,
          literal := Literal.ofLexeme? kind text,
          line := 0
        }
  | _ => none

/-- Without their lines the tokens of segments do not depend on where they are placed. -/
theorem tokens_unplaced (line : Nat) (segments : List Segment)
    : ((Segment.place line segments).filterMap PlacedSegment.token?).map (·.moved fun _ => 0)
        = segments.filterMap Segment.unplacedToken? := by
  induction segments generalizing line with
  | nil => rfl
  | cons segment rest ih =>
      have others := ih (line + segment.newlines)
      cases segment with
      | lexeme kind text => exact congrArg (_ :: ·) others
      | _ => exact others

/-- Blanks and comments come to no token and no mistake. -/
theorem Filler.segmented {filler behind : List Char} {segments : List Segment}
    (filled : Filler filler) (rest : Segmented behind segments)
    : ∃ skipped,
        Segmented (filler ++ behind) (skipped ++ segments)
        ∧ ∀ segment ∈ skipped, segment.IsSkipped := by
  induction filled with
  | nil => exact ⟨[], rest, nofun⟩
  | @blank c filler blank _ ih =>
      obtain ⟨skipped, segmented, all⟩ := ih
      exact ⟨.blank c :: skipped, .cons (.blank blank) segmented,
        List.forall_mem_cons.2 ⟨trivial, all⟩⟩
  | @lineComment body filler oneLine _ ih =>
      obtain ⟨skipped, segmented, all⟩ := ih
      have comment := Segmented.cons
        (.lineComment oneLine (.inr ⟨filler ++ behind, rfl⟩))
        (@Segmented.cons (.blank '\n') _ _ (.blank rfl) segmented)
      refine ⟨.lineComment ('/' :: '/' :: body) :: .blank '\n' :: skipped, ?_,
        List.forall_mem_cons.2 ⟨trivial, List.forall_mem_cons.2 ⟨trivial, all⟩⟩⟩
      simpa [Segment.text] using comment
  | @blockComment body filler first _ ih =>
      obtain ⟨skipped, segmented, all⟩ := ih
      have comment := Segmented.cons (.blockComment first) segmented
      refine ⟨.blockComment ('/' :: '*' :: (body ++ ['*', '/'])) :: skipped, ?_,
        List.forall_mem_cons.2 ⟨trivial, all⟩⟩
      simpa [Segment.text] using comment

/-- A word in front of a blank or the end is a segment of its own. -/
theorem Segmented.cons_word {token : Token} {behind : List Char} {segments : List Segment}
    (word : Lexeme token.kind token.lexeme.toList token.literal)
    (apart : ∀ c ∈ behind.head?, isBlank c = true) (rest : Segmented behind segments)
    : Segmented (token.lexeme.toList ++ behind)
        (.lexeme token.kind token.lexeme.toList :: segments) :=
  .cons (.lexeme (word.longest_of_blank apart)) rest

/-- The segment of a word is the token, without its line. -/
theorem Lexeme.unplacedToken? {token : Token}
    (word : Lexeme token.kind token.lexeme.toList token.literal)
    : Segment.unplacedToken? (.lexeme token.kind token.lexeme.toList)
        = some (token.moved fun _ => 0) := by
  simp [Segment.unplacedToken?, Token.moved, word.ofLexeme?_eq]

/-- What is skipped is no mistake and no token. -/
theorem Segment.IsSkipped.silent {segment : Segment} (skipped : segment.IsSkipped)
    : segment.isMistake = false ∧ segment.unplacedToken? = none := by
  cases segment <;> first | exact ⟨rfl, rfl⟩ | exact skipped.elim

/-- A layout of words falls into these words and what is skipped. -/
theorem Spaced.segmented {tokens : List Token} {text : List Char}
    (words : ∀ token ∈ tokens, Lexeme token.kind token.lexeme.toList token.literal)
    (laid : Spaced (tokens.map (·.lexeme)) text)
    : ∃ segments,
        Segmented text segments
        ∧ (∀ segment ∈ segments, segment.isMistake = false)
        ∧ segments.filterMap Segment.unplacedToken? = tokens.map (·.moved fun _ => 0) := by
  generalize same : tokens.map (·.lexeme) = lexemes at laid
  induction laid generalizing tokens with
  | nil =>
      obtain rfl := List.map_eq_nil_iff.1 same
      exact ⟨[], .nil, nofun, rfl⟩
  | last =>
      obtain ⟨token, rfl, rfl⟩ := List.map_eq_singleton_iff.1 same
      have word := words token List.mem_cons_self
      have alone : Segmented (token.lexeme.toList ++ []) _ := .cons_word word nofun .nil
      rw [List.append_nil] at alone
      refine ⟨_, alone, List.forall_mem_singleton.2 rfl, ?_⟩
      rw [List.filterMap_cons_some word.unplacedToken?]
      rfl
  | @cons lexeme next rest c filler text blank filled _ ih =>
      obtain ⟨token, others, rfl, rfl, sameOthers⟩ := List.map_eq_cons_iff.1 same
      have word := words token List.mem_cons_self
      obtain ⟨behind, segmented, right, tokens⟩ :=
        ih (fun token member => words token (List.mem_cons_of_mem _ member)) sameOthers
      obtain ⟨skipped, segmented, silent⟩ := (Filler.blank blank filled).segmented segmented
      have silent := fun segment member => (silent segment member).silent
      refine ⟨_, .cons_word word (fun _ first => ?_) segmented, ?_, ?_⟩
      · obtain rfl := Option.some.inj first
        exact blank
      · refine List.forall_mem_cons.2 ⟨rfl, List.forall_mem_append.2 ⟨?_, right⟩⟩
        exact fun segment member => (silent segment member).1
      · have none : skipped.filterMap Segment.unplacedToken? = [] :=
          List.filterMap_eq_nil_iff.2 fun segment member => (silent segment member).2
        rw [List.filterMap_cons_some word.unplacedToken?, List.filterMap_append, none, tokens]
        rfl

-----
-- Scanning

/-- The lexemes of any text, laid out anew, are scanned without a mistake, and as the same tokens
on other lines. Behind the tokens, and nowhere else, stands the end of input in both lists. -/
theorem tokens_survive_layout (source text : String)
    (laid : Spaced ((scan source).tokens.dropLast.map (·.lexeme)) text.toList)
    : (scan text).errors = []
      ∧ (scan text).tokens.map (·.moved fun _ => 0)
          = (scan source).tokens.map (·.moved fun _ => 0)
      ∧ ∀ scanned ∈ [source, text],
          ∃ words line,
            (scan scanned).tokens = words ++ [Token.endOfInput line]
            ∧ ∀ token ∈ words, token.kind ≠ .endOfInput := by
  rw [scan_tokens source, List.dropLast_concat] at laid
  obtain ⟨segments, segmented, right, tokens⟩ := laid.segmented (lexemes_words source)
  rw [segmented.eq_split] at right tokens
  refine ⟨scan_errors_eq_nil.2 right, ?_, fun scanned _ => ?_⟩
  · rw [scan_tokens, scan_tokens, List.map_append, List.map_append, ← tokens, ← tokens_unplaced 1]
    rfl
  · exact ⟨_, _, scan_tokens scanned, fun token member =>
      (lexemes_spelled scanned token member).inside⟩

/-- A text with a lexical error, and its lexemes with comments between them. -/
theorem tokens_survive_layout_with_comments
    : (scan "1.5 .\n/*/ */a\t//-\n->\r\"x\n\"").errors = []
      ∧ (scan "1.5 .\n/*/ */a\t//-\n->\r\"x\n\"").tokens.map (·.moved fun _ => 0)
          = (scan "1.5.a#->\"x\n\"").tokens.map (·.moved fun _ => 0)
      ∧ ∀ scanned ∈ ["1.5.a#->\"x\n\"", "1.5 .\n/*/ */a\t//-\n->\r\"x\n\""],
          ∃ words line,
            (scan scanned).tokens = words ++ [Token.endOfInput line]
            ∧ ∀ token ∈ words, token.kind ≠ .endOfInput := by
  refine tokens_survive_layout "1.5.a#->\"x\n\"" _ ?_
  have lexemes
      : (scan "1.5.a#->\"x\n\"").tokens.dropLast.map (·.lexeme)
          = ["1.5", ".", "a", "->", "\"x\n\""] := by
    decide +kernel
  have block : Filler "/*/ */".toList := @Filler.blockComment ['/', ' '] _ (by decide) .nil
  have line : Filler "//-\n".toList := @Filler.lineComment ['-'] _ (by decide) .nil
  have last : Spaced ["\"x\n\""] "\"x\n\"".toList := .last
  have arrow : Spaced ("->" :: _) ("->".toList ++ '\r' :: ([] ++ _)) := .cons rfl .nil last
  have name : Spaced ("a" :: _) ("a".toList ++ '\t' :: _) := .cons rfl line arrow
  have dot : Spaced ("." :: _) (".".toList ++ '\n' :: _) := .cons rfl block name
  have laid : Spaced ("1.5" :: _) ("1.5".toList ++ ' ' :: ([] ++ _)) := .cons rfl .nil dot
  rw [lexemes]
  refine Eq.subst (motive := Spaced _) ?_ laid
  decide +kernel

end Lox
