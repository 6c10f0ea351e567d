import Lox.Proofs.Renaming.Derivations
import Lox.Proofs.Token.Segmentation
import Lox.Proofs.Token.Spelling

/-! Texts in which some names are spelled otherwise.

A name ends where no letter or digit follows, and nothing else ends because a name begins. So a
text still falls into the same segments when identifiers in it are replaced by another one.
-/

namespace Lox

open Number (isDigit)
open Segment (isBlank isLetter isWordChar)

-----
-- Identifiers

/-- A text that is one identifier, and so no keyword. -/
def IsIdentifier (name : String) : Prop :=
  Segment.split name.toList = [.lexeme .identifier name.toList]

instance (name : String) : Decidable (IsIdentifier name) :=
  inferInstanceAs (Decidable (_ = _))

/-- An identifier is scanned as one. -/
theorem IsIdentifier.lexeme {name : String} (identifier : IsIdentifier name)
    : ∃ literal, Lexeme .identifier name.toList literal := by
  have segmented := Segment.split_segmented name.toList
  rw [identifier] at segmented
  exact segmented.lexemes _ _ List.mem_cons_self

/-- A letter is a character of a word. -/
theorem isWordChar_of_isLetter {c : Char} (letter : isLetter c = true) : isWordChar c = true := by
  simp [isWordChar, letter]

/-- Identifiers are words. -/
theorem Lexeme.identifier {text : List Char} {literal : Option Literal}
    (lexeme : Lexeme .identifier text literal)
    : ∃ letter rest,
        text = letter :: rest
        ∧ isLetter letter = true
        ∧ (∀ c ∈ rest, isWordChar c = true)
        ∧ TokenKind.ofWord (String.ofList text) = .identifier := by
  generalize same : TokenKind.identifier = kind at lexeme
  cases lexeme with
  | operator listed =>
      subst same
      rcases cases_of_mem_operators listed with ⟨c, -, found, -⟩ | ⟨c, second, -, found, -⟩
      · exact absurd (by decide) (Segment.oneCharOperator?_other found)
      · exact absurd (by decide) (Segment.twoCharOperator?_other found)
  | whole | decimal | string => cases same
  | word first more => exact ⟨_, _, rfl, first, more, rfl⟩

/-- An identifier is on one line. -/
theorem Lexeme.identifier_newlines {text : List Char} {literal : Option Literal}
    (lexeme : Lexeme .identifier text literal)
    : text.count '\n' = 0 := by
  obtain ⟨letter, rest, rfl, first, more, -⟩ := lexeme.identifier
  refine List.count_eq_zero.2 fun member => ?_
  rcases List.mem_cons.1 member with rfl | member
  · cases first
  · cases more _ member

-----
-- Texts that go on alike

/-- The texts are the same up to a place where both go on with a letter, or to their ends. -/
inductive Alike : List Char → List Char → Prop
  | nil : Alike [] []
  | cons (c : Char) {rest rest' : List Char} (alike : Alike rest rest')
    : Alike (c :: rest) (c :: rest')
  | letters {letter letter' : Char} {rest rest' : List Char} (first : isLetter letter = true)
    (first' : isLetter letter' = true)
    : Alike (letter :: rest) (letter' :: rest')

namespace Alike

variable {text text' : List Char}

/-- Texts that are alike are so behind the same characters. -/
theorem append (alike : Alike text text') (front : List Char)
    : Alike (front ++ text) (front ++ text') := by
  induction front with
  | nil => exact alike
  | cons c rest ih => exact .cons c ih

/-- Without letters the same stands at the front of both. -/
theorem leads (alike : Alike text text') {front : List Char}
    (noLetters : ∀ c ∈ front, isLetter c = false) (leads : front <+: text')
    : front <+: text := by
  induction front generalizing text text' with
  | nil => exact List.nil_prefix
  | cons c front ih =>
      obtain ⟨notLetter, noLetters⟩ := List.forall_mem_cons.1 noLetters
      cases alike with
      | nil => exact leads
      | cons d alike =>
          obtain ⟨rfl, behind⟩ := List.cons_prefix_cons.1 leads
          exact List.cons_prefix_cons.2 ⟨rfl, ih alike noLetters behind⟩
      | letters first first' =>
          obtain ⟨rfl, -⟩ := List.cons_prefix_cons.1 leads
          rw [first'] at notLetter
          cases notLetter

/-- A word goes on in both or in neither. -/
theorem wordChar (alike : Alike text text') {c : Char} {rest : List Char}
    (same : text' = c :: rest) (isWord : isWordChar c = true)
    : ∃ d more, text = d :: more ∧ isWordChar d = true := by
  subst same
  cases alike with
  | cons _ alike => exact ⟨c, _, rfl, isWord⟩
  | letters first _ => exact ⟨_, _, rfl, isWordChar_of_isLetter first⟩

end Alike

-----
-- Words at the front of a text

/-- A word is the longest at its place where no letter or digit follows. -/
theorem longest_word {kind : TokenKind} {letter : Char} {rest behind : List Char}
    (lexeme : ∃ literal, Lexeme kind (letter :: rest) literal) (first : isLetter letter = true)
    (stops : ∀ c more, behind = c :: more → isWordChar c = false)
    : LongestLexeme kind (letter :: rest) behind := by
  refine ⟨lexeme, fun kind' longer literal other leads => ?_, ?_⟩
  · obtain ⟨-, more, rfl, isWord⟩ := other.word_of_isLetter leads first
    refine Nat.le_of_not_lt fun exceeds => ?_
    have within : letter :: rest <+: letter :: more :=
      List.prefix_of_prefix_length_le (List.prefix_append _ behind) leads (Nat.le_of_lt exceeds)
    obtain ⟨others, same⟩ := within
    cases others with
    | nil =>
        rw [List.append_nil] at same
        rw [same] at exceeds
        exact Nat.lt_irrefl _ exceeds
    | cons c others =>
        rw [← same] at leads
        obtain ⟨last, goesOn⟩ := leads
        rw [List.append_assoc, List.append_cancel_left_eq] at goesOn
        have stopped := stops c _ goesOn.symm
        have member : c ∈ more := by
          rw [← (List.cons.inj same).2]
          simp
        rw [isWord c member] at stopped
        cases stopped
  · rintro (opens | opens) <;>
      · obtain ⟨rfl, -⟩ := List.cons_prefix_cons.1 opens
        cases first

/-- The longest word ends where no letter or digit follows. -/
theorem LongestLexeme.stops {kind : TokenKind} {letter : Char} {rest behind : List Char}
    (longest : LongestLexeme kind (letter :: rest) behind) (first : isLetter letter = true)
    {c : Char} {more : List Char} (same : behind = c :: more)
    : isWordChar c = false := by
  obtain ⟨literal, lexeme⟩ := longest.lexeme
  obtain ⟨-, _, same', isWord⟩ := lexeme.word_of_isLetter List.prefix_rfl first
  obtain rfl := (List.cons.inj same').2
  refine Bool.not_eq_true _ ▸ fun goesOn => ?_
  have longer : Lexeme _ (letter :: (rest ++ [c])) none := .word first fun d member => by
    rcases List.mem_append.1 member with member | member
    · exact isWord d member
    · exact List.mem_singleton.1 member ▸ goesOn
  have tooLong := longest.longest _ _ _ longer ⟨more, by simp [same]⟩
  simp only [List.length_cons, List.length_append, List.length_nil] at tooLong
  exact absurd tooLong (Nat.not_succ_le_self _)

/-- No digit is a letter. -/
theorem not_isLetter_of_isDigit {c : Char} (digit : isDigit c = true) : isLetter c = false :=
  Bool.not_eq_true _ ▸ fun letter => by
    rw [isDigit_of_isLetter letter] at digit
    cases digit

/-- What is no word has no letters in it, unless it is a string. -/
theorem Lexeme.noLetters {kind : TokenKind} {text : List Char} {literal : Option Literal} {c : Char}
    {rest : List Char} (lexeme : Lexeme kind text literal) (leads : text <+: c :: rest)
    (notLetter : isLetter c = false) (notQuote : c ≠ '"')
    : ∀ c ∈ text, isLetter c = false := by
  have ofDigits {digits : List Char} (all : ∀ c ∈ digits, isDigit c = true)
      : ∀ c ∈ digits, isLetter c = false :=
    fun c member => not_isLetter_of_isDigit (all c member)
  cases lexeme with
  | operator listed =>
      have plain : (operators.all fun entry => entry.1.all fun c => !isLetter c) = true := by decide
      intro c member
      have notLetter := List.all_eq_true.1 (List.all_eq_true.1 plain _ listed) c member
      simpa using notLetter
  | whole first more => exact ofDigits (List.forall_mem_cons.2 ⟨first, more⟩)
  | decimal first more second others =>
      intro c member
      rcases List.mem_append.1 ((List.cons_append ..) ▸ member) with front | back
      · exact ofDigits (List.forall_mem_cons.2 ⟨first, more⟩) c front
      · rcases List.mem_cons.1 back with rfl | back
        · decide
        · exact ofDigits (List.forall_mem_cons.2 ⟨second, others⟩) c back
  | string unquoted => exact absurd (List.cons_prefix_cons.1 leads).1.symm notQuote
  | word first more =>
      rw [← (List.cons_prefix_cons.1 leads).1, first] at notLetter
      cases notLetter

/-- The same word is the longest in front of what goes on alike. -/
theorem LongestLexeme.alike {kind : TokenKind} {text behind behind' : List Char}
    (longest : LongestLexeme kind text behind) (alike : Alike behind behind')
    : LongestLexeme kind text behind' := by
  obtain ⟨literal, lexeme⟩ := longest.lexeme
  obtain ⟨c, rest, rfl⟩ := List.exists_cons_of_ne_nil lexeme.text_ne_nil
  by_cases letter : isLetter c = true
  · refine longest_word longest.lexeme letter fun d more same => ?_
    refine Bool.not_eq_true _ ▸ fun isWord => ?_
    obtain ⟨e, others, found, isWord⟩ := alike.wordChar same isWord
    rw [longest.stops letter found] at isWord
    cases isWord
  rw [Bool.not_eq_true] at letter
  have whole := alike.append (c :: rest)
  refine ⟨longest.lexeme, fun kind' longer literal' other leads => ?_, fun opens => ?_⟩
  · by_cases quote : c = '"'
    · subst quote
      obtain ⟨-, body, same, unquoted⟩ := lexeme.string_of_quote List.prefix_rfl
      obtain ⟨-, body', rfl, unquoted'⟩ := other.string_of_quote leads
      obtain rfl := (List.cons.inj same).2
      have run {body : List Char} (unquoted : '"' ∉ body) {text : List Char}
          (leads : body ++ ['"'] <+: text)
          : text.takeWhile (· != '"') = body := by
        have inside : ∀ c ∈ body, (c != '"') = true :=
          fun c member => bne_iff_ne.2 fun quote => unquoted (quote ▸ member)
        exact (Segment.run_of_stop leads inside rfl).1
      have first := run unquoted (List.prefix_append (body ++ ['"']) behind')
      have second := run unquoted' (List.cons_prefix_cons.1 leads).2
      obtain rfl : body = body' := first.symm.trans second
      exact Nat.le_refl _
    · have noLetters := other.noLetters leads letter quote
      exact longest.longest kind' longer literal' other (whole.leads noLetters leads)
  · have slash : isLetter '/' = false := by decide
    have star : isLetter '*' = false := by decide
    exact longest.noComment (opens.imp (whole.leads (by simp [slash])) (whole.leads (by simp [slash, star])))

-----
-- Segments

/-- The segment stands in front of what goes on alike. -/
theorem Segment.Precedes.alike {segment : Segment} {behind behind' : List Char}
    (precedes : segment.Precedes behind) (alike : Alike behind behind')
    : segment.Precedes behind' := by
  cases precedes with
  | blank blank => exact .blank blank
  | lineComment oneLine ends =>
      refine .lineComment oneLine ?_
      rcases ends with rfl | ⟨more, rfl⟩
      · cases alike
        exact .inl rfl
      · cases alike with
        | cons _ alike => exact .inr ⟨_, rfl⟩
        | letters first _ => cases first
  | blockComment first => exact .blockComment first
  | lexeme longest => exact .lexeme (longest.alike alike)
  | @unexpected c _ notBlank notQuote nothing =>
      refine .unexpected notBlank notQuote fun kind text literal lexeme leads => ?_
      have notLetter : isLetter c = false := Bool.not_eq_true _ ▸ fun letter =>
        nothing _ _ _ (.word letter fun _ member => absurd member List.not_mem_nil) ⟨_, rfl⟩
      have noLetters := lexeme.noLetters leads notLetter notQuote
      exact nothing kind text literal lexeme ((alike.append [c]).leads noLetters leads)
  | openString unquoted =>
      cases alike
      exact .openString unquoted
  | openComment unclosed =>
      cases alike
      exact .openComment unclosed

/-- The same segments one by one, but for identifiers of the old spelling. -/
inductive Renaming.RespellsSegments (rename : Renaming) : List Segment → List Segment → Prop
  | nil : RespellsSegments rename [] []
  | kept (segment : Segment) {segments segments' : List Segment}
    (rest : RespellsSegments rename segments segments')
    : RespellsSegments rename (segment :: segments) (segment :: segments')
  | replaced {segments segments' : List Segment} (rest : RespellsSegments rename segments segments')
    : RespellsSegments rename (.lexeme .identifier rename.old.toList :: segments)
        (.lexeme .identifier rename.new.toList :: segments')

section

variable {rename : Renaming} (identifier : IsIdentifier rename.new)

include identifier

/-- A text falls into the segments that it is put together from. -/
theorem Segmented.respelled {source : List Char} {segments segments' : List Segment}
    (segmented : Segmented source segments)
    (respelled : rename.RespellsSegments segments segments')
    : Segmented (segments'.flatMap Segment.text) segments'
      ∧ Alike source (segments'.flatMap Segment.text) := by
  induction segmented generalizing segments' with
  | nil =>
      cases respelled
      exact ⟨.nil, .nil⟩
  | @cons segment _ _ first _ ih =>
      cases respelled with
      | kept _ rest =>
          obtain ⟨segmented, alike⟩ := ih rest
          exact ⟨.cons (first.alike alike) segmented, alike.append segment.text⟩
      | replaced rest =>
          obtain ⟨segmented, alike⟩ := ih rest
          obtain ⟨literal', lexeme'⟩ := identifier.lexeme
          cases first with
          | lexeme longest =>
              obtain ⟨literal, lexeme⟩ := longest.lexeme
              obtain ⟨letter, more, same, first, -⟩ := lexeme.identifier
              obtain ⟨letter', more', same', first', -⟩ := lexeme'.identifier
              have named := identifier.lexeme
              have goesOn := longest.alike alike
              change Segmented (rename.new.toList ++ _) _
                ∧ Alike (rename.old.toList ++ _) (rename.new.toList ++ _)
              rw [same'] at named ⊢
              rw [same] at goesOn ⊢
              refine ⟨.cons (.lexeme (longest_word named first' fun c others => ?_)) segmented,
                .letters first first'⟩
              exact fun same => goesOn.stops first same

/-- The tokens of segments may be spelled otherwise by other segments. -/
theorem respellsSegments_of_tokens {line : Nat} {segments : List Segment} {tokens' : List Token}
    (words : ∀ kind text, .lexeme kind text ∈ segments → ∃ literal, Lexeme kind text literal)
    (respelled
      : rename.RespellsAll ((Segment.place line segments).filterMap PlacedSegment.token?) tokens')
    : ∃ segments',
        rename.RespellsSegments segments segments'
        ∧ (Segment.place line segments').filterMap PlacedSegment.token? = tokens'
        ∧ (Segment.place line segments').filterMap PlacedSegment.diagnostic?
            = (Segment.place line segments).filterMap PlacedSegment.diagnostic? := by
  induction segments generalizing line tokens' with
  | nil =>
      cases respelled
      exact ⟨[], .nil, rfl, rfl⟩
  | cons segment rest ih =>
      have others (kind : TokenKind) (text : List Char) (member : .lexeme kind text ∈ rest) :=
        words kind text (List.mem_cons_of_mem _ member)
      cases segment with
      | lexeme kind text =>
          obtain ⟨literal, lexeme⟩ := words kind text List.mem_cons_self
          change rename.RespellsAll ({ kind, lexeme := String.ofList text, .. } :: _) _ at respelled
          cases respelled with
          | cons head tail =>
          obtain ⟨segments', respelled, tokens, mistakes⟩ := ih others tail
          cases head with
          | kept =>
              exact ⟨_, .kept _ respelled, congrArg (_ :: ·) tokens, mistakes⟩
          | replaced named old =>
              obtain rfl : kind = .identifier := named
              obtain rfl : text = rename.old.toList := by
                rw [← show String.ofList text = rename.old from old, String.toList_ofList]
              obtain ⟨literal', lexeme'⟩ := identifier.lexeme
              let segment := Segment.lexeme .identifier rename.new.toList
              have newlines
                  : segment.newlines = (Segment.lexeme .identifier rename.old.toList).newlines :=
                lexeme'.identifier_newlines.trans lexeme.identifier_newlines.symm
              have token
                  : PlacedSegment.token? ⟨segment, line⟩
                      = some ⟨.identifier, rename.new, none, line + segment.newlines⟩ := by
                rw [← String.ofList_toList (s := rename.new)]
                rfl
              refine ⟨segment :: segments', .replaced respelled, ?_, ?_⟩
              · rw [Segment.place, List.filterMap_cons_some token, newlines, tokens]
                rfl
              · rw [Segment.place, List.filterMap_cons_none rfl, newlines]
                exact mistakes
      | _ =>
          obtain ⟨segments', respelled, tokens, mistakes⟩ := ih others respelled
          refine ⟨_, .kept _ respelled, tokens, ?_⟩
          simp only [Segment.place, List.filterMap_cons, mistakes]

/-- Whatever tokens a text is respelled to, there is a text that has them. -/
theorem exists_respelled {source : String} {tokens' : List Token}
    (respelled : rename.RespellsAll (lexemes source) tokens')
    : ∃ source', lexemes source' = tokens' ∧ (scan source').errors = (scan source).errors := by
  have segmented := Segment.split_segmented source.toList
  obtain ⟨segments', respelledSegments, tokens, mistakes⟩ :=
    respellsSegments_of_tokens identifier segmented.lexemes respelled
  have split := (segmented.respelled identifier respelledSegments).1.eq_split
  refine ⟨String.ofList (segments'.flatMap Segment.text), ?_, ?_⟩
  · unfold lexemes
    rw [String.toList_ofList, ← split]
    exact tokens
  · unfold scan
    simp only [String.toList_ofList, ← split]
    exact mistakes

end

end Lox
