import Lox.Proofs.Token.Lexicon
import Lox.Proofs.Token.Splitting

/-! Segmentation: what it means for a text to fall into segments, and that there is one way only.

A segment stands at the front of the text that is left, and what it is depends on that text alone.
Tokens and errors are reported of the segments, in their order, each with its line.
-/

namespace Lox

open Number (isDigit)
open Segment (isBlank isLetter isWordChar)

-----
-- Segments at the front of a text

/-- A comment is opened by what would else be operators. -/
def OpensComment (text : List Char) : Prop :=
  ['/', '/'] <+: text ∨ ['/', '*'] <+: text

/-- Of all words that stand at the front of a text, the text of the token is the longest. -/
structure LongestLexeme (kind : TokenKind) (text behind : List Char) : Prop where
  lexeme : ∃ literal, Lexeme kind text literal
  longest
    : ∀ kind' longer literal,
        Lexeme kind' longer literal
        → longer <+: text ++ behind
        → longer.length ≤ text.length
  noComment : ¬OpensComment (text ++ behind)

/-- Two words that are both the longest are the same word. -/
theorem LongestLexeme.eq {kind kind' : TokenKind} {text text' behind behind' : List Char}
    (longest : LongestLexeme kind text behind) (longest' : LongestLexeme kind' text' behind')
    (same : text ++ behind = text' ++ behind')
    : Segment.lexeme kind text = .lexeme kind' text' := by
  obtain ⟨literal, lexeme⟩ := longest.lexeme
  obtain ⟨literal', lexeme'⟩ := longest'.lexeme
  have shorter := longest'.longest kind text literal lexeme ⟨behind, same⟩
  have shorter' := longest.longest kind' text' literal' lexeme' ⟨behind', same.symm⟩
  obtain ⟨rfl, -⟩ := List.append_inj same (Nat.le_antisymm shorter shorter')
  rw [lexeme.kind_eq lexeme']

/-- The segment stands in front of the text that is behind it. -/
inductive Segment.Precedes : Segment → List Char → Prop
  | blank {c behind} (blank : isBlank c = true) : Precedes (.blank c) behind
  /-- A line comment goes on up to the newline, or to the end of the text. -/
  | lineComment {body behind} (oneLine : '\n' ∉ body)
    (ends : behind = [] ∨ ∃ more, behind = '\n' :: more)
    : Precedes (.lineComment ('/' :: '/' :: body)) behind
  /-- A block comment ends at the first `*/` behind its opening. -/
  | blockComment {body behind} (first : ¬['*', '/'] <:+: body ++ ['*'])
    : Precedes (.blockComment ('/' :: '*' :: (body ++ ['*', '/']))) behind
  | lexeme {kind text behind} (longest : LongestLexeme kind text behind)
    : Precedes (.lexeme kind text) behind
  /-- The character starts nothing at all. -/
  | unexpected {c behind} (notBlank : isBlank c = false) (notQuote : c ≠ '"')
    (nothing : ∀ kind text literal, Lexeme kind text literal → ¬text <+: c :: behind)
    : Precedes (.unexpected c) behind
  | openString {body} (unquoted : '"' ∉ body) : Precedes (.openString ('"' :: body)) []
  | openComment {body} (unclosed : ¬['*', '/'] <:+: body)
    : Precedes (.openComment ('/' :: '*' :: body)) []

/-- A text falls into consecutive segments. -/
inductive Segmented : List Char → List Segment → Prop
  | nil : Segmented [] []
  | cons {segment behind segments} (first : Segment.Precedes segment behind)
    (rest : Segmented behind segments)
    : Segmented (segment.text ++ behind) (segment :: segments)

-----
-- What is reported of segments

/-- The line that a text ends on. -/
def lineAfter (text : List Char) : Nat :=
  1 + text.count '\n'

/-- The segment is neither a token nor a mistake. -/
def Segment.IsSkipped : Segment → Prop
  | .blank _ | .lineComment _ | .blockComment _ => True
  | .lexeme .. | .unexpected _ | .openString _ | .openComment _ => False

/-- The tokens and errors of segments that follow the text before. -/
inductive Reports : List Char → List Segment → List Token → List Diagnostic → Prop
  | done {before} : Reports before [] [.endOfInput (lineAfter before)] []
  | skipped {before segment segments tokens errors} (skipped : Segment.IsSkipped segment)
    (rest : Reports (before ++ segment.text) segments tokens errors)
    : Reports before (segment :: segments) tokens errors
  | lexeme {before kind text literal segments tokens errors}
    (lexeme : Lexeme kind text literal)
    (rest : Reports (before ++ text) segments tokens errors)
    : Reports before (.lexeme kind text :: segments)
        ({ kind, lexeme := String.ofList text, literal, line := lineAfter (before ++ text) }
          :: tokens)
        errors
  | unexpected {before c segments tokens errors}
    (rest : Reports (before ++ [c]) segments tokens errors)
    : Reports before (.unexpected c :: segments) tokens
        (⟨lineAfter (before ++ [c]), .line, .unexpectedCharacter c⟩ :: errors)
  | openString {before text segments tokens errors}
    (rest : Reports (before ++ text) segments tokens errors)
    : Reports before (.openString text :: segments) tokens
        (⟨lineAfter (before ++ text), .line, .unterminatedString⟩ :: errors)
  /-- An open comment is reported where it was opened. -/
  | openComment {before text segments tokens errors}
    (rest : Reports (before ++ text) segments tokens errors)
    : Reports before (.openComment text :: segments) tokens
        (⟨lineAfter before, .line, .unterminatedComment⟩ :: errors)

namespace Segment

-----
-- Runs of characters

/-- Characters of a class that lead a text lie in the run of the class. -/
theorem length_le_takeWhile {p : Char → Bool} {front text : List Char} (leads : front <+: text)
    (inside : ∀ c ∈ front, p c = true)
    : front.length ≤ (text.takeWhile p).length := by
  obtain ⟨back, rfl⟩ := leads
  rw [List.takeWhile_append_of_pos inside, List.length_append]
  exact Nat.le_add_right _ _

/-- A run of a class that something else ends is the whole run. -/
theorem run_of_stop {p : Char → Bool} {front back text : List Char} {stop : Char}
    (leads : front ++ stop :: back <+: text) (inside : ∀ c ∈ front, p c = true)
    (stops : p stop = false)
    : text.takeWhile p = front ∧ stop :: back <+: text.dropWhile p := by
  obtain ⟨more, rfl⟩ := leads
  rw [List.append_assoc, List.takeWhile_append_of_pos inside, List.dropWhile_append_of_pos inside]
  simp [stops]

/-- What a run of characters takes has the property of the run. -/
theorem mem_takeWhile {p : Char → Bool} {c : Char} {text : List Char}
    (member : c ∈ text.takeWhile p)
    : p c = true :=
  List.all_eq_true.1 List.all_takeWhile c member

-----
-- Numbers and words

/-- A fraction is a dot with digits behind it, or nothing. -/
theorem fraction_cases (rest : List Char)
    : fraction rest = []
      ∨ ∃ tenths more,
          rest = '.' :: tenths :: more
          ∧ isDigit tenths = true
          ∧ fraction rest = '.' :: tenths :: more.takeWhile isDigit := by
  unfold fraction
  split
  · split
    · next digit => exact .inr ⟨_, _, rfl, digit, rfl⟩
    · exact .inl rfl
  · exact .inl rfl

/-- What is taken for a number is a number. -/
theorem number_lexeme {digit : Char} (first : isDigit digit = true) (rest : List Char)
    : ∃ literal, Lexeme .number (number digit rest).text literal := by
  have digits : ∀ c ∈ rest.takeWhile isDigit, isDigit c = true := fun c => mem_takeWhile
  change ∃ literal,
    Lexeme .number (digit :: (rest.takeWhile isDigit ++ fraction (rest.dropWhile isDigit))) literal
  rcases fraction_cases (rest.dropWhile isDigit) with none | ⟨tenths, more, -, second, some⟩
  · rw [none, List.append_nil]
    exact ⟨_, .whole first digits⟩
  · rw [some]
    exact ⟨_, .decimal first digits second fun c => mem_takeWhile⟩

/-- No longer number leads the text. -/
theorem number_longest {digit : Char} (first : isDigit digit = true) {rest longer : List Char}
    {kind : TokenKind} {literal : Option Literal} (lexeme : Lexeme kind longer literal)
    (leads : longer <+: digit :: rest)
    : longer.length ≤ (number digit rest).text.length := by
  change longer.length
    ≤ (digit :: (rest.takeWhile isDigit ++ fraction (rest.dropWhile isDigit))).length
  rw [List.length_cons, List.length_append]
  rcases (lexeme.number_of_isDigit leads first).2 with
    ⟨digits, rfl, inside⟩ | ⟨digits, tenths, others, rfl, inside, second, insideOthers⟩
  · have run := length_le_takeWhile (List.cons_prefix_cons.1 leads).2 inside
    rw [List.length_cons]
    omega
  · obtain ⟨run, behind⟩ := run_of_stop (List.cons_prefix_cons.1 leads).2 inside rfl
    rcases fraction_cases (rest.dropWhile isDigit) with none | ⟨tenths', more, found, -, some⟩
    · -- A point with a digit behind it starts a fraction.
      obtain ⟨more, found⟩ := behind
      rw [← found] at none
      simp [fraction, second] at none
    · rw [found] at behind
      obtain ⟨-, behind⟩ := List.cons_prefix_cons.1 behind
      have fractionRun := length_le_takeWhile (List.cons_prefix_cons.1 behind).2 insideOthers
      rw [run, some]
      simp only [List.length_cons, List.length_append]
      omega

/-- No longer word leads the text. -/
theorem word_longest {letter : Char} (first : isLetter letter = true) {rest longer : List Char}
    {kind : TokenKind} {literal : Option Literal} (lexeme : Lexeme kind longer literal)
    (leads : longer <+: letter :: rest)
    : longer.length ≤ (letter :: rest.takeWhile isWordChar).length := by
  obtain ⟨-, more, rfl, inside⟩ := lexeme.word_of_isLetter leads first
  exact Nat.succ_le_succ (length_le_takeWhile (List.cons_prefix_cons.1 leads).2 inside)

-----
-- Comments

/-- A comment opens with a slash and a second character. -/
theorem opensComment_cons {c : Char} {rest : List Char} (opens : OpensComment (c :: rest))
    : c = '/' ∧ ∃ second more, rest = second :: more ∧ (second = '/' ∨ second = '*') := by
  rcases opens with leads | leads
  · obtain ⟨rfl, second, more⟩ := List.cons_prefix_cons.1 leads
    exact ⟨rfl, '/', second, more.symm, .inl rfl⟩
  · obtain ⟨rfl, second, more⟩ := List.cons_prefix_cons.1 leads
    exact ⟨rfl, '*', second, more.symm, .inr rfl⟩

/-- A comment that closes ends with its first closing mark. -/
theorem throughCommentEnd?_some {text found : List Char}
    (closed : throughCommentEnd? text = some found)
    : ∃ body, found = body ++ ['*', '/'] ∧ ¬['*', '/'] <:+: body ++ ['*'] := by
  induction text using throughCommentEnd?.induct generalizing found with
  | case1 => cases closed
  | case2 rest =>
      obtain rfl := Option.some.inj closed
      exact ⟨[], rfl, by decide⟩
  | case3 c rest noEnd ih =>
      rw [throughCommentEnd?.eq_3 c rest noEnd] at closed
      obtain ⟨found', closed', rfl⟩ := Option.map_eq_some_iff.1 closed
      obtain ⟨body, rfl, first⟩ := ih closed'
      refine ⟨c :: body, rfl, fun inside => ?_⟩
      rcases List.infix_cons_iff.1 inside with leads | later
      · -- The end would stand at once, and not only behind the body.
        obtain ⟨star, slash⟩ := List.cons_prefix_cons.1 leads
        have ends : ['/'] <+: body ++ ['*'] ++ ['/'] := slash.trans (List.prefix_append _ _)
        rw [List.append_assoc] at ends
        obtain ⟨more, same⟩ := ends.trans (throughCommentEnd?_leads closed')
        exact noEnd more star.symm same.symm
      · exact first later

/-- A comment that does not close has no closing mark. -/
theorem throughCommentEnd?_none {text : List Char} (unclosed : throughCommentEnd? text = none)
    : ¬['*', '/'] <:+: text := by
  induction text using throughCommentEnd?.induct with
  | case1 => decide
  | case2 rest => cases unclosed
  | case3 c rest noEnd ih =>
      rw [throughCommentEnd?.eq_3 c rest noEnd] at unclosed
      intro inside
      rcases List.infix_cons_iff.1 inside with leads | later
      · obtain ⟨rfl, more, same⟩ := List.cons_prefix_cons.1 leads
        exact noEnd more rfl same.symm
      · exact ih (Option.map_eq_none_iff.1 unclosed) later

/-- The first `*/` is found. -/
theorem throughCommentEnd?_append_end {body : List Char} (first : ¬['*', '/'] <:+: body ++ ['*'])
    (behind : List Char)
    : throughCommentEnd? (body ++ '*' :: '/' :: behind) = some (body ++ ['*', '/']) := by
  induction body with
  | nil => rfl
  | cons c rest ih =>
      have later : ¬['*', '/'] <:+: rest ++ ['*'] :=
        fun inside => first (List.infix_cons_iff.2 (.inr inside))
      have noEnd : ∀ more, c = '*' → rest ++ '*' :: '/' :: behind = '/' :: more → False := by
        intro more star slash
        refine first (List.infix_cons_iff.2 (.inl (List.cons_prefix_cons.2 ⟨star.symm, ?_⟩)))
        cases rest with
        | nil => cases slash
        | cons next others =>
            obtain ⟨rfl, -⟩ := List.cons.inj slash
            exact ⟨others ++ ['*'], rfl⟩
      rw [List.cons_append, throughCommentEnd?.eq_3 _ _ noEnd, ih later]
      rfl

-----
-- The first segment of a text

section

variable {c : Char} {rest behind : List Char}

/-- A string goes as far as it can, or to the end of the text. -/
theorem stringOrOpen_precedes (same : (stringOrOpen rest).text ++ behind = '"' :: rest)
    : (stringOrOpen rest).Precedes behind := by
  have unquoted : '"' ∉ rest.takeWhile (· != '"') := fun member => by
    simpa using mem_takeWhile member
  have split := List.takeWhile_append_dropWhile (p := (· != '"')) (l := rest)
  unfold stringOrOpen at same ⊢
  simp only at same ⊢
  cases found : rest.dropWhile (· != '"') with
  | nil =>
      rw [found] at same split
      rw [List.append_nil] at split
      rw [split] at unquoted
      have none : behind = [] := by simpa [text] using same
      subst none
      exact .openString unquoted
  | cons quote more =>
      have isQuote : quote = '"' := by
        have head := List.head?_dropWhile_not (· != '"') rest
        rw [found] at head
        simpa using head
      subst isQuote
      rw [found] at same
      change '"' :: (rest.takeWhile (· != '"') ++ ['"']) ++ behind = '"' :: rest at same
      refine .lexeme ⟨⟨_, .string unquoted⟩, fun kind longer literal lexeme leads => ?_, ?_⟩
      · rw [same] at leads
        obtain ⟨-, body, rfl, inside⟩ := lexeme.string_of_quote leads
        obtain ⟨run, -⟩ := run_of_stop (p := (· != '"')) (List.cons_prefix_cons.1 leads).2
          (fun c member => bne_iff_ne.2 fun isQuote => inside (isQuote ▸ member)) (by decide)
        exact Nat.le_of_eq (by rw [run])
      · rw [same]
        exact fun opens => absurd (opensComment_cons opens).1 (by decide)

/-- An operator goes as far as it can. -/
theorem operator_precedes (notBlank : isBlank c = false) (notDigit : isDigit c = false)
    (notLetter : isLetter c = false) (notQuote : c ≠ '"') (noComment : ¬OpensComment (c :: rest))
    (same : ((operator? c rest).getD (.unexpected c)).text ++ behind = c :: rest)
    : ((operator? c rest).getD (.unexpected c)).Precedes behind := by
  have listed {kind : TokenKind} {longer : List Char} {literal : Option Literal}
      (lexeme : Lexeme kind longer literal) (leads : longer <+: c :: rest)
      : (longer, kind) ∈ operators :=
    lexeme.operator_of_other leads notDigit notLetter notQuote
  unfold operator? at same ⊢
  cases two : rest.head?.bind fun second => (twoCharOperator? c second).map (·, second) with
  | some found =>
      obtain ⟨kind, second⟩ := found
      obtain ⟨second', head, mapped⟩ := Option.bind_eq_some_iff.1 two
      obtain ⟨kind', operator, pair⟩ := Option.map_eq_some_iff.1 mapped
      obtain ⟨rfl, rfl⟩ := Prod.mk.inj pair
      rw [two] at same
      change [c, second'] ++ behind = c :: rest at same
      refine .lexeme ⟨⟨_, .operator (mem_operators_two operator)⟩, ?_, same ▸ noComment⟩
      intro kind longer literal lexeme leads
      rcases cases_of_mem_operators (listed lexeme (same ▸ leads)) with ⟨_, rfl, -⟩ | ⟨_, _, rfl, -⟩
      · exact Nat.le_succ _
      · exact Nat.le_refl _
  | none =>
      rw [two] at same
      have single {kind : TokenKind} {longer : List Char} {literal : Option Literal}
          (lexeme : Lexeme kind longer literal) (leads : longer <+: c :: rest)
          : longer = [c] ∧ oneCharOperator? c = some kind := by
        rcases cases_of_mem_operators (listed lexeme leads) with
          ⟨d, rfl, found, -⟩ | ⟨d, second, rfl, found, -⟩
        · obtain ⟨rfl, -⟩ := List.cons_prefix_cons.1 leads
          exact ⟨rfl, found⟩
        · obtain ⟨rfl, more, rfl⟩ := List.cons_prefix_cons.1 leads
          simp [found] at two
      cases one : oneCharOperator? c with
      | some kind =>
          rw [one] at same
          change [c] ++ behind = c :: rest at same
          refine .lexeme ⟨⟨_, .operator (mem_operators_one one)⟩, ?_, same ▸ noComment⟩
          intro kind longer literal lexeme leads
          exact Nat.le_of_eq (congrArg List.length (single lexeme (same ▸ leads)).1)
      | none =>
          rw [one] at same
          change [c] ++ behind = c :: rest at same
          refine .unexpected notBlank notQuote fun kind text literal lexeme leads => ?_
          have found := (single lexeme (same ▸ leads)).2
          rw [one] at found
          cases found

/-- A line comment goes to the end of its line. -/
theorem lineComment_precedes {comment : List Char}
    (same : comment.takeWhile (· != '\n') ++ behind = comment)
    : Precedes (.lineComment ('/' :: '/' :: comment.takeWhile (· != '\n'))) behind := by
  have split := List.takeWhile_append_dropWhile (p := (· != '\n')) (l := comment)
  have after : behind = comment.dropWhile (· != '\n') :=
    List.append_cancel_left (same.trans split.symm)
  refine .lineComment (fun member => by simpa using mem_takeWhile member) ?_
  rw [after]
  have head := List.head?_dropWhile_not (· != '\n') comment
  cases found : comment.dropWhile (· != '\n') with
  | nil => exact .inl rfl
  | cons newline more =>
      rw [found] at head
      obtain rfl : newline = '\n' := by simpa using head
      exact .inr ⟨more, rfl⟩

/-- A block comment goes to its closing mark, or to the end of the text. -/
theorem blockCommentOrOpen_precedes {comment : List Char}
    (same : (blockCommentOrOpen comment).text ++ behind = '/' :: '*' :: comment)
    : (blockCommentOrOpen comment).Precedes behind := by
  unfold blockCommentOrOpen at same ⊢
  cases closed : throughCommentEnd? comment with
  | none =>
      rw [closed] at same
      have none : behind = [] := by simpa [text] using same
      subst none
      exact .openComment (throughCommentEnd?_none closed)
  | some found =>
      obtain ⟨body, rfl, first⟩ := throughCommentEnd?_some closed
      exact .blockComment first

/-- The segment that is taken from the front of a text is one that stands there. -/
theorem first_precedes (same : (first c rest).text ++ behind = c :: rest)
    : (first c rest).Precedes behind := by
  unfold first at same ⊢
  by_cases blank : isBlank c = true
  · rw [if_pos blank]
    exact .blank blank
  rw [if_neg blank] at same ⊢
  by_cases digit : isDigit c = true
  · rw [if_pos digit] at same ⊢
    refine .lexeme ⟨number_lexeme digit rest, fun kind longer literal lexeme leads => ?_, ?_⟩
    · exact number_longest digit lexeme (same ▸ leads)
    · intro opens
      obtain ⟨rfl, -⟩ := opensComment_cons (same ▸ opens)
      cases digit
  rw [if_neg digit] at same ⊢
  by_cases letter : isLetter c = true
  · rw [if_pos letter] at same ⊢
    change c :: rest.takeWhile isWordChar ++ behind = c :: rest at same
    refine .lexeme ⟨⟨_, .word letter fun c => mem_takeWhile⟩, ?_, ?_⟩
    · intro kind longer literal lexeme leads
      exact word_longest letter lexeme (same ▸ leads)
    · intro opens
      obtain ⟨rfl, -⟩ := opensComment_cons (same ▸ opens)
      cases letter
  rw [if_neg letter] at same ⊢
  rw [Bool.not_eq_true] at blank digit letter
  split at same
  · exact stringOrOpen_precedes same
  · exact lineComment_precedes (List.cons.inj (List.cons.inj same).2).2
  · exact blockCommentOrOpen_precedes same
  · next notQuote notLine notBlock =>
      refine operator_precedes blank digit letter notQuote (fun opens => ?_) same
      obtain ⟨slash, second, more, rfl, isSlash | isStar⟩ := opensComment_cons opens
      · exact notLine more slash (by rw [isSlash])
      · exact notBlock more slash (by rw [isStar])

end

-----
-- One way only

/-- Two characters that open a comment do so whatever follows. -/
theorem opensComment_of_cons {opening : Char} {body text : List Char}
    (same : '/' :: opening :: body = text) (opens : opening = '/' ∨ opening = '*')
    : OpensComment text := by
  subst same
  rcases opens with rfl | rfl
  · exact .inl ⟨body, rfl⟩
  · exact .inr ⟨body, rfl⟩

/-- Where the longest lexeme stands, nothing else can be taken. -/
theorem Precedes.eq_of_longest {segment : Segment} {kind : TokenKind}
    {text behind behind' : List Char}
    (precedes : segment.Precedes behind') (longest : LongestLexeme kind text behind)
    (same : segment.text ++ behind' = text ++ behind)
    : segment = .lexeme kind text := by
  obtain ⟨literal, lexeme⟩ := longest.lexeme
  obtain ⟨c, more, rfl⟩ := List.exists_cons_of_ne_nil lexeme.text_ne_nil
  have leads : c :: more <+: c :: (more ++ behind) := ⟨behind, rfl⟩
  have noComment := longest.noComment
  cases precedes with
  | blank blank =>
      obtain ⟨rfl, -⟩ := List.cons.inj same
      rw [lexeme.not_isBlank leads] at blank
      cases blank
  | lineComment => exact absurd (opensComment_of_cons same (.inl rfl)) noComment
  | blockComment => exact absurd (opensComment_of_cons same (.inr rfl)) noComment
  | openComment => exact absurd (opensComment_of_cons same (.inr rfl)) noComment
  | lexeme longest' => exact longest'.eq longest same
  | unexpected _ _ nothing =>
      obtain ⟨rfl, rfl⟩ := List.cons.inj same
      exact absurd leads (nothing _ _ _ lexeme)
  | @openString body unquoted =>
      obtain ⟨rfl, rest⟩ := List.cons.inj same
      obtain ⟨-, body', text, -⟩ := lexeme.string_of_quote leads
      obtain ⟨-, rfl⟩ := List.cons.inj text
      have whole : body = body' ++ ['"'] ++ behind := (List.append_nil body).symm.trans rest
      exact absurd (by simp [whole]) unquoted

/-- A character that nothing starts with is taken alone. -/
theorem Precedes.eq_unexpected {segment : Segment} {c : Char} {behind behind' : List Char}
    (precedes : segment.Precedes behind') (notBlank : isBlank c = false) (notQuote : c ≠ '"')
    (nothing
      : ∀ kind text literal, Lexeme kind text literal → ¬text <+: c :: behind)
    (same : segment.text ++ behind' = c :: behind)
    : segment = .unexpected c := by
  have noSlash : c ≠ '/' := fun slash =>
    nothing .slash ['/'] none (.operator (by decide)) ⟨behind, by rw [slash]; rfl⟩
  cases precedes with
  | blank blank =>
      obtain ⟨rfl, -⟩ := List.cons.inj same
      rw [notBlank] at blank
      cases blank
  | lineComment => exact absurd (List.cons.inj same).1.symm noSlash
  | blockComment => exact absurd (List.cons.inj same).1.symm noSlash
  | openComment => exact absurd (List.cons.inj same).1.symm noSlash
  | lexeme longest =>
      obtain ⟨literal, lexeme⟩ := longest.lexeme
      exact absurd ⟨behind', same⟩ (nothing _ _ _ lexeme)
  | unexpected => rw [(List.cons.inj same).1]
  | openString => exact absurd (List.cons.inj same).1.symm notQuote

/-- A segment that stands at the front of a text is the one that is taken. -/
theorem Precedes.eq_first {segment : Segment} {behind : List Char}
    (precedes : segment.Precedes behind)
    : ∃ c rest, segment.text ++ behind = c :: rest ∧ first c rest = segment := by
  cases precedes with
  | @blank c behind blank => exact ⟨c, behind, rfl, if_pos blank⟩
  | @lineComment body behind oneLine ends =>
      refine ⟨'/', '/' :: (body ++ behind), rfl, ?_⟩
      have inside : ∀ c ∈ body, (c != '\n') = true :=
        fun c member => bne_iff_ne.2 fun newline => oneLine (newline ▸ member)
      have run : (body ++ behind).takeWhile (· != '\n') = body := by
        rw [List.takeWhile_append_of_pos inside]
        rcases ends with rfl | ⟨more, rfl⟩ <;> simp
      exact congrArg (fun text => Segment.lineComment ('/' :: '/' :: text)) run
  | @blockComment body behind first =>
      refine ⟨'/', '*' :: (body ++ ['*', '/'] ++ behind), rfl, ?_⟩
      change blockCommentOrOpen (body ++ ['*', '/'] ++ behind) = _
      have whole : body ++ ['*', '/'] ++ behind = body ++ '*' :: '/' :: behind := by simp
      unfold blockCommentOrOpen
      rw [whole, throughCommentEnd?_append_end first]
  | @openString body unquoted =>
      refine ⟨'"', body ++ [], rfl, ?_⟩
      have inside : ∀ c ∈ body, (c != '"') = true :=
        fun c member => bne_iff_ne.2 fun quote => unquoted (quote ▸ member)
      have none : (body ++ []).dropWhile (· != '"') = [].dropWhile (· != '"') :=
        List.dropWhile_append_of_pos inside
      rw [List.append_nil] at none
      change stringOrOpen (body ++ []) = _
      unfold stringOrOpen
      simp [none]
  | @openComment body unclosed =>
      refine ⟨'/', '*' :: (body ++ []), rfl, ?_⟩
      change blockCommentOrOpen (body ++ []) = _
      unfold blockCommentOrOpen
      rw [List.append_nil]
      cases closed : throughCommentEnd? body with
      | none => rfl
      | some found =>
          obtain ⟨front, rfl, -⟩ := throughCommentEnd?_some closed
          obtain ⟨more, rfl⟩ := throughCommentEnd?_leads closed
          exact absurd ⟨front, more, rfl⟩ unclosed
  | @lexeme kind text behind longest =>
      obtain ⟨literal, lexeme⟩ := longest.lexeme
      obtain ⟨c, more, rfl⟩ := List.exists_cons_of_ne_nil lexeme.text_ne_nil
      obtain ⟨behind', same⟩ := first_leads c (more ++ behind)
      exact ⟨c, more ++ behind, rfl, (first_precedes same).eq_of_longest longest same⟩
  | @unexpected c behind notBlank notQuote nothing =>
      obtain ⟨behind', same⟩ := first_leads c behind
      exact ⟨c, behind, rfl, (first_precedes same).eq_unexpected notBlank notQuote nothing same⟩

-----
-- The whole text

/-- Splitting from a place on is splitting what is left of the text. -/
theorem splitFrom_eq_split (covered : Nat) (source : List Char)
    : splitFrom covered source = split (source.drop covered) := by
  induction source generalizing covered with
  | nil => rw [List.drop_nil]; rfl
  | cons c rest ih =>
      cases covered with
      | zero => rfl
      | succ remaining => exact ih remaining

/-- Behind its first segment a text is split on its own. -/
theorem split_cons {c : Char} {rest behind : List Char}
    (same : (first c rest).text ++ behind = c :: rest)
    : split (c :: rest) = first c rest :: split behind := by
  have length : (first c rest).text.length = (first c rest).text.length - 1 + 1 := by
    have some := List.length_pos_iff.2 (first_ne_nil c rest)
    omega
  have dropped : rest.drop ((first c rest).text.length - 1) = behind := by
    rw [← List.drop_succ_cons (a := c), ← length, ← same, List.drop_left]
  change first c rest :: splitFrom ((first c rest).text.length - 1) rest = _
  rw [splitFrom_eq_split, dropped]

/-- A text is split into the segments that the rules ask for. -/
theorem split_segmented (source : List Char) : Segmented source (split source) := by
  match source with
  | [] => exact .nil
  | c :: rest =>
      obtain ⟨behind, same⟩ := first_leads c rest
      have shorter : behind.length < (c :: rest).length := by
        have some := List.length_pos_iff.2 (first_ne_nil c rest)
        rw [← same, List.length_append]
        omega
      rw [split_cons same, ← same]
      exact .cons (first_precedes same) (split_segmented behind)
termination_by source.length
decreasing_by exact shorter

end Segment

/-- A text falls into segments in one way only. -/
theorem Segmented.eq_split {source : List Char} {segments : List Segment}
    (segmented : Segmented source segments)
    : segments = Segment.split source := by
  induction segmented with
  | nil => rfl
  | @cons segment behind segments precedes _ ih =>
      obtain ⟨c, rest, same, taken⟩ := precedes.eq_first
      subst taken
      rw [same, Segment.split_cons same, ih]

-----
-- Tokens and errors

/-- Every token of a segmented text is a word of the language. -/
theorem Segmented.lexemes {source : List Char} {segments : List Segment}
    (segmented : Segmented source segments)
    : ∀ kind text, .lexeme kind text ∈ segments → ∃ literal, Lexeme kind text literal := by
  induction segmented with
  | nil => exact fun _ _ member => absurd member List.not_mem_nil
  | cons precedes _ ih =>
      intro kind text member
      rcases List.mem_cons.1 member with rfl | member
      · cases precedes with
        | lexeme longest => exact longest.lexeme
      · exact ih kind text member

/-- The line behind a segment is counted by its newlines. -/
theorem lineAfter_append (before : List Char) (segment : Segment)
    : lineAfter (before ++ segment.text) = lineAfter before + segment.newlines := by
  simp [lineAfter, Segment.newlines, Nat.add_assoc]

/-- Segments report their tokens and errors at their own places, by induction on them. -/
theorem reports_place (segments : List Segment) (before : List Char)
    (words
      : ∀ kind text, .lexeme kind text ∈ segments → ∃ literal, Lexeme kind text literal)
    : let placed := Segment.place (lineAfter before) segments
      Reports before segments
        (placed.filterMap PlacedSegment.token?
          ++ [.endOfInput (lineAfter (before ++ segments.flatMap Segment.text))])
        (placed.filterMap PlacedSegment.diagnostic?) := by
  induction segments generalizing before with
  | nil =>
      rw [List.flatMap_nil, List.append_nil]
      exact .done
  | cons segment rest ih =>
      have others := ih (before ++ segment.text) fun kind text member =>
        words kind text (List.mem_cons_of_mem _ member)
      rw [List.append_assoc, ← List.flatMap_cons, lineAfter_append] at others
      have line := lineAfter_append before segment
      cases segment with
      | blank => exact .skipped trivial others
      | lineComment => exact .skipped trivial others
      | blockComment => exact .skipped trivial others
      | lexeme kind text =>
          obtain ⟨literal, lexeme⟩ := words kind text List.mem_cons_self
          have reports := Reports.lexeme lexeme others
          rw [← lexeme.ofLexeme?_eq, show lineAfter (before ++ text) = _ from line] at reports
          exact reports
      | unexpected c =>
          have reports := Reports.unexpected others
          rw [show lineAfter (before ++ [c]) = _ from line] at reports
          exact reports
      | openString text =>
          have reports := Reports.openString others
          rw [line] at reports
          exact reports
      | openComment text => exact .openComment others

/-- Every text falls into segments, in one way only, and nothing of it is lost. The tokens and the
errors of the text are those of its segments, in order, and the end of input closes the tokens. -/
theorem scan_segments (source : String)
    : ∃ segments,
        Segmented source.toList segments
        ∧ (∀ others, Segmented source.toList others → others = segments)
        ∧ segments.flatMap Segment.text = source.toList
        ∧ Reports [] segments (scan source).tokens (scan source).errors := by
  have segmented := Segment.split_segmented source.toList
  have reports := reports_place _ [] segmented.lexemes
  rw [List.nil_append, Segment.split_covers] at reports
  exact ⟨_, segmented, fun _ other => other.eq_split, Segment.split_covers _, reports⟩

end Lox
