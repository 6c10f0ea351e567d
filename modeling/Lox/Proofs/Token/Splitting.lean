import Lox.Token.Scan

/-! How a text falls into segments: they cover it, and none that is closed goes on past a newline
that is put behind it.
-/

namespace Lox.Segment

-----
-- Covering the text

/-- What is taken up to the end of a comment stands in front of the text. -/
theorem throughCommentEnd?_leads {text body : List Char}
    (found : throughCommentEnd? text = some body)
    : body <+: text := by
  induction text using throughCommentEnd?.induct generalizing body with
  | case1 => cases found
  | case2 rest =>
      obtain rfl := Option.some.inj found
      exact ⟨rest, rfl⟩
  | case3 c rest noEnd ih =>
      rw [throughCommentEnd?.eq_3 c rest noEnd] at found
      obtain ⟨body', found', rfl⟩ := Option.map_eq_some_iff.1 found
      exact List.cons_prefix_cons.2 ⟨rfl, ih found'⟩

/-- A fraction is taken from the front of what follows a number. -/
theorem fraction_leads (rest : List Char) : fraction rest <+: rest := by
  unfold fraction
  split
  · split
    · exact List.cons_prefix_cons.2 ⟨rfl, List.cons_prefix_cons.2 ⟨rfl, List.takeWhile_prefix _⟩⟩
    · exact List.nil_prefix
  · exact List.nil_prefix

/-- An operator stands in front of the text. -/
theorem operator?_leads {c : Char} {rest : List Char} {segment : Segment}
    (found : operator? c rest = some segment)
    : segment.text <+: c :: rest := by
  unfold operator? at found
  split at found
  · next kind second two =>
      obtain ⟨second', head, two⟩ := Option.bind_eq_some_iff.1 two
      obtain ⟨kind', -, same⟩ := Option.map_eq_some_iff.1 two
      obtain ⟨rfl, rfl⟩ := Prod.mk.inj same
      obtain rfl := Option.some.inj found
      obtain ⟨tail, rfl⟩ := List.head?_eq_some_iff.1 head
      exact ⟨tail, rfl⟩
  · obtain ⟨kind, -, rfl⟩ := Option.map_eq_some_iff.1 found
    exact ⟨rest, rfl⟩

/-- A string stands in front of the text, also one that does not close. -/
theorem stringOrOpen_leads (rest : List Char)
    : (stringOrOpen rest).text <+: '"' :: rest := by
  unfold stringOrOpen
  simp only
  split
  · exact List.prefix_rfl
  · next quote more behind =>
      have split := List.takeWhile_append_dropWhile (p := (· != '"')) (l := rest)
      refine List.cons_prefix_cons.2 ⟨rfl, more, ?_⟩
      rw [List.append_assoc, List.singleton_append, ← behind, split]

/-- A block comment stands in front of the text, also one that does not close. -/
theorem blockCommentOrOpen_leads (rest : List Char)
    : (blockCommentOrOpen rest).text <+: '/' :: '*' :: rest := by
  unfold blockCommentOrOpen
  split
  · next found =>
      exact List.cons_prefix_cons.2
        ⟨rfl, List.cons_prefix_cons.2 ⟨rfl, throughCommentEnd?_leads found⟩⟩
  · exact List.prefix_rfl

/-- The segment at the front of a text is a stretch at its front. -/
theorem first_leads (c : Char) (rest : List Char) : (first c rest).text <+: c :: rest := by
  unfold first
  split
  · exact ⟨rest, rfl⟩
  split
  · refine List.cons_prefix_cons.2 ⟨rfl, ?_⟩
    have split := List.takeWhile_append_dropWhile (p := Number.isDigit) (l := rest)
    obtain ⟨tail, same⟩ := fraction_leads (rest.dropWhile Number.isDigit)
    exact ⟨tail, by rw [List.append_assoc, same, split]⟩
  split
  · exact List.cons_prefix_cons.2 ⟨rfl, List.takeWhile_prefix _⟩
  split
  · exact stringOrOpen_leads _
  · exact List.cons_prefix_cons.2 ⟨rfl, List.cons_prefix_cons.2 ⟨rfl, List.takeWhile_prefix _⟩⟩
  · exact blockCommentOrOpen_leads _
  · cases found : operator? c rest with
    | none => exact ⟨rest, rfl⟩
    | some segment => exact operator?_leads found

/-- No segment is empty. -/
theorem first_ne_nil (c : Char) (rest : List Char) : (first c rest).text ≠ [] := by
  unfold first
  split
  · exact List.cons_ne_nil _ _
  split
  · exact List.cons_ne_nil _ _
  split
  · exact List.cons_ne_nil _ _
  split
  · unfold stringOrOpen
    simp only
    split <;> exact List.cons_ne_nil _ _
  · exact List.cons_ne_nil _ _
  · unfold blockCommentOrOpen
    split <;> exact List.cons_ne_nil _ _
  · unfold operator?
    split
    · exact List.cons_ne_nil _ _
    · cases oneCharOperator? c <;> exact List.cons_ne_nil _ _

/-- No text is lost between the segments. -/
theorem splitFrom_covers (covered : Nat) (source : List Char)
    : (splitFrom covered source).flatMap text = source.drop covered := by
  induction source generalizing covered with
  | nil => rw [splitFrom, List.drop_nil, List.flatMap_nil]
  | cons c rest ih =>
      cases covered with
      | succ remaining => exact ih remaining
      | zero =>
          obtain ⟨tail, same⟩ := first_leads c rest
          have length : (first c rest).text.length = (first c rest).text.length - 1 + 1 := by
            have some := List.length_pos_iff.2 (first_ne_nil c rest)
            omega
          have behind : rest.drop ((first c rest).text.length - 1) = tail := by
            rw [← List.drop_succ_cons (a := c), ← length, ← same, List.drop_left]
          rw [splitFrom, List.flatMap_cons, ih, behind, same, List.drop_zero]

/-- The segments cover the text, one behind the other. -/
theorem split_covers (source : List Char) : (split source).flatMap text = source :=
  splitFrom_covers 0 source

-----
-- Mistakes

/-- Characters that start nothing, and what is left open up to the end of the text. -/
def isMistake : Segment → Bool
  | .unexpected _ | .openString _ | .openComment _ => true
  | .blank _ | .lineComment _ | .blockComment _ | .lexeme .. => false

/-- What is left open swallows all that is put behind it. -/
def isOpen : Segment → Bool
  | .openString _ | .openComment _ => true
  | .blank _ | .lineComment _ | .blockComment _ | .lexeme .. | .unexpected _ => false

/-- A segment without a mistake is closed. -/
theorem isOpen_of_isMistake {segment : Segment} (right : segment.isMistake = false)
    : segment.isOpen = false := by
  cases segment <;> first | rfl | cases right

/-- More text behind a closed string does not change it. -/
theorem stringOrOpen_append {rest : List Char} (closed : (stringOrOpen rest).isOpen = false)
    (more : List Char)
    : stringOrOpen (rest ++ more) = stringOrOpen rest := by
  unfold stringOrOpen at closed ⊢
  simp only at closed ⊢
  cases behind : rest.dropWhile (· != '"') with
  | nil =>
      rw [behind] at closed
      cases closed
  | cons quote tail =>
      have split := List.takeWhile_append_dropWhile (p := (· != '"')) (l := rest)
      have stops : (quote != '"') = false := by
        have head := List.head?_dropWhile_not (· != '"') rest
        rw [behind] at head
        simpa using head
      have inside : ∀ c ∈ rest.takeWhile (· != '"'), (c != '"') = true :=
        fun c member => List.all_eq_true.1 List.all_takeWhile c member
      have text : rest ++ more = rest.takeWhile (· != '"') ++ quote :: (tail ++ more) := by
        rw [← List.cons_append, ← List.append_assoc, ← behind, split]
      rw [text, List.takeWhile_append_of_pos inside, List.dropWhile_append_of_pos inside]
      simp [stops]

/-- More text behind a closed comment does not change where it ends. -/
theorem throughCommentEnd?_append {text body : List Char}
    (found : throughCommentEnd? text = some body) (more : List Char)
    : throughCommentEnd? (text ++ more) = some body := by
  induction text using throughCommentEnd?.induct generalizing body with
  | case1 => cases found
  | case2 rest => exact found
  | case3 c rest noEnd ih =>
      rw [throughCommentEnd?.eq_3 c rest noEnd] at found
      obtain ⟨body', found', rfl⟩ := Option.map_eq_some_iff.1 found
      have noEndBehind : ∀ tail, c = '*' → rest ++ more = '/' :: tail → False := by
        intro tail star slash
        cases rest with
        | nil => cases found'
        | cons next others => exact noEnd others star (by rw [(List.cons.inj slash).1])
      rw [List.cons_append, throughCommentEnd?.eq_3 c (rest ++ more) noEndBehind, ih found']
      rfl

/-- More text behind a closed block comment does not change it. -/
theorem blockCommentOrOpen_append {rest : List Char}
    (closed : (blockCommentOrOpen rest).isOpen = false) (more : List Char)
    : blockCommentOrOpen (rest ++ more) = blockCommentOrOpen rest := by
  unfold blockCommentOrOpen at closed ⊢
  cases found : throughCommentEnd? rest with
  | none =>
      rw [found] at closed
      cases closed
  | some body => rw [throughCommentEnd?_append found more]

-----
-- A newline behind a text

section

variable (more : List Char)

/-- A run that stops at newlines is not changed by what follows one. -/
theorem takeWhile_newline {p : Char → Bool} (stops : p '\n' = false) (text : List Char)
    : (text ++ '\n' :: more).takeWhile p = text.takeWhile p := by
  induction text with
  | nil => simp [stops]
  | cons c rest ih => cases kept : p c <;> simp [kept, ih]

/-- What a run leaves behind is what it left, with the newline and the rest. -/
theorem dropWhile_newline {p : Char → Bool} (stops : p '\n' = false) (text : List Char)
    : (text ++ '\n' :: more).dropWhile p = text.dropWhile p ++ '\n' :: more := by
  induction text with
  | nil => simp [stops]
  | cons c rest ih => cases kept : p c <;> simp [kept, ih]

/-- A fraction is not changed by what follows a newline. -/
theorem fraction_newline (text : List Char)
    : fraction (text ++ '\n' :: more) = fraction text := by
  have digits (text : List Char) := takeWhile_newline more (p := Number.isDigit) (by decide) text
  match text with
  | [] => rfl
  | [c] =>
      by_cases point : c = '.'
      · subst point
        rfl
      · simp [fraction, point]
  | c :: second :: rest =>
      by_cases point : c = '.'
      · subst point
        simp [fraction, digits]
      · simp [fraction, point]

/-- No operator of two characters ends in a newline. -/
theorem operator?_newline (c : Char) (text : List Char)
    : operator? c (text ++ '\n' :: more) = operator? c text := by
  cases text with
  | cons second rest => rfl
  | nil =>
      have one : twoCharOperator? c '\n' = none := by
        unfold twoCharOperator?
        split <;> first | rfl | simp_all
      simp [operator?, one]

/-- A segment that is closed is not changed by what stands on the next line. -/
theorem first_newline {c : Char} {rest : List Char} (closed : (first c rest).isOpen = false)
    : first c (rest ++ '\n' :: more) = first c rest := by
  unfold first at closed ⊢
  split
  · rfl
  split
  · unfold number
    rw [takeWhile_newline more (by decide), dropWhile_newline more (by decide), fraction_newline]
  split
  · unfold word
    rw [takeWhile_newline more (by decide)]
  by_cases quote : c = '"'
  · subst quote
    exact stringOrOpen_append (by simpa [isBlank, Number.isDigit, isLetter] using closed) _
  by_cases slash : c = '/'
  · subst slash
    have operator := operator?_newline more '/' rest
    cases rest with
    | nil => exact congrArg (Option.getD · (unexpected '/')) operator
    | cons second comment =>
        by_cases line : second = '/'
        · subst line
          exact congrArg (fun text => lineComment ('/' :: '/' :: text))
            (takeWhile_newline more (by decide) comment)
        by_cases block : second = '*'
        · subst block
          exact blockCommentOrOpen_append (by simpa [isBlank, Number.isDigit, isLetter] using closed) _
        simp only [List.cons_append] at operator ⊢
        simp [line, block, operator]
  · have operator := operator?_newline more c rest
    simp [slash, operator]

/-- A text is split line by line where no segment is left open. -/
theorem splitFrom_newline {covered : Nat} {text : List Char} (enough : covered ≤ text.length)
    (closed : ∀ segment ∈ splitFrom covered text, segment.isOpen = false)
    : splitFrom covered (text ++ '\n' :: more)
        = splitFrom covered text ++ .blank '\n' :: split more := by
  induction text generalizing covered with
  | nil =>
      obtain rfl := Nat.le_zero.1 enough
      rfl
  | cons c rest ih =>
      cases covered with
      | succ remaining => exact ih (Nat.le_of_succ_le_succ enough) closed
      | zero =>
          rw [splitFrom] at closed
          have first := first_newline more (closed _ List.mem_cons_self)
          have inside : (Segment.first c rest).text.length - 1 ≤ rest.length := by
            have length := (first_leads c rest).length_le
            rw [List.length_cons] at length
            omega
          have others := ih inside fun segment member =>
            closed segment (List.mem_cons_of_mem _ member)
          rw [List.cons_append, splitFrom, splitFrom, first, others]
          rfl

/-- A text that leaves nothing open and the text on the lines behind it are split each on its
own. -/
theorem split_newline {text : List Char}
    (closed : ∀ segment ∈ split text, segment.isOpen = false)
    : split (text ++ '\n' :: more) = split text ++ .blank '\n' :: split more :=
  splitFrom_newline more (Nat.zero_le _) closed

end

-----
-- Lines

/-- Segments in a row are placed one after the other, the later ones on the lines behind. -/
theorem place_append (line : Nat) (front back : List Segment)
    : place line (front ++ back)
        = place line front ++ place (line + (front.flatMap text).count '\n') back := by
  induction front generalizing line with
  | nil => rfl
  | cons segment rest ih => simp [place, newlines, ih, Nat.add_assoc]

/-- Every segment is placed on some line. -/
theorem exists_place (line : Nat) {segments : List Segment} {segment : Segment}
    (member : segment ∈ segments)
    : ∃ startLine, ⟨segment, startLine⟩ ∈ place line segments := by
  induction segments generalizing line with
  | nil => cases member
  | cons first rest ih =>
      rcases List.mem_cons.1 member with rfl | member
      · exact ⟨line, List.mem_cons_self⟩
      · obtain ⟨startLine, placed⟩ := ih (line + first.newlines) member
        exact ⟨startLine, List.mem_cons_of_mem _ placed⟩

/-- Segments that start so many lines further down lie so many lines further down. -/
theorem place_add (line below : Nat) (segments : List Segment)
    : place (line + below) segments
        = (place line segments).map fun placed =>
            { placed with startLine := placed.startLine + below } := by
  induction segments generalizing line with
  | nil => rfl
  | cons segment rest ih =>
      have line' : line + below + segment.newlines = line + segment.newlines + below := by omega
      simp only [place, List.map_cons, line', ih]

/-- No segment leaves the lines of the text. -/
theorem place_lines {line : Nat} {segments : List Segment} {placed : PlacedSegment}
    (member : placed ∈ place line segments)
    : line ≤ placed.startLine ∧ placed.endLine ≤ line + (segments.flatMap text).count '\n' := by
  induction segments generalizing line with
  | nil => cases member
  | cons segment rest ih =>
      rcases List.mem_cons.1 member with rfl | member
      · simp [PlacedSegment.endLine, newlines]
      · obtain ⟨starts, ends⟩ := ih member
        simp only [List.flatMap_cons, List.count_append]
        unfold newlines at starts ends
        omega

end Lox.Segment
