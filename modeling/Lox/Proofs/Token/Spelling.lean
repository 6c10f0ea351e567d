import Lox.Token.Scan

/-! How tokens are spelled: which texts stand behind which kinds.

Names and keywords are told apart by their whole spelling. The end of input is no lexeme.
-/

namespace Lox

/-- What is known of the spelling of a lexeme, as far as names and keywords can be confused. -/
structure Spelled (kind : TokenKind) (lexeme : String) : Prop where
  inside : kind ≠ .endOfInput
  name : kind = .identifier → lexeme ≠ "this" ∧ lexeme ≠ "super"
  this : kind = .thisWord → lexeme = "this"
  super : kind = .superWord → lexeme = "super"

-----
-- Segments

/-- Kinds that are neither names nor keywords with a meaning of their own as a name. -/
theorem Spelled.of_other {kind : TokenKind} {lexeme : String}
    (other : kind ∉ [.endOfInput, .identifier, .thisWord, .superWord])
    : Spelled kind lexeme := by
  simp only [List.mem_cons, List.not_mem_nil, or_false, not_or] at other
  obtain ⟨inside, notName, notThis, notSuper⟩ := other
  exact {
    inside
    name := fun kind => absurd kind notName
    this := fun kind => absurd kind notThis
    super := fun kind => absurd kind notSuper
  }

/-- A word that is no keyword is neither `this` nor `super`. -/
theorem Spelled.ofWord (word : String) : Spelled (TokenKind.ofWord word) word := by
  unfold TokenKind.ofWord
  split
  all_goals first
    | exact .of_other (by decide)
    | exact ⟨by decide, nofun, fun _ => rfl, nofun⟩
    | exact ⟨by decide, nofun, nofun, fun _ => rfl⟩
    | exact ⟨by decide, fun _ => ⟨by assumption, by assumption⟩, nofun, nofun⟩

namespace Segment

/-- A segment that is a lexeme is spelled as its kind says. -/
def WellSpelled (segment : Segment) : Prop :=
  ∀ kind text, segment = .lexeme kind text → Spelled kind (String.ofList text)

/-- An operator of one character is no name and no keyword. -/
theorem oneCharOperator?_other {c : Char} {kind : TokenKind}
    (found : oneCharOperator? c = some kind)
    : kind ∉ [.endOfInput, .identifier, .thisWord, .superWord] := by
  unfold oneCharOperator? at found
  split at found
  all_goals first
    | cases found; done
    | (obtain rfl := Option.some.inj found; decide)

/-- An operator of two characters is no name and no keyword. -/
theorem twoCharOperator?_other {c second : Char} {kind : TokenKind}
    (found : twoCharOperator? c second = some kind)
    : kind ∉ [.endOfInput, .identifier, .thisWord, .superWord] := by
  unfold twoCharOperator? at found
  split at found
  all_goals first
    | cases found; done
    | (obtain rfl := Option.some.inj found; decide)

/-- An operator is spelled as its kind is. -/
theorem operator?_wellSpelled {c : Char} {rest : List Char} {segment : Segment}
    (found : operator? c rest = some segment)
    : segment.WellSpelled := by
  rintro kind text rfl
  unfold operator? at found
  split at found
  · next matched second two =>
      obtain ⟨second', -, two⟩ := Option.bind_eq_some_iff.1 two
      obtain ⟨kind', operator, same⟩ := Option.map_eq_some_iff.1 two
      obtain ⟨rfl, rfl⟩ := Prod.mk.inj same
      obtain ⟨rfl, rfl⟩ := Segment.lexeme.inj (Option.some.inj found)
      exact .of_other (twoCharOperator?_other operator)
  · obtain ⟨kind', one, same⟩ := Option.map_eq_some_iff.1 found
    obtain ⟨rfl, rfl⟩ := Segment.lexeme.inj same
    exact .of_other (oneCharOperator?_other one)

/-- The first segment of a text is spelled as its kind is. -/
theorem first_wellSpelled (c : Char) (rest : List Char) : (first c rest).WellSpelled := by
  intro kind text found
  unfold first at found
  split at found
  · cases found
  split at found
  · obtain ⟨rfl, rfl⟩ := Segment.lexeme.inj found
    exact .of_other (by decide)
  split at found
  · obtain ⟨rfl, rfl⟩ := Segment.lexeme.inj found
    exact .ofWord _
  split at found
  · unfold stringOrOpen at found
    split at found
    · cases found
    · obtain ⟨rfl, rfl⟩ := Segment.lexeme.inj found
      exact .of_other (by decide)
  · cases found
  · unfold blockCommentOrOpen at found
    split at found <;> cases found
  · cases operator : operator? c rest with
    | none =>
        rw [operator] at found
        cases found
    | some segment =>
        rw [operator] at found
        exact operator?_wellSpelled operator kind text found

/-- All segments of a text are spelled as their kinds are, by induction on the text. -/
theorem splitFrom_wellSpelled (covered : Nat) (source : List Char)
    : ∀ segment ∈ splitFrom covered source, segment.WellSpelled := by
  induction source generalizing covered with
  | nil => simp [splitFrom]
  | cons c rest ih =>
      cases covered with
      | succ remaining => exact ih remaining
      | zero =>
          intro segment member
          simp only [splitFrom, List.mem_cons] at member
          rcases member with rfl | member
          · exact first_wellSpelled c rest
          · exact ih _ segment member

end Segment

-----
-- Tokens

/-- A placed segment is one of the segments. -/
theorem PlacedSegment.segment_mem {line : Nat} {segments : List Segment} {placed : PlacedSegment}
    (member : placed ∈ Segment.place line segments)
    : placed.segment ∈ segments := by
  induction segments generalizing line with
  | nil => simp [Segment.place] at member
  | cons segment rest ih =>
      simp only [Segment.place, List.mem_cons] at member
      rcases member with rfl | member
      · exact List.mem_cons_self
      · exact List.mem_cons_of_mem _ (ih member)

/-- The tokens of a text without the end of input that closes them. -/
def lexemes (source : String) : List Token :=
  (Segment.place 1 (Segment.split source.toList)).filterMap PlacedSegment.token?

/-- The tokens of a text are its lexemes and the end of input on the last line. -/
theorem scan_tokens (source : String)
    : (scan source).tokens
        = lexemes source ++ [Token.endOfInput (1 + source.toList.count '\n')] :=
  rfl

/-- Every lexeme of a text is spelled as its kind is. -/
theorem lexemes_spelled (source : String)
    : ∀ token ∈ lexemes source, Spelled token.kind token.lexeme := by
  intro token member
  obtain ⟨placed, placedMember, found⟩ := List.mem_filterMap.1 member
  have spelled := Segment.splitFrom_wellSpelled 0 source.toList placed.segment
    (PlacedSegment.segment_mem placedMember)
  unfold PlacedSegment.token? at found
  split at found
  · next kind text segment =>
      obtain rfl := Option.some.inj found
      exact spelled kind text segment
  · cases found

end Lox
