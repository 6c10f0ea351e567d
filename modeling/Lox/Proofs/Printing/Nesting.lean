import Lox.Syntax.Listing

/-! Words inside parentheses can be read back.

A printed text is made of words, with single blanks between them and parentheses around some. If no
word holds a blank or a parenthesis, the text says how the words were nested.
-/

namespace Lox

-----
-- Words

/-- The character neither ends a word nor opens or closes parentheses. -/
def isPlain (c : Char) : Bool :=
  c != ' ' && c != '(' && c != ')'

structure IsPlainWord (text : String) : Prop where
  nonempty : text.toList ≠ []
  chars : ∀ c ∈ text.toList, isPlain c = true

/-- A word cannot go on with what comes. -/
def EndsWord (rest : List Char) : Prop :=
  ∀ c ∈ rest.head?, isPlain c = false

/-- The end of the text ends a word. -/
theorem endsWord_nil : EndsWord [] :=
  fun _ none => absurd none (Option.not_mem_none _)

/-- A parenthesis or a blank ends a word. -/
theorem endsWord_cons {c : Char} {rest : List Char} (other : isPlain c = false)
    : EndsWord (c :: rest) :=
  fun _ first => Option.some.inj first ▸ other

/-- No plain character stands where a word has ended. -/
theorem takeWhile_of_endsWord {rest : List Char} (ends : EndsWord rest)
    : rest.takeWhile isPlain = [] := by
  cases rest with
  | nil => rfl
  | cons c rest => simp [ends c rfl]

namespace IsPlainWord

variable {text other : String}

/-- The word is what stands in front of the next blank or parenthesis. -/
theorem takeWhile_append (plain : IsPlainWord text) {rest : List Char} (ends : EndsWord rest)
    : (text.toList ++ rest).takeWhile isPlain = text.toList := by
  rw [List.takeWhile_append_of_pos plain.chars, takeWhile_of_endsWord ends, List.append_nil]

/-- Where words end they can be told apart from what follows. -/
theorem append_inj (plain : IsPlainWord text) (plain' : IsPlainWord other) {rest rest' : List Char}
    (ends : EndsWord rest) (ends' : EndsWord rest')
    (same : text.toList ++ rest = other.toList ++ rest')
    : text = other ∧ rest = rest' := by
  have words : text.toList = other.toList := by
    rw [← plain.takeWhile_append ends, same, plain'.takeWhile_append ends']
  exact ⟨String.toList_inj.1 words, (List.append_inj same (congrArg List.length words)).2⟩

/-- A word starts with a character of its own. -/
theorem not_cons (plain : IsPlainWord text) {rest rest' : List Char} {c : Char}
    (mark : isPlain c = false)
    : text.toList ++ rest ≠ c :: rest' := by
  intro same
  obtain ⟨first, more, split⟩ := List.exists_cons_of_ne_nil plain.nonempty
  rw [split, List.cons_append] at same
  obtain ⟨rfl, -⟩ := List.cons.inj same
  have own := plain.chars first (by simp [split])
  rw [mark] at own
  cases own

end IsPlainWord

-----
-- Nested words

/-- A word, or others inside parentheses. -/
inductive Nest where
  | word (text : String)
  | list (parts : List Nest)

mutual
def Nest.text : Nest → String
  | .word text => text
  | .list parts => parenthesize (nestTexts parts)

def nestTexts : List Nest → List String
  | [] => []
  | part :: rest => part.text :: nestTexts rest
end

mutual
def Nest.Plain : Nest → Prop
  | .word text => IsPlainWord text
  | .list parts => NestsPlain parts

def NestsPlain : List Nest → Prop
  | [] => True
  | part :: rest => part.Plain ∧ NestsPlain rest
end

/-- The texts of nests are the text of each. -/
theorem nestTexts_eq_map (parts : List Nest) : nestTexts parts = parts.map Nest.text := by
  induction parts with
  | nil => rfl
  | cons part rest ih => simp [nestTexts, ih]

/-- Nests are plain if each of them is. -/
theorem nestsPlain_iff (parts : List Nest) : NestsPlain parts ↔ ∀ part ∈ parts, part.Plain := by
  induction parts with
  | nil => simp [NestsPlain]
  | cons part rest ih => simp [NestsPlain, ih]

-----
-- Characters

/-- Each further part stands behind a blank. -/
def furtherChars (parts : List Nest) : List Char :=
  parts.flatMap fun part => ' ' :: part.text.toList

/-- What stands between the parentheses. -/
def innerChars : List Nest → List Char
  | [] => []
  | part :: rest => part.text.toList ++ furtherChars rest

/-- The characters between the parentheses are those of the texts with blanks between them. -/
theorem toList_words_nestTexts (parts : List Nest)
    : (words (nestTexts parts)).toList = innerChars parts := by
  have further (rest : List Nest)
      : ∀ part : Nest,
          [' '].intercalate (part.text.toList :: rest.map fun other => other.text.toList)
            = part.text.toList ++ furtherChars rest := by
    induction rest with
    | nil => simp [furtherChars]
    | cons second rest ih =>
        intro part
        rw [List.map_cons, List.intercalate_cons_cons, ih second]
        simp [furtherChars]
  cases parts with
  | nil => rfl
  | cons part rest =>
      rw [innerChars, ← further rest part, words, String.toList_intercalate, nestTexts_eq_map]
      simp [Function.comp_def]

/-- The text of a list is what stands inside, between parentheses. -/
theorem Nest.toList_text_list (parts : List Nest)
    : (Nest.list parts).text.toList = '(' :: (innerChars parts ++ [')']) := by
  simp [Nest.text, parenthesize, toList_words_nestTexts]

-----
-- Reading back

/-- What follows a part is either a blank or the closing parenthesis. -/
theorem endsWord_furtherChars (parts : List Nest) (rest : List Char)
    : EndsWord (furtherChars parts ++ ')' :: rest) := by
  cases parts with
  | nil => exact endsWord_cons (by decide)
  | cons part others => exact endsWord_cons (by decide)

/-- No part starts with a blank or a closing parenthesis. -/
theorem Nest.not_cons {nest : Nest} (plain : nest.Plain) {rest rest' : List Char} {c : Char}
    (mark : isPlain c = false) (inside : c ≠ '(')
    : nest.text.toList ++ rest ≠ c :: rest' := by
  cases nest with
  | word text => exact IsPlainWord.not_cons plain mark
  | list parts =>
      intro same
      rw [Nest.toList_text_list] at same
      exact inside (List.cons.inj same).1.symm

mutual
/-- Where one part ends and what it is can be told from its text. -/
theorem Nest.text_append_inj
    : ∀ {nest other : Nest},
        nest.Plain
        → other.Plain
        → ∀ {rest rest' : List Char},
            EndsWord rest
            → EndsWord rest'
            → nest.text.toList ++ rest = other.text.toList ++ rest'
            → nest = other ∧ rest = rest'
  | .word _, .word _, plain, plain', _, _, ends, ends', same => by
      obtain ⟨rfl, rests⟩ := plain.append_inj plain' ends ends' same
      exact ⟨rfl, rests⟩
  | .word _, .list _, plain, _, _, _, _, _, same => by
      rw [Nest.toList_text_list] at same
      exact absurd same (plain.not_cons (by decide))
  | .list _, .word _, _, plain', _, _, _, _, same => by
      rw [Nest.toList_text_list] at same
      exact absurd same.symm (plain'.not_cons (by decide))
  | .list parts, .list others, plain, plain', _, _, _, _, same => by
      simp only [Nest.toList_text_list, List.cons_append, List.append_assoc, List.nil_append,
        List.cons.injEq, true_and] at same
      obtain ⟨rfl, rests⟩ := innerChars_inj plain plain' same
      exact ⟨rfl, rests⟩

/-- The nests between parentheses can be told from the text, by induction on them. -/
theorem innerChars_inj
    : ∀ {parts others : List Nest},
        NestsPlain parts
        → NestsPlain others
        → ∀ {rest rest' : List Char},
            innerChars parts ++ ')' :: rest = innerChars others ++ ')' :: rest'
            → parts = others ∧ rest = rest'
  | [], [], _, _, _, _, same => ⟨rfl, (List.cons.inj same).2⟩
  | [], other :: others, _, plain', _, _, same => by
      simp only [innerChars, List.append_assoc] at same
      exact absurd same.symm (Nest.not_cons plain'.1 (by decide) (by decide))
  | part :: parts, [], plain, _, _, _, same => by
      simp only [innerChars, List.append_assoc] at same
      exact absurd same (Nest.not_cons plain.1 (by decide) (by decide))
  | part :: parts, other :: others, plain, plain', rest, rest', same => by
      simp only [innerChars, List.append_assoc] at same
      obtain ⟨rfl, more⟩ :=
        Nest.text_append_inj plain.1 plain'.1 (endsWord_furtherChars parts rest)
          (endsWord_furtherChars others rest') same
      obtain ⟨rfl, rests⟩ := furtherChars_inj plain.2 plain'.2 more
      exact ⟨rfl, rests⟩

/-- Nests behind the first one can be told from the text. -/
theorem furtherChars_inj
    : ∀ {parts others : List Nest},
        NestsPlain parts
        → NestsPlain others
        → ∀ {rest rest' : List Char},
            furtherChars parts ++ ')' :: rest = furtherChars others ++ ')' :: rest'
            → parts = others ∧ rest = rest'
  | [], [], _, _, _, _, same => ⟨rfl, (List.cons.inj same).2⟩
  | [], other :: others, _, _, _, _, same => by
      cases (List.cons.inj same).1
  | part :: parts, [], _, _, _, _, same => by
      cases (List.cons.inj same).1
  | part :: parts, other :: others, plain, plain', rest, rest', same => by
      simp only [furtherChars, List.flatMap_cons, List.cons_append, List.append_assoc,
        List.cons.injEq, true_and] at same
      obtain ⟨rfl, more⟩ :=
        Nest.text_append_inj plain.1 plain'.1 (endsWord_furtherChars parts rest)
          (endsWord_furtherChars others rest') same
      obtain ⟨rfl, rests⟩ := furtherChars_inj plain.2 plain'.2 more
      exact ⟨rfl, rests⟩
end

/-- Nests with the same text are the same. -/
theorem Nest.text_inj {nest other : Nest} (plain : nest.Plain) (plain' : other.Plain)
    (same : nest.text = other.text)
    : nest = other := by
  have chars : nest.text.toList ++ [] = other.text.toList ++ [] := by rw [same]
  exact (Nest.text_append_inj plain plain' endsWord_nil endsWord_nil chars).1

/-- Words with blanks between them can be told apart: in parentheses they are a nest. -/
theorem words_inj {texts others : List String} (plain : ∀ text ∈ texts, IsPlainWord text)
    (plain' : ∀ text ∈ others, IsPlainWord text) (same : words texts = words others)
    : texts = others := by
  have nested (texts : List String)
      : (Nest.list (texts.map .word)).text = parenthesize texts := by
    simp [Nest.text, nestTexts_eq_map, Function.comp_def]
  have listed {texts : List String} (plain : ∀ text ∈ texts, IsPlainWord text)
      : (Nest.list (texts.map .word)).Plain := by
    unfold Nest.Plain
    simpa [nestsPlain_iff, Nest.Plain] using plain
  have nests : Nest.list (texts.map .word) = .list (others.map .word) := by
    refine Nest.text_inj (listed plain) (listed plain') ?_
    rw [nested, nested, parenthesize, parenthesize, same]
  exact (List.map_inj_right fun _ _ => Nest.word.inj).1 (Nest.list.inj nests)

end Lox
