import Lox.Proofs.Token.Lexicon

/-! The form of the texts that numbers have.

A finite number is written with a point or with an exponent. A program that prints a number drops a
final `.0`, which takes nothing from it: where there is neither a point nor an exponent, it was
dropped.
-/

namespace Lox.Number

open Segment (isWordChar)

-----
-- Digits

/-- Decimal digits are digits. -/
theorem isDigit_of_mem_toDigits {n : Nat} : ∀ c ∈ Nat.toDigits 10 n, isDigit c = true :=
  fun _ member => Nat.isDigit_of_mem_toDigits (by decide) (by decide) member

/-- Zeros are digits. -/
theorem isDigit_of_mem_zeros {count : Nat} : ∀ c ∈ zeros count, isDigit c = true := by
  intro c member
  obtain rfl := List.eq_of_mem_replicate member
  rfl

/-- Without its last zeros a number still has digits only. -/
theorem isDigit_of_mem_dropTrailingZeros {digits : List Char}
    (all : ∀ c ∈ digits, isDigit c = true)
    : ∀ c ∈ dropTrailingZeros digits, isDigit c = true := by
  intro c member
  unfold dropTrailingZeros at member
  refine all c (List.mem_reverse.1 ?_)
  exact (List.dropWhile_sublist _).mem (List.mem_reverse.1 member)

-----
-- Magnitudes

/-- A magnitude is written with a point among its digits, or with an exponent. -/
inductive Magnitude : List Char → Prop
  | positional {whole fraction} (some : whole ≠ [])
    (wholeDigits : ∀ c ∈ whole, isDigit c = true)
    (fractionDigits : ∀ c ∈ fraction, isDigit c = true)
    : Magnitude (whole ++ '.' :: fraction)
  | scientific {mantissa sign exponent} (signed : sign = '+' ∨ sign = '-')
    (some : exponent ≠ []) (mantissaDigits : ∀ c ∈ mantissa, isDigit c = true ∨ c = '.')
    (exponentDigits : ∀ c ∈ exponent, isDigit c = true)
    : Magnitude (mantissa ++ 'e' :: sign :: exponent)

/-- A magnitude can be told from a run of digits. -/
theorem Magnitude.marked {text : List Char} (form : Magnitude text) : '.' ∈ text ∨ 'e' ∈ text := by
  cases form <;> simp

/-- An exponent is a sign and digits. -/
theorem exponentText_form (exponent : Int)
    : ∃ sign digits,
        exponentText exponent = sign :: digits
        ∧ (sign = '+' ∨ sign = '-')
        ∧ digits ≠ []
        ∧ ∀ c ∈ digits, isDigit c = true := by
  refine ⟨_, _, rfl, ?_, ?_, fun c member => ?_⟩
  · split <;> simp
  · simp [Nat.toDigits_ne_nil]
  · rcases List.mem_append.1 member with member | member
    · exact isDigit_of_mem_zeros c member
    · exact isDigit_of_mem_toDigits c member

/-- Digits with a point placed in them are a magnitude. -/
theorem magnitude_placePoint {digits : List Char} (all : ∀ c ∈ digits, isDigit c = true)
    (leading : Int)
    : Magnitude (placePoint digits leading) := by
  have padded (count : Nat) : ∀ c ∈ digits ++ zeros count, isDigit c = true := fun c member =>
    (List.mem_append.1 member).elim (all c) (isDigit_of_mem_zeros c)
  unfold placePoint
  by_cases positional : positionalFrom ≤ leading ∧ leading < positionalBelow
  · rw [if_pos positional]
    by_cases small : leading < 0
    · rw [if_pos small]
      have fraction : ∀ c ∈ zeros (leading.natAbs - 1) ++ digits, isDigit c = true :=
        fun c member => (List.mem_append.1 member).elim (isDigit_of_mem_zeros c) (all c)
      exact .positional (List.cons_ne_nil '0' []) (List.forall_mem_singleton.2 rfl) fraction
    · rw [if_neg small]
      refine .positional ?_ (fun c member => padded _ c (List.mem_of_mem_take member))
        (fun c member => padded _ c (List.mem_of_mem_drop member))
      -- There is a digit for every place up to the point, and one more.
      have length : 0 < ((digits ++ zeros (leading.toNat + 1 + 1 - digits.length)).take
          (leading.toNat + 1)).length := by
        simp [zeros]
        omega
      exact List.length_pos_iff.1 length
  · rw [if_neg positional]
    obtain ⟨sign, exponent, split, signed, some, exponentDigits⟩ := exponentText_form leading
    simp only [split]
    refine .scientific signed some ?_ exponentDigits
    split
    · next first second rest =>
        intro c member
        simp only [List.mem_cons] at member
        rcases member with rfl | rfl | rfl | member
        · exact .inl (all c (by simp))
        · exact .inr rfl
        · exact .inl (all c (by simp))
        · exact .inl (all c (by simp [member]))
    · exact fun c member => .inl (all c member)

/-- A finite number is neither missing nor infinite. -/
theorem ordinary_of_isFinite {number : Float} (finite : number.isFinite = true)
    : number.isNaN = false ∧ number.isInf = false := by
  change number.toModel.unpack.isFinite = true at finite
  change number.toModel.unpack.isNaN = false ∧ number.toModel.unpack.isInf = false
  generalize number.toModel.unpack = unpacked at finite
  cases unpacked <;> first | exact ⟨rfl, rfl⟩ | cases finite

/-- A finite number is written as a magnitude, with a sign or without. -/
theorem text_form {number : Float} (finite : number.isFinite = true)
    : ∃ sign magnitude,
        (Number.text number).toList = sign ++ magnitude
        ∧ (sign = [] ∨ sign = ['-'])
        ∧ Magnitude magnitude := by
  obtain ⟨notNaN, notInf⟩ := ordinary_of_isFinite finite
  have magnitude : Magnitude (magnitudeText number) := by
    unfold magnitudeText
    split
    · have zero : ∀ c ∈ ['0'], isDigit c = true := List.forall_mem_singleton.2 rfl
      exact .positional (List.cons_ne_nil '0' []) zero zero
    · rw [notInf, if_neg Bool.false_ne_true]
      exact magnitude_placePoint (isDigit_of_mem_dropTrailingZeros isDigit_of_mem_toDigits) _
  unfold Number.text
  rw [notNaN, if_neg Bool.false_ne_true]
  split
  · exact ⟨['-'], _, String.toList_ofList, .inr rfl, magnitude⟩
  · exact ⟨[], _, String.toList_ofList, .inl rfl, magnitude⟩

/-- A number with nothing but a zero behind its point has no other point and no exponent. -/
theorem Magnitude.of_point_zero {front magnitude body : List Char} (form : Magnitude magnitude)
    (ends : front ++ magnitude = body ++ ['.', '0'])
    : ∃ whole, body = front ++ whole ∧ whole ≠ [] ∧ ∀ c ∈ whole, isDigit c = true := by
  -- What stands in front of a last digit is compared with what stands in front of the zero.
  have last {others : List Char} {c : Char} (same : others ++ [c] = body ++ ['.'] ++ ['0'])
      : others = body ++ ['.'] :=
    (List.append_inj' same rfl).1
  have point {others : List Char} {c : Char} (same : others ++ [c] = body ++ ['.']) : c = '.' :=
    List.singleton_inj.1 (List.append_inj' same rfl).2
  have notPoint {c : Char} (digit : isDigit c = true) : c ≠ '.' := by
    rintro rfl
    cases digit
  cases form with
  | @positional whole fraction some wholeDigits fractionDigits =>
      rcases List.eq_nil_or_concat fraction with rfl | ⟨init, c, rfl⟩
      · have same : front ++ whole ++ ['.'] = body ++ ['.'] ++ ['0'] := by simpa using ends
        have zero : '.' = '0' := List.singleton_inj.1 (List.append_inj' same rfl).2
        cases zero
      · have same : front ++ whole ++ '.' :: init ++ [c] = body ++ ['.'] ++ ['0'] := by
          simpa using ends
        rcases List.eq_nil_or_concat init with rfl | ⟨init, d, rfl⟩
        · exact ⟨whole, (List.append_inj' (last same) rfl).1.symm, some, wholeDigits⟩
        · have before : front ++ whole ++ '.' :: init ++ [d] = body ++ ['.'] := by
            simpa using last same
          exact absurd (point before) (notPoint (fractionDigits d (by simp)))
  | @scientific mantissa sign exponent signed some mantissaDigits exponentDigits =>
      obtain ⟨init, c, rfl⟩ := (List.eq_nil_or_concat exponent).resolve_left some
      have same : front ++ mantissa ++ 'e' :: sign :: init ++ [c] = body ++ ['.'] ++ ['0'] := by
        simpa using ends
      rcases List.eq_nil_or_concat init with rfl | ⟨init, d, rfl⟩
      · have before : front ++ mantissa ++ ['e'] ++ [sign] = body ++ ['.'] := by
          simpa using last same
        rcases signed with rfl | rfl <;> cases point before
      · have before : front ++ mantissa ++ 'e' :: sign :: init ++ [d] = body ++ ['.'] := by
          simpa using last same
        exact absurd (point before) (notPoint (exponentDigits d (by simp)))

end Lox.Number

namespace Lox

open Number (isDigit Magnitude)

/-- The final `.0` is dropped where there is one, and then no other point and no exponent is left.
-/
theorem numberText_form (number : Float)
    : (Number.text number).toList = (numberText number).toList ++ ['.', '0']
      ∨ (¬∃ body, (Number.text number).toList = body ++ ['.', '0'])
        ∧ numberText number = Number.text number := by
  unfold numberText
  simp only
  split
  · next ends =>
      refine .inl ?_
      have split := List.take_append_drop 2 (Number.text number).toList.reverse
      rw [ends] at split
      have same : (Number.text number).toList
          = ((Number.text number).toList.reverse.drop 2).reverse ++ ['.', '0'] := by
        simpa using (congrArg List.reverse split).symm
      generalize ((Number.text number).toList.reverse.drop 2).reverse = body at same
      simp [same]
  · next others =>
      refine .inr ⟨?_, String.ofList_toList⟩
      rintro ⟨body, split⟩
      rw [split] at others
      simp at others

/-- Numbers with different texts are printed differently. -/
theorem text_eq_of_numberText_eq {number other : Float} (finite : number.isFinite = true)
    (finite' : other.isFinite = true) (same : numberText number = numberText other)
    : Number.text number = Number.text other := by
  -- Where one number has dropped its point and the other has not, the texts differ.
  have apart {first second : Float} (finite : first.isFinite = true)
      (finite' : second.isFinite = true)
      (dropped : (Number.text first).toList = (numberText first).toList ++ ['.', '0'])
      (kept : numberText second = Number.text second) (same : numberText first = numberText second)
      : False := by
    obtain ⟨sign, magnitude, split, signed, form⟩ := Number.text_form finite
    obtain ⟨sign', magnitude', split', signed', form'⟩ := Number.text_form finite'
    obtain ⟨whole, body, -, digits⟩ := form.of_point_zero (split.symm.trans dropped)
    have texts : sign ++ whole = sign' ++ magnitude' := by rw [← body, same, kept, split']
    have marked : ∀ c ∈ magnitude', isDigit c = true ∨ c = '-' := by
      intro c member
      have listed : c ∈ sign ++ whole := texts ▸ List.mem_append_right _ member
      rcases List.mem_append.1 listed with member | member
      · rcases signed with rfl | rfl
        · exact absurd member List.not_mem_nil
        · exact .inr (List.mem_singleton.1 member)
      · exact .inl (digits c member)
    rcases form'.marked with point | exponent
    · exact absurd (marked _ point) (by decide)
    · exact absurd (marked _ exponent) (by decide)
  rcases numberText_form number with dropped | ⟨-, kept⟩
  · rcases numberText_form other with dropped' | ⟨-, kept'⟩
    · exact String.toList_inj.1 (by rw [dropped, dropped', same])
    · exact (apart finite finite' dropped kept' same).elim
  · rcases numberText_form other with dropped' | ⟨-, kept'⟩
    · exact (apart finite' finite dropped' kept same.symm).elim
    · rw [← kept, ← kept', same]

-----
-- Numbers among other words

/-- The word has a digit, is written with the characters of numbers, and is no name. -/
structure IsNumberWord (text : List Char) : Prop where
  digit : ∃ c ∈ text, isDigit c = true
  chars : ∀ c ∈ text, isDigit c = true ∨ c ∈ ['.', 'e', '+', '-']
  noName
    : ¬∃ letter rest,
        text = letter :: rest
        ∧ Segment.isLetter letter = true
        ∧ ∀ c ∈ rest, Segment.isWordChar c = true

namespace IsNumberWord

variable {sign text : List Char}

/-- A character that no name has keeps a word from being one. -/
theorem noName_of_mem {c : Char} (member : c ∈ text) (other : Segment.isWordChar c = false)
    : ¬∃ letter rest,
        text = letter :: rest
        ∧ Segment.isLetter letter = true
        ∧ ∀ c ∈ rest, Segment.isWordChar c = true := by
  rintro ⟨letter, rest, rfl, first, more⟩
  rcases List.mem_cons.1 member with rfl | member
  · simp [Segment.isWordChar, first] at other
  · rw [more c member] at other
    cases other

/-- A run of digits, with a sign or without. -/
theorem of_digits (signed : sign = [] ∨ sign = ['-']) {first : Char} {rest : List Char}
    (digit : isDigit first = true) (chars : ∀ c ∈ rest, isDigit c = true ∨ c ∈ ['.', 'e', '+', '-'])
    : IsNumberWord (sign ++ first :: rest) := by
  refine ⟨⟨first, by simp, digit⟩, fun c member => ?_, ?_⟩
  · rcases List.mem_append.1 member with member | member
    · rcases signed with rfl | rfl
      · exact absurd member List.not_mem_nil
      · exact .inr (by simp [List.mem_singleton.1 member])
    · rcases List.mem_cons.1 member with rfl | member
      · exact .inl digit
      · exact chars c member
  · rcases signed with rfl | rfl
    · rintro ⟨letter, others, split, isLetter, -⟩
      obtain ⟨rfl, -⟩ := List.cons.inj split
      rw [isDigit_of_isLetter isLetter] at digit
      cases digit
    · exact noName_of_mem (List.mem_cons_self) (by decide)

/-- A magnitude with a minus in front, or without, is a number. -/
theorem of_magnitude (signed : sign = [] ∨ sign = ['-']) {magnitude : List Char}
    (form : Magnitude magnitude)
    : IsNumberWord (sign ++ magnitude) := by
  cases form with
  | @positional whole fraction some wholeDigits fractionDigits =>
      obtain ⟨first, rest, rfl⟩ := List.exists_cons_of_ne_nil some
      refine of_digits signed (wholeDigits first List.mem_cons_self) fun c member => ?_
      rcases List.mem_append.1 member with member | member
      · exact .inl (wholeDigits c (List.mem_cons_of_mem _ member))
      · rcases List.mem_cons.1 member with rfl | member
        · exact .inr (by decide)
        · exact .inl (fractionDigits c member)
  | @scientific mantissa mark exponent marked some mantissaDigits exponentDigits =>
      obtain ⟨first, rest, rfl⟩ := List.exists_cons_of_ne_nil some
      refine ⟨⟨first, by simp, exponentDigits first List.mem_cons_self⟩, fun c member => ?_, ?_⟩
      · simp only [List.mem_append, List.mem_cons] at member
        rcases member with member | member | rfl | rfl | rfl | member
        · rcases signed with rfl | rfl
          · exact absurd member List.not_mem_nil
          · exact .inr (by simp [List.mem_singleton.1 member])
        · rcases mantissaDigits c member with digit | rfl
          · exact .inl digit
          · exact .inr (by decide)
        · exact .inr (by decide)
        · rcases marked with rfl | rfl <;> exact .inr (by decide)
        · exact .inl (exponentDigits c List.mem_cons_self)
        · exact .inl (exponentDigits c (List.mem_cons_of_mem _ member))
      · have listed : mark ∈ sign ++ (mantissa ++ 'e' :: mark :: first :: rest) := by simp
        rcases marked with rfl | rfl <;> exact noName_of_mem listed (by decide)

end IsNumberWord

/-- The text of a finite number is a number. -/
theorem isNumberWord_numberText {number : Float} (finite : number.isFinite = true)
    : IsNumberWord (numberText number).toList := by
  obtain ⟨sign, magnitude, split, signed, form⟩ := Number.text_form finite
  rcases numberText_form number with dropped | ⟨-, kept⟩
  · obtain ⟨whole, body, some, digits⟩ := form.of_point_zero (split.symm.trans dropped)
    obtain ⟨first, rest, rfl⟩ := List.exists_cons_of_ne_nil some
    rw [body]
    exact .of_digits signed (digits first List.mem_cons_self) fun c member =>
      .inl (digits c (List.mem_cons_of_mem _ member))
  · rw [kept, split]
    exact .of_magnitude signed form

end Lox
