import Lox.Proofs.Grammar.Language

/-! Contracts of rules: what a rule takes, and what it leaves as it was.

A rule never gives tokens back, never forgets a mistake, and leaves its context as it found it,
also when it unwinds. A rule that unwinds on a mistake has recorded one, so whoever ends without a
new mistake has seen only rules that succeeded.
-/

namespace Lox.Grammar

-----
-- Cursors

/-- The end of input stands behind all other tokens, and nowhere else. -/
def Ended (tokens : List Token) : Prop :=
  ∃ body last,
    tokens = body ++ [last]
    ∧ last.kind = .endOfInput
    ∧ ∀ token ∈ body, token.kind ≠ .endOfInput

namespace Ended

/-- A text that ends has at least the token that ends it. -/
theorem ne_nil {tokens : List Token} (ended : Ended tokens) : tokens ≠ [] := by
  obtain ⟨body, last, rfl, -⟩ := ended
  simp

/-- A text ends with its last token, which is the only one of its kind. -/
theorem snoc_iff {body : List Token} {last : Token}
    : Ended (body ++ [last])
      ↔ last.kind = .endOfInput ∧ ∀ token ∈ body, token.kind ≠ .endOfInput := by
  constructor
  · rintro ⟨others, final, split, kind, inside⟩
    obtain ⟨rfl, single⟩ := List.append_inj' split rfl
    obtain rfl : last = final := by simpa using single
    exact ⟨kind, inside⟩
  · rintro ⟨kind, inside⟩
    exact ⟨body, last, rfl, kind, inside⟩

/-- Tokens other than the end of input may stand in front. -/
theorem behind {front rest : List Token} (inside : ∀ token ∈ front, token.kind ≠ .endOfInput)
    (ended : Ended rest)
    : Ended (front ++ rest) := by
  obtain ⟨body, last, rfl, lastKind, bodyKinds⟩ := ended
  refine ⟨front ++ body, last, by simp, lastKind, fun token member => ?_⟩
  rcases List.mem_append.1 member with first | second
  · exact inside token first
  · exact bodyKinds token second

/-- What stands behind a token other than the end of input still ends. -/
theorem tail {token : Token} {rest : List Token} (ended : Ended (token :: rest))
    (inside : token.kind ≠ .endOfInput)
    : Ended rest := by
  obtain ⟨body, last, split, lastKind, bodyKinds⟩ := ended
  cases body with
  | nil =>
      obtain ⟨rfl, -⟩ : token = last ∧ rest = [] := by simpa using split
      exact absurd lastKind inside
  | cons first body =>
      obtain ⟨rfl, rfl⟩ : token = first ∧ rest = body ++ [last] := by simpa using split
      exact ⟨body, last, rfl, lastKind, fun token member => bodyKinds token (by simp [member])⟩

/-- Nothing stands behind the end of input. -/
theorem eq_singleton {token : Token} {rest : List Token} (ended : Ended (token :: rest))
    (atEnd : token.kind = .endOfInput)
    : rest = [] := by
  obtain ⟨body, last, split, -, bodyKinds⟩ := ended
  cases body with
  | nil => simpa using (List.cons.inj split).2
  | cons first body =>
      have same : token = first := (List.cons.inj split).1
      exact absurd (same ▸ atEnd) (bodyKinds first (by simp))

end Ended

/-- What every rule keeps on its way from one cursor to another. -/
structure Cursor.Leads (before after : Cursor) : Prop where
  ahead : after.ahead <:+ before.ahead
  ended : Ended before.ahead → Ended after.ahead
  errors : before.errors <+: after.errors
  loopDepth : after.loopDepth = before.loopDepth
  commaEnabled : after.commaEnabled = before.commaEnabled

namespace Cursor.Leads

/-- Every cursor leads to itself. -/
theorem refl (cursor : Cursor) : cursor.Leads cursor :=
  ⟨List.suffix_refl _, id, List.prefix_refl _, rfl, rfl⟩

/-- Cursors that lead on lead on to each other. -/
theorem trans {first second third : Cursor} (front : first.Leads second)
    (back : second.Leads third)
    : first.Leads third :=
  {
    ahead := back.ahead.trans front.ahead
    ended := back.ended ∘ front.ended
    errors := front.errors.trans back.errors
    loopDepth := back.loopDepth.trans front.loopDepth
    commaEnabled := back.commaEnabled.trans front.commaEnabled
  }

/-- Two stretches without a new mistake between their ends have none at all. -/
theorem errors_split {first second third : Cursor} (front : first.Leads second)
    (back : second.Leads third) (same : third.errors = first.errors)
    : second.errors = first.errors ∧ third.errors = second.errors := by
  have back' : second.errors <+: first.errors := same ▸ back.errors
  have equal := front.errors.eq_of_length_le back'.length_le
  exact ⟨equal.symm, same.trans equal⟩

end Cursor.Leads

-----
-- Contracts

/-- Without a new mistake the rule takes tokens that stand in the relation to what it yields and
to the cursor it leaves. -/
def Meets {α : Type} (rule : Rule α) (before : Cursor)
    (taken : List Token → α → Cursor → Prop)
    : Prop :=
  Ended before.ahead →
    match rule before with
    | .ok value after =>
        before.Leads after
        ∧ (after.errors = before.errors →
          ∃ tokens, before.ahead = tokens ++ after.ahead ∧ taken tokens value after)
    | .error unwinding after =>
        before.Leads after ∧ (unwinding = .mistake → after.errors ≠ before.errors)

namespace Meets

variable {α β : Type} {before : Cursor}

/-- A rule that meets a stronger contract meets a weaker one. -/
theorem weaken {rule : Rule α} {P Q : List Token → α → Cursor → Prop}
    (met : Meets rule before P)
    (implies : ∀ tokens value after, P tokens value after → Q tokens value after)
    : Meets rule before Q := by
  intro ended
  have result := met ended
  revert result
  cases rule before with
  | error unwinding after => exact id
  | ok value after =>
      rintro ⟨leads, taken⟩
      refine ⟨leads, fun clean => ?_⟩
      obtain ⟨tokens, split, holds⟩ := taken clean
      exact ⟨tokens, split, implies _ _ _ holds⟩

/-- A contract only has to be met in front of a text that ends. -/
theorem of_ended {rule : Rule α} {P : List Token → α → Cursor → Prop}
    (met : Ended before.ahead → Meets rule before P)
    : Meets rule before P :=
  fun ended => met ended ended

/-- A value alone meets what holds of it without any token. -/
theorem pure_of {value : α} {P : List Token → α → Cursor → Prop} (holds : P [] value before)
    : Meets (Pure.pure value) before P :=
  fun _ => ⟨.refl _, fun _ => ⟨[], rfl, holds⟩⟩

/-- There is always a token ahead, so a loop that may go on for as many rounds as there are tokens
ahead does not end for lack of rounds. -/
theorem pure_of_no_rounds {value : α} {P : List Token → α → Cursor → Prop}
    : Meets (Pure.pure value) before
        (fun tokens result after =>
          before.ahead.length ≤ ([] : List Token).length → P tokens result after) := by
  refine .of_ended fun ended => .pure_of fun enough => ?_
  exact absurd (List.length_eq_zero_iff.1 (Nat.le_zero.1 enough)) ended.ne_nil

/-- One rule behind another takes the tokens of both. What the first one took is known wherever
the second one succeeds. -/
theorem bind {rule : Rule α} {next : α → Rule β} {P : List Token → α → Cursor → Prop}
    {R : List Token → β → Cursor → Prop}
    (first : Meets rule before P)
    (second
      : ∀ value between,
          before.Leads between
          → Meets (next value) between
              (fun others result after =>
                ∀ tokens,
                  before.ahead = tokens ++ between.ahead
                  → P tokens value between
                  → R (tokens ++ others) result after))
    : Meets (rule >>= next) before R := by
  intro ended
  have front := first ended
  change match EStateM.bind rule next before with
    | .ok value after => _
    | .error unwinding after => _
  unfold EStateM.bind
  revert front
  cases rule before with
  | error unwinding after => exact id
  | ok value between =>
      rintro ⟨toBetween, taken⟩
      have back := second value between toBetween (toBetween.ended ended)
      revert back
      simp only
      cases next value between with
      | error unwinding after =>
          rintro ⟨fromBetween, recorded⟩
          refine ⟨toBetween.trans fromBetween, fun mistake clean => recorded mistake ?_⟩
          exact (toBetween.errors_split fromBetween clean).2
      | ok result after =>
          rintro ⟨fromBetween, others⟩
          refine ⟨toBetween.trans fromBetween, fun clean => ?_⟩
          obtain ⟨cleanFront, cleanBack⟩ := toBetween.errors_split fromBetween clean
          obtain ⟨front, frontSplit, frontHolds⟩ := taken cleanFront
          obtain ⟨back, backSplit, backHolds⟩ := others cleanBack
          refine ⟨front ++ back, ?_, backHolds front frontSplit frontHolds⟩
          rw [frontSplit, backSplit, List.append_assoc]

/-- A rule whose result is not needed further changes only what it yields. -/
theorem map {rule : Rule α} {P : List Token → α → Cursor → Prop}
    {R : List Token → β → Cursor → Prop} (f : α → β) (met : Meets rule before P)
    (mapped : ∀ tokens value after, P tokens value after → R tokens (f value) after)
    : Meets (f <$> rule) before R := by
  intro ended
  have result := met ended
  change match EStateM.map f rule before with
    | .ok value after => _
    | .error unwinding after => _
  unfold EStateM.map
  revert result
  cases rule before with
  | error unwinding after => exact id
  | ok value after =>
      rintro ⟨leads, taken⟩
      refine ⟨leads, fun clean => ?_⟩
      obtain ⟨tokens, split, holds⟩ := taken clean
      exact ⟨tokens, split, mapped _ _ _ holds⟩

/-- Looking at the cursor takes nothing. -/
theorem get {next : Cursor → Rule α} {P : List Token → α → Cursor → Prop}
    (met : Meets (next before) before P)
    : Meets (MonadState.get >>= next) before P :=
  met

/-- Looking at the kind of the token ahead takes nothing. -/
theorem nextIs {kind : TokenKind} {next : Bool → Rule α} {P : List Token → α → Cursor → Prop}
    (met : Meets (next (before.nextIsAny [kind])) before P)
    : Meets (Grammar.nextIs kind >>= next) before P :=
  met

/-- Looking at the token ahead takes nothing. -/
theorem next {next : Token → Rule α} {P : List Token → α → Cursor → Prop}
    (met : Meets (next before.next) before P)
    : Meets (Grammar.next >>= next) before P :=
  met

/-- Giving up for lack of nesting records nothing. -/
theorem throwTooDeep {P : List Token → α → Cursor → Prop}
    : Meets (throw .tooDeep) before P :=
  fun _ => ⟨.refl _, fun mistake => nomatch mistake⟩

end Meets

/-- A report leads on, since errors are only added. -/
theorem Cursor.leads_report (cursor : Cursor) (token : Token) (problem : Problem)
    : cursor.Leads (cursor.report token problem) :=
  ⟨List.suffix_refl _, id, List.prefix_append _ _, rfl, rfl⟩

/-- A report is an error more. -/
theorem Cursor.report_errors_ne (cursor : Cursor) (token : Token) (problem : Problem)
    : (cursor.report token problem).errors ≠ cursor.errors := by
  simp [Cursor.report]

/-- A rule that has reported something meets every contract. -/
theorem Meets.report {before : Cursor} {P : List Token → Unit → Cursor → Prop}
    (token : Token) (problem : Problem)
    : Meets (Grammar.report token problem) before P :=
  fun _ =>
    ⟨before.leads_report token problem,
      fun clean => absurd clean (before.report_errors_ne token problem)⟩

/-- A mistake meets every contract, since it yields no value. -/
theorem Meets.fail {α : Type} {before : Cursor} {P : List Token → α → Cursor → Prop}
    (token : Token) (problem : Problem)
    : Meets (Grammar.fail token problem) before P :=
  fun _ =>
    ⟨before.leads_report token problem, fun _ => before.report_errors_ne token problem⟩

/-- Where nothing is reported there was room for one more argument. -/
theorem meets_checkRoom (earlier : Nat) (problem : Problem) (before : Cursor)
    : Meets (checkRoom earlier problem) before
        (fun tokens _ after => tokens = [] ∧ after = before ∧ earlier < maxArguments) := by
  unfold checkRoom
  split
  · exact .next (.report _ _)
  · next room => exact .pure_of ⟨rfl, rfl, Nat.lt_of_not_le room⟩

/-- Where nothing is reported there are few enough parameters. -/
theorem meets_checkNames (arrow : Token) (names : List Token) (before : Cursor)
    : Meets (checkNames arrow names) before
        (fun tokens _ after => tokens = [] ∧ after = before ∧ names.length ≤ maxArguments) := by
  unfold checkNames
  split
  · exact .report _ _
  · next few => exact .pure_of ⟨rfl, rfl, Nat.le_of_not_lt few⟩

-----
-- Taking tokens

/-- A cursor leads on behind the next token, unless that one ends the text. -/
theorem Cursor.leads_drop (cursor : Cursor) (ended : Ended cursor.ahead)
    : cursor.Leads cursor.drop := by
  unfold Cursor.drop
  split
  · exact .refl _
  · next inside =>
      refine ⟨List.tail_suffix _, fun _ => ?_, List.prefix_refl _, rfl, rfl⟩
      cases found : cursor.ahead with
      | nil => exact absurd found ended.ne_nil
      | cons token rest =>
          rw [found] at ended
          refine ended.tail ?_
          simpa [Cursor.atEnd, Cursor.next, found] using inside

/-- Skipping tokens leaves the rest of the text. -/
theorem skipFrom_suffix (previous : Token) (tokens : List Token)
    : skipFrom previous tokens <:+ tokens := by
  induction tokens generalizing previous with
  | nil => exact List.suffix_refl _
  | cons token rest ih =>
      unfold skipFrom
      split
      · exact List.suffix_refl _
      · exact (ih token).trans (List.suffix_cons _ _)

/-- Without the end of input ahead there is a token to take. -/
theorem Cursor.ahead_eq_next_cons (cursor : Cursor) (ended : Ended cursor.ahead)
    (inside : cursor.next.kind ≠ .endOfInput)
    : cursor.ahead = cursor.next :: cursor.drop.ahead := by
  cases found : cursor.ahead with
  | nil => exact absurd found ended.ne_nil
  | cons token rest =>
      have notEnd : cursor.atEnd = false := by simpa [Cursor.atEnd] using inside
      simp [Cursor.drop, notEnd, Cursor.next, found]

/-- At the end nothing else stands ahead. -/
theorem Cursor.ahead_atEnd (cursor : Cursor) (ended : Ended cursor.ahead)
    (atEnd : cursor.atEnd = true)
    : cursor.ahead = [cursor.next] := by
  cases found : cursor.ahead with
  | nil => exact absurd found ended.ne_nil
  | cons token rest =>
      rw [found] at ended
      have kind : token.kind = .endOfInput := by
        simpa [Cursor.atEnd, Cursor.next, found] using atEnd
      simp [ended.eq_singleton kind, Cursor.next, found]

/-- Where nothing was taken the same token stands ahead. -/
theorem Cursor.next_eq_of_ahead {before after : Cursor} (split : before.ahead = [] ++ after.ahead)
    : before.next = after.next := by
  rw [List.nil_append] at split
  rw [Cursor.next, Cursor.next, split]

/-- At the end no other token stands ahead. -/
theorem Cursor.no_token_atEnd {before : Cursor} {token : Token} {rest : List Token}
    {kind : TokenKind} (atEnd : before.atEnd = true) (split : before.ahead = token :: rest)
    (inside : kind ≠ .endOfInput)
    : token.kind ≠ kind := by
  have same : before.next = token := by simp [Cursor.next, split]
  rintro rfl
  simp [Cursor.atEnd, same, inside] at atEnd

/-- Outcome of trying to take a token of one of some kinds. -/
def TriedAny (kinds : List TokenKind)
    : List Token → Option Token → Cursor → Prop
  | tokens, some token, _ => tokens = [token] ∧ token.kind ∈ kinds
  | tokens, none, after => tokens = [] ∧ after.next.kind ∉ kinds

/-- A token of some kinds is taken, or the next one is of none of them. -/
theorem meets_acceptAny? (kinds : List TokenKind) (before : Cursor)
    (proper : .endOfInput ∉ kinds)
    : Meets (acceptAny? kinds) before (TriedAny kinds) := by
  intro ended
  unfold acceptAny?
  by_cases taken : before.nextIsAny kinds
  · have found : before.next.kind ∈ kinds := by
      have both : before.atEnd = false ∧ before.next.kind ∈ kinds := by
        simpa [Cursor.nextIsAny] using taken
      exact both.2
    have inside : before.next.kind ≠ .endOfInput := fun atEnd => proper (atEnd ▸ found)
    simp only [taken, ↓reduceIte]
    exact ⟨before.leads_drop ended, fun _ =>
      ⟨[before.next], before.ahead_eq_next_cons ended inside, rfl, found⟩⟩
  · simp only [taken]
    refine ⟨.refl _, fun _ => ⟨[], rfl, rfl, fun found => taken ?_⟩⟩
    have inside : before.next.kind ≠ .endOfInput := fun atEnd => proper (atEnd ▸ found)
    simp [Cursor.nextIsAny, Cursor.atEnd, inside, found]

/-- Outcome of trying to take a token of one kind. -/
def Tried (kind : TokenKind) : List Token → Option Token → Cursor → Prop
  | tokens, some token, _ => tokens = [token] ∧ token.kind = kind
  | tokens, none, after => tokens = [] ∧ after.next.kind ≠ kind

/-- A token of one kind is taken, or the next one is of another. -/
theorem meets_accept? (kind : TokenKind) (before : Cursor) (proper : kind ≠ .endOfInput)
    : Meets (accept? kind) before (Tried kind) := by
  refine (meets_acceptAny? [kind] before (by simpa using proper.symm)).weaken ?_
  intro tokens result after tried
  cases result <;> simpa [Tried, TriedAny] using tried

/-- Outcome of trying to take a token of one kind that is not needed further. -/
def Accepted (kind : TokenKind) : List Token → Bool → Cursor → Prop
  | tokens, true, _ => ∃ token, tokens = [token] ∧ token.kind = kind
  | tokens, false, after => tokens = [] ∧ after.next.kind ≠ kind

/-- The answer is whether the next token was of the kind and taken. -/
theorem meets_accept (kind : TokenKind) (before : Cursor) (proper : kind ≠ .endOfInput)
    : Meets (accept kind) before (Accepted kind) := by
  refine (meets_accept? kind before proper).bind fun result between _ => .pure_of ?_
  intro tokens _ tried
  rw [List.append_nil]
  cases result with
  | none => exact tried
  | some token => exact ⟨token, tried⟩

/-- Outcome of taking a token that has to be there. -/
def Expects (kind : TokenKind) (tokens : List Token) (token : Token) (_ : Cursor) : Prop :=
  tokens = [token] ∧ token.kind = kind

/-- A token that has to be there was there. -/
theorem meets_expect (kind : TokenKind) (item : Expected) (before : Cursor)
    (proper : kind ≠ .endOfInput)
    : Meets (expect kind item) before (Expects kind) := by
  refine (meets_accept? kind before proper).bind fun result between _ => ?_
  cases result with
  | none => exact .next (.fail _ _)
  | some token =>
      refine .pure_of fun tokens _ tried => ?_
      rw [List.append_nil]
      exact tried

/-- Taking the token ahead whatever it is, which is not the end of input. -/
theorem meets_drop (before : Cursor) (inside : before.next.kind ≠ .endOfInput)
    : Meets (modify Cursor.drop) before
        (fun tokens _ _ => tokens = [before.next]) :=
  fun ended =>
    ⟨before.leads_drop ended, fun _ =>
      ⟨[before.next], before.ahead_eq_next_cons ended inside, rfl⟩⟩

-----
-- Context

/-- Behind a rule that leaves the context as it found it, the change to the context is taken back
and nothing else is touched. -/
def TakesBack (enter : Cursor → Cursor) (leave : Cursor → Cursor → Cursor) : Prop :=
  ∀ before after : Cursor,
    after.loopDepth = (enter before).loopDepth
    → after.commaEnabled = (enter before).commaEnabled
    → leave before after
      = { after with loopDepth := before.loopDepth, commaEnabled := before.commaEnabled }

/-- The comma operator is switched back to what it was. -/
theorem takesBack_withComma (enabled : Bool)
    : TakesBack (fun cursor => { cursor with commaEnabled := enabled })
        (fun before after => { after with commaEnabled := before.commaEnabled }) := by
  rintro before ⟨ahead, errors, loopDepth, commaEnabled⟩ rfl -
  rfl

/-- The loops around a function are counted again behind it. -/
theorem takesBack_outsideLoops
    : TakesBack (fun cursor => { cursor with loopDepth := 0 })
        (fun before after => { after with loopDepth := before.loopDepth }) := by
  rintro before ⟨ahead, errors, loopDepth, commaEnabled⟩ - rfl
  rfl

/-- The loop that was entered is left again. -/
theorem takesBack_insideLoop
    : TakesBack (fun cursor => { cursor with loopDepth := cursor.loopDepth + 1 })
        (fun _ after => { after with loopDepth := after.loopDepth - 1 }) := by
  rintro before ⟨ahead, errors, loopDepth, commaEnabled⟩ rfl rfl
  rfl

/-- What a rule may take in a changed context, it may take with the change taken back. -/
theorem meets_inContext {α : Type} {enter : Cursor → Cursor} {leave : Cursor → Cursor → Cursor}
    {rule : Rule α} {before : Cursor} {P : List Token → α → Cursor → Prop}
    {Q : List Token → α → Cursor → Prop} (back : TakesBack enter leave)
    (sameAhead : (enter before).ahead = before.ahead)
    (sameErrors : (enter before).errors = before.errors)
    (met : Meets rule (enter before) P)
    (restored
      : ∀ tokens value after,
          P tokens value after
          → Q tokens value
              { after with
                loopDepth := before.loopDepth, commaEnabled := before.commaEnabled })
    : Meets (inContext enter leave rule) before Q := by
  intro ended
  have result := met (sameAhead ▸ ended)
  unfold inContext
  revert result
  cases rule (enter before) with
  | error unwinding after =>
      rintro ⟨leads, recorded⟩
      simp only [back before after leads.loopDepth leads.commaEnabled]
      exact ⟨⟨sameAhead ▸ leads.ahead, fun _ => leads.ended (sameAhead ▸ ended),
        sameErrors ▸ leads.errors, rfl, rfl⟩, fun mistake => sameErrors ▸ recorded mistake⟩
  | ok value after =>
      rintro ⟨leads, taken⟩
      simp only [back before after leads.loopDepth leads.commaEnabled]
      refine ⟨⟨sameAhead ▸ leads.ahead, fun _ => leads.ended (sameAhead ▸ ended),
        sameErrors ▸ leads.errors, rfl, rfl⟩, fun clean => ?_⟩
      obtain ⟨tokens, split, holds⟩ := taken (clean.trans sameErrors.symm)
      exact ⟨tokens, sameAhead ▸ split, restored _ _ _ holds⟩

end Lox.Grammar
