import Lox.Proofs.Grammar.Contracts
import Lox.Proofs.Grammar.Following
import Lox.Proofs.Grammar.Reading

/-! Two runs of one rule beside each other.

A pairing says which two cursors count as alike. Two rules run alike if from such cursors they
both yield the same value or both unwind for the same reason, have taken the same tokens, and come
to cursors that are alike again. A rule compared with itself at one cursor tells what it does to
that cursor.
-/

namespace Lox.Grammar

-----
-- Stretches

/-- A stretch of tokens is not empty, and its last token is as told. -/
def Ends (ends : TokenKind → Prop) (tokens : List Token) : Prop :=
  ∃ front last, tokens = front ++ [last] ∧ ends last.kind

/-- More tokens in front leave the end as it is. -/
theorem Ends.append {ends : TokenKind → Prop} {tokens : List Token} (ended : Ends ends tokens)
    (front : List Token)
    : Ends ends (front ++ tokens) := by
  obtain ⟨others, last, rfl, holds⟩ := ended
  exact ⟨front ++ others, last, by simp, holds⟩

/-- One more token in front leaves the end as it is. -/
theorem Ends.cons {ends : TokenKind → Prop} {tokens : List Token} (ended : Ends ends tokens)
    (first : Token)
    : Ends ends (first :: tokens) :=
  ended.append [first]

/-- What a stronger condition allows at the end a weaker one allows too. -/
theorem Ends.imp {P Q : TokenKind → Prop} {tokens : List Token} (ended : Ends P tokens)
    (implies : ∀ kind, P kind → Q kind)
    : Ends Q tokens := by
  obtain ⟨front, last, rfl, holds⟩ := ended
  exact ⟨front, last, rfl, implies _ holds⟩

/-- A single token is the end of itself. -/
theorem Ends.singleton {ends : TokenKind → Prop} {token : Token} (holds : ends token.kind)
    : Ends ends [token] :=
  ⟨[], token, rfl, holds⟩

/-- Where something starts there is a token. -/
theorem Starts.ne_nil {starts : TokenKind → Prop} {tokens : List Token}
    (started : Starts starts tokens)
    : tokens ≠ [] := by
  obtain ⟨first, rest, rfl, -⟩ := started
  simp

/-- The tokens lie between the two places. No mistake was forgotten on the way, and the context is
what it was. -/
structure Cursor.Passes (before : Cursor) (tokens : List Token) (after : Cursor) : Prop where
  ahead : before.ahead = tokens ++ after.ahead
  errors : before.errors <+: after.errors
  loopDepth : after.loopDepth = before.loopDepth
  commaEnabled : after.commaEnabled = before.commaEnabled

namespace Cursor.Passes

variable {before between after : Cursor} {tokens others : List Token}

/-- Every cursor passes nothing and stays. -/
theorem refl (cursor : Cursor) : cursor.Passes [] cursor :=
  ⟨rfl, List.prefix_refl _, rfl, rfl⟩

/-- What is passed in two goes is passed in one. -/
theorem append (front : before.Passes tokens between) (back : between.Passes others after)
    : before.Passes (tokens ++ others) after :=
  {
    ahead := by rw [front.ahead, back.ahead, List.append_assoc]
    errors := front.errors.trans back.errors
    loopDepth := back.loopDepth.trans front.loopDepth
    commaEnabled := back.commaEnabled.trans front.commaEnabled
  }

/-- Passed tokens are missing ahead, each of them once. -/
theorem length (passes : before.Passes tokens after)
    : before.ahead.length = tokens.length + after.ahead.length := by
  rw [passes.ahead, List.length_append]

/-- What was recorded before the stretch is missing from the mistakes behind it only if nothing
was recorded in front. -/
theorem errors_ne (front : before.Passes tokens between) (back : between.Passes others after)
    (recorded : after.errors ≠ between.errors)
    : after.errors ≠ before.errors := by
  intro same
  have shorter : after.errors <+: between.errors := same ▸ front.errors
  exact recorded (shorter.eq_of_length_le back.errors.length_le)

/-- A cursor only passes tokens of the text in front of its end. -/
theorem leads (passes : before.Passes tokens after) (ended : Ended after.ahead)
    : before.Leads after :=
  {
    ahead := ⟨tokens, passes.ahead.symm⟩
    ended := fun _ => ended
    errors := passes.errors
    loopDepth := passes.loopDepth
    commaEnabled := passes.commaEnabled
  }

/-- A report passes no token. -/
theorem report (cursor : Cursor) (token : Token) (problem : Problem)
    : cursor.Passes [] (cursor.report token problem) :=
  ⟨rfl, List.prefix_append _ _, rfl, rfl⟩

/-- Dropping a token other than the end passes that token. -/
theorem drop (ended : Ended before.ahead) (inside : before.next.kind ≠ .endOfInput)
    : before.Passes [before.next] before.drop := by
  have dropped := before.leads_drop ended
  exact {
    ahead := before.ahead_eq_next_cons ended inside
    errors := dropped.errors
    loopDepth := dropped.loopDepth
    commaEnabled := dropped.commaEnabled
  }

end Cursor.Passes

-----
-- Pairings

/-- Which cursors count as alike, and for which reasons rules may unwind. -/
structure Pairing where
  related : Cursor → Cursor → Prop
  unwinds : Unwinding → Prop
  mistaken : unwinds .mistake
  ended : ∀ {before before'}, related before before' → Ended before.ahead ∧ Ended before'.ahead
  next : ∀ {before before'}, related before before' → before'.next = before.next
  loopDepth : ∀ {before before'}, related before before' → before'.loopDepth = before.loopDepth
  commaEnabled
    : ∀ {before before'}, related before before' → before'.commaEnabled = before.commaEnabled
  /-- Cursors stay alike in any context that is brought in for both. -/
  moved
    : ∀ {before before'} (loopDepth : Nat) (commaEnabled : Bool),
        related before before'
        → related { before with loopDepth, commaEnabled } { before' with loopDepth, commaEnabled }
  reported
    : ∀ {before before'} (token : Token) (problem : Problem),
        (problem = .tooMuchNesting → unwinds .tooDeep)
        → related before before'
        → related (before.report token problem) (before'.report token problem)
  /-- Inside a statement cursors stay alike whatever token is taken from both. -/
  dropped
    : ∀ {before before'},
        related before before'
        → before.next.kind ≠ .endOfInput
        → before.next.kind ≠ .semicolon
        → related before.drop before'.drop

namespace Pairing

variable {α β : Type} {pairing : Pairing} {before before' : Cursor}

/-- Both runs have come over the same tokens to cursors that are alike. -/
structure Step (pairing : Pairing) (before before' : Cursor) (tokens : List Token)
    (after after' : Cursor)
    : Prop where
  related : pairing.related after after'
  passes : before.Passes tokens after
  passes' : before'.Passes tokens after'

namespace Step

variable {between between' after after' : Cursor} {tokens others : List Token}

/-- Two related cursors step over nothing and stay related. -/
theorem refl (related : pairing.related before before')
    : pairing.Step before before' [] before before' :=
  ⟨related, .refl _, .refl _⟩

/-- Two steps in a row are a step over the tokens of both. -/
theorem append (front : pairing.Step before before' tokens between between')
    (back : pairing.Step between between' others after after')
    : pairing.Step before before' (tokens ++ others) after after' :=
  ⟨back.related, front.passes.append back.passes, front.passes'.append back.passes'⟩

end Step

/-- How two runs that are alike come out. -/
inductive Outcome (pairing : Pairing) (before before' : Cursor)
    (taken : List Token → α → Cursor → Prop)
    : EStateM.Result Unwinding Cursor α → EStateM.Result Unwinding Cursor α → Prop
  | ok {value tokens after after'} (step : pairing.Step before before' tokens after after')
    (holds : taken tokens value after)
    : Outcome pairing before before' taken (.ok value after) (.ok value after')
  | error {unwinding tokens after after'} (step : pairing.Step before before' tokens after after')
    (unwinds : pairing.unwinds unwinding)
    (recorded : unwinding = .mistake → after.errors ≠ before.errors)
    : Outcome pairing before before' taken (.error unwinding after) (.error unwinding after')

/-- From cursors that are alike the two rules come out alike. What they take stands in the
relation to what they yield. -/
def Alike (pairing : Pairing) (rule rule' : Rule α) (before before' : Cursor)
    (taken : List Token → α → Cursor → Prop)
    : Prop :=
  pairing.related before before'
  → pairing.Outcome before before' taken (rule before) (rule' before')

namespace Alike

variable {rule rule' : Rule α} {P : List Token → α → Cursor → Prop}

/-- Rules only have to be alike at related cursors. -/
theorem of_related
    (alike : pairing.related before before' → pairing.Alike rule rule' before before' P)
    : pairing.Alike rule rule' before before' P :=
  fun related => alike related related

/-- Rules alike with a stronger result are alike with a weaker one. -/
theorem weaken {Q : List Token → α → Cursor → Prop}
    (alike : pairing.Alike rule rule' before before' P)
    (implies : ∀ tokens value after, P tokens value after → Q tokens value after)
    : pairing.Alike rule rule' before before' Q := by
  intro related
  have result := alike related
  revert result
  cases rule before <;> cases rule' before' <;> rintro (⟨step, holds⟩ | ⟨step, unwinds, recorded⟩)
  · exact .ok step (implies _ _ _ holds)
  · exact .error step unwinds recorded

/-- The same value on both sides is alike where it has the property asked for. -/
theorem pure_of {value : α} (holds : P [] value before)
    : pairing.Alike (Pure.pure value) (Pure.pure value) before before' P :=
  fun related => .ok (.refl related) holds

/-- Behind rules that run alike, rules that run alike do so as a whole. -/
theorem bind {next next' : α → Rule β} {R : List Token → β → Cursor → Prop}
    (first : pairing.Alike rule rule' before before' P)
    (second
      : ∀ {tokens between between'} value,
          pairing.Step before before' tokens between between'
          → P tokens value between
          → pairing.Alike (next value) (next' value) between between'
              fun others result after => R (tokens ++ others) result after)
    : pairing.Alike (rule >>= next) (rule' >>= next') before before' R := by
  intro related
  have front := first related
  change pairing.Outcome before before' R (EStateM.bind rule next before)
    (EStateM.bind rule' next' before')
  unfold EStateM.bind
  revert front
  cases rule before <;> cases rule' before' <;> rintro (⟨step, holds⟩ | ⟨step, unwinds, recorded⟩)
  · next value between between' tokens =>
      have back := second value step holds step.related
      revert back
      simp only
      cases next value between <;> cases next' value between' <;>
        rintro (⟨beyond, taken⟩ | ⟨beyond, unwinds, recorded⟩)
      · exact .ok (step.append beyond) taken
      · refine .error (step.append beyond) unwinds fun mistake => ?_
        exact step.passes.errors_ne beyond.passes (recorded mistake)
  · exact .error step unwinds recorded

/-- Changing the value in the same way on both sides leaves rules alike. -/
theorem map {R : List Token → β → Cursor → Prop} (f : α → β)
    (alike : pairing.Alike rule rule' before before' P)
    (mapped : ∀ tokens value after, P tokens value after → R tokens (f value) after)
    : pairing.Alike (f <$> rule) (f <$> rule') before before' R := by
  intro related
  have result := alike related
  change pairing.Outcome before before' R (EStateM.map f rule before) (EStateM.map f rule' before')
  unfold EStateM.map
  revert result
  cases rule before <;> cases rule' before' <;> rintro (⟨step, holds⟩ | ⟨step, unwinds, recorded⟩)
  · exact .ok step (mapped _ _ _ holds)
  · exact .error step unwinds recorded

/-- Looking at the whole cursor is alike where what follows is. -/
theorem get {next next' : Cursor → Rule α}
    (alike : pairing.Alike (next before) (next' before') before before' P)
    : pairing.Alike (MonadState.get >>= next) (MonadState.get >>= next') before before' P :=
  alike

/-- Looking at the next token is alike where what follows is. -/
theorem next {next next' : Token → Rule α}
    (alike : pairing.Alike (next before.next) (next' before.next) before before' P)
    : pairing.Alike (Grammar.next >>= next) (Grammar.next >>= next') before before' P := by
  intro related
  have result := alike related
  rw [← pairing.next related] at result
  change pairing.Outcome before before' P (next before.next before) (next' before'.next before')
  rw [← pairing.next related]
  exact result

/-- Asking for the kind of the next token is alike where both answers are. -/
theorem nextIs {kind : TokenKind} {next next' : Bool → Rule α}
    (alike
      : ∀ found,
          before.nextIsAny [kind] = found
          → pairing.Alike (next found) (next' found) before before' P)
    : pairing.Alike (Grammar.nextIs kind >>= next) (Grammar.nextIs kind >>= next')
        before before' P := by
  intro related
  have same : before'.nextIsAny [kind] = before.nextIsAny [kind] := by
    simp [Cursor.nextIsAny, Cursor.atEnd, pairing.next related]
  have result := alike _ rfl related
  change pairing.Outcome before before' P (next (before.nextIsAny [kind]) before)
    (next' (before'.nextIsAny [kind]) before')
  rwa [same]

/-- There is always a token ahead, so a loop that may go on for as many rounds as there are tokens
ahead does not end for lack of rounds. -/
theorem no_rounds (enough : before.ahead.length ≤ ([] : List Token).length)
    : pairing.Alike rule rule' before before' P := by
  intro related
  exact absurd (List.length_eq_zero_iff.1 (Nat.le_zero.1 enough)) (pairing.ended related).1.ne_nil

/-- Without tokens ahead no round is left, since at least the end of the text stands there. -/
theorem no_rounds' (enough : before'.ahead.length ≤ ([] : List Token).length)
    : pairing.Alike rule rule' before before' P := by
  intro related
  exact absurd (List.length_eq_zero_iff.1 (Nat.le_zero.1 enough)) (pairing.ended related).2.ne_nil

/-- Unwinding is alike where the pairing allows it. -/
theorem throw_ {unwinding : Unwinding} (unwinds : pairing.unwinds unwinding)
    (silent : unwinding ≠ .mistake)
    : pairing.Alike (throw unwinding : Rule α) (throw unwinding) before before' P :=
  fun related => .error (.refl related) unwinds fun mistake => absurd mistake silent

/-- Where one run yields something the other one does, too. -/
theorem of_ok {value : α} {after : Cursor} (alike : pairing.Alike rule rule' before before' P)
    (related : pairing.related before before') (run : rule before = .ok value after)
    : ∃ tokens after',
        rule' before' = .ok value after'
        ∧ pairing.Step before before' tokens after after'
        ∧ P tokens value after := by
  have result := alike related
  rw [run] at result
  revert result
  cases rule' before' <;> rintro ⟨step, holds⟩
  exact ⟨_, _, rfl, step, holds⟩

end Alike

-----
-- Mistakes

/-- Only the lack of nesting is a problem that not every pairing knows. -/
theorem step_report (token : Token) {problem : Problem} (known : problem ≠ .tooMuchNesting)
    (related : pairing.related before before')
    : pairing.Step before before' [] (before.report token problem)
        (before'.report token problem) :=
  ⟨pairing.reported token problem (fun nesting => absurd nesting known) related,
    .report _ _ _, .report _ _ _⟩

/-- A report is alike on both sides and reads nothing. -/
theorem alike_report (token : Token) (problem : Problem) (known : problem ≠ .tooMuchNesting)
    : pairing.Alike (report token problem) (report token problem) before before'
        (fun tokens _ _ => tokens = []) :=
  fun related => .ok (pairing.step_report token known related) rfl

/-- A mistake that unwinds is alike on both sides. -/
theorem alike_fail {P : List Token → α → Cursor → Prop} (token : Token) (problem : Problem)
    (known : problem ≠ .tooMuchNesting)
    : pairing.Alike (fail token problem) (fail token problem) before before' P :=
  fun related => .error (pairing.step_report token known related) pairing.mistaken fun _ =>
    before.report_errors_ne token problem

/-- The report of a list that is too long is alike on both sides. -/
theorem alike_checkRoom (earlier : Nat) (problem : Problem) (known : problem ≠ .tooMuchNesting)
    : pairing.Alike (checkRoom earlier problem) (checkRoom earlier problem) before before'
        (fun tokens _ _ => tokens = []) := by
  unfold checkRoom
  split
  · exact .next (alike_report _ _ known)
  · exact .pure_of rfl

/-- The report of parameters that are no names is alike on both sides. -/
theorem alike_checkNames (arrow : Token) (names : List Token)
    : pairing.Alike (checkNames arrow names) (checkNames arrow names) before before'
        (fun tokens _ _ => tokens = []) := by
  unfold checkNames
  split
  · exact alike_report _ _ (by decide)
  · exact .pure_of rfl

-----
-- Taking tokens

/-- Cursors that are alike stay so when a token of the kind is taken from both. -/
def Crosses (pairing : Pairing) (kind : TokenKind) : Prop :=
  kind ≠ .endOfInput
  ∧ ∀ {before before'},
      pairing.related before before'
      → before.next.kind = kind
      → pairing.related before.drop before'.drop

/-- Tokens inside of the text are crossed by every pairing. -/
theorem crosses {kind : TokenKind} (inside : kind ≠ .endOfInput ∧ kind ≠ .semicolon)
    : pairing.Crosses kind :=
  ⟨inside.1, fun related found =>
    pairing.dropped related (found ▸ inside.1) (found ▸ inside.2)⟩

/-- A token that is crossed is a step. -/
theorem Crosses.step (crosses : pairing.Crosses before.next.kind)
    (related : pairing.related before before')
    : pairing.Step before before' [before.next] before.drop before'.drop := by
  obtain ⟨ended, ended'⟩ := pairing.ended related
  have same := pairing.next related
  exact ⟨crosses.2 related rfl, .drop ended crosses.1, same ▸ .drop ended' (same ▸ crosses.1)⟩

/-- Dropping a token that is crossed is alike on both sides. -/
theorem alike_drop (crosses : pairing.Crosses before.next.kind)
    : pairing.Alike (modify Cursor.drop) (modify Cursor.drop) before before'
        (fun tokens _ _ => tokens = [before.next]) :=
  fun related => .ok (crosses.step related) rfl

/-- Trying tokens of some kinds is alike if the pairing crosses each of them. -/
theorem alike_acceptAny? (kinds : List TokenKind)
    (crosses : ∀ kind ∈ kinds, pairing.Crosses kind)
    : pairing.Alike (acceptAny? kinds) (acceptAny? kinds) before before' (TriedAny kinds) := by
  intro related
  have same : before'.nextIsAny kinds = before.nextIsAny kinds := by
    simp [Cursor.nextIsAny, Cursor.atEnd, pairing.next related]
  unfold acceptAny?
  rw [same, pairing.next related]
  by_cases taken : before.nextIsAny kinds
  · have found : before.next.kind ∈ kinds := by
      have both : before.atEnd = false ∧ before.next.kind ∈ kinds := by
        simpa [Cursor.nextIsAny] using taken
      exact both.2
    rw [if_pos taken, if_pos taken]
    exact .ok ((crosses _ found).step related) ⟨rfl, found⟩
  · rw [if_neg taken, if_neg taken]
    refine .ok (.refl related) ⟨rfl, fun found => taken ?_⟩
    have inside : before.next.kind ≠ .endOfInput := (crosses _ found).1
    simp [Cursor.nextIsAny, Cursor.atEnd, inside, found]

/-- Trying a token of one kind is alike if the pairing crosses it. -/
theorem alike_accept? (kind : TokenKind) (crosses : pairing.Crosses kind)
    : pairing.Alike (accept? kind) (accept? kind) before before' (Tried kind) := by
  refine (alike_acceptAny? [kind] (by simpa using crosses)).weaken ?_
  intro tokens result after tried
  cases result <;> simpa [Tried, TriedAny] using tried

/-- Taking a token of one kind is alike if the pairing crosses it. -/
theorem alike_accept (kind : TokenKind) (crosses : pairing.Crosses kind)
    : pairing.Alike (accept kind) (accept kind) before before' (Accepted kind) := by
  refine (alike_accept? kind crosses).bind fun result step tried => .pure_of ?_
  rw [List.append_nil]
  cases result with
  | none => exact tried
  | some token => exact ⟨token, tried⟩

/-- A token that has to be there is alike on both sides if the pairing crosses it. -/
theorem alike_expect (kind : TokenKind) (item : Expected) (crosses : pairing.Crosses kind)
    : pairing.Alike (expect kind item) (expect kind item) before before' (Expects kind) := by
  refine (alike_accept? kind crosses).bind fun result step tried => ?_
  cases result with
  | none => exact .next (alike_fail _ _ nofun)
  | some token =>
      refine .pure_of ?_
      rw [List.append_nil]
      exact tried

-----
-- Context

/-- In a context that is brought in for both runs, and taken back from both. -/
theorem alike_inContext {enter : Cursor → Cursor} {leave : Cursor → Cursor → Cursor}
    {rule rule' : Rule α} {P : List Token → α → Cursor → Prop} (back : TakesBack enter leave)
    (loopDepth : Nat) (commaEnabled : Bool)
    (entered : enter before = { before with loopDepth, commaEnabled })
    (entered' : enter before' = { before' with loopDepth, commaEnabled })
    (alike
      : pairing.Alike rule rule' { before with loopDepth, commaEnabled }
          { before' with loopDepth, commaEnabled }
          (fun tokens value _ => ∀ after, P tokens value after))
    : pairing.Alike (inContext enter leave rule) (inContext enter leave rule') before before'
        P := by
  intro related
  have result := alike (pairing.moved loopDepth commaEnabled related)
  have left {tokens : List Token} {after after' : Cursor}
      (step
        : pairing.Step { before with loopDepth, commaEnabled }
            { before' with loopDepth, commaEnabled } tokens after after')
      : leave before after
            = { after with loopDepth := before.loopDepth, commaEnabled := before.commaEnabled }
        ∧ leave before' after'
            = { after' with
                loopDepth := before.loopDepth, commaEnabled := before.commaEnabled } := by
    rw [← pairing.loopDepth related, ← pairing.commaEnabled related]
    constructor
    · rw [pairing.loopDepth related, pairing.commaEnabled related]
      apply back <;> rw [entered]
      · exact step.passes.loopDepth
      · exact step.passes.commaEnabled
    · apply back <;> rw [entered']
      · exact step.passes'.loopDepth
      · exact step.passes'.commaEnabled
  have restored {tokens : List Token} {after after' : Cursor}
      (step
        : pairing.Step { before with loopDepth, commaEnabled }
            { before' with loopDepth, commaEnabled } tokens after after')
      : pairing.Step before before' tokens (leave before after) (leave before' after') := by
    rw [(left step).1, (left step).2]
    exact {
      related := pairing.moved _ _ step.related
      passes := ⟨step.passes.ahead, step.passes.errors, rfl, rfl⟩
      passes' :=
        ⟨step.passes'.ahead, step.passes'.errors, (pairing.loopDepth related).symm,
          (pairing.commaEnabled related).symm⟩
    }
  unfold inContext
  rw [entered, entered']
  revert result
  cases rule { before with loopDepth, commaEnabled } <;>
    cases rule' { before' with loopDepth, commaEnabled } <;>
    rintro (⟨step, holds⟩ | ⟨step, unwinds, recorded⟩)
  · exact .ok (restored step) (holds _)
  · exact .error (restored step) unwinds ((left step).1 ▸ recorded)

/-- Switching the comma operator keeps rules alike, since it leaves the tokens ahead alone. -/
theorem alike_withComma {rule rule' : Rule α} {P : List Token → α → Cursor → Prop}
    (enabled : Bool)
    (alike
      : ∀ {inside inside'},
          inside.ahead = before.ahead
          → inside'.ahead = before'.ahead
          → pairing.Alike rule rule' inside inside'
              (fun tokens value _ => ∀ after, P tokens value after))
    : pairing.Alike (withComma enabled rule) (withComma enabled rule') before before' P :=
  .of_related fun related =>
    alike_inContext (takesBack_withComma enabled) before.loopDepth enabled rfl
      (by rw [← pairing.loopDepth related]) (alike rfl rfl)

/-- Leaving all loops keeps rules alike, since it leaves the tokens ahead alone. -/
theorem alike_outsideLoops {rule rule' : Rule α} {P : List Token → α → Cursor → Prop}
    (alike
      : ∀ {inside inside'},
          inside.ahead = before.ahead
          → inside'.ahead = before'.ahead
          → pairing.Alike rule rule' inside inside'
              (fun tokens value _ => ∀ after, P tokens value after))
    : pairing.Alike (outsideLoops rule) (outsideLoops rule') before before' P :=
  .of_related fun related =>
    alike_inContext takesBack_outsideLoops 0 before.commaEnabled rfl
      (by rw [← pairing.commaEnabled related]) (alike rfl rfl)

/-- Entering a loop keeps rules alike, since it leaves the tokens ahead alone. -/
theorem alike_insideLoop {rule rule' : Rule α} {P : List Token → α → Cursor → Prop}
    (alike
      : ∀ {inside inside'},
          inside.ahead = before.ahead
          → inside'.ahead = before'.ahead
          → pairing.Alike rule rule' inside inside'
              (fun tokens value _ => ∀ after, P tokens value after))
    : pairing.Alike (insideLoop rule) (insideLoop rule') before before' P :=
  .of_related fun related =>
    alike_inContext takesBack_insideLoop (before.loopDepth + 1) before.commaEnabled rfl
      (by rw [← pairing.commaEnabled related, ← pairing.loopDepth related]) (alike rfl rfl)

end Pairing

end Lox.Grammar
