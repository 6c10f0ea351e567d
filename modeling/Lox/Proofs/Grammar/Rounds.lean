import Lox.Proofs.Grammar.StatementPairing

/-! A text is read declaration by declaration, until it ends.

What is read in one round does not depend on how many rounds a loop is allowed, as long as there is
one for each token, and every round takes a token at least. So a run of the loop is a chain of
rounds, and chains can be put together and taken apart where the loop itself cannot.
-/

namespace Lox.Grammar

-----
-- Runs over one text

/-- Two runs over the same tokens, in the same context, which have recorded different things. -/
structure Shared where
  ahead : List Token → Prop
  errors : List Diagnostic → List Diagnostic → Prop
  /-- Whether rules may unwind for lack of nesting. -/
  deep : Prop
  ended : ∀ {tokens}, ahead tokens → Ended tokens
  suffix : ∀ {tokens rest}, ahead tokens → rest <:+ tokens → Ended rest → ahead rest
  reported
    : ∀ {earlier earlier'} (diagnostic : Diagnostic),
        (diagnostic.problem = .tooMuchNesting → deep)
        → errors earlier earlier'
        → errors (earlier ++ [diagnostic]) (earlier' ++ [diagnostic])

namespace Shared

/-- The cursors differ in nothing but what was recorded. -/
structure Related (shared : Shared) (before before' : Cursor) : Prop where
  ahead : before'.ahead = before.ahead
  loopDepth : before'.loopDepth = before.loopDepth
  commaEnabled : before'.commaEnabled = before.commaEnabled
  errors : shared.errors before.errors before'.errors
  holds : shared.ahead before.ahead

/-- Related cursors have the same next token. -/
theorem Related.next {shared : Shared} {before before' : Cursor}
    (related : shared.Related before before')
    : before'.next = before.next := by
  rw [Cursor.next, Cursor.next, related.ahead]

def pairing (shared : Shared) : Pairing where
  related := shared.Related
  unwinds unwinding := unwinding = .tooDeep → shared.deep
  mistaken := nofun
  ended related := ⟨shared.ended related.holds, related.ahead ▸ shared.ended related.holds⟩
  next := Related.next
  loopDepth := Related.loopDepth
  commaEnabled := Related.commaEnabled
  moved _ _ related := { related with loopDepth := rfl, commaEnabled := rfl }
  reported _ _ known related :=
    { related with errors := shared.reported _ (fun same => known same rfl) related.errors }
  dropped := by
    intro before before' related inside _
    have leads := before.leads_drop (shared.ended related.holds)
    have open_ : before.atEnd = false := by simpa [Cursor.atEnd] using inside
    have open_' : before'.atEnd = false := by simpa [Cursor.atEnd, related.next] using inside
    have ended := leads.ended (shared.ended related.holds)
    have held := shared.suffix related.holds leads.ahead ended
    simp only [Cursor.drop, open_] at held
    simp only [Cursor.drop, open_, open_']
    exact {
      ahead := congrArg List.tail related.ahead
      loopDepth := related.loopDepth
      commaEnabled := related.commaEnabled
      errors := related.errors
      holds := held
    }

/-- A pairing of shared texts crosses semicolons and unwinds alike. -/
theorem full (shared : Shared) : shared.pairing.Full where
  ahead := Related.ahead
  facing related suffix ended :=
    { related with ahead := rfl, holds := shared.suffix related.holds suffix ended }

/-- Two runs from one cursor. -/
def identity : Shared where
  ahead := Ended
  errors earlier earlier' := earlier' = earlier
  deep := True
  ended := id
  suffix _ _ ended := ended
  reported _ _ same := by rw [same]

/-- Every cursor of a text that ends is related to itself. -/
theorem identity_refl {cursor : Cursor} (ended : Ended cursor.ahead)
    : identity.Related cursor cursor :=
  ⟨rfl, rfl, rfl, rfl, ended⟩

/-- The second run follows on something that was read before. -/
def behind (earlier : List Diagnostic) : Shared :=
  { identity with
    errors := fun recorded recorded' => recorded' = earlier ++ recorded
    reported := fun _ _ same => by rw [same, List.append_assoc] }

end Shared

-----
-- Chains of rounds

/-- Wherever a loop goes on, a declaration leaves fewer tokens ahead. -/
def Shortens (stop : Cursor → Bool) (declaration : Rule (Option SourceStmt)) : Prop :=
  ∀ {before result after},
    Ended before.ahead
    → stop before = false
    → declaration before = .ok result after
    → Ended after.ahead ∧ after.ahead.length < before.ahead.length

namespace Rounds

variable {declaration : Rule (Option SourceStmt)} {stop : Cursor → Bool}
  {before between after : Cursor} {results others : List (Option SourceStmt)}

/-- Where every round takes a token there are no more rounds than tokens. -/
theorem length_le (shortens : Shortens stop declaration)
    (rounds : Rounds declaration stop before results after) (ended : Ended before.ahead)
    : results.length ≤ before.ahead.length := by
  induction rounds with
  | done => exact Nat.zero_le _
  | round goesOn run _ ih =>
      obtain ⟨stillEnded, fewer⟩ := shortens ended goesOn run
      have rest := ih stillEnded
      simp only [List.length_cons]
      omega

/-- A run of the loop that is allowed enough rounds is a chain. -/
theorem of_run (shortens : Shortens stop declaration)
    {bound : List Token} {statements : List SourceStmt} (ended : Ended before.ahead)
    (enough : before.ahead.length ≤ bound.length)
    (run : declarationsUntil stop declaration bound before = .ok statements after)
    : ∃ results,
        Rounds declaration stop before results after
        ∧ stop after = true
        ∧ statements = results.filterMap id := by
  induction bound generalizing before statements with
  | nil => exact absurd (List.length_eq_zero_iff.1 (Nat.le_zero.1 enough)) ended.ne_nil
  | cons _ bound ih =>
      rw [declarationsUntil, get_bind] at run
      cases goesOn : stop before with
      | true =>
          rw [goesOn, if_pos rfl] at run
          obtain ⟨rfl, rfl⟩ : [] = statements ∧ before = after := by
            simpa using EStateM.Result.ok.inj run
          exact ⟨[], .done, goesOn, rfl⟩
      | false =>
          rw [goesOn, if_neg Bool.false_ne_true] at run
          cases first : declaration before with
          | error unwinding between =>
              rw [bind_of_error first] at run
              contradiction
          | ok result between =>
              obtain ⟨stillEnded, fewer⟩ := shortens ended goesOn first
              simp only [List.length_cons] at enough
              rw [bind_of_ok first] at run
              cases tail : declarationsUntil stop declaration bound between with
              | error unwinding last =>
                  rw [bind_of_error tail] at run
                  contradiction
              | ok rest last =>
                  rw [bind_of_ok tail] at run
                  obtain ⟨rfl, rfl⟩ : result.toList ++ rest = statements ∧ last = after := by
                    simpa using EStateM.Result.ok.inj run
                  obtain ⟨results, rounds, stops, rfl⟩ := ih stillEnded (by omega) tail
                  refine ⟨result :: results, .round goesOn first rounds, stops, ?_⟩
                  cases result <;> rfl

/-- Rules that run alike go through the same rounds. -/
theorem paired {pairing : Pairing} {rules rules' : Rules} {before' : Cursor}
    (whole : ∀ limit, pairing.Whole limit rules rules')
    (agree : ∀ {before before' : Cursor}, before'.next = before.next → stop before' = stop before)
    (rounds : Rounds rules.declaration stop before results after)
    (related : pairing.related before before')
    : ∃ after', Rounds rules'.declaration stop before' results after'
        ∧ pairing.related after after' := by
  generalize declares : rules.declaration = declaration at rounds
  induction rounds generalizing before' with
  | done => exact ⟨before', .done, related⟩
  | round goesOn run rest ih =>
      subst declares
      rename_i before between after result results
      obtain ⟨tokens, between', run', step, -⟩ :=
        ((whole (before.ahead.length + 1)).declaration (Nat.lt_succ_self _)).of_ok related run
      obtain ⟨after', rounds, related'⟩ := ih step.related
      exact ⟨after', .round ((agree (pairing.next related)).trans goesOn) run' rounds, related'⟩

end Rounds

/-- Cursors with the same next token are both at the end or both inside. -/
theorem atEnd_eq {before before' : Cursor} (same : before'.next = before.next)
    : before'.atEnd = before.atEnd := by
  rw [Cursor.atEnd, Cursor.atEnd, same]

-----
-- Whole texts

section

variable {allowExpression : Bool} {nesting depth : Nat} {before after : Cursor}
  {result : Option SourceStmt} {tokens : List Token}

/-- The grammar runs alike with itself, so what is known of two runs is known of each single one. -/
theorem rules_whole (allowExpression : Bool) (nesting limit : Nat)
    : Shared.identity.pairing.Whole limit (rules allowExpression nesting)
        (rules allowExpression nesting) :=
  Shared.identity.full.whole (fun _ => trivial)
    (fun whole within =>
      Pairing.alike_expressionStatement Shared.identity.full whole allowExpression within)
    nesting limit

/-- A declaration passes tokens and declares what its statement says. -/
theorem declaration_declares (ended : Ended before.ahead)
    (run : (rules allowExpression nesting).declaration before = .ok result after)
    : ∃ tokens,
        before.Passes tokens after
        ∧ Pairing.Declares before tokens result after
        ∧ Ended after.ahead := by
  have whole := rules_whole allowExpression nesting (before.ahead.length + 1)
  obtain ⟨tokens, _, _, step, declares⟩ :=
    (whole.declaration (Nat.lt_succ_self _)).of_ok (Shared.identity_refl ended) run
  exact ⟨tokens, step.passes, declares, step.related.holds⟩

/-- In front of the end of input a declaration takes a token at least. -/
theorem declaration_shortens
    : Shortens Cursor.atEnd (rules allowExpression nesting).declaration := by
  intro before result after ended goesOn run
  obtain ⟨tokens, passes, declares, stillEnded⟩ := declaration_declares ended run
  have positive := List.length_pos_iff.2 (declares.progress goesOn)
  have length := passes.length
  exact ⟨stillEnded, by omega⟩

/-- Rounds lead on through the text. -/
theorem Rounds.leads {results : List (Option SourceStmt)} {stop : Cursor → Bool}
    (rounds : Rounds (rules allowExpression nesting).declaration stop before results after)
    (ended : Ended before.ahead)
    : before.Leads after := by
  induction rounds with
  | done => exact .refl _
  | round _ run _ ih =>
      obtain ⟨tokens, passes, -, stillEnded⟩ := declaration_declares ended run
      exact (passes.leads stillEnded).trans (ih stillEnded)

/-- What was read before a text changes nothing in how the text is read. -/
theorem rounds_behind {results : List (Option SourceStmt)} (earlier : List Diagnostic)
    (ended : Ended before.ahead)
    (rounds
      : Rounds (rules allowExpression nesting).declaration Cursor.atEnd before results after)
    : Rounds (rules allowExpression nesting).declaration Cursor.atEnd
        { before with errors := earlier ++ before.errors } results
        { after with errors := earlier ++ after.errors } := by
  have whole (limit : Nat)
      : (Shared.behind earlier).pairing.Whole limit (rules allowExpression nesting)
          (rules allowExpression nesting) :=
    (Shared.behind earlier).full.whole (fun _ => trivial)
      (fun whole within =>
        Pairing.alike_expressionStatement (Shared.behind earlier).full whole allowExpression within)
      nesting limit
  have related
      : (Shared.behind earlier).Related before
          { before with errors := earlier ++ before.errors } :=
    ⟨rfl, rfl, rfl, rfl, ended⟩
  obtain ⟨after', rounds', ahead, loopDepth, commaEnabled, errors, -⟩ :=
    rounds.paired whole atEnd_eq related
  cases after'
  cases ahead
  cases loopDepth
  cases commaEnabled
  cases errors
  exact rounds'

/-- A text is parsed as the rounds that read it. -/
theorem parse_of_rounds {results : List (Option SourceStmt)} (ended : Ended tokens)
    (rounds
      : Rounds (rules allowExpression (depth + 1)).declaration Cursor.atEnd (Cursor.start tokens)
          results after)
    (atEnd : after.atEnd = true)
    : parse allowExpression tokens depth
        = { statements := results.filterMap id, errors := after.errors } :=
  parse_of_run (rounds.run atEnd (rounds.length_le declaration_shortens ended))

/-- Every text is read in rounds, by induction on the tokens that are left. -/
theorem rounds_of_parse (allowExpression : Bool) (depth : Nat) (ended : Ended tokens)
    : ∃ results after,
        Rounds (rules allowExpression (depth + 1)).declaration Cursor.atEnd (Cursor.start tokens)
          results after
        ∧ after.atEnd = true
        ∧ parse allowExpression tokens depth
            = { statements := results.filterMap id, errors := after.errors } := by
  obtain ⟨statements, after, run⟩ := program_ok allowExpression depth (Cursor.start tokens)
  have startEnded : Ended (Cursor.start tokens).ahead := ended
  obtain ⟨results, rounds, atEnd, rfl⟩ :=
    Rounds.of_run declaration_shortens startEnded (Nat.le_refl _) run
  exact ⟨results, after, rounds, atEnd, parse_of_run run⟩

end

end Lox.Grammar
