import Lox.Proofs.Loops.Machines

/-! Single actions of two machines, of which one has hollow scopes that the other has not.

What is opened, written and read on the one machine is opened, written and read on the other, in the
scopes that stand for each other. Only a hollow scope is opened on one machine alone.
-/

namespace Lox

-----
-- One more scope

section

variable {footing : Footing} {scope other : Nat} {place place' : Gap × Nat}

/-- One more scope is known. -/
def Footing.opened (footing : Footing) (scope : Nat) (place : Gap × Nat) : Footing :=
  {
    footing with
    layout := fun other => if other = scope then some place else footing.layout other
  }

namespace Footing

/-- A scope that was opened is laid out where it was opened. -/
theorem opened_self (footing : Footing) (scope : Nat) (place : Gap × Nat)
    : (footing.opened scope place).layout scope = some place :=
  if_pos rfl

/-- A scope is laid out as the new one or as before. -/
theorem opened_cases (known : (footing.opened scope place).layout other = some place')
    : other = scope ∧ place' = place ∨ other ≠ scope ∧ footing.layout other = some place' := by
  by_cases last : other = scope
  · subst last
    exact .inl ⟨rfl, Option.some.inj (known.symm.trans (footing.opened_self other place))⟩
  · exact .inr ⟨last, (if_neg last).symm.trans known⟩

/-- A new scope only adds to the layout. -/
theorem extends_opened (new : footing.layout scope = none) (place : Gap × Nat)
    : footing.Extends (footing.opened scope place) := by
  refine ⟨fun other place' known => ?_, rfl, fun _ _ => id⟩
  have apart : other ≠ scope := by
    rintro rfl
    cases new.symm.trans known
  exact (if_neg apart).trans known

/-- A scope inside of the parent may stand for such a place of the other machine, whose scopes may
have become more. -/
structure Opens (footing : Footing) (parent : Nat) (place : Gap × Nat)
    (before' after' : Forest Value)
    : Prop where
  size : before'.size ≤ after'.size
  parents : ∀ scope < before'.size, after'.parent? scope = before'.parent? scope
  cells : ∀ scope name, after'.cell? scope name = before'.cell? scope name
  here : place.2 < after'.size
  new : place.1 ≠ some 0 → before'.size ≤ place.2
  outer
    : place.1 ≠ some 0
      → ∃ parent',
          after'.parent? place.2 = some parent'
          ∧ footing.layout parent = some (place.1.outer, parent')
  hollow : place.1 = some 0 → footing.layout parent = some (none, place.2)

end Footing

/-- Scopes opened on both sides leave the machines apart by the gap alone. -/
theorem Machine.Omits.opened {machine machine' : Machine} (omits : machine.Omits footing machine')
    {parent : Nat} {forest' : Forest Value}
    (opens : footing.Opens parent place machine'.scopes forest')
    : let after := footing.opened machine.scopes.size place
      footing.Extends after
      ∧ Machine.Omits after
          { machine with scopes := machine.scopes.push (some parent) }
          { machine' with scopes := forest' } := by
  intro after
  have new : footing.layout machine.scopes.size = none := by
    cases found : footing.layout machine.scopes.size with
    | none => rfl
    | some place =>
        exact absurd (omits.known _ place.1 place.2 found).1 (Nat.lt_irrefl _)
  have more := Footing.extends_opened new place
  have older {scope : Nat} {gap : Gap} {scope' : Nat}
      (known : footing.layout scope = some (gap, scope'))
      : scope ≠ machine.scopes.size :=
    Nat.ne_of_lt (omits.known scope gap scope' known).1
  refine ⟨more, { omits with
    known := ?known, apart := ?apart, outer := ?outer, hollow := ?hollow, cell := ?cell,
    outermost := more.layout _ _ omits.outermost, defined := ?defined,
    field := fun address name => optionRel_imp (omits.field address name) fun _ _ alike =>
      alike.mono more.below
    current' := omits.current'.imp fun gap here => more.layout _ _ here }⟩
  case known =>
    intro scope gap scope' known
    rw [Forest.size_push]
    rcases Footing.opened_cases known with ⟨rfl, same⟩ | ⟨-, known⟩
    · refine ⟨Nat.lt_succ_self _, ?_⟩
      rw [← same] at opens
      exact opens.here
    · obtain ⟨less, less'⟩ := omits.known scope gap scope' known
      exact ⟨Nat.lt_succ_of_lt less, Nat.lt_of_lt_of_le less' opens.size⟩
  case apart =>
    intro scope gap other gap' scope' known known' real real'
    rcases Footing.opened_cases known with ⟨rfl, same⟩ | ⟨-, known⟩ <;>
      rcases Footing.opened_cases known' with ⟨rfl, same'⟩ | ⟨-, known'⟩
    · rfl
    · have outside := opens.new (same ▸ real)
      rw [← same] at outside
      exact absurd (omits.known other gap' scope' known').2 (Nat.not_lt_of_le outside)
    · have outside := opens.new (same' ▸ real')
      rw [← same'] at outside
      exact absurd (omits.known scope gap scope' known).2 (Nat.not_lt_of_le outside)
    · exact omits.apart scope gap other gap' scope' known known' real real'
  case outer =>
    intro scope gap scope' known real
    rw [Forest.parent?_push]
    rcases Footing.opened_cases known with ⟨rfl, same⟩ | ⟨apart, known⟩
    · obtain ⟨parent', inside, around⟩ := opens.outer (same ▸ real)
      rw [← same] at inside around
      rw [if_pos rfl, inside]
      exact .some (more.layout _ _ around)
    · rw [if_neg apart, opens.parents scope' (omits.known scope gap scope' known).2]
      exact optionRel_imp (omits.outer scope gap scope' known real) fun _ _ around =>
        more.layout _ _ around
  case hollow =>
    intro scope scope' known
    rw [Forest.parent?_push]
    rcases Footing.opened_cases known with ⟨rfl, same⟩ | ⟨apart, known⟩
    · have around := opens.hollow (same ▸ rfl)
      rw [← same] at around
      refine ⟨⟨parent, if_pos rfl, more.layout _ _ around⟩, fun name => ?_⟩
      rw [Forest.cell?_push]
      exact Forest.cell?_of_size_le (Nat.le_refl _) name
    · obtain ⟨⟨outer, inside, around⟩, empty⟩ := omits.hollow scope scope' known
      refine ⟨⟨outer, (if_neg apart).trans inside, more.layout _ _ around⟩, fun name => ?_⟩
      rw [Forest.cell?_push]
      exact empty name
  case cell =>
    intro scope gap scope' known real name
    rw [Forest.cell?_push, opens.cells]
    rcases Footing.opened_cases known with ⟨rfl, same⟩ | ⟨-, known⟩
    · have outside := opens.new (same ▸ real)
      rw [← same] at outside
      rw [Forest.cell?_of_size_le (Nat.le_refl _), Forest.cell?_of_size_le outside]
      exact .none
    · exact optionRel_imp (omits.cell scope gap scope' known real name) fun _ _ alike =>
        alike.mono more.below
  case defined =>
    intro scope name defined
    rw [Forest.cell?_push]
    exact omits.defined scope name defined

end

namespace Loops

variable {footing : Footing} {gap : Gap} {α β : Type}

-----
-- Failing

/-- A failure runs together on both sides, at the same token. -/
theorem together_failAt {post : α → β → Footing → Prop} (token : Token) (problem : RuntimeProblem)
    : omission.Together footing (Run.failAt token problem) (Run.failAt token problem) post :=
  .throw (.same _)

/-- A result that is there already runs together with one like it. -/
theorem together_ofExcept {result result' : Except RuntimeError Value}
    (alike : ResultLike footing.layout.likeness result result')
    : omission.Together footing (Run.ofExcept result) (Run.ofExcept result')
        (LaidOut Value.Like) := by
  cases alike with
  | ok alike => exact .pure alike
  | error error => exact .throw (.same _)

-----
-- Output and trace

/-- The same text is printed on both sides. -/
theorem together_print (text : String)
    : omission.Together footing (Run.print text) (Run.print text) (fun _ _ _ => True) :=
  fun _ _ omits =>
    ⟨footing, .refl footing, { omits with output := congrArg (· ++ text) omits.output }, trivial⟩

/-- Events that look the same are told at the same time. -/
theorem together_tell {event event' : TraceEvent}
    (alike : event.Like footing.layout.likeness event')
    : omission.Together footing (Run.tell event) (Run.tell event') (fun _ _ _ => True) := by
  intro machine machine' omits
  have pushed {trace trace' : Array TraceEvent}
      (same : trace'.map TraceEvent.text = trace.map TraceEvent.text)
      : (trace'.push event').map TraceEvent.text = (trace.push event).map TraceEvent.text := by
    rw [Array.map_push, Array.map_push, same, alike.text]
  refine ⟨footing, .refl footing, ?_, trivial⟩
  change (machine.told event).Omits footing (machine'.told event')
  have tells : event'.level ≤ machine'.traceLevel ↔ event.level ≤ machine.traceLevel := by
    rw [alike.level, omits.traceLevel]
  have opens : machine'.traceFileOpen = true ↔ machine.traceFileOpen = true := by
    rw [omits.traceFileOpen]
  unfold Machine.told
  simp only [tells, opens]
  split
  · split
    · exact { omits with fileTrace := pushed omits.fileTrace }
    · exact { omits with consoleTrace := pushed omits.consoleTrace }
  · exact omits

/-- The clock is read on both sides, with the same reading. -/
theorem together_readClock
    : omission.Together footing Run.readClock Run.readClock (LaidOut Value.Like) := by
  intro machine machine' omits
  refine ⟨footing, .refl footing,
    { omits with readingsTaken := congrArg (· + 1) omits.readingsTaken }, ?_⟩
  rw [omits.readings, omits.readingsTaken]
  exact .literal _

-----
-- Opening scopes

/-- The scopes that the machines are in stand for each other. -/
theorem together_currentScope (stands : footing.At gap)
    : omission.Together footing Run.currentScope Run.currentScope
        (fun scope scope' after =>
          scope = after.current ∧ after.layout scope = some (gap, scope')) := by
  intro machine machine' omits
  obtain ⟨scope', here⟩ := stands
  obtain ⟨gap', here'⟩ := omits.current'
  obtain ⟨rfl, rfl⟩ := Prod.mk.inj (Option.some.inj (here.symm.trans here'))
  refine ⟨footing, .refl footing, omits, omits.current, ?_⟩
  rw [omits.current]
  exact here

/-- A new scope on both sides is laid out with the gap one scope further out. -/
theorem together_newScope {parent parent' : Nat}
    (known : footing.layout parent = some (gap, parent'))
    : omission.Together footing (Run.newScope parent) (Run.newScope parent')
        (fun scope scope' after => after.layout scope = some (gap.inner, scope')) := by
  intro machine machine' omits
  have opens
      : footing.Opens parent (gap.inner, machine'.scopes.size) machine'.scopes
          (machine'.scopes.push (some parent')) := {
    size := Nat.le_of_lt (Nat.lt_of_lt_of_eq (Nat.lt_succ_self _) (Forest.size_push _ _).symm)
    parents := fun scope less => by
      rw [Forest.parent?_push, if_neg (Nat.ne_of_lt less)]
    cells := fun scope name => Forest.cell?_push _ _ scope name
    here := Nat.lt_of_lt_of_eq (Nat.lt_succ_self _) (Forest.size_push _ _).symm
    new := fun _ => Nat.le_refl _
    outer := fun _ => by
      refine ⟨parent', ?_, ?_⟩
      · rw [Forest.parent?_push, if_pos rfl]
      · rw [Gap.inner_outer]
        exact known
    hollow := fun here => absurd here (Gap.inner_ne_zero gap) }
  obtain ⟨more, opened⟩ := omits.opened opens
  exact ⟨_, more, opened, footing.opened_self _ _⟩

/-- Inside of a scope both machines are in scopes that stand for each other. -/
theorem together_within {related : Likeness → α → β → Prop} {action : Run α} {action' : Run β}
    {scope scope' : Nat} (known : footing.layout scope = some (gap, scope'))
    (inside
      : omission.Together { footing with current := scope } action action' (LaidOut related))
    : omission.Together footing (Run.within scope action) (Run.within scope' action')
        (LaidOut related) := by
  intro machine machine' omits
  have ended := inside { machine with current := scope } { machine' with current := scope' }
    { omits with current := rfl, current' := ⟨gap, known⟩ }
  have back {after : Footing} {left left' : Machine}
      (more : Footing.Extends { footing with current := scope } after)
      (omitsAfter : left.Omits after left')
      : footing.Extends { after with current := footing.current }
        ∧ Machine.Omits { after with current := footing.current }
            { left with current := machine.current }
            { left' with current := machine'.current } :=
    ⟨{ more with current := rfl },
      { omitsAfter with
        current := omits.current
        current' := omits.current'.imp fun gap here => more.layout _ _ here }⟩
  unfold Run.within
  revert ended
  cases action { machine with current := scope } <;>
    cases action' { machine' with current := scope' } <;>
    intro ended
  · obtain ⟨after, more, omitsAfter, holds⟩ := ended
    obtain ⟨more, omitsAfter⟩ := back more omitsAfter
    exact ⟨_, more, omitsAfter, holds⟩
  · exact ended.elim
  · exact ended.elim
  · obtain ⟨faults, after, more, omitsAfter⟩ := ended
    obtain ⟨more, omitsAfter⟩ := back more omitsAfter
    exact ⟨faults, _, more, omitsAfter⟩

/-- A hollow scope is opened on one machine alone, and the other one stays where it is. -/
theorem together_hollow {related : Likeness → α → β → Prop} {action : Run α} {action' : Run β}
    (stands : footing.At none)
    (inside
      : ∀ {inner : Footing},
          footing.layout.Extends inner.layout
          → inner.At (some 0)
          → omission.Together inner action action' (LaidOut related))
    : omission.Together footing
        (do
          let scope ← Run.newScope (← Run.currentScope)
          Run.within scope action)
        action' (LaidOut related) := by
  intro machine machine' omits
  obtain ⟨scope', stands⟩ := stands
  obtain ⟨gap, here⟩ := omits.current'
  obtain ⟨rfl, rfl⟩ := Prod.mk.inj (Option.some.inj (stands.symm.trans here))
  have opens : footing.Opens footing.current (some 0, machine'.current) machine'.scopes
      machine'.scopes := {
    size := Nat.le_refl _
    parents := fun _ _ => rfl
    cells := fun _ _ => rfl
    here := (omits.known _ _ _ here).2
    new := fun real => absurd rfl real
    outer := fun real => absurd rfl real
    hollow := fun _ => here }
  obtain ⟨more, opened⟩ := omits.opened opens
  let hollow := machine.scopes.size
  let inner : Footing :=
    { footing.opened hollow (some 0, machine'.current) with current := hollow }
  have within : inner.layout hollow = some (some 0, machine'.current) := footing.opened_self _ _
  have entered : Machine.Omits inner
      { machine with scopes := machine.scopes.push (some footing.current), current := hollow }
      machine' :=
    { opened with current := rfl, current' := ⟨_, within⟩ }
  have ended := @inside inner more.layout ⟨_, within⟩ _ _ entered
  have back {after : Footing} {left left' : Machine} (further : inner.Extends after)
      (omitsAfter : left.Omits after left')
      : footing.Extends { after with current := footing.current }
        ∧ Machine.Omits { after with current := footing.current }
            { left with current := machine.current } left' := by
    refine ⟨⟨fun scope place known => further.layout _ _ (more.layout _ _ known), rfl,
      fun scope name defined => further.defined _ _ defined⟩, { omitsAfter with
        current := omits.current, current' := ⟨none, ?_⟩ }⟩
    obtain ⟨gap, last⟩ := omitsAfter.current'
    rw [further.current, further.layout _ _ within] at last
    obtain ⟨-, same⟩ := Prod.mk.inj (Option.some.inj last)
    rw [← same]
    exact further.layout _ _ (more.layout _ _ here)
  have run
      : (do
            let scope ← Run.newScope (← Run.currentScope)
            Run.within scope action : Run α) machine
          = Run.within hollow action
              { machine with scopes := machine.scopes.push (some footing.current) } := by
    rw [← omits.current]
    rfl
  rw [run]
  unfold Run.within
  revert ended
  cases action
      { machine with scopes := machine.scopes.push (some footing.current), current := hollow } <;>
    cases action' machine' <;>
    intro ended
  · obtain ⟨after, further, omitsAfter, holds⟩ := ended
    obtain ⟨more, omitsAfter⟩ := back further omitsAfter
    exact ⟨_, more, omitsAfter, holds⟩
  · exact ended.elim
  · exact ended.elim
  · obtain ⟨faults, after, further, omitsAfter⟩ := ended
    obtain ⟨more, omitsAfter⟩ := back further omitsAfter
    exact ⟨faults, _, more, omitsAfter⟩

-----
-- Writing to scopes

section

variable {scope scope' : Nat} {value value' : Value}

/-- A definition runs together where the scope exists on both sides. -/
theorem together_defineIn (name : String) (known : footing.layout scope = some (gap, scope'))
    (real : gap ≠ some 0) (alike : value.Like footing.layout.likeness value')
    : omission.Together footing (Run.defineIn scope name value) (Run.defineIn scope' name value')
        (fun _ _ after => after.defined scope name) := by
  intro machine machine' omits
  let after : Footing :=
    { footing with
      defined := fun other found => footing.defined other found ∨ other = scope ∧ found = name }
  obtain ⟨inside, inside'⟩ := omits.known scope gap scope' known
  have more : footing.Extends after := ⟨fun _ _ => id, rfl, fun _ _ => .inl⟩
  refine ⟨after, more, { omits with
    known := ?known, outer := ?outer, hollow := ?hollow, cell := ?cell, defined := ?defined },
    .inr ⟨rfl, rfl⟩⟩
  case known =>
    intro other gap' other' known'
    rw [Forest.size_put, Forest.size_put]
    exact omits.known other gap' other' known'
  case outer =>
    intro other gap' other' known' real'
    rw [Forest.parent?_put, Forest.parent?_put]
    exact omits.outer other gap' other' known' real'
  case hollow =>
    intro other other' known'
    obtain ⟨around, empty⟩ := omits.hollow other other' known'
    have apart : other ≠ scope := by
      rintro rfl
      obtain ⟨rfl, -⟩ := Prod.mk.inj (Option.some.inj (known.symm.trans known'))
      exact real rfl
    refine ⟨?_, fun name' => ?_⟩
    · rw [Forest.parent?_put]
      exact around
    · rw [Forest.cell?_put, if_neg fun both => apart both.1]
      exact empty name'
  case cell =>
    intro other gap' other' known' real' name'
    change Option.Rel _ ((machine.scopes.put scope name value).cell? other name')
      ((machine'.scopes.put scope' name value').cell? other' name')
    have same : other = scope ↔ other' = scope' := by
      constructor
      · rintro rfl
        exact (Prod.mk.inj (Option.some.inj (known'.symm.trans known))).2
      · rintro rfl
        exact omits.apart scope gap other gap' other' known known' real real'
    rw [Forest.cell?_put, Forest.cell?_put]
    simp only [inside, inside', same, true_and]
    split
    · exact .some alike
    · exact omits.cell other gap' other' known' real' name'
  case defined =>
    rintro other found (defined | ⟨rfl, rfl⟩)
    · exact Forest.cell?_put_isSome _ (omits.defined other found defined)
    · change ((machine.scopes.put other found value).cell? other found).isSome = true
      rw [Forest.cell?_put_self _ inside]
      rfl

/-- A definition in the current scope runs together, unless that scope is the gap. -/
theorem together_define (name : Token) (stands : footing.At gap) (real : gap ≠ some 0)
    (alike : value.Like footing.layout.likeness value')
    : omission.Together footing (Run.define name value) (Run.define name value')
        (fun _ _ after => after.defined after.current name.lexeme) := by
  refine (together_currentScope stands).bind fun scope scope' between more here => ?_
  obtain ⟨rfl, known⟩ := here
  exact (together_defineIn name.lexeme known real (alike.mono more.below)).weaken
    fun _ _ after further defined => further.current.symm ▸ defined

/-- The outermost scope has no scope around it that it could find a name in. -/
theorem holder?_global (forest : Forest Value) (name : String)
    : forest.holder? globalScope name
        = if (forest.cell? globalScope name).isSome then some globalScope else none := by
  change (if (forest.cell? 0 name).isSome then _ else
    (forest.parent? 0).bind fun _ => none) = _
  cases forest.parent? 0 <;> rfl

/-- An assignment to a global runs together, found or not. -/
theorem together_assignFrom_global (name : Token)
    (alike : value.Like footing.layout.likeness value')
    : omission.Together footing (Run.assignFrom globalScope name value)
        (Run.assignFrom globalScope name value') (fun _ _ _ => True) := by
  intro machine machine' omits
  have same := optionRel_isSome
    (omits.cell globalScope none globalScope omits.outermost Gap.none_ne_zero name.lexeme)
  have held := holder?_global machine.scopes name.lexeme
  have held' := holder?_global machine'.scopes name.lexeme
  rw [same] at held'
  split at held
  · next defined =>
      rw [if_pos defined] at held'
      rw [Run.assignFrom_held held, Run.assignFrom_held held']
      exact (together_defineIn name.lexeme omits.outermost Gap.none_ne_zero alike).weaken
        (fun _ _ _ _ _ => trivial) machine machine' omits
  · next missing =>
      rw [if_neg missing] at held'
      rw [Run.assignFrom_missing held, Run.assignFrom_missing held']
      exact together_failAt name _ machine machine' omits

/-- A name that is defined in a scope itself is overwritten there. -/
theorem together_assignFrom_defined {name : Token}
    (known : footing.layout scope = some (gap, scope')) (real : gap ≠ some 0)
    (defined : footing.defined scope name.lexeme)
    (alike : value.Like footing.layout.likeness value')
    : omission.Together footing (Run.assignFrom scope name value)
        (Run.assignFrom scope' name value') (fun _ _ _ => True) := by
  intro machine machine' omits
  have isSome := omits.defined scope name.lexeme defined
  have isSome' :=
    (optionRel_isSome (omits.cell scope gap scope' known real name.lexeme)).trans isSome
  rw [Run.assignFrom_held (Forest.holder?_of_isSome isSome),
    Run.assignFrom_held (Forest.holder?_of_isSome isSome')]
  exact (together_defineIn name.lexeme known real alike).weaken
    (fun _ _ _ _ _ => trivial) machine machine' omits

-----
-- Variables

/-- The scope at a distance stands for the scope that lies there without the hollow one. -/
theorem together_ancestor {machine machine' : Machine} (omits : machine.Omits footing machine')
    (stands : footing.At gap) (name : Token) (distance : Nat)
    : omission.Together footing
        (Run.ofAccess name (machine.scopes.ancestor machine.current (gap.across distance)))
        (Run.ofAccess name (machine'.scopes.ancestor machine'.current distance))
        (fun scope scope' after =>
          ∃ gap', after.layout scope = some (gap', scope') ∧ gap' ≠ some 0) := by
  obtain ⟨gap', here⟩ := omits.current'
  obtain ⟨scope', known⟩ := stands
  obtain ⟨rfl, rfl⟩ := Prod.mk.inj (Option.some.inj (known.symm.trans here))
  have reached := omits.ancestor distance here
  rw [omits.current]
  cases there : machine.scopes.ancestor? footing.current (gap.across distance) <;>
    cases there' : machine'.scopes.ancestor? machine'.current distance <;>
    rw [there, there'] at reached <;>
    cases reached
  · rw [Forest.ancestor_of_none there, Forest.ancestor_of_none there']
    exact .throw (.missing _ _)
  · next known =>
      rw [Forest.ancestor_of_ancestor? there, Forest.ancestor_of_ancestor? there']
      exact .pure known

/-- The global scope has no scope around it in which a name could be found. -/
theorem get?_global (forest : Forest Value) (name : String)
    : forest.get? globalScope name = forest.cell? globalScope name := by
  unfold Forest.get?
  rw [holder?_global]
  cases held : forest.cell? globalScope name with
  | none => rfl
  | some value => exact held

/-- A read finds like values on both sides, its distance counted across the gap. -/
theorem together_readVariable {target target' : Reference (Option Nat)} (stands : footing.At gap)
    (omitsTarget : target.Omits gap target')
    : omission.Together footing (Run.readVariable target) (Run.readVariable target')
        (LaidOut Value.Like) := by
  intro machine machine' omits
  obtain ⟨name, binding⟩ := target
  obtain ⟨name', binding'⟩ := target'
  obtain ⟨rfl, rfl⟩ : name' = name ∧ binding = binding'.map gap.across :=
    ⟨omitsTarget.name, omitsTarget.binding⟩
  cases binding' with
  | none =>
      have found := omits.cell globalScope none globalScope omits.outermost Gap.none_ne_zero name'.lexeme
      rw [← get?_global, ← get?_global] at found
      cases held : machine.scopes.get? globalScope name'.lexeme <;>
        cases held' : machine'.scopes.get? globalScope name'.lexeme <;>
        rw [held, held'] at found <;>
        cases found
      · exact (Run.readVariable_missing held).symm ▸ (Run.readVariable_missing held').symm ▸
          together_failAt name' _ machine machine' omits
      · next alike =>
          exact (Run.readVariable_held held).symm ▸ (Run.readVariable_held held').symm ▸
            ⟨footing, .refl footing, omits, alike⟩
  | some distance =>
      obtain ⟨gap', here⟩ := omits.current'
      obtain ⟨scope', known⟩ := stands
      obtain ⟨rfl, rfl⟩ := Prod.mk.inj (Option.some.inj (known.symm.trans here))
      change omission.Ends footing _
        (Run.ofAccess name'
          (machine.scopes.valueAt machine.current (gap.across distance) name'.lexeme) machine)
        (Run.ofAccess name'
          (machine'.scopes.valueAt machine'.current distance name'.lexeme) machine')
      have reached := omits.ancestor distance here
      rw [omits.current]
      cases there : machine.scopes.ancestor? footing.current (gap.across distance) <;>
        cases there' : machine'.scopes.ancestor? machine'.current distance <;>
        rw [there, there'] at reached <;>
        cases reached
      · rw [Forest.valueAt_of_none _ there, Forest.valueAt_of_none _ there']
        exact ⟨.missing _ _, footing, .refl footing, omits⟩
      · next outer outer' known =>
          obtain ⟨gap', known, real⟩ := known
          have found := omits.cell outer gap' outer' known real name'.lexeme
          cases held : machine.scopes.cell? outer name'.lexeme <;>
            cases held' : machine'.scopes.cell? outer' name'.lexeme <;>
            rw [held, held'] at found <;>
            cases found
          · rw [Forest.valueAt_missing there held, Forest.valueAt_missing there' held']
            exact together_failAt name' .undefinedVariable machine machine' omits
          · next alike =>
              rw [Forest.valueAt_held there held, Forest.valueAt_held there' held']
              exact ⟨footing, .refl footing, omits, alike⟩

/-- A write finds the same entry on both sides, its distance counted across the gap. -/
theorem together_writeVariable {target target' : Reference (Option Nat)}
    (stands : footing.At gap) (omitsTarget : target.Omits gap target')
    (alike : value.Like footing.layout.likeness value')
    : omission.Together footing (Run.writeVariable target value) (Run.writeVariable target' value')
        (fun _ _ _ => True) := by
  intro machine machine' omits
  obtain ⟨name, binding⟩ := target
  obtain ⟨name', binding'⟩ := target'
  obtain ⟨rfl, rfl⟩ : name' = name ∧ binding = binding'.map gap.across :=
    ⟨omitsTarget.name, omitsTarget.binding⟩
  cases binding' with
  | none => exact together_assignFrom_global name' alike machine machine' omits
  | some distance =>
      refine (together_ancestor omits stands name' distance).bind
        (fun scope scope' after more reached => ?_) machine machine' omits
      obtain ⟨gap', known, real⟩ := reached
      exact (together_defineIn name'.lexeme known real (alike.mono more.below)).weaken
        fun _ _ _ _ _ => trivial

end

-----
-- Functions

/-- A fresh number is the same on both sides. -/
theorem together_freshId
    : omission.Together footing Run.freshId Run.freshId (fun id id' _ => id' = id) :=
  fun _ _ omits =>
    ⟨footing, .refl footing, { omits with nextId := congrArg (· + 1) omits.nextId }, omits.nextId⟩

/-- A new closure is like the one made on the other side. -/
theorem together_newClosure {function function' : BoundLambda} {scope scope' : Nat}
    (inside : Gap → Gap) (known : footing.layout scope = some (gap, scope'))
    (omits : function.Omits (inside gap) function') (name : Option String) (isInitializer : Bool)
    (receiver : isInitializer = true → inside gap ≠ some 0)
    : omission.Together footing (Run.newClosure function scope name isInitializer)
        (Run.newClosure function' scope' name isInitializer)
        (fun closure closure' after => closure.OmitsIn after.layout inside closure') := by
  refine together_freshId.bind fun id id' between more same => .pure ?_
  exact {
    id := same, name := rfl, isInitializer := rfl,
    function := ⟨gap, more.layout _ _ known, omits, receiver⟩ }

/-- A bound method is like the one bound on the other side. -/
theorem together_bindMethod {method method' : Closure} {receiver receiver' : Value}
    (waits : method.OmitsIn footing.layout Gap.inner method')
    (alike : receiver.Like footing.layout.likeness receiver')
    : omission.Together footing (Run.bindMethod method receiver) (Run.bindMethod method' receiver')
        (fun closure closure' after => closure.OmitsIn after.layout id closure') := by
  obtain ⟨gap, known, omits, -⟩ := waits.function
  have real := gap.inner_ne_zero
  unfold Run.bindMethod
  rw [waits.name, waits.isInitializer]
  refine (together_newScope known).bind fun scope scope' between more opened => ?_
  refine (together_defineIn "this" opened real (alike.mono more.below)).bind
    fun _ _ after further _ => ?_
  exact together_newClosure id (further.layout _ _ opened) omits _ _ fun _ => real

/-- The receiver is like the one on the other side. -/
theorem together_receiverIn {scope scope' : Nat}
    (known : footing.layout scope = some (gap, scope')) (real : gap ≠ some 0)
    : omission.Together footing (Run.receiverIn scope) (Run.receiverIn scope')
        (LaidOut Value.Like) := by
  intro machine machine' omits
  have found := omits.cell scope gap scope' known real "this"
  cases held : machine.scopes.cell? scope "this" <;>
    cases held' : machine'.scopes.cell? scope' "this" <;>
    rw [held, held'] at found <;>
    cases found
  · rw [Run.receiverIn_missing held, Run.receiverIn_missing held']
    exact ⟨.same _, footing, .refl footing, omits⟩
  · next alike =>
      rw [Run.receiverIn_held held, Run.receiverIn_held held']
      exact ⟨footing, .refl footing, omits, alike⟩

-----
-- Instances

/-- A new instance is like the one made on the other side. -/
theorem together_newObject {lineage lineage' : Lineage}
    (alike : lineage.Like footing.layout.likeness lineage')
    : omission.Together footing (Run.newObject lineage) (Run.newObject lineage')
        (LaidOut Value.Like) := by
  intro machine machine' omits
  refine ⟨footing, .refl footing, { omits with objects := ?_, field := fun address name => ?_ }, ?_⟩
  · simp [omits.objects]
  · rw [Machine.fieldAt_push, Machine.fieldAt_push]
    exact omits.field address name
  · rw [omits.objects]
    exact .object _ alike

/-- The fields of an instance hold like values on both sides. -/
theorem together_field? (address : Nat) (name : String)
    : omission.Together footing (Run.field? address name) (Run.field? address name)
        (LaidOut fun likeness => Option.Rel (Value.Like likeness)) :=
  fun _ _ omits => ⟨footing, .refl footing, omits, omits.field address name⟩

/-- Setting a field to like values runs together. -/
theorem together_setField (address : Nat) (name : String) {value value' : Value}
    (alike : value.Like footing.layout.likeness value')
    : omission.Together footing (Run.setField address name value)
        (Run.setField address name value') (fun _ _ _ => True) := by
  intro machine machine' omits
  refine ⟨footing, .refl footing, { omits with objects := ?_, field := fun other found => ?_ },
    trivial⟩
  · simp [omits.objects]
  · rw [Machine.fieldAt_insert, Machine.fieldAt_insert, omits.objects]
    split
    · exact .some alike
    · exact omits.field other found

/-- A method that is found is bound to its receiver. -/
theorem together_found {method method' : Closure} {receiver receiver' : Value}
    (waits : method.OmitsIn footing.layout Gap.inner method')
    (alike : receiver.Like footing.layout.likeness receiver')
    : omission.Together footing (do return .closure (← Run.bindMethod method receiver))
        (do return .closure (← Run.bindMethod method' receiver')) (LaidOut Value.Like) :=
  (together_bindMethod waits alike).bind fun _ _ _ _ bound => .pure (.closure bound)

/-- A property is like the one read on the other side, a field or a bound method. -/
theorem together_readProperty {object object' : Value} (name : Token)
    (alike : object.Like footing.layout.likeness object')
    : omission.Together footing (Run.readProperty object name) (Run.readProperty object' name)
        (LaidOut Value.Like) := by
  cases alike with
  | @object address lineage lineage' alike =>
      refine (together_field? address name.lexeme).bind fun field field' between more related => ?_
      cases related with
      | none =>
          have alike := alike.mono more.below
          have methods := alike.methods name.lexeme
          cases found : lineage.method? name.lexeme <;>
            cases found' : lineage'.method? name.lexeme <;>
            rw [found, found'] at methods <;>
            cases methods
          · exact together_failAt name _
          · next waits => exact together_found waits (.object address alike)
      | some alike => exact .pure alike
  | _ => exact together_failAt name _

/-- The receiver stands in the scope just inside of the one that `super` is bound to. -/
theorem together_readSuper {keyword keyword' : Reference (Option Nat)} (method : Token)
    (stands : footing.At gap) (omitsKeyword : keyword.Omits gap keyword')
    (apart : ∀ distance, keyword'.binding = some distance → gap ≠ some distance)
    : omission.Together footing (Run.readSuper keyword method) (Run.readSuper keyword' method)
        (LaidOut Value.Like) := by
  obtain ⟨name, binding⟩ := keyword
  obtain ⟨name', binding'⟩ := keyword'
  obtain ⟨rfl, rfl⟩ : name' = name ∧ binding = binding'.map gap.across :=
    ⟨omitsKeyword.name, omitsKeyword.binding⟩
  cases binding' with
  | none => exact .throw (.same _)
  | some distance =>
      have receiver := Gap.across_pred (apart distance rfl)
      refine (together_readVariable stands omitsKeyword).bind
        fun superclass superclass' between more found => ?_
      have stands := stands.extend more
      intro machine machine' omits
      have ancestors := together_ancestor omits stands name' (distance - 1)
      rw [← receiver] at ancestors
      refine ancestors.bind (fun scope scope' after more reached => ?_) machine machine' omits
      obtain ⟨gap', known, real⟩ := reached
      refine (together_receiverIn known real).bind fun receiver receiver' last further alike => ?_
      cases found with
      | @«class» lineage lineage' found =>
          have methods := (found.mono (omission.trans more further).below).methods method.lexeme
          simp only
          cases found : lineage.method? method.lexeme <;>
            cases found' : lineage'.method? method.lexeme <;>
            rw [found, found'] at methods <;>
            cases methods
          · exact together_failAt method _
          · next waits => exact together_found waits alike
      | _ => exact .throw (.same _)

end Loops

end Lox
