import Lox.Proofs.Scoping.Actions

/-! Defining names while watched.

What the binder knows behind a declaration holds as soon as the machine has defined the name. New
scopes are instances of the scopes that the binder opens.
-/

namespace Lox.Scoping

open Binding

namespace Watched

variable {fresh : String → Prop} {watched before after : Watched} {scope : Nat} {site : Site}
  {name : Token} {value : Value}

-----
-- Chains of scopes

/-- A scope that fits is one of the machine. -/
theorem Fits.lt_size {frames : List Frame} {views : List (Table Bool)}
    (fits : watched.Fits scope frames views) (sound : watched.Sound)
    : scope < watched.machine.scopes.size := by
  cases fits with
  | outermost => exact sound.rooted
  | inner outer covered rest => exact Forest.lt_size_of_parent? outer

/-- Only where no scope is open the global scope is the current one. -/
theorem Fits.frames_nil {frames : List Frame} {views : List (Table Bool)}
    (fits : watched.Fits scope frames views) (sound : watched.Sound)
    (global : scope = globalScope)
    : frames = [] := by
  cases fits with
  | outermost => rfl
  | inner outer covered rest =>
      rw [global, sound.root] at outer
      cases outer

namespace FitsAt

/-- A part of a site fits where the site does. -/
theorem child (fits : watched.FitsAt scope site) (number : Nat)
    : watched.FitsAt scope (site.child number) :=
  ⟨fits.locals, fits.globals⟩

/-- Inside of one more loop a site fits where it did. -/
theorem looping (fits : watched.FitsAt scope site) : watched.FitsAt scope site.looping :=
  ⟨fits.locals, fits.globals⟩

/-- A site fits with whatever keeps its scopes. -/
theorem kept (fits : watched.FitsAt scope site) {scopes : Scopes}
    (kept : site.scopes.Kept scopes)
    : watched.FitsAt scope { site with scopes } := by
  have views : scopes.views = site.scopes.views := kept.views
  refine ⟨?_, ?_⟩
  · change watched.Fits scope site.frames scopes.views
    rw [views]
    exact fits.locals
  · change watched.Covers scopes.globals
    rw [kept.globals]
    exact fits.globals

/-- The scope that declarations go to holds all that is now known to be defined there. -/
theorem changed (fits : watched.FitsAt scope site) {scopes : Scopes}
    {change : Table Bool → Table Bool} (changes : site.scopes.Changes change scopes)
    (covered
      : ∀ (table : Table Bool) (name : String),
          (change table).get? name = some true
          → table.get? name = some true
            ∨ (watched.machine.scopes.cell? scope name).isSome = true)
    : watched.FitsAt scope { site with scopes } := by
  obtain ⟨locals, globals⟩ := fits
  rcases changes with ⟨before, after, known⟩ | ⟨view, views, before, after, known⟩
  · rw [before] at locals
    have outermost : scope = globalScope := by
      generalize site.frames = frames at locals
      cases locals
      rfl
    refine ⟨?_, ?_⟩
    · change watched.Fits scope site.frames scopes.views
      rw [after]
      exact locals
    · change watched.Covers scopes.globals
      rw [known]
      intro name found
      rcases covered _ name found with earlier | defined
      · exact globals name earlier
      · exact outermost ▸ defined
  · rw [before] at locals
    refine ⟨?_, ?_⟩
    · change watched.Fits scope site.frames scopes.views
      rw [after]
      generalize site.frames = frames at locals ⊢
      cases locals with
      | inner outer held rest =>
          refine .inner outer (fun name found => ?_) rest
          rcases covered view name found with earlier | defined
          · exact held name earlier
          · exact defined
    · change watched.Covers scopes.globals
      rw [known]
      exact globals

/-- A pending name need not have a value. -/
theorem declaring (fits : watched.FitsAt scope site) (name : Token)
    : watched.FitsAt scope (site.declaring name) := by
  have changed := fits.changed (site.scopes.declared_changes name true) fun table other found => by
    by_cases same : other = name.lexeme
    · subst same
      unfold Table.insertIfNew at found
      split at found
      · exact .inl found
      · rw [Table.get?_insert_self] at found
        cases found
    · rw [Table.get?_insertIfNew_of_ne table false same] at found
      exact .inl found
  exact ⟨changed.locals, changed.globals⟩

/-- Behind its declaration a name has a value. -/
theorem introducing (fits : watched.FitsAt scope site)
    (defined : (watched.machine.scopes.cell? scope name.lexeme).isSome = true)
    : watched.FitsAt scope (site.introducing name) := by
  have changes := (site.scopes.declared_changes name true).trans
    ((site.scopes.declared name true).defined_changes name.lexeme)
  refine fits.changed changes fun table other found => ?_
  rw [Table.get?_insert] at found
  split at found
  · next same => exact .inr (same ▸ defined)
  · next apart =>
      rw [Table.get?_insertIfNew_of_ne table false apart] at found
      exact .inl found

end FitsAt

-----
-- Changing the current scope

/-- The machine in another scope. -/
def moved (watched : Watched) (scope : Nat) : Watched :=
  { watched with machine := { watched.machine with current := scope } }

/-- Moving to another scope extends the watched state. -/
theorem Extends.moved (watched : Watched) (scope : Nat)
    : watched.Extends fresh (watched.moved scope) :=
  ⟨Nat.le_refl _, fun _ _ => rfl, fun _ _ => rfl, fun _ _ => id, Nat.le_refl _, fun _ _ => rfl,
    fun _ => .inl⟩

/-- Moving to another scope keeps the watched state sound. -/
theorem Sound.moved (sound : watched.Sound) (scope : Nat) : (watched.moved scope).Sound := by
  have more : watched.Extends (fun _ => True) (watched.moved scope) := .moved watched scope
  exact sound.sameScopes more rfl rfl (fun _ => .inl) (fun _ => .inl)

end Watched

-----
-- Actions in other scopes

section

variable {α : Type} {fresh : String → Prop} {before : Watched}

/-- What yields a value inside of a scope does so around it, with the scope moved back. -/
theorem Watch.within_ok {scope : Nat} {watch : Watch α} {value : α} {after : Watched}
    (watched : watch (before.moved scope) = .ok value after)
    : Watch.within scope watch before = .ok value (after.moved before.machine.current) := by
  unfold Watched.moved at watched ⊢
  unfold Watch.within
  simp only [watched]

/-- What fails inside of a scope fails around it, with the scope moved back. -/
theorem Watch.within_error {scope : Nat} {watch : Watch α} {fault : Fault} {after : Watched}
    (watched : watch (before.moved scope) = .error fault after)
    : Watch.within scope watch before = .error fault (after.moved before.machine.current) := by
  unfold Watched.moved at watched ⊢
  unfold Watch.within
  simp only [watched]

/-- What is tracked inside of a scope is tracked around it. -/
theorem Tracks.within {scope : Nat} {action : Run α} {watch : Watch α}
    {post post' : α → Watched → Prop} (tracks : Tracks fresh action watch (before.moved scope) post)
    (stable
      : ∀ value between after,
          between.Extends fresh after → post value between → post' value after)
    : Tracks fresh (Run.within scope action) (Watch.within scope watch) before post' := by
  unfold Tracks at tracks
  unfold Tracks
  cases watched : watch (before.moved scope) with
  | ok value after =>
      rw [watched] at tracks
      obtain ⟨ran, grows, sound, holds⟩ := tracks
      rw [Watch.within_ok watched]
      refine ⟨Run.within_ok ran, ⟨?_, rfl⟩, sound.moved _, stable _ _ _ (.moved after _) holds⟩
      exact (Watched.Extends.moved before scope).trans (grows.toExtends.trans (.moved after _))
  | error fault after =>
      rw [watched] at tracks
      obtain ⟨ran, grows, sound, ordinary⟩ := tracks
      rw [Watch.within_error watched]
      refine ⟨Run.within_error ran, ⟨?_, rfl⟩, sound.moved _, ordinary⟩
      exact (Watched.Extends.moved before scope).trans (grows.toExtends.trans (.moved after _))

/-- Two actions in a row are watched as one after the other. -/
theorem Watch.lift_bind {β : Type} (action : Run α) (next : α → Run β)
    : Watch.lift (action >>= next) = Watch.lift action >>= fun value => Watch.lift (next value) := by
  funext watched
  change Watch.lift (EStateM.bind action next) watched
    = EStateM.bind (Watch.lift action) (fun value => Watch.lift (next value)) watched
  unfold Watch.lift EStateM.bind
  simp only
  cases action watched.machine <;> rfl

-----
-- Defining names

/-- A program may write to a name of the scope without making a name global that it must not. -/
def Watched.MayWrite (fresh : String → Prop) (watched : Watched) (scope : Nat) (name : String)
    : Prop :=
  scope = globalScope
  → fresh name ∨ (watched.machine.scopes.cell? globalScope name).isSome = true

/-- A definition in a scope tracks itself, if the value is traced where it then stands. -/
theorem tracks_defineIn (sound : before.Sound) {scope : Nat} {name : Token} {value : Value}
    (proper : name.IsName)
    (traced
      : before.Grows fresh (before.put scope name.lexeme value)
        → (before.put scope name.lexeme value).Traced value)
    (allowed : before.MayWrite fresh scope name.lexeme)
    : Tracks fresh (Run.defineIn scope name.lexeme value)
        (Watch.lift (Run.defineIn scope name.lexeme value)) before
        (fun _ after => after = before.put scope name.lexeme value) := by
  have grows : before.Grows fresh (before.put scope name.lexeme value) := .put _ _ _ allowed
  exact .of_ok rfl rfl grows (sound.put grows (traced grows) proper.2.1 proper.2.2) rfl

/-- What a name is defined as may refer to the name itself. -/
theorem tracks_define (sound : before.Sound) {name : Token} {value : Value}
    (proper : name.IsName) (known : before.machine.current < before.machine.scopes.size)
    (traced
      : ∀ after,
          before.Grows fresh after
          → (after.machine.scopes.cell? before.machine.current name.lexeme).isSome = true
          → after.Traced value)
    (allowed : before.MayWrite fresh before.machine.current name.lexeme)
    : Tracks fresh (Run.define name value) (Watch.lift (Run.define name value)) before
        (fun _ after =>
          (after.machine.scopes.cell? after.machine.current name.lexeme).isSome = true) := by
  let put := before.put before.machine.current name.lexeme value
  have defined : (put.machine.scopes.cell? before.machine.current name.lexeme).isSome = true :=
    Option.isSome_iff_exists.2 ⟨value, Forest.cell?_put_self _ known _ _⟩
  have defines
      : Tracks fresh (Run.define name value) (Watch.lift (Run.define name value)) before
          (fun _ after => after = put) :=
    tracks_defineIn sound proper (fun grows => traced put grows defined) allowed
  refine defines.weaken fun _ after _ same => ?_
  rw [same]
  exact defined

/-- Every parameter has a value in the scope of the call. -/
theorem tracks_defineAll {pairs : List (Token × Value)} {before : Watched} (sound : before.Sound)
    {scope : Nat} (known : scope < before.machine.scopes.size) (inner : scope ≠ globalScope)
    (proper : ∀ pair ∈ pairs, pair.1.IsName) (traced : ∀ pair ∈ pairs, before.Traced pair.2)
    : Tracks fresh (Evaluator.defineAll scope pairs)
        (Watch.lift (Evaluator.defineAll scope pairs)) before
        (fun _ after =>
          ∀ pair ∈ pairs,
            (after.machine.scopes.cell? scope pair.1.lexeme).isSome = true) := by
  induction pairs generalizing before with
  | nil => exact .pure sound fun _ member => absurd member List.not_mem_nil
  | cons first rest ih =>
      obtain ⟨name, value⟩ := first
      have outer : before.MayWrite fresh scope name.lexeme := fun global => absurd global inner
      have defined := tracks_defineIn sound (proper _ List.mem_cons_self)
        (fun grows => grows.traced (traced _ List.mem_cons_self)) outer
      unfold Evaluator.defineAll
      rw [Watch.lift_bind]
      refine defined.bind fun _ between grows sound' same => ?_
      have others := ih sound' (Nat.lt_of_lt_of_le known grows.size)
        (fun pair member => proper pair (List.mem_cons_of_mem _ member))
        (fun pair member => grows.traced (traced pair (List.mem_cons_of_mem _ member)))
      have here : (between.machine.scopes.cell? scope name.lexeme).isSome = true := by
        rw [same]
        change ((before.machine.scopes.put scope name.lexeme value).cell? scope _).isSome = true
        rw [Forest.cell?_put_self _ known]
        rfl
      refine others.weaken fun _ after more holds pair member => ?_
      rcases List.mem_cons.1 member with rfl | member
      · exact more.cell _ _ here
      · exact holds pair member

/-- Assigning makes no name global that was not. -/
theorem tracks_assignFrom (sound : before.Sound) (scope : Nat) {name : Token} {value : Value}
    (proper : name.IsName) (traced : before.Traced value)
    : Tracks fresh (Run.assignFrom scope name value)
        (Watch.lift (Run.assignFrom scope name value)) before (fun _ _ => True) := by
  cases found : before.machine.scopes.holder? scope name.lexeme with
  | none =>
      have run : Run.assignFrom scope name value before.machine = _ := Run.assignFrom_missing found
      exact (Tracks.failAt sound name .undefinedVariable).congr run (Watch.lift_congr run)
  | some holder =>
      have run : Run.assignFrom scope name value before.machine = _ := Run.assignFrom_held found
      have allowed : before.MayWrite fresh holder name.lexeme := fun global =>
        .inr (global ▸ Forest.holder?_isSome found)
      have defines := tracks_defineIn sound proper (fun grows => grows.traced traced) allowed
      exact (defines.congr run (Watch.lift_congr run)).weaken fun _ _ _ _ => trivial

-----
-- Completing declarations

/-- A declaration whose name is defined may be booked as completed. -/
theorem Watched.Sound.completing (sound : before.Sound) {declaration : Declaration} {scope : Nat}
    (defined : (before.machine.scopes.cell? scope declaration.name).isSome = true)
    : Watched.Sound { before with completed := (declaration, scope) :: before.completed } := by
  have more
      : before.Extends (fun _ => True)
          { before with completed := (declaration, scope) :: before.completed } :=
    ⟨Nat.le_refl _, fun _ _ => rfl, fun _ _ => rfl, fun _ _ => id, Nat.le_refl _,
      fun _ _ => rfl, fun _ => .inl⟩
  refine sound.sameScopes more rfl rfl (fun entry member => ?_) (fun _ => .inl)
  rcases List.mem_cons.1 member with rfl | member
  · exact .inr defined
  · exact .inl member

/-- A definition in the current scope tracks itself and is booked as completed. -/
theorem tracks_complete (sound : before.Sound) {site : Site} {name : Token} {value : Value}
    (known : before.machine.current < before.machine.scopes.size) (proper : name.IsName)
    (traced : before.Traced value)
    (allowed : before.MayWrite fresh before.machine.current name.lexeme)
    : Tracks fresh (Run.define name value) (Watch.complete site name value) before
        (fun _ after =>
          (after.machine.scopes.cell? after.machine.current name.lexeme).isSome = true) := by
  let put := before.put before.machine.current name.lexeme value
  let declaration : Declaration :=
    { name := name.lexeme, place := site.place, frames := site.frames }
  have grows : before.Grows fresh put := .put _ _ _ allowed
  have defined : (put.machine.scopes.cell? before.machine.current name.lexeme).isSome = true := by
    rw [Option.isSome_iff_exists]
    exact ⟨value, Forest.cell?_put_self _ known _ _⟩
  have putSound : put.Sound := sound.put grows (grows.traced traced) proper.2.1 proper.2.2
  have soundAfter : Watched.Sound
      { put with completed := (declaration, before.machine.current) :: put.completed } :=
    putSound.completing defined
  refine .of_ok rfl rfl ?_ soundAfter defined
  exact
    ⟨⟨grows.size, grows.parent, grows.frameOf, grows.cell, grows.nextId, grows.originOf,
      grows.globals⟩, grows.current⟩

end

end Lox.Scoping
