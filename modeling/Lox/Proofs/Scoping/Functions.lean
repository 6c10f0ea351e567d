import Lox.Proofs.Scoping.Definitions

/-! Opening scopes and creating functions while watched.

A new scope is an instance of the scope that the binder opens there. A new function holds what the
binder made of its text, and sees what the binder saw around it.
-/

namespace Lox.Scoping

open Binding

namespace Watched

variable {fresh : String → Prop} {before watched : Watched}

-----
-- Opening scopes

/-- A scope that was opened belongs to its frame. -/
theorem frameOf_opened (watched : Watched) (frame : Frame) (parent : Nat)
    : (watched.opened frame parent).frameOf watched.machine.scopes.size = frame :=
  setAt_self _ _ _

/-- A scope that was opened has its parent. -/
theorem parent?_opened (watched : Watched) (frame : Frame) (parent : Nat)
    : (watched.opened frame parent).machine.scopes.parent? watched.machine.scopes.size
        = some parent :=
  (Forest.parent?_push _ _ _).trans (if_pos rfl)

/-- The new scope is an instance of its frame, inside the instances of the others. -/
theorem Fits.opened {parent : Nat} {frames : List Frame} {views : List (Table Bool)}
    {after : Watched} {frame : Frame} {view : Table Bool}
    (fits : watched.Fits parent frames views)
    (more : (watched.opened frame parent).Extends fresh after)
    (covered
      : ∀ name,
          view.get? name = some true
          → (after.machine.scopes.cell? watched.machine.scopes.size name).isSome = true)
    : after.Fits watched.machine.scopes.size (frame :: frames) (view :: views) := by
  have grows : watched.Grows fresh (watched.opened frame parent) := .opened _ _ _
  have known : watched.machine.scopes.size < (watched.opened frame parent).machine.scopes.size := by
    change _ < (watched.machine.scopes.push (some parent)).size
    rw [Forest.size_push]
    exact Nat.lt_succ_self _
  have here : after.frameOf watched.machine.scopes.size = frame :=
    (more.frameOf _ known).trans (watched.frameOf_opened frame parent)
  have outer : after.machine.scopes.parent? watched.machine.scopes.size = some parent :=
    (more.parent _ known).trans (watched.parent?_opened frame parent)
  have inner := Fits.inner outer covered (more.fits (grows.fits fits))
  rwa [here] at inner

/-- A new scope is filled before anybody sees it. -/
def openedWith (watched : Watched) (frame : Frame) (parent : Nat) (name : String)
    (value : Value)
    : Watched :=
  (watched.opened frame parent).put watched.machine.scopes.size name value

/-- A scope opened with a value in it makes the watched state grow. -/
theorem Grows.openedWith (sound : watched.Sound) (frame : Frame) (parent : Nat) (name : String)
    (value : Value)
    : watched.Grows fresh (watched.openedWith frame parent name value) := by
  refine (Grows.opened watched frame parent).trans (.put _ _ value fun global => ?_)
  exact absurd global (Nat.ne_of_gt sound.rooted)

/-- A scope opened with a value holds it under its name. -/
theorem cell?_openedWith (watched : Watched) (frame : Frame) (parent : Nat) (name : String)
    (value : Value)
    : (watched.openedWith frame parent name value).machine.scopes.cell?
        watched.machine.scopes.size name
        = some value := by
  refine Forest.cell?_put_self _ ?_ name value
  change _ < (watched.machine.scopes.push (some parent)).size
  rw [Forest.size_push]
  exact Nat.lt_succ_self _

/-- The scope of a receiver holds an instance, and that of a superclass holds a class. -/
theorem Sound.openedWith (sound : before.Sound) {frame : Frame} (parent : Nat) {name : String}
    {value : Value} (traced : before.Traced value)
    (receiver
      : frame.kind = .receiver
        → name = "this" ∧ ∃ address lineage, value = .object address lineage)
    (superclass
      : frame.kind = .superclass → name = "super" ∧ ∃ lineage, value = .class lineage)
    : (before.openedWith frame parent name value).Sound := by
  let after := before.openedWith frame parent name value
  have grows : before.Grows (fun _ => True) after := .openedWith sound frame parent name value
  have new : after.frameOf before.machine.scopes.size = frame :=
    before.frameOf_opened frame parent
  have filled : after.machine.scopes.cell? before.machine.scopes.size name = some value :=
    before.cell?_openedWith frame parent name value
  have others {scope : Nat} (other : scope ≠ before.machine.scopes.size) (found : String)
      : after.machine.scopes.cell? scope found = before.machine.scopes.cell? scope found := by
    change ((before.machine.scopes.push (some parent)).put _ name value).cell? scope found = _
    rw [Forest.cell?_put, if_neg (fun here => other here.1), Forest.cell?_push]
  have outer {scope : Nat} (other : scope ≠ before.machine.scopes.size)
      : after.machine.scopes.parent? scope = before.machine.scopes.parent? scope := by
    change ((before.machine.scopes.push (some parent)).put _ name value).parent? scope = _
    rw [Forest.parent?_put, Forest.parent?_push, if_neg other]
  refine sound.step grows.toExtends ?_ sameFields ?_ ?_ (fun _ => .inl) (fun _ => .inl)
  · intro scope name' value' found
    change ((before.machine.scopes.push (some parent)).put _ name value).cell? scope name' = _
      at found
    rw [Forest.cell?_put] at found
    split at found
    · exact .inr (Option.some.inj found ▸ grows.traced traced)
    · rw [Forest.cell?_push] at found
      exact .inl found
  · intro scope parent' found isReceiver
    by_cases here : scope = before.machine.scopes.size
    · rw [here] at isReceiver ⊢
      obtain ⟨rfl, address, lineage, rfl⟩ := receiver (new ▸ isReceiver)
      exact .inr ⟨address, lineage, filled⟩
    · exact .inl ⟨(outer here).symm.trans found, others here "this"⟩
  · intro scope parent' found isSuperclass
    by_cases here : scope = before.machine.scopes.size
    · rw [here] at isSuperclass ⊢
      obtain ⟨rfl, lineage, rfl⟩ := superclass (new ▸ isSuperclass)
      exact .inr ⟨lineage, filled⟩
    · exact .inl ⟨(outer here).symm.trans found, others here "super"⟩

end Watched

section

variable {fresh : String → Prop} {before : Watched} {site : Site}

/-- A scope for names is opened on both sides. -/
theorem tracks_openScope (sound : before.Sound) {frame : Frame} (parent : Nat)
    (notReceiver : frame.kind ≠ .receiver) (notSuperclass : frame.kind ≠ .superclass)
    : Tracks fresh (Run.newScope parent) (Watch.openScope frame parent) before
        (fun scope after =>
          after = before.opened frame parent ∧ scope = before.machine.scopes.size) :=
  .of_ok rfl rfl (.opened _ _ _) (sound.opened parent notReceiver notSuperclass) ⟨rfl, rfl⟩

/-- A block starts without names of its own. -/
theorem Watched.FitsAt.block {parent : Nat} (fits : before.FitsAt parent site)
    : (before.opened { kind := .block, place := site.place } parent).FitsAt
        before.machine.scopes.size (site.opened .block) := by
  have grows
      : before.Grows (fun _ => True)
          (before.opened { kind := .block, place := site.place } parent) :=
    .opened _ _ _
  have none (name : String) : (Table.empty : Table Bool).get? name ≠ some true := by
    simp [Table.get?_empty]
  let after := before.opened { kind := .block, place := site.place } parent
  have same : after.Extends (fun _ => True) after := .refl after
  exact ⟨fits.locals.opened same fun name found => absurd found (none name),
    grows.covers fits.globals⟩

/-- Where the body of a function runs, the parameters have values. -/
theorem Watched.FitsAt.inside {parent : Nat} {after : Watched} (fits : before.FitsAt parent site)
    (function : Lambda Unit)
    (more
      : (before.opened { kind := .function, place := site.place } parent).Extends fresh after)
    (defined
      : ∀ name ∈ function.parameters,
          (after.machine.scopes.cell? before.machine.scopes.size name.lexeme).isSome = true)
    : after.FitsAt before.machine.scopes.size (site.inside function) := by
  have grows
      : before.Grows fresh (before.opened { kind := .function, place := site.place } parent) :=
    .opened _ _ _
  let opened := site.scopes.enteredFunction.opened
  have views
      : (function.parameters.forM declareParameter opened).2.views
          = withParameters LocalScope.empty.names function.parameters :: site.scopes.views :=
    declareParameters_views rfl function.parameters
  refine ⟨?_, ?_⟩
  · change after.Fits _ ({ kind := .function, place := site.place } :: site.frames)
      (function.parameters.forM declareParameter opened).2.views
    rw [views]
    refine fits.locals.opened more fun name found => ?_
    rw [get?_withParameters] at found
    split at found
    · next member =>
        obtain ⟨parameter, listed, rfl⟩ := List.mem_map.1 member
        exact defined parameter listed
    · cases found
  · change after.Covers (function.parameters.forM declareParameter opened).2.globals
    rw [declareParameters_globals _ rfl]
    exact more.covers (grows.covers fits.globals)

-----
-- Creating functions

/-- A closure is created on both sides, with its origin remembered. -/
theorem tracks_newClosure (sound : before.Sound) {origin : Origin} (met : origin.Sound)
    (scope : Nat) (name : Option String) (isInitializer : Bool)
    : Tracks fresh
        (Run.newClosure (bindFunction origin.function origin.site.scopes).1 scope name
          isInitializer)
        (Watch.newClosure origin (bindFunction origin.function origin.site.scopes).1 scope name
          isInitializer)
        before
        (fun closure after =>
          after.Holds closure
          ∧ after.originOf closure.id = origin
          ∧ closure.scope = scope
          ∧ closure.isInitializer = isInitializer) := by
  have here : (before.numbered origin).originOf before.machine.nextId = origin :=
    Watched.setAt_self _ _ _
  refine .of_ok rfl rfl (.numbered _ _) (sound.numbered origin) ⟨?_, here, rfl, rfl⟩
  refine ⟨Nat.lt_succ_self _, ?_, ?_⟩
  · change ((before.numbered origin).originOf before.machine.nextId).Sound
    rw [here]
    exact met
  · change _ = (bindFunction ((before.numbered origin).originOf before.machine.nextId).function
      ((before.numbered origin).originOf before.machine.nextId).site.scopes).1
    rw [here]

/-- A method that is given its receiver can run. -/
theorem tracks_bindMethod (sound : before.Sound) {method : Closure}
    (waiting : before.Waiting method) {address : Nat} {lineage : Lineage}
    (traced : before.Class lineage)
    : Tracks fresh (Run.bindMethod method (.object address lineage))
        (Watch.bindMethod method (.object address lineage)) before
        (fun closure after => after.Free closure ∧ closure.function = method.function) := by
  obtain ⟨frame, frames, view, views, split, viewSplit, isReceiver, only, fits⟩ :=
    waiting.awaits.locals
  let origin := before.originOf method.id
  let filled := before.openedWith frame method.scope "this" (.object address lineage)
  let after := filled.numbered origin
  have first : origin.site.frames.headD { kind := .receiver, place := [] } = frame := by
    rw [split]
    rfl
  let bound : Closure :=
    {
      id := before.machine.nextId,
      function := method.function,
      scope := before.machine.scopes.size,
      name := method.name,
      isInitializer := method.isInitializer
    }
  have watched : Watch.bindMethod method (.object address lineage) before = .ok bound after := by
    have run
        : Watch.bindMethod method (.object address lineage) before
            = .ok bound
                ((before.openedWith (origin.site.frames.headD { kind := .receiver, place := [] })
                  method.scope "this" (.object address lineage)).numbered origin) :=
      rfl
    rw [first] at run
    exact run
  have grows : before.Grows fresh filled := .openedWith sound frame _ _ _
  have numbers : filled.Grows fresh after := .numbered _ _
  have filledSound : filled.Sound :=
    sound.openedWith method.scope traced (fun _ => ⟨rfl, address, lineage, rfl⟩)
      (fun isSuperclass => by rw [isReceiver] at isSuperclass; cases isSuperclass)
  have here : after.originOf before.machine.nextId = origin := Watched.setAt_self _ _ _
  refine .of_ok watched rfl (grows.trans numbers) (filledSound.numbered origin) ⟨?_, rfl⟩
  refine ⟨⟨Nat.lt_succ_self _, ?_, ?_⟩, ?_, ?_⟩
  · change (after.originOf before.machine.nextId).Sound
    rw [here]
    exact waiting.holds.origin
  · change _ = (bindFunction (after.originOf before.machine.nextId).function
      (after.originOf before.machine.nextId).site.scopes).1
    rw [here]
    exact waiting.holds.function
  · change after.FitsAt before.machine.scopes.size (after.originOf before.machine.nextId).site
    rw [here]
    refine ⟨?_, numbers.covers (grows.covers waiting.awaits.globals)⟩
    have opens : (before.opened frame method.scope).Grows fresh filled :=
      .put _ _ _ fun global => absurd global (Nat.ne_of_gt sound.rooted)
    rw [split, viewSplit]
    refine fits.opened (opens.trans numbers).toExtends fun name found => ?_
    obtain rfl := only name found
    refine numbers.cell _ _ ?_
    rw [before.cell?_openedWith frame method.scope "this" _]
    rfl
  · intro _
    change ∃ frame rest,
      (after.originOf before.machine.nextId).site.frames = frame :: rest ∧ frame.kind = .receiver
    rw [here]
    exact ⟨frame, frames, split, isReceiver⟩

-----
-- Receivers

/-- An initializer runs in a scope just inside that of its receiver. -/
theorem Watched.Free.receiver (sound : before.Sound) {closure : Closure}
    (free : before.Free closure) (isInitializer : closure.isInitializer = true)
    : ∃ address lineage,
        before.machine.scopes.cell? closure.scope "this" = some (.object address lineage) := by
  obtain ⟨frame, rest, split, isReceiver⟩ := free.initializer isInitializer
  have fits := free.fits.locals
  rw [split] at fits
  generalize (before.originOf closure.id).site.scopes.views = views at fits
  generalize closure.scope = scope at fits ⊢
  cases fits with
  | inner outer covered rest => exact sound.receivers _ _ outer isReceiver

/-- The receiver of a scope is read on both sides. -/
theorem tracks_receiverIn (sound : before.Sound) {scope : Nat} {receiver : Value}
    (held : before.machine.scopes.cell? scope "this" = some receiver)
    : Tracks fresh (Run.receiverIn scope) (Watch.lift (Run.receiverIn scope)) before
        (fun value after => value = receiver ∧ after.Traced value) := by
  exact .quiet sound (Run.receiverIn_held held) rfl rfl (Nat.le_refl _) rfl ⟨rfl, sound.cells _ _ _ held⟩

end

end Lox.Scoping
