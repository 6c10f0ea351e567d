import Lox.Proofs.Binding.Lookup
import Lox.Proofs.Scoping.Site

/-! What the binder knows at a site, compared with the scopes of the text that are open there.

Every scope that the binder has open is one scope of the text. A name is pending only inside the
initial value of its own declaration, and only functions lie between a scope and a place that does
not count it among its own.
-/

namespace Lox.Scoping

open Binding

-----
-- Scopes of the binder and scopes of the text

/-- No declaration introduces `this` and `super`. They are names of their own scopes only. -/
def FrameKind.Shows (kind : FrameKind) (view : Table Bool) : Prop :=
  view.get? "this" = (if kind = .receiver then some true else none)
  ∧ view.get? "super" = (if kind = .superclass then some true else none)

/-- The scopes that the binder has open are these scopes of the text. The innermost of them, up to
the base, are those of the innermost function. -/
structure Standing (frames : List Frame) (views : List (Table Bool))
    (pending : List Declaration) (base : Nat)
    : Prop where
  length : views.length = frames.length
  shows
    : ∀ (distance : Nat) (frame : Frame) (view : Table Bool),
        frames[distance]? = some frame → views[distance]? = some view → frame.kind.Shows view
  incomplete
    : ∀ (distance : Nat) (name : String),
        flagAt? views distance name = some false
        → ∃ declaration ∈ pending,
            declaration.name = name ∧ declaration.frames = frames.drop distance
  bounded : base ≤ frames.length
  nested
    : ∀ distance,
        frames.length - base ≤ distance
        → distance < frames.length
        → ∃ frame ∈ frames.take distance, frame.kind = .function

namespace Standing

variable {frame : Frame} {frames : List Frame} {view view' : Table Bool}
  {views : List (Table Bool)} {pending pending' : List Declaration} {base : Nat}

/-- Outside of all scopes no scope stands open. -/
theorem nil : Standing [] [] pending 0 :=
  {
    length := rfl
    shows := nofun
    incomplete := fun distance name found => by simp [flagAt?_nil] at found
    bounded := Nat.le_refl 0
    nested := fun _ _ less => absurd less (Nat.not_lt_zero _)
  }

/-- A scope without pending names is opened. It belongs to the innermost function, unless it is
the scope of a function itself. -/
theorem push (standing : Standing frames views pending base) (shown : frame.kind.Shows view)
    (complete : ∀ name, view.get? name ≠ some false) {base' : Nat}
    (own : base' = base ∨ base' = frames.length ∧ frame.kind = .function)
    : Standing (frame :: frames) (view :: views) pending base' := by
  have bounded := standing.bounded
  refine ⟨by simp [standing.length], ?_, ?_, ?_, ?_⟩
  · intro distance frame' view' here there
    cases distance with
    | zero =>
        obtain rfl := Option.some.inj here
        obtain rfl := Option.some.inj there
        exact shown
    | succ distance => exact standing.shows distance frame' view' here there
  · intro distance name found
    cases distance with
    | zero => exact absurd found (complete name)
    | succ distance => exact standing.incomplete distance name found
  · rcases own with rfl | ⟨rfl, -⟩ <;> simp only [List.length_cons] <;> omega
  · intro distance beyond less
    simp only [List.length_cons] at beyond less
    rcases own with rfl | ⟨rfl, isFunction⟩
    · cases distance with
      | zero => omega
      | succ distance =>
          obtain ⟨found, member, isFunction⟩ :=
            standing.nested distance (by omega) (by omega)
          exact ⟨found, by simp [member], isFunction⟩
    · cases distance with
      | zero => omega
      | succ distance => exact ⟨frame, by simp, isFunction⟩

/-- Names are added to the innermost scope, or become defined there. -/
theorem setInnermost (standing : Standing (frame :: frames) (view :: views) pending base)
    (shown : frame.kind.Shows view')
    (kept : ∀ declaration ∈ pending, declaration ∈ pending')
    (covered
      : ∀ name,
          view'.get? name = some false
          → view.get? name = some false
            ∨ ∃ declaration ∈ pending',
                declaration.name = name ∧ declaration.frames = frame :: frames)
    : Standing (frame :: frames) (view' :: views) pending' base := by
  refine ⟨standing.length, ?_, ?_, standing.bounded, standing.nested⟩
  · intro distance frame' other here there
    cases distance with
    | zero =>
        obtain rfl := Option.some.inj here
        obtain rfl := Option.some.inj there
        exact shown
    | succ distance => exact standing.shows (distance + 1) frame' other here there
  · intro distance name found
    have earlier {distance : Nat}
        (found : flagAt? (view :: views) distance name = some false)
        : ∃ declaration ∈ pending',
            declaration.name = name ∧ declaration.frames = (frame :: frames).drop distance := by
      obtain ⟨declaration, member, same⟩ := standing.incomplete distance name found
      exact ⟨declaration, kept declaration member, same⟩
    cases distance with
    | zero =>
        rcases covered name found with before | declared
        · exact earlier before
        · exact declared
    | succ distance => exact earlier found

end Standing

-----
-- Introducing names

namespace FrameKind.Shows

variable {kind : FrameKind} {view : Table Bool}

/-- A declared name shows no keyword, since it is none. -/
theorem insert (shown : kind.Shows view) {name : Token} (proper : name.IsName) (flag : Bool)
    : kind.Shows (view.insert name.lexeme flag) := by
  obtain ⟨-, notThis, notSuper⟩ := proper
  refine ⟨?_, ?_⟩
  · rw [Table.get?_insert_of_ne view flag notThis.symm]
    exact shown.1
  · rw [Table.get?_insert_of_ne view flag notSuper.symm]
    exact shown.2

/-- A name that is declared if it is new shows no keyword. -/
theorem insertIfNew (shown : kind.Shows view) {name : Token} (proper : name.IsName)
    (flag : Bool)
    : kind.Shows (view.insertIfNew name.lexeme flag) := by
  unfold Table.insertIfNew
  split
  · exact shown
  · exact shown.insert proper flag

/-- Only the scope of a receiver has the name `this`. -/
theorem receiver (shown : kind.Shows view) {flag : Bool} (has : view.get? "this" = some flag)
    : kind = .receiver := by
  have shown := has.symm.trans shown.1
  split at shown
  · assumption
  · cases shown

/-- Only the scope of a superclass has the name `super`. -/
theorem superclass (shown : kind.Shows view) {flag : Bool}
    (has : view.get? "super" = some flag)
    : kind = .superclass := by
  have shown := has.symm.trans shown.2
  split at shown
  · assumption
  · cases shown

end FrameKind.Shows

/-- Only the declared name can become pending. -/
theorem pending_of_insertIfNew {view : Table Bool} {name other : String}
    (found : (view.insertIfNew name false).get? other = some false)
    : view.get? other = some false ∨ other = name := by
  by_cases same : other = name
  · exact .inr same
  · rw [Table.get?_insertIfNew_of_ne view false same] at found
    exact .inl found

/-- A name that is defined right away is not pending. -/
theorem pending_of_introduced {view : Table Bool} {name other : String}
    (found : ((view.insertIfNew name false).insert name true).get? other = some false)
    : view.get? other = some false := by
  rw [Table.get?_insert] at found
  split at found
  · cases found
  · next apart =>
      rw [Table.get?_insertIfNew_of_ne view false apart] at found
      exact found

section

variable {frames : List Frame} {scopes : Scopes} {pending : List Declaration} {base : Nat}
  {name : Token}

/-- Where no scope is open, names are global. -/
theorem Standing.split (standing : Standing frames scopes.views pending base)
    : (frames = [] ∧ scopes.locals = [])
      ∨ ∃ frame outer view views,
          frames = frame :: outer ∧ scopes.views = view :: views ∧ frame.kind.Shows view := by
  have length := standing.length
  cases frames with
  | nil =>
      exact .inl ⟨rfl, Scopes.locals_of_views_nil (List.length_eq_zero_iff.1 length)⟩
  | cons frame outer =>
      cases found : scopes.views with
      | nil => simp [found] at length
      | cons view views =>
          have shown := standing.shows 0 frame view rfl (by rw [found]; rfl)
          exact .inr ⟨frame, outer, view, views, rfl, rfl, shown⟩

/-- Inside its own initial value a name is pending. -/
theorem Standing.declared (standing : Standing frames scopes.views pending base)
    (proper : name.IsName) (place : List Nat)
    : Standing frames (scopes.declared name true).views
        ({ name := name.lexeme, place, frames } :: pending) base := by
  rcases standing.split with ⟨rfl, none⟩ | ⟨frame, outer, view, views, rfl, split, shown⟩
  · have views : (scopes.declared name true).views = [] := by
      simp [Scopes.declared, none, Scopes.views]
    have bounded : base = 0 := Nat.le_zero.1 standing.bounded
    rw [views, bounded]
    exact .nil
  · rw [scopes.views_declared split]
    rw [split] at standing
    refine standing.setInnermost (shown.insertIfNew proper false)
      (fun _ member => List.mem_cons_of_mem _ member) fun other found => ?_
    rcases pending_of_insertIfNew found with before | rfl
    · exact .inl before
    · exact .inr ⟨_, List.mem_cons_self, rfl, rfl⟩

/-- What a statement introduces leaves the scopes standing as they are. -/
theorem Standing.introduced (standing : Standing frames scopes.views pending base)
    (proper : name.IsName)
    : Standing frames (scopes.introduced (some name)).views pending base := by
  rcases standing.split with ⟨rfl, none⟩ | ⟨frame, outer, view, views, rfl, split, shown⟩
  · have views : (scopes.introduced (some name)).views = scopes.views := by
      simp [Scopes.introduced, Scopes.declared, Scopes.defined, none, Scopes.views]
    rw [views]
    exact standing
  · have declared := scopes.views_declared split name true
    have introduced
        : (scopes.introduced (some name)).views
            = (view.insertIfNew name.lexeme false).insert name.lexeme true :: views :=
      Scopes.views_defined declared name.lexeme
    rw [introduced]
    rw [split] at standing
    exact standing.setInnermost ((shown.insertIfNew proper false).insert proper true)
      (fun _ member => member) fun other found => .inl (pending_of_introduced found)

end

-----
-- Sites

/-- What holds at every place of an accepted program. -/
structure Site.Sound (site : Site) : Prop where
  standing
    : Standing site.frames site.scopes.views site.pending site.scopes.functionBase
  receiver
    : site.scopes.classContext ≠ .outside → ∃ frame ∈ site.frames, frame.kind = .receiver
  superclass
    : site.scopes.classContext = .subclass
      → ∃ front receiver superclass rest,
          site.frames = front ++ receiver :: superclass :: rest
          ∧ receiver.kind = .receiver
          ∧ superclass.kind = .superclass
          ∧ ∀ frame ∈ front, frame.kind = .block ∨ frame.kind = .function

namespace Site.Sound

variable {site : Site}

/-- The start of a program is a sound site. -/
theorem start (number : Nat) (knownGlobals : List String)
    : (Site.start number knownGlobals).Sound :=
  {
    standing := .nil
    receiver := fun inside => absurd rfl inside
    superclass := nofun
  }

/-- A part of a sound site is sound. -/
theorem child (sound : site.Sound) (number : Nat) : (site.child number).Sound :=
  ⟨sound.standing, sound.receiver, sound.superclass⟩

/-- Names in scope are all that matters of the state of the binder. -/
theorem kept (sound : site.Sound) {scopes : Scopes} (kept : site.scopes.Kept scopes)
    : Site.Sound { site with scopes } := by
  refine ⟨?_, ?_, ?_⟩
  · have views : scopes.views = site.scopes.views := kept.views
    rw [views, kept.functionBase]
    exact sound.standing
  · rw [kept.classContext]
    exact sound.receiver
  · rw [kept.classContext]
    exact sound.superclass

/-- Inside of one more loop a sound site stays sound. -/
theorem looping (sound : site.Sound) : site.looping.Sound :=
  ⟨sound.standing, sound.receiver, sound.superclass⟩

/-- Behind a name that was introduced a sound site stays sound. -/
theorem introducing (sound : site.Sound) {name : Token} (proper : name.IsName)
    : (site.introducing name).Sound := by
  obtain ⟨locals, globals, introduced⟩ := site.scopes.introduced_eq (some name)
  have standing := sound.standing.introduced proper
  change Site.Sound { site with scopes := site.scopes.introduced (some name) }
  rw [introduced] at standing ⊢
  exact ⟨standing, sound.receiver, sound.superclass⟩

/-- In front of a declared name's definition a sound site stays sound. -/
theorem declaring (sound : site.Sound) {name : Token} (proper : name.IsName)
    : (site.declaring name).Sound := by
  obtain ⟨locals, globals, declared⟩ := site.scopes.declared_eq name true
  have standing := sound.standing.declared proper site.place
  change Site.Sound
    {
      site with
      scopes := site.scopes.declared name true,
      pending := { name := name.lexeme, place := site.place, frames := site.frames }
        :: site.pending
    }
  rw [declared] at standing ⊢
  exact ⟨standing, sound.receiver, sound.superclass⟩

/-- Scopes other than those of classes leave the class as it is. -/
theorem pushed (sound : site.Sound) {frame : Frame} {scopes : Scopes}
    (standing
      : Standing (frame :: site.frames) scopes.views site.pending scopes.functionBase)
    (same : scopes.classContext = site.scopes.classContext)
    (other : frame.kind = .block ∨ frame.kind = .function)
    : Site.Sound { site with frames := frame :: site.frames, scopes } := by
  refine ⟨standing, ?_, ?_⟩
  · intro inside
    rw [same] at inside
    obtain ⟨receiver, member, isReceiver⟩ := sound.receiver inside
    exact ⟨receiver, List.mem_cons_of_mem _ member, isReceiver⟩
  · intro inside
    rw [same] at inside
    obtain ⟨front, receiver, superclass, rest, split, isReceiver, isSuperclass, none⟩ :=
      sound.superclass inside
    refine ⟨frame :: front, receiver, superclass, rest, by simp [split], isReceiver,
      isSuperclass, ?_⟩
    intro found member
    rcases List.mem_cons.1 member with rfl | member
    · exact other
    · exact none found member

/-- A block inside of a sound site is sound. -/
theorem block (sound : site.Sound) : (site.opened .block).Sound := by
  refine sound.pushed ?_ rfl (.inl rfl)
  exact sound.standing.push ⟨rfl, rfl⟩ (by simp) (.inl rfl)

/-- Parameters are defined in the scope of their function, and nothing is pending there. -/
theorem inside (sound : site.Sound) {function : Lambda Unit} (proper : function.Proper)
    : (site.inside function).Sound := by
  obtain ⟨parameters, body⟩ := function
  obtain ⟨named, -⟩ := proper
  let opened := site.scopes.enteredFunction.opened
  let shown := withParameters LocalScope.empty.names parameters
  have views
      : (parameters.forM declareParameter opened).2.views = shown :: site.scopes.views :=
    declareParameters_views rfl parameters
  obtain ⟨locals, globals, declared⟩ := declareParameters_eq parameters opened
  have flags (name : String)
      : shown.get? name = if name ∈ parameters.map (·.lexeme) then some true else none := by
    rw [get?_withParameters]
    rfl
  have absent {name : String} (other : ∀ parameter ∈ parameters, parameter.lexeme ≠ name)
      : shown.get? name = none := by
    rw [flags, if_neg]
    simpa using other
  have base : opened.functionBase = site.frames.length := by
    rw [← sound.standing.length, site.scopes.views_length]
    rfl
  change Site.Sound
    {
      site with
      frames := { kind := .function, place := site.place } :: site.frames,
      scopes := (parameters.forM declareParameter opened).2
    }
  refine sound.pushed ?_ (by rw [declared]; rfl) (.inr rfl)
  rw [views, declared]
  refine sound.standing.push ⟨?_, ?_⟩ ?_ (.inr ⟨base, rfl⟩)
  · exact absent fun parameter member => (named parameter member).2.1
  · exact absent fun parameter member => (named parameter member).2.2
  · intro name
    rw [flags]
    split <;> nofun

end Site.Sound

-----
-- Classes

namespace Site

variable {site : Site} {name superclass : Token}

/-- The names in scope stand as the frames say, whatever class the place is in. -/
def Stands (site : Site) : Prop :=
  Standing site.frames site.scopes.views site.pending site.scopes.functionBase

/-- Scopes that are kept stand as before. -/
theorem Stands.kept (stands : site.Stands) {scopes : Scopes} (kept : site.scopes.Kept scopes)
    : Site.Stands { site with scopes } := by
  have views : scopes.views = site.scopes.views := kept.views
  unfold Stands
  rw [views, kept.functionBase]
  exact stands

/-- The scopes stand where the name of a class is declared. -/
theorem stands_declaringClass (sound : site.Sound) (proper : name.IsName)
    : (site.declaringClass name).Stands := by
  let entered := site.scopes.enteredClass .plain
  have standing : Standing site.frames entered.views site.pending entered.functionBase :=
    sound.standing
  have introduced := standing.introduced proper
  obtain ⟨locals, globals, same⟩ := entered.introduced_eq (some name)
  change Standing site.frames (entered.introduced (some name)).views site.pending
    (entered.introduced (some name)).functionBase
  rw [same] at introduced ⊢
  exact introduced

/-- Behind the name of a class the class has no superclass yet. -/
theorem declaringClass_classContext (site : Site) (name : Token)
    : (site.declaringClass name).scopes.classContext = .plain :=
  Scopes.introduced_classContext (site.scopes.enteredClass .plain) (some name)

/-- At its superclass clause a class is declared already. -/
theorem stands_inheriting (sound : site.Sound) (proper : name.IsName) (superclass : Token)
    : (site.inheriting name superclass).Stands := by
  let declared := site.declaringClass name
  have stands : declared.Stands := stands_declaringClass sound proper
  have entered
      : Site.Stands { declared with scopes := declared.scopes.enteredClass .subclass } :=
    stands
  exact entered.kept (enterSubclass_kept name superclass declared.scopes)

/-- A scope whose only name is introduced by no declaration. -/
theorem Stands.implicit (stands : site.Stands) {kind : FrameKind} {name : String}
    (shown : kind.Shows (Table.empty.insert name true))
    : ((site.opened kind).after (defineImplicit name)).Stands := by
  refine Standing.push stands shown (fun other => ?_) (.inl rfl)
  change (Table.empty.insert name true).get? other ≠ some false
  rw [Table.get?_insert]
  split <;> nofun

/-- The scopes stand with the receiver in front of them. -/
theorem Stands.withReceiver (stands : site.Stands) : site.withReceiver.Stands :=
  stands.implicit ⟨rfl, rfl⟩

/-- The scopes stand with the superclass in front of them. -/
theorem Stands.withSuperclass (stands : site.Stands) : site.withSuperclass.Stands :=
  stands.implicit ⟨rfl, rfl⟩

/-- Among the methods of a class there is a receiver, and around it the superclass, if any. -/
theorem Sound.amongMethods (sound : site.Sound) (proper : name.IsName)
    (clause : Option (Reference Unit))
    : (site.amongMethods name clause).Sound := by
  cases clause with
  | none =>
      have plain : (site.amongMethods name none).scopes.classContext = .plain :=
        declaringClass_classContext site name
      refine ⟨(stands_declaringClass sound proper).withReceiver, fun _ => ?_, ?_⟩
      · exact ⟨_, List.mem_cons_self, rfl⟩
      · intro subclass
        rw [plain] at subclass
        cases subclass
  | some superclass =>
      have stands := (stands_inheriting sound proper superclass.name).kept
        (bindRead_kept superclass.name _)
      refine ⟨stands.withSuperclass.withReceiver, fun _ => ?_, fun _ => ?_⟩
      · exact ⟨_, List.mem_cons_self, rfl⟩
      · exact ⟨[], _, _, _, rfl, rfl, rfl, by simp⟩

end Site

-----
-- What `this` and `super` are bound to

namespace Standing

variable {frames : List Frame} {views : List (Table Bool)} {pending : List Declaration}
  {base : Nat}

/-- The names of a scope of the text tell what it belongs to. -/
theorem getElem?_of_flag (standing : Standing frames views pending base) {distance : Nat}
    {name : String} {flag : Bool} (found : flagAt? views distance name = some flag)
    : ∃ frame view,
        frames[distance]? = some frame ∧ view.get? name = some flag ∧ frame.kind.Shows view := by
  obtain ⟨view, here, has⟩ := Option.bind_eq_some_iff.1 found
  have less : distance < frames.length := standing.length ▸ lt_of_flagAt? found
  have there := List.getElem?_eq_getElem less
  exact ⟨frames[distance], view, there, has, standing.shows distance _ view there here⟩

/-- A scope at a distance shows what its kind does. -/
theorem flag_of_getElem? (standing : Standing frames views pending base) {distance : Nat}
    {frame : Frame} (here : frames[distance]? = some frame)
    : ∃ view, views[distance]? = some view ∧ frame.kind.Shows view := by
  have less : distance < views.length :=
    standing.length ▸ (List.getElem?_eq_some_iff.1 here).1
  have there := List.getElem?_eq_getElem less
  exact ⟨views[distance], there, standing.shows distance frame _ here there⟩

/-- `this` is found at a distance where the scope there holds a receiver. -/
theorem flag_this (standing : Standing frames views pending base) {distance : Nat}
    {frame : Frame} (here : frames[distance]? = some frame) (isReceiver : frame.kind = .receiver)
    : flagAt? views distance "this" = some true := by
  obtain ⟨view, there, shown⟩ := standing.flag_of_getElem? here
  rw [flagAt?, there]
  exact shown.1.trans (if_pos isReceiver)

/-- `super` is found at a distance where the scope there holds a superclass. -/
theorem flag_super (standing : Standing frames views pending base) {distance : Nat}
    {frame : Frame} (here : frames[distance]? = some frame)
    : flagAt? views distance "super" = if frame.kind = .superclass then some true else none := by
  obtain ⟨view, there, shown⟩ := standing.flag_of_getElem? here
  rw [flagAt?, there]
  exact shown.2

end Standing

section

variable {site : Site} {keyword : Token}

/-- Inside of a class `this` is bound to a scope of a receiver. -/
theorem Site.Sound.this (sound : site.Sound) (spelled : keyword.lexeme = "this")
    (clean : (bindThis keyword site.scopes).2.errors = [])
    : ∃ distance frame,
        (bindThis keyword site.scopes).1 = some distance
        ∧ site.frames[distance]? = some frame
        ∧ frame.kind = .receiver := by
  have inClass : site.scopes.classContext ≠ .outside := by
    intro outside
    simp [bindThis, outside, Scopes.error] at clean
  have bound : bindThis keyword site.scopes = bindNearest keyword site.scopes := by
    unfold bindThis
    split
    · next outside => exact absurd outside inClass
    · rfl
    · rfl
  obtain ⟨receiver, member, isReceiver⟩ := sound.receiver inClass
  obtain ⟨place, there⟩ := List.mem_iff_getElem?.1 member
  have named : flagAt? site.scopes.views place keyword.lexeme = some true := by
    rw [spelled]
    exact sound.standing.flag_this there isReceiver
  obtain ⟨distance, -, nearest⟩ := bindNearest_of_flag named
  obtain ⟨⟨flag, has⟩, -⟩ := bindNearest_some nearest
  rw [spelled] at has
  obtain ⟨frame, view, here, has, shown⟩ := sound.standing.getElem?_of_flag has
  exact ⟨distance, frame, bound ▸ nearest, here, shown.receiver has⟩

/-- Among the methods of a class with a superclass, `super` and `this` are bound to the scopes of
that very class, however many functions and blocks lie between. -/
theorem Site.Sound.subclass (sound : site.Sound)
    (inSubclass : site.scopes.classContext = .subclass)
    : ∃ front receiver superclass rest,
        site.frames = front ++ receiver :: superclass :: rest
        ∧ receiver.kind = .receiver
        ∧ superclass.kind = .superclass
        ∧ (∀ frame ∈ front, frame.kind = .block ∨ frame.kind = .function)
        ∧ (∀ keyword : Token,
            keyword.lexeme = "super"
            → (bindSuper keyword site.scopes).1 = some (front.length + 1))
        ∧ ∀ keyword : Token,
            keyword.lexeme = "this" → (bindThis keyword site.scopes).1 = some front.length := by
  obtain ⟨front, receiver, superclass, rest, split, isReceiver, isSuperclass, plain⟩ :=
    sound.superclass inSubclass
  have here : site.frames[front.length + 1]? = some superclass := by simp [split]
  have inside : site.frames[front.length]? = some receiver := by simp [split]
  -- No scope further in has a name of its own that no declaration introduces.
  have outside {distance : Nat} {frame : Frame} (there : site.frames[distance]? = some frame)
      (special : frame.kind = .receiver ∨ frame.kind = .superclass)
      : front.length ≤ distance := by
    refine Nat.le_of_not_lt fun less => ?_
    rw [split, List.getElem?_append_left less] at there
    rcases plain frame (List.mem_of_getElem? there) with isBlock | isFunction <;>
      rcases special with kind | kind <;> simp_all
  refine ⟨front, receiver, superclass, rest, split, isReceiver, isSuperclass, plain, ?_, ?_⟩
  · intro keyword spelled
    have bound : bindSuper keyword site.scopes = bindNearest keyword site.scopes := by
      simp [bindSuper, inSubclass]
    have named : flagAt? site.scopes.views (front.length + 1) keyword.lexeme = some true := by
      rw [spelled, sound.standing.flag_super here, if_pos isSuperclass]
    obtain ⟨distance, least, nearest⟩ := bindNearest_of_flag named
    obtain ⟨⟨flag, has⟩, -⟩ := bindNearest_some nearest
    rw [spelled] at has
    obtain ⟨frame, view, there, has, shown⟩ := sound.standing.getElem?_of_flag has
    have kind : frame.kind = .superclass := shown.superclass has
    have beyond := outside there (.inr kind)
    have apart : distance ≠ front.length := by
      rintro rfl
      obtain rfl := Option.some.inj (inside.symm.trans there)
      exact FrameKind.noConfusion (isReceiver.symm.trans kind)
    obtain rfl : distance = front.length + 1 := by omega
    exact bound ▸ nearest
  · intro keyword spelled
    have bound : bindThis keyword site.scopes = bindNearest keyword site.scopes := by
      simp [bindThis, inSubclass]
    have named : flagAt? site.scopes.views front.length keyword.lexeme = some true := by
      rw [spelled]
      exact sound.standing.flag_this inside isReceiver
    obtain ⟨distance, least, nearest⟩ := bindNearest_of_flag named
    obtain ⟨⟨flag, has⟩, -⟩ := bindNearest_some nearest
    rw [spelled] at has
    obtain ⟨frame, view, there, has, shown⟩ := sound.standing.getElem?_of_flag has
    have kind : frame.kind = .receiver := shown.receiver has
    obtain rfl : distance = front.length := Nat.le_antisymm least (outside there (.inl kind))
    exact bound ▸ nearest

/-- Inside of a class with a superclass `super` is bound to a scope of a superclass, just inside
of which is the scope of a receiver. -/
theorem Site.Sound.super (sound : site.Sound) (spelled : keyword.lexeme = "super")
    (clean : (bindSuper keyword site.scopes).2.errors = [])
    : ∃ nearer superclass receiver,
        (bindSuper keyword site.scopes).1 = some (nearer + 1)
        ∧ site.frames[nearer + 1]? = some superclass
        ∧ superclass.kind = .superclass
        ∧ site.frames[nearer]? = some receiver
        ∧ receiver.kind = .receiver := by
  have inSubclass : site.scopes.classContext = .subclass := by
    cases context : site.scopes.classContext with
    | outside | plain => simp [bindSuper, context, Scopes.error] at clean
    | subclass => rfl
  obtain ⟨front, receiver, superclass, rest, split, isReceiver, isSuperclass, -, bound, -⟩ :=
    sound.subclass inSubclass
  exact ⟨front.length, superclass, receiver, bound keyword spelled, by simp [split],
    isSuperclass, by simp [split], isReceiver⟩

end

end Lox.Scoping
