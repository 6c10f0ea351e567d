import Lox.Proofs.Scoping.Functions

/-! Lookups while watched.

What stands around a node is enough to tell how its lookup goes: the scope at the recorded distance
is there, and the name has a value in it if the binder saw it defined.
-/

namespace Lox.Scoping

open Binding

-----
-- Before a lookup

/-- All that matters to a lookup of the name is there. -/
structure Watched.Ready (watched : Watched) (site : Site) (name : String) : Prop where
  stands : site.Stands
  placed
    : ∀ (distance : Nat) (frame : Frame),
        site.frames[distance]? = some frame
        → ∃ scope parent,
            watched.machine.scopes.ancestor? watched.machine.current distance = some scope
            ∧ watched.machine.scopes.parent? scope = some parent
            ∧ watched.frameOf scope = frame
            ∧ (flagAt? site.scopes.views distance name = some true
              → (watched.machine.scopes.cell? scope name).isSome = true)
  outermost
    : watched.machine.scopes.ancestor? watched.machine.current site.frames.length
        = some globalScope
  global
    : site.scopes.globals.get? name = some true
      → (watched.machine.scopes.cell? globalScope name).isSome = true

section

variable {watched : Watched} {site : Site} {name : String}

/-- A scope that stands open is found at its distance in the machine. -/
theorem Watched.Fits.placed {scope : Nat} {frames : List Frame} {views : List (Table Bool)}
    (fits : watched.Fits scope frames views) {distance : Nat} {frame : Frame}
    (here : frames[distance]? = some frame) (name : String)
    : ∃ found parent,
        watched.machine.scopes.ancestor? scope distance = some found
        ∧ watched.machine.scopes.parent? found = some parent
        ∧ watched.frameOf found = frame
        ∧ (flagAt? views distance name = some true
          → (watched.machine.scopes.cell? found name).isSome = true) := by
  induction fits generalizing distance with
  | outermost => cases here
  | @inner scope parent frames view views outer covered rest ih =>
      cases distance with
      | zero => exact ⟨scope, parent, rfl, outer, Option.some.inj here, covered name⟩
      | succ distance =>
          obtain ⟨found, parent', there, outer', isFrame, defined⟩ := ih here
          refine ⟨found, parent', ?_, outer', isFrame, defined⟩
          rw [Forest.ancestor?, outer]
          exact there

/-- Behind all scopes that stand open the global one is reached. -/
theorem Watched.Fits.ancestor?_length {scope : Nat} {frames : List Frame}
    {views : List (Table Bool)} (fits : watched.Fits scope frames views)
    : watched.machine.scopes.ancestor? scope frames.length = some globalScope := by
  induction fits with
  | outermost => rfl
  | inner outer covered rest ih =>
      rw [List.length_cons, Forest.ancestor?, outer]
      exact ih

/-- Where a site fits the machine, its lookups find what was set up for them. -/
theorem Watched.FitsAt.ready (fits : watched.FitsAt watched.machine.current site)
    (stands : site.Stands) (name : String)
    : watched.Ready site name :=
  {
    stands
    placed := fun _ _ here => fits.locals.placed here name
    outermost := fits.locals.ancestor?_length
    global := fits.globals name
  }

/-- What the binder knows about other names does not matter. -/
theorem Watched.Ready.congr {site' : Site} (ready : watched.Ready site name)
    (stands : site'.Stands) (frames : site'.frames = site.frames)
    (locals
      : ∀ distance,
          flagAt? site'.scopes.views distance name = flagAt? site.scopes.views distance name)
    (globals : site'.scopes.globals.get? name = site.scopes.globals.get? name)
    : watched.Ready site' name := by
  refine ⟨stands, ?_, ?_, ?_⟩
  · intro distance frame here
    rw [locals]
    exact ready.placed distance frame (frames ▸ here)
  · rw [frames]
    exact ready.outermost
  · rw [globals]
    exact ready.global

end

-----
-- Names and their scopes

/-- A recorded distance leads to a scope that has the name. -/
theorem Use.bound_some {use : Use} {scopes : Scopes} {distance : Nat}
    (bound : (use.bound scopes).1 = some distance)
    : ∃ flag, flagAt? scopes.views distance use.token.lexeme = some flag := by
  cases use with
  | read name =>
      obtain ⟨flag, found, -⟩ := bindRead_some bound
      exact ⟨flag, found⟩
  | write name => exact (bindNearest_some bound).1
  | this keyword =>
      change (bindThis keyword scopes).1 = some distance at bound
      unfold bindThis at bound
      split at bound
      · cases bound
      · exact (bindNearest_some bound).1
      · exact (bindNearest_some bound).1
  | super keyword method =>
      change (bindSuper keyword scopes).1 = some distance at bound
      unfold bindSuper at bound
      split at bound
      · cases bound
      · cases bound
      · exact (bindNearest_some bound).1

namespace Watched.Ready

variable {watched : Watched} {site : Site} {use : Use} {name : String}

/-- A scope of the binder with the name is one of the text, with its instance. -/
theorem found (ready : watched.Ready site name) {distance : Nat} {flag : Bool}
    (has : flagAt? site.scopes.views distance name = some flag)
    : ∃ frame scope,
        site.frames[distance]? = some frame
        ∧ watched.machine.scopes.ancestor? watched.machine.current distance = some scope
        ∧ (flag = true → (watched.machine.scopes.cell? scope name).isSome = true) := by
  obtain ⟨frame, view, here, -, -⟩ := ready.stands.getElem?_of_flag has
  obtain ⟨scope, parent, there, -, -, defined⟩ := ready.placed distance frame here
  exact ⟨frame, scope, here, there, fun isTrue => defined (isTrue ▸ has)⟩

/-- A lookup that is ready is aligned with the environments, `this` and `super` included. -/
theorem aligned (ready : watched.Ready site use.token.lexeme) (sound : watched.Sound)
    {fault : Option Fault}
    (this
      : ∀ keyword,
          use = .this keyword
          → ∃ distance scope address lineage,
              site.distance use = some distance
              ∧ watched.machine.scopes.ancestor? watched.machine.current distance = some scope
              ∧ watched.machine.scopes.cell? scope "this" = some (.object address lineage))
    (super
      : ∀ keyword method,
          use = .super keyword method
          → ∃ nearer outer inner superclass address lineage,
              site.distance use = some (nearer + 1)
              ∧ watched.machine.scopes.ancestor? watched.machine.current (nearer + 1) = some outer
              ∧ watched.machine.scopes.cell? outer "super" = some (.class superclass)
              ∧ watched.machine.scopes.ancestor? watched.machine.current nearer = some inner
              ∧ watched.machine.scopes.cell? inner "this" = some (.object address lineage))
    (allowed : ∀ found, fault = some found → use.MayFail (site.distance use) found)
    : (watched.entry site use fault).Aligned := by
  have standing := ready.stands
  refine
    {
      scopes := site.scopes.views_length.symm.trans standing.length,
      shows := ?_,
      instances := ?_,
      outermost := ready.outermost,
      bound := ?_,
      this,
      super,
      fault := allowed
    }
  · intro distance frame scope here there
    refine standing.shows distance frame scope.names here ?_
    have there : site.scopes.locals[distance]? = some scope := there
    simp [Scopes.views, there]
  · intro distance frame here
    obtain ⟨scope, parent, there, outer, isFrame, -⟩ := ready.placed distance frame here
    refine ⟨scope, there, fun global => ?_, isFrame⟩
    rw [global, sound.root] at outer
    cases outer
  · intro distance bound
    obtain ⟨flag, has⟩ := Use.bound_some bound
    rw [flagAt?_views] at has
    obtain ⟨scope, there, named⟩ := Option.bind_eq_some_iff.1 has
    exact ⟨scope, there, by simp [Table.contains, named]⟩

/-- A read that is not of a variable cannot be an undefined one. -/
theorem definite_of_other (watched : Watched) (site : Site) {use : Use} (fault : Option Fault)
    (other : ∀ name, use ≠ .read name)
    : (watched.entry site use fault).Definite :=
  {
    defined := fun name _ same => absurd same (other name)
    global := fun name same => absurd same (other name)
    pending := fun name _ same => absurd same (other name)
  }

end Watched.Ready

-----
-- Reading and writing

section

variable (machine : Machine) (target : Reference (Option Nat))

def undefined (name : Token) : Fault :=
  .runtime { token := name, problem := .undefinedVariable }

/-- A read at a distance takes what the scope there holds. -/
theorem readVariable_bound {distance scope : Nat} (bound : target.binding = some distance)
    (there : machine.scopes.ancestor? machine.current distance = some scope)
    : Run.readVariable target machine
        = match machine.scopes.cell? scope target.name.lexeme with
          | some value => .ok value machine
          | none => .error (undefined target.name) machine := by
  obtain ⟨name, binding⟩ := target
  obtain rfl : binding = some distance := bound
  change Run.ofAccess name (machine.scopes.valueAt machine.current distance name.lexeme) machine
    = _
  rw [Forest.valueAt_of_ancestor? name.lexeme there]
  cases machine.scopes.cell? scope name.lexeme <;> rfl

/-- A read without a distance takes what is global. -/
theorem readVariable_global (unbound : target.binding = none)
    : Run.readVariable target machine
        = match machine.scopes.get? globalScope target.name.lexeme with
          | some value => .ok value machine
          | none => .error (undefined target.name) machine := by
  obtain ⟨name, binding⟩ := target
  obtain rfl : binding = none := unbound
  cases found : machine.scopes.get? globalScope name.lexeme with
  | some value => exact Run.readVariable_held found
  | none => exact Run.readVariable_missing found

/-- There is no scope around the global one. -/
theorem get?_global {forest : Forest Value} (root : forest.parent? globalScope = none)
    (name : String)
    : forest.get? globalScope name = forest.cell? globalScope name := by
  unfold Forest.get? Forest.holder? Forest.holderWithin?
  split
  · rfl
  · next missing =>
      have none : forest.cell? globalScope name = none := by simpa using missing
      rw [root, none]
      rfl

end

-----
-- Noting down

section

variable {α : Type} {fresh : String → Prop} {before : Watched} {site : Site}

/-- A lookup that was noted makes the watched state grow. -/
theorem Watched.Grows.noted (watched : Watched) (entry : Lookup)
    : watched.Grows fresh (Watch.noted watched entry) :=
  ⟨⟨Nat.le_refl _, fun _ _ => rfl, fun _ _ => rfl, fun _ _ => id, Nat.le_refl _, fun _ _ => rfl,
    fun _ => .inl⟩, rfl⟩

/-- A lookup that is aligned and definite keeps the watched state sound. -/
theorem Watched.Sound.noted (sound : before.Sound) {entry : Lookup}
    (aligned : entry.Aligned) (definite : entry.Definite)
    : (Watch.noted before entry).Sound := by
  have grows : before.Grows (fun _ => True) (Watch.noted before entry) := .noted before entry
  refine sound.sameScopes grows.toExtends rfl rfl (fun _ => .inl) (fun lookup member => ?_)
  rcases List.mem_append.1 member with earlier | new
  · exact .inl earlier
  · obtain rfl := List.mem_singleton.1 new
    exact .inr ⟨aligned, definite⟩

/-- What tracks an action still does with the lookup noted behind it. -/
theorem Tracks.note {use : Use} {action : Run α} {watch : Watch α} {post : α → Watched → Prop}
    (tracks : Tracks fresh action watch before post)
    (stable
      : ∀ value between after, between.Grows fresh after → post value between → post value after)
    (accounted
      : (before.entry site use (faultOf (watch before))).Aligned
        ∧ (before.entry site use (faultOf (watch before))).Definite)
    : Tracks fresh action (Watch.note site use watch) before post := by
  obtain ⟨aligned, definite⟩ := accounted
  unfold Tracks Watch.note
  unfold Tracks at tracks
  cases outcome : watch before with
  | ok value after =>
      rw [outcome] at tracks aligned definite
      obtain ⟨run, grows, sound, holds⟩ := tracks
      exact ⟨run, grows.trans (.noted _ _), sound.noted aligned definite,
        stable value after _ (.noted _ _) holds⟩
  | error fault after =>
      rw [outcome] at tracks aligned definite
      obtain ⟨run, grows, sound, ordinary⟩ := tracks
      exact ⟨run, grows.trans (.noted _ _), sound.noted aligned definite, ordinary⟩

end

-----
-- Reads

section

variable {fresh : String → Prop} {before : Watched} {site : Site}

/-- A read that finds its cell, or fails without it, tracks itself. -/
theorem tracks_reading (fresh : String → Prop) (sound : before.Sound)
    (target : Reference (Option Nat)) (cell : Option Value)
    (run
      : Run.readVariable target before.machine
          = match cell with
            | some value => .ok value before.machine
            | none => .error (undefined target.name) before.machine)
    (held : ∀ value, cell = some value → before.Traced value)
    : Tracks fresh (Run.readVariable target) (Watch.lift (Run.readVariable target)) before
          (fun value after => after.Traced value)
      ∧ faultOf (Watch.lift (Run.readVariable target) before)
          = if cell.isSome then none else some (undefined target.name) := by
  cases cell with
  | some value =>
      refine ⟨.quiet sound run rfl rfl (Nat.le_refl _) rfl (held value rfl), ?_⟩
      unfold Watch.lift
      rw [run]
      rfl
  | none =>
      refine ⟨(Tracks.failAt sound target.name .undefinedVariable).congr run
        (Watch.lift_congr run), ?_⟩
      unfold Watch.lift
      rw [run]
      rfl

/-- What a read finds that is bound to a scope. -/
theorem definite_of_bound (sound : before.Sound) {name : Token}
    (ready : before.Ready site name.lexeme) {distance scope : Nat}
    (bound : site.distance (.read name) = some distance)
    (there : before.machine.scopes.ancestor? before.machine.current distance = some scope)
    : (before.entry site (.read name)
        (if (before.machine.scopes.cell? scope name.lexeme).isSome then none
          else some (undefined name))).Definite := by
  obtain ⟨flag, has, outside⟩ := bindRead_some bound
  obtain ⟨frame, scope', here, there', defined⟩ := ready.found has
  obtain rfl : scope = scope' := Option.some.inj (there.symm.trans there')
  refine ⟨?_, ?_, ?_⟩
  · intro name' distance' same bound' isTrue
    obtain rfl := Use.read.inj same
    obtain rfl : distance = distance' := Option.some.inj (bound.symm.trans bound')
    have flagged : flag = true := Option.some.inj (has.symm.trans isTrue)
    exact if_pos (defined flagged)
  · intro name' same unbound
    exact absurd (bound.symm.trans unbound) (by simp)
  · intro name' distance' same bound' failed
    obtain rfl := Use.read.inj same
    obtain rfl : distance = distance' := Option.some.inj (bound.symm.trans bound')
    have missing : ¬(before.machine.scopes.cell? scope name.lexeme).isSome = true := by
      intro found
      exact failed (if_pos found)
    obtain rfl : flag = false := by
      cases flag with
      | false => rfl
      | true => exact absurd (defined rfl) missing
    have standing := ready.stands
    obtain ⟨declaration, pending, named, frames⟩ := standing.incomplete distance name.lexeme has
    have beyond : site.frames.length - site.scopes.functionBase ≤ distance := by
      rw [← standing.length]
      exact outside rfl
    have less : distance < site.frames.length := (List.getElem?_eq_some_iff.1 here).1
    refine ⟨declaration, pending, named, frames, standing.nested distance beyond less, scope,
      there, fun member => missing ?_⟩
    have complete := sound.completed (declaration, scope) member
    rw [named] at complete
    exact complete

/-- A read of a global is definite, since what is known is defined. -/
theorem definite_of_global {name : Token} (ready : before.Ready site name.lexeme)
    (unbound : site.distance (.read name) = none)
    : (before.entry site (.read name)
        (if (before.machine.scopes.cell? globalScope name.lexeme).isSome then none
          else some (undefined name))).Definite := by
  refine ⟨?_, ?_, ?_⟩
  · intro name' distance same bound
    obtain rfl := Use.read.inj same
    exact absurd (unbound.symm.trans bound) (by simp)
  · intro name' same _ isTrue
    obtain rfl := Use.read.inj same
    exact if_pos (ready.global isTrue)
  · intro name' distance same bound
    obtain rfl := Use.read.inj same
    exact absurd (unbound.symm.trans bound) (by simp)

/-- A read tracks itself and yields a traced value. -/
theorem tracks_read (sound : before.Sound) {name : Token}
    (ready : before.Ready site name.lexeme)
    : Tracks fresh (Run.readVariable (site.reference (.read name)))
        (Watch.readVariable site (.read name)) before
        (fun value after => after.Traced value) := by
  have aligned (found : Bool)
      : (before.entry site (.read name) (if found then none else some (undefined name))).Aligned := by
    refine Watched.Ready.aligned ready sound (fun _ same => nomatch same)
      (fun _ _ same => nomatch same) fun fault failed => ?_
    cases found with
    | true => cases failed
    | false => exact (Option.some.inj failed).symm
  have stable (value : Value) (between after : Watched) (grows : between.Grows fresh after)
      (traced : between.Traced value)
      : after.Traced value :=
    grows.traced traced
  cases bound : site.distance (.read name) with
  | some distance =>
      obtain ⟨flag, has, -⟩ := bindRead_some bound
      obtain ⟨frame, scope, -, there, -⟩ := ready.found has
      have run := readVariable_bound before.machine (site.reference (.read name)) bound there
      obtain ⟨tracks, outcome⟩ := tracks_reading fresh sound _ _ run
        fun value held => sound.cells scope name.lexeme value held
      refine tracks.note stable ?_
      rw [outcome]
      exact ⟨aligned _, definite_of_bound sound ready bound there⟩
  | none =>
      have run := readVariable_global before.machine (site.reference (.read name)) bound
      rw [get?_global sound.root] at run
      obtain ⟨tracks, outcome⟩ := tracks_reading fresh sound _ _ run
        fun value held => sound.cells globalScope name.lexeme value held
      refine tracks.note stable ?_
      rw [outcome]
      exact ⟨aligned _, definite_of_global ready bound⟩

/-- A receiver is there wherever `this` is evaluated. -/
theorem tracks_this (sound : before.Sound) (met : site.Sound) {keyword : Token}
    (fits : before.FitsAt before.machine.current site) (spelled : keyword.lexeme = "this")
    (clean : (bindThis keyword site.scopes).2.errors = [])
    : Tracks fresh (Run.readVariable (site.reference (.this keyword)))
        (Watch.readVariable site (.this keyword)) before
        (fun value after => after.Traced value) := by
  have ready : before.Ready site keyword.lexeme := fits.ready met.standing _
  obtain ⟨distance, frame, bound, here, isReceiver⟩ := met.this spelled clean
  obtain ⟨scope, parent, there, outer, isFrame, -⟩ := ready.placed distance frame here
  obtain ⟨address, lineage, held⟩ := sound.receivers scope parent outer (isFrame ▸ isReceiver)
  have run := readVariable_bound before.machine (site.reference (.this keyword)) bound there
  change Run.readVariable _ _ = match before.machine.scopes.cell? scope keyword.lexeme with
    | some value => .ok value before.machine
    | none => .error (undefined keyword) before.machine at run
  rw [spelled, held] at run
  obtain ⟨tracks, outcome⟩ := tracks_reading fresh sound _ (some (.object address lineage)) run
    fun value same => Option.some.inj same ▸ sound.cells scope "this" _ held
  refine tracks.note (fun value between after grows traced => grows.traced traced) ?_
  rw [outcome]
  refine ⟨Watched.Ready.aligned ready sound ?_ (fun _ _ same => nomatch same)
    (fun _ failed => nomatch failed), ?_⟩
  · intro _ _
    exact ⟨distance, scope, address, lineage, bound, there, held⟩
  · exact Watched.Ready.definite_of_other before site _ fun _ same => nomatch same

-----
-- Writes

/-- A name without a distance may turn out not to exist. -/
theorem faultOf_assignFrom (scope : Nat) (name : Token) (value : Value)
    : faultOf (Watch.lift (Run.assignFrom scope name value) before) = none
      ∨ faultOf (Watch.lift (Run.assignFrom scope name value) before) = some (undefined name) := by
  unfold Watch.lift
  cases found : before.machine.scopes.holder? scope name.lexeme with
  | some holder =>
      rw [Run.assignFrom_held found]
      exact .inl rfl
  | none =>
      rw [Run.assignFrom_missing found]
      exact .inr rfl

/-- A write tracks itself, found or not. -/
theorem tracks_write (sound : before.Sound) {name : Token} {value : Value}
    (ready : before.Ready site name.lexeme) (proper : name.IsName)
    (traced : before.Traced value)
    : Tracks fresh (Run.writeVariable (site.reference (.write name)) value)
        (Watch.writeVariable site name value) before (fun _ _ => True) := by
  have definite (fault : Option Fault) : (before.entry site (.write name) fault).Definite :=
    Watched.Ready.definite_of_other before site fault fun _ same => nomatch same
  have aligned {fault : Option Fault}
      (allowed
        : ∀ found,
            fault = some found → (Use.write name).MayFail (site.distance (.write name)) found)
      : (before.entry site (.write name) fault).Aligned :=
    Watched.Ready.aligned ready sound (fun _ same => nomatch same) (fun _ _ same => nomatch same)
      allowed
  have stable (value : Unit) (between after : Watched) (_ : between.Grows fresh after)
      (_ : True)
      : True :=
    trivial
  cases bound : site.distance (.write name) with
  | none =>
      have run
          : Run.writeVariable (site.reference (.write name)) value before.machine
              = Run.assignFrom globalScope name value before.machine := by
        unfold Run.writeVariable Site.reference
        rw [bound]
        rfl
      have watched := Watch.lift_congr run
      have assigned
          : Tracks fresh (Run.assignFrom globalScope name value)
              (Watch.lift (Run.assignFrom globalScope name value)) before (fun _ _ => True) :=
        tracks_assignFrom sound globalScope proper traced
      refine (assigned.congr run watched).note stable ⟨aligned fun fault failed => ?_, definite _⟩
      rw [watched] at failed
      rcases faultOf_assignFrom globalScope name value with succeeded | failed'
      · rw [succeeded] at failed
        cases failed
      · rw [failed'] at failed
        exact ⟨(Option.some.inj failed).symm, bound⟩
  | some distance =>
      obtain ⟨⟨flag, has⟩, -⟩ := bindNearest_some bound
      obtain ⟨frame, scope, here, there, -⟩ := ready.found has
      obtain ⟨scope', parent, there', outer, -⟩ := ready.placed distance frame here
      obtain rfl : scope = scope' := Option.some.inj (there.symm.trans there')
      have run
          : Run.writeVariable (site.reference (.write name)) value before.machine
              = Run.defineIn scope name.lexeme value before.machine := by
        have reached
            : Run.ofAccess name (before.machine.scopes.ancestor before.machine.current distance)
                before.machine
              = .ok scope before.machine := by
          rw [Forest.ancestor_of_ancestor? there]
          rfl
        unfold Run.writeVariable Site.reference
        rw [bound]
        exact bind_ok reached
      have watched := Watch.lift_congr run
      have allowed : before.MayWrite fresh scope name.lexeme := by
        intro global
        rw [global, sound.root] at outer
        cases outer
      have defined := tracks_defineIn sound proper (fun grows => grows.traced traced) allowed
      refine ((defined.congr run watched).weaken fun _ _ _ _ => trivial).note stable
        ⟨aligned fun fault failed => ?_, definite _⟩
      rw [watched] at failed
      cases failed

-----
-- Properties and methods of superclasses

/-- The method of a traced class waits for a receiver. -/
theorem Watched.Class.method {watched : Watched} {lineage : Lineage}
    (traced : watched.Class lineage) {name : String} {method : Closure}
    (found : lineage.method? name = some method)
    : watched.Waiting method := by
  obtain ⟨body, member, has⟩ := List.exists_of_findSome?_eq_some found
  exact traced body member name method has

/-- A method that is found is bound to the receiver. -/
theorem tracks_method (sound : before.Sound) {address : Nat} {lineage found : Lineage}
    (receiver : before.Class lineage) (traced : before.Class found) (name : Token)
    : Tracks fresh
        (match found.method? name.lexeme with
          | some method => do
              return .closure (← Run.bindMethod method (.object address lineage))
          | none => Run.failAt name .undefinedProperty)
        (match found.method? name.lexeme with
          | some method => do
              return .closure (← Watch.bindMethod method (.object address lineage))
          | none => Watch.lift (Run.failAt name .undefinedProperty))
        before
        (fun value after => after.Traced value) := by
  cases has : found.method? name.lexeme with
  | none => exact .failAt sound name .undefinedProperty
  | some method =>
      refine (tracks_bindMethod sound (traced.method has) receiver).bind ?_
      intro closure between _ sound' free
      exact .pure sound' free.1

/-- A property read of a traced object yields a traced value. -/
theorem tracks_readProperty (sound : before.Sound) {object : Value}
    (traced : before.Traced object) (name : Token)
    : Tracks fresh (Run.readProperty object name) (Watch.readProperty object name) before
        (fun value after => after.Traced value) := by
  cases object with
  | object address lineage =>
      refine (tracks_field? sound address name.lexeme).bind ?_
      intro field between grows sound' held
      cases field with
      | some value => exact .pure sound' (held value rfl)
      | none => exact tracks_method sound' (grows.class_ traced) (grows.class_ traced) name
  | literal | native | closure | «class» => exact .failAt sound name .propertyOfNonInstance

/-- The only way in which a method cannot be handed out is that there is none. -/
theorem faultOf_method (found : Lineage) (receiver : Value) (name : Token)
    : let action : Watch Value :=
        match found.method? name.lexeme with
        | some method => do return .closure (← Watch.bindMethod method receiver)
        | none => Watch.lift (Run.failAt name .undefinedProperty)
      ∀ fault,
        faultOf (action before) = some fault
        → fault = .runtime { token := name, problem := .undefinedProperty } := by
  intro action fault failed
  change faultOf ((match found.method? name.lexeme with
    | some method => do return .closure (← Watch.bindMethod method receiver)
    | none => Watch.lift (Run.failAt name .undefinedProperty) : Watch Value) before)
      = some fault at failed
  cases has : found.method? name.lexeme with
  | none =>
      rw [has] at failed
      exact (Option.some.inj failed).symm
  | some method =>
      rw [has] at failed
      cases failed

/-- The scope of a receiver and the scope of a superclass around it, at the distances that a
reference to `super` counts to. -/
structure Reaches (machine : Machine) (nearer : Nat) (receiver : Value)
    (superclass : Lineage)
    : Prop where
  receiver
    : ∃ inner,
        machine.scopes.ancestor? machine.current nearer = some inner
        ∧ machine.scopes.cell? inner "this" = some receiver
  superclass
    : ∃ outer,
        machine.scopes.ancestor? machine.current (nearer + 1) = some outer
        ∧ machine.scopes.cell? outer "super" = some (.class superclass)

namespace Reaches

variable {machine : Machine} {nearer : Nat} {receiver : Value} {superclass : Lineage}
  {keyword : Token}

/-- Where the superclass is reached it is what `super` reads. -/
theorem readVariable (reaches : Reaches machine nearer receiver superclass)
    (spelled : keyword.lexeme = "super")
    : Run.readVariable { name := keyword, binding := some (nearer + 1) } machine
        = .ok (.class superclass) machine := by
  obtain ⟨-, outer, there, held⟩ := reaches
  have run := readVariable_bound machine { name := keyword, binding := some (nearer + 1) } rfl there
  rwa [spelled, held] at run

/-- The receiver is one scope nearer than the superclass. -/
theorem access (reaches : Reaches machine nearer receiver superclass) (keyword : Token)
    : ∃ inner,
        Run.ofAccess keyword (machine.scopes.ancestor machine.current (nearer + 1 - 1)) machine
          = .ok inner machine
        ∧ Run.receiverIn inner machine = .ok receiver machine := by
  obtain ⟨⟨inner, there, held⟩, -⟩ := reaches
  refine ⟨inner, ?_, ?_⟩
  · rw [Nat.add_sub_cancel, Forest.ancestor_of_ancestor? there]
    rfl
  · change (match machine.scopes.cell? inner "this" with
      | some receiver => (pure receiver : Run Value)
      | none => throw Fault.receiverMissing) machine = _
    rw [held]
    rfl

/-- A method of the superclass is bound to the receiver. -/
theorem readSuper (reaches : Reaches machine nearer receiver superclass)
    (spelled : keyword.lexeme = "super") (method : Token)
    : Run.readSuper { name := keyword, binding := some (nearer + 1) } method machine
        = (match superclass.method? method.lexeme with
            | some found => do return .closure (← Run.bindMethod found receiver)
            | none => Run.failAt method .undefinedProperty : Run Value) machine := by
  obtain ⟨inner, reached, received⟩ := reaches.access keyword
  exact (bind_ok (reaches.readVariable spelled)).trans ((bind_ok reached).trans (bind_ok received))

/-- The method is that of the superclass, bound to the receiver. -/
theorem superMethod {watched : Watched} (reaches : Reaches watched.machine nearer receiver superclass)
    (spelled : keyword.lexeme = "super") (method : Token)
    : Watch.superMethod { name := keyword, binding := some (nearer + 1) } method watched
        = (match superclass.method? method.lexeme with
            | some found => do return .closure (← Watch.bindMethod found receiver)
            | none => Watch.lift (Run.failAt method .undefinedProperty) : Watch Value) watched := by
  obtain ⟨inner, reached, received⟩ := reaches.access keyword
  exact (bind_ok (Watch.lift_ok (reaches.readVariable spelled))).trans
    ((bind_ok (Watch.lift_ok reached)).trans (bind_ok (Watch.lift_ok received)))

end Reaches

/-- The superclass and the receiver are there wherever `super` is evaluated. -/
theorem tracks_super (sound : before.Sound) (met : site.Sound) {keyword method : Token}
    (fits : before.FitsAt before.machine.current site) (spelled : keyword.lexeme = "super")
    (clean : (bindSuper keyword site.scopes).2.errors = [])
    : Tracks fresh (Run.readSuper (site.reference (.super keyword method)) method)
        (Watch.readSuper site keyword method) before
        (fun value after => after.Traced value) := by
  have ready : before.Ready site keyword.lexeme := fits.ready met.standing _
  obtain ⟨nearer, superclass, receiver, bound, here, isSuperclass, inside, isReceiver⟩ :=
    met.super spelled clean
  obtain ⟨outer, parent, there, outerParent, outerFrame, -⟩ :=
    ready.placed (nearer + 1) superclass here
  obtain ⟨inner, parent', there', innerParent, innerFrame, -⟩ :=
    ready.placed nearer receiver inside
  obtain ⟨lineage, heldSuper⟩ :=
    sound.superclasses outer parent outerParent (outerFrame ▸ isSuperclass)
  obtain ⟨address, own, heldThis⟩ :=
    sound.receivers inner parent' innerParent (innerFrame ▸ isReceiver)
  have reaches : Reaches before.machine nearer (.object address own) lineage :=
    ⟨⟨inner, there', heldThis⟩, outer, there, heldSuper⟩
  have distance : site.distance (.super keyword method) = some (nearer + 1) := bound
  have split
      : site.reference (.super keyword method) = { name := keyword, binding := some (nearer + 1) } :=
    congrArg (fun binding => ({ name := keyword, binding } : Reference (Option Nat))) distance
  have run := reaches.readSuper spelled method
  have watched := reaches.superMethod spelled method
  rw [← split] at run watched
  have found : before.Class lineage := sound.cells outer "super" _ heldSuper
  have receives : before.Class own := sound.cells inner "this" _ heldThis
  have handed := @tracks_method fresh before sound address own lineage receives found method
  refine (handed.congr run watched).note
    (fun value between after grows traced => grows.traced traced) ⟨?_, ?_⟩
  · refine Watched.Ready.aligned ready sound (fun _ same => nomatch same) ?_ ?_
    · intro _ _ _
      exact ⟨nearer, outer, inner, lineage, address, own, distance, there, heldSuper, there',
        heldThis⟩
    · intro fault failed
      rw [watched] at failed
      exact faultOf_method lineage (.object address own) method fault failed
  · exact Watched.Ready.definite_of_other before site _ fun _ same => nomatch same

end

end Lox.Scoping
