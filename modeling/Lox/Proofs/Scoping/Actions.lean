import Lox.Proofs.Scoping.Tracks

/-! Single actions of a watched machine, and what they keep.

Opening a scope, writing to a scope and creating a function only add to what is there. A scope for
a receiver or a superclass is opened and filled in one go, so that nobody ever sees it empty.
-/

namespace Lox.Scoping

open Binding

namespace Watched

variable {fresh : String → Prop} {before after : Watched}

-----
-- Changes

def put (watched : Watched) (scope : Nat) (name : String) (value : Value) : Watched :=
  {
    watched with
    machine := { watched.machine with scopes := watched.machine.scopes.put scope name value }
  }

def opened (watched : Watched) (frame : Frame) (parent : Nat) : Watched :=
  {
    watched with
    machine := { watched.machine with scopes := watched.machine.scopes.push (some parent) },
    frameOf := setAt watched.frameOf watched.machine.scopes.size frame
  }

def numbered (watched : Watched) (origin : Origin) : Watched :=
  {
    watched with
    machine := { watched.machine with nextId := watched.machine.nextId + 1 },
    originOf := setAt watched.originOf watched.machine.nextId origin
  }

/-- What is set at a place stands there. -/
theorem setAt_self {α : Type} (table : Nat → α) (place : Nat) (entry : α)
    : setAt table place entry place = entry :=
  if_pos rfl

/-- What is set at another place changes nothing here. -/
theorem setAt_of_ne {α : Type} (table : Nat → α) {place other : Nat} (entry : α)
    (apart : other ≠ place)
    : setAt table place entry other = table other :=
  if_neg apart

namespace Grows

/-- A value put into a scope makes the watched state grow, if a new global is among the allowed
ones. -/
theorem put (watched : Watched) (scope : Nat) {name : String} (value : Value)
    (allowed
      : scope = globalScope
        → fresh name ∨ (watched.machine.scopes.cell? globalScope name).isSome = true)
    : watched.Grows fresh (watched.put scope name value) where
  size := Nat.le_of_eq (Forest.size_put _ _ _ _).symm
  parent other _ := Forest.parent?_put _ _ _ _ other
  frameOf _ _ := rfl
  cell _ _ found := Forest.cell?_put_isSome _ found
  nextId := Nat.le_refl _
  originOf _ _ := rfl
  current := rfl
  globals other found := by
    change ((watched.machine.scopes.put scope name value).cell? globalScope other).isSome = true
      at found
    rw [Forest.cell?_put] at found
    split at found
    · next here =>
        obtain ⟨global, -, rfl⟩ := here
        rcases allowed global.symm with new | known
        · exact .inr new
        · exact .inl known
    · exact .inl found

/-- A scope that was opened makes the watched state grow. -/
theorem opened (watched : Watched) (frame : Frame) (parent : Nat)
    : watched.Grows fresh (watched.opened frame parent) where
  size := by
    change watched.machine.scopes.size ≤ (watched.machine.scopes.push (some parent)).size
    rw [Forest.size_push]
    exact Nat.le_succ _
  parent other less :=
    (Forest.parent?_push _ _ other).trans (if_neg (Nat.ne_of_lt less))
  frameOf other less := setAt_of_ne _ frame (Nat.ne_of_lt less)
  cell other name found := by
    change ((watched.machine.scopes.push (some parent)).cell? other name).isSome = true
    rwa [Forest.cell?_push]
  nextId := Nat.le_refl _
  originOf _ _ := rfl
  current := rfl
  globals other found := by
    change ((watched.machine.scopes.push (some parent)).cell? globalScope other).isSome = true
      at found
    rw [Forest.cell?_push] at found
    exact .inl found

/-- A closure with the next number makes the watched state grow. -/
theorem numbered (watched : Watched) (origin : Origin)
    : watched.Grows fresh (watched.numbered origin) where
  size := Nat.le_refl _
  parent _ _ := rfl
  frameOf _ _ := rfl
  cell _ _ := id
  nextId := Nat.le_succ _
  originOf _ less := setAt_of_ne _ origin (Nat.ne_of_lt less)
  current := rfl
  globals _ := .inl

end Grows

-----
-- Staying sound

/-- What a change has to show for the machine to stay sound. -/
theorem Sound.step (sound : before.Sound) (more : before.Extends fresh after)
    (cells
      : ∀ scope name value,
          after.machine.scopes.cell? scope name = some value
          → before.machine.scopes.cell? scope name = some value ∨ after.Traced value)
    (fields
      : ∀ (address : Nat) (table : Table Value) (name : String) (value : Value),
          after.machine.objects[address]? = some table
          → table.get? name = some value
          → (∃ table',
              before.machine.objects[address]? = some table' ∧ table'.get? name = some value)
            ∨ after.Traced value)
    (receivers
      : ∀ scope parent,
          after.machine.scopes.parent? scope = some parent
          → (after.frameOf scope).kind = .receiver
          → before.machine.scopes.parent? scope = some parent
              ∧ after.machine.scopes.cell? scope "this"
                  = before.machine.scopes.cell? scope "this"
            ∨ ∃ address lineage,
                after.machine.scopes.cell? scope "this" = some (.object address lineage))
    (superclasses
      : ∀ scope parent,
          after.machine.scopes.parent? scope = some parent
          → (after.frameOf scope).kind = .superclass
          → before.machine.scopes.parent? scope = some parent
              ∧ after.machine.scopes.cell? scope "super"
                  = before.machine.scopes.cell? scope "super"
            ∨ ∃ lineage, after.machine.scopes.cell? scope "super" = some (.class lineage))
    (completed
      : ∀ entry ∈ after.completed,
          entry ∈ before.completed
          ∨ (after.machine.scopes.cell? entry.2 entry.1.name).isSome = true)
    (lookups
      : ∀ lookup ∈ after.lookups,
          lookup ∈ before.lookups ∨ lookup.Aligned ∧ lookup.Definite)
    : after.Sound where
  root := (more.parent globalScope sound.rooted).trans sound.root
  rooted := Nat.lt_of_lt_of_le sound.rooted more.size
  cells scope name value found := by
    rcases cells scope name value found with earlier | traced
    · exact more.traced (sound.cells scope name value earlier)
    · exact traced
  fields address table name value held found := by
    rcases fields address table name value held found with ⟨table', held, found⟩ | traced
    · exact more.traced (sound.fields address table' name value held found)
    · exact traced
  receivers scope parent outer isReceiver := by
    rcases receivers scope parent outer isReceiver with ⟨earlier, same⟩ | holds
    · rw [more.frameOf scope (Forest.lt_size_of_parent? earlier)] at isReceiver
      rw [same]
      exact sound.receivers scope parent earlier isReceiver
    · exact holds
  superclasses scope parent outer isSuperclass := by
    rcases superclasses scope parent outer isSuperclass with ⟨earlier, same⟩ | holds
    · rw [more.frameOf scope (Forest.lt_size_of_parent? earlier)] at isSuperclass
      rw [same]
      exact sound.superclasses scope parent earlier isSuperclass
    · exact holds
  completed entry member := by
    rcases completed entry member with earlier | defined
    · exact more.cell _ _ (sound.completed entry earlier)
    · exact defined
  lookups lookup member := by
    rcases lookups lookup member with earlier | holds
    · exact sound.lookups lookup earlier
    · exact holds

/-- Most changes are none of any instance. -/
theorem sameFields {objects : Array (Table Value)} {traced : Value → Prop} (address : Nat)
    (table : Table Value) (name : String) (value : Value)
    (held : objects[address]? = some table) (found : table.get? name = some value)
    : (∃ table', objects[address]? = some table' ∧ table'.get? name = some value)
      ∨ traced value :=
  .inl ⟨table, held, found⟩

/-- Where scopes and instances stay as they are, only what is noted beside them counts. -/
theorem Sound.sameScopes (sound : before.Sound) (more : before.Extends fresh after)
    (scopes : after.machine.scopes = before.machine.scopes)
    (objects : after.machine.objects = before.machine.objects)
    (completed
      : ∀ entry ∈ after.completed,
          entry ∈ before.completed
          ∨ (after.machine.scopes.cell? entry.2 entry.1.name).isSome = true)
    (lookups
      : ∀ lookup ∈ after.lookups,
          lookup ∈ before.lookups ∨ lookup.Aligned ∧ lookup.Definite)
    : after.Sound := by
  have parents (scope parent : Nat) (name : String)
      (found : after.machine.scopes.parent? scope = some parent)
      : before.machine.scopes.parent? scope = some parent
        ∧ after.machine.scopes.cell? scope name = before.machine.scopes.cell? scope name := by
    rw [scopes] at found ⊢
    exact ⟨found, rfl⟩
  refine sound.step more ?_ ?_ (fun scope parent found _ => .inl (parents scope parent _ found))
    (fun scope parent found _ => .inl (parents scope parent _ found)) completed lookups
  · intro scope name value found
    exact .inl (scopes ▸ found)
  · rw [objects]
    exact sameFields

/-- A program writes to names that it can introduce. -/
theorem Sound.put (sound : before.Sound) {scope : Nat} {name : String} {value : Value}
    (grows : before.Grows fresh (before.put scope name value))
    (traced : (before.put scope name value).Traced value) (notThis : name ≠ "this")
    (notSuper : name ≠ "super")
    : (before.put scope name value).Sound := by
  refine sound.step grows.toExtends ?_ sameFields ?_ ?_ (fun _ => .inl) (fun _ => .inl)
  · intro other name' value' found
    change (before.machine.scopes.put scope name value).cell? other name' = some value' at found
    rw [Forest.cell?_put] at found
    split at found
    · exact .inr (Option.some.inj found ▸ traced)
    · exact .inl found
  · intro other parent outer _
    exact .inl ⟨(Forest.parent?_put _ _ _ _ other).symm.trans outer,
      Forest.cell?_put_of_ne _ scope value other notThis.symm⟩
  · intro other parent outer _
    exact .inl ⟨(Forest.parent?_put _ _ _ _ other).symm.trans outer,
      Forest.cell?_put_of_ne _ scope value other notSuper.symm⟩

/-- A scope for names keeps the watched state sound. -/
theorem Sound.opened (sound : before.Sound) {frame : Frame} (parent : Nat)
    (notReceiver : frame.kind ≠ .receiver) (notSuperclass : frame.kind ≠ .superclass)
    : (before.opened frame parent).Sound := by
  have grows : before.Grows (fun _ => True) (before.opened frame parent) := .opened _ _ _
  have earlier {scope outer : Nat} {kind : FrameKind} (other : frame.kind ≠ kind)
      (found : (before.opened frame parent).machine.scopes.parent? scope = some outer)
      (isKind : ((before.opened frame parent).frameOf scope).kind = kind)
      : before.machine.scopes.parent? scope = some outer := by
    by_cases new : scope = before.machine.scopes.size
    · subst new
      have same : (before.opened frame parent).frameOf before.machine.scopes.size = frame :=
        setAt_self _ _ _
      rw [same] at isKind
      exact absurd isKind other
    · exact ((Forest.parent?_push _ _ scope).trans (if_neg new)).symm.trans found
  refine sound.step grows.toExtends ?_ sameFields ?_ ?_ (fun _ => .inl) (fun _ => .inl)
  · intro scope name value found
    exact .inl ((Forest.cell?_push _ _ scope name).symm.trans found)
  · intro scope outer found isReceiver
    exact .inl ⟨earlier notReceiver found isReceiver, Forest.cell?_push _ _ scope "this"⟩
  · intro scope outer found isSuperclass
    exact .inl ⟨earlier notSuperclass found isSuperclass, Forest.cell?_push _ _ scope "super"⟩

/-- A numbered closure keeps the watched state sound. -/
theorem Sound.numbered (sound : before.Sound) (origin : Origin)
    : (before.numbered origin).Sound := by
  have grows : before.Grows (fun _ => True) (before.numbered origin) := .numbered _ _
  exact sound.sameScopes grows.toExtends rfl rfl (fun _ => .inl) (fun _ => .inl)

/-- What is printed, told or read from the clock has nothing to do with scopes. -/
theorem Grows.quiet {watched : Watched} {machine : Machine}
    (scopes : machine.scopes = watched.machine.scopes)
    (nextId : watched.machine.nextId ≤ machine.nextId)
    (current : machine.current = watched.machine.current)
    : watched.Grows fresh { watched with machine } where
  size := Nat.le_of_eq (congrArg Forest.size scopes.symm)
  parent _ _ := by rw [scopes]
  frameOf _ _ := rfl
  cell _ _ found := by rw [scopes]; exact found
  nextId := nextId
  originOf _ _ := rfl
  current := current
  globals _ found := by rw [scopes] at found; exact .inl found

/-- A machine with the same scopes keeps the watched state sound, if its fields hold traced values.
-/
theorem Sound.quiet (sound : before.Sound) {machine : Machine}
    (grows : before.Grows fresh { before with machine })
    (scopes : machine.scopes = before.machine.scopes)
    (fields
      : ∀ (address : Nat) (table : Table Value) (name : String) (value : Value),
          machine.objects[address]? = some table
          → table.get? name = some value
          → (∃ table',
              before.machine.objects[address]? = some table' ∧ table'.get? name = some value)
            ∨ Traced { before with machine } value)
    : Watched.Sound { before with machine } := by
  refine sound.step grows.toExtends ?_ fields ?_ ?_ (fun _ => .inl) (fun _ => .inl)
  · intro scope name value found
    rw [scopes] at found
    exact .inl found
  · intro scope parent found _
    rw [scopes] at found ⊢
    exact .inl ⟨found, rfl⟩
  · intro scope parent found _
    rw [scopes] at found ⊢
    exact .inl ⟨found, rfl⟩

end Watched

-----
-- Actions that touch no scope

section Quiet

variable {fresh : String → Prop} {before : Watched}

/-- An action that changes no scope, and puts only values into fields whose functions can run. -/
theorem Tracks.fields {α : Type} {action : Run α} {value : α} {machine : Machine}
    {post : α → Watched → Prop} (sound : before.Sound)
    (run : action before.machine = .ok value machine)
    (scopes : machine.scopes = before.machine.scopes)
    (nextId : before.machine.nextId ≤ machine.nextId)
    (current : machine.current = before.machine.current)
    (fields
      : ∀ (address : Nat) (table : Table Value) (name : String) (value : Value),
          machine.objects[address]? = some table
          → table.get? name = some value
          → (∃ table',
              before.machine.objects[address]? = some table' ∧ table'.get? name = some value)
            ∨ before.Traced value)
    (holds : post value { before with machine })
    : Tracks fresh action (Watch.lift action) before post := by
  have grows : before.Grows fresh { before with machine } := .quiet scopes nextId current
  have watched : Watch.lift action before = .ok value { before with machine } := by
    unfold Watch.lift
    rw [run]
  refine .of_ok watched run grows (sound.quiet grows scopes ?_) holds
  intro address table name value held found
  exact (fields address table name value held found).imp_right grows.traced

/-- An action that leaves the scopes alone tracks itself. -/
theorem Tracks.quiet {α : Type} {action : Run α} {value : α} {machine : Machine}
    {post : α → Watched → Prop} (sound : before.Sound)
    (run : action before.machine = .ok value machine)
    (scopes : machine.scopes = before.machine.scopes)
    (objects : machine.objects = before.machine.objects)
    (nextId : before.machine.nextId ≤ machine.nextId)
    (current : machine.current = before.machine.current)
    (holds : post value { before with machine })
    : Tracks fresh action (Watch.lift action) before post := by
  refine .fields sound run scopes nextId current ?_ holds
  rw [objects]
  exact Watched.sameFields

/-- The current scope is the same on both sides. -/
theorem tracks_currentScope (sound : before.Sound)
    : Tracks fresh Run.currentScope (Watch.lift Run.currentScope) before
        (fun scope after => after = before ∧ scope = before.machine.current) :=
  .quiet sound rfl rfl rfl (Nat.le_refl _) rfl ⟨rfl, rfl⟩

/-- Printing tracks itself. -/
theorem tracks_print (sound : before.Sound) (text : String)
    : Tracks fresh (Run.print text) (Watch.lift (Run.print text)) before (fun _ _ => True) :=
  .quiet sound rfl rfl rfl (Nat.le_refl _) rfl trivial

/-- An event of the trace touches neither scopes nor objects nor numbers. -/
theorem Machine.told_same (machine : Machine) (event : TraceEvent)
    : (machine.told event).scopes = machine.scopes
      ∧ (machine.told event).objects = machine.objects
      ∧ (machine.told event).nextId = machine.nextId
      ∧ (machine.told event).current = machine.current := by
  unfold Machine.told
  split
  · split <;> exact ⟨rfl, rfl, rfl, rfl⟩
  · exact ⟨rfl, rfl, rfl, rfl⟩

/-- An event of the trace tracks itself. -/
theorem tracks_tell (sound : before.Sound) (event : TraceEvent)
    : Tracks fresh (Run.tell event) (Watch.lift (Run.tell event)) before (fun _ _ => True) := by
  obtain ⟨scopes, objects, nextId, current⟩ := Machine.told_same before.machine event
  exact .quiet sound rfl scopes objects (Nat.le_of_eq nextId.symm) current trivial

/-- The clock yields a traced value. -/
theorem tracks_readClock (sound : before.Sound)
    : Tracks fresh Run.readClock (Watch.lift Run.readClock) before
        (fun value after => after.Traced value) :=
  .quiet sound rfl rfl rfl (Nat.le_refl _) rfl trivial

/-- A fresh number tracks itself. -/
theorem tracks_freshId (sound : before.Sound)
    : Tracks fresh Run.freshId (Watch.lift Run.freshId) before (fun _ _ => True) :=
  .quiet sound rfl rfl rfl (Nat.le_succ _) rfl trivial

/-- What a field holds is traced. -/
theorem tracks_field? (sound : before.Sound) (address : Nat) (name : String)
    : Tracks fresh (Run.field? address name) (Watch.lift (Run.field? address name)) before
        (fun found after => ∀ value, found = some value → after.Traced value) := by
  refine .quiet sound rfl rfl rfl (Nat.le_refl _) rfl fun value found => ?_
  obtain ⟨table, held, inside⟩ := Option.bind_eq_some_iff.1 found
  exact sound.fields address table name value held inside

/-- A new instance of a traced class is traced. -/
theorem tracks_newObject (sound : before.Sound) {lineage : Lineage}
    (traced : before.Class lineage)
    : Tracks fresh (Run.newObject lineage) (Watch.lift (Run.newObject lineage)) before
        (fun value after =>
          after.Class lineage ∧ ∃ address, value = .object address lineage) := by
  let machine : Machine :=
    { before.machine with objects := before.machine.objects.push .empty }
  have grows : before.Grows fresh { before with machine } := .quiet rfl (Nat.le_refl _) rfl
  refine .fields sound rfl rfl (Nat.le_refl _) rfl ?_ ⟨grows.class_ traced, _, rfl⟩
  intro address table name value held found
  rw [Array.getElem?_push] at held
  split at held
  · obtain rfl := Option.some.inj held
    simp [Table.get?_empty] at found
  · exact .inl ⟨table, held, found⟩

/-- A traced value may be set as a field. -/
theorem tracks_setField (sound : before.Sound) (address : Nat) (name : String) {value : Value}
    (traced : before.Traced value)
    : Tracks fresh (Run.setField address name value)
        (Watch.lift (Run.setField address name value)) before (fun _ _ => True) := by
  refine .fields sound rfl rfl (Nat.le_refl _) rfl ?_ trivial
  intro other table name' value' held found
  change (before.machine.objects.modify address _)[other]? = some table at held
  rw [Array.getElem?_modify] at held
  split at held
  · obtain ⟨table', held', rfl⟩ := Option.map_eq_some_iff.1 held
    rw [Table.get?_insert] at found
    split at found
    · exact .inr (Option.some.inj found ▸ traced)
    · exact .inl ⟨table', held', found⟩
  · exact .inl ⟨table, held, found⟩

/-- A result that is there already tracks itself if its value is traced. -/
theorem tracks_ofExcept (sound : before.Sound) {result : Except RuntimeError Value}
    (plain : ∀ value, result = .ok value → before.Traced value)
    : Tracks fresh (Run.ofExcept result) (Watch.lift (Run.ofExcept result)) before
        (fun value after => after.Traced value) := by
  cases result with
  | ok value => exact .quiet sound rfl rfl rfl (Nat.le_refl _) rfl (plain value rfl)
  | error error => exact .fail sound trivial

/-- Operators yield plain values or one of their operands. -/
theorem traced_applyUnary {operator : Token} {operand value : Value}
    (applied : Value.applyUnary operator operand = .ok value)
    : before.Traced value := by
  unfold Value.applyUnary at applied
  split at applied
  all_goals first
    | (obtain rfl := Except.ok.inj applied; trivial)
    | cases applied

/-- A sum is no closure and no instance, hence traced. -/
theorem traced_add {operator : Token} {left right value : Value}
    (applied : Value.add operator left right = .ok value)
    : before.Traced value := by
  unfold Value.add at applied
  split at applied
  all_goals first
    | (obtain rfl := Except.ok.inj applied; trivial)
    | cases applied

/-- An operation on numbers yields no closure and no instance, hence a traced value. -/
theorem traced_applyNumeric {operator : Token} {a b : Float} {value : Value}
    (applied : Value.applyNumeric operator a b = .ok value)
    : before.Traced value := by
  unfold Value.applyNumeric at applied
  split at applied
  all_goals first
    | (obtain rfl := Except.ok.inj applied; trivial)
    | cases applied

/-- A binary operator yields its second operand or a value that is always traced. -/
theorem traced_applyBinary {operator : Token} {left right value : Value}
    (traced : before.Traced right) (applied : Value.applyBinary operator left right = .ok value)
    : before.Traced value := by
  unfold Value.applyBinary at applied
  split at applied
  · exact Except.ok.inj applied ▸ traced
  · exact Except.ok.inj applied ▸ trivial
  · exact Except.ok.inj applied ▸ trivial
  · exact traced_add applied
  · split at applied
    · exact traced_applyNumeric applied
    · cases applied

end Quiet

end Lox.Scoping
