import Lox.Proofs.Renaming.Machines

/-! Single actions of two machines that are the same but for names.

A scope is opened on both machines at once, and what is written to one of them under a name is
written to the other under the name that stands for it.
-/

namespace Lox

variable {rename : Renaming} {ground : Ground} {α β : Type}

-----
-- Failing

/-- A failure runs together on both sides. -/
theorem together_failAt {post : α → β → Ground → Prop} (token : Token)
    (problem : RuntimeProblem)
    : Together rename ground (Run.failAt token problem) (Run.failAt token problem) post :=
  .throw (.same _)

/-- A name in an affected scope is blamed under its new name. -/
theorem together_failAt_turns {post : α → β → Ground → Prop} {mark : Bool} {name name' : Token}
    {problem : RuntimeProblem} (turns : rename.TurnsToken mark name name')
    (ofName : problem = .undefinedVariable ∨ problem = .superclassNotClass)
    : Together rename ground (Run.failAt name problem) (Run.failAt name' problem) post :=
  .throw (.of_token turns ofName)

/-- A result that is there already runs together with what it turns into. -/
theorem together_ofExcept {result result' : Except RuntimeError Value}
    (turns : ResultTurns rename ground.standing result result')
    : Together rename ground (Run.ofExcept result) (Run.ofExcept result')
        (Related (Value.Turns rename)) := by
  cases turns with
  | ok turns => exact .pure turns
  | error error => exact .throw (.same _)

-----
-- Output and trace

/-- The same text is printed on both sides. -/
theorem together_print (text : String)
    : Together rename ground (Run.print text) (Run.print text) (fun _ _ _ => True) :=
  fun _ _ turns =>
    ⟨ground, .refl ground, { turns with output := congrArg (· ++ text) turns.output }, trivial⟩

/-- What is told about a run may differ. -/
theorem together_tell (event event' : TraceEvent)
    : Together rename ground (Run.tell event) (Run.tell event') (fun _ _ _ => True) := by
  intro machine machine' turns
  obtain ⟨fileTrace, consoleTrace, told⟩ := machine.told_eq event
  obtain ⟨fileTrace', consoleTrace', told'⟩ := machine'.told_eq event'
  refine ⟨ground, .refl ground, ?_, trivial⟩
  change (machine.told event).Turns rename ground (machine'.told event')
  rw [told, told']
  exact { turns with }

/-- The clock is read on both sides, with the same reading. -/
theorem together_readClock
    : Together rename ground Run.readClock Run.readClock (Related (Value.Turns rename)) := by
  intro machine machine' turns
  refine ⟨ground, .refl ground,
    { turns with readingsTaken := congrArg (· + 1) turns.readingsTaken }, ?_⟩
  rw [turns.readings, turns.readingsTaken]
  exact .literal _

-----
-- Opening scopes

/-- The current scope is the same on both sides. -/
theorem together_currentScope
    : Together rename ground Run.currentScope Run.currentScope
        (fun scope scope' _ => scope = ground.current ∧ scope' = ground.current) :=
  fun _ _ turns => ⟨ground, .refl ground, turns, turns.current, turns.current'⟩

/-- One more scope is known. -/
def Ground.opened (ground : Ground) (scope : Nat) (marks : List Bool) : Ground :=
  {
    ground with
    standing := fun other => if other = scope then some marks else ground.standing other
  }

namespace Ground

variable {scope other : Nat} {marks marks' : List Bool}

/-- A scope that was opened has the marks that it was opened with. -/
theorem opened_self (ground : Ground) (scope : Nat) (marks : List Bool)
    : (ground.opened scope marks).standing scope = some marks :=
  if_pos rfl

/-- A scope has its new marks or those from before. -/
theorem opened_cases (known : (ground.opened scope marks).standing other = some marks')
    : other = scope ∧ marks' = marks ∨ other ≠ scope ∧ ground.standing other = some marks' := by
  by_cases last : other = scope
  · subst last
    exact .inl ⟨rfl, Option.some.inj (known.symm.trans (ground.opened_self other marks))⟩
  · exact .inr ⟨last, (if_neg last).symm.trans known⟩

/-- A new scope only adds to what is marked. -/
theorem extends_opened (new : ground.standing scope = none) (marks : List Bool)
    : ground.Extends (ground.opened scope marks) := by
  refine ⟨fun other marks' known => ?_, rfl, fun _ _ => id⟩
  have apart : other ≠ scope := by
    rintro rfl
    cases new.symm.trans known
  exact (if_neg apart).trans known

end Ground

/-- Whether a new scope is affected is free to choose. -/
theorem Machine.Turns.opened {machine machine' : Machine}
    (turns : machine.Turns rename ground machine') {parent : Nat} {marks : List Bool}
    (known : ground.standing parent = some marks) (mark : Bool)
    : let scope := machine.scopes.size
      ground.Extends (ground.opened scope (mark :: marks))
      ∧ Machine.Turns rename (ground.opened scope (mark :: marks))
          { machine with scopes := machine.scopes.push (some parent) }
          { machine' with scopes := machine'.scopes.push (some parent) } := by
  intro scope
  have new : ground.standing scope = none := by
    cases found : ground.standing scope with
    | none => rfl
    | some marks => exact absurd (turns.known scope marks found) (Nat.lt_irrefl _)
  have more := Ground.extends_opened new (mark :: marks)
  refine ⟨more, { turns with
    size := ?size, parent := ?parent, known := ?known, outer := ?outer,
    outermost := more.standing _ _ turns.outermost, cell := ?cell, defined := ?defined,
    field := fun address name => optionRel_imp (turns.field address name) fun _ _ turns =>
      turns.extend more.standing }⟩
  case size => simp [turns.size]
  case parent =>
    intro other
    simp only [Forest.parent?_push, turns.size, turns.parent]
  case known =>
    intro other marks' known
    rw [Forest.size_push]
    rcases Ground.opened_cases known with ⟨rfl, -⟩ | ⟨-, known⟩
    · exact Nat.lt_succ_self _
    · exact Nat.lt_succ_of_lt (turns.known other marks' known)
  case outer =>
    intro other parent' marks' inside known'
    rw [Forest.parent?_push] at inside
    rcases Ground.opened_cases known' with ⟨rfl, rfl⟩ | ⟨apart, known'⟩
    · rw [if_pos rfl] at inside
      obtain rfl := Option.some.inj inside
      exact more.standing _ _ known
    · rw [if_neg apart] at inside
      exact more.standing _ _ (turns.outer other parent' marks' inside known')
  case cell =>
    intro other marks' name name' known turnsName
    rw [Forest.cell?_push, Forest.cell?_push]
    rcases Ground.opened_cases known with ⟨rfl, -⟩ | ⟨-, known⟩
    · rw [Forest.cell?_of_size_le (Nat.le_refl _),
        Forest.cell?_of_size_le (Nat.le_of_eq turns.size)]
      exact .none
    · exact optionRel_imp (turns.cell other marks' name name' known turnsName) fun _ _ turns =>
        turns.extend more.standing
  case defined =>
    intro other name defined
    rw [Forest.cell?_push]
    exact turns.defined other name defined

/-- A new scope has the same number on both sides, marked if the renamed variable is in it. -/
theorem together_newScope (mark : Bool) {parent : Nat} {marks : List Bool}
    (known : ground.standing parent = some marks)
    : Together rename ground (Run.newScope parent) (Run.newScope parent)
        (fun scope scope' after =>
          scope' = scope ∧ after.standing scope = some (mark :: marks)) := by
  intro machine machine' turns
  obtain ⟨more, opened⟩ := turns.opened known mark
  exact ⟨_, more, opened, turns.size, ground.opened_self _ _⟩

/-- Inside of a scope both machines see what is affected from there. -/
theorem together_within {related : Standing → α → β → Prop} {action : Run α} {action' : Run β}
    (scope : Nat)
    (inside : Together rename { ground with current := scope } action action' (Related related))
    : Together rename ground (Run.within scope action) (Run.within scope action')
        (Related related) := by
  intro machine machine' turns
  have ended := inside { machine with current := scope } { machine' with current := scope }
    { turns with current := rfl, current' := rfl }
  unfold Run.within
  revert ended
  cases action { machine with current := scope } <;> cases action' { machine' with current := scope }
    <;> intro ended
  · obtain ⟨after, more, turnsAfter, holds⟩ := ended
    exact ⟨{ after with current := ground.current }, { more with current := rfl },
      { turnsAfter with current := turns.current, current' := turns.current' }, holds⟩
  · exact ended.elim
  · exact ended.elim
  · obtain ⟨faults, after, more, turnsAfter⟩ := ended
    exact ⟨faults, { after with current := ground.current }, { more with current := rfl },
      { turnsAfter with current := turns.current, current' := turns.current' }⟩

-----
-- Writing to scopes

section

variable {scope : Nat} {marks : List Bool} {value value' : Value}

/-- A definition runs together under the name that it turns into. -/
theorem together_defineIn {name name' : String} (known : ground.standing scope = some marks)
    (turnsName : rename.Turns (marks.headD false) name name')
    (turnsValue : value.Turns rename ground.standing value')
    : Together rename ground (Run.defineIn scope name value) (Run.defineIn scope name' value')
        (fun _ _ after => after.defined scope name) := by
  intro machine machine' turns
  let after : Ground :=
    { ground with
      defined := fun other found => ground.defined other found ∨ other = scope ∧ found = name }
  have inside := turns.known scope marks known
  have more : ground.Extends after := ⟨fun _ _ => id, rfl, fun _ _ => .inl⟩
  refine ⟨after, more, { turns with
    size := ?size, parent := ?parent, known := ?known, outer := ?outer, cell := ?cell,
    defined := ?defined }, .inr ⟨rfl, rfl⟩⟩
  case size => exact (Forest.size_put _ _ _ _).trans (turns.size.trans (Forest.size_put _ _ _ _).symm)
  case parent =>
    intro other
    exact (Forest.parent?_put _ _ _ _ other).trans
      ((turns.parent other).trans (Forest.parent?_put _ _ _ _ other).symm)
  case known =>
    intro other marks' known
    exact Nat.lt_of_lt_of_eq (turns.known other marks' known) (Forest.size_put _ _ _ _).symm
  case outer =>
    intro other parent marks' found known
    exact turns.outer other parent marks' ((Forest.parent?_put _ _ _ _ other).symm.trans found)
      known
  case cell =>
    intro other marks' found found' known' turnsFound
    change Option.Rel _ ((machine.scopes.put scope name value).cell? other found)
      ((machine'.scopes.put scope name' value').cell? other found')
    rw [Forest.cell?_put, Forest.cell?_put]
    have inside' : scope < machine'.scopes.size := Nat.lt_of_lt_of_eq inside turns.size.symm
    by_cases here : other = scope
    · subst here
      obtain rfl := Option.some.inj (known'.symm.trans known)
      have same := turnsName.eq_iff turnsFound
      simp only [inside, inside', true_and, same]
      split
      · exact .some turnsValue
      · exact turns.cell other marks' found found' known' turnsFound
    · rw [if_neg fun both => here both.1, if_neg fun both => here both.1]
      exact turns.cell other marks' found found' known' turnsFound
  case defined =>
    rintro other found (defined | ⟨rfl, rfl⟩)
    · exact Forest.cell?_put_isSome _ (turns.defined other found defined)
    · change ((machine.scopes.put other found value).cell? other found).isSome = true
      rw [Forest.cell?_put_self _ inside]
      rfl

/-- A definition in the current scope runs together under the name that it turns into. -/
theorem together_define {name name' : Token} (stands : ground.At marks)
    (turnsName : rename.TurnsToken (marks.headD false) name name')
    (turnsValue : value.Turns rename ground.standing value')
    : Together rename ground (Run.define name value) (Run.define name' value')
        (fun _ _ after => after.defined ground.current name.lexeme) := by
  refine together_currentScope.bind fun scope scope' between more same => ?_
  obtain ⟨rfl, rfl⟩ := same
  exact together_defineIn (more.standing _ _ stands) turnsName.lexeme
    (turnsValue.extend more.standing)

/-- Where no scope is affected, names stay as they are. -/
theorem together_assignFrom (known : ground.standing scope = some marks)
    (unmarked : Unmarked marks) (name : Token)
    (turnsValue : value.Turns rename ground.standing value')
    : Together rename ground (Run.assignFrom scope name value) (Run.assignFrom scope name value')
        (fun _ _ _ => True) := by
  intro machine machine' turns
  obtain ⟨same, unaffected⟩ := turns.holder name.lexeme known unmarked
  cases found : machine.scopes.holder? scope name.lexeme with
  | none =>
      rw [Run.assignFrom_missing found, Run.assignFrom_missing (same.trans found)]
      exact together_failAt name _ machine machine' turns
  | some holder =>
      rw [Run.assignFrom_held found, Run.assignFrom_held (same.trans found)]
      obtain ⟨marks', knownHolder, unmarked'⟩ := unaffected holder found
      have turnsName : rename.Turns (marks'.headD false) name.lexeme name.lexeme :=
        unmarked'.headD.symm ▸ .unmarked _
      exact (together_defineIn knownHolder turnsName turnsValue).weaken
        (fun _ _ _ _ _ => trivial) machine machine' turns

/-- A name that is defined in a scope itself is overwritten there. -/
theorem together_assignFrom_defined {name : Token} (known : ground.standing scope = some marks)
    (turnsName : rename.TurnsToken (marks.headD false) name name)
    (defined : ground.defined scope name.lexeme)
    (turnsValue : value.Turns rename ground.standing value')
    : Together rename ground (Run.assignFrom scope name value) (Run.assignFrom scope name value')
        (fun _ _ _ => True) := by
  intro machine machine' turns
  have isSome := turns.defined scope name.lexeme defined
  have isSome' :=
    (optionRel_isSome (turns.cell scope marks _ _ known turnsName.lexeme)).trans isSome
  rw [Run.assignFrom_held (Forest.holder?_of_isSome isSome),
    Run.assignFrom_held (Forest.holder?_of_isSome isSome')]
  exact (together_defineIn known turnsName.lexeme turnsValue).weaken
    (fun _ _ _ _ _ => trivial) machine machine' turns

-----
-- Variables

/-- The mark at a distance is that of the scope at the distance. -/
theorem markAt_some (marks : List Bool) (distance : Nat)
    : (marks.drop distance).headD false = markAt marks (some distance) := by
  change _ = marks.getD distance false
  rw [List.getD_eq_getElem?_getD, ← List.head?_drop, List.headD_eq_head?_getD]

/-- A read finds the value that turned, under the name that turned. -/
theorem together_readVariable {target target' : Reference (Option Nat)} (stands : ground.At marks)
    (turnsTarget : rename.TurnsReference marks target target')
    : Together rename ground (Run.readVariable target) (Run.readVariable target')
        (Related (Value.Turns rename)) := by
  intro machine machine' turns
  cases turnsTarget with
  | @intro name name' binding turnsName =>
  cases binding with
  | none =>
      obtain rfl := turnsName.eq_of_unmarked
      have found : Option.Rel (Value.Turns rename ground.standing)
          (machine.scopes.get? globalScope name'.lexeme)
          (machine'.scopes.get? globalScope name'.lexeme) := by
        obtain ⟨same, unaffected⟩ := turns.holder name'.lexeme turns.outermost .nil
        unfold Forest.get?
        rw [same]
        cases found : machine.scopes.holder? globalScope name'.lexeme with
        | none => exact .none
        | some holder =>
            obtain ⟨marks', known, unmarked⟩ := unaffected holder found
            exact turns.cell holder marks' _ _ known (unmarked.headD.symm ▸ .unmarked _)
      cases held : machine.scopes.get? globalScope name'.lexeme
        <;> cases held' : machine'.scopes.get? globalScope name'.lexeme
        <;> rw [held, held'] at found <;> cases found
      · rw [Run.readVariable_missing held, Run.readVariable_missing held']
        exact together_failAt name' _ machine machine' turns
      · next turnsValue =>
          rw [Run.readVariable_held held, Run.readVariable_held held']
          exact ⟨ground, .refl ground, turns, turnsValue⟩
  | some distance =>
      change TogetherEnd rename ground _
        (Run.ofAccess name (machine.scopes.valueAt machine.current distance name.lexeme) machine)
        (Run.ofAccess name' (machine'.scopes.valueAt machine'.current distance name'.lexeme)
          machine')
      rw [turns.current, turns.current']
      have same := turns.ancestor_eq ground.current distance
      cases there : machine.scopes.ancestor? ground.current distance with
      | none =>
          rw [Forest.valueAt_of_none _ there, Forest.valueAt_of_none _ (same.trans there)]
          exact ⟨.same _, ground, .refl ground, turns⟩
      | some outer =>
          have found := turns.cell outer _ _ _ (turns.ancestor stands there)
            (markAt_some marks distance ▸ turnsName.lexeme)
          cases held : machine.scopes.cell? outer name.lexeme
            <;> cases held' : machine'.scopes.cell? outer name'.lexeme
            <;> rw [held, held'] at found <;> cases found
          · rw [Forest.valueAt_missing there held, Forest.valueAt_missing (same.trans there) held']
            exact together_failAt_turns turnsName (.inl rfl) machine machine' turns
          · next turnsValue =>
              rw [Forest.valueAt_held there held, Forest.valueAt_held (same.trans there) held']
              exact ⟨ground, .refl ground, turns, turnsValue⟩

/-- The scope at a distance is the same on both machines. -/
theorem Machine.Turns.together_ancestor {machine machine' : Machine}
    (turns : machine.Turns rename ground machine') (stands : ground.At marks) (name name' : Token)
    (distance : Nat)
    : Together rename ground
        (Run.ofAccess name (machine.scopes.ancestor machine.current distance))
        (Run.ofAccess name' (machine'.scopes.ancestor machine'.current distance))
        (fun scope scope' after =>
          scope' = scope ∧ after.standing scope = some (marks.drop distance)) := by
  rw [turns.current, turns.current']
  have same := turns.ancestor_eq ground.current distance
  cases there : machine.scopes.ancestor? ground.current distance with
  | none =>
      rw [Forest.ancestor_of_none there, Forest.ancestor_of_none (same.trans there)]
      exact .throw (.same _)
  | some outer =>
      rw [Forest.ancestor_of_ancestor? there, Forest.ancestor_of_ancestor? (same.trans there)]
      exact .pure ⟨rfl, turns.ancestor stands there⟩

/-- A write finds the scope that turned, under the name that turned. -/
theorem together_writeVariable {target target' : Reference (Option Nat)}
    (stands : ground.At marks) (turnsTarget : rename.TurnsReference marks target target')
    (turnsValue : value.Turns rename ground.standing value')
    : Together rename ground (Run.writeVariable target value) (Run.writeVariable target' value')
        (fun _ _ _ => True) := by
  intro machine machine' turns
  cases turnsTarget with
  | @intro name name' binding turnsName =>
  cases binding with
  | none =>
      obtain rfl := turnsName.eq_of_unmarked
      exact together_assignFrom turns.outermost .nil name' turnsValue machine machine' turns
  | some distance =>
      refine (turns.together_ancestor stands name name' distance).bind
        (fun scope scope' after more reached => ?_) machine machine' turns
      obtain ⟨rfl, known⟩ := reached
      exact (together_defineIn known (markAt_some marks distance ▸ turnsName.lexeme)
        (turnsValue.extend more.standing)).weaken fun _ _ _ _ _ => trivial

end

-----
-- Functions

/-- A fresh number is the same on both sides. -/
theorem together_freshId
    : Together rename ground Run.freshId Run.freshId (fun id id' _ => id' = id) :=
  fun _ _ turns =>
    ⟨ground, .refl ground, { turns with nextId := congrArg (· + 1) turns.nextId }, turns.nextId⟩

/-- A new closure turns with its function. -/
theorem together_newClosure {function function' : BoundLambda} {scope : Nat} {marks : List Bool}
    (inner : List Bool) (known : ground.standing scope = some marks)
    (becomes : function.Becomes rename (inner ++ marks) function') (name : Option String)
    (isInitializer : Bool)
    : Together rename ground (Run.newClosure function scope name isInitializer)
        (Run.newClosure function' scope name isInitializer)
        (Related fun standing => Closure.TurnsIn rename standing inner) := by
  refine together_freshId.bind fun id id' between more same => .pure ?_
  exact {
    id := same, scope := rfl, name := rfl, isInitializer := rfl,
    function := ⟨marks, more.standing _ _ known, becomes⟩ }

/-- The scope of a receiver is not affected. -/
theorem together_bindMethod {method method' : Closure} {receiver receiver' : Value}
    (waits : method.Waits rename ground.standing method')
    (turnsReceiver : receiver.Turns rename ground.standing receiver')
    : Together rename ground (Run.bindMethod method receiver) (Run.bindMethod method' receiver')
        (Related (Closure.Turns rename)) := by
  obtain ⟨marks, known, becomes⟩ := waits.function
  unfold Run.bindMethod
  rw [waits.scope, waits.name, waits.isInitializer]
  refine (together_newScope false known).bind fun scope scope' between more opened => ?_
  obtain ⟨rfl, knownScope⟩ := opened
  refine (together_defineIn knownScope (.unmarked "this")
    (turnsReceiver.extend more.standing)).bind fun _ _ after further _ => ?_
  exact together_newClosure [] (further.standing _ _ knownScope) becomes _ _

/-- The receiver turns with its scope. -/
theorem together_receiverIn {scope : Nat} {marks : List Bool}
    (known : ground.standing scope = some marks)
    : Together rename ground (Run.receiverIn scope) (Run.receiverIn scope)
        (Related (Value.Turns rename)) := by
  intro machine machine' turns
  have found := turns.cell scope marks "this" "this" known (.kept fun _ => rename.this)
  cases held : machine.scopes.cell? scope "this"
    <;> cases held' : machine'.scopes.cell? scope "this"
    <;> rw [held, held'] at found <;> cases found
  · rw [Run.receiverIn_missing held, Run.receiverIn_missing held']
    exact ⟨.same _, ground, .refl ground, turns⟩
  · next turnsReceiver =>
      rw [Run.receiverIn_held held, Run.receiverIn_held held']
      exact ⟨ground, .refl ground, turns, turnsReceiver⟩

-----
-- Instances

/-- A new instance turns with its class. -/
theorem together_newObject {lineage lineage' : Lineage}
    (turnsLineage : lineage.Turns rename ground.standing lineage')
    : Together rename ground (Run.newObject lineage) (Run.newObject lineage')
        (Related (Value.Turns rename)) := by
  intro machine machine' turns
  refine ⟨ground, .refl ground, { turns with objects := ?_, field := fun address name => ?_ }, ?_⟩
  · simp [turns.objects]
  · rw [Machine.fieldAt_push, Machine.fieldAt_push]
    exact turns.field address name
  · rw [turns.objects]
    exact .object _ turnsLineage

/-- The fields of an instance turn, under names that stay. -/
theorem together_field? (address : Nat) (name : String)
    : Together rename ground (Run.field? address name) (Run.field? address name)
        (Related fun standing => Option.Rel (Value.Turns rename standing)) :=
  fun _ _ turns => ⟨ground, .refl ground, turns, turns.field address name⟩

/-- Setting a field runs together, under a name that stays. -/
theorem together_setField (address : Nat) (name : String) {value value' : Value}
    (turnsValue : value.Turns rename ground.standing value')
    : Together rename ground (Run.setField address name value) (Run.setField address name value')
        (fun _ _ _ => True) := by
  intro machine machine' turns
  refine ⟨ground, .refl ground, { turns with objects := ?_, field := fun other found => ?_ },
    trivial⟩
  · simp [turns.objects]
  · rw [Machine.fieldAt_insert, Machine.fieldAt_insert, turns.objects]
    split
    · exact .some turnsValue
    · exact turns.field other found

/-- A method that is found is bound to its receiver. -/
theorem together_bindFound {lineage lineage' : Lineage} {receiver receiver' : Value} (name : Token)
    (turnsLineage : lineage.Turns rename ground.standing lineage')
    (turnsReceiver : receiver.Turns rename ground.standing receiver')
    : Together rename ground
        (match lineage.method? name.lexeme with
          | some method => do return .closure (← Run.bindMethod method receiver)
          | none => Run.failAt name .undefinedProperty : Run Value)
        (match lineage'.method? name.lexeme with
          | some method => do return .closure (← Run.bindMethod method receiver')
          | none => Run.failAt name .undefinedProperty : Run Value)
        (Related (Value.Turns rename)) := by
  have methods := turnsLineage.methods name.lexeme
  revert methods
  generalize lineage.method? name.lexeme = found
  generalize lineage'.method? name.lexeme = found'
  intro methods
  cases methods with
  | none => exact together_failAt name _
  | some waits =>
      exact (together_bindMethod waits turnsReceiver).bind fun _ _ _ _ turns =>
        .pure (.closure turns)

/-- A property turns with its object, under a name that stays. -/
theorem together_readProperty {object object' : Value} (name : Token)
    (turnsObject : object.Turns rename ground.standing object')
    : Together rename ground (Run.readProperty object name) (Run.readProperty object' name)
        (Related (Value.Turns rename)) := by
  cases turnsObject with
  | object address turnsLineage =>
      refine (together_field? address name.lexeme).bind fun field field' between more related => ?_
      cases related with
      | none =>
          have turnsLineage := turnsLineage.extend more.standing
          exact together_bindFound name turnsLineage (.object address turnsLineage)
      | some turns => exact .pure turns
  | _ => exact together_failAt name _

/-- A method of the superclass turns with its receiver, under a name that stays. -/
theorem together_readSuper {keyword : Reference (Option Nat)} {marks : List Bool} (method : Token)
    (stands : ground.At marks) (turnsKeyword : rename.TurnsReference marks keyword keyword)
    : Together rename ground (Run.readSuper keyword method) (Run.readSuper keyword method)
        (Related (Value.Turns rename)) := by
  obtain ⟨name, binding⟩ := keyword
  cases binding with
  | none => exact .throw (.same _)
  | some distance =>
      refine (together_readVariable stands turnsKeyword).bind
        fun superclass superclass' between more turnsSuperclass => ?_
      have stands := stands.extend more
      intro machine machine' turns
      refine (turns.together_ancestor stands name name (distance - 1)).bind
        (fun scope scope' after more reached => ?_) machine machine' turns
      obtain ⟨rfl, known⟩ := reached
      refine (together_receiverIn known).bind fun receiver receiver' last further turns => ?_
      cases turnsSuperclass with
      | «class» turnsLineage =>
          have turnsLineage := turnsLineage.extend (more.trans further).standing
          exact together_bindFound method turnsLineage turns
      | _ => exact .throw (.same _)

end Lox
