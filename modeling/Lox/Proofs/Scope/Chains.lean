import Lox.Proofs.Machine
import Lox.Proofs.Scope.Forest

/-! Walking along a chain of scopes, and going a distance along it.

The chain of a scope is the list of the scopes that are reached from it, from the inside outwards. A
walk ends at the nearest scope of the chain that defines the name. Chains share their outer scopes,
so what a write changes is stated for all chains at once: it is seen through every chain whose
nearest definition of the name is the one that was written to, and through no other.
-/

namespace Lox.Forest

variable {α : Type}

-----
-- Histories

/-- One change to the scopes. Whatever fails changes nothing and is no step. -/
inductive Step (before : Forest α) : Forest α → Prop where
  | outermost : Step before (before.push none)
  | inside {parent : Nat} (there : parent < before.size) : Step before (before.push (some parent))
  | define {scope : Nat} (there : scope < before.size) (name : String) (value : α)
      : Step before (before.put scope name value)
  | assign {scope : Nat} {name : String} {value : α} {after : Forest α}
      (written : before.assign? scope name value = some after)
      : Step before after
  | assignAt {scope distance : Nat} {name : String} {value : α} {after : Forest α}
      (written : before.putAt scope distance name value = .ok after)
      : Step before after

/-- Forests that come about by any sequence of steps. -/
inductive Built : Forest α → Prop where
  | empty : Built .empty
  | step {before after : Forest α} (built : Built before) (step : before.Step after) : Built after

/-- Parents come before their children. -/
def Rooted (forest : Forest α) : Prop :=
  ∀ scope parent, forest.parent? scope = some parent → parent < scope

-----
-- Distances

/-- A value is put into the scope at its distance. -/
theorem putAt_of_ancestor? {forest : Forest α} {scope distance outer : Nat} (name : String)
    (value : α) (there : forest.ancestor? scope distance = some outer)
    : forest.putAt scope distance name value = .ok (forest.put outer name value) := by
  unfold putAt
  rw [ancestor_of_ancestor? there]
  rfl

/-- Putting a value at a distance beyond the forest is an error. -/
theorem putAt_of_none {forest : Forest α} {scope distance : Nat} (name : String) (value : α)
    (beyond : forest.ancestor? scope distance = none)
    : forest.putAt scope distance name value = .error (.noEnclosingScope distance) := by
  unfold putAt
  rw [ancestor_of_none beyond]
  rfl

/-- Both ways of writing write to a single scope. -/
theorem put_of_putAt {forest after : Forest α} {scope distance : Nat} {name : String} {value : α}
    (written : forest.putAt scope distance name value = .ok after)
    : ∃ outer, after = forest.put outer name value := by
  cases there : forest.ancestor? scope distance with
  | none => cases (putAt_of_none name value there).symm.trans written
  | some outer =>
      exact ⟨outer, (Except.ok.inj ((putAt_of_ancestor? name value there).symm.trans written)).symm⟩

-----
-- Parents

/-- A new scope below an old one leaves every scope rooted. -/
theorem Rooted.push {forest : Forest α} (rooted : forest.Rooted) {parent : Option Nat}
    (inside : ∀ outer, parent = some outer → outer < forest.size)
    : (forest.push parent).Rooted := by
  intro scope outer found
  rw [parent?_push] at found
  split at found
  · next last => exact last ▸ inside outer found
  · exact rooted scope outer found

/-- Putting a value leaves every scope rooted. -/
theorem Rooted.put {forest : Forest α} (rooted : forest.Rooted) (scope : Nat) (name : String)
    (value : α)
    : (forest.put scope name value).Rooted := by
  intro scope outer found
  rw [parent?_put] at found
  exact rooted scope outer found

/-- Each way to change a forest leaves every scope rooted. -/
theorem Rooted.step {before after : Forest α} (rooted : before.Rooted) (step : before.Step after)
    : after.Rooted := by
  cases step with
  | outermost => exact rooted.push nofun
  | inside there => exact rooted.push fun outer same => Option.some.inj same ▸ there
  | define there name value => exact rooted.put _ name value
  | assign written =>
      obtain ⟨holder, -, rfl⟩ := Option.map_eq_some_iff.1 written
      exact rooted.put holder _ _
  | assignAt written =>
      obtain ⟨outer, rfl⟩ := put_of_putAt written
      exact rooted.put outer _ _

/-- In every forest that is built all scopes are rooted, by induction on how it is built. -/
theorem Built.rooted {forest : Forest α} (built : forest.Built) : forest.Rooted := by
  induction built with
  | empty =>
      intro scope parent found
      cases found
  | step _ step ih => exact ih.step step

-----
-- Chains

/-- The scopes that are reached from a scope, from the inside outwards. -/
inductive Chain (forest : Forest α) : Nat → List Nat → Prop where
  | outermost {scope : Nat} (last : forest.parent? scope = none) : Chain forest scope [scope]
  | inside {scope outer : Nat} {scopes : List Nat} (parent : forest.parent? scope = some outer)
      (beyond : Chain forest outer scopes)
      : Chain forest scope (scope :: scopes)

/-- Every scope has a chain, since parents come before their children. -/
theorem Rooted.chain {forest : Forest α} (rooted : forest.Rooted) (scope : Nat)
    : ∃ above, forest.Chain scope (scope :: above) := by
  induction scope using Nat.strongRecOn with
  | ind scope ih =>
      cases found : forest.parent? scope with
      | none => exact ⟨[], .outermost found⟩
      | some outer =>
          obtain ⟨above, beyond⟩ := ih outer (rooted scope outer found)
          exact ⟨outer :: above, .inside found beyond⟩

namespace Chain

variable {forest : Forest α} {scope : Nat} {scopes : List Nat}

/-- There is only one. -/
theorem unique {scopes' : List Nat} (chain : forest.Chain scope scopes)
    (chain' : forest.Chain scope scopes')
    : scopes = scopes' := by
  induction chain generalizing scopes' with
  | outermost last =>
      cases chain' with
      | outermost => rfl
      | inside parent => cases last.symm.trans parent
  | inside parent _ ih =>
      cases chain' with
      | outermost last => cases last.symm.trans parent
      | inside parent' beyond' =>
          cases parent.symm.trans parent'
          rw [ih beyond']

/-- A chain is no longer than the place it starts at. -/
theorem length_le (rooted : forest.Rooted) (chain : forest.Chain scope scopes)
    : scopes.length ≤ scope + 1 := by
  induction chain with
  | outermost => simp
  | inside parent _ ih =>
      have earlier := rooted _ _ parent
      simp only [List.length_cons]
      omega

/-- Writes leave chains alone. -/
theorem put (chain : forest.Chain scope scopes) (target : Nat) (name : String) (value : α)
    : (forest.put target name value).Chain scope scopes := by
  induction chain with
  | outermost last => exact .outermost ((parent?_put ..).trans last)
  | inside parent _ ih => exact .inside ((parent?_put ..).trans parent) ih

/-- A distance is an index into the chain. -/
theorem ancestor? (chain : forest.Chain scope scopes) (distance : Nat)
    : forest.ancestor? scope distance = scopes[distance]? := by
  induction chain generalizing distance with
  | outermost last =>
      cases distance with
      | zero => rfl
      | succ distance => simp [Forest.ancestor?, last]
  | inside parent _ ih =>
      cases distance with
      | zero => rfl
      | succ distance => simp [Forest.ancestor?, parent, ih]

/-- A walk with steps enough searches the whole chain. -/
theorem holderWithin? (chain : forest.Chain scope scopes) (name : String) {steps : Nat}
    (enough : scopes.length ≤ steps)
    : forest.holderWithin? name steps scope
        = scopes.find? fun scope => (forest.cell? scope name).isSome := by
  induction chain generalizing steps with
  | outermost last =>
      obtain ⟨steps, rfl⟩ := Nat.exists_eq_succ_of_ne_zero (Nat.ne_of_gt enough)
      simp only [Forest.holderWithin?, last, List.find?_cons, List.find?_nil, Option.bind_none]
      split <;> simp_all
  | inside parent _ ih =>
      cases steps with
      | zero => cases enough
      | succ steps =>
          simp only [Forest.holderWithin?, parent, List.find?_cons, Option.bind_some,
            ih (Nat.le_of_succ_le_succ enough)]
          split <;> simp_all

/-- A name is held by the first scope of the chain that has it. -/
theorem holder? (rooted : forest.Rooted) (chain : forest.Chain scope scopes) (name : String)
    : forest.holder? scope name = scopes.find? fun scope => (forest.cell? scope name).isSome :=
  chain.holderWithin? name (chain.length_le rooted)

end Chain

-----
-- Nearest definitions

/-- The name is defined at this distance along the chain, and at none that is less. -/
structure Nearest (forest : Forest α) (scopes : List Nat) (name : String) (distance holder : Nat)
    : Prop where
  there : scopes[distance]? = some holder
  defined : (forest.cell? holder name).isSome = true
  first
    : ∀ nearer < distance,
        ∀ inner, scopes[nearer]? = some inner → forest.cell? inner name = none

section

variable {forest : Forest α} {scope : Nat} {scopes : List Nat} {name : String}

/-- A walk ends at the nearest definition. -/
theorem Chain.holder?_iff (rooted : forest.Rooted) (chain : forest.Chain scope scopes)
    (name : String) (holder : Nat)
    : forest.holder? scope name = some holder
        ↔ ∃ distance, forest.Nearest scopes name distance holder := by
  rw [chain.holder? rooted, List.find?_eq_some_iff_getElem]
  constructor
  · rintro ⟨defined, distance, inside, there, first⟩
    refine ⟨distance, List.getElem?_eq_some_iff.2 ⟨inside, there⟩, defined, ?_⟩
    intro nearer less inner found
    obtain ⟨-, rfl⟩ := List.getElem?_eq_some_iff.1 found
    simpa using first nearer less
  · rintro ⟨distance, there, defined, first⟩
    obtain ⟨inside, there⟩ := List.getElem?_eq_some_iff.1 there
    refine ⟨defined, distance, inside, there, ?_⟩
    intro nearer less
    have missing := first nearer less scopes[nearer] (List.getElem?_eq_getElem _)
    simp [missing]

/-- The walk and the distance of the nearest definition come to the same scope. -/
theorem Chain.holder?_eq_ancestor? (rooted : forest.Rooted) (chain : forest.Chain scope scopes)
    {distance holder : Nat} (nearest : forest.Nearest scopes name distance holder)
    : forest.holder? scope name = some holder ∧ forest.ancestor? scope distance = some holder :=
  ⟨(chain.holder?_iff rooted name holder).2 ⟨distance, nearest⟩,
    (chain.ancestor? distance).trans nearest.there⟩

/-- A name that no scope of the chain has is held by none. -/
theorem Chain.holder?_of_missing (rooted : forest.Rooted) (chain : forest.Chain scope scopes)
    (missing : ∀ outer ∈ scopes, forest.cell? outer name = none)
    : forest.holder? scope name = none := by
  rw [chain.holder? rooted, List.find?_eq_none]
  intro outer member
  simp [missing outer member]

/-- Overwriting a name changes no walk. -/
theorem holder?_put {target : Nat} (defined : (forest.cell? target name).isSome = true) (value : α)
    (scope : Nat) (other : String)
    : (forest.put target name value).holder? scope other = forest.holder? scope other := by
  have cells (outer : Nat)
      : ((forest.put target name value).cell? outer other).isSome
          = (forest.cell? outer other).isSome := by
    rw [cell?_put]
    split
    · next both =>
        obtain ⟨rfl, -, rfl⟩ := both
        exact defined.symm
    · rfl
  have walks (steps : Nat)
      : ∀ scope,
          (forest.put target name value).holderWithin? other steps scope
            = forest.holderWithin? other steps scope := by
    induction steps with
    | zero => exact fun scope => rfl
    | succ steps ih =>
        intro scope
        simp only [holderWithin?, cells, parent?_put]
        congr 2
        exact funext ih
  exact walks (scope + 1) scope

/-- Overwriting a name changes what is seen where the walk ends there, and nothing else. -/
theorem get?_put {target : Nat} (defined : (forest.cell? target name).isSome = true) (value : α)
    (scope : Nat) (other : String)
    : (forest.put target name value).get? scope other
        = if other = name ∧ forest.holder? scope other = some target then some value
          else forest.get? scope other := by
  obtain ⟨old, held⟩ := Option.isSome_iff_exists.1 defined
  unfold get?
  rw [holder?_put defined]
  cases found : forest.holder? scope other with
  | none => simp
  | some holder =>
      have inside := lt_size_of_cell? held
      simp only [Option.bind_some, cell?_put, inside, true_and, Option.some.injEq]
      exact ite_congr (propext and_comm) (fun _ => rfl) fun _ => rfl

end

-----
-- What a write changes

/-- The value of a name in one scope was overwritten: it is seen from every scope whose chain comes
to this scope first, and all else is seen as before. -/
structure Overwritten (before : Forest α) (holder : Nat) (name : String) (value : α)
    (after : Forest α)
    : Prop where
  chains : ∀ scope scopes, before.Chain scope scopes → after.Chain scope scopes
  seen
    : ∀ scope scopes distance,
        before.Chain scope scopes
        → before.Nearest scopes name distance holder
        → after.get? scope name = some value
  others
    : ∀ scope scopes other,
        before.Chain scope scopes
        → (other = name → ¬∃ distance, before.Nearest scopes other distance holder)
        → after.get? scope other = before.get? scope other

/-- Putting a value where the name is defined overwrites it and nothing else. -/
theorem Rooted.overwritten {forest : Forest α} (rooted : forest.Rooted) {holder : Nat}
    {name : String} (defined : (forest.cell? holder name).isSome = true) (value : α)
    : forest.Overwritten holder name value (forest.put holder name value) where
  chains scope scopes chain := chain.put holder name value
  seen scope scopes distance chain nearest := by
    have found := (chain.holder?_iff rooted name holder).2 ⟨distance, nearest⟩
    rw [get?_put defined, if_pos ⟨rfl, found⟩]
  others scope scopes other chain elsewhere := by
    rw [get?_put defined, if_neg]
    rintro ⟨same, found⟩
    exact elsewhere same ((chain.holder?_iff rooted other holder).1 found)

/-- What is found from a scope by walking along its chain, and by going a distance along it. -/
structure Accesses (forest : Forest α) (scope : Nat) (scopes : List Nat) (name : String)
    : Prop where
  /-- The walk reads what the distance of the nearest definition reads. -/
  read
    : ∀ distance holder,
        forest.Nearest scopes name distance holder
        → ∃ value,
            forest.get? scope name = some value ∧ forest.valueAt scope distance name = .ok value
  /-- The walk writes what the distance of the nearest definition writes. -/
  written
    : ∀ distance holder value,
        forest.Nearest scopes name distance holder
        → ∃ after,
            forest.assign? scope name value = some after
            ∧ forest.putAt scope distance name value = .ok after
            ∧ forest.Overwritten holder name value after
  /-- There is nothing to read or to overwrite. -/
  missing
    : (∀ outer ∈ scopes, forest.cell? outer name = none)
      → forest.get? scope name = none ∧ ∀ value, forest.assign? scope name value = none
  /-- The chain ends before the distance. -/
  short
    : ∀ distance,
        scopes.length ≤ distance
        → forest.ancestor scope distance = .error (.noEnclosingScope distance)
          ∧ forest.valueAt scope distance name = .error (.noEnclosingScope distance)
          ∧ ∀ value, forest.putAt scope distance name value = .error (.noEnclosingScope distance)
  /-- The chain goes that far, and the name may still be missing there. -/
  long
    : ∀ distance,
        distance < scopes.length
        → ∃ outer,
            scopes[distance]? = some outer
            ∧ forest.ancestor scope distance = .ok outer
            ∧ (forest.cell? outer name = none
                → forest.valueAt scope distance name = .error .undefined)
            ∧ (∀ value,
                forest.cell? outer name = some value
                → forest.valueAt scope distance name = .ok value)
            ∧ ∀ value,
                forest.putAt scope distance name value = .ok (forest.put outer name value)

/-- Reads and writes along a chain end in the first scope that has the name. -/
theorem Chain.accesses {forest : Forest α} (rooted : forest.Rooted) {scope : Nat}
    {scopes : List Nat} (chain : forest.Chain scope scopes) (name : String)
    : forest.Accesses scope scopes name where
  read distance holder nearest := by
    obtain ⟨value, held⟩ := Option.isSome_iff_exists.1 nearest.defined
    obtain ⟨found, there⟩ := chain.holder?_eq_ancestor? rooted nearest
    refine ⟨value, ?_, valueAt_held there held⟩
    rw [get?, found, Option.bind_some, held]
  written distance holder value nearest := by
    obtain ⟨found, there⟩ := chain.holder?_eq_ancestor? rooted nearest
    refine ⟨forest.put holder name value, ?_, putAt_of_ancestor? name value there,
      rooted.overwritten nearest.defined value⟩
    rw [assign?, found, Option.map_some]
  missing nowhere := by
    have missing := chain.holder?_of_missing rooted nowhere
    constructor
    · rw [get?, missing, Option.bind_none]
    · intro value
      rw [assign?, missing, Option.map_none]
  short distance ends := by
    have beyond := (chain.ancestor? distance).trans (List.getElem?_eq_none ends)
    exact ⟨ancestor_of_none beyond, valueAt_of_none name beyond,
      fun value => putAt_of_none name value beyond⟩
  long distance inside := by
    have there := (chain.ancestor? distance).trans (List.getElem?_eq_getElem inside)
    exact ⟨scopes[distance], List.getElem?_eq_getElem inside, ancestor_of_ancestor? there,
      valueAt_missing there, fun value held => valueAt_held there held,
      fun value => putAt_of_ancestor? name value there⟩

end Lox.Forest

namespace Lox

open Run

/-- What the machine does with a name, given the chain of a scope: a walk overwrites what the
distance of the nearest definition overwrites, and whatever fails leaves the machine as it was. -/
structure Machine.Follows (machine : Machine) (scope : Nat) (scopes : List Nat) (name : Token)
    : Prop where
  read
    : ∀ distance holder,
        machine.current = scope
        → machine.scopes.Nearest scopes name.lexeme distance holder
        → ∃ value,
            machine.scopes.get? scope name.lexeme = some value
            ∧ readVariable { name, binding := some distance } machine = .ok value machine
  written
    : ∀ distance holder value,
        machine.scopes.Nearest scopes name.lexeme distance holder
        → assignFrom scope name value machine
            = .ok () { machine with scopes := machine.scopes.put holder name.lexeme value }
          ∧ (machine.current = scope
              → writeVariable { name, binding := some distance } value machine
                = assignFrom scope name value machine)
  missing
    : (∀ outer ∈ scopes, machine.scopes.cell? outer name.lexeme = none)
      → ∃ error : RuntimeError,
          error.token = name
          ∧ error.message = "Undefined variable '" ++ name.lexeme ++ "'."
          ∧ (∀ value, assignFrom scope name value machine = .error (.runtime error) machine)
          ∧ (scope = globalScope
              → readVariable { name, binding := none } machine = .error (.runtime error) machine)
  short
    : ∀ distance,
        machine.current = scope
        → scopes.length ≤ distance
        → readVariable { name, binding := some distance } machine
            = .error (.noEnclosingScope distance) machine
          ∧ ∀ value,
              writeVariable { name, binding := some distance } value machine
                = .error (.noEnclosingScope distance) machine

/-- The machine follows the chain as its forest does. -/
theorem Forest.Chain.follows {machine : Machine} (rooted : machine.scopes.Rooted) {scope : Nat}
    {scopes : List Nat} (chain : machine.scopes.Chain scope scopes) (name : Token)
    : machine.Follows scope scopes name where
  read distance holder here nearest := by
    subst here
    obtain ⟨value, found, valueAt⟩ :=
      (chain.accesses rooted name.lexeme).read distance holder nearest
    refine ⟨value, found, (bind_ok rfl).trans ?_⟩
    simp only [valueAt]
    rfl
  written distance holder value nearest := by
    obtain ⟨found, there⟩ := chain.holder?_eq_ancestor? rooted nearest
    refine ⟨assignFrom_held found, fun here => ?_⟩
    subst here
    rw [assignFrom_held found]
    refine (bind_ok rfl).trans ?_
    rw [ancestor_of_ancestor? there]
    rfl
  missing nowhere := by
    have missing := chain.holder?_of_missing rooted nowhere
    refine ⟨{ token := name, problem := .undefinedVariable }, rfl, rfl,
      fun value => assignFrom_missing missing, ?_⟩
    rintro rfl
    exact readVariable_missing (by rw [Forest.get?, missing, Option.bind_none])
  short distance here ends := by
    subst here
    have beyond := (chain.ancestor? distance).trans (List.getElem?_eq_none ends)
    constructor
    · refine (bind_ok rfl).trans ?_
      simp only [Forest.valueAt_of_none _ beyond]
      rfl
    · intro value
      refine (bind_ok rfl).trans ?_
      rw [Forest.ancestor_of_none beyond]
      rfl

/-- Whatever was done to the scopes before: from every scope, walking along its chain and going the
distance of the nearest definition come to the same, a write is seen through just the chains that
come to the same definition first, and what fails changes nothing. -/
theorem walks_agree_with_distances {forest : Forest Value} (built : forest.Built) (scope : Nat)
    : ∃ above,
        forest.Chain scope (scope :: above)
        ∧ (∀ scopes, forest.Chain scope scopes → scopes = scope :: above)
        ∧ (∀ name, forest.Accesses scope (scope :: above) name)
        ∧ ∀ (machine : Machine) (name : Token),
            machine.scopes = forest → machine.Follows scope (scope :: above) name := by
  obtain ⟨above, chain⟩ := built.rooted.chain scope
  refine ⟨above, chain, fun scopes other => other.unique chain, chain.accesses built.rooted, ?_⟩
  rintro machine name rfl
  exact chain.follows built.rooted name

/-- Witness: two scopes share a third, and one of them hides a name of it. -/
theorem walks_agree_with_distances_shared
    : let shared : Forest Value := (Forest.empty.push none).put 0 "n" (.literal .nil)
      let forest := ((shared.push (some 0)).push (some 0)).put 2 "n" (.literal (.boolean true))
      forest.Built
      ∧ forest.holder? 1 "n" = some 0
      ∧ forest.holder? 2 "n" = some 2
      ∧ ∃ above,
          forest.Chain 1 (1 :: above)
          ∧ (∀ scopes, forest.Chain 1 scopes → scopes = 1 :: above)
          ∧ (∀ name, forest.Accesses 1 (1 :: above) name)
          ∧ ∀ (machine : Machine) (name : Token),
              machine.scopes = forest → machine.Follows 1 (1 :: above) name := by
  intro shared forest
  have one : shared.Built := .step (.step .empty .outermost) (.define (by decide) "n" _)
  have two : (shared.push (some 0)).Built := .step one (.inside (by decide))
  have built : forest.Built := .step (.step two (.inside (by decide))) (.define (by decide) "n" _)
  exact ⟨built, rfl, rfl, walks_agree_with_distances built 1⟩

end Lox
