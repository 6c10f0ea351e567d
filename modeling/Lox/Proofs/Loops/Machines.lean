import Lox.Proofs.Comparison
import Lox.Proofs.Likeness
import Lox.Proofs.Loops.Trees
import Lox.Proofs.Scope.Forest

/-! Two machines side by side, of which one has hollow scopes that the other has not.

Every scope of the one machine that is of interest stands for a scope of the other. A hollow scope
stands for what the scope around it stands for.
-/

namespace Lox

-----
-- Scopes that stand for each other

/-- For each scope that is known, how far out the hollow scope lies from there, and the scope of the
other machine that it stands for. -/
abbrev Layout :=
  Nat → Option (Gap × Nat)

/-- Scopes that are known stay as they are. -/
def Layout.Extends (before after : Layout) : Prop :=
  ∀ scope place, before scope = some place → after scope = some place

/-- The functions are the same but for the hollow scope. Some scopes may be still to be opened
around their bodies. A receiver is never looked for in the hollow scope. -/
structure Closure.OmitsIn (layout : Layout) (inside : Gap → Gap) (closure closure' : Closure)
    : Prop where
  id : closure'.id = closure.id
  name : closure'.name = closure.name
  isInitializer : closure'.isInitializer = closure.isInitializer
  function
    : ∃ gap,
        layout closure.scope = some (gap, closure'.scope)
        ∧ closure.function.Omits (inside gap) closure'.function
        ∧ (closure.isInitializer = true → inside gap ≠ some 0)

section

variable {layout after : Layout} {inside : Gap → Gap} {closure closure' : Closure}

/-- Closures apart by the gap take as many arguments. -/
theorem Closure.OmitsIn.arity (omits : closure.OmitsIn layout inside closure')
    : closure'.arity = closure.arity := by
  obtain ⟨gap, -, omits, -⟩ := omits.function
  exact congrArg List.length omits.parts.1

/-- Closures apart by the gap stay so when more scopes are laid out. -/
theorem Closure.OmitsIn.extend (omits : closure.OmitsIn layout inside closure')
    (more : layout.Extends after)
    : closure.OmitsIn after inside closure' := by
  obtain ⟨gap, known, others⟩ := omits.function
  exact { omits with function := ⟨gap, more _ _ known, others⟩ }

end

/-- Methods wait for the scope of their receiver. -/
def Layout.likeness (layout : Layout) : Likeness where
  closures := Closure.OmitsIn layout id
  methods := Closure.OmitsIn layout Gap.inner
  id := Closure.OmitsIn.id
  name := Closure.OmitsIn.name
  arity := Closure.OmitsIn.arity
  methodArity := Closure.OmitsIn.arity

/-- With more scopes laid out the likeness goes further. -/
theorem Layout.Extends.below {before after : Layout} (more : before.Extends after)
    : before.likeness.Below after.likeness :=
  ⟨fun alike => alike.extend more, fun alike => alike.extend more⟩

-----
-- Common ground

/-- What the machines have in common while they run. -/
structure Footing where
  layout : Layout
  /-- The scope that the machine with the hollow scopes is in. -/
  current : Nat
  /-- Names that certainly have a value in a scope. -/
  defined : Nat → String → Prop

/-- What is known stays known, and the machines come back to the scope they were in. -/
structure Footing.Extends (before after : Footing) : Prop where
  layout : before.layout.Extends after.layout
  current : after.current = before.current
  defined : ∀ scope name, before.defined scope name → after.defined scope name

/-- The machines are in a scope from which the hollow one lies so far out. -/
def Footing.At (footing : Footing) (gap : Gap) : Prop :=
  ∃ scope', footing.layout footing.current = some (gap, scope')

namespace Footing

variable {before between after : Footing}

/-- Every footing extends itself. -/
theorem Extends.refl (footing : Footing) : footing.Extends footing :=
  ⟨fun _ _ => id, rfl, fun _ _ => id⟩

/-- A footing that extends an extended one extends the first. -/
theorem Extends.trans (front : before.Extends between) (back : between.Extends after)
    : before.Extends after where
  layout scope place known := back.layout scope place (front.layout scope place known)
  current := back.current.trans front.current
  defined scope name defined := back.defined scope name (front.defined scope name defined)

/-- With a footing extended the likeness goes further. -/
theorem Extends.below (more : before.Extends after)
    : before.layout.likeness.Below after.layout.likeness :=
  more.layout.below

/-- Where the machine stands it still stands when more scopes are laid out. -/
theorem At.extend {gap : Gap} (stands : before.At gap) (more : before.Extends after)
    : after.At gap := by
  obtain ⟨scope', here⟩ := stands
  refine ⟨scope', ?_⟩
  rw [more.current]
  exact more.layout _ _ here

end Footing

-----
-- Machines

/-- The second machine is the first one without its hollow scopes. -/
structure Machine.Omits (footing : Footing) (machine machine' : Machine) : Prop where
  known
    : ∀ scope gap scope',
        footing.layout scope = some (gap, scope')
        → scope < machine.scopes.size ∧ scope' < machine'.scopes.size
  /-- Scopes other than the hollow ones stand for different scopes. -/
  apart
    : ∀ scope gap other gap' scope',
        footing.layout scope = some (gap, scope')
        → footing.layout other = some (gap', scope')
        → gap ≠ some 0
        → gap' ≠ some 0
        → other = scope
  outer
    : ∀ scope gap scope',
        footing.layout scope = some (gap, scope')
        → gap ≠ some 0
        → Option.Rel (fun parent parent' => footing.layout parent = some (gap.outer, parent'))
            (machine.scopes.parent? scope) (machine'.scopes.parent? scope')
  hollow
    : ∀ scope scope',
        footing.layout scope = some (some 0, scope')
        → (∃ parent,
            machine.scopes.parent? scope = some parent
            ∧ footing.layout parent = some (none, scope'))
          ∧ ∀ name, machine.scopes.cell? scope name = none
  outermost : footing.layout globalScope = some (none, globalScope)
  cell
    : ∀ scope gap scope',
        footing.layout scope = some (gap, scope')
        → gap ≠ some 0
        → ∀ name,
            Option.Rel (Value.Like footing.layout.likeness) (machine.scopes.cell? scope name)
              (machine'.scopes.cell? scope' name)
  defined
    : ∀ scope name,
        footing.defined scope name → (machine.scopes.cell? scope name).isSome = true
  objects : machine'.objects.size = machine.objects.size
  field
    : ∀ address name,
        Option.Rel (Value.Like footing.layout.likeness) (machine.fieldAt address name)
          (machine'.fieldAt address name)
  current : machine.current = footing.current
  current' : ∃ gap, footing.layout footing.current = some (gap, machine'.current)
  nextId : machine'.nextId = machine.nextId
  output : machine'.output = machine.output
  traceLevel : machine'.traceLevel = machine.traceLevel
  traceFileOpen : machine'.traceFileOpen = machine.traceFileOpen
  fileTrace : machine'.fileTrace.map TraceEvent.text = machine.fileTrace.map TraceEvent.text
  consoleTrace
    : machine'.consoleTrace.map TraceEvent.text = machine.consoleTrace.map TraceEvent.text
  readings : machine'.readings = machine.readings
  readingsTaken : machine'.readingsTaken = machine.readingsTaken

/-- The faults are the same. A scope that is missing is missing on both machines, where the
distances at which it is looked for differ. -/
inductive Fault.Omits : Fault → Fault → Prop
  | same (fault : Fault) : Omits fault fault
  | missing (distance distance' : Nat)
    : Omits (.noEnclosingScope distance) (.noEnclosingScope distance')

/-- Faults that are alike are so behind the limit on open calls. -/
theorem Fault.Omits.limited {fault fault' : Fault} (omits : fault.Omits fault') (paren : Token)
    : (fault.limited paren).Omits (fault'.limited paren) := by
  cases omits with
  | same fault => exact .same _
  | missing distance distance' => exact .missing distance distance'

/-- Machines with and without hollow scopes. -/
def omission : Comparison Footing where
  Extends := Footing.Extends
  Machines := Machine.Omits
  Faults := Fault.Omits
  refl := .refl
  trans := .trans

/-- The results are related as the scopes are laid out in the end. -/
abbrev LaidOut {α β : Type} (related : Likeness → α → β → Prop) : α → β → Footing → Prop :=
  fun value value' after => related after.layout.likeness value value'

namespace Machine.Omits

variable {footing : Footing} {machine machine' : Machine}

/-- Seen from the hollow scope, everything lies where it lies as seen from the scope around it. -/
theorem ancestor_hollow (omits : machine.Omits footing machine') {scope scope' : Nat}
    (known : footing.layout scope = some (some 0, scope'))
    : ∃ parent,
        footing.layout parent = some (none, scope')
        ∧ ∀ distance,
            machine.scopes.ancestor? scope (Gap.across (some 0) distance)
              = machine.scopes.ancestor? parent distance := by
  obtain ⟨⟨parent, inside, around⟩, -⟩ := omits.hollow scope scope' known
  refine ⟨parent, around, fun distance => ?_⟩
  change (machine.scopes.parent? scope).bind _ = _
  rw [inside]
  rfl

/-- What lies at a distance on the one machine lies at the distance across the hollow scope on the
other. -/
theorem ancestor (omits : machine.Omits footing machine') (distance : Nat) {scope scope' : Nat}
    {gap : Gap} (known : footing.layout scope = some (gap, scope'))
    : Option.Rel
        (fun outer outer' => ∃ gap', footing.layout outer = some (gap', outer') ∧ gap' ≠ some 0)
        (machine.scopes.ancestor? scope (gap.across distance))
        (machine'.scopes.ancestor? scope' distance) := by
  induction distance generalizing scope scope' gap with
  | zero =>
      by_cases here : gap = some 0
      · subst here
        obtain ⟨parent, around, same⟩ := omits.ancestor_hollow known
        rw [same]
        exact .some ⟨none, around, Gap.none_ne_zero⟩
      · rw [← Gap.outer_inner here, Gap.across_inner_zero]
        exact .some ⟨gap, known, here⟩
  | succ distance ih =>
      -- One step outwards, from a scope that is not hollow.
      have outwards {scope scope' : Nat} {gap : Gap}
          (known : footing.layout scope = some (gap, scope')) (real : gap ≠ some 0)
          : Option.Rel
              (fun outer outer' =>
                ∃ gap', footing.layout outer = some (gap', outer') ∧ gap' ≠ some 0)
              (machine.scopes.ancestor? scope (gap.across (distance + 1)))
              (machine'.scopes.ancestor? scope' (distance + 1)) := by
        have parents := omits.outer scope gap scope' known real
        rw [← Gap.outer_inner real, Gap.across_inner_succ]
        change Option.Rel _ ((machine.scopes.parent? scope).bind _)
          ((machine'.scopes.parent? scope').bind _)
        revert parents
        generalize machine.scopes.parent? scope = parent
        generalize machine'.scopes.parent? scope' = parent'
        intro parents
        cases parents with
        | none => exact .none
        | some around => exact ih around
      by_cases here : gap = some 0
      · subst here
        obtain ⟨parent, around, same⟩ := omits.ancestor_hollow known
        rw [same]
        exact outwards around Gap.none_ne_zero
      · exact outwards known here

end Machine.Omits

end Lox
