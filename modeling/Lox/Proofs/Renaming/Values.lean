import Lox.Proofs.Likeness
import Lox.Proofs.Renaming.Relation
import Lox.Proofs.Scope.Forest

/-! Values and scopes of two runs, one of the old tree and one of the new.

A scope at run time is affected if the scope of the text is that it was opened for. Functions see
around them the affected scopes that their texts stand in, and so each is what the function of the
other run becomes.
-/

namespace Lox

-----
-- Scopes at run time

/-- For each scope that is known, which of the scopes from there outwards are affected. -/
abbrev Standing :=
  Nat → Option (List Bool)

/-- Scopes that are known stay as they are. -/
def Standing.Extends (before after : Standing) : Prop :=
  ∀ scope marks, before scope = some marks → after scope = some marks

-----
-- Values

section

variable (rename : Renaming) (standing : Standing)

/-- The functions are the same but for names. Some scopes may be still to be opened around their
bodies. -/
structure Closure.TurnsIn (inner : List Bool) (closure closure' : Closure) : Prop where
  id : closure'.id = closure.id
  scope : closure'.scope = closure.scope
  name : closure'.name = closure.name
  isInitializer : closure'.isInitializer = closure.isInitializer
  function
    : ∃ marks,
        standing closure.scope = some marks
        ∧ closure.function.Becomes rename (inner ++ marks) closure'.function

/-- Functions that can be called. -/
abbrev Closure.Turns : Closure → Closure → Prop :=
  Closure.TurnsIn rename standing []

/-- Methods wait for the scope of their receiver. -/
abbrev Closure.Waits : Closure → Closure → Prop :=
  Closure.TurnsIn rename standing [false]

/-- The classes are the same but for names inside of their methods. -/
structure Lineage.Turns (lineage lineage' : Lineage) : Prop where
  id : lineage'.head.id = lineage.head.id
  name : lineage'.name = lineage.name
  methods
    : ∀ name,
        Option.Rel (Closure.Waits rename standing) (lineage.method? name)
          (lineage'.method? name)

inductive Value.Turns : Value → Value → Prop
  | literal (value : Literal) : Turns (.literal value) (.literal value)
  | native (function : Native) : Turns (.native function) (.native function)
  | closure {function function' : Closure} (turns : function.Turns rename standing function')
    : Turns (.closure function) (.closure function')
  | class {lineage lineage' : Lineage} (turns : lineage.Turns rename standing lineage')
    : Turns (.class lineage) (.class lineage')
  | object (address : Nat) {lineage lineage' : Lineage}
    (turns : lineage.Turns rename standing lineage')
    : Turns (.object address lineage) (.object address lineage')

inductive Callable.Turns : Callable → Callable → Prop
  | closure {function function' : Closure} (turns : function.Turns rename standing function')
    : Turns (.closure function) (.closure function')
  | class {lineage lineage' : Lineage} (turns : lineage.Turns rename standing lineage')
    : Turns (.class lineage) (.class lineage')
  | native (function : Native) : Turns (.native function) (.native function)

end

section

variable {rename : Renaming} {standing : Standing} {inner : List Bool} {closure closure' : Closure}

/-- A closure that turned stays turned when more scopes are marked. -/
theorem Closure.TurnsIn.extend {after : Standing}
    (turns : closure.TurnsIn rename standing inner closure') (more : standing.Extends after)
    : closure.TurnsIn rename after inner closure' := by
  obtain ⟨marks, known, becomes⟩ := turns.function
  exact { turns with function := ⟨marks, more _ _ known, becomes⟩ }

/-- Closures that turn into each other take as many arguments. -/
theorem Closure.TurnsIn.arity (turns : closure.TurnsIn rename standing inner closure')
    : closure'.arity = closure.arity := by
  obtain ⟨marks, -, becomes⟩ := turns.function
  obtain ⟨mark, parameters, -⟩ := becomes.parts
  exact parameters.length

end

-----
-- Values that are alike

/-- Functions stand for what they become. Methods wait for the scope of their receiver. -/
def Standing.likeness (rename : Renaming) (standing : Standing) : Likeness where
  closures := Closure.Turns rename standing
  methods := Closure.Waits rename standing
  id := Closure.TurnsIn.id
  name := Closure.TurnsIn.name
  arity := Closure.TurnsIn.arity
  methodArity := Closure.TurnsIn.arity

section

variable {rename : Renaming} {standing : Standing}

/-- Classes turn into each other if they are alike. -/
theorem Lineage.turns_iff_like {lineage lineage' : Lineage}
    : lineage.Turns rename standing lineage'
      ↔ lineage.Like (standing.likeness rename) lineage' :=
  ⟨fun turns => ⟨turns.id, turns.name, turns.methods⟩,
    fun alike => ⟨alike.id, alike.name, alike.methods⟩⟩

/-- Values turn into each other if they are alike. -/
theorem Value.turns_iff_like {value value' : Value}
    : value.Turns rename standing value' ↔ value.Like (standing.likeness rename) value' := by
  constructor
  · intro turns
    cases turns with
    | literal value => exact .literal value
    | native function => exact .native function
    | closure turns => exact .closure turns
    | «class» turns => exact .class (Lineage.turns_iff_like.1 turns)
    | object address turns => exact .object address (Lineage.turns_iff_like.1 turns)
  · intro alike
    cases alike with
    | literal value => exact .literal value
    | native function => exact .native function
    | closure alike => exact .closure alike
    | «class» alike => exact .class (Lineage.turns_iff_like.2 alike)
    | object address alike => exact .object address (Lineage.turns_iff_like.2 alike)

/-- Callables turn into each other if they are alike. -/
theorem Callable.turns_iff_like {callable callable' : Callable}
    : callable.Turns rename standing callable'
      ↔ callable.Like (standing.likeness rename) callable' := by
  constructor
  · intro turns
    cases turns with
    | closure turns => exact .closure turns
    | «class» turns => exact .class (Lineage.turns_iff_like.1 turns)
    | native function => exact .native function
  · intro alike
    cases alike with
    | closure alike => exact .closure alike
    | «class» alike => exact .class (Lineage.turns_iff_like.2 alike)
    | native function => exact .native function

end

-----
-- More scopes

section

variable {rename : Renaming} {standing after : Standing}

/-- With more scopes marked the likeness goes further. -/
theorem Standing.Extends.below (more : standing.Extends after)
    : (standing.likeness rename).Below (after.likeness rename) :=
  ⟨fun turns => turns.extend more, fun waits => waits.extend more⟩

/-- A class that turned stays turned when more scopes are marked. -/
theorem Lineage.Turns.extend {lineage lineage' : Lineage}
    (turns : lineage.Turns rename standing lineage') (more : standing.Extends after)
    : lineage.Turns rename after lineage' :=
  turns_iff_like.2 ((turns_iff_like.1 turns).mono more.below)

/-- A value that turned stays turned when more scopes are marked. -/
theorem Value.Turns.extend {value value' : Value} (turns : value.Turns rename standing value')
    (more : standing.Extends after)
    : value.Turns rename after value' :=
  turns_iff_like.2 ((turns_iff_like.1 turns).mono more.below)

/-- A callable that turned stays turned when more scopes are marked. -/
theorem Callable.Turns.extend {callable callable' : Callable}
    (turns : callable.Turns rename standing callable') (more : standing.Extends after)
    : callable.Turns rename after callable' :=
  turns_iff_like.2 ((turns_iff_like.1 turns).mono more.below)

end

-----
-- What a program finds out about values

section

variable {rename : Renaming} {standing : Standing}

namespace Lineage.Turns

variable {lineage lineage' : Lineage} {body body' : ClassBody}

/-- A class without a superclass. -/
theorem of_body (same : body'.id = body.id ∧ body'.name = body.name)
    (methods : MethodsLike (standing.likeness rename) body.methods body'.methods)
    : Lineage.Turns rename standing { head := body, ancestors := [] }
        { head := body', ancestors := [] } :=
  turns_iff_like.2 (.of_body same methods)

/-- The methods of a class hide those of its superclass. -/
theorem extend_methods (turns : lineage.Turns rename standing lineage')
    (same : body'.id = body.id ∧ body'.name = body.name)
    (methods : MethodsLike (standing.likeness rename) body.methods body'.methods)
    : (lineage.extend body).Turns rename standing (lineage'.extend body') :=
  turns_iff_like.2 ((turns_iff_like.1 turns).extend_methods same methods)

end Lineage.Turns

namespace Value.Turns

variable {value value' : Value}

/-- Values that turn into each other count as true alike. -/
theorem isTruthy (turns : value.Turns rename standing value')
    : value'.isTruthy = value.isTruthy :=
  (turns_iff_like.1 turns).isTruthy

/-- Values that turn into each other have the same text. -/
theorem text (turns : value.Turns rename standing value') : value'.text = value.text :=
  (turns_iff_like.1 turns).text

/-- What can be called can be called after it turned. -/
theorem callable? (turns : value.Turns rename standing value')
    : Option.Rel (Callable.Turns rename standing) value.callable? value'.callable? :=
  optionRel_imp (turns_iff_like.1 turns).callable? fun _ _ => Callable.turns_iff_like.2

end Value.Turns

/-- Callables that turn into each other take as many arguments. -/
theorem Callable.Turns.arity {callable callable' : Callable}
    (turns : callable.Turns rename standing callable')
    : callable'.arity = callable.arity :=
  (turns_iff_like.1 turns).arity

-----
-- Operators

/-- Both results are values, or both are the same error. -/
inductive ResultTurns (rename : Renaming) (standing : Standing)
    : Except RuntimeError Value → Except RuntimeError Value → Prop
  | ok {value value' : Value} (turns : value.Turns rename standing value')
    : ResultTurns rename standing (.ok value) (.ok value')
  | error (error : RuntimeError) : ResultTurns rename standing (.error error) (.error error)

/-- Results turn into each other if they are alike. -/
theorem ResultTurns.of_like {result result' : Except RuntimeError Value}
    (alike : ResultLike (standing.likeness rename) result result')
    : ResultTurns rename standing result result' := by
  cases alike with
  | ok alike => exact .ok (Value.turns_iff_like.2 alike)
  | error error => exact .error error

/-- A unary operator has results that turn where its operand does. -/
theorem applyUnary_turns (operator : Token) {operand operand' : Value}
    (turns : operand.Turns rename standing operand')
    : ResultTurns rename standing (Value.applyUnary operator operand)
        (Value.applyUnary operator operand') :=
  .of_like (applyUnary_like operator (Value.turns_iff_like.1 turns))

/-- A binary operator has results that turn where its operands do. -/
theorem applyBinary_turns (operator : Token) {left left' right right' : Value}
    (turnsLeft : left.Turns rename standing left')
    (turnsRight : right.Turns rename standing right')
    : ResultTurns rename standing (Value.applyBinary operator left right)
        (Value.applyBinary operator left' right') :=
  .of_like (applyBinary_like operator (Value.turns_iff_like.1 turnsLeft)
    (Value.turns_iff_like.1 turnsRight))

end

end Lox
