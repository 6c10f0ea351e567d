import Lox.Machine.Execute
import Lox.Proofs.Table

/-! Values of two runs that are the same but for their functions.

Functions of the one run stand for functions of the other. A program finds out the number, the name
and the arity of a function, and what it comes to when it is called, and nothing else. Values that
are made of functions that stand for each other are therefore treated alike.
-/

namespace Lox

/-- Which functions stand for which, among those that can be called and among the methods that wait
to be bound. -/
structure Likeness where
  closures : Closure → Closure → Prop
  methods : Closure → Closure → Prop
  id {closure closure' : Closure} (alike : closures closure closure') : closure'.id = closure.id
  name {closure closure' : Closure} (alike : closures closure closure')
    : closure'.name = closure.name
  arity {closure closure' : Closure} (alike : closures closure closure')
    : closure'.arity = closure.arity
  methodArity {closure closure' : Closure} (alike : methods closure closure')
    : closure'.arity = closure.arity

/-- What is alike stays alike. -/
structure Likeness.Below (before after : Likeness) : Prop where
  closures {closure closure' : Closure} (alike : before.closures closure closure')
    : after.closures closure closure'
  methods {closure closure' : Closure} (alike : before.methods closure closure')
    : after.methods closure closure'

-----
-- Values

section

variable (likeness : Likeness)

/-- Methods of the same names stand for each other. -/
def MethodsLike (table table' : Table Closure) : Prop :=
  ∀ name, Option.Rel likeness.methods (table.get? name) (table'.get? name)

structure Lineage.Like (lineage lineage' : Lineage) : Prop where
  id : lineage'.head.id = lineage.head.id
  name : lineage'.name = lineage.name
  methods : ∀ name, Option.Rel likeness.methods (lineage.method? name) (lineage'.method? name)

inductive Value.Like : Value → Value → Prop
  | literal (value : Literal) : Like (.literal value) (.literal value)
  | native (function : Native) : Like (.native function) (.native function)
  | closure {function function' : Closure} (alike : likeness.closures function function')
    : Like (.closure function) (.closure function')
  | class {lineage lineage' : Lineage} (alike : lineage.Like likeness lineage')
    : Like (.class lineage) (.class lineage')
  | object (address : Nat) {lineage lineage' : Lineage} (alike : lineage.Like likeness lineage')
    : Like (.object address lineage) (.object address lineage')

inductive Callable.Like : Callable → Callable → Prop
  | closure {function function' : Closure} (alike : likeness.closures function function')
    : Like (.closure function) (.closure function')
  | class {lineage lineage' : Lineage} (alike : lineage.Like likeness lineage')
    : Like (.class lineage) (.class lineage')
  | native (function : Native) : Like (.native function) (.native function)

/-- Values of several expressions. -/
inductive ValuesLike : List Value → List Value → Prop
  | nil : ValuesLike [] []
  | cons {first first' : Value} {rest rest' : List Value} (head : first.Like likeness first')
    (tail : ValuesLike rest rest')
    : ValuesLike (first :: rest) (first' :: rest')

inductive Completion.Like : Completion → Completion → Prop
  | normal : Like .normal .normal
  | broke : Like .broke .broke
  | returned {value value' : Value} (alike : value.Like likeness value')
    : Like (.returned value) (.returned value')

/-- Events that tell of values that are alike. -/
inductive TraceEvent.Like : TraceEvent → TraceEvent → Prop
  | same (event : TraceEvent) : Like event event
  | defineVariable (name : String) {value value' : Value} (alike : value.Like likeness value')
    : Like (.defineVariable name value) (.defineVariable name value')
  | condition {value value' : Value} (alike : value.Like likeness value')
    : Like (.condition value) (.condition value')
  | call {callee callee' : Value} (arguments line : Nat) (alike : callee.Like likeness callee')
    : Like (.call callee arguments line) (.call callee' arguments line)

/-- Both results are values, or both are the same error. -/
inductive ResultLike : Except RuntimeError Value → Except RuntimeError Value → Prop
  | ok {value value' : Value} (alike : value.Like likeness value')
    : ResultLike (.ok value) (.ok value')
  | error (error : RuntimeError) : ResultLike (.error error) (.error error)

end

-----
-- Options

section

variable {α β : Type} {related related' : α → β → Prop} {a a' : Option α} {b b' : Option β}

/-- What is related in one way is related in a weaker one. -/
theorem optionRel_imp (holds : Option.Rel related a b)
    (implies : ∀ a b, related a b → related' a b)
    : Option.Rel related' a b := by
  cases holds with
  | none => exact .none
  | some holds => exact .some (implies _ _ holds)

/-- Of two optional values each the first that is there is related. -/
theorem optionRel_or (first : Option.Rel related a b) (second : Option.Rel related a' b')
    : Option.Rel related (a.or a') (b.or b') := by
  cases first with
  | none => exact second
  | some holds => exact .some holds

/-- A value is there on both sides or on neither. -/
theorem optionRel_isSome (holds : Option.Rel related a b) : b.isSome = a.isSome := by
  cases holds <;> rfl

end

-----
-- Looking for methods

/-- A class is asked before those that it inherits from. -/
theorem Lineage.method?_mk (head : ClassBody) (ancestors : List ClassBody) (name : String)
    : Lineage.method? { head, ancestors } name
        = (head.methods.get? name).or
            (ancestors.findSome? fun body => body.methods.get? name) := by
  unfold Lineage.method?
  rw [List.findSome?_cons]
  cases head.methods.get? name <;> rfl

-----
-- More that is alike

section

variable {before after : Likeness} (more : before.Below after)

include more

/-- Methods stay alike when more closures and instances are. -/
theorem MethodsLike.mono {table table' : Table Closure} (alike : MethodsLike before table table')
    : MethodsLike after table table' :=
  fun name => optionRel_imp (alike name) fun _ _ => more.methods

/-- Classes stay alike when more closures and instances are, by induction on their ancestors. -/
theorem Lineage.Like.mono {lineage lineage' : Lineage} (alike : lineage.Like before lineage')
    : lineage.Like after lineage' :=
  { alike with methods := fun name => optionRel_imp (alike.methods name) fun _ _ => more.methods }

/-- Values stay alike when more closures and instances are. -/
theorem Value.Like.mono {value value' : Value} (alike : value.Like before value')
    : value.Like after value' := by
  cases alike with
  | literal value => exact .literal value
  | native function => exact .native function
  | closure alike => exact .closure (more.closures alike)
  | «class» alike => exact .class (alike.mono more)
  | object address alike => exact .object address (alike.mono more)

/-- Callables stay alike when more closures and instances are. -/
theorem Callable.Like.mono {callable callable' : Callable} (alike : callable.Like before callable')
    : callable.Like after callable' := by
  cases alike with
  | closure alike => exact .closure (more.closures alike)
  | «class» alike => exact .class (alike.mono more)
  | native function => exact .native function

/-- Values in a row stay alike when more closures and instances are. -/
theorem ValuesLike.mono {values values' : List Value} (alike : ValuesLike before values values')
    : ValuesLike after values values' := by
  induction alike with
  | nil => exact .nil
  | cons head _ ih => exact .cons (head.mono more) ih

end

-----
-- What a program finds out about values

section

variable {likeness : Likeness}

/-- As many values are there on both sides. -/
theorem ValuesLike.length {values values' : List Value}
    (alike : ValuesLike likeness values values')
    : values'.length = values.length := by
  induction alike with
  | nil => rfl
  | cons _ _ ih => exact congrArg (· + 1) ih

namespace Lineage.Like

variable {lineage lineage' : Lineage}

/-- Classes that are alike take as many arguments. -/
theorem arity (alike : lineage.Like likeness lineage') : lineage'.arity = lineage.arity := by
  have arities {initializer initializer' : Option Closure}
      (related : Option.Rel likeness.methods initializer initializer')
      : (initializer'.map Closure.arity).getD 0 = (initializer.map Closure.arity).getD 0 := by
    cases related with
    | none => rfl
    | some waits => exact likeness.methodArity waits
  exact arities (alike.methods "init")

variable {body body' : ClassBody}

/-- A class without a superclass. -/
theorem of_body (same : body'.id = body.id ∧ body'.name = body.name)
    (methods : MethodsLike likeness body.methods body'.methods)
    : Lineage.Like likeness { head := body, ancestors := [] }
        { head := body', ancestors := [] } := by
  refine ⟨same.1, same.2, fun name => ?_⟩
  rw [method?_mk, method?_mk]
  exact optionRel_or (methods name) .none

/-- The methods of a class hide those of its superclass. -/
theorem extend_methods (alike : lineage.Like likeness lineage')
    (same : body'.id = body.id ∧ body'.name = body.name)
    (methods : MethodsLike likeness body.methods body'.methods)
    : (lineage.extend body).Like likeness (lineage'.extend body') := by
  refine ⟨same.1, same.2, fun name => ?_⟩
  unfold Lineage.extend
  rw [method?_mk, method?_mk]
  exact optionRel_or (methods name) (alike.methods name)

end Lineage.Like

/-- A method inserted on both sides leaves the tables alike. -/
theorem MethodsLike.insert {table table' : Table Closure} {method method' : Closure}
    (alike : MethodsLike likeness table table') (name : String)
    (added : likeness.methods method method')
    : MethodsLike likeness (table.insert name method) (table'.insert name method') := by
  intro other
  rw [Table.get?_insert, Table.get?_insert]
  split
  · exact .some added
  · exact alike other

namespace Value.Like

variable {value value' other other' : Value}

/-- Values that are alike count as true alike. -/
theorem isTruthy (alike : value.Like likeness value') : value'.isTruthy = value.isTruthy := by
  cases alike <;> rfl

/-- Values that are alike have the same text. -/
theorem text (alike : value.Like likeness value') : value'.text = value.text := by
  cases alike with
  | literal | native => rfl
  | closure alike =>
      change Closure.text _ = Closure.text _
      unfold Closure.text
      rw [likeness.name alike]
  | «class» alike => exact alike.name
  | object address alike => exact congrArg (· ++ " instance") alike.name

/-- Values that are alike compare alike. -/
theorem equal (alike : value.Like likeness value') (alikeOther : other.Like likeness other')
    : value'.equal other' = value.equal other := by
  cases alike with
  | literal value => cases value <;> cases alikeOther <;> rfl
  | native function => cases alikeOther <;> rfl
  | closure alike =>
      cases alikeOther with
      | closure alikeOther =>
          change (_ == _) = (_ == _)
          rw [likeness.id alike, likeness.id alikeOther]
      | _ => rfl
  | «class» alike =>
      cases alikeOther with
      | «class» alikeOther =>
          change (_ == _) = (_ == _)
          rw [alike.id, alikeOther.id]
      | _ => rfl
  | object address alike => cases alikeOther <;> rfl

/-- What can be called on one side can be called on the other. -/
theorem callable? (alike : value.Like likeness value')
    : Option.Rel (Callable.Like likeness) value.callable? value'.callable? := by
  cases alike with
  | literal | object => exact .none
  | native function => exact .some (.native function)
  | closure alike => exact .some (.closure alike)
  | «class» alike => exact .some (.class alike)

end Value.Like

/-- Callables that are alike take as many arguments. -/
theorem Callable.Like.arity {callable callable' : Callable}
    (alike : callable.Like likeness callable')
    : callable'.arity = callable.arity := by
  cases alike with
  | closure alike => exact likeness.arity alike
  | «class» alike => exact alike.arity
  | native function => rfl

namespace TraceEvent.Like

variable {event event' : TraceEvent}

/-- Events that are alike are told at the same level. -/
theorem level (alike : event.Like likeness event') : event'.level = event.level := by
  cases alike <;> rfl

/-- A trace does not tell values apart that are alike. -/
theorem text (alike : event.Like likeness event') : event'.text = event.text := by
  cases alike with
  | same => rfl
  | defineVariable name alike => exact congrArg ("define " ++ name ++ " = " ++ ·) alike.text
  | @condition value value' alike =>
      change "if condition " ++ value'.text ++ " -> " ++ (if value'.isTruthy then _ else _) = _
      rw [alike.text, alike.isTruthy]
      rfl
  | call arguments line alike =>
      exact congrArg
        ("call " ++ · ++ " with " ++ toString arguments ++ " arguments (line " ++ toString line
          ++ ")")
        alike.text

end TraceEvent.Like

-----
-- Operators

/-- A unary operator has like results for operands that are alike. -/
theorem applyUnary_like (operator : Token) {operand operand' : Value}
    (alike : operand.Like likeness operand')
    : ResultLike likeness (Value.applyUnary operator operand)
        (Value.applyUnary operator operand') := by
  unfold Value.applyUnary
  cases operator.kind with
  | bang =>
      simp only [alike.isTruthy]
      exact .ok (.literal _)
  | minus =>
      cases alike with
      | literal value => cases value <;> first | exact .ok (.literal _) | exact .error _
      | _ => exact .error _
  | _ => exact .error _

/-- Texts are all that is joined of values that are no numbers. -/
theorem add_like (operator : Token) {left left' right right' : Value}
    (alikeLeft : left.Like likeness left') (alikeRight : right.Like likeness right')
    : ResultLike likeness (Value.add operator left right)
        (Value.add operator left' right') := by
  have textLeft := alikeLeft.text
  have textRight := alikeRight.text
  have joined {a b a' b' : String} (same : a' = a) (same' : b' = b)
      : ResultLike likeness (.ok (.string (a ++ b))) (.ok (.string (a' ++ b'))) :=
    same ▸ same' ▸ .ok (.literal _)
  rcases alikeLeft with ⟨_ | _ | _ | _⟩ | _ | _ | _ | _
    <;> rcases alikeRight with ⟨_ | _ | _ | _⟩ | _ | _ | _ | _
    <;> first
      | exact .ok (.literal _)
      | exact .error _
      | exact joined rfl textRight
      | exact joined textLeft rfl

/-- An operation on numbers has the same result on both sides. -/
theorem applyNumeric_like (operator : Token) (a b : Float)
    : ResultLike likeness (Value.applyNumeric operator a b)
        (Value.applyNumeric operator a b) := by
  unfold Value.applyNumeric
  split <;> first | exact .ok (.literal _) | exact .error _

/-- A binary operator has like results for operands that are alike. -/
theorem applyBinary_like (operator : Token) {left left' right right' : Value}
    (alikeLeft : left.Like likeness left') (alikeRight : right.Like likeness right')
    : ResultLike likeness (Value.applyBinary operator left right)
        (Value.applyBinary operator left' right') := by
  unfold Value.applyBinary
  split
  · exact .ok alikeRight
  · rw [alikeLeft.equal alikeRight]
    exact .ok (.literal _)
  · rw [alikeLeft.equal alikeRight]
    exact .ok (.literal _)
  · exact add_like operator alikeLeft alikeRight
  · rcases alikeLeft with ⟨_ | _ | _ | _⟩ | _ | _ | _ | _
      <;> rcases alikeRight with ⟨_ | _ | _ | _⟩ | _ | _ | _ | _
      <;> first | exact .error _ | exact applyNumeric_like operator _ _

end

end Lox
