import Lox.Proofs.Machine
import Lox.Proofs.Running.Region

/-! Single actions of the machine stay inside of a region. -/

namespace Lox.Running

variable {region : Region} {current : Nat}

-----
-- Failing

/-- A failure stays in the region. -/
theorem confines_failAt {α : Type} {post : α → Prop} (token : Token) (problem : RuntimeProblem)
    : region.Confines current (Run.failAt token problem) post :=
  .throw _

/-- A result that is there already stays in the region if its value does. -/
theorem confines_ofExcept {result : Except RuntimeError Value}
    (inside : ∀ value, result = .ok value → value.In region)
    : region.Confines current (Run.ofExcept result) (·.In region) := by
  cases result with
  | ok value => exact .pure (inside value rfl)
  | error error => exact .throw _

/-- The result of an access stays in the region with what holds of its value. -/
theorem confines_ofAccess {α : Type} {post : α → Prop} (name : Token)
    {result : Except AccessError α} (holds : ∀ value, result = .ok value → post value)
    : region.Confines current (Run.ofAccess name result) post := by
  cases result with
  | ok value => exact .pure (holds value rfl)
  | error error => exact .throw _

/-- Unary operators yield plain values. -/
theorem applyUnary_in (operator : Token) (operand : Value) {value : Value}
    (applied : Value.applyUnary operator operand = .ok value)
    : value.In region := by
  unfold Value.applyUnary at applied
  split at applied <;> cases applied <;> trivial

/-- Binary operators yield plain values, but for the comma that yields its right operand. -/
theorem applyBinary_in (operator : Token) (left : Value) {right value : Value}
    (inside : right.In region) (applied : Value.applyBinary operator left right = .ok value)
    : value.In region := by
  unfold Value.applyBinary Value.add Value.applyNumeric at applied
  split at applied
  · cases applied
    exact inside
  · cases applied
    trivial
  · cases applied
    trivial
  · split at applied <;> cases applied <;> trivial
  · split at applied
    · split at applied <;> cases applied <;> trivial
    · cases applied

-----
-- Output and trace

/-- Printing stays in the region. -/
theorem confines_print (text : String) : region.Confines current (Run.print text) fun _ => True :=
  fun _ _ closed => ⟨{ Region.Spares.refl closed with }, trivial⟩

/-- An event of the trace stays in the region. -/
theorem confines_tell (event : TraceEvent)
    : region.Confines current (Run.tell event) fun _ => True := by
  intro before here closed
  obtain ⟨fileTrace, consoleTrace, told⟩ := before.told_eq event
  change region.Spares before (before.told event) ∧ True
  rw [told]
  exact ⟨{ Region.Spares.refl closed with }, trivial⟩

/-- The clock yields a number, which is in every region. -/
theorem confines_readClock : region.Confines current Run.readClock (·.In region) :=
  fun _ _ closed => ⟨{ Region.Spares.refl closed with }, trivial⟩

-----
-- Scopes

/-- The current scope is the one that the region was entered with. -/
theorem confines_currentScope : region.Confines current Run.currentScope (· = current) :=
  fun _ here closed => ⟨.refl closed, here⟩

/-- A new scope below one of the region belongs to the region. -/
theorem confines_newScope {parent : Nat} (inside : region.scope parent)
    : region.Confines current (Run.newScope parent) region.scope := by
  intro before here closed
  refine ⟨{ Region.Spares.refl closed with
    closed := closed.push inside
    moreScopes := ?_
    scope := ?_ }, closed.newScopes _ (Nat.le_refl _)⟩
  · change _ ≤ (before.scopes.push _).size
    rw [Forest.size_push]
    omega
  · intro scope outside
    have old : scope ≠ before.scopes.scopes.size := by
      rintro rfl
      exact outside (closed.newScopes _ (Nat.le_refl _))
    change (before.scopes.scopes.push _)[scope]? = _
    rw [Array.getElem?_push, if_neg old]

/-- A definition in a scope of the region stays in it. -/
theorem confines_defineIn {scope : Nat} (inside : region.scope scope) (name : String)
    {value : Value} (within : value.In region)
    : region.Confines current (Run.defineIn scope name value) fun _ => True := by
  intro before here closed
  refine ⟨{ Region.Spares.refl closed with
    closed := closed.put scope name within
    moreScopes := Nat.le_of_eq (Forest.size_put before.scopes scope name value).symm
    scope := ?_ }, trivial⟩
  intro other outside
  have apart : scope ≠ other := by
    rintro rfl
    exact outside inside
  change (before.scopes.scopes.modify scope _)[other]? = _
  rw [Array.getElem?_modify, if_neg apart]

/-- A definition in the current scope stays in the region. -/
theorem confines_define (inside : region.scope current) (name : Token) {value : Value}
    (within : value.In region)
    : region.Confines current (Run.define name value) fun _ => True :=
  confines_currentScope.bind fun _ here =>
    confines_defineIn (here ▸ inside) name.lexeme within

/-- An assignment from a scope of the region ends in one of its scopes. -/
theorem confines_assignFrom {scope : Nat} (inside : region.scope scope) (name : Token)
    {value : Value} (within : value.In region)
    : region.Confines current (Run.assignFrom scope name value) fun _ => True := by
  intro before here closed
  cases found : before.scopes.holder? scope name.lexeme with
  | none =>
      rw [Run.assignFrom_missing found]
      exact confines_failAt name _ before here closed
  | some holder =>
      rw [Run.assignFrom_held found]
      exact confines_defineIn (closed.holder? inside found) name.lexeme within before here closed

/-- What a variable holds is in the region, since the scopes around it are. -/
theorem confines_readVariable (inside : region.scope current)
    (target : Reference (Option Nat))
    : region.Confines current (Run.readVariable target) (·.In region) := by
  obtain ⟨name, binding⟩ := target
  intro before here closed
  cases binding with
  | some distance =>
      have within value
          (read : before.scopes.valueAt before.current distance name.lexeme = .ok value)
          : value.In region :=
        closed.valueAt (here ▸ inside) read
      exact confines_ofAccess name within before here closed
  | none =>
      cases found : before.scopes.get? globalScope name.lexeme with
      | none =>
          rw [Run.readVariable_missing found]
          exact confines_failAt name _ before here closed
      | some value =>
          rw [Run.readVariable_held found]
          exact ⟨.refl closed, closed.get? closed.global found⟩

/-- A value of the region is written to a scope of the region. -/
theorem confines_writeVariable (inside : region.scope current)
    (target : Reference (Option Nat)) {value : Value} (within : value.In region)
    : region.Confines current (Run.writeVariable target value) fun _ => True := by
  obtain ⟨name, binding⟩ := target
  cases binding with
  | none =>
      intro before here closed
      exact confines_assignFrom closed.global name within before here closed
  | some distance =>
      intro before here closed
      have reached outer
          (found : before.scopes.ancestor before.current distance = .ok outer)
          : region.scope outer :=
        closed.ancestor (here ▸ inside) found
      exact (confines_ofAccess name reached).bind
        (fun scope inside => confines_defineIn inside name.lexeme within) before here closed

-----
-- Functions and instances

/-- A closure of an allowed function is in the region of its scope. -/
theorem confines_newClosure {function : BoundLambda} (allowed : function.Every region.function)
    {scope : Nat} (inside : region.scope scope) (name : Option String) (isInitializer : Bool)
    : region.Confines current (Run.newClosure function scope name isInitializer) (·.In region) :=
  fun _ _ closed => ⟨{ Region.Spares.refl closed with }, inside, allowed⟩

/-- A method bound to its receiver is in the region of both. -/
theorem confines_bindMethod {method : Closure} (inside : method.In region) {receiver : Value}
    (within : receiver.In region)
    : region.Confines current (Run.bindMethod method receiver) (·.In region) :=
  (confines_newScope inside.1).bind fun _ opened =>
    (confines_defineIn opened "this" within).bind fun _ _ =>
      confines_newClosure inside.2 opened method.name method.isInitializer

/-- The receiver of a method is in the region of its scope. -/
theorem confines_receiverIn {scope : Nat} (inside : region.scope scope)
    : region.Confines current (Run.receiverIn scope) (·.In region) := by
  intro before here closed
  cases found : before.scopes.cell? scope "this" with
  | none =>
      rw [Run.receiverIn_missing found]
      exact Region.Confines.throw .receiverMissing before here closed
  | some receiver =>
      rw [Run.receiverIn_held found]
      exact ⟨.refl closed, closed.cells _ _ _ inside found⟩

/-- A new instance of a class of the region belongs to the region. -/
theorem confines_newObject {lineage : Lineage} (inside : lineage.In region)
    : region.Confines current (Run.newObject lineage) (·.In region) := by
  intro before here closed
  refine ⟨{ Region.Spares.refl closed with
    closed := closed.create
    moreObjects := ?_
    object := ?_ }, closed.newAddresses _ (Nat.le_refl _), inside⟩
  · change _ ≤ (before.objects.push _).size
    rw [Array.size_push]
    omega
  · intro address outside
    have old : address ≠ before.objects.size := by
      rintro rfl
      exact outside (closed.newAddresses _ (Nat.le_refl _))
    change (before.objects.push _)[address]? = _
    rw [Array.getElem?_push, if_neg old]

/-- What the fields of an instance hold is in its region. -/
theorem confines_field? {address : Nat} (inside : region.address address) (name : String)
    : region.Confines current (Run.field? address name) (∀ value ∈ ·, value.In region) := by
  intro before here closed
  refine ⟨.refl closed, fun value found => ?_⟩
  obtain ⟨fields, there, has⟩ := Option.bind_eq_some_iff.1 found
  exact closed.fields _ _ _ _ inside there has

/-- A value of the region is set as a field of an instance of the region. -/
theorem confines_setField {address : Nat} (inside : region.address address) (name : String)
    {value : Value} (within : value.In region)
    : region.Confines current (Run.setField address name value) fun _ => True := by
  intro before here closed
  refine ⟨{ Region.Spares.refl closed with
    closed := closed.setField address name within
    moreObjects := ?_
    object := ?_ }, trivial⟩
  · change _ ≤ (before.objects.modify address _).size
    exact Nat.le_of_eq Array.size_modify.symm
  · intro other outside
    have apart : address ≠ other := by
      rintro rfl
      exact outside inside
    change (before.objects.modify address _)[other]? = _
    rw [Array.getElem?_modify, if_neg apart]

/-- The methods of a class in the region lie in it. -/
theorem Lineage.In.method? {lineage : Lineage} (inside : lineage.In region) {name : String}
    {method : Closure} (found : lineage.method? name = some method)
    : method.In region := by
  obtain ⟨body, listed, has⟩ := List.exists_of_findSome?_eq_some found
  exact inside body listed name method has

/-- A property of an object in the region is in the region. -/
theorem confines_readProperty {object : Value} (inside : object.In region) (name : Token)
    : region.Confines current (Run.readProperty object name) (·.In region) := by
  cases object with
  | object address lineage =>
      refine (confines_field? inside.1 name.lexeme).bind fun found within => ?_
      cases found with
      | some value => exact .pure (within value rfl)
      | none =>
          simp only
          cases has : lineage.method? name.lexeme with
          | none => exact confines_failAt name _
          | some method =>
              exact (confines_bindMethod (Lineage.In.method? inside.2 has) inside).bind
                fun closure within => .pure within
  | _ => exact confines_failAt name _

/-- A method of the superclass is in the region, with its receiver. -/
theorem confines_readSuper (inside : region.scope current) (keyword : Reference (Option Nat))
    (method : Token)
    : region.Confines current (Run.readSuper keyword method) (·.In region) := by
  unfold Run.readSuper
  split
  · next distance _ =>
      refine (confines_readVariable inside keyword).bind fun superclass within => ?_
      intro before here closed
      have reached outer
          (found : before.scopes.ancestor before.current (distance - 1) = .ok outer)
          : region.scope outer :=
        closed.ancestor (here ▸ inside) found
      refine (confines_ofAccess keyword.name reached).bind (fun scope inside => ?_) before here closed
      refine (confines_receiverIn inside).bind fun receiver received => ?_
      cases superclass with
      | «class» lineage =>
          simp only
          cases has : lineage.method? method.lexeme with
          | none => exact confines_failAt method _
          | some found =>
              exact (confines_bindMethod (Lineage.In.method? within has) received).bind
                fun closure within => .pure within
      | _ => exact .throw .superNotClass
  · exact .throw .unboundSuper

-----
-- Opening scopes

/-- Definitions in a row stay in the region, by induction on them. -/
theorem confines_defineAll {scope : Nat} (inside : region.scope scope)
    {bindings : List (Token × Value)} (within : ∀ binding ∈ bindings, binding.2.In region)
    : region.Confines current (Evaluator.defineAll scope bindings) fun _ => True := by
  induction bindings with
  | nil => exact .pure trivial
  | cons first rest ih =>
      obtain ⟨head, tail⟩ := List.forall_mem_cons.1 within
      exact (confines_defineIn inside first.1.lexeme head).bind fun _ _ => ih tail

-----
-- Classes

/-- A superclass found in the region belongs to the region. -/
theorem confines_findSuperclass (inside : region.scope current)
    (target : Option (Reference (Option Nat)))
    : region.Confines current (Evaluator.findSuperclass target)
        (∀ lineage ∈ ·, lineage.In region) := by
  cases target with
  | none => exact .pure fun _ none => nomatch none
  | some target =>
      have read : region.Confines current (Evaluator.readSuperclass target) (·.In region) := by
        refine (confines_readVariable inside target).bind fun value within => ?_
        cases value with
        | «class» lineage => exact .pure within
        | _ => exact confines_failAt target.name _
      refine read.map fun lineage within other same => ?_
      exact Option.some.inj same ▸ within

/-- Methods created in the region belong to it, by induction on them. -/
theorem confines_createMethods {scope : Nat} (inside : region.scope scope) {table : Table Closure}
    {methods : List (Method (Option Nat))} (allowed : EveryMethods region.function methods)
    (within : ∀ name method, table.get? name = some method → method.In region)
    : region.Confines current (Evaluator.createMethods scope table methods)
        (fun created => ∀ name method, created.get? name = some method → method.In region) := by
  induction methods generalizing table with
  | nil => exact .pure within
  | cons method rest ih =>
      obtain ⟨name, function⟩ := method
      refine (confines_newClosure allowed.1 inside _ _).bind fun closure created => ?_
      refine ih allowed.2 fun other method found => ?_
      rw [Table.get?_insert] at found
      split at found
      · exact Option.some.inj found ▸ created
      · exact within other method found

/-- The scope of the methods is in the region. -/
theorem confines_methodScope (inside : region.scope current) {superclass : Option Lineage}
    (within : ∀ lineage ∈ superclass, lineage.In region)
    : region.Confines current (Evaluator.methodScope superclass) region.scope := by
  refine confines_currentScope.bind fun scope here => ?_
  obtain rfl := here
  cases superclass with
  | none => exact .pure inside
  | some lineage =>
      have above : (Value.class lineage).In region := within lineage rfl
      refine (confines_newScope inside).bind fun opened new => ?_
      exact (confines_defineIn new "super" above).bind fun _ _ => .pure new

/-- A class created in the region belongs to it. -/
theorem confines_createClass (inside : region.scope current) (name : Token)
    {superclass : Option Lineage} (within : ∀ lineage ∈ superclass, lineage.In region)
    {methods : List (Method (Option Nat))} (allowed : EveryMethods region.function methods)
    : region.Confines current (Evaluator.createClass name superclass methods) (·.In region) := by
  refine (confines_methodScope inside within).bind fun scope opened => ?_
  have noMethods name method (found : (Table.empty : Table Closure).get? name = some method)
      : method.In region := by
    cases found
  refine (confines_createMethods opened allowed noMethods).bind fun created methods => ?_
  have numbered : region.Confines current Run.freshId fun _ => True :=
    fun _ _ closed => ⟨{ Region.Spares.refl closed with }, trivial⟩
  refine numbered.bind fun id _ => .pure ?_
  cases superclass with
  | none =>
      intro body listed
      obtain rfl := List.mem_singleton.1 listed
      exact methods
  | some lineage =>
      intro body listed
      rcases List.mem_cons.1 listed with rfl | above
      · exact methods
      · exact within lineage rfl body above

/-- A class declaration stays in the region. -/
theorem confines_declareClass (inside : region.scope current) (name : Token)
    (superclass : Option (Reference (Option Nat))) {methods : List (Method (Option Nat))}
    (allowed : EveryMethods region.function methods)
    : region.Confines current (Evaluator.declareClass name superclass methods) fun _ => True := by
  refine (confines_findSuperclass inside superclass).bind fun found within => ?_
  have nothing : Value.nil.In region := trivial
  refine (confines_define inside name nothing).bind fun _ _ => ?_
  refine (confines_createClass inside name within allowed).bind fun lineage created => ?_
  have within : (Value.class lineage).In region := created
  refine confines_currentScope.bind fun scope here => ?_
  refine (confines_assignFrom (here ▸ inside) name within).bind fun _ _ => ?_
  exact confines_tell _

end Lox.Running
