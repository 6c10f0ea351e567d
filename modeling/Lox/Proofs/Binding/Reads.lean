import Lox.Binding.Bind
import Lox.Proofs.Binding.Proper

/-! Reads of variables, and what is declared around them.

Which scope a read belongs to is told here by the text alone: by the parameters of the scopes around
it, by the statements of these scopes in front of it, and by the statements that it stands in.
-/

namespace Lox

/-- The statement declares the name in the scope it stands in. -/
def Stmt.introduces {ρ : Type} (stmt : Stmt ρ) (name : String) : Bool :=
  stmt.introduces?.any (·.lexeme = name)

/-- The statement declares a variable of the name, so that its parts are what initializes it. -/
def Stmt.initializes {ρ : Type} (stmt : Stmt ρ) (name : String) : Bool :=
  match stmt with
  | .variable declared _ => declared.lexeme = name
  | _ => false

namespace Binding

-----
-- Scopes around a place

/-- A scope around a place, up to that place. -/
structure Enclosing where
  /-- The parameters, if the scope is that of a function. -/
  parameters? : Option (List Token)
  /-- The statements of the scope that lie in front of the place. -/
  earlier : List (Stmt Unit)
  /-- The statement of the scope that the place lies in. -/
  current? : Option (Stmt Unit)

namespace Enclosing

/-- The scope of a block, at its start, and of a receiver or a superclass. -/
def block : Enclosing :=
  { parameters? := none, earlier := [], current? := none }

def function (parameters : List Token) : Enclosing :=
  { parameters? := some parameters, earlier := [], current? := none }

def isFunction (scope : Enclosing) : Bool :=
  scope.parameters?.isSome

def hasParameter (scope : Enclosing) (name : String) : Bool :=
  (scope.parameters?.getD []).any (·.lexeme = name)

/-- The scope has a parameter of the name, or a declaration whose name precedes the place. -/
def declares (scope : Enclosing) (name : String) : Bool :=
  scope.hasParameter name
  || (scope.earlier ++ scope.current?.toList).any (·.introduces name)

/-- The only declaration of the name so far is that of the variable which is being initialized. -/
def pending (scope : Enclosing) (name : String) : Bool :=
  !scope.hasParameter name
  && !scope.earlier.any (·.introduces name)
  && scope.current?.any (·.initializes name)

def entered (scope : Enclosing) (stmt : Stmt Unit) : Enclosing :=
  { scope with current? := some stmt }

def passed (scope : Enclosing) (stmt : Stmt Unit) : Enclosing :=
  { scope with earlier := scope.earlier ++ [stmt], current? := none }

end Enclosing

/-- All that lies around a place. -/
structure Context where
  /-- The scopes around the place, the innermost first. -/
  locals : List Enclosing
  /-- The top level of the program, which is the scope of its globals. -/
  top : Enclosing

namespace Context

def start : Context :=
  { locals := [], top := .block }

def inside (context : Context) (scope : Enclosing) : Context :=
  { context with locals := scope :: context.locals }

/-- Declarations go to the innermost scope, or to the top level if there is none. -/
def changed (context : Context) (change : Enclosing → Enclosing) : Context :=
  match context.locals with
  | [] => { context with top := change context.top }
  | scope :: outer => { context with locals := change scope :: outer }

def entered (context : Context) (stmt : Stmt Unit) : Context :=
  context.changed (·.entered stmt)

def passed (context : Context) (stmt : Stmt Unit) : Context :=
  context.changed (·.passed stmt)

-----
-- The rule for reads

def inFunction (context : Context) : Bool :=
  context.locals.any (·.isFunction)

/-- No function begins between the scope at the distance and the place. -/
def owns (context : Context) (distance : Nat) : Bool :=
  (context.locals.take distance).all (!·.isFunction)

/-- The scope at the distance has the name pending in the function that the place is in. -/
def skips (context : Context) (name : String) (distance : Nat) : Bool :=
  context.locals[distance]?.any (·.pending name) && context.owns distance

/-- The scope at the distance declares the name, and a read of it is not to look further. -/
def holds (context : Context) (name : String) (distance : Nat) : Bool :=
  context.locals[distance]?.any (·.declares name) && !context.skips name distance

/-- How many scopes lie between the place and the innermost one that holds the name. -/
def distance? (context : Context) (name : String) : Option Nat :=
  (List.range context.locals.length).find? (context.holds name)

/-- A global of the name is known, or a declaration at the top level has made one. -/
def hasGlobal (context : Context) (knownGlobals : List String) (name : String) : Bool :=
  knownGlobals.contains name
  || context.top.earlier.any (·.introduces name)
  || context.top.current?.any fun stmt => stmt.introduces name && !stmt.initializes name

/-- Outside of every function, the place lies in what initializes a global of the name. -/
def initializesGlobal (context : Context) (name : String) : Bool :=
  !context.inFunction && context.top.current?.any (·.initializes name)

/-- A read finds neither a scope nor a global, but what it helps to initialize. -/
def readsItself (context : Context) (knownGlobals : List String) (name : String) : Bool :=
  context.distance? name = none
  && !context.hasGlobal knownGlobals name
  && ((List.range context.locals.length).any (context.skips name)
    || context.initializesGlobal name)

end Context

-----
-- Reads

/-- A read of a variable and what lies around it. -/
structure Read where
  name : Token
  context : Context

/-- The read with the distance that it is to be given. -/
def Read.bound (read : Read) : Reference (Option Nat) :=
  { name := read.name, binding := read.context.distance? read.name.lexeme }

def Read.readsItself (read : Read) (knownGlobals : List String) : Bool :=
  read.context.readsItself knownGlobals read.name.lexeme

def Read.diagnostic (read : Read) : Diagnostic :=
  Diagnostic.atToken read.name .readInOwnInitializer

mutual
/-- The reads of an expression, in the order in which they are bound. -/
def exprReads (context : Context) : Expr Unit → List Read
  | .literal _ | .this _ | .super _ _ => []
  | .grouping inner => exprReads context inner
  | .unary _ operand => exprReads context operand
  | .binary left _ right => exprReads context left ++ exprReads context right
  | .logical left _ right => exprReads context left ++ exprReads context right
  | .conditional condition thenCase elseCase =>
      exprReads context condition ++ exprReads context thenCase ++ exprReads context elseCase
  | .variable target => [{ name := target.name, context }]
  | .assign _ value => exprReads context value
  | .call callee _ arguments => exprReads context callee ++ exprsReads context arguments
  | .get object _ => exprReads context object
  | .set object _ value => exprReads context value ++ exprReads context object
  | .function function => functionReads context function

def exprsReads (context : Context) : List (Expr Unit) → List Read
  | [] => []
  | first :: rest => exprReads context first ++ exprsReads context rest

def optionalReads (context : Context) : Option (Expr Unit) → List Read
  | none => []
  | some value => exprReads context value

/-- The context already lies inside of the statement. A class reads its superclass before it opens
the scopes of the superclass and the receiver. -/
def stmtReads (context : Context) : Stmt Unit → List Read
  | .expression value => exprReads context value
  | .print value => exprReads context value
  | .printLine value => optionalReads context value
  | .variable _ initial => optionalReads context initial
  | .block statements => stmtsReads (context.inside .block) statements
  | .branch condition thenBranch elseBranch =>
      exprReads context condition ++ stmtReads context thenBranch ++ elseReads context elseBranch
  | .loop condition body => exprReads context condition ++ stmtReads context body
  | .breakLoop _ => []
  | .returnValue _ value => optionalReads context value
  | .function _ function => functionReads context function
  | .class _ none methods => methodsReads (context.inside .block) methods
  | .class _ (some superclass) methods =>
      { name := superclass.name, context }
      :: methodsReads ((context.inside .block).inside .block) methods

def stmtsReads (context : Context) : List (Stmt Unit) → List Read
  | [] => []
  | first :: rest =>
      stmtReads (context.entered first) first ++ stmtsReads (context.passed first) rest

def elseReads (context : Context) : Option (Stmt Unit) → List Read
  | none => []
  | some branch => stmtReads context branch

def functionReads (context : Context) : Lambda Unit → List Read
  | .mk parameters body => stmtsReads (context.inside (.function parameters)) body

def methodsReads (context : Context) : List (Method Unit) → List Read
  | [] => []
  | .mk _ function :: rest => functionReads context function ++ methodsReads context rest
end

/-- All reads of a program. -/
def reads (program : List (Stmt Unit)) : List Read :=
  stmtsReads .start program

-----
-- Variables

variable {ρ : Type}

mutual
/-- The variables that a tree reads, and what is known about their bindings. -/
def exprVariables : Expr ρ → List (Reference ρ)
  | .literal _ | .this _ | .super _ _ => []
  | .grouping inner => exprVariables inner
  | .unary _ operand => exprVariables operand
  | .binary left _ right => exprVariables left ++ exprVariables right
  | .logical left _ right => exprVariables left ++ exprVariables right
  | .conditional condition thenCase elseCase =>
      exprVariables condition ++ exprVariables thenCase ++ exprVariables elseCase
  | .variable target => [target]
  | .assign _ value => exprVariables value
  | .call callee _ arguments => exprVariables callee ++ exprsVariables arguments
  | .get object _ => exprVariables object
  | .set object _ value => exprVariables value ++ exprVariables object
  | .function function => functionVariables function

def exprsVariables : List (Expr ρ) → List (Reference ρ)
  | [] => []
  | first :: rest => exprVariables first ++ exprsVariables rest

def optionalVariables : Option (Expr ρ) → List (Reference ρ)
  | none => []
  | some value => exprVariables value

def stmtVariables : Stmt ρ → List (Reference ρ)
  | .expression value => exprVariables value
  | .print value => exprVariables value
  | .printLine value => optionalVariables value
  | .variable _ initial => optionalVariables initial
  | .block statements => stmtsVariables statements
  | .branch condition thenBranch elseBranch =>
      exprVariables condition ++ stmtVariables thenBranch ++ elseVariables elseBranch
  | .loop condition body => exprVariables condition ++ stmtVariables body
  | .breakLoop _ => []
  | .returnValue _ value => optionalVariables value
  | .function _ function => functionVariables function
  | .class _ superclass methods => superclass.toList ++ methodsVariables methods

def stmtsVariables : List (Stmt ρ) → List (Reference ρ)
  | [] => []
  | first :: rest => stmtVariables first ++ stmtsVariables rest

def elseVariables : Option (Stmt ρ) → List (Reference ρ)
  | none => []
  | some branch => stmtVariables branch

def functionVariables : Lambda ρ → List (Reference ρ)
  | .mk _ body => stmtsVariables body

def methodsVariables : List (Method ρ) → List (Reference ρ)
  | [] => []
  | .mk _ function :: rest => functionVariables function ++ methodsVariables rest
end

open List (forall_mem_append forall_mem_cons)

mutual
/-- What a proper tree reads are names. -/
theorem exprVariables_proper
    : ∀ expr : Expr Unit, expr.Proper → ∀ target ∈ exprVariables expr, target.name.IsName
  | .literal _, _ | .this _, _ | .super _ _, _ => fun _ member => absurd member List.not_mem_nil
  | .grouping inner, proper => exprVariables_proper inner proper
  | .unary _ operand, proper => exprVariables_proper operand proper
  | .binary left _ right, ⟨properLeft, properRight⟩ =>
      forall_mem_append.2
        ⟨exprVariables_proper left properLeft, exprVariables_proper right properRight⟩
  | .logical left _ right, ⟨properLeft, properRight⟩ =>
      forall_mem_append.2
        ⟨exprVariables_proper left properLeft, exprVariables_proper right properRight⟩
  | .conditional condition thenCase elseCase, ⟨tested, first, second⟩ =>
      forall_mem_append.2
        ⟨forall_mem_append.2
            ⟨exprVariables_proper condition tested, exprVariables_proper thenCase first⟩,
          exprVariables_proper elseCase second⟩
  | .variable _, isName => fun _ member => List.mem_singleton.1 member ▸ isName
  | .assign _ value, ⟨_, proper⟩ => exprVariables_proper value proper
  | .call callee _ arguments, ⟨properCallee, properArguments⟩ =>
      forall_mem_append.2
        ⟨exprVariables_proper callee properCallee, exprsVariables_proper arguments properArguments⟩
  | .get object _, proper => exprVariables_proper object proper
  | .set object _ value, ⟨properObject, properValue⟩ =>
      forall_mem_append.2
        ⟨exprVariables_proper value properValue, exprVariables_proper object properObject⟩
  | .function function, proper => functionVariables_proper function proper

/-- Only names are read in proper expressions. -/
theorem exprsVariables_proper
    : ∀ exprs : List (Expr Unit),
        ProperExprs exprs → ∀ target ∈ exprsVariables exprs, target.name.IsName
  | [], _ => fun _ member => absurd member List.not_mem_nil
  | first :: rest, ⟨properFirst, properRest⟩ =>
      forall_mem_append.2
        ⟨exprVariables_proper first properFirst, exprsVariables_proper rest properRest⟩

/-- Only names are read in a proper optional expression. -/
theorem optionalVariables_proper
    : ∀ value : Option (Expr Unit),
        ProperOptional value → ∀ target ∈ optionalVariables value, target.name.IsName
  | none, _ => fun _ member => absurd member List.not_mem_nil
  | some value, proper => exprVariables_proper value proper

/-- Only names are read in a proper statement, by induction on the tree. -/
theorem stmtVariables_proper
    : ∀ stmt : Stmt Unit, stmt.Proper → ∀ target ∈ stmtVariables stmt, target.name.IsName
  | .expression value, proper | .print value, proper => exprVariables_proper value proper
  | .printLine value, proper => optionalVariables_proper value proper
  | .variable _ initial, ⟨_, proper⟩ => optionalVariables_proper initial proper
  | .block statements, proper => stmtsVariables_proper statements proper
  | .branch condition thenBranch elseBranch, ⟨tested, ⟨first, _⟩, second⟩ =>
      forall_mem_append.2
        ⟨forall_mem_append.2
            ⟨exprVariables_proper condition tested, stmtVariables_proper thenBranch first⟩,
          elseVariables_proper elseBranch second⟩
  | .loop condition body, ⟨tested, proper, _⟩ =>
      forall_mem_append.2 ⟨exprVariables_proper condition tested, stmtVariables_proper body proper⟩
  | .breakLoop _, _ => fun _ member => absurd member List.not_mem_nil
  | .returnValue _ value, proper => optionalVariables_proper value proper
  | .function _ function, ⟨_, proper⟩ => functionVariables_proper function proper
  | .class _ none methods, ⟨_, _, proper⟩ => methodsVariables_proper methods proper
  | .class _ (some superclass) methods, ⟨_, named, proper⟩ =>
      forall_mem_cons.2 ⟨named superclass rfl, methodsVariables_proper methods proper⟩

/-- Only names are read in proper statements. -/
theorem stmtsVariables_proper
    : ∀ stmts : List (Stmt Unit),
        ProperStmts stmts → ∀ target ∈ stmtsVariables stmts, target.name.IsName
  | [], _ => fun _ member => absurd member List.not_mem_nil
  | first :: rest, ⟨properFirst, properRest⟩ =>
      forall_mem_append.2
        ⟨stmtVariables_proper first properFirst, stmtsVariables_proper rest properRest⟩

/-- Only names are read in a proper branch. -/
theorem elseVariables_proper
    : ∀ branch : Option (Stmt Unit),
        ProperElse branch → ∀ target ∈ elseVariables branch, target.name.IsName
  | none, _ => fun _ member => absurd member List.not_mem_nil
  | some branch, ⟨proper, _⟩ => stmtVariables_proper branch proper

/-- Only names are read in a proper function. -/
theorem functionVariables_proper
    : ∀ function : Lambda Unit,
        function.Proper → ∀ target ∈ functionVariables function, target.name.IsName
  | .mk _ body, ⟨_, proper⟩ => stmtsVariables_proper body proper

/-- Only names are read in proper methods. -/
theorem methodsVariables_proper
    : ∀ methods : List (Method Unit),
        ProperMethods methods → ∀ target ∈ methodsVariables methods, target.name.IsName
  | [], _ => fun _ member => absurd member List.not_mem_nil
  | .mk _ function :: rest, ⟨properFirst, properRest⟩ =>
      forall_mem_append.2
        ⟨functionVariables_proper function properFirst, methodsVariables_proper rest properRest⟩
end

end Binding

end Lox
