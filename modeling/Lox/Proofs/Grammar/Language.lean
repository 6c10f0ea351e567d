import Lox.Grammar.Program

/-! The grammar of the language: which tokens stand for which tree.

Every rule relates a whole stretch of tokens to what it stands for. No rule looks at the tokens
behind its stretch. Rules for nested places come from a language one level less deep, so that the
grammar can be unfolded to any depth of nesting.
-/

namespace Lox.Grammar

-----
-- What may follow a statement

/-- How a statement or declaration ends. -/
inductive Ending where
  /-- Nothing that follows could still belong to it. -/
  | closed
  /-- An `else` that follows would belong to its last `if`. -/
  | openBranch
  /-- A function literal is its initial value, and no semicolon is written. -/
  | openLiteral
deriving DecidableEq

/-- What may follow a declaration that ends in a function literal without a semicolon. The end of
the surrounding block is no token. -/
abbrev Policy := Option TokenKind → Prop

/-- As documented: the semicolon is optional wherever the declaration stands. -/
def Policy.documented : Policy :=
  fun _ => True

/-- The semicolon is always written. -/
def Policy.terminated : Policy :=
  fun _ => False

def Ending.admits (ending : Ending) (policy : Policy) (following : List Token) : Prop :=
  ending = .openLiteral → policy (following.head?.map (·.kind))

-----
-- Languages

/-- What can stand at a nested place. An expression is told whether a comma is an operator in it,
and a statement whether it stands inside a loop of its function. -/
structure Language where
  policy : Policy
  expression : Bool → List Token → SourceExpr → Prop
  /-- Parameter names in the parentheses of a function literal. -/
  names : List Token → List Token → Prop
  statement : Bool → Ending → List Token → SourceStmt → Prop
  declaration : Bool → Ending → List Token → SourceStmt → Prop

/-- Declarations one behind the other. -/
inductive Sequence (policy : Policy) (declaration : Ending → List Token → SourceStmt → Prop)
    : List Token → List SourceStmt → Prop
  | nil : Sequence policy declaration [] []
  | cons {ending tokens first following rest}
    (head : declaration ending tokens first) (admitted : ending.admits policy following)
    (tail : Sequence policy declaration following rest)
    : Sequence policy declaration (tokens ++ following) (first :: rest)

/-- Nothing can be nested. -/
def Language.empty (policy : Policy) : Language :=
  {
    policy,
    expression := fun _ _ _ => False,
    names := fun _ _ => False,
    statement := fun _ _ _ _ => False,
    declaration := fun _ _ _ _ => False
  }

section Rules

variable (inner : Language)

-----
-- Functions

/-- A block in braces. Inside of it a comma is an operator, wherever the block stands. -/
inductive Block (inLoop : Bool) : List Token → List SourceStmt → Prop
  | mk {opening tokens statements closing}
    (opens : opening.kind = .leftBrace)
    (body : Sequence inner.policy (inner.declaration inLoop) tokens statements)
    (closes : closing.kind = .rightBrace)
    : Block inLoop (opening :: (tokens ++ [closing])) statements

/-- One name or more, with commas between them. -/
inductive Names : List Token → List Token → Prop
  | last {name} (named : name.kind = .identifier) : Names [name] [name]
  | more {name separator tokens names}
    (named : name.kind = .identifier) (separates : separator.kind = .comma)
    (rest : Names tokens names)
    : Names (name :: separator :: tokens) (name :: names)

/-- The parameters of a declared function, none or up to the limit. -/
inductive Parameters : List Token → List Token → Prop
  | none : Parameters [] []
  | some {tokens names} (listed : Names tokens names) (few : names.length ≤ maxArguments)
    : Parameters tokens names

-----
-- Expressions

/-- Operands of one level with operators between them, grouped to the left. -/
inductive Chain (operand : List Token → SourceExpr → Prop) (operators : List TokenKind)
    (combine : SourceExpr → Token → SourceExpr → SourceExpr)
    : List Token → SourceExpr → Prop
  | one {tokens value} (single : operand tokens value)
    : Chain operand operators combine tokens value
  | more {tokens left operator others right}
    (front : Chain operand operators combine tokens left)
    (joined : operator.kind ∈ operators) (back : operand others right)
    : Chain operand operators combine (tokens ++ operator :: others)
        (combine left operator right)

inductive Primary : List Token → SourceExpr → Prop
  | falseWord {token} (kind : token.kind = .falseWord)
    : Primary [token] (.literal (.boolean false))
  | trueWord {token} (kind : token.kind = .trueWord)
    : Primary [token] (.literal (.boolean true))
  | nilWord {token} (kind : token.kind = .nilWord) : Primary [token] (.literal .nil)
  | number {token} (kind : token.kind = .number)
    : Primary [token] (.literal (token.literal.getD .nil))
  | string {token} (kind : token.kind = .string)
    : Primary [token] (.literal (token.literal.getD .nil))
  | this {token} (kind : token.kind = .thisWord) : Primary [token] (.this (reference token))
  | identifier {token} (kind : token.kind = .identifier)
    : Primary [token] (.variable (reference token))
  | super {keyword dot method} (kind : keyword.kind = .superWord) (dotted : dot.kind = .dot)
    (named : method.kind = .identifier)
    : Primary [keyword, dot, method] (.super (reference keyword) method)
  | group {opening tokens value closing}
    (opens : opening.kind = .leftParen) (grouped : inner.expression true tokens value)
    (closes : closing.kind = .rightParen)
    : Primary (opening :: (tokens ++ [closing])) (.grouping value)
  | arrow {opening closing arrow body statements}
    (opens : opening.kind = .leftParen) (closes : closing.kind = .rightParen)
    (points : arrow.kind = .arrow) (block : Block inner false body statements)
    : Primary (opening :: closing :: arrow :: body) (.function (.mk [] statements))
  | arrowNames {opening tokens names closing arrow body statements}
    (opens : opening.kind = .leftParen) (listed : inner.names tokens names)
    (few : names.length ≤ maxArguments) (closes : closing.kind = .rightParen)
    (points : arrow.kind = .arrow) (block : Block inner false body statements)
    : Primary (opening :: (tokens ++ closing :: arrow :: body))
        (.function (.mk names statements))

/-- One argument or more. Among them a comma separates and is no operator. -/
inductive ArgumentList : List Token → List SourceExpr → Prop
  | last {tokens value} (argument : inner.expression false tokens value)
    : ArgumentList tokens [value]
  | more {tokens value separator others values}
    (argument : inner.expression false tokens value) (separates : separator.kind = .comma)
    (rest : ArgumentList others values)
    : ArgumentList (tokens ++ separator :: others) (value :: values)

inductive Arguments : List Token → List SourceExpr → Prop
  | none : Arguments [] []
  | some {tokens values} (listed : ArgumentList inner tokens values)
    (few : values.length ≤ maxArguments)
    : Arguments tokens values

/-- Calls and property reads behind an operand. -/
inductive Call : List Token → SourceExpr → Prop
  | primary {tokens value} (operand : Primary inner tokens value) : Call tokens value
  | call {tokens callee opening others arguments closing}
    (front : Call tokens callee) (opens : opening.kind = .leftParen)
    (passed : Arguments inner others arguments) (closes : closing.kind = .rightParen)
    : Call (tokens ++ opening :: (others ++ [closing])) (.call callee closing arguments)
  | get {tokens object dot name}
    (front : Call tokens object) (dotted : dot.kind = .dot) (named : name.kind = .identifier)
    : Call (tokens ++ [dot, name]) (.get object name)

inductive Unary : List Token → SourceExpr → Prop
  | call {tokens value} (operand : Call inner tokens value) : Unary tokens value
  | operator {operator tokens value} (negates : operator.kind ∈ [.bang, .minus])
    (operand : Unary tokens value)
    : Unary (operator :: tokens) (.unary operator value)

def Factor : List Token → SourceExpr → Prop :=
  Chain (Unary inner) [.slash, .star] .binary

def Term : List Token → SourceExpr → Prop :=
  Chain (Factor inner) [.minus, .plus] .binary

def Comparison : List Token → SourceExpr → Prop :=
  Chain (Term inner) [.greater, .greaterEqual, .less, .lessEqual] .binary

def Equality : List Token → SourceExpr → Prop :=
  Chain (Comparison inner) [.bangEqual, .equalEqual] .binary

inductive Conditional : List Token → SourceExpr → Prop
  | equality {tokens value} (operand : Equality inner tokens value) : Conditional tokens value
  | choice {tokens condition question thenTokens thenCase colon elseTokens elseCase}
    (tested : Equality inner tokens condition) (asks : question.kind = .question)
    (first : Equality inner thenTokens thenCase) (separates : colon.kind = .colon)
    (second : Equality inner elseTokens elseCase)
    : Conditional (tokens ++ question :: (thenTokens ++ colon :: elseTokens))
        (.conditional condition thenCase elseCase)

/-- The comma binds tighter than `and`. -/
def Comma (commas : Bool) : List Token → SourceExpr → Prop :=
  Chain (Conditional inner) (if commas then [.comma] else []) .binary

def LogicAnd (commas : Bool) : List Token → SourceExpr → Prop :=
  Chain (Comma inner commas) [.andWord] .logical

def LogicOr (commas : Bool) : List Token → SourceExpr → Prop :=
  Chain (LogicAnd inner commas) [.orWord] .logical

inductive Assignment (commas : Bool) : List Token → SourceExpr → Prop
  | logic {tokens value} (operand : LogicOr inner commas tokens value)
    : Assignment commas tokens value
  | name {name equals tokens value}
    (named : name.kind = .identifier) (assigns : equals.kind = .equal)
    (assigned : Assignment commas tokens value)
    : Assignment commas (name :: equals :: tokens) (.assign (reference name) value)
  | property {front object dot name equals tokens value}
    (owner : Call inner front object) (dotted : dot.kind = .dot)
    (named : name.kind = .identifier) (assigns : equals.kind = .equal)
    (assigned : Assignment commas tokens value)
    : Assignment commas (front ++ dot :: name :: equals :: tokens) (.set object name value)

inductive OptionalExpression : List Token → Option SourceExpr → Prop
  | none : OptionalExpression [] none
  | some {tokens value} (written : inner.expression true tokens value)
    : OptionalExpression tokens (some value)

-----
-- Declarations

/-- A name, its parameters and its body, without a keyword in front. -/
inductive NamedFunction : List Token → Token → Lambda Unit → Prop
  | mk {name opening tokens parameters closing body statements}
    (named : name.kind = .identifier) (opens : opening.kind = .leftParen)
    (listed : Parameters tokens parameters) (closes : closing.kind = .rightParen)
    (block : Block inner false body statements)
    : NamedFunction (name :: opening :: (tokens ++ closing :: body)) name
        (.mk parameters statements)

inductive Methods : List Token → List (Method Unit) → Prop
  | nil : Methods [] []
  | cons {tokens name function others methods}
    (head : NamedFunction inner tokens name function) (tail : Methods others methods)
    : Methods (tokens ++ others) (.mk name function :: methods)

inductive SuperclassClause : List Token → Option (Reference Unit) → Prop
  | none : SuperclassClause [] none
  | some {less name} (inherits : less.kind = .less) (named : name.kind = .identifier)
    : SuperclassClause [less, name] (some (reference name))

/-- Behind the keyword of a variable declaration. -/
inductive VariableRest : Ending → List Token → SourceStmt → Prop
  | plain {name semicolon}
    (named : name.kind = .identifier) (ends : semicolon.kind = .semicolon)
    : VariableRest .closed [name, semicolon] (.variable name none)
  | initialized {name equals tokens value semicolon}
    (named : name.kind = .identifier) (assigns : equals.kind = .equal)
    (initial : inner.expression true tokens value) (ends : semicolon.kind = .semicolon)
    : VariableRest .closed (name :: equals :: (tokens ++ [semicolon]))
        (.variable name (some value))
  | literal {name equals tokens function}
    (named : name.kind = .identifier) (assigns : equals.kind = .equal)
    (initial : inner.expression true tokens (.function function))
    : VariableRest .openLiteral (name :: equals :: tokens)
        (.variable name (some (.function function)))

-----
-- Statements

inductive ExpressionStatement : List Token → SourceStmt → Prop
  | mk {tokens value semicolon}
    (written : inner.expression true tokens value) (ends : semicolon.kind = .semicolon)
    : ExpressionStatement (tokens ++ [semicolon]) (.expression value)

/-- The first clause of a `for`, with the semicolon that ends it unless that may be left out. -/
inductive ForInitial : Ending → List Token → Option SourceStmt → Prop
  | none {semicolon} (ends : semicolon.kind = .semicolon)
    : ForInitial .closed [semicolon] none
  | declaration {keyword ending tokens declared} (declares : keyword.kind = .varWord)
    (rest : VariableRest inner ending tokens declared)
    : ForInitial ending (keyword :: tokens) (some declared)
  | expression {tokens statement} (written : ExpressionStatement inner tokens statement)
    : ForInitial .closed tokens (some statement)

inductive Statement (inLoop : Bool) : Ending → List Token → SourceStmt → Prop
  | expression {tokens statement} (written : ExpressionStatement inner tokens statement)
    : Statement inLoop .closed tokens statement
  | print {keyword tokens value semicolon} (kind : keyword.kind = .printWord)
    (written : inner.expression true tokens value) (ends : semicolon.kind = .semicolon)
    : Statement inLoop .closed (keyword :: (tokens ++ [semicolon])) (.print value)
  | printLine {keyword tokens value semicolon} (kind : keyword.kind = .printlnWord)
    (written : OptionalExpression inner tokens value) (ends : semicolon.kind = .semicolon)
    : Statement inLoop .closed (keyword :: (tokens ++ [semicolon])) (.printLine value)
  | returnValue {keyword tokens value semicolon} (kind : keyword.kind = .returnWord)
    (written : OptionalExpression inner tokens value) (ends : semicolon.kind = .semicolon)
    : Statement inLoop .closed (keyword :: (tokens ++ [semicolon])) (.returnValue keyword value)
  | breakLoop {keyword semicolon} (kind : keyword.kind = .breakWord) (within : inLoop = true)
    (ends : semicolon.kind = .semicolon)
    : Statement inLoop .closed [keyword, semicolon] (.breakLoop keyword)
  | block {tokens statements} (braced : Block inner inLoop tokens statements)
    : Statement inLoop .closed tokens (.block statements)
  | branch {keyword opening tokens condition closing ending thenTokens thenBranch}
    (kind : keyword.kind = .ifWord) (opens : opening.kind = .leftParen)
    (tested : inner.expression true tokens condition) (closes : closing.kind = .rightParen)
    (first : inner.statement inLoop ending thenTokens thenBranch)
    : Statement inLoop .openBranch
        (keyword :: opening :: (tokens ++ closing :: thenTokens))
        (.branch condition thenBranch none)
  /-- A branch that an `else` could still be added to has no `else` behind it. -/
  | branchElse {keyword opening tokens condition closing thenTokens thenBranch elseWord ending
      elseTokens elseBranch}
    (kind : keyword.kind = .ifWord) (opens : opening.kind = .leftParen)
    (tested : inner.expression true tokens condition) (closes : closing.kind = .rightParen)
    (first : inner.statement inLoop .closed thenTokens thenBranch)
    (otherwise : elseWord.kind = .elseWord)
    (second : inner.statement inLoop ending elseTokens elseBranch)
    : Statement inLoop ending
        (keyword :: opening :: (tokens ++ closing :: (thenTokens ++ elseWord :: elseTokens)))
        (.branch condition thenBranch (some elseBranch))
  | loop {keyword opening tokens condition closing ending others body}
    (kind : keyword.kind = .whileWord) (opens : opening.kind = .leftParen)
    (tested : inner.expression true tokens condition) (closes : closing.kind = .rightParen)
    (repeated : inner.statement true ending others body)
    : Statement inLoop ending (keyword :: opening :: (tokens ++ closing :: others))
        (.loop condition body)
  | forLoop {keyword opening initialEnding initialTokens initial conditionTokens condition
      semicolon incrementTokens increment closing ending others body}
    (kind : keyword.kind = .forWord) (opens : opening.kind = .leftParen)
    (starts : ForInitial inner initialEnding initialTokens initial)
    (admitted : initialEnding.admits inner.policy (conditionTokens ++ [semicolon]))
    (tested : OptionalExpression inner conditionTokens condition)
    (ends : semicolon.kind = .semicolon)
    (stepped : OptionalExpression inner incrementTokens increment)
    (closes : closing.kind = .rightParen)
    (repeated : inner.statement true ending others body)
    : Statement inLoop ending
        (keyword :: opening :: (initialTokens
          ++ (conditionTokens ++ semicolon :: (incrementTokens ++ closing :: others))))
        (Grammar.forLoop initial condition increment body)

inductive Declaration (inLoop : Bool) : Ending → List Token → SourceStmt → Prop
  | class {keyword name clause superclass opening tokens methods closing}
    (kind : keyword.kind = .classWord) (named : name.kind = .identifier)
    (inherits : SuperclassClause clause superclass) (opens : opening.kind = .leftBrace)
    (listed : Methods inner tokens methods) (closes : closing.kind = .rightBrace)
    : Declaration inLoop .closed
        (keyword :: name :: (clause ++ opening :: (tokens ++ [closing])))
        (.class name superclass methods)
  | function {keyword tokens name function} (kind : keyword.kind = .funWord)
    (defined : NamedFunction inner tokens name function)
    : Declaration inLoop .closed (keyword :: tokens) (.function name function)
  | declaration {keyword ending tokens declared} (kind : keyword.kind = .varWord)
    (rest : VariableRest inner ending tokens declared)
    : Declaration inLoop ending (keyword :: tokens) declared
  | statement {ending tokens statement} (plain : Statement inner inLoop ending tokens statement)
    : Declaration inLoop ending tokens statement

end Rules

-----
-- Unfolding

/-- The language with so many levels of nesting. -/
def language (policy : Policy) : Nat → Language
  | 0 => .empty policy
  | nesting + 1 =>
      let inner := language policy nesting
      {
        policy,
        expression := Assignment inner,
        names := Names,
        statement := Statement inner,
        declaration := Declaration inner
      }

/-- Every nesting of the grammar has its policy. -/
@[simp]
theorem language_policy (policy : Policy) (nesting : Nat)
    : (language policy nesting).policy = policy := by
  cases nesting <;> rfl

/-- Whole programs, in whose declarations so many levels may be nested. At the outermost level there
is no loop. -/
def Derives (policy : Policy) (depth : Nat) : List Token → List SourceStmt → Prop :=
  Sequence policy ((language policy (depth + 1)).declaration false)

end Lox.Grammar
