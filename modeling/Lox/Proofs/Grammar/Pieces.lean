import Lox.Proofs.Grammar.Contracts

/-! What reading gathers from a text, whether or not it finds mistakes.

On its way through the tokens a rule takes some of them, reports mistakes, and forms larger pieces
from the pieces it has. Nothing else happens, so what all this keeps is true of every piece that is
read. Pieces that are read and left out again, as with a declaration that is given up, are among
those gathered.
-/

namespace Lox

-----
-- Mistakes

/-- The mistake can be found before names are bound. -/
def Problem.isSyntactic : Problem → Bool
  | .returnOutsideFunction | .readInOwnInitializer | .selfInheritance | .thisOutsideClass
  | .superOutsideClass | .superWithoutSuperclass | .unusedLocal _ => false
  | _ => true

/-- A syntactic problem is an error. -/
theorem Problem.severity_of_isSyntactic {problem : Problem} (syntactic : problem.isSyntactic = true)
    : problem.severity = .error := by
  cases problem with
  | unusedLocal name => cases syntactic
  | _ => rfl

/-- The report of a syntactic problem is an error. -/
theorem Diagnostic.isError_of_isSyntactic {diagnostic : Diagnostic}
    (syntactic : diagnostic.problem.isSyntactic = true)
    : diagnostic.isError = true :=
  decide_eq_true (Problem.severity_of_isSyntactic syntactic)

end Lox

namespace Lox.Grammar

-----
-- Pieces

/-- How far reading has come. -/
structure Place where
  ahead : List Token
  errors : List Diagnostic

def Cursor.place (cursor : Cursor) : Place :=
  { ahead := cursor.ahead, errors := cursor.errors }

/-- A piece of a text. Where it may hold a `break` it is known whether it stands in a loop. -/
inductive Piece where
  | token (token : Token)
  /-- A token that names something. -/
  | name (name : Token)
  | expression (value : SourceExpr)
  /-- A statement that may stand alone: it declares nothing. -/
  | statement (inLoop : Bool) (statement : SourceStmt)
  | declaration (inLoop : Bool) (statement : SourceStmt)
  | function (function : Lambda Unit)
  | method (method : Method Unit)

/-- The operators of all levels whose operands are always evaluated. -/
def binaryKinds : List TokenKind :=
  [.slash, .star, .minus, .plus, .greater, .greaterEqual, .less, .lessEqual, .bangEqual,
    .equalEqual, .comma]

/-- The pieces form the larger one. -/
inductive Forms : List Piece → Piece → Prop
  | name {token} (kind : token.kind = .identifier) : Forms [.token token] (.name token)
  | falseWord {token} (kind : token.kind = .falseWord)
    : Forms [.token token] (.expression (.literal (.boolean false)))
  | trueWord {token} (kind : token.kind = .trueWord)
    : Forms [.token token] (.expression (.literal (.boolean true)))
  /-- The condition of a `for` that is left out. -/
  | always : Forms [] (.expression (.literal (.boolean true)))
  | nilWord {token} (kind : token.kind = .nilWord)
    : Forms [.token token] (.expression (.literal .nil))
  | literal {token} (kind : token.kind = .number ∨ token.kind = .string)
    : Forms [.token token] (.expression (.literal (token.literal.getD .nil)))
  | this {token} (kind : token.kind = .thisWord)
    : Forms [.token token] (.expression (.this (reference token)))
  | variable {name} : Forms [.name name] (.expression (.variable (reference name)))
  | super {keyword method} (kind : keyword.kind = .superWord)
    : Forms [.token keyword, .name method] (.expression (.super (reference keyword) method))
  | grouping {inner} : Forms [.expression inner] (.expression (.grouping inner))
  | unary {operator operand} (negates : operator.kind ∈ [.bang, .minus])
    : Forms [.token operator, .expression operand] (.expression (.unary operator operand))
  | binary {left operator right} (joined : operator.kind ∈ binaryKinds)
    : Forms [.expression left, .token operator, .expression right]
        (.expression (.binary left operator right))
  | logical {left operator right} (joined : operator.kind ∈ [.andWord, .orWord])
    : Forms [.expression left, .token operator, .expression right]
        (.expression (.logical left operator right))
  | conditional {condition thenCase elseCase}
    : Forms [.expression condition, .expression thenCase, .expression elseCase]
        (.expression (.conditional condition thenCase elseCase))
  | assign {target value}
    : Forms [.expression (.variable target), .expression value]
        (.expression (.assign target value))
  | set {object name value}
    : Forms [.expression (.get object name), .expression value]
        (.expression (.set object name value))
  | get {object name}
    : Forms [.expression object, .name name] (.expression (.get object name))
  | call {callee paren arguments} (closes : paren.kind = .rightParen)
    : Forms (.expression callee :: .token paren :: arguments.map .expression)
        (.expression (.call callee paren arguments))
  | literalFunction {function} : Forms [.function function] (.expression (.function function))
  | function {parameters body}
    : Forms (parameters.map .name ++ body.map (.declaration false))
        (.function (.mk parameters body))
  /-- Names that were read as an expression before the arrow. -/
  | arrow {inner parameters body} (listed : parameterNames? inner = some parameters)
    : Forms (.expression inner :: body.map (.declaration false)) (.function (.mk parameters body))
  | method {name function} : Forms [.name name, .function function] (.method (.mk name function))
  | expression {inLoop value}
    : Forms [.expression value] (.statement inLoop (.expression value))
  | print {inLoop value} : Forms [.expression value] (.statement inLoop (.print value))
  | printLine {inLoop value}
    : Forms (value.toList.map .expression) (.statement inLoop (.printLine value))
  | block {inLoop statements}
    : Forms (statements.map (.declaration inLoop)) (.statement inLoop (.block statements))
  | branch {inLoop condition thenBranch elseBranch}
    : Forms
        (.expression condition :: .statement inLoop thenBranch
          :: elseBranch.toList.map (.statement inLoop))
        (.statement inLoop (.branch condition thenBranch elseBranch))
  | loop {inLoop condition body}
    : Forms [.expression condition, .statement true body]
        (.statement inLoop (.loop condition body))
  | returnValue {inLoop keyword value} (kind : keyword.kind = .returnWord)
    : Forms (.token keyword :: value.toList.map .expression)
        (.statement inLoop (.returnValue keyword value))
  | declaration {inLoop statement}
    : Forms [.statement inLoop statement] (.declaration inLoop statement)
  | declareVariable {inLoop name initial}
    : Forms (.name name :: initial.toList.map .expression)
        (.declaration inLoop (.variable name initial))
  | declareFunction {inLoop name function}
    : Forms [.name name, .function function] (.declaration inLoop (.function name function))
  | declareClass {inLoop name methods} {superclass : Option (Reference Unit)}
    : Forms (.name name :: (superclass.toList.map (.name ·.name) ++ methods.map .method))
        (.declaration inLoop (.class name superclass methods))

/-- On the way from one place to the other the pieces were gathered, and maybe more. -/
inductive Gathers : Place → Place → List Piece → Prop
  | nothing {place} : Gathers place place []
  | append {first second third pieces others} (front : Gathers first second pieces)
    (back : Gathers second third others)
    : Gathers first third (pieces ++ others)
  | among {first second pieces others} (gathered : Gathers first second pieces)
    (listed : others ⊆ pieces)
    : Gathers first second others
  | token {token ahead errors} (inside : token.kind ≠ .endOfInput)
    : Gathers { ahead := token :: ahead, errors } { ahead, errors } [.token token]
  | mistake {ahead errors token problem} (syntactic : problem.isSyntactic = true)
    (other : problem ≠ .breakOutsideLoop)
    : Gathers { ahead, errors }
        { ahead, errors := errors ++ [Diagnostic.atToken token problem] } []
  | loopBreak {keyword ahead errors} (kind : keyword.kind = .breakWord)
    : Gathers { ahead := keyword :: ahead, errors } { ahead, errors }
        [.statement true (.breakLoop keyword)]
  | misplacedBreak {keyword ahead errors} (kind : keyword.kind = .breakWord)
    : Gathers { ahead := keyword :: ahead, errors }
        { ahead, errors := errors ++ [Diagnostic.atToken keyword .breakOutsideLoop] }
        [.statement false (.breakLoop keyword)]
  | formed {first second pieces others piece} (gathered : Gathers first second others)
    (forms : Forms pieces piece) (listed : pieces ⊆ others)
    : Gathers first second (piece :: others)

namespace Gathers

variable {first second third : Place} {pieces others : List Piece}

/-- What is gathered last may be left out again. -/
theorem then_ (front : Gathers first second pieces) (back : Gathers second third [])
    : Gathers first third pieces :=
  (front.append back).among (by simp)

/-- Of what was gathered nothing is needed. -/
theorem forget (gathered : Gathers first second pieces) : Gathers first second [] :=
  gathered.among (List.nil_subset _)

/-- The pieces that form the larger one are among others. -/
theorem form {piece : Piece} (gathered : Gathers first second others)
    (forms : Forms pieces piece) (listed : pieces ⊆ others)
    : Gathers first second [piece] :=
  (gathered.formed forms listed).among (by simp)

/-- A statement may stand where declarations stand. -/
theorem declared {inLoop : Bool} {statement : SourceStmt} (gathered : Gathers first second pieces)
    (listed : .statement inLoop statement ∈ pieces)
    : Gathers first second (.declaration inLoop statement :: pieces) :=
  gathered.formed .declaration (by simpa using listed)

/-- A stretch of tokens without the end of input may be passed over. -/
theorem skip (tokens ahead : List Token) (errors : List Diagnostic)
    (inside : ∀ token ∈ tokens, token.kind ≠ .endOfInput)
    : Gathers { ahead := tokens ++ ahead, errors } { ahead, errors } [] := by
  induction tokens with
  | nil => exact .nothing
  | cons token rest ih =>
      have taken : Gathers { ahead := token :: (rest ++ ahead), errors }
          { ahead := rest ++ ahead, errors } [.token token] :=
        .token (inside token List.mem_cons_self)
      exact taken.forget.then_ (ih fun other member => inside other (List.mem_cons_of_mem _ member))

/-- Nothing but mistakes of reading is reported on the way. -/
theorem syntactic (gathered : Gathers first second pieces)
    (before : ∀ mistake ∈ first.errors, mistake.problem.isSyntactic = true)
    : ∀ mistake ∈ second.errors, mistake.problem.isSyntactic = true := by
  induction gathered with
  | nothing | token | loopBreak => exact before
  | append _ _ ihFront ihBack => exact ihBack (ihFront before)
  | among _ _ ih | formed _ _ _ ih => exact ih before
  | mistake syntactic => exact List.forall_mem_append.2 ⟨before, List.forall_mem_singleton.2 syntactic⟩
  | misplacedBreak => exact List.forall_mem_append.2 ⟨before, List.forall_mem_singleton.2 rfl⟩

end Gathers

-----
-- Invariants of pieces

/-- The pieces keep what holds of the tokens they are made of. -/
structure Kept (holds : Piece → Prop) : Prop where
  forms {pieces : List Piece} {piece : Piece}
    : Forms pieces piece → (∀ part ∈ pieces, holds part) → holds piece
  breakLoop (inLoop : Bool) (keyword : Token) : holds (.statement inLoop (.breakLoop keyword))

/-- It holds of all tokens that are ahead. -/
def Place.Holds (holds : Piece → Prop) (place : Place) : Prop :=
  ∀ token ∈ place.ahead, token.kind ≠ .endOfInput → holds (.token token)

/-- What is kept holds of all that is gathered, and of the tokens that are left. -/
theorem Gathers.kept {holds : Piece → Prop} (kept : Kept holds) {first second : Place}
    {pieces : List Piece} (gathered : Gathers first second pieces) (before : first.Holds holds)
    : second.Holds holds ∧ ∀ piece ∈ pieces, holds piece := by
  induction gathered with
  | nothing | mistake => exact ⟨before, fun _ none => absurd none List.not_mem_nil⟩
  | append _ _ ihFront ihBack =>
      obtain ⟨between, front⟩ := ihFront before
      obtain ⟨behind, back⟩ := ihBack between
      exact ⟨behind, List.forall_mem_append.2 ⟨front, back⟩⟩
  | among _ listed ih =>
      obtain ⟨behind, all⟩ := ih before
      exact ⟨behind, fun piece member => all piece (listed member)⟩
  | token inside =>
      obtain ⟨word, behind⟩ := List.forall_mem_cons.1 before
      exact ⟨behind, List.forall_mem_singleton.2 (word inside)⟩
  | loopBreak | misplacedBreak =>
      exact ⟨(List.forall_mem_cons.1 before).2, List.forall_mem_singleton.2 (kept.breakLoop _ _)⟩
  | formed _ forms listed ih =>
      obtain ⟨behind, all⟩ := ih before
      have piece := kept.forms forms fun part member => all part (listed member)
      exact ⟨behind, List.forall_mem_cons.2 ⟨piece, all⟩⟩

-----
-- Cursors

/-- Rules leave the context as they find it. -/
structure Cursor.SameContext (before after : Cursor) : Prop where
  loopDepth : after.loopDepth = before.loopDepth
  commaEnabled : after.commaEnabled = before.commaEnabled

namespace Cursor

/-- Every cursor has its own context. -/
theorem SameContext.refl (cursor : Cursor) : cursor.SameContext cursor :=
  ⟨rfl, rfl⟩

/-- The context stays along two steps in a row if it does along each. -/
theorem SameContext.trans {before between after : Cursor} (front : before.SameContext between)
    (back : between.SameContext after)
    : before.SameContext after :=
  ⟨back.loopDepth.trans front.loopDepth, back.commaEnabled.trans front.commaEnabled⟩

/-- In front of the end of input there is a token to take. -/
theorem drop_of_inside {cursor : Cursor} (inside : cursor.next.kind ≠ .endOfInput)
    : ∃ rest, cursor.ahead = cursor.next :: rest ∧ cursor.drop = { cursor with ahead := rest } := by
  cases found : cursor.ahead with
  | nil =>
      have ends : cursor.next.kind = .endOfInput := by simp [next, found, Token.endOfInput]
      exact absurd ends inside
  | cons token rest =>
      have notEnd : cursor.atEnd = false := by simpa [atEnd] using inside
      exact ⟨rest, by simp [next, found], by simp [drop, notEnd, found]⟩

/-- Dropping a token gathers that token. -/
theorem gathers_drop {cursor : Cursor} (inside : cursor.next.kind ≠ .endOfInput)
    : Gathers cursor.place cursor.drop.place [.token cursor.next] := by
  obtain ⟨rest, split, dropped⟩ := drop_of_inside inside
  have taken : Gathers { ahead := cursor.next :: rest, errors := cursor.errors }
      { ahead := rest, errors := cursor.errors } [.token cursor.next] :=
    .token inside
  rw [dropped]
  unfold place
  rwa [split]

/-- A syntactic report gathers no piece. -/
theorem gathers_report (cursor : Cursor) (token : Token) {problem : Problem}
    (syntactic : problem.isSyntactic = true) (other : problem ≠ .breakOutsideLoop)
    : Gathers cursor.place (cursor.report token problem).place [] :=
  .mistake syntactic other

/-- Dropping a token leaves the context alone. -/
theorem sameContext_drop (cursor : Cursor) : cursor.SameContext cursor.drop := by
  unfold drop
  split <;> exact ⟨rfl, rfl⟩

/-- A report leaves the context alone. -/
theorem sameContext_report (cursor : Cursor) (token : Token) (problem : Problem)
    : cursor.SameContext (cursor.report token problem) :=
  ⟨rfl, rfl⟩

/-- Skipping to the next statement leaves the context alone. -/
theorem sameContext_skipToStatement (cursor : Cursor)
    : cursor.SameContext cursor.skipToStatement := by
  unfold skipToStatement
  split <;> exact ⟨rfl, rfl⟩

end Cursor

-----
-- Contracts

/-- How a rule comes out that was begun at a cursor. Whoever unwinds lets go of all pieces. -/
def Gained {α : Type} (start : Place) (before : Cursor) (gained : α → List Piece)
    : EStateM.Result Unwinding Cursor α → Prop
  | .ok value after => before.SameContext after ∧ Gathers start after.place (gained value)
  | .error _ after => before.SameContext after ∧ Gathers start after.place []

/-- A rule that was begun at a cursor in the same context might have been begun here. -/
theorem Gained.from_ {α : Type} {start : Place} {before between : Cursor} {gained : α → List Piece}
    {result : EStateM.Result Unwinding Cursor α} (outcome : Gained start between gained result)
    (same : before.SameContext between)
    : Gained start before gained result := by
  cases result with
  | ok value after => exact ⟨same.trans outcome.1, outcome.2⟩
  | error unwinding after => exact ⟨same.trans outcome.1, outcome.2⟩

/-- Inside so many loops, and with the pieces in hand, the rule reads on and has in hand in the end
what it yields. -/
def Gathering {α : Type} (depth : Nat) (held : List Piece) (rule : Rule α)
    (gained : α → List Piece)
    : Prop :=
  ∀ (start : Place) (before : Cursor),
    before.loopDepth = depth
    → Gathers start before.place held
    → Gained start before gained (rule before)

/-- The same where the token ahead is known. -/
def Facing {α : Type} (token : Token) (depth : Nat) (held : List Piece) (rule : Rule α)
    (gained : α → List Piece)
    : Prop :=
  ∀ (start : Place) (before : Cursor),
    before.next = token
    → before.loopDepth = depth
    → Gathers start before.place held
    → Gained start before gained (rule before)

namespace Gathering

variable {α β : Type} {depth : Nat} {held : List Piece}

/-- What gathers wherever it stands also gathers in front of a given token. -/
theorem facing {rule : Rule α} {gained : α → List Piece} (gathering : Gathering depth held rule gained)
    (token : Token)
    : Facing token depth held rule gained :=
  fun start before _ => gathering start before

/-- Unwinding gathers nothing, since there is no value. -/
theorem throw {unwinding : Unwinding} {gained : α → List Piece}
    : Gathering depth held (MonadExcept.throw unwinding) gained :=
  fun _ before _ gathered => ⟨.refl before, gathered.forget⟩

/-- What is yielded is among the pieces in hand. -/
theorem pure {value : α} {gained : α → List Piece} (listed : gained value ⊆ held)
    : Gathering depth held (Pure.pure value) gained :=
  fun _ before _ gathered => ⟨.refl before, gathered.among listed⟩

/-- What is yielded is formed of the pieces in hand. -/
theorem form {value : α} {gained : α → List Piece} {pieces : List Piece} {piece : Piece}
    (forms : Forms pieces piece) (listed : pieces ⊆ held) (yielded : gained value = [piece])
    : Gathering depth held (Pure.pure value) gained :=
  fun _ before _ gathered => ⟨.refl before, yielded ▸ gathered.form forms listed⟩

/-- Two rules in a row gather the pieces of both, the first ones held in front of the second rule.
-/
theorem bind {rule : Rule α} {next : α → Rule β} {between : α → List Piece}
    {gained : β → List Piece} (first : Gathering depth held rule between)
    (second : ∀ value, Gathering depth (between value) (next value) gained)
    : Gathering depth held (rule >>= next) gained := by
  intro start before inside gathered
  have front := first start before inside gathered
  change Gained start before gained (EStateM.bind rule next before)
  unfold EStateM.bind
  revert front
  cases rule before with
  | error unwinding after => exact id
  | ok value after =>
      rintro ⟨same, gathered⟩
      exact (second value start after (same.loopDepth.trans inside) gathered).from_ same

/-- Pieces may be replaced by others that any two places gather as well. -/
theorem weaken {rule : Rule α} {gained gained' : α → List Piece}
    (gathering : Gathering depth held rule gained)
    (weaker
      : ∀ {first second} value,
          Gathers first second (gained value) → Gathers first second (gained' value))
    : Gathering depth held rule gained' := by
  intro start before inside gathered
  have result := gathering start before inside gathered
  revert result
  cases rule before with
  | error unwinding after => exact id
  | ok value after => exact fun ⟨same, gathered⟩ => ⟨same, weaker value gathered⟩

/-- Pieces that a rule does not touch stay in hand. -/
theorem frame {rule : Rule α} {gained : α → List Piece} (gathering : Gathering depth [] rule gained)
    (held : List Piece)
    : Gathering depth held rule fun value => held ++ gained value := by
  intro start before inside gathered
  have result := gathering before.place before inside .nothing
  revert result
  cases rule before with
  | error unwinding after => exact fun ⟨same, nothing⟩ => ⟨same, gathered.forget.then_ nothing⟩
  | ok value after => exact fun ⟨same, gained⟩ => ⟨same, gathered.append gained⟩

/-- More pieces in hand than a rule needs do no harm. -/
theorem among {rule : Rule α} {gained : α → List Piece} {pieces : List Piece}
    (gathering : Gathering depth pieces rule gained) (listed : pieces ⊆ held)
    : Gathering depth held rule gained :=
  fun start before inside gathered => gathering start before inside (gathered.among listed)

/-- Pieces in hand may be formed to one more. -/
theorem forming {rule : Rule α} {gained : α → List Piece} {pieces : List Piece} {piece : Piece}
    (gathering : Gathering depth (piece :: held) rule gained) (forms : Forms pieces piece)
    (listed : pieces ⊆ held)
    : Gathering depth held rule gained :=
  fun start before inside gathered =>
    gathering start before inside (gathered.formed forms listed)

/-- A rule adds what it yields to the pieces in hand. -/
theorem step {rule : Rule α} {next : α → Rule β} {between : α → List Piece}
    {gained : β → List Piece} (first : Gathering depth [] rule between)
    (second : ∀ value, Gathering depth (held ++ between value) (next value) gained)
    : Gathering depth held (rule >>= next) gained :=
  (first.frame held).bind second

/-- A rule of which only the pieces matter that were in hand before. -/
theorem pass {rule : Rule α} {next : α → Rule β} {between : α → List Piece}
    {gained : β → List Piece} (first : Gathering depth [] rule between)
    (second : ∀ value, Gathering depth held (next value) gained)
    : Gathering depth held (rule >>= next) gained :=
  .bind ((first.frame held).weaken fun _ gathered => gathered.among (by simp)) second

/-- Changing the value that a rule yields changes the pieces it stands for. -/
theorem map {rule : Rule α} {change : α → β} {gained : α → List Piece} {gained' : β → List Piece}
    (gathering : Gathering depth held rule gained)
    (mapped
      : ∀ {first second} value,
          Gathers first second (gained value) → Gathers first second (gained' (change value)))
    : Gathering depth held (change <$> rule) gained' := by
  intro start before inside gathered
  have result := gathering start before inside gathered
  change Gained start before gained' (EStateM.map change rule before)
  unfold EStateM.map
  revert result
  cases rule before with
  | error unwinding after => exact id
  | ok value after => exact fun ⟨same, gathered⟩ => ⟨same, mapped value gathered⟩

/-- A rule that goes on from the cursor it is met with. -/
theorem get {next : Cursor → Rule β} {gained : β → List Piece}
    (second : ∀ cursor, Gathering depth held (next cursor) gained)
    : Gathering depth held (MonadState.get >>= next) gained :=
  fun start before => second before start before

/-- The next token is known to what follows it. -/
theorem next {next : Token → Rule β} {gained : β → List Piece}
    (second : ∀ token, Facing token depth held (next token) gained)
    : Gathering depth held (Grammar.next >>= next) gained :=
  fun start before => second before.next start before rfl

/-- What follows gathers with both answers, so that asking for a kind changes nothing. -/
theorem nextIs {kind : TokenKind} {next : Bool → Rule β} {gained : β → List Piece}
    (second : ∀ found, Gathering depth held (next found) gained)
    : Gathering depth held (Grammar.nextIs kind >>= next) gained :=
  fun start before => second (before.nextIsAny [kind]) start before

/-- What follows gathers with both answers, so that asking for the end changes nothing. -/
theorem atEnd {next : Bool → Rule β} {gained : β → List Piece}
    (second : ∀ ends, Gathering depth held (next ends) gained)
    : Gathering depth held (Grammar.atEnd >>= next) gained :=
  fun start before => second before.atEnd start before

/-- A context that is taken back gathers what is gathered in it. -/
theorem inContext {rule : Rule α} {gained : α → List Piece} {enter : Cursor → Cursor}
    {leave : Cursor → Cursor → Cursor} {inner : Nat} (back : TakesBack enter leave)
    (gathering : Gathering inner held rule gained)
    (entered
      : ∀ cursor : Cursor,
          cursor.loopDepth = depth
          → (enter cursor).loopDepth = inner ∧ (enter cursor).place = cursor.place)
    : Gathering depth held (Grammar.inContext enter leave rule) gained := by
  intro start before inside gathered
  obtain ⟨deep, samePlace⟩ := entered before inside
  have result := gathering start (enter before) deep (samePlace ▸ gathered)
  unfold Grammar.inContext
  revert result
  cases rule (enter before) with
  | error unwinding after =>
      rintro ⟨same, nothing⟩
      simp only [back before after same.loopDepth same.commaEnabled]
      exact ⟨⟨rfl, rfl⟩, nothing⟩
  | ok value after =>
      rintro ⟨same, gained⟩
      simp only [back before after same.loopDepth same.commaEnabled]
      exact ⟨⟨rfl, rfl⟩, gained⟩

/-- Switching the comma operator gathers what is gathered inside. -/
theorem withComma {rule : Rule α} {gained : α → List Piece}
    (gathering : Gathering depth held rule gained) (enabled : Bool)
    : Gathering depth held (Grammar.withComma enabled rule) gained :=
  .inContext (takesBack_withComma enabled) gathering fun _ inside => ⟨inside, rfl⟩

/-- Outside of loops a rule gathers the pieces of depth zero. -/
theorem outsideLoops {rule : Rule α} {gained : α → List Piece}
    (gathering : Gathering 0 held rule gained)
    : Gathering depth held (Grammar.outsideLoops rule) gained :=
  .inContext takesBack_outsideLoops gathering fun _ _ => ⟨rfl, rfl⟩

/-- Inside of a loop a rule gathers the pieces of one depth more. -/
theorem insideLoop {rule : Rule α} {gained : α → List Piece}
    (gathering : Gathering (depth + 1) held rule gained)
    : Gathering depth held (Grammar.insideLoop rule) gained :=
  .inContext takesBack_insideLoop gathering fun _ inside => ⟨congrArg (· + 1) inside, rfl⟩

end Gathering

-----
-- Tokens

/-- The rule takes the next token if it is of one of the kinds, and otherwise nothing. -/
def Tries (kinds : List TokenKind) (rule : Rule (Option Token)) : Prop :=
  ∀ cursor : Cursor,
    rule cursor = .ok none cursor
    ∨ cursor.next.kind ∈ kinds
      ∧ cursor.next.kind ≠ .endOfInput
      ∧ rule cursor = .ok (some cursor.next) cursor.drop

/-- Trying tokens of some kinds reads one of them or nothing. -/
theorem tries_acceptAny? (kinds : List TokenKind) : Tries kinds (acceptAny? kinds) := by
  intro cursor
  unfold acceptAny?
  by_cases found : cursor.nextIsAny kinds = true
  · refine .inr ?_
    obtain ⟨notEnd, listed⟩ := Bool.and_eq_true_iff.1 (show (_ && _) = true from found)
    refine ⟨List.contains_iff_mem.1 listed, ?_, if_pos found⟩
    simpa [Cursor.atEnd] using notEnd
  · exact .inl (if_neg found)

/-- Trying the comma operator reads a comma or nothing. -/
theorem tries_commaOperator? : Tries [.comma] commaOperator? := by
  intro cursor
  have unfolded
      : commaOperator? cursor
        = (if cursor.commaEnabled then accept? .comma else return none) cursor :=
    rfl
  rw [unfolded]
  split
  · exact tries_acceptAny? [.comma] cursor
  · exact .inl rfl

/-- The token that is called for is taken, or its absence is reported. -/
theorem expect_cases (kind : TokenKind) (item : Expected) (cursor : Cursor)
    : cursor.next.kind = kind
        ∧ cursor.next.kind ≠ .endOfInput
        ∧ expect kind item cursor = .ok cursor.next cursor.drop
      ∨ expect kind item cursor
        = .error .mistake (cursor.report cursor.next (.expected item)) := by
  have unfolded : expect kind item cursor = EStateM.bind (accept? kind) _ cursor := rfl
  rw [unfolded]
  unfold EStateM.bind
  obtain same | ⟨listed, inside, taken⟩ := tries_acceptAny? [kind] cursor
  · refine .inr ?_
    rw [accept?, same]
    rfl
  · refine .inl ⟨List.mem_singleton.1 listed, inside, ?_⟩
    rw [accept?, taken]
    rfl

namespace Gathering

variable {α β : Type} {depth : Nat} {held : List Piece} {gained : β → List Piece}

/-- A rule that goes on behind a token that was taken. -/
theorem dropped {rule : Rule β} {start : Place} {before : Cursor}
    (gathering : Gathering depth (held ++ [.token before.next]) rule gained)
    (notEnd : before.next.kind ≠ .endOfInput) (inside : before.loopDepth = depth)
    (gathered : Gathers start before.place held)
    : Gained start before gained (rule before.drop) := by
  have same := before.sameContext_drop
  have taken := gathered.append (Cursor.gathers_drop notEnd)
  exact (gathering start before.drop (same.loopDepth.trans inside) taken).from_ same

/-- Behind a token that may be missing both ways have to gather, with the token held or without it.
-/
theorem try_ {kinds : List TokenKind} {rule : Rule (Option Token)} (tries : Tries kinds rule)
    {next : Option Token → Rule β} (none : Gathering depth held (next none) gained)
    (some
      : ∀ token,
          token.kind ∈ kinds → Gathering depth (held ++ [.token token]) (next (some token)) gained)
    : Gathering depth held (rule >>= next) gained := by
  intro start before inside gathered
  change Gained start before gained (EStateM.bind rule next before)
  unfold EStateM.bind
  obtain same | ⟨listed, notEnd, taken⟩ := tries before
  · rw [same]
    exact none start before inside gathered
  · rw [taken]
    exact (some before.next listed).dropped notEnd inside gathered

/-- The token need not be kept. -/
theorem accept {kind : TokenKind} {next : Bool → Rule β}
    (second : ∀ found, Gathering depth held (next found) gained)
    : Gathering depth held (Grammar.accept kind >>= next) gained := by
  have forgets : Gathering depth [] (Grammar.accept kind) fun _ => [] :=
    .try_ (tries_acceptAny? [kind]) (.pure (List.nil_subset _)) fun _ _ =>
      .pure (List.nil_subset _)
  exact forgets.pass second

/-- A syntactic report gathers nothing by itself. -/
theorem report (token : Token) {problem : Problem} (syntactic : problem.isSyntactic = true)
    (other : problem ≠ .breakOutsideLoop)
    : Gathering depth [] (Grammar.report token problem) fun _ => [] :=
  fun _ before _ gathered =>
    ⟨⟨rfl, rfl⟩, gathered.then_ (before.gathers_report token syntactic other)⟩

/-- A syntactic mistake gathers nothing, since it unwinds. -/
theorem fail (token : Token) {problem : Problem} (syntactic : problem.isSyntactic = true)
    (other : problem ≠ .breakOutsideLoop)
    : Gathering depth held (Grammar.fail token problem) gained :=
  (report token syntactic other).pass fun _ => .throw

/-- A token that has to be there is held in front of what follows. -/
theorem expect {kind : TokenKind} {item : Expected} {next : Token → Rule β}
    (second
      : ∀ token, token.kind = kind → Gathering depth (held ++ [.token token]) (next token) gained)
    : Gathering depth held (Grammar.expect kind item >>= next) gained := by
  intro start before inside gathered
  change Gained start before gained (EStateM.bind (Grammar.expect kind item) next before)
  unfold EStateM.bind
  obtain ⟨found, notEnd, taken⟩ | missed := expect_cases kind item before
  · rw [taken]
    exact (second before.next found).dropped notEnd inside gathered
  · rw [missed]
    have told : Gathers before.place (before.report before.next (.expected item)).place [] :=
      before.gathers_report before.next rfl nofun
    exact ⟨⟨rfl, rfl⟩, gathered.forget.then_ told⟩

/-- A name that has to be there is held in front of what follows. -/
theorem expectName {item : Expected} {next : Token → Rule β}
    (second : ∀ name, Gathering depth (.name name :: held) (next name) gained)
    : Gathering depth held (Grammar.expect .identifier item >>= next) gained :=
  .expect fun token kind =>
    .forming ((second token).among (by simp)) (.name kind) (by simp)

end Gathering

end Lox.Grammar
