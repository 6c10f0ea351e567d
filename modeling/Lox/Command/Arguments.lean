import Lox.Command.Quoted

/-! The arguments of the command line.

Options may stand before or behind the script. A word behind `--` is never an option. Words that
no rule takes are collected, and refused when all others have been read.
-/

namespace Lox.Command

-----
-- What can be asked for

/-- How expressions are listed. -/
inductive ListingStyle where
  | parenthesized
  | reversePolish
deriving DecidableEq, Repr

def ListingStyle.name : ListingStyle → String
  | .parenthesized => "infix"
  | .reversePolish => "rpn"

def ListingStyle.ofName? (name : String) : Option ListingStyle :=
  [ListingStyle.parenthesized, .reversePolish].find? fun style => style.name = name

/-- What the arguments ask for. -/
inductive Invocation where
  | prompt (traceLevel : Nat)
  | script (traceLevel : Nat) (path : String)
  | listing (style : ListingStyle) (path : String)
deriving DecidableEq, Repr

/-- Why there is nothing to run. -/
inductive Refusal where
  /-- The help text was asked for. -/
  | help
  | listingNeedsScript
  | unknownStyle (name : String)
  | styleMissing
  /-- Text was attached to a flag, which takes none. -/
  | attachedText (flag text : String)
  | unrecognized (words : List String)
deriving DecidableEq, Repr

def Refusal.reason : Refusal → String
  | .help => ""
  | .listingNeedsScript => "--print-ast needs a script"
  | .unknownStyle name =>
      "argument --print-ast: invalid choice: " ++ quoted name ++ " (choose from 'infix', 'rpn')"
  | .styleMissing => "argument --print-ast: expected one argument"
  | .attachedText flag text =>
      "argument " ++ flag ++ ": ignored explicit argument " ++ quoted text
  | .unrecognized words => "unrecognized arguments: " ++ " ".intercalate words

-----
-- Words

/-- Options that take no text. -/
inductive Flag where
  | help
  | verbose
deriving DecidableEq, Repr

def Flag.label : Flag → String
  | .help => "-h/--help"
  | .verbose => "-v"

/-- What a word in front of `--` is. -/
inductive Word where
  /-- Not an option: a script, or the style of a listing. -/
  | plain
  /-- A flag with the text that follows it in the same word. -/
  | flag (flag : Flag) (rest : List Char)
  | helpOption (attached : Option (List Char))
  | listingOption (attached : Option (List Char))
  | unknown
deriving DecidableEq, Repr

def isDigit (c : Char) : Bool :=
  '0' ≤ c && c ≤ '9'

/-- A negative number is no option. -/
def isNegativeNumber (cs : List Char) : Bool :=
  match cs with
  | '-' :: magnitude =>
      match magnitude.dropWhile isDigit with
      | [] => !magnitude.isEmpty
      | '.' :: fraction => !fraction.isEmpty && fraction.all isDigit
      | _ => false
  | _ => false

/-- The front of a word up to the first equals sign, and the text behind it. -/
def splitAttached (cs : List Char) : List Char × Option (List Char) :=
  match cs.dropWhile (· != '=') with
  | [] => (cs, none)
  | _ :: text => (cs.takeWhile (· != '='), some text)

/-- A long option may be cut short as long as no other begins alike. -/
def longOption (cs : List Char) : Word :=
  let (name, attached) := splitAttached cs
  if name.isEmpty then .unknown
  else if name.isPrefixOf "print-ast".toList then .listingOption attached
  else if name.isPrefixOf "help".toList then .helpOption attached
  else .unknown

def classify (word : String) : Word :=
  match word.toList with
  | '-' :: '-' :: name =>
      match longOption name with
      | .unknown => if word.toList.contains ' ' then .plain else .unknown
      | option => option
  | ['-'] => .plain
  | '-' :: 'v' :: rest => .flag .verbose rest
  | '-' :: 'h' :: rest => .flag .help rest
  | '-' :: rest =>
      if isNegativeNumber ('-' :: rest) || rest.contains ' ' then .plain else .unknown
  | _ => .plain

-----
-- Flags in one word

/-- The flags of a word, and what is left of it when something else follows them. -/
structure Cluster where
  flags : List Flag
  leftover : Option String
deriving DecidableEq, Repr

def Cluster.cons (flag : Flag) (cluster : Cluster) : Cluster :=
  { cluster with flags := flag :: cluster.flags }

/-- Reads the text behind a flag as further flags. -/
def Cluster.behind (flag : Flag) : List Char → Except Refusal Cluster
  | [] => .ok { flags := [flag], leftover := none }
  | '=' :: text => .error (.attachedText flag.label (String.ofList text))
  | '-' :: text => .error (.attachedText flag.label (String.ofList ('-' :: text)))
  | 'v' :: rest => (Cluster.behind .verbose rest).map (Cluster.cons flag)
  | 'h' :: rest => (Cluster.behind .help rest).map (Cluster.cons flag)
  | text => .ok { flags := [flag], leftover := some (String.ofList ('-' :: text)) }

-----
-- Whole command lines

/-- What the arguments read so far have settled. -/
structure Reading where
  traceLevel : Nat
  style : Option ListingStyle
  script : Option String
  /-- The word before was taken as the script. -/
  scriptJustTaken : Bool
  unrecognized : List String

def Reading.start : Reading :=
  { traceLevel := 0, style := none, script := none, scriptJustTaken := false, unrecognized := [] }

def Reading.leave (reading : Reading) (words : List String) : Reading :=
  { reading with unrecognized := reading.unrecognized ++ words, scriptJustTaken := false }

def Reading.takePlain (reading : Reading) (word : String) : Reading :=
  if reading.script.isNone then
    { reading with script := some word, scriptJustTaken := true }
  else
    reading.leave [word]

/-- The words from the first `--` on. It is dropped if the script stands next to it. -/
def Reading.takeTail (reading : Reading) (separator : String) (words : List String) : Reading :=
  match reading.script, words with
  | none, [] => reading
  | none, script :: rest => ({ reading with script := some script }).leave rest
  | some _, words =>
      if reading.scriptJustTaken then reading.leave words else reading.leave (separator :: words)

def Reading.takeFlags (reading : Reading) (cluster : Cluster) : Except Refusal Reading :=
  if cluster.flags.contains .help then
    .error .help
  else
    .ok
      ({ reading with traceLevel := reading.traceLevel + cluster.flags.length }.leave
        cluster.leftover.toList)

def Reading.takeStyle (reading : Reading) (name : String) : Except Refusal Reading :=
  match ListingStyle.ofName? name with
  | some style => .ok { reading with style := some style, scriptJustTaken := false }
  | none => .error (.unknownStyle name)

def Reading.words (reading : Reading) : List String → Except Refusal Reading
  | [] => .ok reading
  | "--" :: rest => .ok (reading.takeTail "--" rest)
  | word :: rest =>
      match classify word with
      | .plain => (reading.takePlain word).words rest
      | .unknown => (reading.leave [word]).words rest
      | .flag flag text =>
          match (Cluster.behind flag text).bind reading.takeFlags with
          | .error refusal => .error refusal
          | .ok after => after.words rest
      | .helpOption none => .error .help
      | .helpOption (some text) =>
          .error (.attachedText Flag.help.label (String.ofList text))
      | .listingOption (some name) =>
          match reading.takeStyle (String.ofList name) with
          | .error refusal => .error refusal
          | .ok after => after.words rest
      | .listingOption none =>
          match rest with
          | [] => .error .styleMissing
          | name :: rest =>
              if name = "--" || classify name ≠ .plain then
                .error .styleMissing
              else
                match reading.takeStyle name with
                | .error refusal => .error refusal
                | .ok after => after.words rest

def Reading.invocation (reading : Reading) : Except Refusal Invocation :=
  if !reading.unrecognized.isEmpty then
    .error (.unrecognized reading.unrecognized)
  else
    match reading.script, reading.style with
    | none, none => .ok (.prompt reading.traceLevel)
    | none, some _ => .error .listingNeedsScript
    | some path, none => .ok (.script reading.traceLevel path)
    | some path, some style => .ok (.listing style path)

/-- What a list of arguments asks for. -/
def Invocation.ofArguments (arguments : List String) : Except Refusal Invocation := do
  (← Reading.start.words arguments).invocation

end Lox.Command
