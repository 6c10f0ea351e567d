import Lox.Value.Basic

/-! What a run can tell about itself while it goes on. -/

namespace Lox

/-- What a trace tells of. -/
inductive TraceEvent where
  | defineVariable (name : String) (value : Value)
  | defineFunction (name : String)
  | defineClass (name : String) (superclass : Option String) (methods : Nat)
  | condition (value : Value)
  | call (callee : Value) (arguments line : Nat)

namespace TraceEvent

/-- The least trace level at which an event is told. -/
def level : TraceEvent → Nat
  | .defineVariable .. | .defineFunction .. | .defineClass .. => 2
  | .condition .. | .call .. => 3

def text : TraceEvent → String
  | .defineVariable name value => "define " ++ name ++ " = " ++ value.text
  | .defineFunction name => "define function " ++ name
  | .defineClass name superclass methods =>
      let above :=
        match superclass with
        | none => ""
        | some superclass => " < " ++ superclass
      "define class " ++ name ++ above ++ " with " ++ toString methods ++ " methods"
  | .condition value =>
      "if condition " ++ value.text ++ " -> " ++ (if value.isTruthy then "True" else "False")
  | .call callee arguments line =>
      "call " ++ callee.text ++ " with " ++ toString arguments ++ " arguments (line "
        ++ toString line ++ ")"

end TraceEvent

/-- One event a line. -/
def traceText (events : Array TraceEvent) : String :=
  events.foldl (fun text event => text ++ event.text ++ "\n") ""

end Lox
