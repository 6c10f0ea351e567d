import Lox.Proofs.Program
import Lox.Proofs.Tracing.Actions

/-! Sessions that are traced in different ways.

Their reports are the same, and so are the machines that they end with, but for the traces. The
traces themselves differ in which events are told of, and in where.
-/

namespace Lox

namespace TraceEvent

/-- The event is about the way that a run takes, and not about what it defines. -/
def isControl : TraceEvent → Bool
  | .condition _ | .call .. => true
  | .defineVariable .. | .defineFunction _ | .defineClass .. => false

/-- No event is told below level two. -/
theorem two_le_level (event : TraceEvent) : 2 ≤ event.level := by
  cases event <;> simp [level]

/-- Every event is told at level three. -/
theorem level_le_three (event : TraceEvent) : event.level ≤ 3 := by
  cases event <;> simp [level]

/-- Level two tells the events that are no control events. -/
theorem level_le_two (event : TraceEvent) : event.level ≤ 2 ↔ event.isControl = false := by
  cases event <;> simp [level, isControl]

end TraceEvent

-----
-- Events that are told of

namespace Tracing

/-- The events that are told of at a level. -/
def heard (level : Nat) (events : List TraceEvent) : Array TraceEvent :=
  (events.filter fun event => event.level ≤ level).toArray

/-- An event is heard if its level is reached. -/
theorem heard_cons (level : Nat) (event : TraceEvent) (events : List TraceEvent)
    : heard level (event :: events)
        = (if event.level ≤ level then #[event] else #[]) ++ heard level events := by
  unfold heard
  by_cases told : event.level ≤ level <;> simp [told]

/-- Events in a row are heard in their order. -/
theorem heard_append (level : Nat) (front back : List TraceEvent)
    : heard level (front ++ back) = heard level front ++ heard level back := by
  simp [heard]

/-- With an open file the events go to the file. -/
theorem tellAll_open {tracing : Tracing} (isOpen : tracing.fileOpen = true)
    (events : List TraceEvent)
    : tracing.tellAll events
        = { tracing with file := tracing.file ++ heard tracing.level events } := by
  induction events generalizing tracing with
  | nil => simp [tellAll, heard]
  | cons event rest ih =>
      change (tracing.tell event).tellAll rest = _
      rw [heard_cons]
      unfold tell
      by_cases told : event.level ≤ tracing.level
      · rw [if_pos told, if_pos isOpen, if_pos told]
        let next : Tracing := { tracing with file := tracing.file.push event }
        have stillOpen : next.fileOpen = true := isOpen
        refine (ih stillOpen).trans ?_
        simp [next]
      · rw [if_neg told, if_neg told, ih isOpen]
        simp

/-- With the file closed the events go to the console. -/
theorem tellAll_closed {tracing : Tracing} (isClosed : tracing.fileOpen = false)
    (events : List TraceEvent)
    : tracing.tellAll events
        = { tracing with console := tracing.console ++ heard tracing.level events } := by
  induction events generalizing tracing with
  | nil => simp [tellAll, heard]
  | cons event rest ih =>
      change (tracing.tell event).tellAll rest = _
      rw [heard_cons]
      unfold tell
      have notOpen : ¬tracing.fileOpen = true := by simp [isClosed]
      by_cases told : event.level ≤ tracing.level
      · rw [if_pos told, if_neg notOpen, if_pos told]
        let next : Tracing := { tracing with console := tracing.console.push event }
        have stillClosed : next.fileOpen = false := isClosed
        refine (ih stillClosed).trans ?_
        simp [next]
      · rw [if_neg told, if_neg told, ih isClosed]
        simp

/-- Below level two nothing is heard. -/
theorem heard_quiet {level : Nat} (low : level < 2) (events : List TraceEvent)
    : heard level events = #[] := by
  unfold heard
  rw [List.filter_eq_nil_iff.2 fun event _ => ?_]
  have high := event.two_le_level
  simp
  omega

/-- Level two hears what level three hears, without the control events. -/
theorem heard_definitions {level : Nat} (high : 3 ≤ level) (events : List TraceEvent)
    : heard 2 events = (heard level events).filter fun event => !event.isControl := by
  unfold heard
  have all : events.filter (fun event => decide (event.level ≤ level)) = events := by
    refine List.filter_eq_self.2 fun event _ => ?_
    exact decide_eq_true (Nat.le_trans event.level_le_three high)
  rw [all, List.filter_toArray]
  refine congrArg (fun p => (events.filter p).toArray) (funext fun event => ?_)
  have same := event.level_le_two
  cases control : event.isControl <;> simp [control] at same ⊢ <;> omega

end Tracing

-----
-- Programs and sessions

section

variable (limits : Limits)

open Running (conduct_traces)

/-- A program tells the same events under every tracing and runs alike. -/
theorem runProgram_traced (program : Program) (machine : Machine)
    : ∃ events, ∀ tracing : Tracing,
        (machine.traced tracing).runProgram limits program
          = ((machine.runProgram limits program).1,
              (machine.runProgram limits program).2.traced (tracing.tellAll events)) := by
  let evaluator := Evaluator.ofNesting limits.rounds limits.nesting
  have traces := conduct_traces.every limits.rounds limits.nesting (.program program.statements)
  obtain ⟨events, traced⟩ := traces { machine with output := "" }
  refine ⟨events, fun tracing => ?_⟩
  have run
      : evaluator.executeProgram program.statements { machine.traced tracing with output := "" }
          = Running.retraced (tracing.tellAll events)
              (evaluator.executeProgram program.statements { machine with output := "" }) :=
    traced tracing
  cases outcome : evaluator.executeProgram program.statements { machine with output := "" } with
  | ok done after =>
      rw [outcome] at run
      rw [Machine.runProgram_ok outcome]
      exact Machine.runProgram_ok run
  | error fault after =>
      rw [outcome] at run
      rw [Machine.runProgram_error outcome]
      exact Machine.runProgram_error run

/-- A source tells the same events under every tracing and runs alike. -/
theorem runSource_traced (allowExpression : Bool) (source : String) (machine : Machine)
    : ∃ events, ∀ tracing : Tracing,
        (machine.traced tracing).runSource limits allowExpression source
          = ((machine.runSource limits allowExpression source).1,
              (machine.runSource limits allowExpression source).2.traced
                (tracing.tellAll events)) := by
  let program := Program.ofSource allowExpression machine.globalNames source limits.depth
  cases accepted : program.accepted with
  | true =>
      obtain ⟨events, traced⟩ := runProgram_traced limits program machine
      refine ⟨events, fun tracing => ?_⟩
      have accepted'
          : (Program.ofSource allowExpression (machine.traced tracing).globalNames source
              limits.depth).accepted
            = true :=
        accepted
      rw [Machine.runSource_accepted accepted, Machine.runSource_accepted accepted']
      exact traced tracing
  | false =>
      refine ⟨[], fun tracing => ?_⟩
      have rejected
          : (Program.ofSource allowExpression (machine.traced tracing).globalNames source
              limits.depth).accepted
            = false :=
        accepted
      rw [Machine.runSource_rejected accepted, Machine.runSource_rejected rejected]
      rfl

/-- A session tells the same events under every tracing and runs alike, by induction on its steps.
-/
theorem runSession_traced (steps : List (Bool × String)) (machine : Machine)
    : ∃ events, ∀ tracing : Tracing,
        (machine.traced tracing).runSession limits steps
          = ((machine.runSession limits steps).1,
              (machine.runSession limits steps).2.traced (tracing.tellAll events)) := by
  induction steps generalizing machine with
  | nil => exact ⟨[], fun tracing => rfl⟩
  | cons step rest ih =>
      obtain ⟨events, traced⟩ := runSource_traced limits step.1 step.2 machine
      obtain ⟨later, tracedRest⟩ := ih (machine.runSource limits step.1 step.2).2
      refine ⟨events ++ later, fun tracing => ?_⟩
      unfold Machine.runSession
      simp only [traced tracing, tracedRest, tracing.tellAll_append]

end

-----
-- Levels, and where the trace goes

/-- A trace that is kept in a file, if at all. -/
def Tracing.kept (level : Nat) (file : Array TraceEvent) : Tracing :=
  { level, fileOpen := 0 < level, file, console := #[] }

/-- A tracing that keeps its file adds the events that are heard. -/
theorem Tracing.tellAll_kept (level : Nat) (file : Array TraceEvent) (events : List TraceEvent)
    : (kept level file).tellAll events = kept level (file ++ heard level events) := by
  by_cases traced : 0 < level
  · exact tellAll_open (decide_eq_true traced) events
  · obtain rfl := Nat.eq_zero_of_not_pos traced
    refine (tellAll_closed rfl events).trans ?_
    simp [kept, heard_quiet]

/-- A session at a trace level, whose trace file may be closed between two of its steps. -/
def tracedSession (limits : Limits) (readings : Nat → Float) (earlier later : List (Bool × String))
    (level : Nat) (closed : Bool)
    : List Report × Machine :=
  let first := (Machine.start level readings).runSession limits earlier
  let second := (if closed then first.2.closeTrace else first.2).runSession limits later
  (first.1 ++ second.1, second.2)

/-- What the trace is in the end, given the events of both parts of a session. -/
def Tracing.ending (earlier later : List TraceEvent) (level : Nat) (closed : Bool) : Tracing :=
  if closed then
    { level, fileOpen := false, file := heard level earlier, console := heard level later }
  else
    kept level (heard level (earlier ++ later))

/-- Only the trace depends on how a session is traced, and it depends on its events alone. -/
theorem tracedSession_ending (limits : Limits) (readings : Nat → Float)
    (earlier later : List (Bool × String))
    : ∃ (reports : List Report) (machine : Machine) (events events' : List TraceEvent), ∀ level,
        ((Machine.start level readings).runSession limits earlier).2.fileTrace
            = Tracing.heard level events
        ∧ ∀ closed,
            tracedSession limits readings earlier later level closed
              = (reports, machine.traced (.ending events events' level closed)) := by
  let start := Machine.start 0 readings
  let first := start.runSession limits earlier
  obtain ⟨events, traced⟩ := runSession_traced limits earlier start
  obtain ⟨events', traced'⟩ := runSession_traced limits later first.2
  let second := first.2.runSession limits later
  refine ⟨first.1 ++ second.1, second.2, events, events', fun level => ?_⟩
  have front
      : (Machine.start level readings).runSession limits earlier
          = (first.1, first.2.traced (.kept level (Tracing.heard level events))) := by
    have run := traced (.kept level #[])
    rw [Tracing.tellAll_kept, Array.empty_append] at run
    exact run
  refine ⟨by rw [front]; rfl, fun closed => ?_⟩
  unfold tracedSession
  rw [front]
  cases closed with
  | false =>
      have back := traced' (.kept level (Tracing.heard level events))
      rw [Tracing.tellAll_kept] at back
      simp only [Bool.false_eq_true, if_false, back]
      simp [Tracing.ending, Tracing.heard_append, first, second]
  | true =>
      let tracing : Tracing :=
        { level, fileOpen := false, file := Tracing.heard level events, console := #[] }
      have closing
          : (first.2.traced (.kept level (Tracing.heard level events))).closeTrace
              = first.2.traced tracing :=
        rfl
      have back := traced' tracing
      rw [Tracing.tellAll_closed rfl] at back
      simp only [if_true, closing, back]
      simp [Tracing.ending, tracing, first, second]

/-- The machine as if it had never been traced. -/
def Machine.untraced (machine : Machine) : Machine :=
  machine.traced (.kept 0 #[])

/-- How the sessions compare that differ only in their trace levels and in whether the trace file
is closed at some point. -/
structure TraceHarmless (session : Nat → Bool → List Report × Machine)
    (begun : Nat → List Report × Machine) : Prop where
  /-- What is reported and printed is the same. -/
  reports (level level' : Nat) (closed closed' : Bool)
    : (session level closed).1 = (session level' closed').1
  /-- So are the machines in the end, but for their traces. -/
  machines (level level' : Nat) (closed closed' : Bool)
    : (session level closed).2.untraced = (session level' closed').2.untraced
  /-- Below level 2 nothing is told. -/
  quiet (level : Nat) (closed : Bool) (low : level < 2)
    : (session level closed).2.fileTrace = #[] ∧ (session level closed).2.consoleTrace = #[]
  /-- At level 2 all is told that is told from level 3 on, but for conditions and calls. -/
  definitions (level : Nat) (closed : Bool) (high : 3 ≤ level)
    : (session 2 closed).2.fileTrace
          = (session level closed).2.fileTrace.filter (!·.isControl)
      ∧ (session 2 closed).2.consoleTrace
          = (session level closed).2.consoleTrace.filter (!·.isControl)
  /-- What the file would have been told of after it is closed goes to the console, in order. -/
  redirected (level : Nat)
    : (session level true).2.fileTrace = (begun level).2.fileTrace
      ∧ (session level false).2.fileTrace
          = (session level true).2.fileTrace ++ (session level true).2.consoleTrace
      ∧ (session level false).2.consoleTrace = #[]

/-- Tracing a session changes nothing but the trace, whatever the session has run before and
whether or not its steps fail. -/
theorem tracing_harmless (limits : Limits) (readings : Nat → Float)
    (earlier later : List (Bool × String))
    : TraceHarmless (tracedSession limits readings earlier later)
        (fun level => (Machine.start level readings).runSession limits earlier) := by
  obtain ⟨reports, machine, events, events', ending⟩ :=
    tracedSession_ending limits readings earlier later
  have session (level : Nat) := (ending level).2
  refine ⟨fun _ _ _ _ => ?_, fun _ _ _ _ => ?_, fun level closed low => ?_,
    fun level closed high => ?_, fun level => ?_⟩
  · rw [session, session]
  · rw [session, session]
    rfl
  · rw [session]
    cases closed with
    | false => exact ⟨Tracing.heard_quiet low _, rfl⟩
    | true => exact ⟨Tracing.heard_quiet low _, Tracing.heard_quiet low _⟩
  · rw [session, session]
    cases closed with
    | false => exact ⟨Tracing.heard_definitions high _, rfl⟩
    | true => exact ⟨Tracing.heard_definitions high _, Tracing.heard_definitions high _⟩
  · rw [session, session, (ending level).1]
    exact ⟨rfl, Tracing.heard_append _ _ _, rfl⟩

/-- The file is closed between a definition and a test. -/
example
    : let steps := ([(false, "var a = true;")], [(false, "if (a) print a;")])
      let limits : Limits := { nesting := 20, rounds := 1 }
      let session := tracedSession limits (fun _ => 0) steps.1 steps.2 3 true
      session.1.map Report.output = ["", "true"]
      ∧ session.2.fileTrace.toList.map TraceEvent.text = ["define a = true"]
      ∧ session.2.consoleTrace.toList.map TraceEvent.text = ["if condition true -> True"] := by
  decide +kernel

end Lox
