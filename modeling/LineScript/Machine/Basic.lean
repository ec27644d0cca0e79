import LineScript.Program
import LineScript.Stack
import LineScript.Store

/-!
The state of a program that runs. A machine runs until it halts, with pauses in which it waits for
a line of input; what happens on the way it reports as events, one at a time.
-/
namespace LineScript

inductive Event where
  /-- The program ran out, or had halted before. -/
  | stopped
  /-- The program ended itself. -/
  | ended
  /-- The budget was spent. -/
  | running
  | print (text : Text)
  /-- A line of input is asked for. -/
  | input
  | failed (e : Error)
  deriving DecidableEq

inductive Phase where
  | running
  /-- The line that asks for input, the variables it is for, and what was entered. -/
  | awaiting (line : Nat) (names : List Text) (answer : Option Text)
  | halted
  deriving DecidableEq

structure Machine where
  program : Program
  vars : Store
  stack : Stack Value
  /-- The addresses to which subroutines return. -/
  calls : Stack Nat
  /-- The address of the next line. -/
  counter : Nat
  /-- The number of the line that ran last. -/
  current : Option Nat
  phase : Phase
  /-- An event that is still to be reported. -/
  queued : Option Event
  tracing : Bool
  deriving DecidableEq

namespace Machine

def start (program : Program) : Machine where
  program := program
  vars := .empty
  stack := .empty
  calls := .empty
  counter := 0
  current := none
  phase := .running
  queued := none
  tracing := false

def isHalted (m : Machine) : Bool :=
  m.phase = .halted

/-- Whether to report each line that runs. -/
def trace (on : Bool) (m : Machine) : Machine :=
  { m with tracing := on }

/-- A line without the line ends at its end. -/
def chomp (line : Text) : Text :=
  Text.dropEndWhile (fun c => c == '\r' || c == '\n') line

/-- Answers a request for input, and says whether there is one. -/
def supply (line : Text) (m : Machine) : Bool × Machine :=
  match m.phase with
  | .awaiting number names _ =>
    (true, { m with phase := .awaiting number names (some (chomp line)) })
  | _ => (false, m)

/-- Halts with an error, which is then reported. -/
def haltWith (e : Error) (m : Machine) : Event × Machine :=
  (.failed e, { m with phase := .halted })

/-- The error of an interrupt after the line that ran last. -/
def breakError (m : Machine) : Error :=
  { kind := .interrupted, line := m.current }

/-- Halts a machine from outside; the error takes the place of a queued event. -/
def interrupt (m : Machine) : Machine :=
  if m.isHalted then m
  else { m with phase := .halted, queued := some (.failed m.breakError) }

end Machine
end LineScript
