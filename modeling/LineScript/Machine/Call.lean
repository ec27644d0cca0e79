import LineScript.Machine.Run

/-!
The calls that a machine takes from outside, and the machines that can come of them.
-/
namespace LineScript.Machine

inductive Call where
  | run (budget : Nat)
  | supply (line : Text)
  | interrupt
  | trace (on : Bool)
  deriving DecidableEq

/-- What a call gives back. -/
inductive Response where
  | event (e : Event)
  | accepted (yes : Bool)
  | done
  deriving DecidableEq

def perform (m : Machine) : Call → Response × Machine
  | .run budget =>
    let (e, m) := m.run budget
    (.event e, m)
  | .supply line =>
    let (yes, m) := m.supply line
    (.accepted yes, m)
  | .interrupt => (.done, m.interrupt)
  | .trace on => (.done, m.trace on)

/-- The machine after a sequence of calls. -/
def after (m : Machine) (calls : List Call) : Machine :=
  calls.foldl (fun m c => (m.perform c).2) m

/-- The machines that calls make of a program. -/
def Reachable (program : Program) (m : Machine) : Prop :=
  ∃ calls, (start program).after calls = m

/-- Executes up to `count` times, until an event other than text and a spent budget; gives the
events, the last one first. -/
def runUntil (budget : Nat) : Nat → List Event → Machine → List Event × Machine
  | 0, events, m => (events, m)
  | count + 1, events, m =>
    match m.run budget with
    | (.print text, m) => m.runUntil budget count (.print text :: events)
    | (.running, m) => m.runUntil budget count (.running :: events)
    | (event, m) => (event :: events, m)

end LineScript.Machine
