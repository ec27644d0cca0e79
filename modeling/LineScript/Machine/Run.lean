import LineScript.Machine.Effect

/-!
Execution with a budget of lines. A machine first settles what is left over, an event in the queue
or an answer to a request for input, and then runs lines until one of them has something to report.
-/
namespace LineScript.Machine

/-- The mark of a line that runs, where lines are traced. -/
def mark (number : Nat) : Text :=
  '[' :: Text.ofNat number ++ [']']

/-- Reports an error of a line as an event and halts. -/
def settle (number : Nat) : Outcome → Option Event × Machine
  | (.ok event, m) => (event, m)
  | (.error e, m) =>
    let (event, m) := m.haltWith (e.inLine number)
    (some event, m)

/-- Runs one line, which is the current one from then on. -/
def runLine (line : Line) (m : Machine) : Option Event × Machine :=
  settle line.number
    (carryOut line { m with counter := m.counter + 1, current := some line.number })

/-- One turn of a machine that waits for nothing: an event to report, unless there is none. While
lines are traced the mark of the line comes first and its own event waits in the queue. -/
def turn (m : Machine) : Option Event × Machine :=
  if m.isHalted then (some .stopped, m)
  else match m.program.line? m.counter with
    | none => (some .stopped, { m with phase := .halted })
    | some line =>
      let (event, m) := m.runLine line
      if m.tracing then (some (.print (mark line.number)), { m with queued := event })
      else (event, m)

/-- Takes turns until there is an event or the budget is spent. -/
def turns : Nat → Machine → Event × Machine
  | 0, m => (.running, m)
  | budget + 1, m =>
    match m.turn with
    | (some event, m) => (event, m)
    | (none, m) => m.turns budget

/-- Reports a queued event, or assigns what was entered, or asks for input again. -/
def resume (m : Machine) : Option Event × Machine :=
  match m.queued with
  | some event => (some event, { m with queued := none })
  | none =>
    match m.phase with
    | .awaiting _ _ none => (some .input, m)
    | .awaiting number names (some line) =>
      let m := { m with phase := .running }
      settle number
        (m.attempt (Answer.assign names line m.vars) fun vars => proceed { m with vars })
    | _ => (none, m)

/-- Runs at most `budget` lines, up to the first event. -/
def run (budget : Nat) (m : Machine) : Event × Machine :=
  match m.resume with
  | (some event, m) => (event, m)
  | (none, m) => m.turns budget

end LineScript.Machine
