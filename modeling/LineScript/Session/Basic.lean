import LineScript.Machine.Run

/-!
A machine run at a console. The console is a record of calls in some monad, so that the same
session runs against the real console and against one that is a value. An interrupt can arrive
during any of these calls and takes effect before the next line of the program.
-/
namespace LineScript

/-- What a call of the console gives: its result or the text of its failure, and whether an
interrupt arrived during it. -/
structure Reply (α : Type) where
  result : Except Text α
  raised : Bool

def Reply.ok {α : Type} (a : α) : Reply α :=
  ⟨.ok a, false⟩

structure Console (m : Type → Type) where
  write : Text → m (Reply Unit)
  flush : m (Reply Unit)
  /-- The next line of input, or nothing where the input ends. -/
  readLine : m (Reply (Option Text))

structure Session where
  machine : Machine
  /-- An interrupt has arrived and has not taken effect. -/
  interrupted : Bool

namespace Session

/-- The state after a step, and how the session ended if it did. -/
abbrev Progress := Option (Except Error Unit) × Session

def goOn (s : Session) : Progress :=
  (none, s)

def finish (r : Except Error Unit) (s : Session) : Progress :=
  (some r, s)

/-- Takes note of an interrupt. -/
def note (raised : Bool) (s : Session) : Session :=
  { s with interrupted := s.interrupted || raised }

/-- Goes on with the result of a call, or ends with its failure. -/
@[inline]
def receive {m : Type → Type} {α : Type} [Monad m] (reply : Reply α) (s : Session)
    (next : α → Session → m Progress) : m Progress :=
  let s := s.note reply.raised
  match reply.result with
  | .ok a => next a s
  | .error reason => pure (s.finish (.error (.about .internal reason)))

/-- Answers a request for input; the end of input answers with an empty line, unless an interrupt
is on its way. -/
def answer (line : Option Text) (s : Session) : Session :=
  match line with
  | some text => { s with machine := (s.machine.supply text).2 }
  | none => if s.interrupted then s else { s with machine := (s.machine.supply []).2 }

/-- Does at the console what an event asks for. -/
@[inline]
def handle {m : Type → Type} [Monad m] (console : Console m) (event : Event) (s : Session) :
    m Progress :=
  match event with
  | .print text => do
    let written ← console.write text
    s.receive written fun _ s => do
      let flushed ← console.flush
      s.receive flushed fun _ s => pure s.goOn
  | .input => do
    let read ← console.readLine
    s.receive read fun line s => pure (s.answer line).goOn
  | .running => pure s.goOn
  | .ended | .stopped => pure (s.finish (.ok ()))
  | .failed e => pure (s.finish (.error e))

/-- Executes up to the next event, after an interrupt that has arrived has taken effect. -/
def advance (budget : Nat) (s : Session) : Event × Session :=
  let machine := if s.interrupted then s.machine.interrupt else s.machine
  let (event, machine) := machine.run budget
  (event, ⟨machine, false⟩)

@[inline]
def step {m : Type → Type} [Monad m] (console : Console m) (budget : Nat) (s : Session) :
    m Progress :=
  let (event, s) := s.advance budget
  handle console event s

/-- Takes at most `fuel` steps, and fewer if the session ends. -/
@[specialize]
def run {m : Type → Type} [Monad m] (console : Console m) (budget : Nat) :
    Nat → Session → m Progress
  | 0, s => pure s.goOn
  | fuel + 1, s => do
    let progress ← step console budget s
    match progress with
    | (some r, s) => pure (s.finish r)
    | (none, s) => run console budget fuel s

end Session
end LineScript
