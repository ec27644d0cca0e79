import LineScript.Machine.Call
import LineScript.Proofs.Turns

/-!
The lines that a machine runs in the course of its calls, in order. Whatever every line and every
change between two lines keeps of a machine and of the lines run so far holds at each point of the
history (`Kept.history`), and so it holds whenever a line is taken up (`Kept.split`).
-/
namespace LineScript

/-- The events after which there is nothing to execute. -/
def Event.isTerminal : Event → Bool
  | .stopped | .ended | .failed _ => true
  | .running | .print _ | .input => false

/-- What a program has worked out: its variables and the entries of its two stacks. -/
structure Data where
  vars : Store
  stack : Stack Value
  calls : Stack Nat

def Machine.data (m : Machine) : Data :=
  ⟨m.vars, m.stack, m.calls⟩

/-- A line that is run, and the machine that is about to run it. -/
structure Execution where
  machine : Machine
  line : Line

namespace Execution

def address (x : Execution) : Nat :=
  x.machine.counter

def keyword? (x : Execution) : Option Keyword :=
  (Instruction.parse x.line.instruction).toOption.map Instruction.keyword

def outcome (x : Execution) : Machine.Outcome :=
  (x.machine.entered x.line).carryOut x.line

def succeeded (x : Execution) : Bool :=
  x.outcome.1.isOk

/-- What the line itself has to report. -/
def event (x : Execution) : Option Event :=
  (x.machine.runLine x.line).1

/-- The machine after the line. -/
def after (x : Execution) : Machine :=
  (x.machine.runLine x.line).2

/-- The machine runs, and the line is the one that its counter is at. -/
structure Ready (x : Execution) : Prop where
  running : x.machine.phase = .running
  line_eq : x.machine.program.line? x.address = some x.line

end Execution

namespace Machine

/-- The line that the next turn runs, if it runs one. -/
def upcoming? (m : Machine) : Option Execution :=
  if m.isHalted then none else (m.program.line? m.counter).map fun line => ⟨m, line⟩

theorem upcoming?_eq_some_iff {m : Machine} {x : Execution} : m.upcoming? = some x ↔
    x.machine = m ∧ m.phase ≠ .halted ∧ m.program.line? m.counter = some x.line := by
  obtain ⟨machine, line⟩ := x
  by_cases hp : m.phase = .halted
  · simp [upcoming?, isHalted, hp]
  · cases hl : m.program.line? m.counter with
    | none => simp [upcoming?, isHalted, hp, hl]
    | some next => simp [upcoming?, isHalted, hp, hl, eq_comm]

theorem turn_of_upcoming_none {m : Machine} (h : m.upcoming? = none) :
    m.turn = (some .stopped, { m with phase := .halted }) := by
  have ht := m.turn_turn
  generalize m.turn = turned at ht
  cases ht with
  | halted hp => rw [← hp]
  | ranOut hp hl => rfl
  | @traced line _ _ hp hl => simp [upcoming?, isHalted, hp, hl] at h
  | @ran line _ _ hp hl => simp [upcoming?, isHalted, hp, hl] at h

theorem turn_of_upcoming_some {m : Machine} {x : Execution} (h : m.upcoming? = some x) :
    m.turn = if m.tracing then
      (some (.print (mark x.line.number)),
        { (m.runLine x.line).2 with queued := (m.runLine x.line).1 })
    else m.runLine x.line := by
  obtain ⟨-, hp, hl⟩ := upcoming?_eq_some_iff.1 h
  have hhalted : m.isHalted = false := by simp [isHalted, hp]
  unfold turn
  rw [hhalted, hl]
  simp only [tracing_runLine, Bool.false_eq_true, if_false]

/-- The lines run in `turns`. -/
def turnsHistory : Nat → Machine → List Execution
  | 0, _ => []
  | budget + 1, m =>
    m.upcoming?.toList ++ match m.turn with
      | (some _, _) => []
      | (none, m) => m.turnsHistory budget

theorem upcoming?_of_running {m : Machine} (hp : m.phase = .running) :
    m.upcoming? = (m.program.line? m.counter).map fun line => ⟨m, line⟩ := by
  simp [upcoming?, isHalted, hp]

/-- The first line that a running machine with nothing left over runs is the one at its counter. -/
theorem head_turnsHistory {m : Machine} (hp : m.phase = .running) (budget : Nat) :
    (m.turnsHistory (budget + 1)).head? =
      (m.program.line? m.counter).map fun line => ⟨m, line⟩ := by
  rw [turnsHistory, ← upcoming?_of_running hp]
  cases hx : m.upcoming? with
  | some x => rfl
  | none =>
    rw [turn_of_upcoming_none hx]
    rfl

/-- The lines run in `run`. -/
def runHistory (budget : Nat) (m : Machine) : List Execution :=
  match m.resume with
  | (some _, _) => []
  | (none, m) => m.turnsHistory budget

theorem run_of_resume_some {m m' : Machine} {event : Event} (h : m.resume = (some event, m'))
    (budget : Nat) : m.run budget = (event, m') ∧ m.runHistory budget = [] := by
  rw [run, runHistory, h]
  exact ⟨rfl, rfl⟩

theorem run_of_resume_none {m m' : Machine} (h : m.resume = (none, m')) (budget : Nat) :
    m.run budget = m'.turns budget ∧ m.runHistory budget = m'.turnsHistory budget := by
  rw [run, runHistory, h]
  exact ⟨rfl, rfl⟩

/-- The lines run in a single call. -/
def performHistory (m : Machine) : Call → List Execution
  | .run budget => m.runHistory budget
  | .supply _ | .interrupt | .trace _ => []

/-- The lines run in a sequence of calls. -/
def history (m : Machine) : List Call → List Execution
  | [] => []
  | c :: calls => m.performHistory c ++ (m.perform c).2.history calls

/-- What can come of a machine while no line is run. -/
structure Quiet (m m' : Machine) : Prop where
  program_eq : m'.program = m.program
  stack_eq : m'.stack = m.stack
  calls_eq : m'.calls = m.calls
  counter_eq : m'.counter = m.counter
  current_eq : m'.current = m.current
  halted : m.phase = .halted → m'.phase = .halted

namespace Quiet

variable {m m' m'' : Machine}

theorem refl (m : Machine) : Quiet m m :=
  ⟨rfl, rfl, rfl, rfl, rfl, id⟩

theorem trans (h : Quiet m m') (h' : Quiet m' m'') : Quiet m m'' :=
  ⟨h'.program_eq.trans h.program_eq, h'.stack_eq.trans h.stack_eq, h'.calls_eq.trans h.calls_eq,
    h'.counter_eq.trans h.counter_eq, h'.current_eq.trans h.current_eq,
    fun hp => h'.halted (h.halted hp)⟩

theorem halt (m : Machine) (queued : Option Event) :
    Quiet m { m with phase := .halted, queued } :=
  ⟨rfl, rfl, rfl, rfl, rfl, fun _ => rfl⟩

theorem resume (m : Machine) : Quiet m m.resume.2 := by
  have hr := m.resumption_resume
  generalize m.resume = resumed at hr
  cases hr with
  | reported hq => exact ⟨rfl, rfl, rfl, rfl, rfl, id⟩
  | waiting hq hp => exact refl m
  | answered hq hp ha => exact ⟨rfl, rfl, rfl, rfl, rfl, fun h => by simp [hp] at h⟩
  | rejected hq hp ha => exact halt m m.queued
  | idle hm => exact refl m

theorem supply (m : Machine) (line : Text) : Quiet m (m.supply line).2 := by
  unfold Machine.supply
  split
  next hp => exact ⟨rfl, rfl, rfl, rfl, rfl, fun h => by simp [hp] at h⟩
  next => exact refl m

theorem interrupt (m : Machine) : Quiet m m.interrupt := by
  unfold Machine.interrupt
  split
  · exact refl m
  · exact halt m _

end Quiet

theorem running_of_idle {m : Machine} (hm : m.Idle) (hp : m.phase ≠ .halted) :
    m.phase = .running := by
  cases hphase : m.phase with
  | running => rfl
  | awaiting number names answer => exact absurd hphase (hm.2 number names answer)
  | halted => exact absurd hphase hp

theorem ready_of_upcoming {m : Machine} {x : Execution} (hm : m.Idle)
    (hx : m.upcoming? = some x) : x.Ready := by
  obtain ⟨rfl, hp, hl⟩ := upcoming?_eq_some_iff.1 hx
  exact ⟨running_of_idle hm hp, hl⟩

/-- What holds of an idle machine before each turn, `P`, and what follows for the event that the
turns come to, `Q`. -/
structure TurnsKeep (P : List Execution → Machine → Prop)
    (Q : List Execution → Event → Machine → Prop) : Prop where
  spent : ∀ {past : List Execution} {m : Machine}, P past m → m.Idle → Q past .running m
  stopped : ∀ {past : List Execution} {m : Machine}, P past m → m.Idle →
    Q past .stopped { m with phase := .halted }
  traced : ∀ {past : List Execution} {x : Execution}, P past x.machine → x.Ready →
    x.machine.tracing = true →
    Q (past ++ [x]) (.print (mark x.line.number)) { x.after with queued := x.event }
  reported : ∀ {past : List Execution} {x : Execution} {event : Event}, P past x.machine →
    x.Ready → x.machine.tracing = false → x.event = some event → x.after.queued = none →
    Q (past ++ [x]) event x.after
  silent : ∀ {past : List Execution} {x : Execution}, P past x.machine → x.Ready →
    x.machine.tracing = false → x.event = none → x.after.Idle → P (past ++ [x]) x.after

theorem TurnsKeep.turns {P : List Execution → Machine → Prop}
    {Q : List Execution → Event → Machine → Prop} (hPQ : TurnsKeep P Q) {past : List Execution}
    {m : Machine} (h : P past m) (hm : m.Idle) (budget : Nat) :
    Q (past ++ m.turnsHistory budget) (m.turns budget).1 (m.turns budget).2 := by
  induction budget generalizing past m with
  | zero =>
    rw [turnsHistory, List.append_nil, Machine.turns]
    exact hPQ.spent h hm
  | succ budget ih =>
    rw [turnsHistory, Machine.turns]
    cases hx : m.upcoming? with
    | none =>
      rw [turn_of_upcoming_none hx]
      show Q (past ++ []) .stopped { m with phase := .halted }
      rw [List.append_nil]
      exact hPQ.stopped h hm
    | some x =>
      have hready := ready_of_upcoming hm hx
      obtain ⟨rfl, -, -⟩ := upcoming?_eq_some_iff.1 hx
      have hturn := turn_of_upcoming_some hx
      cases htracing : x.machine.tracing with
      | true =>
        rw [hturn, htracing]
        exact hPQ.traced h hready htracing
      | false =>
        have hran : x.machine.turn = (x.event, x.after) := by
          rw [hturn, htracing]
          rfl
        rw [hran]
        cases hevent : x.event with
        | some event =>
          have hqueued : x.after.queued = none := (queued_runLine x.line x.machine).trans hm.1
          exact hPQ.reported h hready htracing hevent hqueued
        | none =>
          have hidle : x.after.Idle := idle_of_turn hm (hevent ▸ hran)
          have hrest := ih (hPQ.silent h hready htracing hevent hidle) hidle
          rwa [List.append_assoc] at hrest

/-- A line that has been run is the last one or one of those before it. -/
theorem split_of_concat {α : Type} {lines past future : List α} {x y : α}
    (h : lines ++ [y] = past ++ x :: future) :
    (past = lines ∧ x = y ∧ future = []) ∨
      ∃ earlier, future = earlier ++ [y] ∧ lines = past ++ x :: earlier := by
  rcases List.eq_nil_or_concat future with rfl | ⟨earlier, z, rfl⟩
  · obtain ⟨rfl, hxy⟩ := List.append_inj' h rfl
    cases hxy
    exact .inl ⟨rfl, rfl, rfl⟩
  · have h' : lines ++ [y] = (past ++ x :: earlier) ++ [z] := by simpa using h
    obtain ⟨hlines, hyz⟩ := List.append_inj' h' rfl
    cases hyz
    exact .inr ⟨earlier, List.concat_eq_append, hlines⟩

/-- What holds of the lines run so far and of the machine, kept by each line and between lines. -/
structure Kept (P : List Execution → Machine → Prop) : Prop where
  quiet : ∀ {past : List Execution} {m m' : Machine}, P past m → Quiet m m' → P past m'
  line : ∀ {past : List Execution} {x : Execution}, P past x.machine → x.Ready →
    P (past ++ [x]) x.after

namespace Kept

variable {P : List Execution → Machine → Prop} {past : List Execution} {m : Machine}

theorem turn (hP : Kept P) (h : P past m) (hm : m.Idle) :
    P (past ++ m.upcoming?.toList) m.turn.2 := by
  have ht := m.turn_turn
  generalize m.turn = turned at ht
  cases ht with
  | halted hp => simpa [upcoming?, isHalted, hp] using h
  | ranOut hp hl => simpa [upcoming?, isHalted, hp, hl] using hP.quiet h (.halt m m.queued)
  | @traced line event m' hp hl hr ht =>
    have hline := hP.line (x := ⟨m, line⟩) h ⟨running_of_idle hm hp, hl⟩
    simp only [Execution.after, hr] at hline
    have hqueued : Quiet m' { m' with queued := event } := ⟨rfl, rfl, rfl, rfl, rfl, id⟩
    simpa [upcoming?, isHalted, hp, hl] using hP.quiet hline hqueued
  | @ran line event m' hp hl hr ht =>
    have hline := hP.line (x := ⟨m, line⟩) h ⟨running_of_idle hm hp, hl⟩
    simp only [Execution.after, hr] at hline
    simpa [upcoming?, isHalted, hp, hl] using hline

theorem turns (hP : Kept P) (h : P past m) (hm : m.Idle) (budget : Nat) :
    P (past ++ m.turnsHistory budget) (m.turns budget).2 := by
  induction budget generalizing past m with
  | zero => simpa [turnsHistory, Machine.turns] using h
  | succ budget ih =>
    have hturn := hP.turn h hm
    rw [turnsHistory, Machine.turns, ← List.append_assoc]
    generalize ht : m.turn = turned at hturn
    obtain ⟨event, m'⟩ := turned
    cases event with
    | some event => simpa using hturn
    | none => exact ih hturn (idle_of_turn hm ht)

theorem run (hP : Kept P) (h : P past m) (budget : Nat) :
    P (past ++ m.runHistory budget) (m.run budget).2 := by
  have hresume := hP.quiet h (.resume m)
  rw [runHistory, Machine.run]
  generalize hr : m.resume = resumed at hresume
  obtain ⟨event, m'⟩ := resumed
  cases event with
  | some event => simpa using hresume
  | none => exact hP.turns hresume (idle_of_resume hr) budget

theorem perform (hP : Kept P) (h : P past m) (c : Call) :
    P (past ++ m.performHistory c) (m.perform c).2 := by
  cases c with
  | run budget => exact hP.run h budget
  | supply line =>
    rw [performHistory, List.append_nil]
    exact hP.quiet h (.supply m line)
  | interrupt =>
    rw [performHistory, List.append_nil]
    exact hP.quiet h (.interrupt m)
  | trace on =>
    rw [performHistory, List.append_nil]
    exact hP.quiet h ⟨rfl, rfl, rfl, rfl, rfl, id⟩

theorem after (hP : Kept P) (h : P past m) (calls : List Call) :
    P (past ++ m.history calls) (m.after calls) := by
  induction calls generalizing past m with
  | nil => simpa [Machine.history, Machine.after] using h
  | cons c calls ih =>
    rw [Machine.history, ← List.append_assoc]
    exact ih (hP.perform h c)

theorem history (hP : Kept P) {program : Program} (h : P [] (start program)) (calls : List Call) :
    P ((start program).history calls) ((start program).after calls) :=
  hP.after h calls

/-- Whenever a line is taken up, what is kept holds of the lines before it. -/
theorem split (hP : Kept P) {program : Program} (h : P [] (start program)) {calls : List Call}
    {x : Execution} {future : List Execution}
    (hx : (start program).history calls = past ++ x :: future) : P past x.machine ∧ x.Ready := by
  have hsplit : Kept fun lines m => P lines m ∧ ∀ past x future, lines = past ++ x :: future →
      P past x.machine ∧ x.Ready := by
    refine ⟨fun h hq => ⟨hP.quiet h.1 hq, h.2⟩, fun {lines x} h hx => ⟨hP.line h.1 hx, ?_⟩⟩
    intro past y future heq
    obtain ⟨rfl, rfl, -⟩ | ⟨earlier, rfl, hlines⟩ := split_of_concat heq
    · exact ⟨h.1, hx⟩
    · exact h.2 past y earlier hlines
  exact (hsplit.history ⟨h, by simp⟩ calls).2 past x future hx

end Kept

theorem after_concat (m : Machine) (calls : List Call) (c : Call) :
    m.after (calls ++ [c]) = ((m.after calls).perform c).2 := by
  simp [after]

theorem history_concat (m : Machine) (calls : List Call) (c : Call) :
    m.history (calls ++ [c]) = m.history calls ++ (m.after calls).performHistory c := by
  induction calls generalizing m with
  | nil => simp [history, after]
  | cons first calls ih =>
    rw [List.cons_append, history, history, ih, List.append_assoc]
    rfl

/-- The next line is run where the one before it has left the machine. -/
theorem quiet_of_next {program : Program} {calls : List Call} {past future : List Execution}
    {x y : Execution} (h : (start program).history calls = past ++ x :: y :: future) :
    Quiet x.after y.machine := by
  have hP : Kept fun lines m => ∀ past x, lines = past ++ [x] → Quiet x.after m := by
    refine ⟨fun h hq past x heq => (h past x heq).trans hq, fun _ _ past x heq => ?_⟩
    cases (List.append_inj' heq rfl).2
    exact .refl _
  have h' : (start program).history calls = (past ++ [x]) ++ y :: future := by simpa using h
  exact (hP.split (by simp) h').1 past x rfl

end Machine

namespace Execution

variable {x : Execution} {names : List Text}

/-- The variables for which a line asks: those of a line of input, if all are declared. -/
def wanted? (x : Execution) : Option (List Text) :=
  match Instruction.parse x.line.instruction with
  | .ok ⟨.input, operands⟩ =>
    if (Machine.names operands).all x.machine.vars.contains then some (Machine.names operands)
    else none
  | _ => none

theorem exists_of_wanted (h : x.wanted? = some names) : ∃ operands,
    Instruction.parse x.line.instruction = .ok ⟨.input, operands⟩ ∧
      names = Machine.names operands ∧ ∀ name ∈ names, x.machine.vars.contains name = true := by
  unfold wanted? at h
  split at h
  next operands hi =>
    split at h
    next hall =>
      cases h
      exact ⟨operands, hi, rfl, List.all_eq_true.1 hall⟩
    next => cases h
  next => cases h

/-- A line asks for one variable at least, and all that it asks for are declared. -/
theorem declared_of_wanted (h : x.wanted? = some names) :
    names ≠ [] ∧ ∀ name ∈ names, x.machine.vars.contains name = true := by
  obtain ⟨operands, -, rfl, hdeclared⟩ := exists_of_wanted h
  exact ⟨List.splitOn_ne_nil ',' operands, hdeclared⟩

/-- A line that asks reports nothing but its request, and leaves the machine waiting. -/
theorem runLine_of_wanted (h : x.wanted? = some names) : x.machine.runLine x.line =
    (some .input,
      { x.machine.entered x.line with phase := .awaiting x.line.number names none }) := by
  obtain ⟨operands, hi, rfl, hdeclared⟩ := exists_of_wanted h
  have hnone : (Machine.names operands).find?
      (fun name => !(x.machine.entered x.line).vars.contains name) = none := by
    refine List.find?_eq_none.2 fun name hname => ?_
    show ¬ (!x.machine.vars.contains name) = true
    simp [hdeclared name hname]
  show Machine.settle x.line.number ((x.machine.entered x.line).carryOut x.line) = _
  rw [Machine.carryOut_of_parse hi]
  simp only [Machine.obey, Machine.input, hnone]
  rfl

/-- No other line asks for anything, and none other leaves a machine waiting that was not. -/
theorem runLine_of_not_wanted (h : x.wanted? = none) :
    x.event ≠ some .input ∧ (x.after.phase = x.machine.phase ∨ x.after.phase = .halted) := by
  obtain ⟨⟨r, m⟩, he, ho⟩ := Machine.effect_of_runLine x.line x.machine
  rw [event, after, ho]
  cases he with
  | @asked operands hi hx =>
    have hall : (Machine.names operands).all x.machine.vars.contains = true :=
      List.all_eq_true.2 hx
    simp [wanted?, hi, hall] at h
  | @declared operands r => cases r <;> simp [Machine.settle, Machine.haltWith, Except.map]
  | _ => simp [Machine.settle, Machine.haltWith, Machine.goTo]

end Execution
end LineScript
