import LineScript.Proofs.History
import LineScript.Proofs.Lockstep

/-!
Tracing adds the marks of lines and changes nothing else. A traced machine is followed by an
untraced one that takes a line at a time: while an event waits behind its mark, the untraced
machine has reported it already, and as soon as it is delivered both are at the same place again.
-/
namespace LineScript

namespace Event

/-- A spent budget is nothing to tell. -/
def delivered (event : Event) : List Event :=
  if event = .running then [] else [event]

end Event

namespace Execution

/-- The same line in a machine that is not traced. -/
def untraced (x : Execution) : Execution :=
  { x with machine := x.machine.trace false }

end Execution

/-- A single execution with a budget, and whether lines are traced in it. -/
structure Slice where
  tracing : Bool
  budget : Nat

/-- A machine, the lines it has run, and the events it has delivered. -/
structure Dialogue where
  machine : Machine
  lines : List Execution
  heard : List Event

namespace Dialogue

def opening (program : Program) : Dialogue :=
  ⟨.start program, [], []⟩

/-- The number of requests for input so far. -/
def asked (d : Dialogue) : Nat :=
  d.heard.count .input

/-- The event that ended the dialogue. -/
def outcome? (d : Dialogue) : Option Event :=
  d.heard.find? Event.isTerminal

/-- Answers a request for input with the given line of the script, unless the script leaves it
open. -/
def reply (script : Nat → Option Text) (count : Nat) (event : Event) (m : Machine) : Machine :=
  if event = .input then (script count).elim m fun line => (m.supply line).2 else m

/-- Goes on with the lines, the event and the machine that an execution has given. -/
def note (script : Nat → Option Text) (lines : List Execution) (event : Event) (m : Machine)
    (d : Dialogue) : Dialogue where
  machine := reply script d.asked event m
  lines := d.lines ++ lines
  heard := d.heard ++ event.delivered

/-- Executes once, unless the dialogue has ended. -/
def call (script : Nat → Option Text) (d : Dialogue) (c : Slice) : Dialogue :=
  if d.outcome?.isSome then d
  else
    let m := d.machine.trace c.tracing
    d.note script (m.runHistory c.budget) (m.run c.budget).1 (m.run c.budget).2

def after (script : Nat → Option Text) (d : Dialogue) (slices : List Slice) : Dialogue :=
  slices.foldl (call script) d

end Dialogue

/-- What happens in a dialogue: a line is run, or an event is delivered that is not of a line. -/
inductive Entry where
  | line (x : Execution)
  /-- Input is asked for once more, an answer is refused, or there is no line left. -/
  | aside (event : Event)

namespace Entry

def line? : Entry → Option Execution
  | line x => some x
  | aside _ => none

/-- What is delivered of it without tracing. -/
def plain : Entry → List Event
  | line x => x.event.toList
  | aside event => [event]

/-- What is delivered of it, where a line that is run while lines are traced has its mark before
its own event. -/
def shown : Entry → List Event
  | line x =>
    (if x.machine.tracing then [.print (Machine.mark x.line.number)] else []) ++ x.event.toList
  | aside event => [event]

end Entry

namespace Dialogue

/-- The record of two dialogues with the same course of events. The second delivers it plainly, the
first with the marks of the lines that were traced. -/
structure Records (record : List Entry) (d u : Dialogue) : Prop where
  lines_eq : d.lines = record.filterMap Entry.line?
  lines_plain : u.lines = d.lines.map Execution.untraced
  heard_eq : d.heard ++ d.machine.queued.toList = record.flatMap Entry.shown
  heard_plain : u.heard = record.flatMap Entry.plain

/-- The first dialogue is the second with marks added, and what the program has worked out is the
same in both. -/
def AddsMarks (d u : Dialogue) : Prop :=
  (∃ record, Records record d u) ∧ d.machine.data = u.machine.data

end Dialogue

namespace Machine

variable {m : Machine}

theorem supply_trace (line : Text) (on : Bool) (m : Machine) :
    ((m.trace on).supply line).2 = (m.supply line).2.trace on := by
  obtain ⟨program, vars, stack, calls, counter, current, phase, queued, tracing⟩ := m
  cases phase <;> rfl

theorem resume_trace (on : Bool) (m : Machine) :
    (m.trace on).resume = (m.resume.1, m.resume.2.trace on) := by
  have hr := m.resumption_resume
  generalize m.resume = resumed at hr
  cases hr with
  | reported hq => exact resume_of_queued (m := m.trace on) hq
  | waiting hq hp => exact resume_of_waiting (m := m.trace on) hq hp
  | answered hq hp ha => exact resume_of_answered (m := m.trace on) hq hp ha
  | rejected hq hp ha => exact resume_of_rejected (m := m.trace on) hq hp ha
  | idle hm => exact resume_of_idle (m := m.trace on) hm

/-- A line does not look at whether it is traced. -/
theorem runLine_trace {line : Line} (hp : m.phase = .running)
    (hl : m.program.line? m.counter = some line) (on : Bool) :
    (m.trace on).runLine line = ((m.runLine line).1, (m.runLine line).2.trace on) := by
  have hpaired : m.program.Paired m.program line.number line.number :=
    ⟨m.counter, line, line, hl, hl, rfl, rfl⟩
  have hentered : Lockstep m.program m.program ((m.trace on).entered line) (m.entered line) := by
    refine ⟨rfl, rfl, rfl, rfl, rfl, rfl, .some hpaired, ?_⟩
    show Phase.Alike _ m.phase m.phase
    rw [hp]
    exact .running
  have hout := hentered.carryOut hpaired ((Program.Aligned.refl _).redirected _ _ _ hl hl)
  have he := effect_carryOut line ((m.trace on).entered line)
  have he' := effect_carryOut line (m.entered line)
  show settle line.number (((m.trace on).entered line).carryOut line) =
    ((settle line.number ((m.entered line).carryOut line)).1,
      (settle line.number ((m.entered line).carryOut line)).2.trace on)
  generalize ((m.trace on).entered line).carryOut line = o at hout he
  generalize (m.entered line).carryOut line = o' at hout he'
  obtain ⟨r, after⟩ := o
  obtain ⟨r', after'⟩ := o'
  obtain ⟨rfl, hstep⟩ := hout
  have htraced : Lockstep m.program m.program after (after'.trace on) := { hstep with }
  have hafter : after = after'.trace on :=
    htraced.eq_of_self (he.queued_eq.trans he'.queued_eq.symm) he.tracing_eq
  rw [hafter]
  cases r <;> rfl

theorem upcoming?_trace (on : Bool) (m : Machine) : (m.trace on).upcoming? =
    m.upcoming?.map fun x => { x with machine := x.machine.trace on } := by
  show (if m.isHalted then none
    else (m.program.line? m.counter).map fun line => Execution.mk (m.trace on) line) = _
  unfold upcoming?
  cases m.isHalted <;> cases m.program.line? m.counter <;> rfl

/-- What is not traced stays so, and puts nothing in the queue. -/
theorem turns_of_untraced (ht : m.tracing = false) (budget : Nat) :
    (m.turns budget).2.tracing = false ∧ (m.turns budget).2.queued = m.queued ∧
      ∀ x ∈ m.turnsHistory budget, x.machine.tracing = false := by
  induction budget generalizing m with
  | zero => exact ⟨ht, rfl, by simp [turnsHistory]⟩
  | succ budget ih =>
    rw [turns, turnsHistory]
    cases hx : m.upcoming? with
    | none =>
      rw [turn_of_upcoming_none hx]
      exact ⟨ht, rfl, by simp⟩
    | some x =>
      obtain ⟨rfl, -, -⟩ := upcoming?_eq_some_iff.1 hx
      have hqueued := queued_runLine x.line x.machine
      have htracing := (tracing_runLine x.line x.machine).trans ht
      rw [turn_of_upcoming_some hx, ht, if_neg Bool.false_ne_true]
      generalize x.machine.runLine x.line = ran at hqueued htracing
      obtain ⟨event, after⟩ := ran
      cases event with
      | some event => exact ⟨htracing, hqueued, by simpa using ht⟩
      | none =>
        obtain ⟨htracing', hqueued', hlines⟩ := ih htracing
        exact ⟨htracing', hqueued'.trans hqueued, by simpa [ht] using hlines⟩

theorem run_of_untraced (ht : m.tracing = false) (hq : m.queued = none) (budget : Nat) :
    (m.run budget).2.tracing = false ∧ (m.run budget).2.queued = none ∧
      ∀ x ∈ m.runHistory budget, x.machine.tracing = false := by
  have htracing := (tracing_resume m).trans ht
  have hqueued : m.resume.2.queued = none := by
    have hr := m.resumption_resume
    generalize m.resume = resumed at hr
    cases hr with
    | reported => rfl
    | _ => exact hq
  rw [run, runHistory]
  generalize m.resume = resumed at htracing hqueued
  obtain ⟨event, after⟩ := resumed
  cases event with
  | some event => exact ⟨htracing, hqueued, by simp⟩
  | none =>
    obtain ⟨htracing', hqueued', hlines⟩ := turns_of_untraced htracing budget
    exact ⟨htracing', hqueued'.trans hqueued, hlines⟩

end Machine

namespace Execution

variable {x : Execution}

theorem runLine_untraced (h : x.Ready) : x.untraced.machine.runLine x.line =
    (x.event, x.after.trace false) :=
  Machine.runLine_trace h.running h.line_eq false

theorem untraced_of_tracing (h : x.machine.tracing = false) : x.untraced = x := by
  unfold untraced Machine.trace
  rw [← h]

/-- An event that a line reports is always delivered. -/
theorem delivered_event (x : Execution) : (x.event.getD .running).delivered = x.event.toList := by
  have hne := Machine.runLine_ne_running x.line x.machine
  unfold event
  cases hevent : (x.machine.runLine x.line).1 with
  | none => rfl
  | some event =>
    rw [hevent] at hne
    exact if_neg fun h => hne (congrArg some h)

end Execution

namespace Entry

/-- Marks are no requests for input. -/
theorem count_shown (record : List Entry) :
    (record.flatMap shown).count .input = (record.flatMap plain).count .input := by
  induction record with
  | nil => rfl
  | cons entry record ih =>
    rw [List.flatMap_cons, List.flatMap_cons, List.count_append, List.count_append, ih]
    congr 1
    cases entry with
    | aside event => rfl
    | line x => cases h : x.machine.tracing <;> simp [shown, plain, h]

/-- Marks do not end anything. -/
theorem find_shown (record : List Entry) :
    (record.flatMap shown).find? Event.isTerminal =
      (record.flatMap plain).find? Event.isTerminal := by
  induction record with
  | nil => rfl
  | cons entry record ih =>
    rw [List.flatMap_cons, List.flatMap_cons, List.find?_append, List.find?_append, ih]
    congr 1
    cases entry with
    | aside event => rfl
    | line x => cases h : x.machine.tracing <;> simp [shown, plain, h, Event.isTerminal]

end Entry

namespace Dialogue

variable {script : Nat → Option Text} {d u : Dialogue} {record : List Entry}

theorem reply_trace (count : Nat) (event : Event) (on : Bool) (m : Machine) :
    reply script count event (m.trace on) = (reply script count event m).trace on := by
  unfold reply
  split
  · cases script count with
    | none => rfl
    | some line => exact m.supply_trace line on
  · rfl

theorem exists_reply_eq (script : Nat → Option Text) (count : Nat) (event : Event) (m : Machine) :
    ∃ phase, reply script count event m = { m with phase } := by
  unfold reply
  split
  · cases script count with
    | none => exact ⟨m.phase, rfl⟩
    | some line =>
      obtain ⟨phase, -, h⟩ := m.exists_supply_eq line
      exact ⟨phase, h⟩
  · exact ⟨m.phase, rfl⟩

theorem queued_reply (count : Nat) (event : Event) (m : Machine) :
    (reply script count event m).queued = m.queued := by
  obtain ⟨phase, h⟩ := exists_reply_eq script count event m
  rw [h]

theorem call_of_outcome (h : d.outcome?.isSome) (c : Slice) : d.call script c = d :=
  if_pos h

theorem after_of_outcome (script : Nat → Option Text) (slices : List Slice)
    (h : d.outcome?.isSome) : d.after script slices = d := by
  induction slices with
  | nil => rfl
  | cons c slices ih =>
    show (d.call script c).after script slices = d
    rw [call_of_outcome h, ih]

/-- An execution that has delivered nothing is one with the next. -/
theorem note_note (lines lines' : List Execution) (event : Event) (m m' : Machine)
    (d : Dialogue) : (d.note script lines .running m).note script lines' event m' =
      d.note script (lines ++ lines') event m' := by
  simp [note, asked, Event.delivered]

theorem asked_note_print (lines : List Execution) (text : Text) (m : Machine) (d : Dialogue) :
    (d.note script lines (.print text) m).asked = d.asked := by
  simp [asked, note, Event.delivered]

theorem outcome_note_print (lines : List Execution) (text : Text) (m : Machine) (d : Dialogue) :
    (d.note script lines (.print text) m).outcome? = d.outcome? := by
  simp [outcome?, note, Event.delivered, Event.isTerminal]

theorem outcome_note_running (lines : List Execution) (m : Machine) (d : Dialogue) :
    (d.note script lines .running m).outcome? = d.outcome? := by
  simp [outcome?, note, Event.delivered]

/-- The step of an untraced dialogue that follows a traced one: it settles what is left over, or it
runs a single line. -/
def beat (script : Nat → Option Text) (u : Dialogue) : Dialogue :=
  u.call script ⟨false, match u.machine.phase with
    | .awaiting .. => 0
    | _ => 1⟩

theorem beat_of_awaiting (ho : u.outcome? = none) (ht : u.machine.tracing = false) {number : Nat}
    {names : List Text} {answer : Option Text}
    (hp : u.machine.phase = .awaiting number names answer) :
    u.beat script = u.note script [] (u.machine.resume.1.getD .running) u.machine.resume.2 := by
  have hm : u.machine.trace false = u.machine := by
    rw [← ht]
    rfl
  simp only [beat, call, ho, hp, hm, Machine.run, Machine.runHistory]
  generalize u.machine.resume = resumed
  obtain ⟨event, m⟩ := resumed
  cases event <;> rfl

theorem beat_of_idle (ho : u.outcome? = none) (ht : u.machine.tracing = false)
    (hi : u.machine.Idle) : u.beat script =
      u.note script u.machine.upcoming?.toList (u.machine.turn.1.getD .running)
        u.machine.turn.2 := by
  have hm : u.machine.trace false = u.machine := by
    rw [← ht]
    rfl
  have hbeat : u.beat script = u.call script ⟨false, 1⟩ := by
    unfold beat
    split
    next hp => exact absurd hp (hi.2 _ _ _)
    next => rfl
  simp only [hbeat, call, ho, hm, Machine.run, Machine.runHistory, Machine.resume_of_idle hi,
    Machine.turns, Machine.turnsHistory]
  generalize u.machine.turn = turned
  obtain ⟨event, m⟩ := turned
  cases event <;> simp

/-- A number of such steps, none of them after the end. -/
inductive Beats (script : Nat → Option Text) : Nat → Dialogue → Dialogue → Prop where
  | refl (u : Dialogue) : Beats script 0 u u
  | step {n : Nat} {u u' : Dialogue} (ho : u.outcome? = none)
      (h : Beats script n (u.beat script) u') : Beats script (n + 1) u u'

namespace Beats

variable {u' u'' : Dialogue} {n n' : Nat}

theorem single (script : Nat → Option Text) (ho : u.outcome? = none) :
    Beats script 1 u (u.beat script) :=
  .step ho (.refl _)

theorem trans (h : Beats script n u u') (h' : Beats script n' u' u'') :
    Beats script (n + n') u u'' := by
  induction h with
  | refl u => rwa [Nat.zero_add]
  | step ho _ ih =>
    rw [Nat.add_right_comm]
    exact .step ho (ih h')

/-- The end comes after all other points, and there is only one. -/
theorem le_of_outcome (h : Beats script n u u') (h' : Beats script n' u u'')
    (ho : u''.outcome?.isSome) : n ≤ n' ∧ (u'.outcome?.isSome → u' = u'') := by
  induction h generalizing n' with
  | refl u =>
    refine ⟨Nat.zero_le n', fun hu => ?_⟩
    cases h' with
    | refl => rfl
    | step hnone => simp [hnone] at hu
  | step hnone _ ih =>
    cases h' with
    | refl => simp [hnone] at ho
    | step _ h' =>
      obtain ⟨hle, heq⟩ := ih h'
      exact ⟨Nat.succ_le_succ hle, heq⟩

theorem exists_plain (h : Beats script n u u') :
    ∃ plain : List Slice, (∀ c ∈ plain, c.tracing = false) ∧ u.after script plain = u' := by
  induction h with
  | refl u => exact ⟨[], by simp, rfl⟩
  | step _ _ ih =>
    obtain ⟨plain, hplain, hafter⟩ := ih
    exact ⟨_ :: plain, by simpa using hplain, hafter⟩

end Beats

/-- The machine with nothing in the queue, and without tracing. -/
def bare (m : Machine) : Machine :=
  { m with queued := none, tracing := false }

theorem bare_of_queued_none {m : Machine} (hq : m.queued = none) : bare m = m.trace false := by
  rw [bare, ← hq]
  rfl

/-- The bare machine after an event that waits behind its mark. -/
def settled (script : Nat → Option Text) (d : Dialogue) : Machine :=
  d.machine.queued.elim (bare d.machine) fun event => reply script d.asked event (bare d.machine)

theorem settled_of_queued_none (hq : d.machine.queued = none) :
    d.settled script = d.machine.trace false := by
  rw [settled, hq, Option.elim_none, bare_of_queued_none hq]

/-- The number of events that wait behind a mark. -/
def pending (d : Dialogue) : Nat :=
  d.machine.queued.toList.length

theorem pending_le (d : Dialogue) : d.pending ≤ 1 := by
  unfold pending
  cases d.machine.queued <;> simp

/-- The second dialogue follows the first without tracing, as recorded. -/
structure Follows (script : Nat → Option Text) (record : List Entry) (d u : Dialogue) : Prop
    extends Records record d u where
  machine_eq : u.machine = d.settled script
  queued_ne : d.machine.queued ≠ some .running
  complete : d.outcome?.isSome → d.machine.queued = none

namespace Follows

theorem opening (script : Nat → Option Text) (program : Program) :
    Follows script [] (opening program) (opening program) where
  lines_eq := rfl
  lines_plain := rfl
  heard_eq := rfl
  heard_plain := rfl
  machine_eq := rfl
  queued_ne := nofun
  complete := nofun

theorem data_eq (h : Follows script record d u) : u.machine.data = d.machine.data := by
  rw [h.machine_eq, settled]
  cases d.machine.queued with
  | none => rfl
  | some event =>
    obtain ⟨phase, hreply⟩ := exists_reply_eq script d.asked event (bare d.machine)
    rw [Option.elim_some, hreply]
    rfl

theorem outcome_eq (h : Follows script record d u) :
    u.outcome? = d.outcome?.or (d.machine.queued.toList.find? Event.isTerminal) := by
  unfold outcome?
  rw [h.heard_plain, ← Entry.find_shown, ← h.heard_eq, List.find?_append]

theorem outcome_of_queued_none (h : Follows script record d u) (hq : d.machine.queued = none) :
    u.outcome? = d.outcome? := by
  rw [h.outcome_eq, hq]
  simp

theorem asked_eq (h : Follows script record d u) (hq : d.machine.queued = none) :
    u.asked = d.asked := by
  unfold asked
  rw [h.heard_plain, ← Entry.count_shown, ← h.heard_eq, hq, Option.toList_none, List.append_nil]

theorem machine_of_queued_none (h : Follows script record d u) (hq : d.machine.queued = none) :
    u.machine = d.machine.trace false :=
  h.machine_eq.trans (settled_of_queued_none hq)

/-- Tracing can be switched at any point. -/
theorem trace (h : Follows script record d u) (on : Bool) :
    Follows script record { d with machine := d.machine.trace on } u :=
  { h with }

/-- What both deliver next is added to the record. -/
theorem records_note (h : Follows script record d u) (hq : d.machine.queued = none)
    (entries : List Entry) {m m' : Machine} {event event' : Event} {lines : List Execution}
    (hlines : entries.filterMap Entry.line? = lines)
    (hshown : entries.flatMap Entry.shown = event.delivered ++ m.queued.toList)
    (hplain : entries.flatMap Entry.plain = event'.delivered) :
    Records (record ++ entries) (d.note script lines event m)
      (u.note script (lines.map Execution.untraced) event' m') := by
  have hheard := h.heard_eq
  rw [hq, Option.toList_none, List.append_nil] at hheard
  refine ⟨?_, ?_, ?_, ?_⟩
  · rw [List.filterMap_append, hlines, ← h.lines_eq]
    rfl
  · show u.lines ++ lines.map Execution.untraced = (d.lines ++ lines).map Execution.untraced
    rw [List.map_append, h.lines_plain]
  · show d.heard ++ event.delivered ++ (reply script d.asked event m).queued.toList = _
    rw [queued_reply, List.flatMap_append, hshown, ← hheard, List.append_assoc]
  · rw [List.flatMap_append, hplain, ← h.heard_plain]
    rfl

/-- Both go on with the same event. -/
theorem note (h : Follows script record d u) (hq : d.machine.queued = none) (entries : List Entry)
    {m : Machine} (hm : m.queued = none) {event : Event} {lines : List Execution}
    (hlines : entries.filterMap Entry.line? = lines)
    (hshown : entries.flatMap Entry.shown = event.delivered)
    (hplain : entries.flatMap Entry.plain = event.delivered) :
    Follows script (record ++ entries) (d.note script lines event m)
      (u.note script (lines.map Execution.untraced) event (m.trace false)) := by
  have hqueued : (d.note script lines event m).machine.queued = none :=
    (queued_reply _ _ _).trans hm
  refine ⟨h.records_note hq entries hlines ?_ hplain, ?_, ?_, fun _ => hqueued⟩
  · rw [hshown, hm, Option.toList_none, List.append_nil]
  · rw [settled_of_queued_none hqueued]
    show reply script u.asked event (m.trace false) = (reply script d.asked event m).trace false
    rw [reply_trace, h.asked_eq hq]
  · rw [hqueued]
    nofun

/-- A line that is traced has its mark delivered, and its event waits. -/
theorem mark (h : Follows script record d u) (hq : d.machine.queued = none)
    (ho : d.outcome? = none) {x : Execution} (hx : x.machine.queued = none)
    (ht : x.machine.tracing = true) :
    Follows script (record ++ [.line x])
      (d.note script [x] (.print (Machine.mark x.line.number)) { x.after with queued := x.event })
      (u.note script [x.untraced] (x.event.getD .running) (x.after.trace false)) := by
  have hqueued : x.after.queued = none := (Machine.queued_runLine x.line x.machine).trans hx
  refine ⟨h.records_note hq [.line x] rfl ?_ ?_, ?_, ?_, ?_⟩
  · simp [Entry.shown, ht, Event.delivered]
  · simp [Entry.plain, x.delivered_event]
  · show reply script u.asked (x.event.getD .running) (x.after.trace false) =
      x.event.elim (bare x.after) fun event =>
        reply script (d.note script _ (.print _) _).asked event (bare x.after)
    rw [asked_note_print, ← h.asked_eq hq, bare_of_queued_none hqueued]
    cases x.event <;> rfl
  · exact Machine.runLine_ne_running x.line x.machine
  · rw [outcome_note_print, ho]
    nofun

/-- The state in which a single beat is taken. -/
theorem untraced_of_idle (h : Follows script record d u) (hi : d.machine.Idle)
    (ho : d.outcome? = none) :
    u.outcome? = none ∧ u.machine.tracing = false ∧ u.machine.Idle ∧
      u.machine.upcoming? = d.machine.upcoming?.map Execution.untraced := by
  have hm := h.machine_of_queued_none hi.1
  refine ⟨(h.outcome_of_queued_none hi.1).trans ho, ?_, hm ▸ hi, ?_⟩
  · rw [hm]
    rfl
  · rw [hm]
    exact Machine.upcoming?_trace false d.machine

theorem beat_of_upcoming_none (h : Follows script record d u) (hi : d.machine.Idle)
    (ho : d.outcome? = none) (hx : d.machine.upcoming? = none) : u.beat script =
      u.note script [] .stopped (Machine.trace false { d.machine with phase := .halted }) := by
  obtain ⟨hu, ht, hi', hnext⟩ := h.untraced_of_idle hi ho
  rw [hx, Option.map_none] at hnext
  rw [beat_of_idle hu ht hi', Machine.turn_of_upcoming_none hnext, hnext,
    h.machine_of_queued_none hi.1]
  rfl

theorem beat_of_upcoming_some (h : Follows script record d u) (hi : d.machine.Idle)
    (ho : d.outcome? = none) {x : Execution} (hx : d.machine.upcoming? = some x) : u.beat script =
      u.note script [x.untraced] (x.event.getD .running) (x.after.trace false) := by
  obtain ⟨hu, ht, hi', hnext⟩ := h.untraced_of_idle hi ho
  obtain ⟨hm, -, -⟩ := Machine.upcoming?_eq_some_iff.1 hx
  have hrun : u.machine.runLine x.line = (x.event, x.after.trace false) := by
    rw [h.machine_of_queued_none hi.1, ← hm]
    exact x.runLine_untraced (Machine.ready_of_upcoming hi hx)
  have hturn : u.machine.turn = (x.event, x.after.trace false) := by
    rw [hx, Option.map_some] at hnext
    rw [Machine.turn_of_upcoming_some hnext, ht, if_neg Bool.false_ne_true, ← hrun]
    rfl
  rw [beat_of_idle hu ht hi', hturn, hnext, hx]
  rfl

/-- As many turns as are taken before an event are followed in as many beats. -/
theorem turns (h : Follows script record d u) (hi : d.machine.Idle) (ho : d.outcome? = none)
    (budget : Nat) : ∃ n u' record', Beats script n u u' ∧ (0 < budget → 0 < n) ∧
      Follows script record' (d.note script (d.machine.turnsHistory budget)
        (d.machine.turns budget).1 (d.machine.turns budget).2) u' := by
  induction budget generalizing d u record with
  | zero =>
    have hd : d.note script [] .running d.machine = d := by
      simp [Dialogue.note, reply, Event.delivered]
    refine ⟨0, u, record, .refl u, id, ?_⟩
    show Follows script record (d.note script [] .running d.machine) u
    rwa [hd]
  | succ budget ih =>
    have hbeat := Beats.single script (h.untraced_of_idle hi ho).1
    rw [Machine.turns, Machine.turnsHistory]
    cases hx : d.machine.upcoming? with
    | none =>
      rw [h.beat_of_upcoming_none hi ho hx] at hbeat
      rw [Machine.turn_of_upcoming_none hx]
      exact ⟨1, _, _, hbeat, fun _ => Nat.one_pos,
        h.note hi.1 [.aside .stopped] (m := { d.machine with phase := .halted }) hi.1 rfl rfl rfl⟩
    | some x =>
      obtain ⟨hm, -, -⟩ := Machine.upcoming?_eq_some_iff.1 hx
      have hqueued : x.machine.queued = none := hm ▸ hi.1
      have hturn := Machine.turn_of_upcoming_some hx
      rw [h.beat_of_upcoming_some hi ho hx] at hbeat
      rw [← hm] at hturn
      cases ht : x.machine.tracing with
      | true =>
        rw [← hm, hturn, ht]
        exact ⟨1, _, _, hbeat, fun _ => Nat.one_pos, h.mark hi.1 ho hqueued ht⟩
      | false =>
        have hafter : x.after.queued = none :=
          (Machine.queued_runLine x.line x.machine).trans hqueued
        have hnote : Follows script (record ++ [.line x])
            (d.note script [x] (x.event.getD .running) x.after)
            (u.note script [x.untraced] (x.event.getD .running) (x.after.trace false)) :=
          h.note hi.1 [.line x] hafter rfl (by simp [Entry.shown, ht, x.delivered_event])
            (by simp [Entry.plain, x.delivered_event])
        have hran : x.machine.turn = (x.event, x.after) := by
          rw [hturn, ht]
          rfl
        rw [← hm, hran]
        cases hevent : x.event with
        | some event =>
          rw [hevent] at hnote hbeat
          exact ⟨1, _, _, hbeat, fun _ => Nat.one_pos, hnote⟩
        | none =>
          rw [hevent, Option.getD_none] at hnote hbeat
          have hidle : x.after.Idle := Machine.idle_of_turn (hm ▸ hi) (hevent ▸ hran)
          obtain ⟨n, u', record', hbeats, -, hfollows⟩ := ih hnote hidle
            ((outcome_note_running _ _ _).trans ho)
          rw [note_note] at hfollows
          exact ⟨1 + n, u', record', hbeat.trans hbeats, fun _ => by omega, hfollows⟩

/-- What is left over is settled in one beat. -/
theorem beat_of_awaiting (h : Follows script record d u) (hq : d.machine.queued = none)
    (ho : d.outcome? = none) {number : Nat} {names : List Text} {answer : Option Text}
    (hp : d.machine.phase = .awaiting number names answer) : u.beat script =
      u.note script [] (d.machine.resume.1.getD .running) (d.machine.resume.2.trace false) := by
  have hm := h.machine_of_queued_none hq
  have hu := (h.outcome_of_queued_none hq).trans ho
  have ht : u.machine.tracing = false := by
    rw [hm]
    rfl
  have hp' : u.machine.phase = .awaiting number names answer := by
    rw [hm]
    exact hp
  rw [Dialogue.beat_of_awaiting hu ht hp', hm, Machine.resume_trace]

/-- The event behind a mark is delivered later than without tracing. -/
theorem deliver (h : Follows script record d u) {event : Event}
    (hq : d.machine.queued = some event) :
    Follows script record (d.note script [] event { d.machine with queued := none }) u := by
  have hqueued :
      (d.note script [] event { d.machine with queued := none }).machine.queued = none :=
    queued_reply _ _ _
  have hdelivered : event.delivered = [event] :=
    if_neg fun he => h.queued_ne (hq.trans (congrArg some he))
  have hlines : (d.note script [] event { d.machine with queued := none }).lines = d.lines :=
    List.append_nil _
  refine ⟨⟨hlines.trans h.lines_eq, ?_, ?_, h.heard_plain⟩, ?_, ?_, fun _ => hqueued⟩
  · rw [hlines]
    exact h.lines_plain
  · rw [← h.heard_eq, hqueued, hq, Option.toList_none, List.append_nil, Option.toList_some,
      ← hdelivered]
    rfl
  · rw [settled_of_queued_none hqueued, h.machine_eq, settled, hq]
    exact reply_trace _ _ false { d.machine with queued := none }
  · rw [hqueued]
    nofun

/-- An execution is followed in beats, at least one unless it only delivers what waited. -/
theorem execute (h : Follows script record d u) (ho : d.outcome? = none) (budget : Nat) :
    ∃ n u' record', Beats script n u u' ∧
      Follows script record' (d.note script (d.machine.runHistory budget)
        (d.machine.run budget).1 (d.machine.run budget).2) u' ∧
      (0 < budget → 0 < n ∨
        (d.machine.queued ≠ none ∧ (d.machine.run budget).2.queued = none)) := by
  rw [Machine.run, Machine.runHistory]
  have hr := d.machine.resumption_resume
  generalize hresumed : d.machine.resume = resumed at hr
  cases hr with
  | @reported event hq =>
    exact ⟨0, u, record, .refl u, h.deliver hq, fun _ => .inr ⟨by simp [hq], rfl⟩⟩
  | waiting hq hp =>
    have hbeat := Beats.single script ((h.outcome_of_queued_none hq).trans ho)
    rw [h.beat_of_awaiting hq ho hp, hresumed] at hbeat
    exact ⟨1, _, _, hbeat, h.note hq [.aside .input] hq rfl rfl rfl,
      fun _ => .inl Nat.one_pos⟩
  | @answered _ _ _ vars hq hp ha =>
    have hbeat := Beats.single script ((h.outcome_of_queued_none hq).trans ho)
    rw [h.beat_of_awaiting hq ho hp, hresumed] at hbeat
    have hnote : Follows script (record ++ []) (d.note script [] .running _) _ :=
      h.note hq [] (m := { d.machine with phase := .running, vars }) hq rfl rfl rfl
    obtain ⟨n, u', record', hbeats, -, hfollows⟩ := hnote.turns (Machine.idle_of_resume hresumed)
      ((outcome_note_running _ _ _).trans ho) budget
    rw [note_note] at hfollows
    exact ⟨1 + n, u', record', hbeat.trans hbeats, hfollows, fun _ => .inl (by omega)⟩
  | @rejected _ _ _ e hq hp ha =>
    have hbeat := Beats.single script ((h.outcome_of_queued_none hq).trans ho)
    rw [h.beat_of_awaiting hq ho hp, hresumed] at hbeat
    exact ⟨1, _, _, hbeat,
      h.note hq [.aside _] (m := { d.machine with phase := .halted }) hq rfl rfl rfl,
      fun _ => .inl Nat.one_pos⟩
  | idle hi =>
    obtain ⟨n, u', record', hbeats, hn, hfollows⟩ := h.turns hi ho budget
    exact ⟨n, u', record', hbeats, hfollows, fun hb => .inl (hn hb)⟩

theorem call (h : Follows script record d u) (c : Slice) :
    ∃ n u' record', Beats script n u u' ∧ Follows script record' (d.call script c) u' ∧
      ((d.call script c).outcome? = none → 0 < c.budget →
        (d.call script c).pending + 1 ≤ 2 * n + d.pending) := by
  cases ho : d.outcome? with
  | some event =>
    rw [call_of_outcome (by simp [ho])]
    exact ⟨0, u, record, .refl u, h, fun hnone => by simp [ho] at hnone⟩
  | none =>
    obtain ⟨n, u', record', hbeats, hfollows, hn⟩ := (h.trace c.tracing).execute ho c.budget
    have hcall : d.call script c = Dialogue.note script _ _ _
      { d with machine := d.machine.trace c.tracing } := if_neg (by simp [ho])
    rw [← hcall] at hfollows
    refine ⟨n, u', record', hbeats, hfollows, fun _ hb => ?_⟩
    rcases hn hb with hn | ⟨hsome, hnone⟩
    · have hle := (d.call script c).pending_le
      omega
    · have hafter : (d.call script c).pending = 0 := by
        rw [hcall, pending]
        show (reply script _ _ _).queued.toList.length = 0
        rw [queued_reply, hnone]
        rfl
      have hbefore : d.pending ≠ 0 := by
        simpa [pending] using show d.machine.queued ≠ none from hsome
      omega

/-- A traced dialogue is followed through, and while it has not ended every two executions take a
beat. -/
theorem after (h : Follows script record d u) (slices : List Slice) :
    ∃ n u' record', Beats script n u u' ∧ Follows script record' (d.after script slices) u' ∧
      ((d.after script slices).outcome? = none → (∀ c ∈ slices, 0 < c.budget) →
        (d.after script slices).pending + slices.length ≤ 2 * n + d.pending) := by
  induction slices generalizing d u record with
  | nil => exact ⟨0, u, record, .refl u, h, fun _ _ => by simp [Dialogue.after]⟩
  | cons c slices ih =>
    obtain ⟨n, u', record', hbeats, hfollows, hn⟩ := h.call c
    obtain ⟨n', u'', record'', hbeats', hfollows', hn'⟩ := ih hfollows
    refine ⟨n + n', u'', record'', hbeats.trans hbeats', hfollows', fun ho hb => ?_⟩
    have hcall : (d.call script c).outcome? = none := by
      by_contra hsome
      have hafter := after_of_outcome script slices (Option.isSome_iff_ne_none.2 hsome)
      exact hsome (hafter ▸ ho)
    have hfirst := hn hcall (hb c List.mem_cons_self)
    have hrest := hn' ho fun c hc => hb c (List.mem_cons_of_mem _ hc)
    simp only [List.length_cons]
    show ((d.call script c).after script slices).pending + _ ≤ _
    omega

end Follows

/-- Dialogues without tracing. -/
structure Untraced (d : Dialogue) : Prop where
  tracing : d.machine.tracing = false
  queued : d.machine.queued = none
  lines : ∀ x ∈ d.lines, x.machine.tracing = false

namespace Untraced

theorem opening (program : Program) : Untraced (opening program) :=
  ⟨rfl, rfl, fun _ hx => absurd hx List.not_mem_nil⟩

theorem call (h : Untraced d) {c : Slice} (hc : c.tracing = false) :
    Untraced (d.call script c) := by
  unfold Dialogue.call
  split
  · exact h
  · obtain ⟨htracing, hqueued, hlines⟩ :=
      Machine.run_of_untraced (m := d.machine.trace c.tracing) hc h.queued c.budget
    refine ⟨?_, (queued_reply _ _ _).trans hqueued, ?_⟩
    · obtain ⟨phase, hreply⟩ := exists_reply_eq script d.asked
        ((d.machine.trace c.tracing).run c.budget).1 ((d.machine.trace c.tracing).run c.budget).2
      show (reply script d.asked _ _).tracing = false
      rw [hreply]
      exact htracing
    · intro x hx
      rcases List.mem_append.1 hx with hx | hx
      · exact h.lines x hx
      · exact hlines x hx

theorem after (h : Untraced d) {slices : List Slice} (hs : ∀ c ∈ slices, c.tracing = false) :
    Untraced (d.after script slices) := by
  induction slices generalizing d with
  | nil => exact h
  | cons c slices ih =>
    exact ih (h.call (hs c List.mem_cons_self)) fun c hc => hs c (List.mem_cons_of_mem _ hc)

/-- Without tracing there is no difference. -/
theorem eq_of_follows (h : Untraced d) (hf : Follows script record d u) : u = d := by
  have hmachine : u.machine = d.machine := by
    rw [hf.machine_of_queued_none h.queued, ← h.tracing]
    rfl
  have hlines : u.lines = d.lines := by
    rw [hf.lines_plain,
      List.map_congr_left fun x hx => Execution.untraced_of_tracing (h.lines x hx), List.map_id']
  have hentries : ∀ entry ∈ record, entry.plain = entry.shown := by
    intro entry hentry
    cases entry with
    | aside event => rfl
    | line x =>
      have hx : x ∈ d.lines := by
        rw [hf.lines_eq]
        exact List.mem_filterMap.2 ⟨_, hentry, rfl⟩
      simp [Entry.plain, Entry.shown, h.lines x hx]
  have hheard : u.heard = d.heard := by
    rw [hf.heard_plain, List.flatMap_congr hentries, ← hf.heard_eq, h.queued, Option.toList_none,
      List.append_nil]
  obtain ⟨machine, lines, heard⟩ := u
  dsimp only at hmachine hlines hheard
  rw [hmachine, hlines, hheard]

end Untraced

/-- At each point of a dialogue in which tracing is switched on and off, a dialogue without tracing
has come as far: it ran the same lines, and delivered the same events but for the marks. Where the
one has ended, so does every other in time, and those without tracing do so with the same event. -/
theorem tracing_adds_marks (program : Program) (script : Nat → Option Text)
    (slices : List Slice) :
    let d := (opening program).after script slices
    (∃ plain, (∀ c ∈ plain, c.tracing = false) ∧
      d.AddsMarks ((opening program).after script plain)) ∧
    (d.outcome?.isSome →
      d.machine.queued = none ∧
      (∀ plain, (∀ c ∈ plain, c.tracing = false) →
        ((opening program).after script plain).outcome?.isSome →
        d.outcome? = ((opening program).after script plain).outcome? ∧
          d.AddsMarks ((opening program).after script plain)) ∧
      ∃ bound, ∀ others : List Slice, (∀ c ∈ others, 0 < c.budget) → bound ≤ others.length →
        ((opening program).after script others).outcome?.isSome) := by
  intro d
  obtain ⟨n, u, record, hbeats, hfollows, -⟩ := (Follows.opening script program).after slices
  have hadds : d.AddsMarks u := ⟨⟨record, hfollows.toRecords⟩, hfollows.data_eq.symm⟩
  refine ⟨?_, fun ho => ?_⟩
  · obtain ⟨plain, hplain, hafter⟩ := hbeats.exists_plain
    exact ⟨plain, hplain, hafter ▸ hadds⟩
  · have hqueued := hfollows.complete ho
    have houtcome : u.outcome? = d.outcome? := hfollows.outcome_of_queued_none hqueued
    have hu : u.outcome?.isSome := houtcome ▸ ho
    refine ⟨hqueued, fun plain hplain ho' => ?_, 2 * n + 1, fun others hb hlength => ?_⟩
    · obtain ⟨n', u', record', hbeats', hfollows', -⟩ :=
        (Follows.opening script program).after plain
      obtain rfl := ((Untraced.opening program).after hplain).eq_of_follows hfollows'
      obtain rfl := (hbeats.le_of_outcome hbeats' ho').2 hu
      exact ⟨houtcome.symm, hadds⟩
    · obtain ⟨n', u', record', hbeats', -, hn⟩ := (Follows.opening script program).after others
      by_contra hnone
      have hcount := hn (by simpa using hnone) hb
      have hle := (hbeats'.le_of_outcome hbeats hu).1
      have hstart : (opening program).pending = 0 := rfl
      omega

/-- A request for input that waits behind its mark while tracing is switched off. -/
theorem tracing_adds_marks_switched :
    let program : Program := ⟨#[⟨10, "INTEGER A".toList⟩, ⟨20, "INPUT A".toList⟩]⟩
    let script : Nat → Option Text := fun _ => some "7".toList
    let slices : List Slice := [⟨false, 1⟩, ⟨true, 5⟩, ⟨false, 5⟩, ⟨true, 5⟩]
    let d := (opening program).after script slices
    let u := (opening program).after script [⟨false, 9⟩, ⟨false, 9⟩]
    d.heard = [.print "[20]".toList, .input, .stopped] ∧ u.heard = [.input, .stopped] ∧
      d.outcome? = u.outcome? ∧ d.AddsMarks u := by
  intro program script slices d u
  have hd : d.heard = [.print "[20]".toList, .input, .stopped] := by decide +kernel
  have hu : u.heard = [.input, .stopped] := by decide +kernel
  have ho : d.outcome?.isSome := by
    rw [outcome?, hd]
    rfl
  have ho' : u.outcome?.isSome := by
    rw [outcome?, hu]
    rfl
  obtain ⟨-, hplain, -⟩ := (tracing_adds_marks program script slices).2 ho
  exact ⟨hd, hu, hplain _ (by simp) ho'⟩

end Dialogue
end LineScript
