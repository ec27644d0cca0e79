import LineScript.Proofs.Fields
import LineScript.Proofs.Halting
import LineScript.Proofs.Interrupts

/-!
Every line of input reaches the line of the program that asked for it, in order. A request takes
three executions: the line is run, the request is handed to the console, and the answer is
assigned. In between, no other line is run, so an account of the lines run, the results read and
the text written is exact but for the events that are still owed to the console.
-/
namespace LineScript

namespace Event

/-- What an event has the console write. -/
def text : Event → Text
  | .print text => text
  | .stopped | .ended | .running | .input | .failed _ => []

/-- The events that a session does not simply pass on: a request, and those that end it. -/
def isLoud (event : Event) : Bool :=
  event = .input || event.isTerminal

/-- What a session ends with. -/
def result : Event → Except Error Unit
  | .failed e => .error e
  | .stopped | .ended | .running | .print _ | .input => .ok ()

variable {event : Event} (h : event.isTerminal = true)
include h

theorem isLoud_of_isTerminal : event.isLoud = true := by
  simp [isLoud, h]

theorem ne_input_of_isTerminal : event ≠ .input := by
  rintro rfl
  cases h

theorem text_of_isTerminal : event.text = [] := by
  cases event with
  | print text => cases h
  | _ => rfl

end Event

namespace Execution

/-- The line is one of input, and all its variables are declared. -/
def asks (x : Execution) : Bool :=
  x.wanted?.isSome

/-- The variables after a request is answered with what was read; where the input has ended, that
is an empty line. -/
def answered (x : Execution) (result : Option Text) : Except Error Store :=
  Answer.assign (x.wanted?.getD []) (Machine.chomp (result.getD [])) x.machine.vars

theorem assigned_of_answered {x : Execution} {names : List Text} (hw : x.wanted? = some names)
    {result : Option Text} {vars : Store} (h : x.answered result = .ok vars) :
    ∃ values, Answer.Assigned names (Text.words (result.getD [])) values x.machine.vars vars := by
  obtain ⟨hne, hdeclared⟩ := declared_of_wanted hw
  rw [answered, hw] at h
  rw [← Text.words_chomp]
  exact Answer.assigned_of_assign hne hdeclared h

theorem refused_of_answered {x : Execution} {names : List Text} (hw : x.wanted? = some names)
    {result : Option Text} {e : Error} (h : x.answered result = .error e) :
    Answer.Refused names (Text.words (result.getD [])) e := by
  obtain ⟨hne, hdeclared⟩ := declared_of_wanted hw
  rw [answered, hw] at h
  rw [← Text.words_chomp]
  exact Answer.refused_of_assign hne hdeclared h

/-- The text that a line has written: its mark, if lines are traced, and what it prints itself. -/
def shown (tracing : Bool) (x : Execution) : Text :=
  (if tracing then Machine.mark x.line.number else []) ++ x.event.toList.flatMap Event.text

end Execution

/-- The lines that have been run and the results that have been read lead to the given variables:
each line that asks is answered with the next result, and no other line is. -/
inductive Fed : List Execution → List (Option Text) → Store → Prop where
  | start : Fed [] [] .empty
  | line {lines : List Execution} {results : List (Option Text)} {x : Execution}
      (h : Fed lines results x.machine.vars) (hx : x.asks = false) :
      Fed (lines ++ [x]) results x.after.vars
  | answer {lines : List Execution} {results : List (Option Text)} {x : Execution}
      {result : Option Text} {vars : Store} (h : Fed lines results x.machine.vars)
      (hx : x.asks = true) (ha : x.answered result = .ok vars) :
      Fed (lines ++ [x]) (results ++ [result]) vars

/-- The variables that the next line finds, or else those at the end. -/
def following (future : List Execution) (vars : Store) : Store :=
  (future.head?.map fun y => y.machine.vars).getD vars

theorem following_concat (future : List Execution) (y : Execution) (vars : Store) :
    following (future ++ [y]) vars = following future y.machine.vars := by
  cases future <;> rfl

/-- A line leaves its own variables to what follows, unless it asks: then it leaves those of the
answer, which is the result with as many before it as there are lines before it that ask. -/
structure Given (results : List (Option Text)) (past : List Execution) (x : Execution)
    (next : Store) : Prop where
  own : x.asks = false → next = x.after.vars
  answer : x.asks = true → ∃ result, results[past.countP Execution.asks]? = some result ∧
    x.answered result = .ok next

theorem Given.mono {results more : List (Option Text)} {past : List Execution} {x : Execution}
    {next : Store} (h : Given results past x next) : Given (results ++ more) past x next := by
  refine ⟨h.own, fun hx => ?_⟩
  obtain ⟨result, hresult, ha⟩ := h.answer hx
  obtain ⟨hlt, -⟩ := List.getElem?_eq_some_iff.1 hresult
  exact ⟨result, by rwa [List.getElem?_append_left hlt], ha⟩

namespace Fed

variable {lines past future : List Execution} {results : List (Option Text)} {vars : Store}
  {x : Execution}

theorem length_eq (h : Fed lines results vars) :
    results.length = lines.countP Execution.asks := by
  induction h with
  | start => rfl
  | line _ hx ih => simp [ih, hx]
  | answer _ hx _ ih => simp [ih, hx]

theorem given (h : Fed lines results vars) (hl : lines = past ++ x :: future) :
    Given results past x (following future vars) := by
  induction h generalizing future with
  | start => simp at hl
  | line h hy ih =>
    obtain ⟨rfl, rfl, rfl⟩ | ⟨earlier, rfl, hlines⟩ := Machine.split_of_concat hl
    · exact ⟨fun _ => rfl, fun hx => by simp [hy] at hx⟩
    · rw [following_concat]
      exact ih hlines
  | @answer lines results y result vars h hy ha ih =>
    obtain ⟨rfl, rfl, rfl⟩ | ⟨earlier, rfl, hlines⟩ := Machine.split_of_concat hl
    · refine ⟨fun hx => by simp [hy] at hx, fun _ => ⟨result, ?_, ha⟩⟩
      rw [← h.length_eq, List.getElem?_concat_length]
    · rw [following_concat]
      exact (ih hlines).mono

/-- Whatever has come of the last line, those before it are given what they ask for. -/
theorem given_or_last {y : Execution} (h : Fed lines results y.machine.vars)
    (hl : lines ++ [y] = past ++ x :: future) (more : List (Option Text)) (vars : Store) :
    Given (results ++ more) past x (following future vars) ∨
      past = lines ∧ x = y ∧ future = [] := by
  rcases Machine.split_of_concat hl with hlast | ⟨earlier, rfl, hlines⟩
  · exact .inr hlast
  · rw [following_concat]
    exact .inl (h.given hlines).mono

end Fed

/-- How a machine stands with the lines run and the results read so far, given the one event that
is owed to the console beside text, if there is one. -/
inductive Standing (lines : List Execution) (results : List (Option Text)) :
    List Event → Phase → Store → Prop where
  | active {vars : Store} (hf : Fed lines results vars) : Standing lines results [] .running vars
  | asking {past : List Execution} {x : Execution} (hl : lines = past ++ [x])
      (hx : x.asks = true) (hf : Fed past results x.machine.vars) :
      Standing lines results [.input] (.awaiting x.line.number (x.wanted?.getD []) none)
        x.machine.vars
  | answered {past : List Execution} {x : Execution} {before : List (Option Text)}
      {result : Option Text} (hl : lines = past ++ [x]) (hr : results = before ++ [result])
      (hx : x.asks = true) (hf : Fed past before x.machine.vars) :
      Standing lines results [] (.awaiting x.line.number (x.wanted?.getD [])
        (some (Machine.chomp (result.getD [])))) x.machine.vars
  | halted {event : Event} {vars : Store} (he : event.isTerminal = true)
      (hf : Fed lines results vars) : Standing lines results [event] .halted vars
  | refused {past : List Execution} {x : Execution} {before : List (Option Text)}
      {result : Option Text} {e : Error} (hl : lines = past ++ [x])
      (hr : results = before ++ [result]) (hx : x.asks = true)
      (hf : Fed past before x.machine.vars) (ha : x.answered result = .error e) :
      Standing lines results [.failed (e.inLine x.line.number)] .halted x.machine.vars

namespace Standing

variable {lines past future : List Execution} {results : List (Option Text)}
  {loud rest : List Event} {event : Event} {phase : Phase} {vars : Store} {x : Execution}

/-- At most one event is owed beside text. -/
theorem loud_of_cons (h : Standing lines results (event :: rest) phase vars) :
    event.isLoud = true ∧ rest = [] := by
  cases h with
  | asking => exact ⟨rfl, rfl⟩
  | halted ht => exact ⟨Event.isLoud_of_isTerminal ht, rfl⟩
  | refused => exact ⟨rfl, rfl⟩

/-- Every line that has asked has been answered, unless its request is still owed. -/
theorem countP_asks (h : Standing lines results loud phase vars) :
    lines.countP Execution.asks = results.length + loud.count .input := by
  cases h with
  | active hf => simp [hf.length_eq]
  | asking hl hx hf => simp [hl, hx, hf.length_eq]
  | answered hl hr hx hf => simp [hl, hr, hx, hf.length_eq]
  | halted ht hf => simp [hf.length_eq, Event.ne_input_of_isTerminal ht]
  | refused hl hr hx hf => simp [hl, hr, hx, hf.length_eq]

/-- Each line leaves its variables, or those of its answer, to what follows; only the last one may
have no answer yet, or one that was refused. -/
theorem given_or_last (h : Standing lines results loud phase vars)
    (hl : lines = past ++ x :: future) :
    Given results past x (following future vars) ∨
      future = [] ∧ x.asks = true ∧ ∀ event ∈ loud, event.isTerminal = true →
        ∃ result e, results[past.countP Execution.asks]? = some result ∧
          x.answered result = .error e ∧ event = .failed (e.inLine x.line.number) := by
  cases h with
  | active hf => exact .inl (hf.given hl)
  | halted ht hf => exact .inl (hf.given hl)
  | asking hlast hx hf =>
    obtain hgiven | ⟨-, rfl, rfl⟩ := hf.given_or_last (hlast.symm.trans hl) [] _
    · rw [List.append_nil] at hgiven
      exact .inl hgiven
    · exact .inr ⟨rfl, hx, by simp [Event.isTerminal]⟩
  | @answered _ _ before result hlast hr hx hf =>
    rw [hr]
    obtain hgiven | ⟨-, rfl, rfl⟩ := hf.given_or_last (hlast.symm.trans hl) [result] _
    · exact .inl hgiven
    · exact .inr ⟨rfl, hx, by simp⟩
  | @refused _ _ before result e hlast hr hx hf ha =>
    rw [hr]
    obtain hgiven | ⟨rfl, rfl, rfl⟩ := hf.given_or_last (hlast.symm.trans hl) [result] _
    · exact .inl hgiven
    · refine .inr ⟨rfl, hx, fun event hevent _ => ⟨result, e, ?_, ha, List.mem_singleton.1 hevent⟩⟩
      rw [← hf.length_eq, List.getElem?_concat_length]

end Standing

/-- The account of a session: the lines run, the results read, the text written, and the events
that are still owed. -/
structure Account (tracing : Bool) (lines : List Execution) (results : List (Option Text))
    (written : Text) (owed : List Event) (m : Machine) : Prop where
  tracing_eq : m.tracing = tracing
  text_eq : written ++ owed.flatMap Event.text = lines.flatMap (Execution.shown tracing)
  standing : ∃ quiet loud, owed = quiet ++ loud ∧ (∀ event ∈ quiet, event.isLoud = false) ∧
    Standing lines results loud m.phase m.vars

/-- What a single line adds. -/
theorem standing_line {lines : List Execution} {results : List (Option Text)} {x : Execution}
    (hx : x.machine.phase = .running) (hf : Fed lines results x.machine.vars) :
    ∃ quiet loud, x.event.toList = quiet ++ loud ∧ (∀ event ∈ quiet, event.isLoud = false) ∧
      Standing (lines ++ [x]) results loud x.after.phase x.after.vars := by
  have hactive : x.machine.phase ≠ .halted := by simp [hx]
  cases hw : x.wanted? with
  | some names =>
    have hasks : x.asks = true := by simp [Execution.asks, hw]
    have hstanding : Standing (lines ++ [x]) results [.input] _ _ := .asking rfl hasks hf
    rw [hw] at hstanding
    rw [Execution.event, Execution.after, Execution.runLine_of_wanted hw]
    exact ⟨[], [.input], rfl, by simp, hstanding⟩
  | none =>
    obtain ⟨hinput, hphase⟩ := Execution.runLine_of_not_wanted hw
    have hfed : Fed (lines ++ [x]) results x.after.vars := .line hf (by simp [Execution.asks, hw])
    have hrunning (h : x.after.phase ≠ .halted) : x.after.phase = .running :=
      (hphase.resolve_right h).trans hx
    cases hevent : x.event with
    | none =>
      have hhalted : x.after.phase = .halted ↔ x.event = some .ended ∨
        ∃ e, x.event = some (.failed e) := Machine.halted_runLine_iff hactive
      rw [hrunning (by simp [hhalted, hevent])]
      exact ⟨[], [], rfl, by simp, .active hfed⟩
    | some event =>
      obtain ⟨-, hterminal⟩ := Machine.terminal_of_runLine_iff hactive hevent
      by_cases ht : event.isTerminal = true
      · have hhalted : x.after.phase = .halted := hterminal.1 ht
        rw [hhalted]
        exact ⟨[], [event], rfl, by simp, .halted ht hfed⟩
      · rw [hrunning fun h => ht (hterminal.2 h)]
        refine ⟨[event], [], rfl, ?_, .active hfed⟩
        have hne : event ≠ .input := fun h => hinput (h ▸ hevent)
        simp [Event.isLoud, hne, ht]

namespace Account

variable {tracing : Bool} {lines : List Execution} {results : List (Option Text)} {written : Text}
  {owed rest : List Event} {event : Event} {m : Machine}

/-- A machine of which nothing is owed runs, or has the answer to its last line. -/
theorem cases_of_owed_nil (h : Account tracing lines results written [] m) :
    (m.phase = .running ∧ Fed lines results m.vars) ∨
      ∃ past x before result, lines = past ++ [x] ∧ results = before ++ [result] ∧
        x.asks = true ∧ Fed past before x.machine.vars ∧ m.vars = x.machine.vars ∧
        m.phase = .awaiting x.line.number (x.wanted?.getD [])
          (some (Machine.chomp (result.getD []))) := by
  obtain ⟨quiet, loud, howed, -, hs⟩ := h.standing
  obtain ⟨rfl, rfl⟩ := List.append_eq_nil_iff.1 howed.symm
  generalize m.phase = phase at hs
  generalize m.vars = vars at hs
  cases hs with
  | active hf => exact .inl ⟨rfl, hf⟩
  | answered hl hr hx hf => exact .inr ⟨_, _, _, _, hl, hr, hx, hf, rfl, rfl⟩

theorem fed_of_not_awaiting (h : Account tracing lines results written [] m)
    (hp : ∀ number names answer, m.phase ≠ .awaiting number names answer) :
    m.phase = .running ∧ Fed lines results m.vars := by
  obtain hf | ⟨past, x, before, result, -, -, -, -, -, hphase⟩ := h.cases_of_owed_nil
  · exact hf
  · exact absurd hphase (hp _ _ _)

/-- The last line asked for what a machine has been answered. -/
theorem exists_of_awaiting (h : Account tracing lines results written [] m) {number : Nat}
    {names : List Text} {answer : Option Text} (hp : m.phase = .awaiting number names answer) :
    ∃ past x before result, lines = past ++ [x] ∧ results = before ++ [result] ∧
      x.asks = true ∧ Fed past before x.machine.vars ∧ x.line.number = number ∧
      answer = some (Machine.chomp (result.getD [])) ∧
      x.answered result = Answer.assign names (Machine.chomp (result.getD [])) m.vars ∧
      m.vars = x.machine.vars := by
  obtain ⟨hphase, -⟩ | ⟨past, x, before, result, hl, hr, hx, hf, hvars, hphase⟩ :=
    h.cases_of_owed_nil
  · cases hp.symm.trans hphase
  · cases hp.symm.trans hphase
    exact ⟨past, x, before, result, hl, hr, hx, hf, rfl, rfl, by rw [hvars]; rfl, hvars⟩

/-- The event of a line is the next one, behind the mark of the line if lines are traced. -/
theorem line {x : Execution} (h : Account tracing lines results written [] x.machine)
    (hp : x.machine.phase = .running) :
    Account tracing (lines ++ [x]) results written
      ((if tracing then [.print (Machine.mark x.line.number)] else []) ++ x.event.toList)
      x.after := by
  obtain ⟨-, hf⟩ := h.fed_of_not_awaiting (by simp [hp])
  obtain ⟨quiet, loud, howed, hquiet, hs⟩ := standing_line hp hf
  have htracing : x.after.tracing = tracing :=
    (Machine.tracing_runLine x.line x.machine).trans h.tracing_eq
  have htext : written = lines.flatMap (Execution.shown tracing) := by simpa using h.text_eq
  refine ⟨htracing, ?_, _ ++ quiet, loud, by rw [howed, List.append_assoc], ?_, hs⟩
  · rw [htext]
    cases tracing <;> simp [Execution.shown, Event.text]
  · cases tracing with
    | true => simpa [Event.isLoud, Event.isTerminal] using hquiet
    | false => simpa using hquiet

theorem turns (h : Account tracing lines results written [] m) (hi : m.Idle) (budget : Nat) :
    Account tracing (lines ++ m.turnsHistory budget) results written
      ((m.turns budget).1 :: (m.turns budget).2.queued.toList) (m.turns budget).2 := by
  have hkeep : Machine.TurnsKeep (fun lines m => Account tracing lines results written [] m)
      fun lines event m => Account tracing lines results written (event :: m.queued.toList) m := by
    refine ⟨fun {lines m} h hi => ?_, fun {lines m} h hi => ?_, fun {lines x} h hx ht => ?_,
      fun {lines x event} h hx ht hevent hq => ?_, fun {lines x} h hx ht hevent _ => ?_⟩
    · obtain ⟨hp, hf⟩ := h.fed_of_not_awaiting hi.2
      have hs : Standing lines results [] m.phase m.vars := by
        rw [hp]
        exact .active hf
      rw [hi.1]
      exact ⟨h.tracing_eq, h.text_eq, [.running], [], rfl,
        by simp [Event.isLoud, Event.isTerminal], hs⟩
    · show Account tracing lines results written (.stopped :: m.queued.toList)
        { m with phase := .halted }
      rw [hi.1]
      exact ⟨h.tracing_eq, h.text_eq, [], [.stopped], rfl, by simp,
        .halted rfl (h.fed_of_not_awaiting hi.2).2⟩
    · obtain rfl : true = tracing := ht.symm.trans h.tracing_eq
      have hline := h.line hx.running
      exact ⟨hline.tracing_eq, hline.text_eq, hline.standing⟩
    · obtain rfl : false = tracing := ht.symm.trans h.tracing_eq
      have hline := h.line hx.running
      rw [hevent] at hline
      rw [hq]
      exact hline
    · obtain rfl : false = tracing := ht.symm.trans h.tracing_eq
      have hline := h.line hx.running
      rwa [hevent] at hline
  exact hkeep.turns h hi budget

/-- An execution reports the first event that is owed, and leaves the rest in the queue. -/
theorem run (h : Account tracing lines results written m.queued.toList m) (budget : Nat) :
    Account tracing (lines ++ m.runHistory budget) results written
      ((m.run budget).1 :: (m.run budget).2.queued.toList) (m.run budget).2 := by
  have hr := m.resumption_resume
  generalize hresumed : m.resume = resumed at hr
  cases hr with
  | @reported event hq =>
    obtain ⟨hrun, hlines⟩ := Machine.run_of_resume_some hresumed budget
    rw [hrun, hlines, List.append_nil]
    rw [hq] at h
    exact ⟨h.tracing_eq, h.text_eq, h.standing⟩
  | waiting hq hp =>
    rw [hq] at h
    obtain ⟨_, _, _, _, -, -, -, -, -, hanswer, -⟩ := h.exists_of_awaiting hp
    cases hanswer
  | @answered number names line vars hq hp ha =>
    obtain ⟨hrun, hlines⟩ := Machine.run_of_resume_none hresumed budget
    rw [hrun, hlines]
    rw [hq] at h
    obtain ⟨past, x, before, result, rfl, rfl, hx, hf, -, hanswer, hassign, -⟩ :=
      h.exists_of_awaiting hp
    cases hanswer
    have hs : Standing (past ++ [x]) (before ++ [result]) [] .running vars :=
      .active (.answer hf hx (hassign.trans ha))
    have hnext : Account tracing (past ++ [x]) (before ++ [result]) written []
      { m with phase := .running, vars } :=
      ⟨h.tracing_eq, h.text_eq, [], [], rfl, by simp, hs⟩
    exact hnext.turns (Machine.idle_of_resume hresumed) budget
  | rejected hq hp ha =>
    obtain ⟨hrun, hlines⟩ := Machine.run_of_resume_some hresumed budget
    rw [hrun, hlines, List.append_nil]
    rw [hq] at h
    obtain ⟨past, x, before, result, hl, hr, hx, hf, rfl, hanswer, hassign, hvars⟩ :=
      h.exists_of_awaiting hp
    cases hanswer
    have hs : Standing lines results _ .halted x.machine.vars :=
      .refused hl hr hx hf (hassign.trans ha)
    rw [← hvars] at hs
    show Account tracing lines results written (_ :: m.queued.toList) { m with phase := .halted }
    rw [hq]
    exact ⟨h.tracing_eq, h.text_eq, [], _, rfl, by simp, hs⟩
  | idle hm =>
    obtain ⟨hrun, hlines⟩ := Machine.run_of_resume_none hresumed budget
    rw [hrun, hlines]
    rw [hm.1] at h
    exact h.turns hm budget

theorem next_quiet (h : Account tracing lines results written (event :: rest) m)
    (he : event.isLoud = false) :
    Account tracing lines results (written ++ event.text) rest m := by
  obtain ⟨quiet, loud, howed, hquiet, hs⟩ := h.standing
  refine ⟨h.tracing_eq, by simpa using h.text_eq, ?_⟩
  cases quiet with
  | cons first quiet =>
    obtain ⟨-, rfl⟩ := List.cons.inj howed
    exact ⟨quiet, loud, rfl, (List.forall_mem_cons.1 hquiet).2, hs⟩
  | nil =>
    obtain rfl : event :: rest = loud := howed
    cases he.symm.trans hs.loud_of_cons.1

/-- Nothing is owed after a request, nor after an event that ends the session. -/
theorem next_loud (h : Account tracing lines results written (event :: rest) m)
    (he : event.isLoud = true) : rest = [] ∧ Standing lines results [event] m.phase m.vars := by
  obtain ⟨quiet, loud, howed, hquiet, hs⟩ := h.standing
  cases quiet with
  | cons first quiet =>
    obtain ⟨rfl, -⟩ := List.cons.inj howed
    simp [he] at hquiet
  | nil =>
    obtain rfl : event :: rest = loud := howed
    obtain ⟨-, rfl⟩ := hs.loud_of_cons
    exact ⟨rfl, hs⟩

/-- A result that is read is the answer to the last line. -/
theorem input (h : Account tracing lines results written (.input :: rest) m)
    (result : Option Text) : rest = [] ∧ Account tracing lines (results ++ [result]) written []
      (m.supply (result.getD [])).2 := by
  obtain ⟨rfl, hs⟩ := h.next_loud rfl
  refine ⟨rfl, ?_⟩
  generalize hphase : m.phase = phase at hs
  generalize hvars : m.vars = vars at hs
  cases hs with
  | asking hl hx hf =>
    have hanswered : Standing lines (results ++ [result]) [] _ _ := .answered hl rfl hx hf
    rw [← hvars] at hanswered
    rw [Machine.supply, hphase]
    exact ⟨h.tracing_eq, h.text_eq, [], [], rfl, by simp, hanswered⟩
  | halted ht => cases ht

end Account

/-- The call gave its result, and no interrupt arrived during it. -/
def Reply.isPlain {α : Type} (reply : Reply α) : Bool :=
  reply.result.isOk && !reply.raised

@[simp]
theorem Reply.isPlain_ok {α : Type} (a : α) (raised : Bool) :
    (⟨.ok a, raised⟩ : Reply α).isPlain = !raised := rfl

/-- A call at the console and its reply. -/
inductive Exchange where
  | write (text : Text) (reply : Reply Unit)
  | flush (reply : Reply Unit)
  | readLine (reply : Reply (Option Text))

namespace Exchange

def isPlain : Exchange → Bool
  | .write _ reply | .flush reply => reply.isPlain
  | .readLine reply => reply.isPlain

def text : Exchange → Text
  | .write text _ => text
  | .flush _ | .readLine _ => []

def reading? : Exchange → Option (Reply (Option Text))
  | .readLine reply => some reply
  | .write _ _ | .flush _ => none

end Exchange

/-- The console with a record of the calls and their replies, the last one first. -/
def Console.logged {σ : Type} (console : Console (StateM σ)) :
    Console (StateM (σ × List Exchange)) where
  write := fun text (w, log) =>
    let (reply, w) := console.write text w
    (reply, (w, .write text reply :: log))
  flush := fun (w, log) =>
    let (reply, w) := console.flush w
    (reply, (w, .flush reply :: log))
  readLine := fun (w, log) =>
    let (reply, w) := console.readLine w
    (reply, (w, .readLine reply :: log))

/-- The replies to the calls for a line, in order. -/
def readings (log : List Exchange) : List (Reply (Option Text)) :=
  log.reverse.filterMap Exchange.reading?

/-- The text that has been written. -/
def transcript (log : List Exchange) : Text :=
  log.reverse.flatMap Exchange.text

theorem readings_cons (x : Exchange) (log : List Exchange) :
    readings (x :: log) = readings log ++ x.reading?.toList := by
  cases h : x.reading? <;> simp [readings, h]

theorem transcript_cons (x : Exchange) (log : List Exchange) :
    transcript (x :: log) = transcript log ++ x.text := by
  simp [transcript]

namespace Session

variable {σ : Type} {log : List Exchange} {tracing : Bool} {lines : List Execution} {m : Machine}
  {event : Event}

/-- What comes of an event where nothing goes wrong at the console. -/
inductive Handled (m : Machine) : Event → List Exchange → Progress → Prop where
  | print (text : Text) : Handled m (.print text) [.flush (.ok ()), .write text (.ok ())]
      (none, ⟨m, false⟩)
  | input (result : Option Text) : Handled m .input [.readLine (.ok result)]
      (none, ⟨(m.supply (result.getD [])).2, false⟩)
  | running : Handled m .running [] (none, ⟨m, false⟩)
  | terminal {event : Event} (ht : event.isTerminal = true) :
      Handled m event [] (some event.result, ⟨m, false⟩)

/-- A text takes two calls, and the second is made only if the first does not fail. -/
theorem handle_print_logged (console : Console (StateM σ)) (text : Text) (m : Machine) (w : σ)
    (log : List Exchange) :
    ∃ p w' new, handle console.logged (.print text) ⟨m, false⟩ (w, log) = (p, (w', new ++ log)) ∧
      ((∀ x ∈ new, x.isPlain = true) → Handled m (.print text) new p) := by
  rw [handle, bind_apply]
  dsimp only [Console.logged]
  generalize console.write text w = written
  obtain ⟨⟨result, raised⟩, w₁⟩ := written
  cases result with
  | error reason =>
    refine ⟨_, w₁, [.write text ⟨.error reason, raised⟩], rfl, fun h => ?_⟩
    cases h _ List.mem_cons_self
  | ok _ =>
    dsimp only [receive]
    rw [bind_apply]
    dsimp only
    generalize console.flush w₁ = flushed
    obtain ⟨⟨result, raised'⟩, w₂⟩ := flushed
    cases result with
    | error reason =>
      refine ⟨_, w₂, [.flush ⟨.error reason, raised'⟩, .write text ⟨.ok (), raised⟩], rfl,
        fun h => ?_⟩
      cases h _ List.mem_cons_self
    | ok _ =>
      refine ⟨_, w₂, [.flush ⟨.ok (), raised'⟩, .write text ⟨.ok (), raised⟩], rfl, fun h => ?_⟩
      obtain ⟨rfl, rfl⟩ : raised' = false ∧ raised = false := by simpa [Exchange.isPlain] using h
      exact .print text

theorem handle_input_logged (console : Console (StateM σ)) (m : Machine) (w : σ)
    (log : List Exchange) :
    ∃ p w' new, handle console.logged .input ⟨m, false⟩ (w, log) = (p, (w', new ++ log)) ∧
      ((∀ x ∈ new, x.isPlain = true) → Handled m .input new p) := by
  rw [handle, bind_apply]
  dsimp only [Console.logged]
  generalize console.readLine w = read
  obtain ⟨⟨result, raised⟩, w₁⟩ := read
  cases result with
  | error reason =>
    refine ⟨_, w₁, [.readLine ⟨.error reason, raised⟩], rfl, fun h => ?_⟩
    cases h _ List.mem_cons_self
  | ok result =>
    refine ⟨_, w₁, [.readLine ⟨.ok result, raised⟩], rfl, fun h => ?_⟩
    obtain rfl : raised = false := by simpa [Exchange.isPlain] using h
    cases result with
    | some line => exact .input (some line)
    | none => exact .input none

theorem handle_logged (console : Console (StateM σ)) (event : Event) (m : Machine) (w : σ)
    (log : List Exchange) :
    ∃ p w' new, handle console.logged event ⟨m, false⟩ (w, log) = (p, (w', new ++ log)) ∧
      ((∀ x ∈ new, x.isPlain = true) → Handled m event new p) := by
  cases event with
  | stopped => exact ⟨_, w, [], rfl, fun _ => .terminal rfl⟩
  | ended => exact ⟨_, w, [], rfl, fun _ => .terminal rfl⟩
  | failed e => exact ⟨_, w, [], rfl, fun _ => .terminal rfl⟩
  | running => exact ⟨_, w, [], rfl, fun _ => .running⟩
  | print text => exact handle_print_logged console text m w log
  | input => exact handle_input_logged console m w log

/-- The account of a session after a step: what is owed is in the queue, or the session has ended
with what was owed last. -/
inductive Accounted (tracing : Bool) (lines : List Execution) (log : List Exchange) :
    Progress → Prop where
  | pending {results : List (Option Text)} {m : Machine}
      (hr : readings log = results.map .ok)
      (ha : Account tracing lines results (transcript log) m.queued.toList m) :
      Accounted tracing lines log (none, ⟨m, false⟩)
  | ended {results : List (Option Text)} {m : Machine} {event : Event}
      (hr : readings log = results.map .ok) (ht : event.isTerminal = true)
      (ha : Account tracing lines results (transcript log) [event] m) :
      Accounted tracing lines log (some event.result, ⟨m, false⟩)

theorem Handled.accounted {results : List (Option Text)} {new : List Exchange} {p : Progress}
    (h : Handled m event new p) (hr : readings log = results.map .ok)
    (ha : Account tracing lines results (transcript log) (event :: m.queued.toList) m) :
    Accounted tracing lines (new ++ log) p := by
  cases h with
  | print text =>
    have hnext : Account tracing lines results (transcript log ++ text) m.queued.toList m :=
      ha.next_quiet rfl
    refine @Accounted.pending _ _ _ results _ ?_ ?_
    · simpa [readings_cons, Exchange.reading?] using hr
    · simpa [transcript_cons, Exchange.text] using hnext
  | input result =>
    obtain ⟨hqueued, hnext⟩ := ha.input result
    obtain ⟨phase, -, hsupply⟩ := m.exists_supply_eq (result.getD [])
    refine @Accounted.pending _ _ _ (results ++ [result]) _ ?_ ?_
    · simpa [readings_cons, Exchange.reading?] using hr
    · rw [hsupply] at hnext ⊢
      rw [hqueued]
      simpa [transcript_cons, Exchange.text] using hnext
  | running =>
    have hnext := ha.next_quiet rfl
    refine .pending hr ?_
    rwa [Event.text, List.append_nil] at hnext
  | terminal ht =>
    obtain ⟨hqueued, -⟩ := ha.next_loud (Event.isLoud_of_isTerminal ht)
    rw [hqueued] at ha
    exact .ended hr ht ha

theorem step_logged (console : Console (StateM σ)) (budget : Nat) (s : Session) (w : σ)
    (log : List Exchange) :
    ∃ p w' new, step console.logged budget s (w, log) = (p, (w', new ++ log)) ∧
      ((∀ x ∈ new, x.isPlain = true) → Accounted tracing lines log (none, s) →
        Accounted tracing (lines ++ s.woken.runHistory budget) (new ++ log) p) := by
  obtain ⟨p, w', new, hhandle, hhandled⟩ :=
    handle_logged console (s.woken.run budget).1 (s.woken.run budget).2 w log
  refine ⟨p, w', new, hhandle, fun hplain h => ?_⟩
  cases h with
  | pending hr ha => exact (hhandled hplain).accounted hr (ha.run budget)

/-- The account is kept through a run. The record only grows, whatever the replies are; so if all
of it is plain at the end, it was plain at each step. -/
theorem run_logged (console : Console (StateM σ)) (budget fuel : Nat) (s : Session) (w : σ)
    (log : List Exchange) :
    ∃ p w' new, run console.logged budget fuel s (w, log) = (p, (w', new ++ log)) ∧
      ((∀ x ∈ new, x.isPlain = true) → Accounted tracing lines log (none, s) →
        Accounted tracing (lines ++ history console.logged budget fuel s (w, log))
          (new ++ log) p) := by
  induction fuel generalizing s w log lines with
  | zero =>
    refine ⟨_, w, [], rfl, fun _ h => ?_⟩
    rw [history, List.append_nil]
    exact h
  | succ fuel ih =>
    obtain ⟨⟨r, next⟩, w₁, new, hstep, hstepped⟩ := step_logged console budget s w log
    rw [run_succ, history, hstep]
    cases r with
    | some r => exact ⟨_, w₁, new, rfl, fun hplain h => by simpa using hstepped hplain h⟩
    | none =>
      obtain ⟨p, w', more, hrun, hrest⟩ := ih next w₁ (new ++ log)
      refine ⟨p, w', more ++ new, by rwa [List.append_assoc], fun hplain h => ?_⟩
      obtain ⟨hmore, hnew⟩ := List.forall_mem_append.1 hplain
      have hend := hrest hmore (hstepped hnew h)
      simpa using hend

theorem Accounted.exists_standing {r : Option (Except Error Unit)} {s : Session}
    (h : Accounted tracing lines log (r, s)) :
    ∃ results owed loud, readings log = results.map .ok ∧
      transcript log ++ owed.flatMap Event.text = lines.flatMap (Execution.shown tracing) ∧
      Standing lines results loud s.machine.phase s.machine.vars ∧
      (r.isSome = true → ∃ event, r = some event.result ∧ event.isTerminal = true ∧
        owed = [event] ∧ loud = [event]) := by
  cases h with
  | pending hr ha =>
    obtain ⟨quiet, loud, -, -, hs⟩ := ha.standing
    exact ⟨_, _, loud, hr, ha.text_eq, hs, nofun⟩
  | @ended results m event hr ht ha =>
    obtain ⟨-, hs⟩ := ha.next_loud (Event.isLoud_of_isTerminal ht)
    exact ⟨results, [event], [event], hr, ha.text_eq, hs, fun _ => ⟨event, rfl, ht, rfl, rfl⟩⟩

/-- Where no call at the console fails and none is interrupted, the `k`-th line that asks for input
is answered with the `k`-th line that is read, the end of the input being an empty line, and no
other line has a part in it: the fields of the line read are the values of the variables asked for,
or the session ends with the error of the first thing wrong with them. Once the session has ended,
as many lines have been read as were asked for, and the text written is that of the lines in order;
before that it may be behind. -/
theorem inputs_answered_in_order {σ : Type} (console : Console (StateM σ)) (program : Program)
    (tracing : Bool) (budget fuel : Nat) (w₀ w : σ) (r : Option (Except Error Unit)) (s : Session)
    (log : List Exchange)
    (hrun : run console.logged budget fuel ⟨(Machine.start program).trace tracing, false⟩
      (w₀, []) = ((r, s), (w, log)))
    (hplain : ∀ x ∈ log, x.isPlain = true) :
    let lines := history console.logged budget fuel
      ⟨(Machine.start program).trace tracing, false⟩ (w₀, [])
    (∀ past x future, lines = past ++ x :: future →
      (x.asks = false → following future s.machine.vars = x.after.vars) ∧
      ∀ names, x.wanted? = some names → future ≠ [] ∨ r.isSome = true →
        ∃ result, (readings log)[past.countP Execution.asks]? = some (.ok result) ∧
          ((∃ values, Answer.Assigned names (Text.words (result.getD [])) values x.machine.vars
              (following future s.machine.vars)) ∨
            ∃ e, Answer.Refused names (Text.words (result.getD [])) e ∧ future = [] ∧
              r = some (.error (e.inLine x.line.number)))) ∧
    ((readings log).length ≤ lines.countP Execution.asks ∧
      transcript log <+: lines.flatMap (Execution.shown tracing)) ∧
    (r.isSome = true → (readings log).length = lines.countP Execution.asks ∧
      transcript log = lines.flatMap (Execution.shown tracing)) := by
  intro lines
  have hstart : Accounted tracing [] [] (none, ⟨(Machine.start program).trace tracing, false⟩) :=
    @Accounted.pending _ _ _ [] _ rfl ⟨rfl, rfl, [], [], rfl, by simp, .active .start⟩
  have haccounted : Accounted tracing lines log (r, s) := by
    obtain ⟨p, w', new, hrun', haccount⟩ := run_logged console budget fuel
      ⟨(Machine.start program).trace tracing, false⟩ w₀ []
    rw [hrun, List.append_nil] at hrun'
    cases hrun'
    simpa using haccount hplain hstart
  obtain ⟨results, owed, loud, hr, htext, hs, hend⟩ := haccounted.exists_standing
  have hcount := hs.countP_asks
  refine ⟨fun past x future hl => ?_, ⟨?_, ?_⟩, fun hsome => ?_⟩
  · rcases hs.given_or_last hl with hgiven | ⟨rfl, hx, hlast⟩
    · refine ⟨hgiven.own, fun names hw _ => ?_⟩
      have hx : x.asks = true := by rw [Execution.asks, hw, Option.isSome_some]
      obtain ⟨result, hresult, ha⟩ := hgiven.answer hx
      exact ⟨result, by simp [hr, hresult], .inl (Execution.assigned_of_answered hw ha)⟩
    · refine ⟨fun hx' => by simp [hx] at hx', fun names hw hsome => ?_⟩
      obtain ⟨event, rfl, ht, -, rfl⟩ := hend (hsome.resolve_left (by simp))
      obtain ⟨result, e, hresult, ha, rfl⟩ := hlast event List.mem_cons_self ht
      exact ⟨result, by simp [hr, hresult],
        .inr ⟨e, Execution.refused_of_answered hw ha, rfl, rfl⟩⟩
  · rw [hr, List.length_map, hcount]
    exact Nat.le_add_right _ _
  · rw [← htext]
    exact List.prefix_append _ _
  · obtain ⟨event, rfl, ht, rfl, rfl⟩ := hend hsome
    refine ⟨?_, ?_⟩
    · rw [hr, List.length_map, hcount]
      simp [Event.ne_input_of_isTerminal ht]
    · rw [← htext]
      simp [Event.text_of_isTerminal ht]

/-- Two requests that wait behind their marks: the first is answered with a line, and the second is
refused the empty line at the end of the input. -/
theorem inputs_answered_in_order_ended :
    let program : Program :=
      ⟨#[⟨10, "INTEGER A".toList⟩, ⟨20, "INPUT A".toList⟩, ⟨30, "INPUT A".toList⟩]⟩
    let script : Script := ⟨[.ok (some "7\n".toList)], none, none, none, [], 0, 0⟩
    let fresh : Session := ⟨(Machine.start program).trace true, false⟩
    ∃ s w log first second third,
      run Script.console.logged 5 12 fresh (script, []) =
        ((some (.error
          { kind := .missingInput, line := some 30, detail := "EXPECTED 1 VALUE".toList }), s),
          (w, log)) ∧
      history Script.console.logged 5 12 fresh (script, []) = [first, second, third] ∧
      third.machine.vars.lookup? "A".toList = some ⟨⟨7, by decide, by decide⟩, true⟩ ∧
      (readings log).length = 2 ∧ transcript log = "[10][20][30]".toList := by
  intro program script fresh
  have hsome : (run Script.console.logged 5 12 fresh (script, [])).1.1.isSome = true := by
    decide +kernel
  have hplain : (run Script.console.logged 5 12 fresh (script, [])).2.2.all Exchange.isPlain =
      true := by decide +kernel
  have hreadings : (readings (run Script.console.logged 5 12 fresh (script, [])).2.2).map
      (fun reply => reply.result.toOption) = [some (some "7\n".toList), some none] := by
    decide +kernel
  have hwanted : (history Script.console.logged 5 12 fresh (script, [])).map
      (fun x => (x.wanted?, x.line.number)) =
      [(none, 10), (some ["A".toList], 20), (some ["A".toList], 30)] := by decide +kernel
  have hshown : (history Script.console.logged 5 12 fresh (script, [])).flatMap
      (Execution.shown true) = "[10][20][30]".toList := by decide +kernel
  generalize hrun : run Script.console.logged 5 12 fresh (script, []) = out
    at hsome hplain hreadings
  obtain ⟨⟨r, s⟩, w, log⟩ := out
  obtain ⟨r, rfl⟩ := Option.isSome_iff_exists.1 hsome
  obtain ⟨hanswers, -, hend⟩ := inputs_answered_in_order Script.console program true 5 12 script w
    (some r) s log hrun (List.all_eq_true.1 hplain)
  obtain ⟨hlength, htext⟩ := hend rfl
  simp only [List.map_eq_cons_iff, List.map_eq_nil_iff, Prod.mk.injEq] at hwanted
  obtain ⟨first, _, hlines, ⟨hfirst, -⟩, second, _, rfl, ⟨hsecond, -⟩, third, _, rfl,
    ⟨hthird, hnumber⟩, rfl⟩ := hwanted
  have hread {k : Nat} {result : Option Text} (h : (readings log)[k]? = some (.ok result)) :
      [some (some "7\n".toList), some none][k]? = some (some result) := by
    rw [← hreadings, List.getElem?_map, h]
    rfl
  have hseven : third.machine.vars.lookup? "A".toList =
      some ⟨⟨7, by decide, by decide⟩, true⟩ := by
    obtain ⟨result, hresult, ⟨values, ha⟩ | ⟨_, _, hlast, _⟩⟩ :=
      (hanswers [first] second [third] hlines).2 _ hsecond (.inl (List.cons_ne_nil _ _))
    · obtain rfl : some "7\n".toList = result := by
        simpa [Execution.asks, hfirst] using hread hresult
      have hfields : Text.words ((some "7\n".toList).getD []) = ["7".toList] := by decide +kernel
      obtain ⟨v, rest, hv, -, rfl⟩ := List.forall₂_cons_left_iff.1 (hfields ▸ ha.decimals)
      obtain rfl : ⟨7, by decide, by decide⟩ = v := Decimal.unique (.plain rfl rfl) hv
      exact (List.forall₂_cons.1 (ha.lookup?_of_nodup (by decide))).1
    · cases hlast
  have hmissing : r = .error
      { kind := .missingInput, line := some 30, detail := "EXPECTED 1 VALUE".toList } := by
    obtain ⟨result, hresult, hanswer⟩ :=
      (hanswers [first, second] third [] hlines).2 _ hthird (.inr rfl)
    obtain rfl : none = result := by simpa [Execution.asks, hfirst, hsecond] using hread hresult
    obtain ⟨values, ha⟩ | ⟨e, he, -, hr⟩ := hanswer
    · cases ha.decimals.length_eq.trans ha.length_eq
    · cases he with
      | count =>
        rw [hnumber] at hr
        exact Option.some.inj hr
      | field hlength => cases hlength
  subst hmissing
  refine ⟨s, w, log, first, second, third, rfl, hlines, hseven, ?_, htext.trans hshown⟩
  rw [hlength, hlines]
  simp [Execution.asks, hfirst, hsecond, hthird]

end Session
end LineScript
