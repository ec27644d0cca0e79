import LineScript.Proofs.History
import LineScript.Proofs.Invariant

/-!
Halting is final. An event that waits in the queue is the end of the program or an error exactly if
the machine is halted, and every call keeps it so; hence of a halted machine at most the event that
halted it is still to be reported, and after that each execution finds the machine stopped.
-/
namespace LineScript
namespace Machine

variable {m : Machine} {budget : Nat}

/-- The event of an execution. -/
def Response.event? : Response → Option Event
  | .event e => some e
  | .accepted _ | .done => none

/-- The events that the executions among the calls report, in order. -/
def events (m : Machine) : List Call → List Event
  | [] => []
  | c :: calls => (m.perform c).1.event?.toList ++ (m.perform c).2.events calls

/-- An event that waits to be reported is the last one exactly if the machine is halted. -/
def Consistent (m : Machine) : Prop :=
  ∀ event, m.queued = some event →
    event ≠ .stopped ∧ (event.isTerminal = true ↔ m.phase = .halted)

theorem consistent_of_queued_none (hq : m.queued = none) : Consistent m := by
  intro event hevent
  rw [hq] at hevent
  cases hevent

/-- What a machine is like once it has reported an event. -/
structure Closes (event : Event) (m : Machine) : Prop where
  consistent : Consistent m
  halts : event.isTerminal = true → m.phase = .halted ∧ m.queued = none

theorem terminal_of_runLine_iff {line : Line} (hp : m.phase ≠ .halted) {event : Event}
    (he : (m.runLine line).1 = some event) :
    event ≠ .stopped ∧ (event.isTerminal = true ↔ (m.runLine line).2.phase = .halted) := by
  have hhalted : (m.runLine line).2.phase = .halted ↔ _ := halted_runLine_iff hp
  rw [he] at hhalted
  rw [hhalted]
  rcases event_of_runLine he with ⟨text, rfl⟩ | rfl | rfl | ⟨e, rfl⟩ <;>
    simp [Event.isTerminal]

theorem closes_turns (hm : m.Idle) (budget : Nat) :
    Closes (m.turns budget).1 (m.turns budget).2 := by
  have hkeep : TurnsKeep (fun _ _ => True) fun _ event m => Closes event m := by
    refine ⟨fun _ hi => ?_, fun _ hi => ?_, fun _ hx _ => ?_, fun _ hx _ he hq => ?_,
      fun _ _ _ _ _ => trivial⟩
    · exact ⟨consistent_of_queued_none hi.1, nofun⟩
    · exact ⟨consistent_of_queued_none hi.1, fun _ => ⟨rfl, hi.1⟩⟩
    · exact ⟨fun event he => terminal_of_runLine_iff (by simp [hx.running]) he, nofun⟩
    · have hiff := terminal_of_runLine_iff (by simp [hx.running]) he
      exact ⟨consistent_of_queued_none hq, fun ht => ⟨hiff.2.1 ht, hq⟩⟩
  exact @TurnsKeep.turns _ _ hkeep [] m trivial hm budget

theorem closes_run (h : Consistent m) (budget : Nat) :
    Closes (m.run budget).1 (m.run budget).2 := by
  rw [run]
  have hr := m.resumption_resume
  generalize hresumed : m.resume = resumed at hr
  cases hr with
  | @reported event hq =>
    exact ⟨consistent_of_queued_none rfl, fun ht => ⟨(h event hq).2.1 ht, rfl⟩⟩
  | waiting hq hp =>
    refine ⟨consistent_of_queued_none hq, ?_⟩
    intro ht
    cases ht
  | answered hq hp ha => exact closes_turns (idle_of_resume hresumed) budget
  | rejected hq hp ha => exact ⟨consistent_of_queued_none hq, fun _ => ⟨rfl, hq⟩⟩
  | idle hm => exact closes_turns hm budget

theorem Consistent.perform (h : Consistent m) (c : Call) : Consistent (m.perform c).2 := by
  cases c with
  | run budget => exact (closes_run h budget).consistent
  | supply line =>
    obtain ⟨phase, hphase, heq⟩ := m.exists_supply_eq line
    show Consistent (m.supply line).2
    rw [heq]
    intro event he
    exact ⟨(h event he).1, (h event he).2.trans hphase.symm⟩
  | interrupt =>
    show Consistent m.interrupt
    unfold interrupt
    split
    · exact h
    · intro event he
      cases he
      simp [Event.isTerminal]
  | trace on => exact h

theorem consistent_after (program : Program) (calls : List Call) :
    Consistent ((start program).after calls) :=
  Reachable.induction (P := Consistent) (consistent_of_queued_none rfl)
    (fun _ c hm => hm.perform c) ⟨calls, rfl⟩

section Halted

variable (hp : m.phase = .halted)
include hp

theorem supply_of_halted (line : Text) : m.supply line = (false, m) := by
  unfold supply
  rw [hp]

theorem interrupt_of_halted : m.interrupt = m :=
  if_pos (by simp [isHalted, hp])

theorem turn_of_halted : m.turn = (some .stopped, m) :=
  if_pos (by simp [isHalted, hp])

theorem turns_of_halted (budget : Nat) :
    (m.turns budget).2 = m ∧ m.turnsHistory budget = [] := by
  cases budget with
  | zero => exact ⟨rfl, rfl⟩
  | succ budget =>
    have hnext : m.upcoming? = none := if_pos (by simp [isHalted, hp])
    rw [turns, turnsHistory, turn_of_halted hp, hnext]
    exact ⟨rfl, rfl⟩

/-- A halted machine reports what waits in the queue, and then that it is stopped. -/
theorem run_of_halted (hb : 0 < budget) :
    m.run budget = (m.queued.getD .stopped, { m with queued := none }) := by
  rw [run]
  cases hq : m.queued with
  | some event =>
    rw [resume_of_queued hq]
    rfl
  | none =>
    obtain ⟨more, rfl⟩ := Nat.exists_eq_add_of_le' hb
    rw [resume_of_idle ⟨hq, by simp [hp]⟩]
    simp only [turns, turn_of_halted hp, Option.getD_none]
    rw [← hq]

/-- A call of a halted machine runs no line, and can only empty the queue or switch tracing. -/
theorem perform_of_halted (c : Call) :
    m.performHistory c = [] ∧ ∃ queued tracing, (m.queued = none → queued = none) ∧
      (m.perform c).2 = { m with queued, tracing } := by
  cases c with
  | supply line =>
    refine ⟨rfl, m.queued, m.tracing, id, ?_⟩
    rw [perform, supply_of_halted hp]
  | interrupt =>
    refine ⟨rfl, m.queued, m.tracing, id, ?_⟩
    rw [perform, interrupt_of_halted hp]
  | trace on => exact ⟨rfl, m.queued, on, id, rfl⟩
  | run budget =>
    simp only [performHistory, runHistory, perform, run]
    cases hq : m.queued with
    | some event =>
      rw [resume_of_queued hq]
      exact ⟨rfl, none, m.tracing, fun _ => rfl, rfl⟩
    | none =>
      obtain ⟨hturns, hlines⟩ := turns_of_halted hp budget
      rw [resume_of_idle ⟨hq, by simp [hp]⟩]
      refine ⟨hlines, m.queued, m.tracing, fun _ => hq, hturns⟩

end Halted

theorem after_of_halted (hp : m.phase = .halted) (calls : List Call) :
    m.history calls = [] ∧ ∃ queued tracing, (m.queued = none → queued = none) ∧
      m.after calls = { m with queued, tracing } := by
  induction calls generalizing m with
  | nil => exact ⟨rfl, m.queued, m.tracing, id, rfl⟩
  | cons c calls ih =>
    obtain ⟨hlines, queued, tracing, hqueued, hperform⟩ := perform_of_halted hp c
    obtain ⟨hrest, queued', tracing', hqueued', hafter⟩ := ih (m := (m.perform c).2)
      (by rw [hperform]; exact hp)
    refine ⟨?_, queued', tracing', fun hq => ?_, ?_⟩
    · rw [history, hlines, hrest]
      rfl
    · rw [hperform] at hqueued'
      exact hqueued' (hqueued hq)
    · show (m.perform c).2.after calls = _
      rw [hafter, hperform]

/-- The events of a halted machine: the one in the queue, and from then on that it is stopped. -/
theorem events_of_halted (hp : m.phase = .halted) {calls : List Call}
    (hc : ∀ c ∈ calls, c ≠ .run 0) :
    m.events calls <+: m.queued.toList ++ List.replicate calls.length .stopped := by
  induction calls generalizing m with
  | nil => exact List.nil_prefix
  | cons c calls ih =>
    obtain ⟨hfirst, hrest⟩ := List.forall_mem_cons.1 hc
    have hmore : List.replicate calls.length Event.stopped <+:
        List.replicate (calls.length + 1) .stopped := by
      rw [List.replicate_succ']
      exact List.prefix_append _ _
    have hsame (on : Bool) : (m.trace on).events calls <+:
        m.queued.toList ++ List.replicate (calls.length + 1) .stopped :=
      (ih (m := m.trace on) hp hrest).trans ((List.prefix_append_right_inj _).2 hmore)
    rw [events, List.length_cons]
    cases c with
    | run budget =>
      have hb : 0 < budget := Nat.pos_of_ne_zero fun h => hfirst (h ▸ rfl)
      have htail := ih (m := { m with queued := none }) hp hrest
      rw [perform, run_of_halted hp hb]
      cases m.queued with
      | some event => exact List.cons_prefix_cons.2 ⟨rfl, htail.trans hmore⟩
      | none => exact List.cons_prefix_cons.2 ⟨rfl, htail⟩
    | supply line =>
      rw [perform, supply_of_halted hp]
      exact hsame m.tracing
    | interrupt =>
      rw [perform, interrupt_of_halted hp]
      exact hsame m.tracing
    | trace on => exact hsame on

/-- Once an execution has reported the end, an error or that the machine is stopped, every later
one reports that it is stopped, no input is taken and the data stay as they are. A machine that is
halted runs no line any more, and before it is found stopped it reports at most the end or the
error that halted it. -/
theorem halting_is_final (program : Program) (calls : List Call) :
    let m := (start program).after calls
    (∀ budget later, (m.run budget).1.isTerminal = true →
      let final := (m.run budget).2
      (final.after later).isHalted = true ∧ (final.after later).data = final.data ∧
        (∀ line, ((final.after later).supply line).1 = false) ∧
        ∀ more, 0 < more → ((final.after later).run more).1 = .stopped) ∧
    (m.isHalted = true →
      (∀ event, m.queued = some event → event = .ended ∨ ∃ e, event = .failed e) ∧
      ∀ later, m.history later = [] ∧ (m.after later).isHalted = true ∧
        (m.after later).data = m.data ∧
        ((∀ c ∈ later, c ≠ .run 0) →
          m.events later <+: m.queued.toList ++ List.replicate later.length .stopped)) := by
  intro m
  have hm : Consistent m := consistent_after program calls
  refine ⟨fun budget later ht => ?_, fun hhalted => ?_⟩
  · intro final
    obtain ⟨hp, hq⟩ : final.phase = .halted ∧ final.queued = none :=
      (closes_run hm budget).halts ht
    obtain ⟨-, queued, tracing, hqueued, hafter⟩ := after_of_halted hp later
    have hp' : (final.after later).phase = .halted := by
      rw [hafter]
      exact hp
    refine ⟨decide_eq_true hp', by rw [hafter]; rfl, fun line => ?_, fun more hmore => ?_⟩
    · rw [supply_of_halted hp']
    · rw [run_of_halted hp' hmore, hafter, hqueued hq]
      rfl
  · have hp : m.phase = .halted := of_decide_eq_true hhalted
    refine ⟨fun event he => ?_, fun later => ?_⟩
    · obtain ⟨hne, hterminal⟩ := hm event he
      have hevent := hterminal.2 hp
      cases event with
      | ended => exact .inl rfl
      | failed e => exact .inr ⟨e, rfl⟩
      | stopped => exact absurd rfl hne
      | running => cases hevent
      | print text => cases hevent
      | input => cases hevent
    · obtain ⟨hlines, queued, tracing, -, hafter⟩ := after_of_halted hp later
      refine ⟨hlines, ?_, by rw [hafter]; rfl, fun hc => events_of_halted hp hc⟩
      rw [hafter]
      exact hhalted

/-- The end of a program that waits behind the mark of its line, whatever comes in between. -/
theorem halting_is_final_traced :
    let program : Program := ⟨#[⟨10, "END".toList⟩, ⟨20, "PRINT 1".toList⟩]⟩
    let m := (start program).after [.trace true, .run 5]
    (m.isHalted = true ∧ m.queued = some .ended) ∧
      m.events [.interrupt, .run 5, .run 1] <+: [.ended, .stopped, .stopped, .stopped] ∧
      ((m.run 5).1 = .ended ∧
        (((m.run 5).2.after [.supply "7".toList, .interrupt]).run 1).1 = .stopped) := by
  intro program m
  have hhalted : m.isHalted = true := by decide +kernel
  have hqueued : m.queued = some .ended := by decide +kernel
  have hrun : (m.run 5).1 = .ended := by decide +kernel
  obtain ⟨hover, hstopped⟩ := halting_is_final program [.trace true, .run 5]
  have hevents := ((hstopped hhalted).2 [.interrupt, .run 5, .run 1]).2.2.2 (by decide)
  have hlater := hover 5 [.supply "7".toList, .interrupt] (by rw [hrun]; rfl)
  refine ⟨⟨hhalted, hqueued⟩, ?_, hrun, hlater.2.2.2 1 Nat.one_pos⟩
  rwa [hqueued] at hevents

end Machine
end LineScript
