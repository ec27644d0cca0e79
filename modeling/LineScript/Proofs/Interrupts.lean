import LineScript.Proofs.History
import LineScript.Proofs.Slices

/-!
An interrupt takes effect at once. Between two executions an event that waits in the queue is that
of the line that ran last, and only such a line has halted the machine; so the next execution
either reports it or reports the interrupt, without another line or another call at the console.
-/
namespace LineScript

namespace Machine

variable {past : List Execution} {m : Machine}

/-- The number of the line that ran last. -/
def lastNumber? (past : List Execution) : Option Nat :=
  past.getLast?.map fun x => x.line.number

theorem kept_current : Kept fun past m => m.current = lastNumber? past := by
  refine ⟨fun h hq => hq.current_eq.trans h, fun {past x} _ _ => ?_⟩
  unfold lastNumber?
  rw [List.getLast?_concat]
  exact current_runLine x.line x.machine

/-- What is left over of the lines run so far: nothing, or the event of the last of them, which may
have halted the machine. -/
inductive Between (past : List Execution) (m : Machine) : Prop where
  | clear (hq : m.queued = none) (hp : m.phase ≠ .halted)
  | owing {x : Execution} {event : Event} (hx : past.getLast? = some x)
      (he : x.event = some event) (hq : m.queued = some event)
      (hp : m.phase = .halted ↔ event = .ended ∨ ∃ e, event = .failed e)

theorem Between.turns (hi : m.Idle) (hp : m.phase ≠ .halted) (past : List Execution)
    {budget : Nat} (ht : (m.turns budget).1.isTerminal = false) :
    Between (past ++ m.turnsHistory budget) (m.turns budget).2 := by
  have hhalted {x : Execution} (hx : x.Ready) : x.after.phase = .halted ↔
      x.event = some .ended ∨ ∃ e, x.event = some (.failed e) :=
    halted_runLine_iff (by simp [hx.running])
  have hkeep : TurnsKeep (fun _ m => m.phase ≠ .halted) fun past event m =>
      event.isTerminal = false → Between past m := by
    refine ⟨fun hp hi _ => .clear hi.1 hp, fun _ _ => nofun, fun {past x} _ hx _ _ => ?_,
      fun {past x event} _ hx _ hevent hq ht => ?_, fun {past x} _ hx _ hevent _ => ?_⟩
    · have hx := hhalted hx
      cases hevent : x.event with
      | none =>
        rw [hevent] at hx
        exact .clear rfl (by simp [hx])
      | some event =>
        rw [hevent] at hx
        exact .owing List.getLast?_concat hevent rfl (by simpa using hx)
    · refine .clear hq fun hp => ?_
      have hx := (hhalted hx).1 hp
      rw [hevent] at hx
      rcases hx with he | ⟨e, he⟩
      · cases he
        cases ht
      · cases he
        cases ht
    · simp [hhalted hx, hevent]
  exact hkeep.turns hp hi budget ht

theorem Between.run (h : Between past m) {budget : Nat}
    (ht : (m.run budget).1.isTerminal = false) :
    Between (past ++ m.runHistory budget) (m.run budget).2 := by
  rw [Machine.run] at ht ⊢
  rw [runHistory]
  cases h with
  | @owing x event hx he hq hp =>
    rw [resume_of_queued hq] at ht ⊢
    refine .clear rfl fun hhalted => ?_
    rcases hp.1 hhalted with rfl | ⟨e, rfl⟩
    · cases ht
    · cases ht
  | clear hq hp =>
    have hr := m.resumption_resume
    generalize hresumed : m.resume = resumed at hr ht
    cases hr with
    | reported hq' => simp [hq] at hq'
    | waiting => exact .clear hq hp
    | answered => exact Between.turns (idle_of_resume hresumed) (by simp) past ht
    | rejected => cases ht
    | idle hi => exact Between.turns hi hp past ht

theorem Between.supply (h : Between past m) (line : Text) : Between past (m.supply line).2 := by
  obtain ⟨phase, hphase, heq⟩ := m.exists_supply_eq line
  rw [heq]
  cases h with
  | clear hq hp => exact .clear hq (by simpa [hphase] using hp)
  | owing hx he hq hp => exact .owing hx he hq (hphase.trans hp)

end Machine

namespace Session

variable {σ : Type} {console : Console (StateM σ)} {budget : Nat} {s s' : Session} {w w' : σ}
  {past : List Execution}

/-- The lines run in the course of a session. -/
def history (console : Console (StateM σ)) (budget : Nat) : Nat → Session → σ → List Execution
  | 0, _, _ => []
  | fuel + 1, s, w =>
    s.woken.runHistory budget ++ match step console budget s w with
      | ((none, s), w) => history console budget fuel s w
      | ((some _, _), _) => []

/-- How a session ends that is interrupted after the given lines: with an error that names the last
one, unless this has halted the machine; then with what it has to report. -/
inductive EndsAfter (past : List Execution) (m : Machine) : Except Error Unit → Prop where
  | broken (hm : m.isHalted = false) : EndsAfter past m
      (.error { kind := .interrupted, line := Machine.lastNumber? past })
  | ended {x : Execution} (hm : m.isHalted = true) (hx : past.getLast? = some x)
      (he : x.event = some .ended) : EndsAfter past m (.ok ())
  | failed {x : Execution} {e : Error} (hm : m.isHalted = true) (hx : past.getLast? = some x)
      (he : x.event = some (.failed e)) : EndsAfter past m (.error e)

theorem bind_apply {α β : Type} (x : StateM σ α) (f : α → StateM σ β) (w : σ) :
    (x >>= f) w = f (x w).1 (x w).2 := rfl

theorem exists_of_receive_none {α : Type} {reply : Reply α}
    {next : α → Session → StateM σ Progress}
    (h : receive reply s next w = ((none, s'), w')) :
    ∃ a, next a (s.note reply.raised) w = ((none, s'), w') := by
  obtain ⟨result, raised⟩ := reply
  cases result with
  | ok a => exact ⟨a, h⟩
  | error reason => cases h

/-- A call at the console that goes on can at most have answered a request for input. -/
theorem handle_none {event : Event} (h : handle console event s w = ((none, s'), w')) :
    event.isTerminal = false ∧
      (s'.machine = s.machine ∨ ∃ line, s'.machine = (s.machine.supply line).2) := by
  cases event with
  | stopped => cases h
  | ended => cases h
  | failed e => cases h
  | running =>
    cases h
    exact ⟨rfl, .inl rfl⟩
  | print text =>
    rw [handle, bind_apply] at h
    obtain ⟨_, hwritten⟩ := exists_of_receive_none h
    rw [bind_apply] at hwritten
    obtain ⟨_, hflushed⟩ := exists_of_receive_none hwritten
    cases hflushed
    exact ⟨rfl, .inl rfl⟩
  | input =>
    rw [handle, bind_apply] at h
    obtain ⟨line, hread⟩ := exists_of_receive_none h
    cases hread
    refine ⟨rfl, ?_⟩
    cases line with
    | some text => exact .inr ⟨text, rfl⟩
    | none =>
      unfold answer
      dsimp only
      split
      · exact .inl rfl
      · exact .inr ⟨[], rfl⟩

theorem step_eq (console : Console (StateM σ)) (budget : Nat) (s : Session) :
    step console budget s = handle console (s.advance budget).1 (s.advance budget).2 := rfl

theorem advance_eq (budget : Nat) (s : Session) :
    s.advance budget = ((s.woken.run budget).1, ⟨(s.woken.run budget).2, false⟩) := rfl

/-- Without an interrupt, what is between two executions stays so. -/
theorem between_step (h : Machine.Between past s.machine)
    (hc : s.machine.current = Machine.lastNumber? past) (hi : s.interrupted = false)
    (hs : step console budget s w = ((none, s'), w')) :
    Machine.Between (past ++ s.woken.runHistory budget) s'.machine ∧
      s'.machine.current = Machine.lastNumber? (past ++ s.woken.runHistory budget) := by
  have hwoken : s.woken = s.machine := if_neg (by simp [hi])
  rw [step_eq, advance_eq, hwoken] at hs
  rw [hwoken]
  have hcurrent := Machine.kept_current.run hc budget
  obtain ⟨hterminal, hm | ⟨line, hm⟩⟩ := handle_none hs
  · rw [hm]
    exact ⟨h.run hterminal, hcurrent⟩
  · rw [hm]
    exact ⟨(h.run hterminal).supply line, (Machine.Quiet.supply _ line).current_eq.trans hcurrent⟩

/-- An interrupted session ends in the next step. -/
theorem step_of_interrupted (console : Console (StateM σ)) (budget : Nat) (w : σ)
    (h : Machine.Between past s.machine) (hc : s.machine.current = Machine.lastNumber? past)
    (hi : s.interrupted = true) :
    s.woken.runHistory budget = [] ∧ ∃ r s', step console budget s w = ((some r, s'), w) ∧
      s'.machine.data = s.machine.data ∧ EndsAfter past s.machine r := by
  have hwoken : s.woken = s.machine.interrupt := if_pos hi
  rw [step_eq, advance_eq, hwoken]
  unfold Machine.run Machine.runHistory
  cases hm : s.machine.isHalted with
  | true =>
    rw [Machine.interrupt, if_pos hm]
    cases h with
    | clear _ hp => exact absurd (by simpa [Machine.isHalted] using hm) hp
    | @owing x event hx he hq hp =>
      rw [Machine.resume_of_queued hq]
      rcases hp.1 (by simpa [Machine.isHalted] using hm) with rfl | ⟨e, rfl⟩
      · exact ⟨rfl, .ok (), _, rfl, rfl, .ended hm hx he⟩
      · exact ⟨rfl, .error e, _, rfl, rfl, .failed hm hx he⟩
  | false =>
    rw [Machine.interrupt, if_neg (by simp [hm]), Machine.resume_of_queued rfl]
    refine ⟨rfl, _, _, rfl, rfl, ?_⟩
    rw [Machine.breakError, hc]
    exact .broken hm

theorem run_of_interrupted (console : Console (StateM σ)) (budget : Nat) (w : σ)
    (h : Machine.Between past s.machine) (hc : s.machine.current = Machine.lastNumber? past)
    (hi : s.interrupted = true) :
    ∃ r s', s'.machine.data = s.machine.data ∧ EndsAfter past s.machine r ∧
      ∀ more, run console budget (more + 1) s w = ((some r, s'), w) ∧
        history console budget (more + 1) s w = [] := by
  obtain ⟨hlines, r, s', hstep, hdata, hends⟩ := step_of_interrupted console budget w h hc hi
  refine ⟨r, s', hdata, hends, fun more => ⟨?_, ?_⟩⟩
  · rw [run_succ, hstep]
    rfl
  · rw [history, hlines, hstep]
    rfl

/-- What is read at the console is not assigned in the same step. -/
theorem data_of_step (hs : step console budget s w = ((none, s'), w')) :
    s'.machine.data = (s.advance budget).2.machine.data := by
  rw [step_eq] at hs
  obtain ⟨-, hm | ⟨line, hm⟩⟩ := handle_none hs
  · rw [hm]
  · obtain ⟨phase, -, hsupply⟩ := Machine.exists_supply_eq line (s.advance budget).2.machine
    rw [hm, hsupply]
    rfl

theorem between_run (h : Machine.Between past s.machine)
    (hc : s.machine.current = Machine.lastNumber? past) {fuel : Nat}
    (hs : run console budget fuel s w = ((none, s'), w')) :
    Machine.Between (past ++ history console budget fuel s w) s'.machine ∧
      s'.machine.current = Machine.lastNumber? (past ++ history console budget fuel s w) := by
  induction fuel generalizing past s w with
  | zero =>
    cases hs
    rw [history, List.append_nil]
    exact ⟨h, hc⟩
  | succ fuel ih =>
    rw [run_succ] at hs
    rw [history]
    cases hi : s.interrupted with
    | true =>
      obtain ⟨-, r, ended, hstep, -⟩ := step_of_interrupted console budget w h hc hi
      rw [hstep] at hs
      cases hs
    | false =>
      generalize hstep : step console budget s w = stepped at hs
      obtain ⟨⟨r, next⟩, w₁⟩ := stepped
      cases r with
      | some r => cases hs
      | none =>
        obtain ⟨hnext, hcurrent⟩ := between_step h hc hi hstep
        rw [← List.append_assoc]
        exact ih hnext hcurrent hs

theorem run_step {fuel : Nat} {s₀ : Session} {w₀ : σ}
    (h : run console budget fuel s₀ w₀ = ((none, s), w)) :
    run console budget (fuel + 1) s₀ w₀ = runFrom console budget 0 (step console budget s w) := by
  induction fuel generalizing s₀ w₀ with
  | zero =>
    cases h
    exact run_succ console budget 0 s w
  | succ fuel ih =>
    rw [run_succ] at h
    rw [run_succ]
    generalize step console budget s₀ w₀ = stepped at h
    obtain ⟨⟨r, next⟩, w₁⟩ := stepped
    cases r with
    | some r => cases h
    | none => exact ih h

/-- An interrupt that arrives during a call at the console, or before the first line, ends the
session in the next step: no line is run, no call is made and no data are changed. -/
theorem interrupt_ends {σ : Type} (console : Console (StateM σ)) (program : Program)
    (tracing : Bool) (budget : Nat) (w₀ : σ) :
    let fresh (interrupted : Bool) : Session :=
      ⟨(Machine.start program).trace tracing, interrupted⟩
    (∀ fuel s s' w w',
      run console.recorded budget fuel (fresh false) (w₀, []) = ((none, s), w) →
      step console.recorded budget s w = ((none, s'), w') → s'.interrupted = true →
      ∃ r s'', s''.machine.data = (s.advance budget).2.machine.data ∧
        EndsAfter (history console.recorded budget (fuel + 1) (fresh false) (w₀, []))
          s'.machine r ∧
        ∀ more, run console.recorded budget (more + 1) s' w' = ((some r, s''), w') ∧
          history console.recorded budget (more + 1) s' w' = []) ∧
    ∃ s', ∀ more, run console.recorded budget (more + 1) (fresh true) (w₀, []) =
        ((some (.error { kind := .interrupted, line := none }), s'), (w₀, [])) ∧
      history console.recorded budget (more + 1) (fresh true) (w₀, []) = [] := by
  intro fresh
  have hfresh (interrupted : Bool) : Machine.Between [] (fresh interrupted).machine :=
    .clear rfl (by simp [fresh, Machine.trace, Machine.start])
  refine ⟨fun fuel s s' w w' hrun hstep hi => ?_, ?_⟩
  · have hnext : run console.recorded budget (fuel + 1) (fresh false) (w₀, []) =
        ((none, s'), w') := by
      rw [run_step hrun, hstep]
      rfl
    obtain ⟨hbetween, hcurrent⟩ := between_run (hfresh false) rfl hnext
    obtain ⟨r, s'', hdata, hends, hmore⟩ :=
      run_of_interrupted console.recorded budget w' hbetween hcurrent hi
    exact ⟨r, s'', hdata.trans (data_of_step hstep), hends, hmore⟩
  · obtain ⟨r, s', -, hends, hmore⟩ :=
      run_of_interrupted console.recorded budget (w₀, []) (hfresh true) rfl rfl
    cases hends with
    | broken => exact ⟨s', hmore⟩
    | ended hm => cases hm
    | failed hm => cases hm

/-- Interrupts during the first write: of the text of a line, and of the mark of a line that ends
the program. -/
theorem interrupt_ends_written :
    let looping : Program := ⟨#[⟨10, "PRINT \"A\"".toList⟩, ⟨20, "GOTO 10".toList⟩]⟩
    let ending : Program := ⟨#[⟨10, "END".toList⟩]⟩
    let script : Script := ⟨[], none, some 1, none, [], 0, 0⟩
    let fresh (program : Program) (tracing : Bool) : Session :=
      ⟨(Machine.start program).trace tracing, false⟩
    (∃ s w, run Script.console.recorded 5 2 (fresh looping false) (script, []) =
      ((some (.error { kind := .interrupted, line := some 10 }), s), w)) ∧
    ∃ s w, run Script.console.recorded 5 2 (fresh ending true) (script, []) =
      ((some (.ok ()), s), w) := by
  intro looping ending script fresh
  have hended (program : Program) (tracing : Bool) :
      let stepped := step Script.console.recorded 5 (fresh program tracing) (script, [])
      stepped.1.1 = none → stepped.1.2.interrupted = true →
      ∃ r s w, EndsAfter (history Script.console.recorded 5 1 (fresh program tracing) (script, []))
          stepped.1.2.machine r ∧
        run Script.console.recorded 5 2 (fresh program tracing) (script, []) =
          ((some r, s), w) := by
    intro stepped hnone hi
    have heq : step Script.console.recorded 5 (fresh program tracing) (script, []) =
      ((none, stepped.1.2), stepped.2) := Prod.ext (Prod.ext hnone rfl) rfl
    obtain ⟨r, s, -, hends, hmore⟩ := (interrupt_ends Script.console program tracing 5 script).1
      0 (fresh program tracing) stepped.1.2 (script, []) stepped.2 rfl heq hi
    refine ⟨r, s, stepped.2, hends, ?_⟩
    rw [run_succ, heq]
    exact (hmore 0).1
  constructor
  · obtain ⟨r, s, w, hends, hrun⟩ := hended looping false (by decide +kernel) (by decide +kernel)
    have hlast : Machine.lastNumber? (history Script.console.recorded 5 1 (fresh looping false)
      (script, [])) = some 10 := by decide +kernel
    have hhalted : (step Script.console.recorded 5 (fresh looping false)
      (script, [])).1.2.machine.isHalted = false := by decide +kernel
    cases hends with
    | broken => exact ⟨s, w, hlast ▸ hrun⟩
    | ended hm => cases hhalted.symm.trans hm
    | failed hm => cases hhalted.symm.trans hm
  · obtain ⟨r, s, w, hends, hrun⟩ := hended ending true (by decide +kernel) (by decide +kernel)
    have hlast : ((history Script.console.recorded 5 1 (fresh ending true)
      (script, [])).getLast?.bind Execution.event) = some .ended := by decide +kernel
    have hhalted : (step Script.console.recorded 5 (fresh ending true)
      (script, [])).1.2.machine.isHalted = true := by decide +kernel
    cases hends with
    | broken hm => cases hhalted.symm.trans hm
    | ended => exact ⟨s, w, hrun⟩
    | failed _ hx he =>
      rw [hx, Option.bind_some, he] at hlast
      cases hlast

end Session
end LineScript
