import LineScript.Proofs.Halting

/-!
What becomes of the text that a line prints. If lines are not traced, the execution that runs the
line reports it. If they are, that execution reports the mark of the line and the text is left for
the next one; an interrupt in between takes the place of the text, which is then never reported.
-/
namespace LineScript
namespace Machine

variable {m : Machine} {budget : Nat} {x : Execution}

def Call.isRun : Call → Bool
  | .run _ => true
  | .supply _ | .interrupt | .trace _ => false

/-- What the line has to report is reported, or its mark is and the event waits in the queue. -/
def HandsOn (x : Execution) (reported : Event) (m : Machine) : Prop :=
  ∀ event, x.event = some event →
    (x.machine.tracing = false → reported = event) ∧
    (x.machine.tracing = true → reported = .print (mark x.line.number) ∧
      m = { x.after with queued := some event })

/-- Only the last line of an execution can have anything to report. -/
theorem handsOn_turns (hm : m.Idle) (hx : x ∈ m.turnsHistory budget) :
    HandsOn x (m.turns budget).1 (m.turns budget).2 := by
  -- As long as the turns go on, no line has had anything to report.
  have hkeep : TurnsKeep (fun past _ => ∀ x ∈ past, x.event = none)
      fun past reported m => ∀ x ∈ past, HandsOn x reported m := by
    have hsilent {past : List Execution} {reported : Event} {m : Machine}
        (h : ∀ x ∈ past, x.event = none) : ∀ x ∈ past, HandsOn x reported m := by
      intro x hx event he
      rw [h x hx] at he
      cases he
    refine ⟨fun h _ => hsilent h, fun h _ => hsilent h, fun {past x} h _ ht => ?_,
      fun {past x event} h _ ht he _ => ?_, fun {past x} h _ _ he _ => ?_⟩
    · refine List.forall_mem_append.2 ⟨hsilent h, List.forall_mem_singleton.2 fun event he => ?_⟩
      refine ⟨fun hf => by simp [ht] at hf, fun _ => ⟨rfl, ?_⟩⟩
      rw [he]
    · refine List.forall_mem_append.2 ⟨hsilent h, List.forall_mem_singleton.2 fun own hown => ?_⟩
      refine ⟨fun _ => Option.some.inj (he.symm.trans hown), fun hf => by simp [ht] at hf⟩
    · exact List.forall_mem_append.2 ⟨h, List.forall_mem_singleton.2 he⟩
  exact @TurnsKeep.turns _ _ hkeep [] m (List.forall_mem_nil _) hm budget x hx

theorem handsOn_run (hx : x ∈ m.runHistory budget) :
    HandsOn x (m.run budget).1 (m.run budget).2 := by
  generalize hr : m.resume = resumed
  obtain ⟨event, m'⟩ := resumed
  cases event with
  | some event =>
    rw [(run_of_resume_some hr budget).2] at hx
    cases hx
  | none =>
    obtain ⟨hrun, hlines⟩ := run_of_resume_none hr budget
    rw [hlines] at hx
    rw [hrun]
    exact handsOn_turns (idle_of_resume hr) hx

section Between

variable {calls : List Call} (hcalls : ∀ c ∈ calls, c.isRun = false)
include hcalls

/-- Nothing but an interrupt touches the queue between two executions. -/
theorem queued_after (h : .interrupt ∉ calls) : (m.after calls).queued = m.queued := by
  induction calls generalizing m with
  | nil => rfl
  | cons c calls ih =>
    obtain ⟨hc, hrest⟩ := List.forall_mem_cons.1 hcalls
    obtain ⟨hne, h⟩ := List.ne_and_not_mem_of_not_mem_cons h
    refine (ih (m := (m.perform c).2) hrest h).trans ?_
    cases c with
    | run budget => cases hc
    | interrupt => exact absurd rfl hne
    | trace on => rfl
    | supply line =>
      obtain ⟨phase, -, hsupply⟩ := m.exists_supply_eq line
      show (m.supply line).2.queued = m.queued
      rw [hsupply]

theorem queued_after_of_halted (hp : m.phase = .halted) :
    (m.after calls).phase = .halted ∧ (m.after calls).queued = m.queued := by
  induction calls generalizing m with
  | nil => exact ⟨hp, rfl⟩
  | cons c calls ih =>
    obtain ⟨hc, hrest⟩ := List.forall_mem_cons.1 hcalls
    change ((m.perform c).2.after calls).phase = .halted ∧ ((m.perform c).2.after calls).queued = _
    cases c with
    | run budget => cases hc
    | supply line =>
      rw [perform, supply_of_halted hp]
      exact ih hrest hp
    | interrupt =>
      rw [perform, interrupt_of_halted hp]
      exact ih hrest hp
    | trace on => exact ih (m := m.trace on) hrest hp

/-- The first interrupt between two executions halts the machine, and the break is all that is left
to report. -/
theorem queued_after_of_interrupt (hp : m.phase ≠ .halted) (h : .interrupt ∈ calls) :
    (m.after calls).phase = .halted ∧ (m.after calls).queued = some (.failed m.breakError) := by
  induction calls generalizing m with
  | nil => cases h
  | cons c calls ih =>
    obtain ⟨hc, hrest⟩ := List.forall_mem_cons.1 hcalls
    change ((m.perform c).2.after calls).phase = .halted ∧ ((m.perform c).2.after calls).queued = _
    cases c with
    | run budget => cases hc
    | interrupt =>
      have hbroken : m.interrupt =
          { m with phase := .halted, queued := some (.failed m.breakError) } :=
        if_neg (by simp [isHalted, hp])
      -- What was in the queue is gone, and the calls after it find the machine halted.
      rw [perform, hbroken]
      exact queued_after_of_halted hrest rfl
    | trace on => exact ih (m := m.trace on) hrest hp (by simpa using h)
    | supply line =>
      obtain ⟨phase, hphase, hsupply⟩ := m.exists_supply_eq line
      have hnext : (m.perform (.supply line)).2 = { m with phase } := hsupply
      rw [hnext]
      exact ih (m := { m with phase }) hrest (mt hphase.1 hp) (by simpa using h)

end Between

/-- A text that a line prints is reported by the execution that runs the line, unless lines are
traced. Then the mark is reported in its place, and the text by the next execution, unless there is
an interrupt between the two. In that case the break is reported, after it only that the machine is
stopped, and the text is lost. -/
theorem print_reported_unless_interrupted (program : Program) (before between more : List Call)
    (budget count : Nat) {x : Execution} {text : Text}
    (hx : x ∈ ((start program).after before).runHistory budget)
    (he : x.event = some (.print text)) (hbetween : ∀ c ∈ between, c.isRun = false)
    (hmore : ∀ c ∈ .run count :: more, c ≠ .run 0) :
    let m := (start program).after before
    let next := (m.run budget).2.after between
    (x.machine.tracing = false → (m.run budget).1 = .print text) ∧
    (x.machine.tracing = true → (m.run budget).1 = .print (mark x.line.number) ∧
      (.interrupt ∉ between → (next.run count).1 = .print text) ∧
      (.interrupt ∈ between → next.events (.run count :: more) <+:
        .failed { kind := .interrupted, line := some x.line.number } ::
          List.replicate (more.length + 1) .stopped)) := by
  intro m next
  obtain ⟨hplain, htraced⟩ := handsOn_run hx (.print text) he
  refine ⟨hplain, fun ht => ?_⟩
  obtain ⟨hmark, hhanded⟩ := htraced ht
  have hqueued : (m.run budget).2.queued = some (.print text) := congrArg queued hhanded
  refine ⟨hmark, fun hnone => ?_, fun hbroken => ?_⟩
  · have hwaits : next.queued = some (.print text) := (queued_after hbetween hnone).trans hqueued
    rw [(run_of_resume_some (resume_of_queued hwaits) count).1]
  · have hconsistent : Consistent (m.run budget).2 := by
      have hafter := consistent_after program (before ++ [.run budget])
      rwa [after_concat] at hafter
    -- A machine that has halted has no text in its queue, so this one has not.
    have hactive : (m.run budget).2.phase ≠ .halted := by
      intro hp
      cases (hconsistent _ hqueued).2.2 hp
    have hcurrent : (m.run budget).2.current = some x.line.number := by
      rw [hhanded]
      exact current_runLine x.line x.machine
    obtain ⟨hp, hwaits⟩ := queued_after_of_interrupt hbetween hactive hbroken
    have hevents := events_of_halted hp hmore
    rw [hwaits, breakError, hcurrent] at hevents
    exact hevents

/-- A text that is not traced, one that waits while tracing is switched off and an answer is
offered, and one whose place an interrupt takes. -/
theorem print_reported_unless_interrupted_traced :
    let program : Program := ⟨#[⟨10, "PRINT 1".toList⟩]⟩
    let plain := start program
    let traced := (start program).after [.trace true]
    (plain.run 1).1 = .print "1".toList ∧ (traced.run 1).1 = .print "[10]".toList ∧
    ((((traced.run 1).2.after [.trace false, .supply "2".toList]).run 1).1 = .print "1".toList) ∧
    ((traced.run 1).2.after [.interrupt]).events [.run 1, .run 1] <+:
      [.failed { kind := .interrupted, line := some 10 }, .stopped, .stopped] := by
  intro program plain traced
  have hmore : ∀ c ∈ Call.run 1 :: [.run 1], c ≠ .run 0 := by decide
  have hone : ∀ m ∈ [plain, traced],
      Execution.event ⟨m, ⟨10, "PRINT 1".toList⟩⟩ = some (.print "1".toList) := by
    decide +kernel
  have hplain := print_reported_unless_interrupted program [] [] [.run 1] 1 1
    (List.mem_singleton.2 rfl) (hone plain (by simp)) (by decide) hmore
  have htraced (between : List Call) (hbetween : ∀ c ∈ between, c.isRun = false) :=
    print_reported_unless_interrupted program [.trace true] between [.run 1] 1 1
      (List.mem_singleton.2 rfl) (hone traced (by simp)) hbetween hmore
  have hmark : mark 10 = "[10]".toList := by decide +kernel
  refine ⟨hplain.1 rfl, ?_, ?_, ?_⟩
  · exact ((htraced [] (by decide)).2 rfl).1.trans (congrArg Event.print hmark)
  · exact ((htraced [.trace false, .supply "2".toList] (by decide)).2 rfl).2.1 (by decide)
  · exact ((htraced [.interrupt] (by decide)).2 rfl).2.2 (by decide)

/-- The text of a line that is never reported, although two executions follow. -/
theorem print_discarded :
    let program : Program := ⟨#[⟨10, "PRINT 1".toList⟩]⟩
    let m := (start program).after [.trace true]
    (m.runHistory 1).map Execution.event = [some (.print "1".toList)] ∧
      m.events [.run 1, .interrupt, .run 1, .run 1] =
        [.print "[10]".toList, .failed { kind := .interrupted, line := some 10 }, .stopped] := by
  decide +kernel

end Machine
end LineScript
