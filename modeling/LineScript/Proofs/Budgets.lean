import LineScript.Proofs.History
import LineScript.Proofs.Invariant

/-!
A budget that is spent in two executions is spent as in one. What is done before the first turn,
reporting an event from the queue or assigning an answer, is done once: it either is the whole
execution or leaves an idle machine, on which the next execution goes on with turns alone.
-/
namespace LineScript
namespace Machine

variable {m : Machine}

theorem queued_turns_ne_running (hm : m.Idle) (budget : Nat) :
    (m.turns budget).2.queued ≠ some .running := by
  have hnone {m : Machine} (hq : m.queued = none) : m.queued ≠ some .running := by
    rw [hq]
    nofun
  have hkeep : TurnsKeep (fun _ _ => True) fun _ _ m => m.queued ≠ some .running :=
    { spent := fun _ hi => hnone hi.1
      stopped := fun _ hi => hnone hi.1
      traced := fun {_ x} _ _ _ => runLine_ne_running x.line x.machine
      reported := fun _ _ _ _ hq => hnone hq
      silent := fun _ _ _ _ _ => trivial }
  exact @TurnsKeep.turns _ _ hkeep [] m trivial hm budget

/-- That a budget is spent is never left for the next execution to report. -/
theorem queued_run_ne_running (hq : m.queued ≠ some .running) (budget : Nat) :
    (m.run budget).2.queued ≠ some .running := by
  have hr := m.resumption_resume
  generalize hresumed : m.resume = resumed at hr
  cases hr with
  | reported =>
    rw [(run_of_resume_some hresumed budget).1]
    nofun
  | waiting | rejected =>
    rw [(run_of_resume_some hresumed budget).1]
    exact hq
  | answered | idle =>
    rw [(run_of_resume_none hresumed budget).1]
    exact queued_turns_ne_running (idle_of_resume hresumed) budget

theorem queued_perform_ne_running (hq : m.queued ≠ some .running) (c : Call) :
    (m.perform c).2.queued ≠ some .running := by
  cases c with
  | run budget => exact queued_run_ne_running hq budget
  | supply line =>
    obtain ⟨phase, -, heq⟩ := m.exists_supply_eq line
    show (m.supply line).2.queued ≠ some .running
    rwa [heq]
  | interrupt =>
    show m.interrupt.queued ≠ some .running
    unfold interrupt
    split
    · exact hq
    · nofun
  | trace on => exact hq

theorem Reachable.queued_ne_running {program : Program} (h : Reachable program m) :
    m.queued ≠ some .running :=
  Reachable.induction (P := fun m => m.queued ≠ some .running) nofun
    (fun _ c hm => queued_perform_ne_running hm c) h

theorem resume_ne_running (hq : m.queued ≠ some .running) : m.resume.1 ≠ some .running := by
  have hr := m.resumption_resume
  generalize m.resume = resumed at hr
  cases hr with
  | reported hqueued => rwa [← hqueued]
  | waiting | answered | rejected | idle => nofun

/-- An execution with `a + b` lines goes on from where one with `a` lines stopped, unless that one
had something to report. -/
theorem run_add (hq : m.queued ≠ some .running) (a b : Nat) :
    m.run (a + b) = if (m.run a).1 = .running then (m.run a).2.run b else m.run a := by
  have hne := resume_ne_running hq
  generalize hr : m.resume = resumed at hne
  obtain ⟨event, m'⟩ := resumed
  cases event with
  | some event =>
    have hevent : event ≠ .running := fun h => hne (congrArg some h)
    rw [(run_of_resume_some hr (a + b)).1, (run_of_resume_some hr a).1, if_neg hevent]
  | none =>
    have hidle := idle_of_resume hr
    rw [(run_of_resume_none hr (a + b)).1, (run_of_resume_none hr a).1, turns_add]
    split
    next hrunning =>
      -- the turns of `a` leave nothing that the next execution would have to settle
      have hrest := resume_of_idle (idle_of_turns hidle hrunning)
      rw [(run_of_resume_none hrest b).1]
    next => rfl

/-- Whatever calls have led to a machine, an execution that spends its budget is continued by the
next one as if both had been one, and one that reports anything else does so with more budget. -/
theorem budgets_compose (program : Program) (m : Machine) (h : Reachable program m) (a b : Nat) :
    ((m.run a).1 = .running → (m.run a).2.run b = m.run (a + b)) ∧
    ((m.run a).1 ≠ .running → m.run (a + b) = m.run a) := by
  have hadd := run_add h.queued_ne_running a b
  exact ⟨fun hrunning => by rw [hadd, if_pos hrunning], fun hne => by rw [hadd, if_neg hne]⟩

/-- An answer is assigned with no budget at all, and what it was for is printed with the next. -/
theorem budgets_compose_answered :
    let program : Program :=
      ⟨#[⟨10, "INTEGER A".toList⟩, ⟨20, "INPUT A".toList⟩, ⟨30, "PRINT A".toList⟩]⟩
    let m := (start program).after [.run 2, .supply "7\n".toList]
    (m.run 0).1 = .running ∧ (m.run 0).2.run 1 = m.run 1 ∧ (m.run 1).1 = .print "7".toList ∧
      m.run 5 = m.run 1 := by
  intro program m
  have hreachable : Reachable program m := ⟨_, rfl⟩
  have hspent : (m.run 0).1 = .running := by decide +kernel
  have hprinted : (m.run 1).1 = .print "7".toList := by decide +kernel
  have hne : (m.run 1).1 ≠ .running := by
    rw [hprinted]
    nofun
  exact ⟨hspent, (budgets_compose program m hreachable 0 1).1 hspent, hprinted,
    (budgets_compose program m hreachable 1 4).2 hne⟩

end Machine
end LineScript
