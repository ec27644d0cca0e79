import Mathlib.Data.List.Induction
import LineScript.Proofs.Interrupts
import LineScript.Proofs.Placement

/-!
Every error names the line that ran last. An error is that of a line, of the answer which a line
asked for, or of an interrupt; each is given its number at another place, but at each of them the
number is that of the last line, because no line runs while an error or a request is left over.
-/
namespace LineScript

/-- No failure of a line names a line by itself, so its error has the number of the line. -/
theorem Execution.line_of_event {x : Execution} {e : Error} (h : x.event = some (.failed e)) :
    e.line = some x.line.number := by
  have hplaceless := Machine.placeless_carryOut x.line (x.machine.entered x.line)
  have heffect := Machine.effect_carryOut x.line (x.machine.entered x.line)
  change (Machine.settle x.line.number ((x.machine.entered x.line).carryOut x.line)).1 =
    some (.failed e) at h
  generalize (x.machine.entered x.line).carryOut x.line = outcome at h hplaceless heffect
  obtain ⟨r, m⟩ := outcome
  cases r with
  | ok event => exact absurd (congrArg Except.ok h) (heffect.ne_failed e)
  | error e' =>
    cases h
    rw [Error.line_inLine, hplaceless e' rfl, Option.getD_none]

namespace Machine

/-- The errors that the last of the lines can have led to: its own, or that of an answer for which
it asked. -/
inductive LastFault (past : List Execution) : Error → Prop where
  | line {x : Execution} {e : Error} (hx : past.getLast? = some x)
      (he : x.event = some (.failed e)) : LastFault past e
  | answer {x : Execution} {names : List Text} {text : Text} {e : Error}
      (hx : past.getLast? = some x) (hw : x.wanted? = some names)
      (ha : Answer.assign names text x.machine.vars = .error e) :
      LastFault past (e.inLine x.line.number)

theorem LastFault.line_eq {past : List Execution} {e : Error} (h : LastFault past e) :
    ∃ number, e.line = some number ∧ lastNumber? past = some number := by
  cases h with
  | @line x _ hx he =>
    refine ⟨x.line.number, Execution.line_of_event he, ?_⟩
    rw [lastNumber?, hx, Option.map_some]
  | @answer x names text e hx hw ha =>
    refine ⟨x.line.number, ?_, ?_⟩
    · rw [Error.line_inLine, Answer.placeless_assign _ _ _ _ ha, Option.getD_none]
    · rw [lastNumber?, hx, Option.map_some]

/-- What an error that is reported after the calls can be due to: the line that ran last, or an
interrupt since when no line has run. -/
inductive Blamed (program : Program) (calls : List Call) : Error → Prop where
  | last {e : Error} (h : LastFault ((start program).history calls) e) : Blamed program calls e
  | interrupt {before later : List Call} (hc : calls = before ++ .interrupt :: later)
      (hl : (start program).history calls = (start program).history before) :
      Blamed program calls
        { kind := .interrupted, line := lastNumber? ((start program).history before) }

namespace Blamed

variable {program : Program} {calls : List Call} {e : Error}

theorem line_eq (h : Blamed program calls e) :
    e.line = lastNumber? ((start program).history calls) := by
  cases h with
  | last h =>
    obtain ⟨number, he, hlast⟩ := h.line_eq
    rw [he, hlast]
  | interrupt hc hl => rw [hl]

theorem interrupted_of_line_none (h : Blamed program calls e) (he : e.line = none) :
    e.kind = .interrupted := by
  cases h with
  | last h =>
    obtain ⟨number, hnumber, -⟩ := h.line_eq
    rw [he] at hnumber
    cases hnumber
  | interrupt hc hl => rfl

/-- A call in which no line is run leaves the blame where it is. -/
theorem concat (h : Blamed program calls e) {c : Call}
    (hc : ((start program).after calls).performHistory c = []) :
    Blamed program (calls ++ [c]) e := by
  have hsame : (start program).history (calls ++ [c]) = (start program).history calls := by
    rw [history_concat, hc, List.append_nil]
  cases h with
  | last h => exact .last (hsame ▸ h)
  | @interrupt before later heq hl =>
    have hlater : calls ++ [c] = before ++ .interrupt :: (later ++ [c]) := by
      rw [heq, List.append_assoc, List.cons_append]
    exact .interrupt hlater (hsame.trans hl)

end Blamed

/-- A machine that waits does so for the answer to the line that ran last, and has the data that
this line found. -/
def AsksLast (past : List Execution) (m : Machine) : Prop :=
  ∀ number names answer, m.phase = .awaiting number names answer →
    ∃ x, past.getLast? = some x ∧ x.line.number = number ∧ x.wanted? = some names ∧
      m.data = x.machine.data

theorem asksLast_after {x : Execution} (hx : x.machine.phase = .running) (past : List Execution) :
    AsksLast (past ++ [x]) x.after := by
  intro number names answer hp
  refine ⟨x, List.getLast?_concat, ?_⟩
  cases hw : x.wanted? with
  | none =>
    rcases (Execution.runLine_of_not_wanted hw).2 with hphase | hphase
    · rw [hphase, hx] at hp
      cases hp
    · rw [hphase] at hp
      cases hp
  | some names' =>
    rw [Execution.after, Execution.runLine_of_wanted hw] at hp ⊢
    cases hp
    exact ⟨rfl, rfl, rfl⟩

theorem AsksLast.supply {past : List Execution} {m : Machine} (h : AsksLast past m) (line : Text) :
    AsksLast past (m.supply line).2 := by
  unfold Machine.supply
  split
  next number names answer hp =>
    intro number' names' answer' hp'
    cases hp'
    exact h number names answer hp
  next => exact h

/-- What an execution reports and leaves: a request or an error in it is due to the last line. -/
structure Reported (past : List Execution) (event : Event) (m : Machine) : Prop where
  asks : AsksLast past m
  fault : ∀ e, event = .failed e ∨ m.queued = some (.failed e) → LastFault past e

variable {m : Machine} {past : List Execution}

theorem reported_turns (hm : m.Idle) (past : List Execution) (budget : Nat) :
    Reported (past ++ m.turnsHistory budget) (m.turns budget).1 (m.turns budget).2 := by
  have hkeep : TurnsKeep (fun _ _ => True) Reported := by
    refine ⟨fun {past m} _ hi => ?_, fun {past m} _ hi => ?_, fun {past x} _ hx _ => ?_,
      fun {past x event} _ hx _ hevent hq => ?_, fun _ _ _ _ _ => trivial⟩
    · exact ⟨fun number names answer hp => absurd hp (hi.2 _ _ _),
        fun e he => by simp [hi.1] at he⟩
    · exact ⟨fun number names answer hp => (nomatch hp), fun e he => by simp [hi.1] at he⟩
    · exact ⟨asksLast_after hx.running past, fun e he =>
        .line List.getLast?_concat (he.resolve_left nofun)⟩
    · refine ⟨asksLast_after hx.running past, fun e he => .line List.getLast?_concat ?_⟩
      rcases he with rfl | he
      · exact hevent
      · rw [hq] at he
        cases he
  exact hkeep.turns trivial hm budget

/-- An execution of a machine in which no error is left over. -/
theorem reported_run (h : AsksLast past m) (hq : ∀ e, m.queued ≠ some (.failed e)) (budget : Nat) :
    Reported (past ++ m.runHistory budget) (m.run budget).1 (m.run budget).2 := by
  have hr := m.resumption_resume
  generalize hresumed : m.resume = resumed at hr
  cases hr with
  | @reported event hqueued =>
    obtain ⟨hrun, hlines⟩ := run_of_resume_some hresumed budget
    rw [hrun, hlines, List.append_nil]
    refine ⟨h, fun e he => ?_⟩
    rcases he with rfl | he
    · exact absurd hqueued (hq e)
    · cases he
  | waiting hqueued hp =>
    obtain ⟨hrun, hlines⟩ := run_of_resume_some hresumed budget
    rw [hrun, hlines, List.append_nil]
    refine ⟨h, fun e he => absurd (he.resolve_left nofun) (hq e)⟩
  | @rejected number names line e hqueued hp ha =>
    obtain ⟨hrun, hlines⟩ := run_of_resume_some hresumed budget
    rw [hrun, hlines, List.append_nil]
    refine ⟨fun _ _ _ hp' => (nomatch hp'), fun e' he' => ?_⟩
    rcases he' with he' | he'
    · cases he'
      obtain ⟨x, hx, rfl, hw, hdata⟩ := h _ _ _ hp
      have hvars : m.vars = x.machine.vars := congrArg Data.vars hdata
      exact .answer hx hw (hvars ▸ ha)
    · exact absurd he' (hq e')
  | answered hqueued hp ha =>
    obtain ⟨hrun, hlines⟩ := run_of_resume_none hresumed budget
    rw [hrun, hlines]
    exact reported_turns (idle_of_resume hresumed) past budget
  | idle hm =>
    obtain ⟨hrun, hlines⟩ := run_of_resume_none hresumed budget
    rw [hrun, hlines]
    exact reported_turns hm past budget

/-- What is left over after the calls is due to the last line or to an interrupt. -/
structure Accounted (program : Program) (calls : List Call) : Prop where
  asks : AsksLast ((start program).history calls) ((start program).after calls)
  queued : ∀ e, ((start program).after calls).queued = some (.failed e) → Blamed program calls e

namespace Accounted

variable {program : Program} {calls : List Call}

/-- An execution keeps account of what is left over, and of the error that it reports. -/
theorem run (h : Accounted program calls) (budget : Nat) :
    Accounted program (calls ++ [.run budget]) ∧
      ∀ e, (((start program).after calls).run budget).1 = .failed e →
        Blamed program (calls ++ [.run budget]) e := by
  have hlines := history_concat (start program) calls (.run budget)
  have hafter : (start program).after (calls ++ [.run budget]) =
    (((start program).after calls).run budget).2 := after_concat _ _ _
  by_cases hq : ∃ e, ((start program).after calls).queued = some (.failed e)
  · obtain ⟨e, hq⟩ := hq
    obtain ⟨hrun, hnone⟩ := run_of_resume_some (resume_of_queued hq) budget
    have hblamed : Blamed program (calls ++ [.run budget]) e := (h.queued e hq).concat hnone
    rw [performHistory, hnone, List.append_nil] at hlines
    rw [hrun] at hafter ⊢
    refine ⟨⟨?_, fun e' he' => ?_⟩, fun e' he' => ?_⟩
    · rw [hlines, hafter]
      exact h.asks
    · rw [hafter] at he'
      cases he'
    · cases he'
      exact hblamed
  · have hreported := reported_run h.asks (fun e he => hq ⟨e, he⟩) budget
    change (start program).history _ = _ ++ Machine.runHistory budget _ at hlines
    rw [← hlines] at hreported
    refine ⟨⟨?_, fun e he => .last (hreported.fault e (.inr ?_))⟩, fun e he =>
      .last (hreported.fault e (.inl he))⟩
    · rw [hafter]
      exact hreported.asks
    · rwa [hafter] at he

/-- A call that leaves the queue as it is, and runs no line. -/
theorem quiet (h : Accounted program calls) {c : Call}
    (hlines : ((start program).after calls).performHistory c = [])
    (hasks : AsksLast ((start program).history calls) (((start program).after calls).perform c).2)
    (hqueued : (((start program).after calls).perform c).2.queued =
      ((start program).after calls).queued) : Accounted program (calls ++ [c]) := by
  refine ⟨?_, fun e he => ?_⟩
  · rw [history_concat, after_concat, hlines, List.append_nil]
    exact hasks
  · rw [after_concat, hqueued] at he
    exact (h.queued e he).concat hlines

/-- The error of an interrupt names the line that ran last, which is the current one. -/
theorem interrupt (h : Accounted program calls) : Accounted program (calls ++ [.interrupt]) := by
  have hlines : (start program).history (calls ++ [.interrupt]) =
      (start program).history calls := by
    rw [history_concat, performHistory, List.append_nil]
  have hafter : (start program).after (calls ++ [.interrupt]) =
    ((start program).after calls).interrupt := after_concat _ _ _
  have hcurrent : ((start program).after calls).current =
    lastNumber? ((start program).history calls) := kept_current.history rfl calls
  cases hhalted : ((start program).after calls).isHalted with
  | true =>
    have hsame : ((start program).after calls).interrupt = (start program).after calls :=
      if_pos hhalted
    refine h.quiet rfl ?_ ?_
    · show AsksLast _ ((start program).after calls).interrupt
      rw [hsame]
      exact h.asks
    · show ((start program).after calls).interrupt.queued = _
      rw [hsame]
  | false =>
    have hbroken : ((start program).after calls).interrupt = _ := if_neg (by simp [hhalted])
    rw [hbroken] at hafter
    refine ⟨fun _ _ _ hp => ?_, fun e he => ?_⟩
    · rw [hafter] at hp
      cases hp
    · rw [hafter] at he
      cases he
      rw [breakError, hcurrent]
      exact .interrupt rfl hlines

theorem perform (h : Accounted program calls) (c : Call) : Accounted program (calls ++ [c]) := by
  cases c with
  | run budget => exact (h.run budget).1
  | trace on => exact h.quiet rfl h.asks rfl
  | interrupt => exact h.interrupt
  | supply line =>
    refine h.quiet rfl (h.asks.supply line) ?_
    obtain ⟨phase, -, hsupply⟩ := ((start program).after calls).exists_supply_eq line
    show (Machine.supply line _).2.queued = _
    rw [hsupply]

end Accounted

theorem accounted (program : Program) (calls : List Call) : Accounted program calls := by
  induction calls using List.reverseRecOn with
  | nil => exact ⟨fun _ _ _ hp => (nomatch hp), fun e he => (nomatch he)⟩
  | append_singleton calls c ih => exact ih.perform c

/-- An error that an execution reports carries the number of the line that ran last, whether it is
due to that line, to an answer for which it asked, or to an interrupt after it. It carries no
number only if it is that of an interrupt before the first line. -/
theorem error_names_last_line (program : Program) (calls : List Call) (budget : Nat) (e : Error)
    (h : (((start program).after calls).run budget).1 = .failed e) :
    let past := (start program).history (calls ++ [.run budget])
    e.line = lastNumber? past ∧ (e.line = none → e.kind = .interrupted ∧ past = []) ∧
      Blamed program (calls ++ [.run budget]) e := by
  intro past
  have hblamed := ((accounted program calls).run budget).2 e h
  refine ⟨hblamed.line_eq, fun hnone => ⟨hblamed.interrupted_of_line_none hnone, ?_⟩, hblamed⟩
  have hlast : lastNumber? past = none := hblamed.line_eq.symm.trans hnone
  exact List.getLast?_eq_none_iff.1 (Option.map_eq_none_iff.1 hlast)

/-- A bad answer that is refused after its line has waited behind a mark, and interrupts before the
first line and after the first two. -/
theorem error_names_last_line_refused :
    let program : Program := ⟨#[⟨10, "INTEGER A".toList⟩, ⟨20, "INPUT A".toList⟩]⟩
    let asked : List Call :=
      [.run 1, .trace true, .run 1, .supply "x".toList, .run 1, .trace false]
    (∃ e, (((start program).after asked).run 9).1 = .failed e ∧ e.line = some 20 ∧
      Blamed program (asked ++ [.run 9]) e) ∧
    (∃ e, (((start program).after [.interrupt]).run 9).1 = .failed e ∧ e.line = none ∧
      e.kind = .interrupted ∧ (start program).history [.interrupt, .run 9] = []) ∧
    ∃ e, (((start program).after [.run 1, .run 1, .interrupt]).run 9).1 = .failed e ∧
      e.line = some 20 := by
  intro program asked
  have hnumber {calls : List Call} {e : Error} {number : Option Nat}
      (he : (((start program).after calls).run 9).1 = .failed e)
      (hlast : lastNumber? ((start program).history (calls ++ [.run 9])) = number) :
      e.line = number := (error_names_last_line program calls 9 e he).1.trans hlast
  have hrefused : (((start program).after asked).run 9).1 =
      .failed { kind := .badNumber, line := some 20, detail := "x".toList } := by decide +kernel
  have hfirst : (((start program).after [.interrupt]).run 9).1 =
      .failed { kind := .interrupted, line := none } := by decide +kernel
  have hlater : (((start program).after [.run 1, .run 1, .interrupt]).run 9).1 =
      .failed { kind := .interrupted, line := some 20 } := by decide +kernel
  exact ⟨⟨_, hrefused, hnumber hrefused (by decide +kernel),
      (error_names_last_line program asked 9 _ hrefused).2.2⟩,
    ⟨_, hfirst, hnumber hfirst (by decide +kernel),
      (error_names_last_line program [.interrupt] 9 _ hfirst).2.1 rfl⟩,
    ⟨_, hlater, hnumber hlater (by decide +kernel)⟩⟩

end Machine
end LineScript
