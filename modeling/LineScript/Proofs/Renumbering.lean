import Mathlib.Data.List.Forall2
import Mathlib.Order.Monotone.Basic
import LineScript.Proofs.History
import LineScript.Proofs.Lockstep
import LineScript.Proofs.Placement

/-!
Only the addresses to which jumps lead matter, not the numbers of the lines. Machines of two
aligned programs stay in lockstep through all calls; what they report differs in the numbers of
lines alone, which are those of the lines at the same address.
-/
namespace LineScript

/-- Events that differ at most in the number of the line that an error names. -/
inductive Event.Alike (R : Nat → Nat → Prop) : Event → Event → Prop where
  | same {event : Event} (h : ∀ e, event ≠ .failed e) : Alike R event event
  | failed {e e' : Error} (hk : e.kind = e'.kind) (hl : Option.Rel R e.line e'.line)
      (hd : e.detail = e'.detail) : Alike R (.failed e) (.failed e')

namespace Machine

/-- Machines in lockstep that are traced alike and have alike events to report. -/
structure Synchronous (p q : Program) (m m' : Machine) : Prop extends Lockstep p q m m' where
  queued : Option.Rel (Event.Alike (p.Paired q)) m.queued m'.queued
  tracing_eq : m.tracing = m'.tracing

/-- The line whose mark a call reports, where lines are traced. -/
def marked? (m : Machine) (c : Call) : Option Execution :=
  if m.tracing then (m.performHistory c).head? else none

/-- What two machines give back for a call, given the lines whose marks they report: the marks of
the lines at one address, or else answers that differ at most in the line that an error names. -/
inductive ResponsesAlike (p q : Program) :
    Option Execution → Option Execution → Response → Response → Prop where
  | marked {x x' : Execution} (ha : x.address = x'.address) (hl : p.line? x.address = some x.line)
      (hl' : q.line? x'.address = some x'.line) :
      ResponsesAlike p q (some x) (some x') (.event (.print (mark x.line.number)))
        (.event (.print (mark x'.line.number)))
  | event {e e' : Event} (h : e.Alike (p.Paired q) e') :
      ResponsesAlike p q none none (.event e) (.event e')
  | accepted (yes : Bool) : ResponsesAlike p q none none (.accepted yes) (.accepted yes)
  | done : ResponsesAlike p q none none .done .done

variable {p q : Program} {m m' : Machine}

/-- An outcome is settled with the number of the line, which is all that can differ afterwards. -/
theorem OutcomesAlike.settle {o o' : Outcome} (ho : OutcomesAlike p q o o') {n n' : Nat}
    (hn : p.Paired q n n') (hplace : Placeless o.1) (hf : ∀ e, o.1 ≠ .ok (some (.failed e))) :
    Option.Rel (Event.Alike (p.Paired q)) (settle n o).1 (settle n' o').1 ∧
      Lockstep p q (settle n o).2 (settle n' o').2 := by
  obtain ⟨r, m⟩ := o
  obtain ⟨r', m'⟩ := o'
  obtain ⟨hr, hm⟩ := ho
  dsimp only at hr hm hplace hf
  subst hr
  cases r with
  | ok event =>
    refine ⟨?_, hm⟩
    cases event with
    | none => exact .none
    | some event =>
      refine .some (.same fun e he => hf e ?_)
      rw [he]
  | error e =>
    have hline : e.line = none := hplace e rfl
    refine ⟨.some (.failed rfl ?_ rfl), hm.withPhase .halted⟩
    rw [Error.line_inLine, Error.line_inLine, hline]
    exact .some hn

namespace Synchronous

theorem start (p q : Program) : Synchronous p q (start p) (start q) where
  program_left := rfl
  program_right := rfl
  vars_eq := rfl
  stack_eq := rfl
  calls_eq := rfl
  counter_eq := rfl
  current := .none
  phase := .running
  queued := .none
  tracing_eq := rfl

theorem halt (h : Synchronous p q m m') :
    Synchronous p q { m with phase := .halted } { m' with phase := .halted } :=
  { h with phase := .halted }

theorem withQueued (h : Synchronous p q m m') {event event' : Option Event}
    (he : Option.Rel (Event.Alike (p.Paired q)) event event') :
    Synchronous p q { m with queued := event } { m' with queued := event' } :=
  { h with queued := he }

/-- The next lines of the two machines are at the same address. -/
theorem upcoming (h : Synchronous p q m m') (ha : p.Aligned q) :
    (m.upcoming? = none ∧ m'.upcoming? = none) ∨ ∃ line line',
      m.upcoming? = some ⟨m, line⟩ ∧ m'.upcoming? = some ⟨m', line'⟩ ∧
        p.line? m.counter = some line ∧ q.line? m'.counter = some line' := by
  have hhalted := h.isHalted_eq
  unfold upcoming?
  rw [h.program_left, h.program_right, ← hhalted]
  cases m.isHalted with
  | true => exact .inl ⟨rfl, rfl⟩
  | false =>
    have hnone : p.line? m.counter = none ↔ q.line? m'.counter = none := by
      rw [Program.line?_eq_none_iff, Program.line?_eq_none_iff, h.counter_eq, ha.size_eq]
    cases hl : p.line? m.counter with
    | none => simp [hnone.1 hl]
    | some line =>
      cases hl' : q.line? m'.counter with
      | none =>
        rw [hnone.2 hl'] at hl
        cases hl
      | some line' => exact .inr ⟨line, line', rfl, rfl, rfl, rfl⟩

theorem runLine (h : Synchronous p q m m') (ha : p.Aligned q) {line line' : Line}
    (hl : p.line? m.counter = some line) (hl' : q.line? m'.counter = some line') :
    Option.Rel (Event.Alike (p.Paired q)) (m.runLine line).1 (m'.runLine line').1 ∧
      Synchronous p q (m.runLine line).2 (m'.runLine line').2 := by
  rw [← h.counter_eq] at hl'
  have hpaired : p.Paired q line.number line'.number := ⟨_, line, line', hl, hl', rfl, rfl⟩
  have hentered : Lockstep p q (m.entered line) (m'.entered line') :=
    { h.toLockstep with
      counter_eq := congrArg (· + 1) h.counter_eq
      current := .some hpaired }
  have hout := hentered.carryOut hpaired (ha.redirected _ _ _ hl hl')
  obtain ⟨hevent, hstep⟩ := hout.settle hpaired (placeless_carryOut line _)
    (effect_carryOut line _).ne_failed
  refine ⟨hevent, { hstep with queued := ?_, tracing_eq := ?_ }⟩
  · rw [queued_runLine, queued_runLine]
    exact h.queued
  · rw [tracing_runLine, tracing_runLine, h.tracing_eq]

theorem turns (h : Synchronous p q m m') (ha : p.Aligned q) (budget : Nat) :
    ResponsesAlike p q (if m.tracing then (m.turnsHistory budget).head? else none)
      (if m'.tracing then (m'.turnsHistory budget).head? else none)
      (.event (m.turns budget).1) (.event (m'.turns budget).1) ∧
    Synchronous p q (m.turns budget).2 (m'.turns budget).2 := by
  induction budget generalizing m m' with
  | zero =>
    refine ⟨?_, h⟩
    simp only [turnsHistory, List.head?_nil, ite_self]
    exact .event (.same (by simp [Machine.turns]))
  | succ budget ih =>
    rw [turnsHistory, turnsHistory, Machine.turns, Machine.turns]
    rcases h.upcoming ha with ⟨hx, hx'⟩ | ⟨line, line', hx, hx', hl, hl'⟩
    · rw [turn_of_upcoming_none hx, turn_of_upcoming_none hx', hx, hx']
      refine ⟨?_, h.halt⟩
      simp only [Option.toList_none, List.append_nil, List.head?_nil, ite_self]
      exact .event (.same (by simp))
    · obtain ⟨hevent, hstep⟩ := h.runLine ha hl hl'
      rw [turn_of_upcoming_some hx, turn_of_upcoming_some hx', hx, hx', ← h.tracing_eq]
      cases htracing : m.tracing with
      | true => exact ⟨.marked h.counter_eq hl hl', hstep.withQueued hevent⟩
      | false =>
        simp only [Bool.false_eq_true, if_false]
        have hafter : (m.runLine line).2.tracing = false := (tracing_runLine line m).trans htracing
        generalize m.runLine line = ran at hevent hstep hafter
        generalize m'.runLine line' = ran' at hevent hstep
        obtain ⟨event, after⟩ := ran
        obtain ⟨event', after'⟩ := ran'
        cases hevent with
        | some halike => exact ⟨.event halike, hstep⟩
        | none =>
          dsimp only at hafter
          have hrest := ih hstep
          rw [← hstep.tracing_eq] at hrest
          simpa only [hafter, Bool.false_eq_true, if_false] using hrest

theorem queued_cases (h : Synchronous p q m m') :
    (m.queued = none ∧ m'.queued = none) ∨ ∃ event event',
      m.queued = some event ∧ m'.queued = some event' ∧ event.Alike (p.Paired q) event' := by
  have hqueued := h.queued
  generalize m.queued = event at hqueued
  generalize m'.queued = event' at hqueued
  cases hqueued with
  | none => exact .inl ⟨rfl, rfl⟩
  | some halike => exact .inr ⟨_, _, rfl, rfl, halike⟩

theorem resume (h : Synchronous p q m m') :
    Option.Rel (Event.Alike (p.Paired q)) m.resume.1 m'.resume.1 ∧
      Synchronous p q m.resume.2 m'.resume.2 := by
  rcases h.queued_cases with ⟨hq, hq'⟩ | ⟨event, event', hq, hq', halike⟩
  · rcases h.phase_cases with ⟨hp, hp'⟩ | ⟨hp, hp'⟩ | ⟨n, n', names, answer, hn, hp, hp'⟩
    · rw [resume_of_idle ⟨hq, by simp [hp]⟩, resume_of_idle ⟨hq', by simp [hp']⟩]
      exact ⟨.none, h⟩
    · rw [resume_of_idle ⟨hq, by simp [hp]⟩, resume_of_idle ⟨hq', by simp [hp']⟩]
      exact ⟨.none, h⟩
    · cases answer with
      | none =>
        rw [resume_of_waiting hq hp, resume_of_waiting hq' hp']
        exact ⟨.some (.same (by simp)), h⟩
      | some line =>
        cases ha : Answer.assign names line m.vars with
        | ok vars =>
          rw [resume_of_answered hq hp ha, resume_of_answered hq' hp' (h.vars_eq ▸ ha)]
          exact ⟨.none, { h with vars_eq := rfl, phase := .running }⟩
        | error e =>
          have hline : e.line = none := Answer.placeless_assign names line m.vars e ha
          rw [resume_of_rejected hq hp ha, resume_of_rejected hq' hp' (h.vars_eq ▸ ha)]
          refine ⟨.some (.failed rfl ?_ rfl), h.halt⟩
          rw [Error.line_inLine, Error.line_inLine, hline]
          exact .some hn
  · rw [resume_of_queued hq, resume_of_queued hq']
    exact ⟨.some halike, h.withQueued .none⟩

theorem run (h : Synchronous p q m m') (ha : p.Aligned q) (budget : Nat) :
    ResponsesAlike p q (m.marked? (.run budget)) (m'.marked? (.run budget))
      (.event (m.run budget).1) (.event (m'.run budget).1) ∧
    Synchronous p q (m.run budget).2 (m'.run budget).2 := by
  obtain ⟨hevent, hresumed⟩ := h.resume
  have htracing := tracing_resume m
  have htracing' := tracing_resume m'
  unfold marked? Machine.run performHistory runHistory
  generalize m.resume = resumed at hevent hresumed htracing ⊢
  generalize m'.resume = resumed' at hevent hresumed htracing' ⊢
  obtain ⟨event, after⟩ := resumed
  obtain ⟨event', after'⟩ := resumed'
  dsimp only at htracing htracing' hresumed
  cases hevent with
  | some halike =>
    refine ⟨?_, hresumed⟩
    simp only [List.head?_nil, ite_self]
    exact .event halike
  | none =>
    rw [← htracing, ← htracing']
    exact hresumed.turns ha budget

theorem perform (h : Synchronous p q m m') (ha : p.Aligned q) (c : Call) :
    ResponsesAlike p q (m.marked? c) (m'.marked? c) (m.perform c).1 (m'.perform c).1 ∧
      Synchronous p q (m.perform c).2 (m'.perform c).2 := by
  have hunmarked {c : Call} (hc : ∀ m : Machine, m.performHistory c = []) (m : Machine) :
      m.marked? c = none := by
    rw [marked?, hc, List.head?_nil, ite_self]
  cases c with
  | run budget => exact h.run ha budget
  | supply line =>
    rw [hunmarked (fun _ => rfl), hunmarked (fun _ => rfl)]
    unfold Machine.perform Machine.supply
    rcases h.phase_cases with ⟨hp, hp'⟩ | ⟨hp, hp'⟩ | ⟨n, n', names, answer, hn, hp, hp'⟩
    · rw [hp, hp']
      exact ⟨.accepted false, h⟩
    · rw [hp, hp']
      exact ⟨.accepted false, h⟩
    · rw [hp, hp']
      exact ⟨.accepted true, { h with phase := .awaiting hn names (some (chomp line)) }⟩
  | interrupt =>
    rw [hunmarked (fun _ => rfl), hunmarked (fun _ => rfl)]
    refine ⟨.done, ?_⟩
    unfold Machine.perform Machine.interrupt
    rw [← h.isHalted_eq]
    cases m.isHalted with
    | true => exact h
    | false => exact h.halt.withQueued (.some (.failed rfl h.current rfl))
  | trace on =>
    rw [hunmarked (fun _ => rfl), hunmarked (fun _ => rfl)]
    exact ⟨.done, { h with tracing_eq := rfl }⟩

theorem after (h : Synchronous p q m m') (ha : p.Aligned q) (calls : List Call) :
    Synchronous p q (m.after calls) (m'.after calls) := by
  induction calls generalizing m m' with
  | nil => exact h
  | cons c calls ih => exact ih (h.perform ha c).2

end Synchronous
end Machine

namespace Program

variable {p q : Program} {f : Nat → Nat}

/-- No calls tell the two programs apart by anything but the numbers of lines: what each call gives
back is alike, and it leaves the same variables and operands, and the same machine halted. -/
def Mirrors (p q : Program) : Prop :=
  ∀ calls c,
    let m := (Machine.start p).after calls
    let m' := (Machine.start q).after calls
    Machine.ResponsesAlike p q (m.marked? c) (m'.marked? c) (m.perform c).1 (m'.perform c).1 ∧
      (m.perform c).2.vars = (m'.perform c).2.vars ∧
      (m.perform c).2.stack = (m'.perform c).2.stack ∧
      (m.perform c).2.isHalted = (m'.perform c).2.isHalted

theorem Aligned.mirrors (h : p.Aligned q) : p.Mirrors q := by
  intro calls c
  obtain ⟨hresponse, hafter⟩ := ((Machine.Synchronous.start p q).after h calls).perform h c
  exact ⟨hresponse, hafter.vars_eq, hafter.stack_eq, hafter.isHalted_eq⟩

/-- A number is at the address up to which all lines have smaller ones, whatever these are. -/
theorem locate_eq_of_iff {n n' : Nat} (hsize : p.size = q.size)
    (h : ∀ address line line', p.line? address = some line → q.line? address = some line' →
      (n ≤ line.number ↔ n' ≤ line'.number)) : p.locate n = q.locate n' := by
  obtain ⟨⟨l⟩⟩ := p
  obtain ⟨⟨l'⟩⟩ := q
  have hlines : List.Forall₂ (fun line line' : Line => n ≤ line.number ↔ n' ≤ line'.number) l l' :=
    List.forall₂_iff_get.2 ⟨hsize, fun i hi hi' =>
      h i _ _ (Array.getElem?_eq_getElem hi) (Array.getElem?_eq_getElem hi')⟩
  unfold locate
  rw [List.findIdx_toArray, List.findIdx_toArray]
  clear h hsize
  induction hlines with
  | nil => rfl
  | cons hline _ ih => simp [List.findIdx_cons, hline, ih]

/-- The numbers that a program uses: those of its lines, and those that its jumps name. -/
def numbers (p : Program) : Set Nat :=
  {n | ∃ address line, p.line? address = some line ∧ (line.number = n ∨
    ∃ form operands, Instruction.jump? line.instruction = some (form, operands) ∧
      Line.target? operands = some n)}

/-- The second program has `f` of each number where the first has the number, and `f` keeps the
order of the numbers used. -/
structure Renumbered (f : Nat → Nat) (p q : Program) : Prop where
  size_eq : p.size = q.size
  strictMonoOn : StrictMonoOn f p.numbers
  number_eq : ∀ address line line', p.line? address = some line → q.line? address = some line' →
    line'.number = f line.number
  redirected : ∀ address line line', p.line? address = some line → q.line? address = some line' →
    Instruction.Redirected (fun s s' => Line.target? s' = (Line.target? s).map f)
      line.instruction line'.instruction

namespace Renumbered

theorem locate_eq (h : p.Renumbered f q) {n : Nat} (hn : n ∈ p.numbers) :
    p.locate n = q.locate (f n) := by
  refine locate_eq_of_iff h.size_eq fun address line line' hl hl' => ?_
  have hused : line.number ∈ p.numbers := ⟨address, line, hl, .inl rfl⟩
  rw [h.number_eq address line line' hl hl', h.strictMonoOn.le_iff_le hn hused]

theorem aligned (h : p.Renumbered f q) : p.Aligned q := by
  refine ⟨h.size_eq, fun address line line' hl hl' => ?_⟩
  refine (h.redirected address line line' hl hl').imp fun form operands operands' hj ht => ?_
  unfold SameTarget
  rw [ht]
  cases hn : Line.target? operands with
  | none => rfl
  | some n =>
    have hused : n ∈ p.numbers := ⟨address, line, hl, .inr ⟨form, operands, hj, hn⟩⟩
    simp [h.locate_eq hused]

theorem eq_of_paired (h : p.Renumbered f q) {n n' : Nat} (hn : p.Paired q n n') : n' = f n := by
  obtain ⟨address, line, line', hl, hl', rfl, rfl⟩ := hn
  exact h.number_eq address line line' hl hl'

end Renumbered

/-- Programs whose jumps lead to the same addresses mirror each other through all calls. So does a
program with its numbers changed in one order-preserving way, and then each number that is reported
of the one is the changed number in the other. -/
theorem mirrors_of_addresses (p q : Program) :
    (p.Aligned q → p.Mirrors q) ∧
    ∀ f, p.Renumbered f q → p.Mirrors q ∧ ∀ n n', p.Paired q n n' → n' = f n := by
  refine ⟨fun h => h.mirrors, fun f h => ⟨h.aligned.mirrors, fun n n' hn => h.eq_of_paired hn⟩⟩

/-- A jump to a line that is missing, with the numbers doubled, and with the jumps spelled anew. -/
theorem mirrors_of_addresses_missing :
    let p : Program := ⟨#[⟨10, "IF 1<2 THEN GOTO 25".toList⟩, ⟨20, "INPUT X".toList⟩,
      ⟨30, "GOSUB X".toList⟩]⟩
    let q : Program := ⟨#[⟨20, "IF 1<2 THEN GOTO 50".toList⟩, ⟨40, "INPUT X".toList⟩,
      ⟨60, "GOSUB X".toList⟩]⟩
    let q' : Program := ⟨#[⟨7, "IF 1<2 THEN GOTO +9".toList⟩, ⟨8, "INPUT X".toList⟩,
      ⟨9, "GOSUB Y".toList⟩]⟩
    (p.Renumbered (2 * ·) q ∧ p.Mirrors q) ∧ (p.Aligned q' ∧ p.Mirrors q') := by
  intro p q q'
  have hrenumbered : p.Renumbered (2 * ·) q := by
    refine ⟨rfl, fun a _ b _ hab => Nat.mul_lt_mul_of_pos_left hab Nat.zero_lt_two, ?_, ?_⟩
    · intro address line line' hl hl'
      match address, hl, hl' with
      | 0, rfl, rfl => rfl
      | 1, rfl, rfl => rfl
      | 2, rfl, rfl => rfl
    · intro address line line' hl hl'
      match address, hl, hl' with
      | 0, rfl, rfl => exact .moved rfl rfl (by decide +kernel)
      | 1, rfl, rfl => exact .same rfl
      | 2, rfl, rfl => exact .moved rfl rfl rfl
  have haligned : p.Aligned q' := by
    refine ⟨rfl, fun address line line' hl hl' => ?_⟩
    match address, hl, hl' with
    | 0, rfl, rfl => exact .moved rfl rfl (by unfold SameTarget; decide +kernel)
    | 1, rfl, rfl => exact .same rfl
    | 2, rfl, rfl => exact .moved rfl rfl (by unfold SameTarget; decide +kernel)
  exact ⟨⟨hrenumbered, ((mirrors_of_addresses p q).2 _ hrenumbered).1⟩,
    haligned, (mirrors_of_addresses p q').1 haligned⟩

end Program
end LineScript
