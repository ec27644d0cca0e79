import LineScript.Proofs.Blanks
import LineScript.Proofs.Turns

/-!
Two machines that go through two programs address by address. The programs may number their lines
differently and spell their jumps differently, as long as each jump leads to the same address in
both; then every line finds and leaves the two machines with the same data at the same address, and
only the numbers of lines that they remember differ.
-/
namespace LineScript

namespace Instruction

/-- The ways in which an instruction can name a line. -/
inductive JumpForm where
  | plain
  | call
  /-- A jump as the action of the condition with the given text before THEN. -/
  | conditional (condition : Text)
  deriving DecidableEq

/-- How an instruction jumps, if it does, and the operands that say where to. -/
def jump? (s : Text) : Option (JumpForm × Text) :=
  match parse s with
  | .ok ⟨.jump, operands⟩ => some (.plain, operands)
  | .ok ⟨.call, operands⟩ => some (.call, operands)
  | .ok ⟨.branch, operands⟩ =>
    match Source.aroundThen? operands with
    | some (condition, action) =>
      match parse action with
      | .ok ⟨.jump, operands⟩ => some (.conditional condition, operands)
      | _ => none
    | none => none
  | _ => none

/-- Two instructions that are the same, or jump in the same way with operands that `R` relates. -/
inductive Redirected (R : Text → Text → Prop) : Text → Text → Prop where
  | same {s : Text} (h : jump? s = none) : Redirected R s s
  | moved {s s' operands operands' : Text} {form : JumpForm} (h : jump? s = some (form, operands))
      (h' : jump? s' = some (form, operands')) (hr : R operands operands') : Redirected R s s'

theorem Redirected.imp {R S : Text → Text → Prop} {s s' : Text} (h : Redirected R s s')
    (hRS : ∀ form operands operands', jump? s = some (form, operands) → R operands operands' →
      S operands operands') : Redirected S s s' := by
  cases h with
  | same h => exact .same h
  | moved h h' hr => exact .moved h h' (hRS _ _ _ h hr)

theorem parse_of_jump? {s operands : Text} {form : JumpForm}
    (h : jump? s = some (form, operands)) :
    match form with
    | .plain => parse s = .ok ⟨.jump, operands⟩
    | .call => parse s = .ok ⟨.call, operands⟩
    | .conditional condition => ∃ body action, parse s = .ok ⟨.branch, body⟩ ∧
        Source.aroundThen? body = some (condition, action) ∧
        parse action = .ok ⟨.jump, operands⟩ := by
  unfold jump? at h
  split at h
  next hs =>
    cases h
    exact hs
  next hs =>
    cases h
    exact hs
  next body hs =>
    split at h
    next condition action hbody =>
      split at h
      next haction =>
        cases h
        exact ⟨body, action, hs, hbody, haction⟩
      next => cases h
    next => cases h
  next => cases h

end Instruction

namespace Program

variable {p q : Program}

/-- Two numerals of lines at the same address, or two texts that are no numbers of lines. -/
def SameTarget (p q : Program) (s s' : Text) : Prop :=
  (Line.target? s).map p.locate = (Line.target? s').map q.locate

/-- Programs of one size whose instructions differ only in how they name the lines they jump to. -/
structure Aligned (p q : Program) : Prop where
  size_eq : p.size = q.size
  redirected : ∀ address line line', p.line? address = some line → q.line? address = some line' →
    Instruction.Redirected (p.SameTarget q) line.instruction line'.instruction

/-- The numbers of the lines at some address of both programs. -/
def Paired (p q : Program) (n n' : Nat) : Prop :=
  ∃ address line line', p.line? address = some line ∧ q.line? address = some line' ∧
    line.number = n ∧ line'.number = n'

theorem line?_eq_none_iff (p : Program) (address : Nat) :
    p.line? address = none ↔ p.size ≤ address :=
  Array.getElem?_eq_none_iff

theorem Aligned.refl (p : Program) : p.Aligned p := by
  refine ⟨rfl, fun address line line' hl hl' => ?_⟩
  obtain rfl : line = line' := Option.some.inj (hl.symm.trans hl')
  cases h : Instruction.jump? line.instruction with
  | none => exact .same h
  | some jump => exact .moved h h rfl

theorem eq_of_paired_self {n n' : Nat} (h : p.Paired p n n') : n = n' := by
  obtain ⟨address, line, line', hl, hl', rfl, rfl⟩ := h
  rw [hl] at hl'
  cases hl'
  rfl

end Program

/-- Phases that differ at most in the number of the line that asks for input. -/
inductive Phase.Alike (R : Nat → Nat → Prop) : Phase → Phase → Prop where
  | running : Alike R .running .running
  | awaiting {n n' : Nat} (h : R n n') (names : List Text) (answer : Option Text) :
      Alike R (.awaiting n names answer) (.awaiting n' names answer)
  | halted : Alike R .halted .halted

namespace Machine

/-- Machines with the same data at the same address of their programs. What they still have to
report, and whether they are traced, is left open. -/
structure Lockstep (p q : Program) (m m' : Machine) : Prop where
  program_left : m.program = p
  program_right : m'.program = q
  vars_eq : m.vars = m'.vars
  stack_eq : m.stack = m'.stack
  calls_eq : m.calls = m'.calls
  counter_eq : m.counter = m'.counter
  current : Option.Rel (p.Paired q) m.current m'.current
  phase : Phase.Alike (p.Paired q) m.phase m'.phase

/-- Outcomes with the same result that leave machines in lockstep. -/
def OutcomesAlike (p q : Program) (o o' : Outcome) : Prop :=
  o.1 = o'.1 ∧ Lockstep p q o.2 o'.2

namespace Lockstep

variable {p q : Program} {m m' : Machine}

theorem phase_cases (h : Lockstep p q m m') :
    (m.phase = .running ∧ m'.phase = .running) ∨ (m.phase = .halted ∧ m'.phase = .halted) ∨
      ∃ n n' names answer, p.Paired q n n' ∧ m.phase = .awaiting n names answer ∧
        m'.phase = .awaiting n' names answer := by
  have hphase := h.phase
  generalize m.phase = phase at hphase
  generalize m'.phase = phase' at hphase
  cases hphase with
  | running => exact .inl ⟨rfl, rfl⟩
  | halted => exact .inr (.inl ⟨rfl, rfl⟩)
  | awaiting hn names answer => exact .inr (.inr ⟨_, _, names, answer, hn, rfl, rfl⟩)

theorem isHalted_eq (h : Lockstep p q m m') : m.isHalted = m'.isHalted := by
  unfold isHalted
  rcases h.phase_cases with ⟨hp, hp'⟩ | ⟨hp, hp'⟩ | ⟨n, n', names, answer, -, hp, hp'⟩
  · rw [hp, hp']
  · rw [hp, hp']
  · simp [hp, hp']

/-- The one machine is the other but for the program and for what it remembers of lines. -/
theorem exists_eq (h : Lockstep p q m m') : ∃ program current phase queued tracing,
    m' = { m with program, current, phase, queued, tracing } := by
  refine ⟨m'.program, m'.current, m'.phase, m'.queued, m'.tracing, ?_⟩
  rw [h.vars_eq, h.stack_eq, h.calls_eq, h.counter_eq]

/-- In one program the numbers of lines are the same, too. -/
theorem eq_of_self (h : Lockstep p p m m') (hq : m.queued = m'.queued)
    (ht : m.tracing = m'.tracing) : m = m' := by
  have hcurrent : m.current = m'.current := by
    have hrel := h.current
    generalize m.current = current at hrel
    generalize m'.current = current' at hrel
    cases hrel with
    | some hn => rw [Program.eq_of_paired_self hn]
    | none => rfl
  have hphase : m.phase = m'.phase := by
    rcases h.phase_cases with ⟨hp, hp'⟩ | ⟨hp, hp'⟩ | ⟨n, n', names, answer, hn, hp, hp'⟩
    · rw [hp, hp']
    · rw [hp, hp']
    · rw [hp, hp', Program.eq_of_paired_self hn]
  obtain ⟨program, vars, stack, calls, counter, current, phase, queued, tracing⟩ := m
  obtain ⟨rfl, rfl, rfl, rfl, rfl, rfl, -, -⟩ := h
  dsimp only at hcurrent hphase hq ht
  rw [hcurrent, hphase, hq, ht]

theorem withVars (h : Lockstep p q m m') (vars : Store) :
    Lockstep p q { m with vars } { m' with vars } :=
  { h with vars_eq := rfl }

theorem withStack (h : Lockstep p q m m') (stack : Stack Value) :
    Lockstep p q { m with stack } { m' with stack } :=
  { h with stack_eq := rfl }

theorem withCalls (h : Lockstep p q m m') (calls : Stack Nat) :
    Lockstep p q { m with calls } { m' with calls } :=
  { h with calls_eq := rfl }

theorem withCounter (h : Lockstep p q m m') (counter : Nat) :
    Lockstep p q { m with counter } { m' with counter } :=
  { h with counter_eq := rfl }

theorem withPhase (h : Lockstep p q m m') {phase phase' : Phase}
    (hp : phase.Alike (p.Paired q) phase') :
    Lockstep p q { m with phase } { m' with phase := phase' } :=
  { h with phase := hp }

theorem proceed (h : Lockstep p q m m') : OutcomesAlike p q m.proceed m'.proceed :=
  ⟨rfl, h⟩

theorem fail (h : Lockstep p q m m') (e : Error) : OutcomesAlike p q (m.fail e) (m'.fail e) :=
  ⟨rfl, h⟩

theorem attempt {α : Type} (h : Lockstep p q m m') (r : Except Error α) {next next' : α → Outcome}
    (hn : ∀ a, OutcomesAlike p q (next a) (next' a)) :
    OutcomesAlike p q (m.attempt r next) (m'.attempt r next') := by
  cases r with
  | ok a => exact hn a
  | error e => exact h.fail e

theorem store (h : Lockstep p q m m') (name : Text) (v : Value) :
    OutcomesAlike p q (m.store name v) (m'.store name v) := by
  obtain ⟨_, _, _, _, _, rfl⟩ := h.exists_eq
  exact h.attempt (m.vars.assign name v) fun vars => (h.withVars vars).proceed

theorem declare (h : Lockstep p q m m') (operands : Text) :
    OutcomesAlike p q (m.declare operands) (m'.declare operands) := by
  obtain ⟨_, _, _, _, _, rfl⟩ := h.exists_eq
  exact ⟨rfl, h.withVars _⟩

theorem input (h : Lockstep p q m m') {number number' : Nat} (hn : p.Paired q number number')
    (operands : Text) :
    OutcomesAlike p q (m.input number operands) (m'.input number' operands) := by
  obtain ⟨_, _, _, _, _, rfl⟩ := h.exists_eq
  unfold Machine.input
  dsimp only
  split
  · exact h.fail _
  · exact ⟨rfl, h.withPhase (.awaiting hn _ none)⟩

theorem assign (h : Lockstep p q m m') (operands : Text) :
    OutcomesAlike p q (m.assign operands) (m'.assign operands) := by
  obtain ⟨_, _, _, _, _, rfl⟩ := h.exists_eq
  unfold Machine.assign
  dsimp only
  split
  · exact h.fail _
  · split
    · exact h.attempt _ fun v => h.store _ v
    · exact h.fail _

theorem push (h : Lockstep p q m m') (operands : Text) :
    OutcomesAlike p q (m.push operands) (m'.push operands) := by
  obtain ⟨_, _, _, _, _, rfl⟩ := h.exists_eq
  refine h.attempt (Expr.evaluateIn m.vars operands) fun v => ⟨rfl, ?_⟩
  exact h.withStack (m.stack.push v).2

theorem pop (h : Lockstep p q m m') (operands : Text) :
    OutcomesAlike p q (m.pop operands) (m'.pop operands) := by
  obtain ⟨_, _, _, _, _, rfl⟩ := h.exists_eq
  have hpopped := h.withStack (m.stack.pop (.of .stackEmpty)).2
  unfold Machine.pop
  dsimp only
  split
  · exact h.fail _
  · exact hpopped.attempt _ fun v => hpopped.store operands v

theorem leave (h : Lockstep p q m m') : OutcomesAlike p q m.leave m'.leave := by
  obtain ⟨_, _, _, _, _, rfl⟩ := h.exists_eq
  have hpopped := h.withCalls (m.calls.pop (.of .noCaller)).2
  exact hpopped.attempt _ fun counter => (hpopped.withCounter counter).proceed

theorem print (h : Lockstep p q m m') (operands ending : Text) :
    OutcomesAlike p q (m.print operands ending) (m'.print operands ending) := by
  obtain ⟨_, _, _, _, _, rfl⟩ := h.exists_eq
  exact h.attempt (printed m.vars operands) fun _ => ⟨rfl, h⟩

theorem finish (h : Lockstep p q m m') : OutcomesAlike p q m.finish m'.finish :=
  ⟨rfl, h.withPhase .halted⟩

theorem goTo (h : Lockstep p q m m') {number number' : Nat}
    (ha : p.locate number = q.locate number') :
    Lockstep p q (m.goTo number) (m'.goTo number') := by
  refine { h with counter_eq := ?_ }
  change m.program.locate number = m'.program.locate number'
  rw [h.program_left, h.program_right, ha]

/-- Targets at the same address are both missing, or lead the machines to the same place. -/
theorem target_cases {operands operands' : Text} (ht : p.SameTarget q operands operands') :
    (target operands = .error Line.badNumber ∧ target operands' = .error Line.badNumber) ∨
      ∃ number number', target operands = .ok number ∧ target operands' = .ok number' ∧
        p.locate number = q.locate number' := by
  unfold Program.SameTarget at ht
  unfold target
  cases hs : Line.target? operands with
  | none =>
    cases hs' : Line.target? operands' with
    | none => exact .inl ⟨rfl, rfl⟩
    | some number' => simp [hs, hs'] at ht
  | some number =>
    cases hs' : Line.target? operands' with
    | none => simp [hs, hs'] at ht
    | some number' => exact .inr ⟨number, number', rfl, rfl, by simpa [hs, hs'] using ht⟩

theorem jump (h : Lockstep p q m m') {operands operands' : Text}
    (ht : p.SameTarget q operands operands') :
    OutcomesAlike p q (m.jump operands) (m'.jump operands') := by
  unfold Machine.jump
  rcases target_cases ht with ⟨hs, hs'⟩ | ⟨number, number', hs, hs', ha⟩
  · rw [hs, hs']
    exact h.fail _
  · rw [hs, hs']
    exact (h.goTo ha).proceed

theorem call (h : Lockstep p q m m') {operands operands' : Text}
    (ht : p.SameTarget q operands operands') :
    OutcomesAlike p q (m.call operands) (m'.call operands') := by
  obtain ⟨_, _, _, _, _, rfl⟩ := h.exists_eq
  have hpushed := h.withCalls (m.calls.push m.counter).2
  unfold Machine.call
  rcases target_cases ht with ⟨hs, hs'⟩ | ⟨number, number', hs, hs', ha⟩
  · rw [hs, hs']
    exact h.fail _
  · rw [hs, hs']
    exact hpushed.attempt _ fun _ => (hpushed.goTo ha).proceed

/-- Only a jump as the action of a condition looks at the program. -/
theorem act (h : Lockstep p q m m') {action : Text}
    (hj : ∀ operands, Instruction.parse action ≠ .ok ⟨.jump, operands⟩) :
    OutcomesAlike p q (m.act action) (m'.act action) := by
  unfold Machine.act
  split
  · exact h.print _ _
  · exact h.print _ _
  next operands ha => exact absurd ha (hj operands)
  · exact h.proceed

/-- The two machines test the same condition, and then each acts as its own text says. -/
theorem branch_of_act (h : Lockstep p q m m') {operands operands' condition action action' : Text}
    (ho : Source.aroundThen? operands = some (condition, action))
    (ho' : Source.aroundThen? operands' = some (condition, action'))
    (hact : OutcomesAlike p q (m.act (Text.trim action)) (m'.act (Text.trim action'))) :
    OutcomesAlike p q (m.branch operands) (m'.branch operands') := by
  obtain ⟨_, _, _, _, _, rfl⟩ := h.exists_eq
  unfold Machine.branch Condition.parse
  rw [ho, ho']
  dsimp only
  split
  · exact h.fail _
  · split
    · exact h.fail _
    next relation _ _ left right hsides =>
      refine h.attempt (Condition.test m.vars ⟨left, relation, right, Text.trim action⟩)
        fun holds => ?_
      cases holds with
      | true => exact hact
      | false => exact h.proceed

theorem branch (h : Lockstep p q m m') {s operands : Text}
    (hs : Instruction.parse s = .ok ⟨.branch, operands⟩) (hj : Instruction.jump? s = none) :
    OutcomesAlike p q (m.branch operands) (m'.branch operands) := by
  cases ho : Source.aroundThen? operands with
  | none =>
    unfold Machine.branch Condition.parse
    rw [ho]
    exact h.fail _
  | some parts =>
    obtain ⟨condition, action⟩ := parts
    refine h.branch_of_act ho ho (h.act fun target ha => ?_)
    rw [Instruction.parse_trim] at ha
    simp [Instruction.jump?, hs, ho, ha] at hj

/-- A line that names no other line has the same effect in both programs. -/
theorem carryOut_same (h : Lockstep p q m m') {number number' : Nat}
    (hn : p.Paired q number number') {s : Text} (hj : Instruction.jump? s = none) :
    OutcomesAlike p q (m.carryOut ⟨number, s⟩) (m'.carryOut ⟨number', s⟩) := by
  unfold Machine.carryOut
  cases hs : Instruction.parse s with
  | error e => exact h.fail e
  | ok i =>
    obtain ⟨keyword, operands⟩ := i
    cases keyword with
    | declare => exact h.declare operands
    | input => exact h.input hn operands
    | assign => exact h.assign operands
    | push => exact h.push operands
    | pop => exact h.pop operands
    | branch => exact h.branch hs hj
    | jump => simp [Instruction.jump?, hs] at hj
    | call => simp [Instruction.jump?, hs] at hj
    | leave => exact h.leave
    | print => exact h.print operands []
    | printLine => exact h.print operands ['\n']
    | finish => exact h.finish

theorem carryOut (h : Lockstep p q m m') {line line' : Line}
    (hn : p.Paired q line.number line'.number)
    (hr : Instruction.Redirected (p.SameTarget q) line.instruction line'.instruction) :
    OutcomesAlike p q (m.carryOut line) (m'.carryOut line') := by
  obtain ⟨number, s⟩ := line
  obtain ⟨number', s'⟩ := line'
  cases hr with
  | same hj => exact h.carryOut_same hn hj
  | @moved _ _ _ form hs hs' ht =>
    have hparse := Instruction.parse_of_jump? hs
    have hparse' := Instruction.parse_of_jump? hs'
    cases form with
    | plain =>
      rw [carryOut_of_parse hparse, carryOut_of_parse hparse']
      exact h.jump ht
    | call =>
      rw [carryOut_of_parse hparse, carryOut_of_parse hparse']
      exact h.call ht
    | conditional condition =>
      obtain ⟨body, action, hbranch, hbody, haction⟩ := hparse
      obtain ⟨body', action', hbranch', hbody', haction'⟩ := hparse'
      rw [carryOut_of_parse hbranch, carryOut_of_parse hbranch']
      refine h.branch_of_act hbody hbody' ?_
      simp only [Machine.act, Instruction.parse_trim, haction, haction']
      exact h.jump ht

end Lockstep
end Machine
end LineScript
