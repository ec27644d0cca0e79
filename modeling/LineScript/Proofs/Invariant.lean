import LineScript.Machine.Call
import LineScript.Proofs.Turns

/-!
What holds of a machine at every time that it can be called from outside. Each line keeps it, given
that the machine is neither halted nor waiting when the line runs, and so do the four calls; a
stack can be one entry over its limit, but only when the line that put it there has halted the
machine.
-/
namespace LineScript

namespace Store

/-- Every variable has a name that can be declared. -/
def Valid (s : Store) : Prop :=
  ∀ x, s.contains x = true → Name.isValid x = true

theorem valid_empty : empty.Valid := by
  intro x hx
  simp [contains, empty] at hx

theorem Valid.assign {s t : Store} (hs : s.Valid) {name : Text} {v : Value}
    (h : s.assign name v = .ok t) : t.Valid := by
  intro x hx
  exact hs x (contains_of_assign h x ▸ hx)

theorem Valid.declare {s t : Store} (hs : s.Valid) {name : Text} (h : s.declare name = .ok t) :
    t.Valid := by
  intro x hx
  rw [contains_of_declare h] at hx
  rcases Bool.or_eq_true_iff.1 hx with hname | hx
  · exact of_decide_eq_true hname ▸ isValid_of_declare h
  · exact hs x hx

theorem Valid.declareAll {s : Store} (hs : s.Valid) (names : List Text) :
    (s.declareAll names).2.Valid := by
  induction names generalizing s with
  | nil => exact hs
  | cons name names ih =>
    rw [Store.declareAll]
    split
    next e h => exact hs
    next t h => exact ih (hs.declare h)

theorem assignAll_cons (name : Text) (v : Value) (rest : List (Text × Value)) (s : Store) :
    s.assignAll ((name, v) :: rest) = s.assign name v >>= fun t => t.assignAll rest :=
  rfl

theorem Valid.assignAll {s t : Store} (hs : s.Valid) {assignments : List (Text × Value)}
    (h : s.assignAll assignments = .ok t) : t.Valid := by
  induction assignments generalizing s with
  | nil =>
    cases h
    exact hs
  | cons a rest ih =>
    obtain ⟨name, v⟩ := a
    rw [assignAll_cons] at h
    cases ha : s.assign name v with
    | error e =>
      rw [ha] at h
      cases h
    | ok u =>
      rw [ha] at h
      exact ih (hs.assign ha) h

/-- Assigning to declared names cannot fail, whatever the values. -/
theorem assignAll_of_contains {s : Store} {assignments : List (Text × Value)}
    (h : ∀ a ∈ assignments, s.contains a.1 = true) : ∃ t, s.assignAll assignments = .ok t := by
  induction assignments generalizing s with
  | nil => exact ⟨s, rfl⟩
  | cons a rest ih =>
    obtain ⟨name, v⟩ := a
    obtain ⟨u, hu⟩ := assign_of_contains (h (name, v) List.mem_cons_self) v
    have hrest : ∀ b ∈ rest, u.contains b.1 = true := by
      intro b hb
      rw [contains_of_assign hu]
      exact h b (List.mem_cons_of_mem _ hb)
    obtain ⟨t, ht⟩ := ih hrest
    refine ⟨t, ?_⟩
    rw [assignAll_cons, hu]
    exact ht

end Store

/-- An address after a line that is a call. -/
def Program.IsReturn (p : Program) (address : Nat) : Prop :=
  1 ≤ address ∧ address ≤ p.size ∧ ∃ line operands,
    p.line? (address - 1) = some line ∧
      Instruction.parse line.instruction = .ok ⟨.call, operands⟩

namespace Machine

/-- What is true of a machine between calls: where it is in the program, where it returns to, what
it waits for, and how much it holds. -/
structure Sound (program : Program) (m : Machine) : Prop where
  program_eq : m.program = program
  counter_le : m.counter ≤ m.program.size
  returns : ∀ address ∈ m.calls.entries, m.program.IsReturn address
  awaiting : ∀ number names answer, m.phase = .awaiting number names answer →
    names ≠ [] ∧ (∀ x ∈ names, m.vars.contains x = true) ∧ m.current = some number
  vars_valid : m.vars.Valid
  stack_le : m.stack.size ≤ 65536
  calls_le : m.calls.size ≤ 65536
  stack_le_of_active : m.phase ≠ .halted → m.stack.size ≤ 65535
  calls_le_of_active : m.phase ≠ .halted → m.calls.size ≤ 65535

namespace Sound

variable {program : Program} {m : Machine}

theorem start (program : Program) : Sound program (Machine.start program) where
  program_eq := rfl
  counter_le := Nat.zero_le _
  returns := fun _ ha => absurd ha List.not_mem_nil
  awaiting := fun _ _ _ hp => nomatch hp
  vars_valid := Store.valid_empty
  stack_le := Nat.zero_le _
  calls_le := Nat.zero_le _
  stack_le_of_active := fun _ => Nat.zero_le _
  calls_le_of_active := fun _ => Nat.zero_le _

theorem halt (h : Sound program m) (queued : Option Event) :
    Sound program { m with phase := .halted, queued } :=
  { h with
    awaiting := fun _ _ _ hp => nomatch hp
    stack_le_of_active := fun hp => absurd rfl hp
    calls_le_of_active := fun hp => absurd rfl hp }

/-- A line runs with the counter at the next one. -/
theorem enter (h : Sound program m) (hp : m.phase = .running) {line : Line}
    (hl : m.program.line? m.counter = some line) :
    Sound program { m with counter := m.counter + 1, current := some line.number } :=
  { h with
    counter_le := (Array.getElem?_eq_some_iff.1 hl).1
    awaiting := fun _ _ _ hp' => absurd (hp'.symm.trans hp) (by simp) }

/-- A change of variables while no input is asked for. -/
theorem withVars (h : Sound program m) (hp : m.phase = .running) {vars : Store} (hv : vars.Valid) :
    Sound program { m with vars } :=
  { h with
    awaiting := fun _ _ _ hp' => absurd (hp'.symm.trans hp) (by simp)
    vars_valid := hv }

/-- A line keeps the machine sound, also where it fails and so halts it. -/
theorem effect (h : Sound program m) (hp : m.phase = .running) {line : Line}
    (hcurrent : m.current = some line.number)
    (hreturn : ∀ operands, Instruction.parse line.instruction = .ok ⟨.call, operands⟩ →
      m.program.IsReturn m.counter) {o : Outcome} (he : Effect line m o) :
    Sound program (settle line.number o).2 := by
  have hactive : m.phase ≠ .halted := by simp [hp]
  have hstack := h.stack_le_of_active hactive
  have hcalls := h.calls_le_of_active hactive
  cases he with
  | failed e => exact h.halt m.queued
  | passed => exact h
  | printed text => exact h
  | jumped number => exact { h with counter_le := m.program.locate_le_size number }
  | @declared operands r vars hi hd =>
    have hvars : vars.Valid := by simpa [hd] using h.vars_valid.declareAll (names operands)
    cases r with
    | ok _ => exact h.withVars hp hvars
    | error e => exact (h.withVars hp hvars).halt m.queued
  | @asked operands hi hx =>
    refine { h with
      awaiting := fun number names answer hp' => ?_
      stack_le_of_active := fun _ => hstack
      calls_le_of_active := fun _ => hcalls }
    cases hp'
    exact ⟨List.splitOn_ne_nil _ _, hx, hcurrent⟩
  | assigned hi hs => exact h.withVars hp (h.vars_valid.assign hs)
  | pushed hi hv hlt =>
    exact { h with
      stack_le := Nat.le_succ_of_le hlt
      stack_le_of_active := fun _ => hlt }
  | @pushedTooMany operands v hi hv hle =>
    -- the entry is on the stack although the line has failed
    exact { h.halt m.queued with
      stack_le := Nat.succ_le_succ hstack
      stack_le_of_active := fun hp' => absurd rfl hp' }
  | @popped operands v stack vars hi hv hs =>
    have hsize : stack.size ≤ m.stack.size := by rw [hv]; exact Nat.le_succ _
    exact { h.withVars hp (h.vars_valid.assign hs) with
      stack_le := Nat.le_trans hsize h.stack_le
      stack_le_of_active := fun _ => Nat.le_trans hsize hstack }
  | called hi hn hlt =>
    exact { h with
      counter_le := m.program.locate_le_size _
      returns := List.forall_mem_cons.2 ⟨hreturn _ hi, h.returns⟩
      calls_le := Nat.le_succ_of_le hlt
      calls_le_of_active := fun _ => hlt }
  | calledTooDeep hi hn hle =>
    exact { h.halt m.queued with
      returns := List.forall_mem_cons.2 ⟨hreturn _ hi, h.returns⟩
      calls_le := Nat.succ_le_succ hcalls
      calls_le_of_active := fun hp' => absurd rfl hp' }
  | @returned operands address calls hi hc =>
    have hmem : ∀ a ∈ address :: calls.entries, m.program.IsReturn a := by
      intro a ha
      exact h.returns a (by rw [hc]; exact ha)
    have hsize : calls.size ≤ m.calls.size := by rw [hc]; exact Nat.le_succ _
    exact { h with
      counter_le := (hmem address List.mem_cons_self).2.1
      returns := fun a ha => hmem a (List.mem_cons_of_mem _ ha)
      calls_le := Nat.le_trans hsize h.calls_le
      calls_le_of_active := fun _ => Nat.le_trans hsize hcalls }
  | ended hi => exact h.halt m.queued

theorem runLine (h : Sound program m) (hp : m.phase = .running) {line : Line}
    (hl : m.program.line? m.counter = some line) : Sound program (m.runLine line).2 := by
  obtain ⟨o, he, ho⟩ := effect_of_runLine line m
  have hm := h.enter hp hl
  rw [ho]
  exact hm.effect hp rfl (fun operands hi => ⟨Nat.le_add_left 1 _, hm.counter_le, line, operands,
    hl, hi⟩) he

/-- A machine that takes turns is idle, so a line runs only while no input is asked for. -/
theorem turn (h : Sound program m) (hm : m.Idle) : Sound program m.turn.2 := by
  have hrunning (hp : m.phase ≠ .halted) : m.phase = .running := by
    cases hphase : m.phase with
    | running => rfl
    | awaiting number names answer => exact absurd hphase (hm.2 number names answer)
    | halted => exact absurd hphase hp
  have ht := m.turn_turn
  generalize m.turn = turned at ht
  cases ht with
  | halted hp => exact h
  | ranOut hp hl => exact h.halt m.queued
  | @traced line event m' hp hl hr ht =>
    have hline := h.runLine (hrunning hp) hl
    rw [hr] at hline
    exact { hline with }
  | @ran line event m' hp hl hr ht =>
    have hline := h.runLine (hrunning hp) hl
    rw [hr] at hline
    exact hline

theorem turns (h : Sound program m) (hm : m.Idle) (budget : Nat) :
    Sound program (m.turns budget).2 := by
  induction budget generalizing m with
  | zero => exact h
  | succ budget ih =>
    have hturn := h.turn hm
    rw [Machine.turns]
    split
    next event m' ht =>
      rw [ht] at hturn
      exact hturn
    next m' ht =>
      rw [ht] at hturn
      exact ih hturn (idle_of_turn hm ht)

theorem resume (h : Sound program m) : Sound program m.resume.2 := by
  have hr := m.resumption_resume
  generalize m.resume = resumed at hr
  cases hr with
  | reported hq => exact { h with }
  | waiting hq hp => exact h
  | @answered number names line vars hq hp ha =>
    have hactive : m.phase ≠ .halted := by simp [hp]
    have hvars : vars.Valid := by
      unfold Answer.assign at ha
      cases hv : Answer.values names.length line with
      | error e =>
        rw [hv] at ha
        cases ha
      | ok vs =>
        rw [hv] at ha
        exact h.vars_valid.assignAll ha
    exact { h with
      awaiting := fun _ _ _ hp' => nomatch hp'
      vars_valid := hvars
      stack_le_of_active := fun _ => h.stack_le_of_active hactive
      calls_le_of_active := fun _ => h.calls_le_of_active hactive }
  | rejected hq hp ha => exact h.halt m.queued
  | idle hm => exact h

theorem run (h : Sound program m) (budget : Nat) : Sound program (m.run budget).2 := by
  have hresume := h.resume
  unfold Machine.run
  split
  next event m' hr =>
    rw [hr] at hresume
    exact hresume
  next m' hr =>
    rw [hr] at hresume
    exact hresume.turns (idle_of_resume hr) budget

theorem supply (h : Sound program m) (line : Text) : Sound program (m.supply line).2 := by
  unfold Machine.supply
  split
  next number names answer hp =>
    have hactive : m.phase ≠ .halted := by simp [hp]
    refine { h with
      awaiting := fun _ _ _ hp' => ?_
      stack_le_of_active := fun _ => h.stack_le_of_active hactive
      calls_le_of_active := fun _ => h.calls_le_of_active hactive }
    cases hp'
    exact h.awaiting number names answer hp
  next => exact h

theorem interrupt (h : Sound program m) : Sound program m.interrupt := by
  unfold Machine.interrupt
  split
  · exact h
  · exact h.halt _

theorem perform (h : Sound program m) (c : Call) : Sound program (m.perform c).2 := by
  cases c with
  | run budget => exact h.run budget
  | supply line => exact h.supply line
  | interrupt => exact h.interrupt
  | trace on => exact { h with }

end Sound

/-- What every call keeps holds of every machine that calls can make of a program. -/
theorem Reachable.induction {program : Program} {P : Machine → Prop} (h₀ : P (start program))
    (hstep : ∀ m c, P m → P (m.perform c).2) {m : Machine} (h : Reachable program m) : P m := by
  obtain ⟨calls, rfl⟩ := h
  generalize start program = m at h₀
  induction calls generalizing m with
  | nil => exact h₀
  | cons c calls ih => exact ih _ (hstep m c h₀)

theorem Reachable.sound {program : Program} {m : Machine} (h : Reachable program m) :
    Sound program m :=
  h.induction (Sound.start program) fun _ c hm => hm.perform c

/-- The event of a line that puts an entry too many on a stack. -/
def overflowed (number : Nat) : Event :=
  .failed { kind := .outOfMemory, line := some number, detail := "STACK OVERFLOW".toList }

theorem runLine_of_parse {line : Line} {i : Instruction} (m : Machine)
    (hi : Instruction.parse line.instruction = .ok i) :
    m.runLine line = settle line.number
      (obey line.number i { m with counter := m.counter + 1, current := some line.number }) := by
  rw [Machine.runLine, carryOut, hi]
  rfl

theorem runLine_push {m : Machine} {line : Line} {operands : Text} {v : Value}
    (hi : Instruction.parse line.instruction = .ok ⟨.push, operands⟩)
    (hv : Expr.evaluateIn m.vars operands = .ok v) :
    (m.runLine line).1 = if m.stack.size < Stack.capacity then none
      else some (overflowed line.number) := by
  rw [runLine_of_parse m hi]
  simp only [obey, push, hv, attempt]
  rcases m.stack.push_cases v with ⟨h, hp⟩ | ⟨h, hp⟩
  · rw [hp, if_pos h]
    rfl
  · rw [hp, if_neg (Nat.not_lt.2 h)]
    rfl

theorem runLine_call {m : Machine} {line : Line} {operands : Text} {number : Nat}
    (hi : Instruction.parse line.instruction = .ok ⟨.call, operands⟩)
    (hn : Line.target? operands = some number) :
    (m.runLine line).1 = if m.calls.size < Stack.capacity then none
      else some (overflowed line.number) := by
  rw [runLine_of_parse m hi]
  simp only [obey, call, target, hn, attempt]
  rcases m.calls.push_cases (m.counter + 1) with ⟨h, hp⟩ | ⟨h, hp⟩
  · rw [hp, if_pos h]
    rfl
  · rw [hp, if_neg (Nat.not_lt.2 h)]
    rfl

theorem runLine_pop {m : Machine} {line : Line} {operands : Text} {v : Value}
    {stack : Stack Value} (hi : Instruction.parse line.instruction = .ok ⟨.pop, operands⟩)
    (hx : m.vars.contains operands = true) (hs : m.stack = stack.cons v) :
    (m.runLine line).1 = none := by
  obtain ⟨vars, hv⟩ := Store.assign_of_contains hx v
  rw [runLine_of_parse m hi]
  simp only [obey, pop, hx, hs, Stack.pop_cons, attempt, store, hv]
  rfl

/-- Every machine that calls make of a program is sound. While it runs, a push of a value and a
call to a number fail exactly at the limit of their stacks, a pop into a variable fails only for
want of an entry, and while it waits, any values can be assigned to the variables it waits for. -/
theorem reachable_sound (l : Listing) (m : Machine) (h : Reachable (Program.ofListing l) m) :
    Sound (Program.ofListing l) m ∧
    (m.phase = .running → ∀ line operands,
      (∀ v, Instruction.parse line.instruction = .ok ⟨.push, operands⟩ →
        Expr.evaluateIn m.vars operands = .ok v →
        (m.runLine line).1 =
          if m.stack.size = 65535 then some (overflowed line.number) else none) ∧
      (∀ number, Instruction.parse line.instruction = .ok ⟨.call, operands⟩ →
        Line.target? operands = some number →
        (m.runLine line).1 =
          if m.calls.size = 65535 then some (overflowed line.number) else none) ∧
      (∀ (v : Value) (stack : Stack Value),
        Instruction.parse line.instruction = .ok ⟨.pop, operands⟩ →
        m.vars.contains operands = true → m.stack = stack.cons v → (m.runLine line).1 = none)) ∧
    (∀ number names answer, m.phase = .awaiting number names answer →
      ∀ vs, ∃ vars, m.vars.assignAll (names.zip vs) = .ok vars) := by
  have hm := h.sound
  have hlimit {n : Nat} (hn : n ≤ 65535) {a b : Option Event} :
      (if n < Stack.capacity then a else b) = if n = 65535 then b else a := by
    rcases Nat.lt_or_eq_of_le hn with hlt | rfl
    · rw [if_pos (show n < Stack.capacity from hlt), if_neg (Nat.ne_of_lt hlt)]
    · rfl
  refine ⟨hm, fun hp line operands => ⟨?_, ?_, ?_⟩, ?_⟩
  · intro v hi hv
    rw [runLine_push hi hv, hlimit (hm.stack_le_of_active (by simp [hp]))]
  · intro number hi hn
    rw [runLine_call hi hn, hlimit (hm.calls_le_of_active (by simp [hp]))]
  · intro v stack hi hx hs
    exact runLine_pop hi hx hs
  · intro number names answer hp vs
    refine Store.assignAll_of_contains fun a ha => ?_
    exact (hm.awaiting _ _ _ hp).2.1 a.1 (List.of_mem_zip ha).1

/-- A subroutine that calls itself, when it has done so twice and once more. -/
theorem reachable_sound_recursive :
    let line : Line := ⟨10, "GOSUB 10".toList⟩
    let l := Listing.empty.insert line
    let m := (start (Program.ofListing l)).after [.run 2]
    m.calls.entries = [1, 1] ∧ Reachable (Program.ofListing l) m ∧
      Sound (Program.ofListing l) m ∧ (m.runLine line).1 = none := by
  intro line l m
  have hm : Reachable (Program.ofListing l) m := ⟨_, rfl⟩
  have hp : m.phase = .running := by decide +kernel
  obtain ⟨hsound, hrunning, _⟩ := reachable_sound l m hm
  have hcall := (hrunning hp line "10".toList).2.1 10 rfl (by decide +kernel)
  rw [if_neg (by decide +kernel)] at hcall
  exact ⟨by decide +kernel, hm, hsound, hcall⟩

end Machine
end LineScript
