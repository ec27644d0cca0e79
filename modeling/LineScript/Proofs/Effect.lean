import LineScript.Machine.Run

/-!
What a line can do to a machine. `effect_carryOut` goes through the instructions once; what holds
of every line is then a matter of the few kinds of effect that there are.
-/
namespace LineScript

namespace Machine

/-- The outcomes that carrying out a line can have. Only a line that is itself a call or a return
touches the calls, and only one of input or of the end changes the phase. -/
inductive Effect (line : Line) (m : Machine) : Outcome → Prop where
  | failed (e : Error) : Effect line m (m.fail e)
  | passed : Effect line m m.proceed
  | printed (text : Text) : Effect line m (.ok (some (.print text)), m)
  | jumped (number : Nat) : Effect line m (proceed (m.goTo number))
  | declared {operands : Text} {r : Except Error Unit} {vars : Store}
      (hi : Instruction.parse line.instruction = .ok ⟨.declare, operands⟩)
      (hd : m.vars.declareAll (names operands) = (r, vars)) :
      Effect line m (r.map fun _ => none, { m with vars })
  | asked {operands : Text} (hi : Instruction.parse line.instruction = .ok ⟨.input, operands⟩)
      (hx : ∀ x ∈ names operands, m.vars.contains x = true) :
      Effect line m
        (.ok (some .input), { m with phase := .awaiting line.number (names operands) none })
  | assigned {operands name : Text} {v : Value} {vars : Store}
      (hi : Instruction.parse line.instruction = .ok ⟨.assign, operands⟩)
      (hs : m.vars.assign name v = .ok vars) : Effect line m (proceed { m with vars })
  | pushed {operands : Text} {v : Value}
      (hi : Instruction.parse line.instruction = .ok ⟨.push, operands⟩)
      (hv : Expr.evaluateIn m.vars operands = .ok v) (h : m.stack.size < Stack.capacity) :
      Effect line m (proceed { m with stack := m.stack.cons v })
  | pushedTooMany {operands : Text} {v : Value}
      (hi : Instruction.parse line.instruction = .ok ⟨.push, operands⟩)
      (hv : Expr.evaluateIn m.vars operands = .ok v) (h : Stack.capacity ≤ m.stack.size) :
      Effect line m (fail (.about .outOfMemory "STACK OVERFLOW".toList)
        { m with stack := m.stack.cons v })
  | popped {operands : Text} {v : Value} {stack : Stack Value} {vars : Store}
      (hi : Instruction.parse line.instruction = .ok ⟨.pop, operands⟩)
      (hv : m.stack = stack.cons v) (hs : m.vars.assign operands v = .ok vars) :
      Effect line m (proceed { m with stack, vars })
  | called {operands : Text} {number : Nat}
      (hi : Instruction.parse line.instruction = .ok ⟨.call, operands⟩)
      (hn : Line.target? operands = some number) (h : m.calls.size < Stack.capacity) :
      Effect line m (proceed
        { m with calls := m.calls.cons m.counter, counter := m.program.locate number })
  | calledTooDeep {operands : Text} {number : Nat}
      (hi : Instruction.parse line.instruction = .ok ⟨.call, operands⟩)
      (hn : Line.target? operands = some number) (h : Stack.capacity ≤ m.calls.size) :
      Effect line m (fail (.about .outOfMemory "STACK OVERFLOW".toList)
        { m with calls := m.calls.cons m.counter })
  | returned {operands : Text} {address : Nat} {calls : Stack Nat}
      (hi : Instruction.parse line.instruction = .ok ⟨.leave, operands⟩)
      (hc : m.calls = calls.cons address) :
      Effect line m (proceed { m with calls, counter := address })
  | ended {operands : Text} (hi : Instruction.parse line.instruction = .ok ⟨.finish, operands⟩) :
      Effect line m (.ok (some .ended), { m with phase := .halted })

namespace Effect

variable {line : Line} {m : Machine} {operands : Text}

theorem attempt {α : Type} {r : Except Error α} {next : α → Outcome}
    (h : ∀ a, r = .ok a → Effect line m (next a)) : Effect line m (m.attempt r next) := by
  cases r with
  | ok a => exact h a rfl
  | error e => exact .failed e

theorem input (hi : Instruction.parse line.instruction = .ok ⟨.input, operands⟩) :
    Effect line m (m.input line.number operands) := by
  unfold Machine.input
  split
  next name h => exact .failed _
  next h => exact .asked hi fun x hx => by simpa using List.find?_eq_none.1 h x hx

theorem assign (hi : Instruction.parse line.instruction = .ok ⟨.assign, operands⟩) :
    Effect line m (m.assign operands) := by
  unfold Machine.assign
  dsimp only
  split
  · exact .failed _
  · split
    · exact attempt fun v _ => attempt fun vars hs => .assigned hi hs
    · exact .failed _

theorem push (hi : Instruction.parse line.instruction = .ok ⟨.push, operands⟩) :
    Effect line m (m.push operands) := by
  refine attempt fun v hv => ?_
  rcases m.stack.push_cases v with ⟨h, hp⟩ | ⟨h, hp⟩
  · rw [hp]
    exact .pushed hi hv h
  · rw [hp]
    exact .pushedTooMany hi hv h

theorem pop (hi : Instruction.parse line.instruction = .ok ⟨.pop, operands⟩) :
    Effect line m (m.pop operands) := by
  unfold Machine.pop
  split
  · exact .failed _
  next hx =>
    have hx : m.vars.contains operands = true := by simpa using hx
    rcases m.stack.pop_cases (.of .stackEmpty) with ⟨_, hp⟩ | ⟨v, stack, hs, hp⟩
    · rw [hp]
      exact .failed _
    · obtain ⟨vars, hv⟩ := Store.assign_of_contains hx v
      rw [hp]
      simp only [Machine.attempt, Machine.store, hv]
      exact .popped hi hs hv

theorem jump (operands : Text) : Effect line m (m.jump operands) :=
  attempt fun number _ => .jumped number

theorem call (hi : Instruction.parse line.instruction = .ok ⟨.call, operands⟩) :
    Effect line m (m.call operands) := by
  refine attempt fun number hn => ?_
  have hn : Line.target? operands = some number := by
    unfold target at hn
    split at hn
    next n h =>
      cases hn
      exact h
    next => cases hn
  rcases m.calls.push_cases m.counter with ⟨h, hp⟩ | ⟨h, hp⟩
  · rw [hp]
    exact .called hi hn h
  · rw [hp]
    exact .calledTooDeep hi hn h

theorem leave (hi : Instruction.parse line.instruction = .ok ⟨.leave, operands⟩) :
    Effect line m m.leave := by
  unfold Machine.leave
  rcases m.calls.pop_cases (.of .noCaller) with ⟨_, hp⟩ | ⟨address, calls, hs, hp⟩
  · rw [hp]
    exact .failed _
  · rw [hp]
    exact .returned hi hs

theorem print (operands ending : Text) : Effect line m (m.print operands ending) :=
  attempt fun text _ => .printed (text ++ ending)

theorem act (action : Text) : Effect line m (m.act action) := by
  unfold Machine.act
  split
  · exact print _ _
  · exact print _ _
  · exact jump _
  · exact .passed

theorem branch (operands : Text) : Effect line m (m.branch operands) := by
  refine attempt fun c _ => attempt fun holds _ => ?_
  split
  · exact act _
  · exact .passed

end Effect

theorem effect_carryOut (line : Line) (m : Machine) : Effect line m (m.carryOut line) := by
  refine .attempt fun i hi => ?_
  obtain ⟨keyword, operands⟩ := i
  cases keyword with
  | declare => exact .declared hi rfl
  | input => exact .input hi
  | assign => exact .assign hi
  | push => exact .push hi
  | pop => exact .pop hi
  | branch => exact .branch operands
  | jump => exact .jump operands
  | call => exact .call hi
  | leave => exact .leave hi
  | print => exact .print operands []
  | printLine => exact .print operands ['\n']
  | finish => exact .ended hi

namespace Effect

variable {line : Line} {m : Machine} {o : Outcome}

theorem queued_eq (h : Effect line m o) : o.2.queued = m.queued := by
  cases h <;> rfl

theorem tracing_eq (h : Effect line m o) : o.2.tracing = m.tracing := by
  cases h <;> rfl

theorem current_eq (h : Effect line m o) : o.2.current = m.current := by
  cases h <;> rfl

/-- A line that has nothing to report leaves the phase as it is. -/
theorem phase_eq (h : Effect line m o) (hq : o.1 = .ok none) : o.2.phase = m.phase := by
  cases h with
  | asked => cases hq
  | ended => cases hq
  | _ => rfl

theorem halted_iff (h : Effect line m o) (hp : m.phase ≠ .halted) :
    o.2.phase = .halted ↔ o.1 = .ok (some .ended) := by
  cases h with
  | @declared operands r => cases r <;> simp [Except.map, hp]
  | _ => simp [fail, proceed, goTo, hp]

/-- A line reports a text, a request for input, or the end; an error is made an event only when it
is settled. -/
theorem event_cases (h : Effect line m o) {event : Event} (ho : o.1 = .ok (some event)) :
    (∃ text, event = .print text) ∨ event = .input ∨ event = .ended := by
  cases h with
  | printed text =>
    cases ho
    exact .inl ⟨text, rfl⟩
  | asked =>
    cases ho
    exact .inr (.inl rfl)
  | ended =>
    cases ho
    exact .inr (.inr rfl)
  | @declared operands r => cases r <;> cases ho
  | _ => cases ho

theorem ne_failed (h : Effect line m o) (e : Error) : o.1 ≠ .ok (some (.failed e)) := by
  intro ho
  simpa using h.event_cases ho

end Effect
end Machine
end LineScript
