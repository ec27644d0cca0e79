import LineScript.Proofs.Blame
import LineScript.Proofs.Fields

/-!
What a line that fails leaves behind. Its data are those that it found, save in three cases: a
declaration has come as far as the name at fault, and a push or a call that exceeds the limit of
its stack has put its entry there. A request fails later, with its answer, and between the two
there may be any number of calls; but a machine that waits has the data that the line which asked
has found, and an answer is refused before anything is assigned.
-/
namespace LineScript

namespace Store

/-- A declaration that fails has come as far as the name at fault, and declared the names
before. -/
theorem declareAll_error {s t : Store} {names : List Text} {e : Error}
    (h : s.declareAll names = (.error e, t)) :
    ∃ done name rest, names = done ++ name :: rest ∧ t.declare name = .error e ∧
      ∀ x, t.lookup? x = if x ∈ done then some .fresh else s.lookup? x := by
  induction names generalizing s with
  | nil => cases h
  | cons name names ih =>
    rw [declareAll] at h
    split at h
    next e' hd =>
      cases h
      exact ⟨[], name, names, rfl, hd, by simp⟩
    next u hd =>
      obtain ⟨done, bad, rest, rfl, hbad, hlookup⟩ := ih h
      refine ⟨name :: done, bad, rest, rfl, hbad, fun x => ?_⟩
      rw [hlookup, lookup?_of_declare hd]
      by_cases hx : x ∈ done <;> by_cases hn : name = x <;> simp [hx, hn, eq_comm]

end Store

namespace Machine

/-- The data after a line that failed with the given error. -/
inductive LeftBehind (line : Line) (m : Machine) (e : Error) : Data → Prop where
  | same (hd : ∀ operands, Instruction.parse line.instruction ≠ .ok ⟨.declare, operands⟩)
      (hp : ∀ operands v, Instruction.parse line.instruction = .ok ⟨.push, operands⟩ →
        Expr.evaluateIn m.vars operands ≠ .ok v)
      (hc : ∀ operands number, Instruction.parse line.instruction = .ok ⟨.call, operands⟩ →
        Line.target? operands ≠ some number) : LeftBehind line m e m.data
  | declared {operands : Text} {done rest : List Text} {name : Text} {vars : Store}
      (hi : Instruction.parse line.instruction = .ok ⟨.declare, operands⟩)
      (hn : names operands = done ++ name :: rest) (he : vars.declare name = .error e)
      (hv : ∀ x, vars.lookup? x = if x ∈ done then some .fresh else m.vars.lookup? x) :
      LeftBehind line m e { m.data with vars }
  | pushed {operands : Text} {v : Value}
      (hi : Instruction.parse line.instruction = .ok ⟨.push, operands⟩)
      (hv : Expr.evaluateIn m.vars operands = .ok v) (he : e.kind = .outOfMemory) :
      LeftBehind line m e { m.data with stack := m.stack.cons v }
  | called {operands : Text} {number : Nat}
      (hi : Instruction.parse line.instruction = .ok ⟨.call, operands⟩)
      (hn : Line.target? operands = some number) (he : e.kind = .outOfMemory) :
      LeftBehind line m e { m.data with calls := m.calls.cons (m.counter + 1) }

variable {m after : Machine} {line : Line} {operands : Text} {e : Error}

theorem leftBehind_declare (hi : Instruction.parse line.instruction = .ok ⟨.declare, operands⟩)
    (hf : (m.entered line).declare operands = (.error e, after)) :
    LeftBehind line m e after.data := by
  unfold declare at hf
  generalize hd : (m.entered line).vars.declareAll (names operands) = declared at hf
  obtain ⟨r, vars⟩ := declared
  cases r with
  | ok _ => cases hf
  | error e' =>
    cases hf
    obtain ⟨done, name, rest, hn, he, hv⟩ := Store.declareAll_error hd
    exact .declared hi hn he hv

theorem leftBehind_push {v : Value}
    (hi : Instruction.parse line.instruction = .ok ⟨.push, operands⟩)
    (hv : Expr.evaluateIn m.vars operands = .ok v)
    (hf : (m.entered line).push operands = (.error e, after)) :
    LeftBehind line m e after.data := by
  have hv' : Expr.evaluateIn (m.entered line).vars operands = .ok v := hv
  simp only [push, hv', attempt] at hf
  rcases (m.entered line).stack.push_cases v with ⟨_, hp⟩ | ⟨_, hp⟩
  · rw [hp] at hf
    cases hf
  · rw [hp] at hf
    cases hf
    exact .pushed hi hv rfl

theorem leftBehind_call {number : Nat}
    (hi : Instruction.parse line.instruction = .ok ⟨.call, operands⟩)
    (hn : Line.target? operands = some number)
    (hf : (m.entered line).call operands = (.error e, after)) :
    LeftBehind line m e after.data := by
  simp only [call, target, hn, attempt] at hf
  rcases (m.entered line).calls.push_cases (m.entered line).counter with ⟨_, hp⟩ | ⟨_, hp⟩
  · rw [hp] at hf
    cases hf
  · rw [hp] at hf
    cases hf
    exact .called hi hn rfl

/-- The line is one of the three that can leave something behind, or else it has changed nothing
before it failed. -/
theorem leftBehind_of_carryOut (hf : (m.entered line).carryOut line = (.error e, after)) :
    LeftBehind line m e after.data := by
  by_cases hd : ∃ operands, Instruction.parse line.instruction = .ok ⟨.declare, operands⟩
  · obtain ⟨operands, hi⟩ := hd
    rw [carryOut_of_parse hi] at hf
    exact leftBehind_declare hi hf
  by_cases hp : ∃ operands v, Instruction.parse line.instruction = .ok ⟨.push, operands⟩ ∧
      Expr.evaluateIn m.vars operands = .ok v
  · obtain ⟨operands, v, hi, hv⟩ := hp
    rw [carryOut_of_parse hi] at hf
    exact leftBehind_push hi hv hf
  by_cases hc : ∃ operands number, Instruction.parse line.instruction = .ok ⟨.call, operands⟩ ∧
      Line.target? operands = some number
  · obtain ⟨operands, number, hi, hn⟩ := hc
    rw [carryOut_of_parse hi] at hf
    exact leftBehind_call hi hn hf
  have hsame : LeftBehind line m e m.data :=
    .same (fun operands hi => hd ⟨operands, hi⟩) (fun operands v hi hv => hp ⟨operands, v, hi, hv⟩)
      (fun operands number hi hn => hc ⟨operands, number, hi, hn⟩)
  have he := effect_carryOut line (m.entered line)
  generalize (m.entered line).carryOut line = outcome at he hf
  cases he with
  | failed =>
    cases hf
    exact hsame
  | declared hi => exact absurd ⟨_, hi⟩ hd
  | pushedTooMany hi hv => exact absurd ⟨_, _, hi, hv⟩ hp
  | calledTooDeep hi hn => exact absurd ⟨_, _, hi, hn⟩ hc
  | _ => cases hf

/-- A line that fails halts the machine and leaves the data that it found, apart from the names
that a declaration has come to and from the entry that a push or a call puts on a full stack. A
line that asks for input fails once its answer is refused, and however the machine was called in
between, its data are then those that the line found. -/
theorem fault_leaves_data (program : Program) (calls : List Call) :
    let m := (start program).after calls
    (m.phase = .running → ∀ line e after, (m.entered line).carryOut line = (.error e, after) →
      LeftBehind line m e after.data ∧ m.runLine line =
        (some (.failed (e.inLine line.number)), { after with phase := .halted })) ∧
    ∀ number names text, m.phase = .awaiting number names (some text) → m.queued = none →
      ∃ x, ((start program).history calls).getLast? = some x ∧ x.Ready ∧ x.line.number = number ∧
        x.wanted? = some names ∧ m.data = x.machine.data ∧
        ∀ event after, m.resume = (some event, after) →
          (∃ e, Answer.Refused names (Text.words text) e ∧ event = .failed (e.inLine number)) ∧
          (∀ budget, m.run budget = (event, after)) ∧
          after.phase = .halted ∧ after.data = x.machine.data := by
  intro m
  refine ⟨fun _ line e after hf => ⟨leftBehind_of_carryOut hf, ?_⟩, ?_⟩
  · change settle line.number ((m.entered line).carryOut line) = _
    rw [hf]
    rfl
  · intro number names text hp hq
    obtain ⟨x, hx, hnumber, hwanted, hdata⟩ := (accounted program calls).asks _ _ _ hp
    obtain ⟨past, hpast⟩ := List.getLast?_eq_some_iff.1 hx
    have hready : x.Ready := (kept_current.split rfl hpast).2
    refine ⟨x, hx, hready, hnumber, hwanted, hdata, fun event after hresume => ?_⟩
    have hr := m.resumption_resume
    rw [hresume] at hr
    cases hr with
    | reported hq' => cases hq.symm.trans hq'
    | waiting _ hp' => cases hp.symm.trans hp'
    | rejected _ hp' ha =>
      cases hp.symm.trans hp'
      obtain ⟨hnames, hdeclared⟩ := Execution.declared_of_wanted hwanted
      have hvars : m.vars = x.machine.vars := congrArg Data.vars hdata
      rw [hvars] at ha
      have hrefused := Answer.refused_of_assign hnames hdeclared ha
      exact ⟨⟨_, hrefused, rfl⟩, fun budget => (run_of_resume_some hresume budget).1, rfl, hdata⟩

/-- A declaration that fails at its third name, and an answer of which the second value is bad,
given to a line that has waited behind its mark: the first variable keeps the value it had. -/
theorem fault_leaves_data_partly :
    let program : Program :=
      ⟨#[⟨10, "INTEGER A,B".toList⟩, ⟨20, "LET A=7".toList⟩, ⟨30, "INPUT A,B".toList⟩]⟩
    let line : Line := ⟨15, "INTEGER C,A,1X,D".toList⟩
    let m := (start program).after [.run 1]
    let asked : List Call := [.run 2, .trace true, .run 1, .run 1, .supply "8 9x\n".toList]
    (m.phase = .running ∧ ∃ e, ∃ after : Machine, LeftBehind line m e after.data ∧
      after.vars.contains "C".toList = true ∧ after.vars.contains "D".toList = false) ∧
    ∃ after : Machine,
      ((start program).after asked).run 5 =
        (.failed { kind := .badNumber, line := some 30, detail := "9x".toList }, after) ∧
      after.phase = .halted ∧
      after.vars.lookup? "A".toList = some ⟨⟨7, by decide, by decide⟩, true⟩ ∧
      after.vars.lookup? "B".toList = some .fresh := by
  intro program line m asked
  have hp : m.phase = .running := by decide +kernel
  have hf : ((m.entered line).carryOut line).1.toOption = none ∧
      ((m.entered line).carryOut line).2.vars.contains "C".toList = true ∧
      ((m.entered line).carryOut line).2.vars.contains "D".toList = false := by decide +kernel
  refine ⟨⟨hp, ?_⟩, ?_⟩
  · generalize hout : (m.entered line).carryOut line = outcome at hf
    obtain ⟨r, after⟩ := outcome
    obtain ⟨hr, hdeclared⟩ := hf
    cases r with
    | ok _ => cases hr
    | error e =>
      have hleft := (fault_leaves_data program [.run 1]).1 hp line e after hout
      exact ⟨e, after, hleft.1, hdeclared⟩
  · obtain ⟨-, hanswered⟩ := fault_leaves_data program asked
    have hw : ((start program).after asked).phase =
        .awaiting 30 ["A".toList, "B".toList] (some "8 9x".toList) := by decide +kernel
    have hq : ((start program).after asked).queued = none := by decide +kernel
    have hevent : ((start program).after asked).resume.1 =
        some (.failed { kind := .badNumber, line := some 30, detail := "9x".toList }) := by
      decide +kernel
    have hfound : ((start program).history asked).getLast?.map (fun x =>
        (x.machine.vars.lookup? "A".toList, x.machine.vars.lookup? "B".toList)) =
        some (some ⟨⟨7, by decide, by decide⟩, true⟩, some .fresh) := by decide +kernel
    generalize (start program).after asked = waiting at hanswered hw hq hevent
    obtain ⟨x, hx, -, -, -, -, hresumed⟩ := hanswered _ _ _ hw hq
    obtain ⟨-, hruns, hphase, hdata⟩ := hresumed _ waiting.resume.2 (Prod.ext hevent rfl)
    have hvars : waiting.resume.2.vars = x.machine.vars := congrArg Data.vars hdata
    rw [hx, Option.map_some, Option.some.injEq, Prod.mk.injEq, ← hvars] at hfound
    exact ⟨_, hruns 5, hphase, hfound⟩

end Machine
end LineScript
