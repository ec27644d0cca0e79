import LineScript.Proofs.Blame
import LineScript.Proofs.Fields

/-!
A request for input is answered as a whole. The variables were declared when the line was run, and
no line has run since; so either all of them are assigned, the last field for each of them staying,
or the answer is refused and none is.
-/
namespace LineScript

namespace Machine

variable {program : Program} {m : Machine} {number : Nat} {names : List Text}
  {answer : Option Text}

theorem program_runLine (line : Line) (m : Machine) : (m.runLine line).2.program = m.program := by
  obtain ⟨⟨r, after⟩, he, ho⟩ := effect_of_runLine line m
  have hprogram : after.program = m.program := by cases he <;> rfl
  rw [ho]
  cases r <;> exact hprogram

/-- After each line the counter is where that line has put it. -/
theorem kept_counter (program : Program) : Kept fun past m => m.program = program ∧
    ∀ x, past.getLast? = some x → m.counter = x.after.counter := by
  constructor
  · intro past m m' h hq
    refine ⟨hq.program_eq.trans h.1, ?_⟩
    intro x hx
    rw [hq.counter_eq]
    exact h.2 x hx
  · intro past x h _
    refine ⟨(program_runLine x.line x.machine).trans h.1, ?_⟩
    intro y hy
    rw [List.getLast?_concat] at hy
    cases hy
    rfl

/-- A machine that waits is right behind the line of input that it waits for. -/
theorem exists_line_of_awaiting (hm : Reachable program m)
    (hp : m.phase = .awaiting number names answer) :
    ∃ address line operands, m.counter = address + 1 ∧ program.line? address = some line ∧
      line.number = number ∧ Instruction.parse line.instruction = .ok ⟨.input, operands⟩ ∧
      names = Machine.names operands := by
  obtain ⟨calls, rfl⟩ := hm
  obtain ⟨x, hx, hnumber, hwanted, -⟩ := (accounted program calls).asks _ _ _ hp
  obtain ⟨past, hpast⟩ := List.getLast?_eq_some_iff.1 hx
  have hstart : (start program).program = program ∧
      ∀ x, ([] : List Execution).getLast? = some x → (start program).counter = x.after.counter :=
    ⟨rfl, nofun⟩
  obtain ⟨⟨hprogram, -⟩, hready⟩ := (kept_counter program).split hstart hpast
  have hcounter := ((kept_counter program).history hstart calls).2 x hx
  have hline := hready.line_eq
  rw [hprogram] at hline
  rw [Execution.after, Execution.runLine_of_wanted hwanted] at hcounter
  obtain ⟨operands, hi, hnames, -⟩ := Execution.exists_of_wanted hwanted
  exact ⟨x.address, x.line, operands, hcounter, hline, hnumber, hi, hnames⟩

theorem supply_of_awaiting (hp : m.phase = .awaiting number names answer) (line : Text) :
    m.supply line =
      (true, { m with phase := .awaiting number names (some (chomp line)) }) := by
  rw [supply, hp]

theorem run_of_refused (hnames : names ≠ []) {line : Text} {e : Error} (hq : m.queued = none)
    (he : Answer.Refused names (Text.words line) e) (budget : Nat) :
    run budget { m with phase := .awaiting number names (some line) } =
      (.failed (e.inLine number), { m with phase := .halted }) := by
  let answered : Machine := { m with phase := .awaiting number names (some line) }
  have hassign := Answer.assign_of_refused hnames he m.vars
  exact (run_of_resume_some (resume_of_rejected (m := answered) hq rfl hassign) budget).1

end Machine
end LineScript
