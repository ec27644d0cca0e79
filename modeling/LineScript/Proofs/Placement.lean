import LineScript.Machine.Run
import LineScript.Proofs.Failure

/-!
Where an error is said to have arisen. No failure of the things that a line computes names a line
by itself, so the number in the error that a line reports is always the one with which it is
settled.
-/
namespace LineScript

/-- A failure, if it is one, names no line. -/
def Placeless {α : Type} (r : Except Error α) : Prop :=
  ∀ e, r = .error e → e.line = none

namespace Placeless

variable {α β : Type}

theorem ok (a : α) : Placeless (.ok a) :=
  Fails.ok a

theorem error {e : Error} (h : e.line = none) : Placeless (.error e : Except Error α) :=
  Fails.error h

theorem map {r : Except Error α} (h : Placeless r) (f : α → β) : Placeless (r.map f) :=
  Fails.map h f

theorem bind {r : Except Error α} {f : α → Except Error β} (h : Placeless r)
    (hf : ∀ a, Placeless (f a)) : Placeless (r >>= f) :=
  Fails.bind h hf

theorem foldlM {f : β → α → Except Error β} (hf : ∀ b a, Placeless (f b a)) (l : List α) (b : β) :
    Placeless (l.foldlM f b) :=
  Fails.foldlM hf l b

theorem mapM {f : α → Except Error β} (hf : ∀ a, Placeless (f a)) (l : List α) :
    Placeless (l.mapM f) :=
  Fails.mapM fun a _ => hf a

end Placeless

namespace Stack

variable {α : Type}

theorem placeless_push (a : α) (s : Stack α) : Placeless (s.push a).1 :=
  fails_push (P := fun e => e.line = none) rfl a s

theorem placeless_pop {missing : Error} (hm : missing.line = none) (s : Stack α) :
    Placeless (s.pop missing).1 :=
  fails_pop (P := fun e => e.line = none) hm s

end Stack

theorem Value.placeless_ofDigits (digits : Text) : Placeless (ofDigits digits) :=
  (fails_ofDigits digits).imp fun _ he => he ▸ rfl

namespace Token

theorem Scan.placeless_close (s : Scan) : Placeless s.close := by
  unfold close
  split
  · exact .ok s
  · exact (Value.placeless_ofDigits _).bind fun _ => .ok _

theorem Scan.placeless_next (s : Scan) (c : Char) : Placeless (s.next c) := by
  unfold next
  split
  · exact .ok _
  · refine s.placeless_close.bind fun s => ?_
    split
    · exact .ok s
    · split
      · exact .ok _
      · exact .error rfl

theorem placeless_readAll (s : Text) : Placeless (readAll s) :=
  (Placeless.foldlM Scan.placeless_next s _).bind fun scan =>
    scan.placeless_close.bind fun _ => .ok _

end Token

namespace Expr

theorem placeless_evaluate (s : Text) : Placeless (evaluate s) := by
  refine (Token.placeless_readAll s).bind fun tokens => ?_
  refine (fails_evaluateTokens tokens).imp fun e he => ?_
  cases he <;> rfl

end Expr

namespace Store

theorem placeless_valueOf (name : Text) (s : Store) : Placeless (s.valueOf name) := by
  unfold valueOf
  split
  · exact .ok _
  · exact .error rfl

theorem placeless_declare (name : Text) (s : Store) : Placeless (s.declare name) := by
  unfold declare
  split
  · exact .error rfl
  · split
    · exact .error rfl
    · exact .ok _

theorem placeless_declareAll (names : List Text) (s : Store) :
    Placeless (s.declareAll names).1 := by
  induction names generalizing s with
  | nil => exact .ok ()
  | cons name names ih =>
    rw [declareAll]
    split
    next e h => exact .error (s.placeless_declare name e h)
    next t h => exact ih t

theorem placeless_assign (name : Text) (v : Value) (s : Store) : Placeless (s.assign name v) := by
  unfold assign
  split
  · exact .ok _
  · exact .error rfl

end Store

namespace Expr

theorem Draft.placeless_close (vars : Store) (d : Draft) : Placeless (d.close vars) := by
  unfold close
  split
  · exact .ok d
  · exact (vars.placeless_valueOf _).bind fun _ => .ok _

theorem Draft.placeless_next (vars : Store) (d : Draft) (c : Char) :
    Placeless (d.next vars c) := by
  unfold next
  split
  · exact (d.placeless_close vars).bind fun _ => .ok _
  · split
    · exact .ok _
    · exact .ok _

theorem placeless_evaluateIn (vars : Store) (s : Text) : Placeless (evaluateIn vars s) := by
  have hsubstitute : Placeless (substitute vars s) :=
    (Placeless.foldlM (Draft.placeless_next vars) s Draft.start).bind fun d =>
      (d.placeless_close vars).bind fun _ => .ok _
  exact hsubstitute.bind fun t => placeless_evaluate t

end Expr

theorem Instruction.placeless_parse (s : Text) : Placeless (parse s) := by
  unfold parse
  dsimp only
  split
  · exact .ok _
  · exact .error rfl

namespace Condition

theorem placeless_parse (operands : Text) : Placeless (parse operands) := by
  unfold parse
  split
  · exact .error rfl
  · dsimp only
    split
    · exact .error rfl
    · split
      · exact .error rfl
      · exact .ok _

theorem placeless_test (vars : Store) (c : Condition) : Placeless (c.test vars) :=
  (Expr.placeless_evaluateIn vars c.left).bind fun _ =>
    (Expr.placeless_evaluateIn vars c.right).bind fun _ => .ok _

end Condition

namespace Answer

theorem placeless_values (count : Nat) (line : Text) : Placeless (values count line) := by
  unfold values
  dsimp only
  split
  · exact .error rfl
  · refine Placeless.mapM (fun field => ?_) _
    unfold value
    split
    · exact .ok _
    · exact .error rfl

theorem placeless_assign (names : List Text) (line : Text) (vars : Store) :
    Placeless (assign names line vars) :=
  (placeless_values names.length line).bind fun vs =>
    Placeless.foldlM (fun s a => s.placeless_assign a.1 a.2) (names.zip vs) vars

end Answer

namespace Machine

variable {m : Machine} {operands : Text}

theorem placeless_attempt {α : Type} {r : Except Error α} {next : α → Outcome} (hr : Placeless r)
    (hn : ∀ a, Placeless (next a).1) : Placeless (m.attempt r next).1 := by
  cases r with
  | ok a => exact hn a
  | error e => exact .error (hr e rfl)

theorem placeless_store (name : Text) (v : Value) (m : Machine) : Placeless (m.store name v).1 :=
  placeless_attempt (m.vars.placeless_assign name v) fun _ => .ok none

theorem placeless_assign (operands : Text) (m : Machine) : Placeless (m.assign operands).1 := by
  unfold assign
  dsimp only
  split
  · exact .error rfl
  · split
    next s h =>
      refine placeless_attempt ?_ fun v => m.placeless_store _ v
      unfold assigned
      split
      · exact Value.placeless_ofDigits s
      · exact Expr.placeless_evaluateIn m.vars s
    next => exact .error rfl

theorem placeless_pop (operands : Text) (m : Machine) : Placeless (m.pop operands).1 := by
  unfold pop
  split
  · exact .error rfl
  · exact placeless_attempt (Stack.placeless_pop rfl m.stack) fun v => placeless_store operands v _

theorem placeless_target (operands : Text) : Placeless (target operands) := by
  unfold target
  split
  · exact .ok _
  · exact .error rfl

theorem placeless_jump (operands : Text) (m : Machine) : Placeless (m.jump operands).1 :=
  placeless_attempt (placeless_target operands) fun _ => .ok none

theorem placeless_print (operands ending : Text) (m : Machine) :
    Placeless (m.print operands ending).1 := by
  refine placeless_attempt ?_ fun _ => .ok _
  unfold printed
  split
  · exact .ok []
  · split
    · exact .ok _
    · split
      · exact .ok _
      · exact (Expr.placeless_evaluateIn m.vars operands).map Value.text

theorem placeless_branch (operands : Text) (m : Machine) : Placeless (m.branch operands).1 := by
  refine placeless_attempt (Condition.placeless_parse operands) fun c => ?_
  refine placeless_attempt (Condition.placeless_test m.vars c) fun holds => ?_
  split
  · unfold act
    split
    · exact m.placeless_print _ _
    · exact m.placeless_print _ _
    · exact m.placeless_jump _
    · exact .ok none
  · exact .ok none

/-- No line names a line in its error, not even itself: that is left to `settle`. -/
theorem placeless_carryOut (line : Line) (m : Machine) : Placeless (m.carryOut line).1 := by
  refine placeless_attempt (Instruction.placeless_parse line.instruction) fun i => ?_
  obtain ⟨keyword, operands⟩ := i
  cases keyword with
  | declare => exact (m.vars.placeless_declareAll (names operands)).map fun _ => none
  | input =>
    change Placeless (m.input line.number operands).1
    unfold input
    split
    · exact .error rfl
    · exact .ok _
  | assign => exact m.placeless_assign operands
  | push =>
    exact placeless_attempt (Expr.placeless_evaluateIn m.vars operands) fun v =>
      (Stack.placeless_push v m.stack).map fun _ => none
  | pop => exact m.placeless_pop operands
  | branch => exact m.placeless_branch operands
  | jump => exact m.placeless_jump operands
  | call =>
    exact placeless_attempt (placeless_target operands) fun _ =>
      placeless_attempt (Stack.placeless_push m.counter m.calls) fun _ => .ok none
  | leave => exact placeless_attempt (Stack.placeless_pop rfl m.calls) fun _ => .ok none
  | print => exact m.placeless_print operands []
  | printLine => exact m.placeless_print operands ['\n']
  | finish => exact .ok _

end Machine
end LineScript
