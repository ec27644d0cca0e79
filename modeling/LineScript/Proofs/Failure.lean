import LineScript.Expr.Evaluate

/-!
What a computation can fail with. What holds of the errors of each step holds of those of the
whole, so the few errors that tokens can come to are found by going through the evaluator once.
-/
namespace LineScript

/-- A failure, if it is one, is an error that satisfies `P`. -/
def Fails {α : Type} (P : Error → Prop) (r : Except Error α) : Prop :=
  ∀ e, r = .error e → P e

namespace Fails

variable {α β : Type} {P Q : Error → Prop}

theorem ok (a : α) : Fails P (.ok a) := by
  intro e h
  cases h

theorem error {e : Error} (h : P e) : Fails P (.error e : Except Error α) := by
  intro e' h'
  cases h'
  exact h

theorem imp {r : Except Error α} (h : Fails P r) (hPQ : ∀ e, P e → Q e) : Fails Q r :=
  fun e he => hPQ e (h e he)

theorem map {r : Except Error α} (h : Fails P r) (f : α → β) : Fails P (r.map f) := by
  intro e he
  cases r with
  | ok a => cases he
  | error e' =>
    cases he
    exact h e rfl

theorem bind {r : Except Error α} {f : α → Except Error β} (h : Fails P r)
    (hf : ∀ a, Fails P (f a)) : Fails P (r >>= f) := by
  intro e he
  cases r with
  | ok a => exact hf a e he
  | error e' =>
    cases he
    exact h e rfl

theorem foldlM {f : β → α → Except Error β} (hf : ∀ b a, Fails P (f b a)) (l : List α) (b : β) :
    Fails P (l.foldlM f b) := by
  induction l generalizing b with
  | nil => exact ok b
  | cons a l ih =>
    rw [List.foldlM_cons]
    exact (hf b a).bind ih

theorem mapM {f : α → Except Error β} {l : List α} (hf : ∀ a ∈ l, Fails P (f a)) :
    Fails P (l.mapM f) := by
  induction l with
  | nil => exact ok []
  | cons a l ih =>
    obtain ⟨ha, hl⟩ := List.forall_mem_cons.1 hf
    rw [List.mapM_cons]
    exact ha.bind fun b => (ih hl).bind fun bs => ok (b :: bs)

end Fails

/-- Where a traversal fails, every step before the one that fails has succeeded. -/
theorem Error.exists_of_mapM_error {α β : Type} {f : α → Except Error β} {l : List α} {e : Error}
    (h : l.mapM f = .error e) : ∃ before a after, l = before ++ a :: after ∧ f a = .error e ∧
      ∀ a' ∈ before, ∃ b, f a' = .ok b := by
  induction l with
  | nil => cases h
  | cons a l ih =>
    rw [List.mapM_cons] at h
    cases ha : f a with
    | error e' =>
      rw [ha] at h
      cases h
      exact ⟨[], a, l, rfl, ha, List.forall_mem_nil _⟩
    | ok b =>
      rw [ha] at h
      cases hl : l.mapM f with
      | ok bs =>
        change (l.mapM f >>= _) = _ at h
        rw [hl] at h
        cases h
      | error e' =>
        change (l.mapM f >>= _) = _ at h
        rw [hl] at h
        cases h
        obtain ⟨before, a', after, rfl, ha', hbefore⟩ := ih hl
        exact ⟨a :: before, a', after, rfl, ha', List.forall_mem_cons.2 ⟨⟨b, ha⟩, hbefore⟩⟩

namespace Stack

variable {α β : Type} {P : Error → Prop}

/-- The error of a stack that is full. -/
def overflowing : Error :=
  .about .outOfMemory "STACK OVERFLOW".toList

theorem fails_settle {x : Except Error β × Stack α} (h : Fails P x.1) : Fails P (settle x) := by
  obtain ⟨r, s⟩ := x
  cases r with
  | ok b => exact .ok (b, s)
  | error e => exact .error (h e rfl)

theorem fails_push (h : P overflowing) (a : α) (s : Stack α) : Fails P (s.push a).1 := by
  rcases s.push_cases a with ⟨-, hp⟩ | ⟨-, hp⟩
  · rw [hp]
    exact .ok ()
  · rw [hp]
    exact .error h

theorem fails_pop {missing : Error} (h : P missing) (s : Stack α) : Fails P (s.pop missing).1 := by
  rcases s.pop_cases missing with ⟨-, hp⟩ | ⟨a, t, -, hp⟩
  · rw [hp]
    exact .error h
  · rw [hp]
    exact .ok a

theorem fails_popPair {missing : Error} (h : P missing) (s : Stack α) :
    Fails P (s.popPair missing).1 := by
  unfold popPair
  rcases s.pop_cases missing with ⟨-, hp⟩ | ⟨a, t, -, hp⟩
  · rw [hp]
    exact .error h
  · rw [hp]
    rcases t.pop_cases missing with ⟨-, hp'⟩ | ⟨b, u, -, hp'⟩
    · simp only [hp']
      exact .error h
    · simp only [hp']
      exact .ok (b, a)

end Stack

theorem Value.fails_ofDigits (digits : Text) :
    Fails (· = .about .overflow digits) (ofDigits digits) := by
  unfold ofDigits
  split
  · exact .ok _
  · exact .error rfl

theorem Operator.fails_apply {P : Error → Prop} (hz : P (.of .divisionByZero))
    (ho : P (.of .overflow)) (op : Operator) (a b : Value) : Fails P (op.apply a b) := by
  unfold apply
  split
  · exact .error hz
  · split
    · exact .ok _
    · exact .error ho

namespace Expr

/-- The errors that an evaluation of tokens can come to. -/
inductive Fault : Error → Prop where
  | operand : Fault missingOperand
  | opening : Fault missingOpening
  | closing : Fault missingClosing
  | operator : Fault missingOperator
  | divisionByZero : Fault (.of .divisionByZero)
  | overflow : Fault (.of .overflow)
  | tooMany : Fault Stack.overflowing

namespace Work

theorem fails_applyTop (values : Stack Value) (op : Operator) :
    Fails Fault (applyTop values op) := by
  refine (Stack.fails_settle (Stack.fails_popPair .operand values)).bind ?_
  rintro ⟨⟨a, b⟩, values⟩
  refine (op.fails_apply .divisionByZero .overflow a b).bind fun v => ?_
  exact (Stack.fails_settle (Stack.fails_push .tooMany v values)).bind fun _ => .ok _

theorem fails_applyDown (precedence : Nat) (w : Work) : Fails Fault (w.applyDown precedence) :=
  (Fails.foldlM fails_applyTop _ _).bind fun _ => .ok _

theorem fails_await (p : Waiting) (w : Work) : Fails Fault (w.await p) :=
  (Stack.fails_settle (Stack.fails_push .tooMany p w.waiting)).bind fun _ => .ok _

theorem fails_next (w : Work) (t : Token) : Fails Fault (w.next t) := by
  cases t with
  | number v =>
    exact (Stack.fails_settle (Stack.fails_push .tooMany v w.values)).bind fun _ => .ok _
  | opening => exact w.fails_await .group
  | closing =>
    refine (w.fails_applyDown 0).bind fun w => ?_
    exact (Stack.fails_settle (Stack.fails_pop .opening w.waiting)).bind fun _ => .ok _
  | operator op =>
    exact (w.fails_applyDown op.precedence).bind fun w => w.fails_await (.operator op)

theorem fails_finish (values : Stack Value) (p : Waiting) : Fails Fault (finish values p) := by
  cases p with
  | group => exact .error .closing
  | operator op => exact fails_applyTop values op

theorem fails_result (w : Work) : Fails Fault w.result := by
  refine (Fails.foldlM fails_finish w.waiting.entries w.values).bind fun values => ?_
  refine (Stack.fails_settle (Stack.fails_pop .operand values)).bind ?_
  rintro ⟨v, values⟩
  dsimp only
  split
  · exact .ok v
  · exact .error .operator

end Work

theorem fails_evaluateTokens (tokens : List Token) : Fails Fault (evaluateTokens tokens) :=
  (Fails.foldlM Work.fails_next tokens Work.start).bind fun w => w.fails_result

end Expr
end LineScript
