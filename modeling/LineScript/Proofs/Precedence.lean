import LineScript.Expr.Evaluate
import LineScript.Proofs.Reading

/-!
Evaluation by two stacks computes the formula that a text spells. The operators at the end of a
formula still wait when its last token has been taken, so the state after a formula is compared
with the state of its value only once the operators down to some precedence are applied: every
token that can follow begins with that, and so does the end of the text.
-/
namespace LineScript

namespace Expr
namespace Work

theorem applyTop_cons_cons {vs : Stack Value} (h : vs.size < Stack.capacity) (op : Operator)
    (a b : Value) : applyTop ((vs.cons a).cons b) op = do
      let v ← op.apply a b
      return vs.cons v := by
  rw [applyTop, Stack.popPair_cons_cons]
  change (op.apply a b >>= fun v => Stack.settle (vs.push v) >>= fun r => pure r.2) = _
  simp only [Stack.settle_push h]
  rfl

theorem next_number {vs : Stack Value} (h : vs.size < Stack.capacity) (ws : Stack Waiting)
    (v : Value) : next ⟨vs, ws⟩ (.number v) = .ok ⟨vs.cons v, ws⟩ := by
  simp only [next, Stack.settle_push h]
  rfl

theorem await_eq {ws : Stack Waiting} (h : ws.size < Stack.capacity) (vs : Stack Value)
    (p : Waiting) : await p ⟨vs, ws⟩ = .ok ⟨vs, ws.cons p⟩ := by
  simp only [await, Stack.settle_push h]
  rfl

theorem next_closing (w : Work) : w.next .closing = w.applyDown 0 >>= fun w =>
    Stack.settle (w.waiting.pop missingOpening) >>= fun r => pure { w with waiting := r.2 } :=
  rfl

theorem next_operator (w : Work) (op : Operator) : w.next (.operator op) =
    w.applyDown op.level >>= await (.operator op) := by
  rw [← op.precedence_eq_level]
  rfl

/-- No operator on top of the stack binds as tightly as `p`. -/
def Below (p : Nat) (ws : Stack Waiting) : Prop :=
  ws.top?.bind (Waiting.atLeast? p) = none

theorem Below.group (p : Nat) (ws : Stack Waiting) : Below p (ws.cons .group) :=
  rfl

theorem Below.operator (op : Operator) (ws : Stack Waiting) :
    Below (op.level + 1) (ws.cons (.operator op)) := by
  change Waiting.atLeast? (op.level + 1) (.operator op) = none
  simp [Waiting.atLeast?, op.precedence_eq_level]

theorem Below.mono {p q : Nat} {ws : Stack Waiting} (h : Below p ws) (hpq : p ≤ q) :
    Below q ws := by
  unfold Below at *
  cases hw : ws.top? with
  | none => rfl
  | some w =>
    rw [hw] at h
    cases w with
    | group => rfl
    | operator op =>
      have hp : ¬ p ≤ op.precedence := by simpa [Waiting.atLeast?] using h
      have hq : ¬ q ≤ op.precedence := by omega
      simp [Waiting.atLeast?, hq]

theorem applyDown_of_below {p : Nat} {ws : Stack Waiting} (h : Below p ws) (vs : Stack Value) :
    applyDown p ⟨vs, ws⟩ = .ok ⟨vs, ws⟩ := by
  unfold applyDown
  rw [Stack.popWhile_of_top h]
  rfl

/-- An operator on top that binds tightly enough is applied first. -/
theorem applyDown_operator {q : Nat} {op : Operator} (hq : q ≤ op.level) {vs : Stack Value}
    (h : vs.size < Stack.capacity) (ws : Stack Waiting) (a b : Value) :
    applyDown q ⟨(vs.cons a).cons b, ws.cons (.operator op)⟩ =
      op.apply a b >>= fun v => applyDown q ⟨vs.cons v, ws⟩ := by
  have htop : Waiting.atLeast? q (.operator op) = some op := by
    simp [Waiting.atLeast?, op.precedence_eq_level, hq]
  simp only [applyDown, Stack.popWhile_cons_some htop, List.foldlM_cons, applyTop_cons_cons h,
    bind_assoc, pure_bind]

theorem foldlM_finish_leading (entries : List Waiting) (vs : Stack Value) :
    entries.foldlM finish vs =
      (Stack.leading (Waiting.atLeast? 0) entries).foldlM applyTop vs >>= fun vs =>
        (entries.drop (Stack.leading (Waiting.atLeast? 0) entries).length).foldlM finish vs := by
  induction entries generalizing vs with
  | nil => rfl
  | cons w rest ih =>
    cases w with
    | group => rfl
    | operator op =>
      change (applyTop vs op >>= fun vs => rest.foldlM finish vs) =
        (applyTop vs op >>= fun vs => _) >>= _
      simp only [bind_assoc]
      congr
      funext vs
      exact ih vs

/-- At the end of the text, too, the operators down to a parenthesis are applied first. -/
theorem result_eq_applyDown (w : Work) : w.result = w.applyDown 0 >>= result := by
  obtain ⟨vs, ws⟩ := w
  simp only [result, applyDown, foldlM_finish_leading ws.entries vs, bind_assoc, pure_bind]
  rfl

/-- The run over the tokens of a formula. An open parenthesis and the two operators that can wait
inside it take three places, and what is above them depends on the level. -/
theorem foldlM_tokens {p q : Nat} (e : Formula Value p) (hq : q ≤ p) (vs : Stack Value)
    (ws : Stack Waiting) (hw : Below p ws)
    (hvs : vs.size + 3 * e.depth + (3 - p) < Stack.capacity)
    (hws : ws.size + 3 * e.depth + (3 - p) ≤ Stack.capacity) :
    (e.tokens.foldlM next ⟨vs, ws⟩ >>= applyDown q) =
      e.compute Operator.apply id >>= fun v => applyDown q ⟨vs.cons v, ws⟩ := by
  induction e generalizing q vs ws with
  | operand v =>
    have hlt : vs.size < Stack.capacity := by omega
    simp only [Formula.tokens, List.foldlM_cons, List.foldlM_nil, next_number hlt]
    rfl
  | group e ih =>
    simp only [Formula.depth] at hvs hws
    have hlt : ws.size < Stack.capacity := by omega
    have hsize : (ws.cons .group).size = ws.size + 1 := rfl
    have hinner := ih (Nat.zero_le 1) vs (ws.cons .group) (Below.group 1 ws) (by omega) (by omega)
    simp only [Formula.tokens, Formula.compute, List.foldlM_cons, List.foldlM_append,
      List.foldlM_nil, bind_pure, next_closing]
    change (await .group ⟨vs, ws⟩ >>= _) >>= _ = _
    rw [await_eq hlt]
    change ((e.tokens.foldlM next ⟨vs, ws.cons .group⟩ >>= fun w => _) >>= _) = _
    -- what waits inside is applied down to the parenthesis, which is then on top
    rw [← bind_assoc, hinner]
    simp only [bind_assoc, applyDown_of_below (Below.group 0 ws)]
    rfl
  | tight e ih =>
    simp only [Formula.depth] at hvs hws
    exact ih (by omega) vs ws (hw.mono (Nat.le_succ _)) (by omega) (by omega)
  | binary op l r ihl ihr =>
    simp only [Formula.depth] at hvs hws
    have hp : op.level ≤ 2 := by cases op <;> decide
    have hlt : ws.size < Stack.capacity := by omega
    have hleft := ihl (Nat.le_refl _) vs ws hw (by omega) (by omega)
    have hright (a : Value) := ihr (Nat.le_succ_of_le hq) (vs.cons a) (ws.cons (.operator op))
      (Below.operator op ws) (by simp only [Stack.cons]; omega) (by simp only [Stack.cons]; omega)
    simp only [Formula.tokens, Formula.compute, List.foldlM_append, List.foldlM_cons,
      next_operator, bind_assoc]
    -- the operator first applies what its left side has left waiting, and nothing below that
    rw [← bind_assoc, hleft]
    simp only [bind_assoc]
    congr
    funext a
    rw [applyDown_of_below hw]
    change (await (.operator op) ⟨vs.cons a, ws⟩ >>= _) = _
    rw [await_eq hlt]
    change (r.tokens.foldlM next ⟨vs.cons a, ws.cons (.operator op)⟩ >>= applyDown q) = _
    rw [hright a]
    congr
    funext b
    exact applyDown_operator hq (by omega) ws a b

end Work

theorem evaluateTokens_tokens (e : Formula Value 1) (hd : e.depth ≤ 21844) :
    evaluateTokens e.tokens = e.compute Operator.apply id := by
  have hvalues : (Work.start.values).size = 0 := rfl
  have hwaiting : (Work.start.waiting).size = 0 := rfl
  have hrun := Work.foldlM_tokens e (Nat.zero_le 1) Work.start.values Work.start.waiting rfl
    (by rw [hvalues, Stack.capacity]; omega) (by rw [hwaiting, Stack.capacity]; omega)
  have hresult : Work.result = fun w => w.applyDown 0 >>= Work.result :=
    funext Work.result_eq_applyDown
  calc evaluateTokens e.tokens
      = (e.tokens.foldlM Work.next Work.start >>= Work.applyDown 0) >>= Work.result := by
        rw [bind_assoc, ← hresult]
        rfl
    _ = e.compute Operator.apply id := by
        rw [show Work.start = ⟨Work.start.values, Work.start.waiting⟩ from rfl, hrun]
        cases e.compute Operator.apply id <;> rfl

end Expr

/-- An operator that does not divide by zero fails only for a result out of range. -/
theorem Operator.apply_toInt_of_ne {op : Operator} {a b : Value}
    (h : ¬(op = .div ∧ b.toInt = 0)) :
    (op.apply a b).map Value.toInt = bounded (op.onInt a.toInt b.toInt) := by
  rw [apply, if_neg h]
  generalize op.onInt a.toInt b.toInt = i
  by_cases hi : -2147483648 ≤ i ∧ i ≤ 2147483647 <;>
    simp [Value.ofInt?, bounded, hi, Except.map]

theorem Operator.apply_toInt (op : Operator) (a b : Value) :
    (op.apply a b).map Value.toInt = op.checked a.toInt b.toInt := by
  cases op with
  | add => exact apply_toInt_of_ne (by simp)
  | sub => exact apply_toInt_of_ne (by simp)
  | mul => exact apply_toInt_of_ne (by simp)
  | div =>
    by_cases hb : b.toInt = 0
    · rw [apply, if_pos ⟨rfl, hb⟩, checked, if_pos hb]
      rfl
    · rw [checked, if_neg hb]
      exact apply_toInt_of_ne (by simp [hb])

theorem Operator.kind_of_checked_error {op : Operator} {a b : Int} {e : Error}
    (h : op.checked a b = .error e) : e.kind = .overflow ∨ e.kind = .divisionByZero := by
  have hbounded {i : Int} (h : bounded i = .error e) : e.kind = .overflow := by
    unfold bounded at h
    split at h
    · cases h
    · cases h
      rfl
  cases op with
  | add => exact .inl (hbounded h)
  | sub => exact .inl (hbounded h)
  | mul => exact .inl (hbounded h)
  | div =>
    simp only [checked] at h
    split at h
    · cases h
      exact .inr rfl
    · exact .inl (hbounded h)

namespace Numeral

/-- The number as a value, where it is not too large. -/
def value (n : Numeral) : Value :=
  (Value.ofInt? n.number).getD .least

theorem ofDigits_tooLarge {n : Numeral} (h : n.isTooLarge = true) :
    Value.ofDigits n.digits = .error (.about .overflow n.digits) := by
  have hn : ¬ (n.number : Int) ≤ 2147483647 := by
    simp only [isTooLarge, decide_eq_true_eq] at h
    omega
  have hnone : Value.ofInt? n.number = none := by simp [Value.ofInt?, hn]
  rw [Value.ofDigits, show Nat.ofDigitChars 10 n.digits 0 = n.number from rfl, hnone]

theorem ofInt?_number {n : Numeral} (h : n.isTooLarge = false) :
    Value.ofInt? n.number = some n.value ∧ n.value.toInt = n.number := by
  have hn : -2147483648 ≤ (n.number : Int) ∧ (n.number : Int) ≤ 2147483647 := by
    simp only [isTooLarge, decide_eq_false_iff_not] at h
    omega
  have hsome : Value.ofInt? n.number = some n.value := by simp [value, Value.ofInt?, hn]
  exact ⟨hsome, Value.ofInt?_eq_some_iff.1 hsome⟩

theorem ofDigits_value {n : Numeral} (h : n.isTooLarge = false) :
    Value.ofDigits n.digits = .ok n.value := by
  rw [Value.ofDigits, show Nat.ofDigitChars 10 n.digits 0 = n.number from rfl, (ofInt?_number h).1]

end Numeral

namespace Expr

/-- The numerals are all read before anything is computed. -/
theorem evaluate_spaced (e : Formula Numeral 1) (hd : e.depth ≤ 21844) {s : Text}
    (hs : Spaced (e.lexemes Numeral.digits) s) :
    (evaluate s).map Value.toInt = e.meaning some fun n => n.number := by
  rw [evaluate, Token.readAll_formula e hs, Formula.meaning, List.filterMap_some]
  cases hfind : e.operands.find? Numeral.isTooLarge with
  | some n =>
    have herror := Formula.mapM_error (fun _ => Numeral.ofDigits_tooLarge)
      (fun _ => Numeral.ofDigits_value) e hfind
    rw [herror]
    rfl
  | none =>
    have hgood : ∀ n ∈ e.operands, n.isTooLarge = false := by simpa using hfind
    have hdepth : (e.replace fun n => .operand n.value).depth ≤ e.depth + 0 :=
      e.depth_replace_le fun n _ => Nat.le_refl 0
    rw [Formula.mapM_ok e fun n hn => Numeral.ofDigits_value (hgood n hn)]
    change (evaluateTokens (e.replace fun n => .operand n.value).tokens).map _ = _
    rw [evaluateTokens_tokens _ (by omega), Formula.compute_map Operator.apply_toInt]
    exact Formula.compute_replace e fun n hn =>
      congrArg Except.ok (Numeral.ofInt?_number (hgood n hn)).2

end Expr

theorem Formula.kind_of_meaning_error {α : Type} {p : Nat} {numeral? : α → Option Numeral}
    {value : α → Int} {e : Formula α p} {err : Error}
    (h : e.meaning numeral? value = .error err) :
    err.kind = .overflow ∨ err.kind = .divisionByZero := by
  unfold meaning at h
  split at h
  · cases h
    exact .inl rfl
  · exact compute_error (P := fun err => err.kind = .overflow ∨ err.kind = .divisionByZero)
      (fun _ _ _ _ => Operator.kind_of_checked_error) e h

namespace Expr

/-- Evaluating any text of a formula gives what the formula stands for, and fails only where the
formula does: no text of a formula is malformed, and the stacks have room for it. -/
theorem evaluate_formula (e : Formula Numeral 1) (hd : e.depth ≤ 21844) (s : Text)
    (hs : Spaced (e.lexemes Numeral.digits) s) :
    (evaluate s).map Value.toInt = e.meaning some (fun n => n.number) ∧
      ∀ err, evaluate s = .error err → err.kind = .overflow ∨ err.kind = .divisionByZero := by
  have hvalue := evaluate_spaced e hd hs
  refine ⟨hvalue, fun err herr => ?_⟩
  rw [herr] at hvalue
  exact Formula.kind_of_meaning_error hvalue.symm

open Formula in
/-- A formula with every kind of node, in which a product stands behind a sum and a quotient behind
a difference, spelled with blanks of several kinds. -/
theorem evaluate_formula_mixed :
    let e : Formula Numeral 1 :=
      binary .sub
        (binary .add (tight (tight (operand (.ofNat 2))))
          (binary .mul (tight (operand (.ofNat 3))) (operand (.ofNat 4))))
        (binary .div
          (tight (group (binary .sub (tight (tight (operand (.ofNat 7))))
            (tight (operand (.ofNat 10))))))
          (operand (.ofNat 2)))
    let s := "\t2+3 *4 -(7 -\u300010)/2 ".toList
    (e.depth ≤ 21844 ∧ Spaced (e.lexemes Numeral.digits) s) ∧
      (evaluate s).map Value.toInt = .ok 15 := by
  intro e s
  have hd : e.depth ≤ 21844 := by decide
  have hs : Spaced (e.lexemes Numeral.digits) s :=
    .next ['\t'] (List.all_eq_true.1 rfl) ['2'] <|
    .next [] (List.all_eq_true.1 rfl) ['+'] <|
    .next [] (List.all_eq_true.1 rfl) ['3'] <|
    .next [' '] (List.all_eq_true.1 rfl) ['*'] <|
    .next [] (List.all_eq_true.1 rfl) ['4'] <|
    .next [' '] (List.all_eq_true.1 rfl) ['-'] <|
    .next [] (List.all_eq_true.1 rfl) ['('] <|
    .next [] (List.all_eq_true.1 rfl) ['7'] <|
    .next [' '] (List.all_eq_true.1 rfl) ['-'] <|
    .next ['\u3000'] (List.all_eq_true.1 rfl) ['1', '0'] <|
    .next [] (List.all_eq_true.1 rfl) [')'] <|
    .next [] (List.all_eq_true.1 rfl) ['/'] <|
    .next [] (List.all_eq_true.1 rfl) ['2'] <|
    .last [' '] (List.all_eq_true.1 rfl)
  have hm : e.meaning some (fun n => n.number) = .ok 15 := rfl
  exact ⟨⟨hd, hs⟩, (evaluate_formula e hd s hs).1.trans hm⟩

end Expr
end LineScript
