import LineScript.Proofs.Infix
import LineScript.Proofs.Precedence
import LineScript.Proofs.Spelling

/-!
What evaluation accepts. The two stacks check that the parentheses close and that there is one
number more than there are operators, but not where the operators stand; so a text that evaluates
is one of a formula exactly if no operand stands directly after another.
-/
namespace LineScript

namespace Stack

variable {α β : Type}

theorem eq_of_settle {o : Except Error β × Stack α} {r : β × Stack α} (h : settle o = .ok r) :
    o = (.ok r.1, r.2) := by
  obtain ⟨r', s⟩ := o
  cases r' with
  | error e => cases h
  | ok b =>
    cases h
    rfl

theorem eq_cons_of_pop {missing : Error} {s t : Stack α} {a : α}
    (h : s.pop missing = (.ok a, t)) : s = t.cons a := by
  rcases s.pop_cases missing with ⟨_, hp⟩ | ⟨b, u, rfl, hp⟩
  · rw [hp] at h
    cases h
  · rw [hp] at h
    cases h
    rfl

theorem eq_cons_cons_of_popPair {missing : Error} {s t : Stack α} {a b : α}
    (h : s.popPair missing = (.ok (a, b), t)) : s = (t.cons a).cons b := by
  unfold popPair at h
  split at h
  next => cases h
  next upper u hp =>
    obtain rfl := eq_cons_of_pop hp
    split at h
    next => cases h
    next lower w hq =>
      obtain rfl := eq_cons_of_pop hq
      cases h
      rfl

/-- Taking entries off ends at one on which `f` is not defined. -/
theorem top_popWhile (f : α → Option β) (s : Stack α) : (s.popWhile f).2.top?.bind f = none := by
  have hdrop (l : List α) : (l.drop (leading f l).length).head?.bind f = none := by
    induction l with
    | nil => rfl
    | cons a l ih =>
      cases ha : f a with
      | none => simp [leading, ha]
      | some b => simpa [leading, ha] using ih
  exact hdrop s.entries

end Stack

namespace Expr

namespace Waiting

/-- The open parentheses among what waits. -/
def groups : List Waiting → Nat
  | [] => 0
  | group :: ws => groups ws + 1
  | operator _ :: ws => groups ws

def operators : List Waiting → Nat
  | [] => 0
  | group :: ws => operators ws
  | operator _ :: ws => operators ws + 1

/-- Only operators are taken off a stack in order to apply them. -/
theorem drop_leading (p : Nat) (ws : List Waiting) :
    let taken := (Stack.leading (atLeast? p) ws).length
    groups (ws.drop taken) = groups ws ∧ operators (ws.drop taken) + taken = operators ws := by
  induction ws with
  | nil => exact ⟨rfl, rfl⟩
  | cons w ws ih =>
    cases w with
    | group => exact ⟨rfl, rfl⟩
    | operator op =>
      cases hw : atLeast? p (operator op) with
      | none => simp [Stack.leading, hw]
      | some op' =>
        simp only [Stack.leading, hw, List.length_cons, List.drop_succ_cons, groups, operators]
        exact ⟨ih.1, congrArg (· + 1) ih.2⟩

end Waiting

namespace Work

/-- The open parentheses that wait. -/
def groups (w : Work) : Nat :=
  Waiting.groups w.waiting.entries

/-- Values less operators that wait. -/
def surplus (w : Work) : Int :=
  w.values.size - Waiting.operators w.waiting.entries

variable {w w' : Work}

/-- An operator that is applied takes the two values on top and leaves its result. -/
theorem exists_of_applyTop {vs vs' : Stack Value} {op : Operator} (h : applyTop vs op = .ok vs') :
    ∃ (us : Stack Value) (a b v : Value),
      vs = (us.cons a).cons b ∧ op.apply a b = .ok v ∧ vs' = us.cons v := by
  obtain ⟨⟨⟨a, b⟩, us⟩, hpop, h⟩ := Error.exists_of_bind_ok h
  obtain ⟨v, hv, h⟩ := Error.exists_of_bind_ok h
  obtain ⟨⟨_, ws⟩, hpush, h⟩ := Error.exists_of_bind_ok h
  obtain rfl := Stack.eq_cons_cons_of_popPair (Stack.eq_of_settle hpop)
  obtain rfl : us.cons v = ws := congrArg Prod.snd (Stack.eq_of_settle hpush)
  cases h
  exact ⟨us, a, b, v, rfl, hv, rfl⟩

theorem size_applyTop {vs vs' : Stack Value} {op : Operator} (h : applyTop vs op = .ok vs') :
    vs.size = vs'.size + 1 := by
  obtain ⟨us, a, b, v, rfl, -, rfl⟩ := exists_of_applyTop h
  rfl

theorem size_foldlM_applyTop {ops : List Operator} {vs vs' : Stack Value}
    (h : ops.foldlM applyTop vs = .ok vs') : vs.size = vs'.size + ops.length := by
  induction ops generalizing vs with
  | nil =>
    cases h
    rfl
  | cons op ops ih =>
    rw [List.foldlM_cons] at h
    obtain ⟨us, htop, h⟩ := Error.exists_of_bind_ok h
    have hus := size_applyTop htop
    have hvs := ih h
    rw [List.length_cons]
    omega

/-- Applying operators takes a value for each of them. -/
theorem applyDown_ok {p : Nat} (h : w.applyDown p = .ok w') :
    w'.groups = w.groups ∧ w'.surplus = w.surplus ∧ Below p w'.waiting := by
  obtain ⟨vs, hfold, h⟩ := Error.exists_of_bind_ok h
  cases h
  have hsize := size_foldlM_applyTop hfold
  obtain ⟨hgroups, hops⟩ := Waiting.drop_leading p w.waiting.entries
  refine ⟨hgroups, ?_, Stack.top_popWhile _ _⟩
  simp only [surplus] at hsize ⊢
  omega

theorem await_ok {p : Waiting} (h : w.await p = .ok w') :
    w'.values = w.values ∧ w'.waiting = w.waiting.cons p := by
  obtain ⟨⟨_, ws⟩, hpush, h⟩ := Error.exists_of_bind_ok h
  cases h
  exact ⟨rfl, (congrArg Prod.snd (Stack.eq_of_settle hpush)).symm⟩

/-- Each token has its part in what the stacks hold. -/
theorem next_ok {t : Token} (h : w.next t = .ok w') :
    w'.surplus = w.surplus + t.weight ∧
      ∀ ts, Token.Closes w'.groups ts → Token.Closes w.groups (t :: ts) := by
  cases t with
  | number v =>
    obtain ⟨⟨_, vs⟩, hpush, h⟩ := Error.exists_of_bind_ok h
    obtain rfl : w.values.cons v = vs := congrArg Prod.snd (Stack.eq_of_settle hpush)
    cases h
    refine ⟨?_, fun ts hc => hc⟩
    simp only [surplus, Stack.cons, Token.weight]
    omega
  | opening =>
    obtain ⟨vs, ws⟩ := w'
    obtain ⟨rfl, rfl⟩ := await_ok h
    exact ⟨(Int.add_zero _).symm, fun ts hc => hc⟩
  | closing =>
    obtain ⟨⟨vs, us⟩, hdown, h⟩ := Error.exists_of_bind_ok h
    obtain ⟨hgroups, hsurplus, hbelow⟩ := applyDown_ok hdown
    obtain ⟨⟨p, ws⟩, hpop, h⟩ := Error.exists_of_bind_ok h
    obtain rfl : us = ws.cons p := Stack.eq_cons_of_pop (Stack.eq_of_settle hpop)
    cases h
    rw [← hgroups, ← hsurplus]
    -- no operator is left on top, so what was taken off is a parenthesis
    cases p with
    | group => exact ⟨(Int.add_zero _).symm, fun ts hc => ⟨Nat.succ_pos _, hc⟩⟩
    | operator op => cases hbelow
  | operator op =>
    obtain ⟨u, hdown, h⟩ := Error.exists_of_bind_ok h
    obtain ⟨hgroups, hsurplus, _⟩ := applyDown_ok hdown
    obtain ⟨vs, ws⟩ := w'
    obtain ⟨rfl, rfl⟩ := await_ok h
    rw [← hgroups, ← hsurplus]
    refine ⟨?_, fun ts hc => hc⟩
    simp only [surplus, Stack.cons, Waiting.operators, Token.weight]
    omega

/-- A run over tokens that ends with no parenthesis open. -/
theorem foldlM_next_ok {ts : List Token} (h : ts.foldlM next w = .ok w') :
    w'.surplus = w.surplus + Token.surplus ts ∧
      (w'.groups = 0 → Token.Closes w.groups ts) := by
  induction ts generalizing w with
  | nil =>
    cases h
    exact ⟨(Int.add_zero _).symm, id⟩
  | cons t ts ih =>
    rw [List.foldlM_cons] at h
    obtain ⟨u, hnext, h⟩ := Error.exists_of_bind_ok h
    obtain ⟨hsurplus, hcloses⟩ := next_ok hnext
    obtain ⟨hrest, hclosed⟩ := ih h
    refine ⟨?_, fun hg => hcloses ts (hclosed hg)⟩
    rw [hrest, hsurplus, Token.surplus, Int.add_assoc]

theorem foldlM_finish_ok {ws : List Waiting} {vs vs' : Stack Value}
    (h : ws.foldlM finish vs = .ok vs') :
    Waiting.groups ws = 0 ∧ vs.size = vs'.size + Waiting.operators ws := by
  induction ws generalizing vs with
  | nil =>
    cases h
    exact ⟨rfl, rfl⟩
  | cons p ws ih =>
    rw [List.foldlM_cons] at h
    obtain ⟨us, hfinish, h⟩ := Error.exists_of_bind_ok h
    obtain ⟨hgroups, hsize⟩ := ih h
    cases p with
    | group => cases hfinish
    | operator op =>
      have hus := size_applyTop hfinish
      refine ⟨hgroups, ?_⟩
      rw [Waiting.operators]
      omega

theorem result_ok {v : Value} (h : w.result = .ok v) : w.groups = 0 ∧ w.surplus = 1 := by
  obtain ⟨vs, hfold, h⟩ := Error.exists_of_bind_ok h
  obtain ⟨⟨u, us⟩, hpop, h⟩ := Error.exists_of_bind_ok h
  obtain ⟨hgroups, hsize⟩ := foldlM_finish_ok hfold
  have hvs : vs = us.cons u := Stack.eq_cons_of_pop (Stack.eq_of_settle hpop)
  have hempty : us.size = 0 := by
    dsimp only at h
    split at h
    next he => rw [us.size_eq, List.isEmpty_iff.1 he, List.length_nil]
    next => cases h
  refine ⟨hgroups, ?_⟩
  simp only [surplus, hvs, Stack.cons] at hsize ⊢
  omega

end Work

/-- Whatever is evaluated has parentheses that close and one number more than operators. -/
theorem closes_of_evaluateTokens {ts : List Token} {v : Value} (h : evaluateTokens ts = .ok v) :
    Token.Closes 0 ts ∧ Token.surplus ts = 1 := by
  obtain ⟨w, hrun, hresult⟩ := Error.exists_of_bind_ok h
  obtain ⟨hsurplus, hcloses⟩ := Work.foldlM_next_ok hrun
  obtain ⟨hgroups, hone⟩ := Work.result_ok hresult
  have hstart : Work.start.surplus = 0 := rfl
  exact ⟨hcloses hgroups, by omega⟩

end Expr

/-- A text is one of a formula if its tokens are. -/
theorem derives_iff_spaced {s : Text} {ts : List Token} (h : Token.readAll s = .ok ts) :
    Derives 1 ts ↔ ∃ e : Formula Numeral 1, Spaced (e.lexemes Numeral.digits) s := by
  constructor
  · rintro ⟨e, rfl⟩
    obtain ⟨pieces, hpieces, hs⟩ := Token.written_of_readAll h
    obtain ⟨e', rfl⟩ := e.exists_lexemes hpieces
    exact ⟨e', hs⟩
  · rintro ⟨e, hs⟩
    rw [Token.readAll_formula e hs] at h
    obtain ⟨e', _, h⟩ := Error.exists_of_bind_ok h
    exact ⟨e', Except.ok.inj h⟩

namespace Expr

/-- A text that evaluates has parentheses that close and one number more than operators. It is a
text of a formula exactly if no operand stands directly after another. -/
theorem evaluate_infix_iff {s : Text} {v : Value} (h : evaluate s = .ok v) :
    ∃ ts, Token.readAll s = .ok ts ∧ Token.Closes 0 ts ∧ Token.surplus ts = 1 ∧
      ((∃ e : Formula Numeral 1, Spaced (e.lexemes Numeral.digits) s) ↔ Token.Separated ts) := by
  obtain ⟨ts, hread, hvalue⟩ := Error.exists_of_bind_ok h
  obtain ⟨hcloses, hsurplus⟩ := closes_of_evaluateTokens hvalue
  refine ⟨ts, hread, hcloses, hsurplus, ?_⟩
  rw [← derives_iff_spaced hread]
  exact derives_iff_separated hcloses hsurplus

/-- Three operands with their operators between them are a text of a formula. -/
theorem evaluate_infix_iff_between :
    ∃ v, evaluate "7 *(2-30)".toList = .ok v ∧
      ∃ e : Formula Numeral 1, Spaced (e.lexemes Numeral.digits) "7 *(2-30)".toList := by
  obtain ⟨v, hv⟩ : ∃ v, evaluate "7 *(2-30)".toList = .ok v := ⟨_, rfl⟩
  obtain ⟨ts, hread, _, _, hiff⟩ := evaluate_infix_iff hv
  cases hread
  exact ⟨v, hv, hiff.2 (by decide)⟩

/-- An operator after both of its operands is applied to them all the same. -/
theorem evaluate_postfix : (evaluate "1 2+".toList).map Value.toInt = .ok 3 ∧
    ¬ ∃ e : Formula Numeral 1, Spaced (e.lexemes Numeral.digits) "1 2+".toList := by
  refine ⟨rfl, fun h => ?_⟩
  obtain ⟨ts, hread⟩ : ∃ ts, Token.readAll "1 2+".toList = .ok ts := ⟨_, rfl⟩
  obtain ⟨e, he⟩ := (derives_iff_spaced hread).2 h
  have hs := e.separated_tokens
  rw [he] at hs
  cases hread
  exact absurd hs (by decide)

end Expr
end LineScript
