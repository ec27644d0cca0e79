import Mathlib.Algebra.Order.Group.Multiset
import LineScript.Proofs.Acceptance

/-!
What becomes of the numbers and operators of a text that evaluates, whether it is well formed or
not. Each value on the stack is that of a tree, and the trees side by side have the numbers read so
far as their leaves; each operator read so far is at a node of one of them or still waits. Only
neighbours on the stack are put together, so no number changes its place.
-/
namespace LineScript

/-- A tree of binary operations. -/
inductive Tree where
  | leaf (i : Int)
  | node (op : Operator) (l r : Tree)

namespace Tree

/-- The numbers at the leaves, from left to right. -/
def leaves : Tree → List Int
  | leaf i => [i]
  | node _ l r => l.leaves ++ r.leaves

/-- The operators at the inner nodes. -/
def operators : Tree → Multiset Operator
  | leaf _ => 0
  | node op l r => op ::ₘ (l.operators + r.operators)

/-- The value in the arithmetic of 32 bits; each number and each result on the way must fit. -/
def value : Tree → Except Error Int
  | leaf i => Operator.bounded i
  | node op l r => do
    let a ← l.value
    let b ← r.value
    op.checked a b

theorem length_leaves (t : Tree) : t.leaves.length = t.operators.card + 1 := by
  induction t with
  | leaf i => rfl
  | node op l r ihl ihr =>
    simp only [leaves, operators, List.length_append, Multiset.card_cons, Multiset.card_add]
    omega

theorem value_leaf (v : Value) : (leaf v.toInt).value = .ok v.toInt :=
  if_pos ⟨v.least_le, v.le_greatest⟩

theorem value_node {op : Operator} {l r : Tree} {a b v : Value} (hl : l.value = .ok a.toInt)
    (hr : r.value = .ok b.toInt) (hv : op.apply a b = .ok v) :
    (node op l r).value = .ok v.toInt := by
  have hchecked := op.apply_toInt a b
  rw [hv] at hchecked
  rw [value, hl, hr]
  exact hchecked.symm

end Tree

namespace Text

variable {s t : Text}

/-- The numbers of a text: its longest runs of digits, each read as a numeral. -/
def numbers (s : Text) : List Int :=
  ((s.splitOnP fun c => !c.isDigit).filter fun digits => !digits.isEmpty).map fun digits =>
    (Nat.ofDigitChars 10 digits 0 : Int)

/-- The operators of a text, in order. -/
def operators (s : Text) : List Operator :=
  s.filterMap Operator.ofChar?

/-- No parenthesis is closed before it is opened, and all are closed in the end. -/
structure Balanced (s : Text) : Prop where
  before : ∀ t, t <+: s → t.count ')' ≤ t.count '('
  total : s.count ')' = s.count '('

/-- The same of a text inside of `depth` parentheses. -/
structure BalancedIn (depth : Nat) (s : Text) : Prop where
  before : ∀ t, t <+: s → t.count ')' ≤ t.count '(' + depth
  total : s.count ')' = s.count '(' + depth

/-- What is not a digit ends a numeral. -/
theorem numbers_append_cons {c : Char} (hc : c.isDigit = false) (s t : Text) :
    numbers (s ++ c :: t) = numbers s ++ numbers t := by
  rw [numbers, List.splitOnP_append_cons s t (by simp [hc]), List.filter_append, List.map_append]
  rfl

theorem numbers_of_digits (hs : ∀ c ∈ s, c.isDigit = true) (hne : s ≠ []) :
    numbers s = [(Nat.ofDigitChars 10 s 0 : Int)] := by
  have hsplit : s.splitOnP (fun c => !c.isDigit) = [s] := by
    apply List.splitOnP_eq_singleton
    intro c hc
    simp [hs c hc]
  simp [numbers, hsplit, hne]

theorem BalancedIn.cons {c : Char} {outer inner : Nat} (h : BalancedIn inner s)
    (hc : inner + (if c = ')' then 1 else 0) = outer + (if c = '(' then 1 else 0)) :
    BalancedIn outer (c :: s) := by
  have hcount (t : Text) (x : Char) : (c :: t).count x = t.count x + if c = x then 1 else 0 := by
    simp [List.count_cons]
  constructor
  · intro t ht
    obtain rfl | ⟨t, rfl, hrest⟩ := List.prefix_cons_iff.1 ht
    · exact Nat.zero_le _
    · have hle := h.before t hrest
      rw [hcount, hcount]
      omega
  · have heq := h.total
    rw [hcount, hcount]
    omega

end Text

namespace Token

/-- The number that a token is, if it is one. -/
def number? : Token → Option Int
  | number v => some v.toInt
  | opening | closing | operator _ => none

/-- The character that a token is by itself. -/
def symbol? : Token → Option Char
  | opening => some '('
  | closing => some ')'
  | operator op => some op.symbol
  | number _ => none

def isSymbol (c : Char) : Bool :=
  (ofChar? c).isSome

theorem symbol?_of_ofChar? {c : Char} {t : Token} (h : ofChar? c = some t) :
    t.symbol? = some c ∧ t.number? = none := by
  unfold ofChar? at h
  split at h
  · cases h
    exact ⟨rfl, rfl⟩
  · cases h
    exact ⟨rfl, rfl⟩
  · obtain ⟨op, hop, rfl⟩ := Option.map_eq_some_iff.1 h
    exact ⟨congrArg some (Operator.ofChar?_eq_some_iff.1 hop).symm, rfl⟩

/-- Neither digits nor blanks are symbols. -/
theorem not_isSymbol {c : Char} (h : c.isDigit = true ∨ Text.isBlank c = true) :
    isSymbol c = false := by
  cases hc : ofChar? c with
  | none => simp [isSymbol, hc]
  | some t =>
    have hsymbol := (symbol?_of_ofChar? hc).1
    cases t with
    | number v => cases hsymbol
    | opening =>
      cases hsymbol
      rcases h with h | h <;> cases h
    | closing =>
      cases hsymbol
      rcases h with h | h <;> cases h
    | operator op =>
      cases hsymbol
      rcases h with h | h <;> cases op <;> cases h

namespace Scan

variable {scan scan' : Scan}

/-- The tokens are those of the text, on top of those that were there. -/
structure Adds (scan scan' : Scan) (text : Text) (ts : List Token) : Prop where
  tokens_eq : scan'.tokens.reverse = scan.tokens.reverse ++ ts
  numbers_eq : ts.filterMap number? = Text.numbers (scan.digits.reverse ++ text)
  symbols_eq : ts.filterMap symbol? = text.filter isSymbol

theorem adds_of_close (h : scan.close = .ok scan') (hd : ∀ c ∈ scan.digits, c.isDigit = true) :
    ∃ ts, Adds scan scan' [] ts := by
  unfold close at h
  split at h
  next he =>
    cases h
    refine ⟨[], by simp, ?_, rfl⟩
    rw [List.isEmpty_iff.1 he]
    rfl
  next he =>
    obtain ⟨v, hv, h⟩ := Error.exists_of_bind_ok h
    cases h
    have hne : scan.digits.reverse ≠ [] := by simpa using he
    have hdigits : ∀ c ∈ scan.digits.reverse, c.isDigit = true := by simpa using hd
    have hvalue : v.toInt = (Nat.ofDigitChars 10 scan.digits.reverse 0 : Int) := by
      unfold Value.ofDigits at hv
      split at hv
      next hofInt =>
        cases hv
        exact Value.ofInt?_eq_some_iff.1 hofInt
      next => cases hv
    refine ⟨[number v], by simp, ?_, rfl⟩
    rw [List.append_nil, Text.numbers_of_digits hdigits hne, ← hvalue]
    rfl

theorem adds_of_read {text : Text} (h : scan.read text = .ok scan')
    (hd : ∀ c ∈ scan.digits, c.isDigit = true) : ∃ ts, Adds scan scan' text ts := by
  induction text generalizing scan with
  | nil => exact adds_of_close h hd
  | cons c text ih =>
    rw [read_cons] at h
    obtain ⟨mid, hnext, h⟩ := Error.exists_of_bind_ok h
    unfold next at hnext
    split at hnext
    next hc =>
      cases hnext
      obtain ⟨ts, htokens, hnumbers, hsymbols⟩ := ih h (List.forall_mem_cons.2 ⟨hc, hd⟩)
      refine ⟨ts, htokens, by simpa using hnumbers, ?_⟩
      rw [hsymbols, List.filter_cons_of_neg (by simp [not_isSymbol (.inl hc)])]
    next hc =>
      obtain ⟨closed, hclose, hnext⟩ := Error.exists_of_bind_ok hnext
      have hnone := digits_of_close hclose
      obtain ⟨ended, hended, hnumber, hsymbol⟩ := adds_of_close hclose hd
      have hsplit (rest : Text) : Text.numbers (scan.digits.reverse ++ c :: rest) =
          Text.numbers scan.digits.reverse ++ Text.numbers rest :=
        Text.numbers_append_cons (by simpa using hc) _ rest
      rw [List.append_nil] at hnumber
      split at hnext
      next hb =>
        cases hnext
        obtain ⟨ts, htokens, hnumbers, hsymbols⟩ := ih h (by simp [hnone])
        rw [hnone] at hnumbers
        refine ⟨ended ++ ts, by simp [htokens, hended], ?_, ?_⟩
        · rw [List.filterMap_append, hnumber, hnumbers, hsplit]
          rfl
        · rw [List.filterMap_append, hsymbol, hsymbols,
            List.filter_cons_of_neg (by simp [not_isSymbol (.inr hb)])]
          rfl
      next =>
        split at hnext
        next t ht =>
          cases hnext
          obtain ⟨hself, hnot⟩ := symbol?_of_ofChar? ht
          obtain ⟨ts, htokens, hnumbers, hsymbols⟩ := ih h (by simp [hnone])
          rw [hnone] at hnumbers
          refine ⟨ended ++ t :: ts, by simp [htokens, hended], ?_, ?_⟩
          · rw [List.filterMap_append, List.filterMap_cons_none hnot, hnumber, hnumbers, hsplit]
            rfl
          · rw [List.filterMap_append, List.filterMap_cons_some hself, hsymbol, hsymbols,
              List.filter_cons_of_pos (by simp [isSymbol, ht])]
            rfl
        next => cases hnext

end Scan

/-- The tokens of a text have its numbers, and its parentheses and operators. -/
theorem parts_of_readAll {s : Text} {ts : List Token} (h : readAll s = .ok ts) :
    ts.filterMap number? = Text.numbers s ∧ ts.filterMap symbol? = s.filter isSymbol := by
  rw [readAll_eq_read] at h
  obtain ⟨scan, hread, h⟩ := Error.exists_of_bind_ok h
  cases h
  obtain ⟨ts, htokens, hnumbers, hsymbols⟩ := Scan.adds_of_read hread (by simp)
  have heq : scan.tokens.reverse = ts := by simpa using htokens
  rw [heq]
  exact ⟨hnumbers, hsymbols⟩

/-- The operator that a token is, if it is one. -/
def operator? : Token → Option Operator
  | operator op => some op
  | number _ | opening | closing => none

theorem bind_symbol? (t : Token) : t.symbol?.bind Operator.ofChar? = t.operator? := by
  cases t with
  | operator op => cases op <;> rfl
  | _ => rfl

theorem operators_of_readAll {s : Text} {ts : List Token} (h : readAll s = .ok ts) :
    ts.filterMap operator? = Text.operators s := by
  have hkept (c : Char) : (if isSymbol c then Operator.ofChar? c else none) =
      Operator.ofChar? c := by
    cases hc : Operator.ofChar? c with
    | none => simp
    | some op =>
      obtain rfl := Operator.ofChar?_eq_some_iff.1 hc
      simp [isSymbol, ofChar?_symbol]
  calc ts.filterMap operator?
      = (ts.filterMap symbol?).filterMap Operator.ofChar? := by
        rw [List.filterMap_filterMap]
        simp only [bind_symbol?]
    _ = Text.operators s := by
        rw [(parts_of_readAll h).2, List.filterMap_filter]
        simp only [hkept]
        rfl

/-- Tokens that close as many parentheses as are open have the symbols of such a text. -/
theorem balancedIn_of_closes {ts : List Token} {depth : Nat} (h : Closes depth ts) :
    Text.BalancedIn depth (ts.filterMap symbol?) := by
  induction ts generalizing depth with
  | nil =>
    obtain rfl : depth = 0 := h
    constructor
    · intro t ht
      rw [List.prefix_nil.1 ht]
      exact Nat.zero_le _
    · rfl
  | cons token ts ih =>
    cases token with
    | number v => exact ih h
    | operator op =>
      apply (ih h).cons
      cases op <;> rfl
    | opening => exact (ih h).cons rfl
    | closing =>
      obtain ⟨hpos, hrest⟩ := h
      apply (ih hrest).cons
      exact Nat.sub_add_cancel hpos

theorem balanced_of_readAll {s : Text} {ts : List Token} (h : readAll s = .ok ts)
    (hc : Closes 0 ts) : s.Balanced := by
  obtain ⟨hbefore, htotal⟩ := balancedIn_of_closes hc
  rw [(parts_of_readAll h).2] at hbefore htotal
  have hopening (t : Text) : (t.filter isSymbol).count '(' = t.count '(' :=
    List.count_filter rfl
  have hclosing (t : Text) : (t.filter isSymbol).count ')' = t.count ')' :=
    List.count_filter rfl
  constructor
  · intro t ht
    have hle := hbefore _ (ht.filter isSymbol)
    rw [hopening, hclosing] at hle
    exact hle
  · rw [hopening, hclosing] at htotal
    exact htotal

end Token

namespace Expr

variable {vs vs' : Stack Value} {numbers : List Int} {applied : Multiset Operator}

/-- Values, the top one first, that trees with the given leaves and operators have, each tree to
the right of those below it. -/
inductive Grown : List Value → List Int → Multiset Operator → Prop where
  | nil : Grown [] [] 0
  | cons {vs : List Value} {numbers : List Int} {applied : Multiset Operator} {v : Value}
      {t : Tree} (h : Grown vs numbers applied) (ht : t.value = .ok v.toInt) :
      Grown (v :: vs) (numbers ++ t.leaves) (applied + t.operators)

namespace Grown

/-- The two trees on top become the sides of a new one. -/
theorem applyTop {op : Operator} (h : Grown vs.entries numbers applied)
    (happly : Work.applyTop vs op = .ok vs') : Grown vs'.entries numbers (op ::ₘ applied) := by
  obtain ⟨us, a, b, v, rfl, hv, rfl⟩ := Work.exists_of_applyTop happly
  cases h with
  | cons h hb =>
    cases h with
    | @cons _ numbers applied _ l h ha =>
      have hnode := h.cons (Tree.value_node ha hb hv)
      simpa [Tree.leaves, Tree.operators, Stack.cons, add_assoc] using hnode

theorem applyAll {ops : List Operator} (h : Grown vs.entries numbers applied)
    (hfold : ops.foldlM Work.applyTop vs = .ok vs') :
    Grown vs'.entries numbers (applied + ops) := by
  induction ops generalizing vs applied with
  | nil =>
    cases hfold
    simpa using h
  | cons op ops ih =>
    rw [List.foldlM_cons] at hfold
    obtain ⟨us, htop, hfold⟩ := Error.exists_of_bind_ok hfold
    have hrest := ih (h.applyTop htop) hfold
    rwa [Multiset.cons_add, ← Multiset.add_cons, Multiset.cons_coe] at hrest

theorem exists_tree {v : Value} (h : Grown [v] numbers applied) :
    ∃ t : Tree, t.value = .ok v.toInt ∧ t.leaves = numbers ∧ t.operators = applied := by
  cases h with
  | @cons _ _ _ _ t h ht =>
    cases h
    exact ⟨t, ht, (List.nil_append _).symm, (zero_add _).symm⟩

end Grown

namespace Waiting

/-- The operators among what waits. -/
def pending : List Waiting → Multiset Operator
  | [] => 0
  | group :: ws => pending ws
  | operator op :: ws => op ::ₘ pending ws

/-- Operators that are taken off a stack in order to apply them wait no longer. -/
theorem pending_drop (p : Nat) (ws : List Waiting) :
    let taken := Stack.leading (atLeast? p) ws
    taken + pending (ws.drop taken.length) = pending ws := by
  induction ws with
  | nil => rfl
  | cons w ws ih =>
    cases w with
    | group => exact zero_add _
    | operator op =>
      by_cases hp : p ≤ op.precedence
      · have htop : atLeast? p (operator op) = some op := if_pos hp
        simp only [Stack.leading, htop, List.length_cons, List.drop_succ_cons, pending,
          ← Multiset.cons_coe, Multiset.cons_add]
        exact congrArg _ ih
      · have htop : atLeast? p (operator op) = none := if_neg hp
        simp [Stack.leading, htop]

end Waiting

theorem Grown.finish {ws : List Waiting} (h : Grown vs.entries numbers applied)
    (hfold : ws.foldlM Work.finish vs = .ok vs') :
    Grown vs'.entries numbers (applied + Waiting.pending ws) := by
  induction ws generalizing vs applied with
  | nil =>
    cases hfold
    simpa [Waiting.pending] using h
  | cons w ws ih =>
    rw [List.foldlM_cons] at hfold
    obtain ⟨us, hfinish, hws⟩ := Error.exists_of_bind_ok hfold
    cases w with
    | group => cases hfinish
    | operator op =>
      have hrest := ih (h.applyTop hfinish) hws
      rwa [Multiset.cons_add, ← Multiset.add_cons] at hrest

namespace Work

variable {w w' : Work} {ops : Multiset Operator}

/-- The numbers read so far are at the leaves of trees, and the operators read so far are at their
nodes or wait. -/
def Holds (w : Work) (numbers : List Int) (ops : Multiset Operator) : Prop :=
  ∃ applied, Grown w.values.entries numbers applied ∧
    applied + Waiting.pending w.waiting.entries = ops

namespace Holds

theorem start : Holds Work.start [] 0 :=
  ⟨0, .nil, rfl⟩

theorem applyDown {p : Nat} (h : w.Holds numbers ops) (hdown : w.applyDown p = .ok w') :
    w'.Holds numbers ops := by
  obtain ⟨applied, hgrown, rfl⟩ := h
  obtain ⟨vs, hfold, hdown⟩ := Error.exists_of_bind_ok hdown
  cases hdown
  refine ⟨_, hgrown.applyAll hfold, ?_⟩
  rw [add_assoc]
  exact congrArg (applied + ·) (Waiting.pending_drop p w.waiting.entries)

/-- Each token has its number at a new leaf, or its operator among those that wait. -/
theorem next {t : Token} (h : w.Holds numbers ops) (hnext : w.next t = .ok w') :
    w'.Holds (numbers ++ t.number?.toList) (ops + t.operator?.toList) := by
  cases t with
  | number v =>
    obtain ⟨applied, hgrown, rfl⟩ := h
    obtain ⟨⟨_, vs⟩, hpush, hnext⟩ := Error.exists_of_bind_ok hnext
    obtain rfl : w.values.cons v = vs := congrArg Prod.snd (Stack.eq_of_settle hpush)
    cases hnext
    exact ⟨_, hgrown.cons (Tree.value_leaf v), by simp [Tree.operators, Token.operator?]⟩
  | opening =>
    obtain ⟨vs, ws⟩ := w'
    obtain ⟨rfl, rfl⟩ := await_ok hnext
    simpa [Token.number?, Token.operator?, Holds, Stack.cons, Waiting.pending] using h
  | closing =>
    obtain ⟨⟨vs, us⟩, hdown, hnext⟩ := Error.exists_of_bind_ok hnext
    obtain ⟨-, -, hbelow⟩ := applyDown_ok hdown
    obtain ⟨⟨p, ws⟩, hpop, hnext⟩ := Error.exists_of_bind_ok hnext
    obtain rfl : us = ws.cons p := Stack.eq_cons_of_pop (Stack.eq_of_settle hpop)
    cases hnext
    -- no operator is left on top, so what was taken off is a parenthesis
    cases p with
    | group =>
      simpa [Token.number?, Token.operator?, Holds, Stack.cons, Waiting.pending]
        using h.applyDown hdown
    | operator op => cases hbelow
  | operator op =>
    obtain ⟨u, hdown, hnext⟩ := Error.exists_of_bind_ok hnext
    obtain ⟨applied, hgrown, rfl⟩ := h.applyDown hdown
    obtain ⟨vs, ws⟩ := w'
    obtain ⟨rfl, rfl⟩ := await_ok hnext
    have hgrown' : Grown u.values.entries (numbers ++ []) applied := by
      rwa [List.append_nil]
    refine ⟨applied, hgrown', ?_⟩
    simp [Stack.cons, Waiting.pending, Token.operator?, add_comm]

theorem foldlM {ts : List Token} (h : w.Holds numbers ops)
    (hfold : ts.foldlM Work.next w = .ok w') :
    w'.Holds (numbers ++ ts.filterMap Token.number?) (ops + ts.filterMap Token.operator?) := by
  induction ts generalizing w numbers ops with
  | nil =>
    cases hfold
    simpa using h
  | cons t ts ih =>
    rw [List.foldlM_cons] at hfold
    obtain ⟨u, hnext, hts⟩ := Error.exists_of_bind_ok hfold
    have hcons {β : Type} (f : Token → Option β) :
        (t :: ts).filterMap f = (f t).toList ++ ts.filterMap f := by
      cases hf : f t <;> simp [hf]
    have hrest := ih (h.next hnext) hts
    rwa [List.append_assoc, add_assoc, Multiset.coe_add, ← hcons, ← hcons] at hrest

/-- At the end one tree is left, and nothing waits. -/
theorem result {v : Value} (h : w.Holds numbers ops) (hresult : w.result = .ok v) :
    ∃ t : Tree, t.value = .ok v.toInt ∧ t.leaves = numbers ∧ t.operators = ops := by
  obtain ⟨applied, hgrown, rfl⟩ := h
  obtain ⟨vs, hfold, htop⟩ := Error.exists_of_bind_ok hresult
  obtain ⟨⟨u, us⟩, hpop, hlast⟩ := Error.exists_of_bind_ok htop
  obtain rfl : vs = us.cons u := Stack.eq_cons_of_pop (Stack.eq_of_settle hpop)
  dsimp only at hlast
  split at hlast
  next hempty =>
    cases hlast
    have hall : Grown (v :: us.entries) _ _ := hgrown.finish hfold
    have hnil : us.entries = [] := List.isEmpty_iff.1 hempty
    rw [hnil] at hall
    exact hall.exists_tree
  next => cases hlast

end Holds
end Work

/-- A text that evaluates, well formed or not, has balanced parentheses and one number more than
operators. Its value is that of a tree with the numbers of the text at its leaves, in their order,
and with the operators of the text at its nodes, each as often as the text has it. -/
theorem evaluate_regroups {s : Text} {v : Value} (h : evaluate s = .ok v) :
    s.Balanced ∧ s.numbers.length = s.operators.length + 1 ∧
      ∃ t : Tree, t.value = .ok v.toInt ∧ t.leaves = s.numbers ∧ t.operators = s.operators := by
  obtain ⟨ts, hread, hvalue⟩ := Error.exists_of_bind_ok h
  have hbalanced := Token.balanced_of_readAll hread (closes_of_evaluateTokens hvalue).1
  obtain ⟨w, hrun, hresult⟩ := Error.exists_of_bind_ok hvalue
  obtain ⟨t, ht, hleaves, hoperators⟩ := (Work.Holds.start.foldlM hrun).result hresult
  rw [List.nil_append, (Token.parts_of_readAll hread).1] at hleaves
  rw [zero_add, Token.operators_of_readAll hread] at hoperators
  refine ⟨hbalanced, ?_, t, ht, hleaves, hoperators⟩
  rw [← hleaves, t.length_leaves, hoperators, Multiset.coe_card]

/-- Operators that stand behind their operands, with a parenthesis in an odd place. -/
theorem evaluate_regroups_postfix :
    let s := "(7 2) 3*-".toList
    ∃ v, evaluate s = .ok v ∧ Text.Balanced s ∧
      ∃ t : Tree, t.value = .ok v.toInt ∧ t.leaves = [7, 2, 3] ∧
        t.operators = {Operator.mul, Operator.sub} := by
  intro s
  obtain ⟨v, hv⟩ : ∃ v, evaluate s = .ok v := ⟨_, rfl⟩
  obtain ⟨hbalanced, -, t, ht, hleaves, hoperators⟩ := evaluate_regroups hv
  exact ⟨v, hv, hbalanced, t, ht, hleaves, hoperators⟩

end Expr
end LineScript
