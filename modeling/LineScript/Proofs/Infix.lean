import Mathlib.Data.List.Chain
import LineScript.Proofs.Reading

/-!
Which lists of tokens a formula has. Three things are needed that each take the list as a whole:
the parentheses close, there is one number more than there are operators, and no operand stands
directly after another. They leave no choice at any place between an operand and an operator, so
the formula can be put together from left to right, with the parts that wait for their right sides
kept apart.
-/
namespace LineScript
namespace Token

def weight : Token → Int
  | number _ => 1
  | operator _ => -1
  | opening | closing => 0

/-- Numbers less operators. -/
def surplus : List Token → Int
  | [] => 0
  | t :: ts => t.weight + surplus ts

def startsOperand : Token → Bool
  | number _ | opening => true
  | _ => false

def endsOperand : Token → Bool
  | number _ | closing => true
  | _ => false

/-- No operand stands directly after another. -/
def Separated (ts : List Token) : Prop :=
  ts.IsChain fun s t => (s.endsOperand && t.startsOperand) = false

instance (ts : List Token) : Decidable (Separated ts) :=
  inferInstanceAs (Decidable (ts.IsChain _))

/-- Inside of `depth` open parentheses, these and all that follow are closed. -/
def Closes : Nat → List Token → Prop
  | depth, [] => depth = 0
  | depth, opening :: ts => Closes (depth + 1) ts
  | depth, closing :: ts => 0 < depth ∧ Closes (depth - 1) ts
  | depth, number _ :: ts => Closes depth ts
  | depth, operator _ :: ts => Closes depth ts

/-- The tokens that can follow after an operand, or else before one, inside of `depth` open
parentheses. -/
inductive Follows : Bool → Nat → List Token → Prop where
  | nil : Follows true 0 []
  | number {depth : Nat} {ts : List Token} (v : Value) (h : Follows true depth ts) :
      Follows false depth (number v :: ts)
  | opening {depth : Nat} {ts : List Token} (h : Follows false (depth + 1) ts) :
      Follows false depth (opening :: ts)
  | closing {depth : Nat} {ts : List Token} (h : Follows true depth ts) :
      Follows true (depth + 1) (closing :: ts)
  | operator {depth : Nat} {ts : List Token} (op : Operator) (h : Follows false depth ts) :
      Follows true depth (operator op :: ts)

/-- Where operands are separated, there is at most one number more than there are operators, and
after an operand not even that. -/
theorem surplus_le {ts : List Token} (h : Separated ts) {after : Bool}
    (hfirst : ∀ t ∈ ts.head?, (after && t.startsOperand) = false) :
    surplus ts + after.toNat ≤ 1 := by
  induction ts generalizing after with
  | nil => cases after <;> decide
  | cons t ts ih =>
    obtain ⟨hhead, htail⟩ := List.isChain_cons.1 h
    have hrest := ih htail hhead
    have ht := hfirst t rfl
    have hafter := after.toNat_le
    rw [surplus]
    cases t with
    | number v =>
      obtain rfl : after = false := by simpa [startsOperand] using ht
      simp only [weight, endsOperand, Bool.toNat_true, Bool.toNat_false] at hrest ⊢
      omega
    | opening =>
      obtain rfl : after = false := by simpa [startsOperand] using ht
      simp only [weight, endsOperand, Bool.toNat_false] at hrest ⊢
      omega
    | closing =>
      simp only [weight, endsOperand, Bool.toNat_true] at hrest ⊢
      omega
    | operator op =>
      simp only [weight, endsOperand, Bool.toNat_false] at hrest ⊢
      omega

/-- With as many numbers as there can be, every place has the kind of token that it needs. -/
theorem follows_of_surplus {ts : List Token} (h : Separated ts) {after : Bool}
    (hfirst : ∀ t ∈ ts.head?, (after && t.startsOperand) = false)
    (hcount : surplus ts + after.toNat = 1) {depth : Nat} (hclose : Closes depth ts) :
    Follows after depth ts := by
  induction ts generalizing after depth with
  | nil =>
    obtain rfl : after = true := by cases after <;> simp [surplus] at hcount ⊢
    obtain rfl : depth = 0 := hclose
    exact .nil
  | cons t ts ih =>
    obtain ⟨hhead, htail⟩ := List.isChain_cons.1 h
    have hrest := surplus_le htail hhead
    have ht := hfirst t rfl
    rw [surplus] at hcount
    cases t with
    | number v =>
      obtain rfl : after = false := by simpa [startsOperand] using ht
      simp only [weight, Bool.toNat_false] at hcount
      exact .number v (ih htail hhead (by simp only [endsOperand, Bool.toNat_true]; omega) hclose)
    | opening =>
      obtain rfl : after = false := by simpa [startsOperand] using ht
      simp only [weight, Bool.toNat_false] at hcount
      exact .opening (ih htail hhead (by simp only [endsOperand, Bool.toNat_false]; omega) hclose)
    | closing =>
      simp only [weight, endsOperand, Bool.toNat_true] at hcount hrest
      obtain rfl : after = true := by cases after <;> simp at hcount ⊢; omega
      obtain ⟨hpos, hclose⟩ := hclose
      obtain ⟨depth, rfl⟩ := Nat.exists_eq_succ_of_ne_zero (Nat.ne_of_gt hpos)
      exact .closing (ih htail hhead (by simpa [endsOperand] using hcount) hclose)
    | operator op =>
      simp only [weight, endsOperand, Bool.toNat_false] at hcount hrest
      obtain rfl : after = true := by cases after <;> simp at hcount ⊢; omega
      simp only [Bool.toNat_true] at hcount
      have hrest := ih htail hhead (by simp only [endsOperand, Bool.toNat_false]; omega) hclose
      exact .operator op hrest

end Token

/-- The tokens are those of a formula of the given level. -/
def Derives (p : Nat) (ts : List Token) : Prop :=
  ∃ e : Formula Value p, e.tokens = ts

namespace Derives

theorem number (v : Value) : Derives 3 [.number v] :=
  ⟨.operand v, rfl⟩

theorem group {ts : List Token} (h : Derives 1 ts) :
    Derives 3 (.opening :: (ts ++ [.closing])) := by
  obtain ⟨e, rfl⟩ := h
  exact ⟨.group e, rfl⟩

theorem tight {p : Nat} {ts : List Token} (h : Derives (p + 1) ts) : Derives p ts := by
  obtain ⟨e, rfl⟩ := h
  exact ⟨.tight e, rfl⟩

theorem binary {op : Operator} {l r : List Token} (hl : Derives op.level l)
    (hr : Derives (op.level + 1) r) : Derives op.level (l ++ .operator op :: r) := by
  obtain ⟨l, rfl⟩ := hl
  obtain ⟨r, rfl⟩ := hr
  exact ⟨.binary op l r, rfl⟩

end Derives

/-- What can stand before the last operand of a formula of level `p`: an operator of that level and
its left side, or nothing. -/
inductive Leads (p : Nat) : List Token → Prop where
  | nil : Leads p []
  | operator {op : Operator} {l : List Token} (hp : op.level = p) (hl : Derives p l) :
      Leads p (l ++ [.operator op])

theorem Leads.derives {p : Nat} {a t : List Token} (ha : Leads p a) (ht : Derives (p + 1) t) :
    Derives p (a ++ t) := by
  cases ha with
  | nil => exact ht.tight
  | @operator op l hp hl =>
    subst hp
    simpa using hl.binary ht

/-- The tokens from the last open parenthesis on, after an operand or else before one: a sum that
waits for its right side, if there is one, and the same of a product, or a product as it stands. -/
inductive Began : Bool → List Token → Prop where
  | before {a m : List Token} (ha : Leads 1 a) (hm : Leads 2 m) : Began false (a ++ m)
  | after {a t : List Token} (ha : Leads 1 a) (ht : Derives 2 t) : Began true (a ++ t)

namespace Began

theorem factor {x f : List Token} (h : Began false x) (hf : Derives 3 f) :
    Began true (x ++ f) := by
  cases h with
  | before ha hm =>
    rw [List.append_assoc]
    exact .after ha (hm.derives hf)

theorem derives {x : List Token} (h : Began true x) : Derives 1 x := by
  cases h with
  | after ha ht => exact ha.derives ht

theorem operator {x : List Token} (h : Began true x) (op : Operator) :
    Began false (x ++ [.operator op]) := by
  have hp : op.level = 1 ∨ op.level = 2 := by cases op <;> decide
  rcases hp with hp | hp
  · simpa using Began.before (.operator hp h.derives) .nil
  · cases h with
    | after ha ht =>
      rw [List.append_assoc]
      exact .before ha (.operator hp ht)

end Began

/-- The tokens up to and with the last of `depth` open parentheses. -/
inductive Opened : Nat → List Token → Prop where
  | start : Opened 0 []
  | opening {depth : Nat} {pre x : List Token} (h : Opened depth pre) (hx : Began false x) :
      Opened (depth + 1) (pre ++ (x ++ [.opening]))

/-- Tokens that follow what was read so far make a formula of the whole. -/
theorem Token.Follows.derives {after : Bool} {depth : Nat} {ts : List Token}
    (h : Follows after depth ts) {pre x : List Token} (hpre : Opened depth pre)
    (hx : Began after x) : Derives 1 (pre ++ (x ++ ts)) := by
  induction h generalizing pre x with
  | nil =>
    cases hpre
    simpa using hx.derives
  | number v h ih => simpa using ih hpre (hx.factor (.number v))
  | opening h ih => simpa using ih (.opening hpre hx) (.before .nil .nil)
  | closing h ih =>
    cases hpre with
    | opening hpre hx' => simpa using ih hpre (hx'.factor hx.derives.group)
  | operator op h ih => simpa using ih hpre (hx.operator op)

theorem Formula.separated_tokens {p : Nat} (e : Formula Value p) : Token.Separated e.tokens := by
  induction e with
  | operand v => exact .singleton _
  | group e ih =>
    refine List.isChain_cons.2 ⟨fun _ _ => rfl, ?_⟩
    refine List.isChain_append.2 ⟨ih, .singleton _, fun s _ t ht => ?_⟩
    obtain rfl : Token.closing = t := by simpa using ht
    simp [Token.startsOperand]
  | tight e ih => exact ih
  | binary op l r ihl ihr =>
    refine List.isChain_append.2
      ⟨ihl, List.isChain_cons.2 ⟨fun _ _ => rfl, ihr⟩, fun s _ t ht => ?_⟩
    obtain rfl : Token.operator op = t := by simpa using ht
    simp [Token.startsOperand]

/-- Of tokens whose parentheses close and that have one number more than operators, those of a
formula are the separated ones. -/
theorem derives_iff_separated {ts : List Token} (hclose : Token.Closes 0 ts)
    (hcount : Token.surplus ts = 1) : Derives 1 ts ↔ Token.Separated ts := by
  constructor
  · rintro ⟨e, rfl⟩
    exact e.separated_tokens
  · intro h
    have hfollows : Token.Follows false 0 ts :=
      Token.follows_of_surplus h (fun _ _ => rfl) (by simpa using hcount) hclose
    simpa using hfollows.derives .start (.before .nil .nil)

end LineScript
