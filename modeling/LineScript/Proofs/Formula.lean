import LineScript.Operator

/-!
Arithmetic formulas as trees, the texts that spell them, and what they stand for. The grammar is
`E ::= T | E (+|-) T`, `T ::= F | T (*|/) F`, `F ::= a | (E)`, with `E`, `T` and `F` the levels 1,
2 and 3 of one family. The meaning is computed over the integers and does not refer to the
evaluator.
-/
namespace LineScript

/-- The level of the grammar that an operator belongs to: sums and differences are `E`, products
and quotients `T`. -/
def Operator.level : Operator → Nat
  | .add | .sub => 1
  | .mul | .div => 2

/-- The precedence by which the evaluator goes is the level of the grammar. -/
theorem Operator.precedence_eq_level (op : Operator) : op.precedence = op.level := by
  cases op <;> rfl

/-- A tree of the grammar, whose level is the least one of an operator outside parentheses. -/
inductive Formula (α : Type) : Nat → Type where
  | operand (a : α) : Formula α 3
  | group (e : Formula α 1) : Formula α 3
  | tight {p : Nat} (e : Formula α (p + 1)) : Formula α p
  | binary (op : Operator) (l : Formula α op.level) (r : Formula α (op.level + 1)) :
      Formula α op.level

/-- An integer of 32 bits; any other is an overflow. -/
def Operator.bounded (i : Int) : Except Error Int :=
  if -2147483648 ≤ i ∧ i ≤ 2147483647 then .ok i else .error (.of .overflow)

/-- The arithmetic of 32 bits; division goes toward zero. -/
def Operator.checked : Operator → Int → Int → Except Error Int
  | .add, a, b => bounded (a + b)
  | .sub, a, b => bounded (a - b)
  | .mul, a, b => bounded (a * b)
  | .div, a, b => if b = 0 then .error (.of .divisionByZero) else bounded (a.tdiv b)

namespace Formula

variable {α β γ : Type} {p : Nat}

/-- The operands from left to right. -/
def operands : {p : Nat} → Formula α p → List α
  | _, operand a => [a]
  | _, group e => e.operands
  | _, tight e => e.operands
  | _, binary _ l r => l.operands ++ r.operands

/-- How deep the parentheses nest. -/
def depth : {p : Nat} → Formula α p → Nat
  | _, operand _ => 0
  | _, group e => e.depth + 1
  | _, tight e => e.depth
  | _, binary _ l r => max l.depth r.depth

/-- The pieces of text in order, given those of the operands. -/
def lexemes (spell : α → Text) : {p : Nat} → Formula α p → List Text
  | _, operand a => [spell a]
  | _, group e => ['('] :: (e.lexemes spell ++ [[')']])
  | _, tight e => e.lexemes spell
  | _, binary op l r => l.lexemes spell ++ [op.symbol] :: r.lexemes spell

/-- The result of the operators, each applied after its left and then its right side is
computed. -/
def compute (apply : Operator → β → β → Except Error β) (value : α → β) :
    {p : Nat} → Formula α p → Except Error β
  | _, operand a => .ok (value a)
  | _, group e => e.compute apply value
  | _, tight e => e.compute apply value
  | _, binary op l r => do
    let a ← l.compute apply value
    let b ← r.compute apply value
    apply op a b

/-- A factor in the place of each operand. -/
def replace (f : α → Formula β 3) : {p : Nat} → Formula α p → Formula β p
  | _, operand a => f a
  | _, group e => group (e.replace f)
  | _, tight e => tight (e.replace f)
  | _, binary op l r => binary op (l.replace f) (r.replace f)

/-- Exchanges the operands from left to right, up to the first that fails. -/
def mapM (f : α → Except Error β) : {p : Nat} → Formula α p → Except Error (Formula β p)
  | _, operand a => do
    let b ← f a
    return operand b
  | _, group e => do
    let e ← e.mapM f
    return group e
  | _, tight e => do
    let e ← e.mapM f
    return tight e
  | _, binary op l r => do
    let l ← l.mapM f
    let r ← r.mapM f
    return binary op l r

theorem mapM_ok {f : α → Except Error β} {g : α → β} (e : Formula α p)
    (h : ∀ a ∈ e.operands, f a = .ok (g a)) :
    e.mapM f = .ok (e.replace fun a => operand (g a)) := by
  induction e with
  | operand a =>
    rw [mapM, h a (by simp [operands])]
    rfl
  | group e ih =>
    rw [mapM, ih h]
    rfl
  | tight e ih =>
    rw [mapM, ih h]
    rfl
  | binary op l r ihl ihr =>
    simp only [operands, List.mem_append] at h
    rw [mapM, ihl fun a ha => h a (.inl ha), ihr fun a ha => h a (.inr ha)]
    rfl

/-- The error is that of the leftmost operand that has one. -/
theorem mapM_error {f : α → Except Error β} {bad : α → Bool} {error : α → Error} {g : α → β}
    (hbad : ∀ a, bad a = true → f a = .error (error a))
    (hgood : ∀ a, bad a = false → f a = .ok (g a)) (e : Formula α p) {a : α}
    (h : e.operands.find? bad = some a) : e.mapM f = .error (error a) := by
  induction e with
  | operand b =>
    obtain rfl : a = b := by simpa [operands] using List.mem_of_find?_eq_some h
    rw [mapM, hbad a (List.find?_some h)]
    rfl
  | group e ih =>
    rw [mapM, ih h]
    rfl
  | tight e ih =>
    rw [mapM, ih h]
    rfl
  | binary op l r ihl ihr =>
    rw [operands, List.find?_append, Option.or_eq_some_iff] at h
    rcases h with hl | ⟨hl, hr⟩
    · rw [mapM, ihl hl]
      rfl
    · rw [List.find?_eq_none] at hl
      rw [mapM, mapM_ok l fun a ha => hgood a (by simpa using hl a ha), ihr hr]
      rfl

theorem operands_replace (f : α → Formula β 3) (e : Formula α p) :
    (e.replace f).operands = e.operands.flatMap fun a => (f a).operands := by
  induction e with
  | operand a => simp [operands, replace]
  | group e ih => exact ih
  | tight e ih => exact ih
  | binary op l r ihl ihr => simp [operands, replace, ihl, ihr]

theorem depth_replace_le {f : α → Formula β 3} {k : Nat} (e : Formula α p)
    (h : ∀ a ∈ e.operands, (f a).depth ≤ k) : (e.replace f).depth ≤ e.depth + k := by
  induction e with
  | operand a => simpa [depth, replace] using h a (by simp [operands])
  | group e ih =>
    have he := ih h
    simp only [depth, replace]
    omega
  | tight e ih => exact ih h
  | binary op l r ihl ihr =>
    simp only [operands, List.mem_append] at h
    have hl := ihl fun a ha => h a (.inl ha)
    have hr := ihr fun a ha => h a (.inr ha)
    simp only [depth, replace]
    omega

/-- Factors that have the values of the operands can stand for them. -/
theorem compute_replace {apply : Operator → γ → γ → Except Error γ} {f : α → Formula β 3}
    {value : β → γ} {value' : α → γ} (e : Formula α p)
    (h : ∀ a ∈ e.operands, (f a).compute apply value = .ok (value' a)) :
    (e.replace f).compute apply value = e.compute apply value' := by
  induction e with
  | operand a => exact h a (by simp [operands])
  | group e ih => exact ih h
  | tight e ih => exact ih h
  | binary op l r ihl ihr =>
    simp only [operands, List.mem_append] at h
    rw [replace, compute, ihl fun a ha => h a (.inl ha), ihr fun a ha => h a (.inr ha)]
    rfl

/-- Computing commutes with a map that respects each operator. -/
theorem compute_map {apply : Operator → β → β → Except Error β}
    {apply' : Operator → γ → γ → Except Error γ} {f : β → γ}
    (h : ∀ op a b, (apply op a b).map f = apply' op (f a) (f b)) (value : α → β)
    (e : Formula α p) : (e.compute apply value).map f = e.compute apply' fun a => f (value a) := by
  induction e with
  | operand a => rfl
  | group e ih => exact ih
  | tight e ih => exact ih
  | binary op l r ihl ihr =>
    simp only [compute]
    rw [← ihl, ← ihr]
    cases l.compute apply value with
    | error e => rfl
    | ok a =>
      cases r.compute apply value with
      | error e => rfl
      | ok b => exact h op a b

/-- Computing fails only where an operator does. -/
theorem compute_error {apply : Operator → β → β → Except Error β} {P : Error → Prop}
    (h : ∀ op a b e, apply op a b = .error e → P e) {value : α → β} (e : Formula α p) {err : Error}
    (he : e.compute apply value = .error err) : P err := by
  induction e with
  | operand a => cases he
  | group e ih => exact ih he
  | tight e ih => exact ih he
  | binary op l r ihl ihr =>
    rw [compute] at he
    cases hl : l.compute apply value with
    | error e =>
      rw [hl] at he
      cases he
      exact ihl hl
    | ok a =>
      cases hr : r.compute apply value with
      | error e =>
        rw [hl, hr] at he
        cases he
        exact ihr hr
      | ok b =>
        rw [hl, hr] at he
        exact h op a b err he

end Formula

/-- A run of one or more ASCII digits. -/
structure Numeral where
  digits : Text
  isDigits : Text.isDigits digits = true

namespace Numeral

theorem isDigit_of_mem (n : Numeral) {c : Char} (h : c ∈ n.digits) : c.isDigit = true := by
  have hn := n.isDigits
  simp only [Text.isDigits, Bool.and_eq_true, List.all_eq_true] at hn
  exact hn.2 c h

theorem digits_ne_nil (n : Numeral) : n.digits ≠ [] := by
  have hn := n.isDigits
  simp only [Text.isDigits, Bool.and_eq_true] at hn
  simpa using hn.1

def number (n : Numeral) : Nat :=
  Nat.ofDigitChars 10 n.digits 0

/-- Whether the number exceeds 32 bits. -/
def isTooLarge (n : Numeral) : Bool :=
  2147483647 < n.number

/-- The shortest numeral of a number. -/
def ofNat (n : Nat) : Numeral :=
  ⟨Text.ofNat n, Text.isDigits_ofNat n⟩

end Numeral

/-- What a formula stands for: the error of the leftmost numeral that is too large, or else the
result of the operators. -/
def Formula.meaning {α : Type} {p : Nat} (numeral? : α → Option Numeral) (value : α → Int)
    (e : Formula α p) : Except Error Int :=
  match (e.operands.filterMap numeral?).find? Numeral.isTooLarge with
  | some n => .error (.about .overflow n.digits)
  | none => e.compute Operator.checked value

/-- A text of the given pieces with blanks before, between and after them. -/
inductive Spaced : List Text → Text → Prop where
  | last (gap : Text) (h : ∀ c ∈ gap, Text.isBlank c = true) : Spaced [] gap
  | next (gap : Text) (h : ∀ c ∈ gap, Text.isBlank c = true) (piece : Text) {rest : List Text}
      {s : Text} (hs : Spaced rest s) : Spaced (piece :: rest) (gap ++ piece ++ s)

namespace Spaced

theorem nil_iff {s : Text} : Spaced [] s ↔ ∀ c ∈ s, Text.isBlank c = true := by
  constructor
  · intro h
    cases h with
    | last _ h => exact h
  · exact Spaced.last s

theorem singleton_iff {piece s : Text} : Spaced [piece] s ↔
    ∃ before after, (∀ c ∈ before, Text.isBlank c = true) ∧
      (∀ c ∈ after, Text.isBlank c = true) ∧ s = before ++ piece ++ after := by
  constructor
  · intro h
    cases h with
    | next _ hb _ ha => exact ⟨_, _, hb, nil_iff.1 ha, rfl⟩
  · rintro ⟨before, after, hb, ha, rfl⟩
    exact .next _ hb piece (.last _ ha)

/-- A piece of one character splits the text into the texts of the pieces around it. -/
theorem around_iff {left right : List Text} {c : Char} {s : Text} :
    Spaced (left ++ [c] :: right) s ↔
      ∃ s₁ s₂, Spaced left s₁ ∧ Spaced right s₂ ∧ s = s₁ ++ c :: s₂ := by
  induction left generalizing s with
  | nil =>
    constructor
    · intro h
      cases h with
      | next _ hb _ hs => exact ⟨_, _, .last _ hb, hs, by simp⟩
    · rintro ⟨s₁, s₂, h₁, h₂, rfl⟩
      simpa using Spaced.next s₁ (nil_iff.1 h₁) [c] h₂
  | cons piece left ih =>
    constructor
    · intro h
      cases h with
      | next _ hb _ hs =>
        obtain ⟨s₁, s₂, h₁, h₂, rfl⟩ := ih.1 hs
        exact ⟨_, s₂, .next _ hb piece h₁, h₂, by simp⟩
    · rintro ⟨s₁, s₂, h₁, h₂, rfl⟩
      cases h₁ with
      | next _ hb _ hs =>
        simpa using Spaced.next _ hb piece (ih.2 ⟨_, s₂, hs, h₂, rfl⟩)

/-- So do two pieces of one character at the ends. -/
theorem enclosed_iff {inner : List Text} {a b : Char} {s : Text} :
    Spaced ([a] :: (inner ++ [[b]])) s ↔
      ∃ before mid after, (∀ c ∈ before, Text.isBlank c = true) ∧ Spaced inner mid ∧
        (∀ c ∈ after, Text.isBlank c = true) ∧ s = before ++ a :: (mid ++ b :: after) := by
  constructor
  · intro h
    cases h with
    | next _ hb _ hr =>
      obtain ⟨mid, after, hm, ha, rfl⟩ := around_iff.1 hr
      exact ⟨_, mid, after, hb, hm, nil_iff.1 ha, by simp⟩
  · rintro ⟨before, mid, after, hb, hm, ha, rfl⟩
    have hr : Spaced (inner ++ [[b]]) (mid ++ b :: after) :=
      around_iff.2 ⟨mid, after, hm, .last _ ha, rfl⟩
    simpa using Spaced.next _ hb [a] hr

/-- Blanks between the pieces are not needed. -/
theorem compact (pieces : List Text) {before after : Text}
    (hb : ∀ c ∈ before, Text.isBlank c = true) (ha : ∀ c ∈ after, Text.isBlank c = true) :
    Spaced pieces (before ++ pieces.flatten ++ after) := by
  induction pieces generalizing before with
  | nil =>
    refine .last _ fun c hc => ?_
    simp only [List.flatten_nil, List.append_nil, List.mem_append] at hc
    exact hc.elim (hb c) (ha c)
  | cons piece pieces ih =>
    have hrest : Spaced pieces ([] ++ pieces.flatten ++ after) := ih (by simp)
    simpa using Spaced.next before hb piece hrest

end Spaced
end LineScript
