import LineScript.Expr.Substitute
import LineScript.Proofs.Precedence

/-!
Putting values for names keeps the meaning of a formula. The text that is written spells the
formula with a factor in the place of each name, so what `Precedence` says of evaluation applies to
it; the factor of a negative value is one pair of parentheses deeper than the name was.
-/
namespace LineScript

structure Identifier where
  text : Text
  isValid : Name.isValid text = true

namespace Name

theorem toNat_of_isStart {c : Char} (h : isStart c = true) :
    c.toNat = 36 ∨ c.toNat = 95 ∨ 65 ≤ c.toNat ∧ c.toNat ≤ 90 ∨ 97 ≤ c.toNat ∧ c.toNat ≤ 122 := by
  rcases isStart_iff.1 h with ⟨hfirst, hlast⟩ | ⟨hfirst, hlast⟩ | rfl | rfl
  · exact .inr (.inr (.inl ⟨hfirst, hlast⟩))
  · exact .inr (.inr (.inr ⟨hfirst, hlast⟩))
  · exact .inr (.inl rfl)
  · exact .inl rfl

theorem isDigit_of_isStart {c : Char} (h : isStart c = true) : c.isDigit = false := by
  rw [← Bool.not_eq_true]
  intro hd
  have hs := toNat_of_isStart h
  have hn := Text.toNat_of_isDigit hd
  omega

theorem isPart_of_isStart {c : Char} (h : isStart c = true) : isPart c = true := by
  rw [isPart, h, Bool.true_or]

theorem isBlank_of_isPart {c : Char} (h : isPart c = true) : Text.isBlank c = false := by
  rw [← Bool.not_eq_true]
  intro hb
  rcases Bool.or_eq_true_iff.1 h with hs | hd
  · have hn := toNat_of_isStart hs
    simp only [Text.isBlank, Bool.or_eq_true, Bool.and_eq_true, decide_eq_true_eq,
      beq_iff_eq] at hb
    omega
  · rw [Text.isDigit_of_isBlank hb] at hd
    cases hd

end Name

namespace Identifier

theorem exists_cons (x : Identifier) : ∃ c rest, x.text = c :: rest ∧ Name.isStart c = true ∧
    ∀ d ∈ rest, Name.isPart d = true := by
  obtain ⟨text, hx⟩ := x
  cases text with
  | nil => cases hx
  | cons c rest =>
    simp only [Name.isValid, Bool.and_eq_true, List.all_eq_true] at hx
    exact ⟨c, rest, rfl, hx⟩

theorem isPart_of_mem (x : Identifier) {c : Char} (h : c ∈ x.text) : Name.isPart c = true := by
  obtain ⟨d, rest, hx, hd, hrest⟩ := x.exists_cons
  rw [hx] at h
  rcases List.mem_cons.1 h with rfl | h
  · exact Name.isPart_of_isStart hd
  · exact hrest c h

end Identifier

namespace Store

/-- The value that is stored under a declared name. -/
def stored (vars : Store) (name : Text) : Value :=
  ((vars.lookup? name).map Variable.value).getD .least

theorem valueOf_eq_stored {vars : Store} {name : Text} (h : vars.contains name = true) :
    vars.valueOf name = .ok (vars.stored name) := by
  rw [contains_eq] at h
  obtain ⟨x, hx⟩ := Option.isSome_iff_exists.1 h
  simp [valueOf, stored, hx]

theorem contains_of_valueOf {vars : Store} {name : Text} {v : Value}
    (h : vars.valueOf name = .ok v) : vars.contains name = true ∧ vars.stored name = v := by
  unfold valueOf at h
  split at h
  next x hx =>
    cases h
    rw [contains_eq, stored, hx]
    exact ⟨rfl, rfl⟩
  next => cases h

end Store

/-- What stands in a formula in variables: numerals and names. -/
inductive Atom where
  | numeral (n : Numeral)
  | name (x : Identifier)

namespace Atom

def text : Atom → Text
  | numeral n => n.digits
  | name x => x.text

def numeral? : Atom → Option Numeral
  | numeral n => some n
  | name _ => none

def value (vars : Store) : Atom → Int
  | numeral n => n.number
  | name x => (vars.stored x.text).toInt

end Atom

namespace Numeral

@[simp]
theorem number_ofNat (n : Nat) : (ofNat n).number = n :=
  Nat.ofDigitChars_toDigits (by decide) (by decide)

theorem isTooLarge_ofNat {n : Nat} (h : n ≤ 2147483647) : (ofNat n).isTooLarge = false := by
  simp only [isTooLarge, number_ofNat, decide_eq_false_iff_not]
  omega

end Numeral

/-- The factor that is written for a value. -/
def Value.factor (v : Value) : Formula Numeral 3 :=
  match v.toInt with
  | .ofNat n => .operand (.ofNat n)
  | .negSucc n =>
    .group (.binary .sub
      (.binary .sub (.tight (.tight (.operand (.ofNat 0)))) (.tight (.operand (.ofNat n))))
      (.tight (.operand (.ofNat 1))))

namespace Value

theorem flatten_factor (v : Value) :
    (v.factor.lexemes Numeral.digits).flatten = Expr.operand v := by
  unfold factor Expr.operand
  cases v.toInt with
  | ofNat n => exact List.append_nil _
  | negSucc n =>
    have h0 : Text.ofNat 0 = ['0'] := rfl
    have h1 : Text.ofNat 1 = ['1'] := rfl
    simp [Formula.lexemes, Numeral.ofNat, Operator.symbol, h0, h1]

theorem depth_factor_le (v : Value) : v.factor.depth ≤ 1 := by
  unfold factor
  split <;> simp [Formula.depth]

/-- No numeral of the factor is too large, also for the least value. -/
theorem isTooLarge_factor {v : Value} {n : Numeral} (hn : n ∈ v.factor.operands) :
    n.isTooLarge = false := by
  have hv := v.least_le
  have hv' := v.le_greatest
  unfold factor at hn
  split at hn
  next m hm =>
    rw [hm, Int.ofNat_eq_natCast] at hv'
    obtain rfl : n = .ofNat m := by simpa [Formula.operands] using hn
    exact Numeral.isTooLarge_ofNat (by omega)
  next m hm =>
    rw [hm, Int.negSucc_eq] at hv
    have hn : n = .ofNat 0 ∨ n = .ofNat m ∨ n = .ofNat 1 := by
      simpa [Formula.operands] using hn
    rcases hn with rfl | rfl | rfl
    · exact Numeral.isTooLarge_ofNat (by omega)
    · exact Numeral.isTooLarge_ofNat (by omega)
    · exact Numeral.isTooLarge_ofNat (by omega)

theorem compute_factor (v : Value) :
    v.factor.compute Operator.checked (fun n => (n.number : Int)) = .ok v.toInt := by
  have hv := v.least_le
  unfold factor
  split
  next m hm => rw [hm, Formula.compute, Numeral.number_ofNat]; rfl
  next m hm =>
    rw [hm, Int.negSucc_eq] at hv ⊢
    have h₁ : Operator.bounded ((0 : Int) - m) = .ok (-m) := by
      rw [Operator.bounded, if_pos (by omega), Int.zero_sub]
    have h₂ : Operator.bounded (-(m : Int) - 1) = .ok (-(m + 1)) := by
      rw [Operator.bounded, if_pos (by omega)]
      congr 1
      omega
    simp only [Formula.compute, Numeral.number_ofNat]
    change (Operator.bounded ((0 : Int) - m) >>= fun a => Operator.bounded (a - 1)) = _
    rw [h₁]
    exact h₂

end Value

/-- The factor that is written for an atom. -/
def Atom.factor (vars : Store) : Atom → Formula Numeral 3
  | numeral n => .operand n
  | name x => (vars.stored x.text).factor

namespace Expr
namespace Draft

/-- Takes in a text to its end and ends the name there. -/
def rewrite (vars : Store) (d : Draft) (text : Text) : Except Error Draft := do
  let d ← text.foldlM (next vars) d
  d.close vars

theorem next_delimiter {c : Char} (h : isDelimiter c = true) (vars : Store) (d : Draft) :
    d.next vars c = d.close vars >>= fun d => .ok (d.write c) := by
  rw [next, if_pos h]
  rfl

/-- The text before a delimiter is taken in to its end, as if nothing followed. -/
theorem rewrite_around {c : Char} (h : isDelimiter c = true) (vars : Store) (left right : Text)
    (d : Draft) : d.rewrite vars (left ++ c :: right) =
      d.rewrite vars left >>= fun d => (d.write c).rewrite vars right := by
  simp only [rewrite, List.foldlM_append, List.foldlM_cons, next_delimiter h, bind_assoc]
  rfl

theorem foldlM_kept {text : Text} (h : ∀ c ∈ text, isDelimiter c = true ∨ c.isDigit = true)
    (vars : Store) (written : Text) :
    text.foldlM (next vars) ⟨written, []⟩ = .ok ⟨text.reverse ++ written, []⟩ := by
  induction text generalizing written with
  | nil => rfl
  | cons c text ih =>
    have hc : next vars ⟨written, []⟩ c = .ok ⟨c :: written, []⟩ := by
      rcases h c List.mem_cons_self with hd | hd
      · rw [next_delimiter hd]
        rfl
      · unfold next
        split
        · rfl
        · simp [hd, write]
    rw [List.foldlM_cons, hc]
    change text.foldlM (next vars) ⟨c :: written, []⟩ = _
    rw [ih fun c hc => h c (List.mem_cons_of_mem _ hc)]
    simp

theorem rewrite_kept {text : Text} (h : ∀ c ∈ text, isDelimiter c = true ∨ c.isDigit = true)
    (vars : Store) (written : Text) :
    rewrite vars ⟨written, []⟩ text = .ok ⟨text.reverse ++ written, []⟩ := by
  rw [rewrite, foldlM_kept h]
  rfl

theorem isDelimiter_of_isBlank {c : Char} (h : Text.isBlank c = true) : isDelimiter c = true := by
  simp [isDelimiter, h]

theorem isDelimiter_symbol (op : Operator) : isDelimiter op.symbol = true := by
  cases op <;> rfl

theorem isDelimiter_of_isPart {c : Char} (h : Name.isPart c = true) : isDelimiter c = false := by
  rw [← Bool.not_eq_true]
  intro hd
  simp only [isDelimiter, Name.isBlank_of_isPart h, Bool.false_or, Bool.or_eq_true,
    beq_iff_eq] at hd
  rcases hd with (rfl | rfl) | hop
  · exact absurd h (by decide)
  · exact absurd h (by decide)
  · obtain ⟨op, hop⟩ := Option.isSome_iff_exists.1 hop
    rw [Operator.ofChar?_eq_some_iff.1 hop] at h
    cases op <;> exact absurd h (by decide)

theorem next_run {c : Char} (h : isDelimiter c = false) {d : Draft}
    (hd : c.isDigit = true → d.name ≠ []) (vars : Store) :
    d.next vars c = .ok { d with name := c :: d.name } := by
  rw [next, if_neg (by simp [h]), if_neg]
  rintro hc
  simp only [Bool.and_eq_true, List.isEmpty_iff] at hc
  exact hd hc.1 hc.2

theorem foldlM_run {text : Text} (h : ∀ c ∈ text, isDelimiter c = false) {d : Draft}
    (hd : d.name ≠ []) (vars : Store) :
    text.foldlM (next vars) d = .ok { d with name := text.reverse ++ d.name } := by
  induction text generalizing d with
  | nil => rfl
  | cons c text ih =>
    rw [List.foldlM_cons, next_run (h c List.mem_cons_self) fun _ => hd]
    change text.foldlM (next vars) { d with name := c :: d.name } = _
    rw [ih (fun c hc => h c (List.mem_cons_of_mem _ hc)) (by simp)]
    simp

/-- A name is held back until something ends it. -/
theorem foldlM_name {c : Char} (hc : isDelimiter c = false) (hd : c.isDigit = false) {rest : Text}
    (hrest : ∀ d ∈ rest, isDelimiter d = false) (vars : Store) (written : Text) :
    (c :: rest).foldlM (next vars) ⟨written, []⟩ = .ok ⟨written, (c :: rest).reverse⟩ := by
  rw [List.foldlM_cons, next_run hc (by simp [hd])]
  change rest.foldlM (next vars) ⟨written, [c]⟩ = _
  rw [foldlM_run hrest (by simp)]
  simp

theorem foldlM_identifier (x : Identifier) (vars : Store) (written : Text) :
    x.text ≠ [] ∧ x.text.foldlM (next vars) ⟨written, []⟩ = .ok ⟨written, x.text.reverse⟩ := by
  obtain ⟨c, rest, hx, hc, hrest⟩ := x.exists_cons
  rw [hx]
  exact ⟨List.cons_ne_nil _ _, foldlM_name (isDelimiter_of_isPart (Name.isPart_of_isStart hc))
    (Name.isDigit_of_isStart hc) (fun d hd => isDelimiter_of_isPart (hrest d hd)) vars written⟩

theorem rewrite_blanks {gap : Text} (h : ∀ c ∈ gap, Text.isBlank c = true) (vars : Store)
    {d : Draft} {written : Text} (hd : d.close vars = .ok ⟨written, []⟩) :
    d.rewrite vars gap = .ok ⟨gap.reverse ++ written, []⟩ := by
  cases gap with
  | nil => exact hd
  | cons c gap =>
    have hc := isDelimiter_of_isBlank (h c List.mem_cons_self)
    have hgap : ∀ c ∈ gap, isDelimiter c = true ∨ c.isDigit = true := fun c hc =>
      .inl (isDelimiter_of_isBlank (h c (List.mem_cons_of_mem _ hc)))
    have hread : d.rewrite vars ([] ++ c :: gap) = _ := rewrite_around hc vars [] gap d
    rw [List.nil_append] at hread
    rw [hread, show d.rewrite vars [] = d.close vars from rfl, hd]
    change rewrite vars ⟨c :: written, []⟩ gap = _
    rw [rewrite_kept hgap]
    simp

theorem rewrite_name {before after : Text} (hb : ∀ c ∈ before, Text.isBlank c = true)
    (ha : ∀ c ∈ after, Text.isBlank c = true) (x : Identifier) {vars : Store}
    (hx : vars.contains x.text = true) (written : Text) :
    rewrite vars ⟨written, []⟩ (before ++ x.text ++ after) =
      .ok ⟨(before ++ operand (vars.stored x.text) ++ after).reverse ++ written, []⟩ := by
  obtain ⟨hne, hname⟩ := foldlM_identifier x vars (before.reverse ++ written)
  have hread : (before ++ x.text).foldlM (next vars) ⟨written, []⟩ =
      .ok ⟨before.reverse ++ written, x.text.reverse⟩ := by
    rw [List.foldlM_append, foldlM_kept fun c hc => .inl (isDelimiter_of_isBlank (hb c hc))]
    exact hname
  have hclose : close vars ⟨before.reverse ++ written, x.text.reverse⟩ =
      .ok ⟨(operand (vars.stored x.text)).reverse ++ (before.reverse ++ written), []⟩ := by
    simp [close, hne, Store.valueOf_eq_stored hx, bind, Except.bind, pure, Except.pure]
  rw [rewrite, List.foldlM_append, hread]
  change rewrite vars ⟨before.reverse ++ written, x.text.reverse⟩ after = _
  rw [rewrite_blanks ha vars hclose]
  simp

/-- The text of a formula becomes a text of the formula with factors for its names. -/
theorem rewrite_formula {p : Nat} (vars : Store) (e : Formula Atom p)
    (hx : ∀ x, Atom.name x ∈ e.operands → vars.contains x.text = true) {s : Text}
    (hs : Spaced (e.lexemes Atom.text) s) :
    ∃ t, Spaced ((e.replace (Atom.factor vars)).lexemes Numeral.digits) t ∧
      ∀ written, rewrite vars ⟨written, []⟩ s = .ok ⟨t.reverse ++ written, []⟩ := by
  induction e generalizing s with
  | operand a =>
    obtain ⟨before, after, hb, ha, rfl⟩ := Spaced.singleton_iff.1 hs
    cases a with
    | numeral n =>
      refine ⟨_, hs, fun written => rewrite_kept (fun c hc => ?_) vars written⟩
      rcases List.mem_append.1 hc with hc | hc
      · rcases List.mem_append.1 hc with hc | hc
        · exact .inl (isDelimiter_of_isBlank (hb c hc))
        · exact .inr (n.isDigit_of_mem hc)
      · exact .inl (isDelimiter_of_isBlank (ha c hc))
    | name x =>
      have ht := Spaced.compact ((vars.stored x.text).factor.lexemes Numeral.digits) hb ha
      rw [Value.flatten_factor] at ht
      exact ⟨_, ht, rewrite_name hb ha x (hx x (by simp [Formula.operands]))⟩
  | group e ih =>
    obtain ⟨before, mid, after, hb, hm, ha, rfl⟩ := Spaced.enclosed_iff.1 hs
    obtain ⟨t, ht, hrun⟩ := ih hx hm
    refine ⟨_, Spaced.enclosed_iff.2 ⟨before, t, after, hb, ht, ha, rfl⟩, fun written => ?_⟩
    rw [rewrite_around rfl, rewrite_blanks hb vars rfl]
    change rewrite vars ⟨'(' :: (before.reverse ++ written), []⟩ _ = _
    rw [rewrite_around rfl, hrun]
    change rewrite vars ⟨')' :: _, []⟩ _ = _
    rw [rewrite_blanks ha vars rfl]
    simp
  | tight e ih => exact ih hx hs
  | binary op l r ihl ihr =>
    simp only [Formula.operands, List.mem_append] at hx
    obtain ⟨s₁, s₂, hl, hr, rfl⟩ := Spaced.around_iff.1 hs
    obtain ⟨t₁, ht₁, hrun₁⟩ := ihl (fun x hm => hx x (.inl hm)) hl
    obtain ⟨t₂, ht₂, hrun₂⟩ := ihr (fun x hm => hx x (.inr hm)) hr
    refine ⟨_, Spaced.around_iff.2 ⟨t₁, t₂, ht₁, ht₂, rfl⟩, fun written => ?_⟩
    rw [rewrite_around (isDelimiter_symbol op), hrun₁]
    change rewrite vars ⟨op.symbol :: _, []⟩ _ = _
    rw [hrun₂]
    simp

end Draft

theorem substitute_eq_rewrite (vars : Store) (s : Text) : substitute vars s = do
    let d ← Draft.rewrite vars ⟨[], []⟩ s
    return d.written.reverse := by
  simp only [substitute, Draft.rewrite, Draft.start, bind_assoc]

theorem substitute_formula {p : Nat} (vars : Store) (e : Formula Atom p)
    (hx : ∀ x, Atom.name x ∈ e.operands → vars.contains x.text = true) {s : Text}
    (hs : Spaced (e.lexemes Atom.text) s) :
    ∃ t, substitute vars s = .ok t ∧
      Spaced ((e.replace (Atom.factor vars)).lexemes Numeral.digits) t := by
  obtain ⟨t, ht, hrun⟩ := Draft.rewrite_formula vars e hx hs
  refine ⟨t, ?_, ht⟩
  rw [substitute_eq_rewrite, hrun []]
  simp [pure, Except.pure, bind, Except.bind]

end Expr

theorem Atom.find?_factor (vars : Store) (atoms : List Atom) :
    (atoms.flatMap fun a => (a.factor vars).operands).find? Numeral.isTooLarge =
      (atoms.filterMap numeral?).find? Numeral.isTooLarge := by
  induction atoms with
  | nil => rfl
  | cons a atoms ih =>
    rw [List.flatMap_cons, List.find?_append, ih]
    cases a with
    | numeral n =>
      simp only [factor, Formula.operands, List.filterMap_cons, numeral?, ← List.find?_append]
      rfl
    | name x =>
      have hnone : (vars.stored x.text).factor.operands.find? Numeral.isTooLarge = none := by
        simpa using fun n hn => Value.isTooLarge_factor hn
      rw [factor, hnone]
      rfl

theorem Formula.meaning_replace {p : Nat} (vars : Store) (e : Formula Atom p) :
    (e.replace (Atom.factor vars)).meaning some (fun n => n.number) =
      e.meaning Atom.numeral? (Atom.value vars) := by
  have hcompute : (e.replace (Atom.factor vars)).compute Operator.checked (fun n => n.number) =
      e.compute Operator.checked (Atom.value vars) := by
    refine compute_replace e fun a _ => ?_
    cases a with
    | numeral n => rfl
    | name x => exact Value.compute_factor _
  simp only [meaning, List.filterMap_some, operands_replace, Atom.find?_factor, hcompute]

theorem Value.map_toInt_inj {r r' : Except Error Value} (h : r.map toInt = r'.map toInt) :
    r = r' := by
  cases r with
  | error e =>
    cases r' with
    | error e' =>
      cases h
      rfl
    | ok v => cases h
  | ok v =>
    cases r' with
    | error e => cases h
    | ok w => exact congrArg Except.ok (Value.ext (Except.ok.inj h))

namespace Expr

/-- The text written for a value evaluates to it. -/
theorem evaluate_operand (v : Value) : evaluate (operand v) = .ok v := by
  have hs : Spaced (v.factor.lexemes Numeral.digits)
      ([] ++ (v.factor.lexemes Numeral.digits).flatten ++ []) :=
    Spaced.compact _ (by simp) (by simp)
  rw [Value.flatten_factor, List.nil_append, List.append_nil] at hs
  have hdepth := v.depth_factor_le
  have hnone : v.factor.operands.find? Numeral.isTooLarge = none := by
    simpa using fun n hn => Value.isTooLarge_factor hn
  have hvalue :=
    evaluate_spaced (.tight (.tight v.factor)) (by simp only [Formula.depth]; omega) hs
  simp only [Formula.meaning, Formula.operands, Formula.compute, List.filterMap_some, hnone,
    Value.compute_factor] at hvalue
  exact Value.map_toInt_inj hvalue

/-- The numeral in the text of a negative value is found without leaving 32 bits. -/
theorem operand_negative {v : Value} (hv : v.toInt < 0) :
    ∃ next n : Value, next.toInt = v.toInt + 1 ∧ n.toInt = -next.toInt ∧
      operand v = "(0-".toList ++ n.text ++ "-1)".toList := by
  have hleast := v.least_le
  obtain ⟨n, hn⟩ := Int.eq_negSucc_of_lt_zero hv
  have htext : -(v.toInt + 1) = Int.ofNat n := by
    rw [hn, Int.negSucc_eq, Int.ofNat_eq_natCast]
    omega
  refine ⟨⟨v.toInt + 1, by omega, by omega⟩, ⟨.ofNat n, by omega, by omega⟩, rfl, htext.symm, ?_⟩
  simp only [operand, hn]
  rfl

/-- A text of a formula in variables can be substituted, and the result evaluates to what the
formula stands for. Writing a negative value as a difference is no overflow. -/
theorem evaluate_substitute_formula (vars : Store) (e : Formula Atom 1) (hd : e.depth ≤ 21843)
    (hx : ∀ x, Atom.name x ∈ e.operands → vars.contains x.text = true) (s : Text)
    (hs : Spaced (e.lexemes Atom.text) s) :
    (∃ t, substitute vars s = .ok t ∧
      (evaluate t).map Value.toInt = e.meaning Atom.numeral? (Atom.value vars)) ∧
    ∀ v : Value, v.toInt < 0 → evaluate (operand v) = .ok v ∧
      ∃ next n : Value, next.toInt = v.toInt + 1 ∧ n.toInt = -next.toInt ∧
        operand v = "(0-".toList ++ n.text ++ "-1)".toList := by
  refine ⟨?_, fun v hv => ⟨evaluate_operand v, operand_negative hv⟩⟩
  obtain ⟨t, hsub, ht⟩ := substitute_formula vars e hx hs
  have hdepth : (e.replace (Atom.factor vars)).depth ≤ e.depth + 1 := by
    refine e.depth_replace_le fun a _ => ?_
    cases a with
    | numeral n => exact Nat.zero_le 1
    | name x => exact Value.depth_factor_le _
  refine ⟨t, hsub, ?_⟩
  rw [evaluate_spaced _ (by omega) ht, Formula.meaning_replace]

/-- A variable that is only declared holds the least value; it is divided before anything is added
to it. -/
theorem evaluate_substitute_formula_least :
    ∃ vars, Store.empty.declare "X1".toList = .ok vars ∧ vars.contains "X1".toList = true ∧
      ∃ t, substitute vars "5 +\u3000X1/3*2 ".toList = .ok t ∧
        (evaluate t).map Value.toInt = .ok (-1431655759) := by
  let x : Identifier := ⟨"X1".toList, by decide⟩
  let e : Formula Atom 1 :=
    .binary .add (.tight (.tight (.operand (.numeral (.ofNat 5)))))
      (.binary .mul
        (.binary .div (.tight (.operand (.name x))) (.operand (.numeral (.ofNat 3))))
        (.operand (.numeral (.ofNat 2))))
  have hs : Spaced (e.lexemes Atom.text) "5 +\u3000X1/3*2 ".toList :=
    .next [] (List.all_eq_true.1 rfl) ['5'] <|
    .next [' '] (List.all_eq_true.1 rfl) ['+'] <|
    .next ['\u3000'] (List.all_eq_true.1 rfl) ['X', '1'] <|
    .next [] (List.all_eq_true.1 rfl) ['/'] <|
    .next [] (List.all_eq_true.1 rfl) ['3'] <|
    .next [] (List.all_eq_true.1 rfl) ['*'] <|
    .next [] (List.all_eq_true.1 rfl) ['2'] <|
    .last [' '] (List.all_eq_true.1 rfl)
  obtain ⟨vars, hvars⟩ : ∃ vars, Store.empty.declare x.text = .ok vars := ⟨_, rfl⟩
  have hlookup : vars.lookup? x.text = some .fresh := by
    rw [Store.lookup?_of_declare hvars, if_pos rfl]
  have hcontains : vars.contains x.text = true := by
    rw [Store.contains_eq, hlookup]
    rfl
  have hx : ∀ y, Atom.name y ∈ e.operands → vars.contains y.text = true := by
    intro y hy
    obtain rfl : y = x := by simpa [e, Formula.operands] using hy
    exact hcontains
  have hstored : vars.stored x.text = .least := by
    rw [Store.stored, hlookup]
    rfl
  have hm : e.meaning Atom.numeral? (Atom.value vars) = .ok (-1431655759) := by
    have hvalue : Atom.value vars (.name x) = -2147483648 := by
      rw [Atom.value, hstored]
      rfl
    simp only [Formula.meaning, e, Formula.compute, hvalue]
    rfl
  obtain ⟨t, ht, hvalue⟩ := (evaluate_substitute_formula vars e (by decide) hx _ hs).1
  exact ⟨vars, hvars, hcontains, t, ht, hvalue.trans hm⟩

end Expr
end LineScript
