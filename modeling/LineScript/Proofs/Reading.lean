import LineScript.Expr.Token
import LineScript.Proofs.Formula

/-!
Reading the text of a formula. A numeral is ended only by the character after it, so what is said
about a text is said of reading it and then ending the numeral; under that reading, texts on the
two sides of a symbol are read one after the other.
-/
namespace LineScript

namespace Text

theorem toNat_of_isDigit {c : Char} (h : c.isDigit = true) : 48 ≤ c.toNat ∧ c.toNat ≤ 57 := by
  simpa [Char.isDigit, UInt32.le_iff_toNat_le] using h

theorem isDigit_of_isBlank {c : Char} (h : isBlank c = true) : c.isDigit = false := by
  rw [← Bool.not_eq_true]
  intro hd
  have hn := toNat_of_isDigit hd
  simp only [isBlank, Bool.or_eq_true, Bool.and_eq_true, decide_eq_true_eq, beq_iff_eq] at h
  omega

end Text

namespace Token

theorem ofChar?_symbol (op : Operator) : ofChar? op.symbol = some (operator op) := by
  cases op <;> rfl

namespace Scan

/-- Reads a text to its end and ends the numeral there. -/
def read (s : Scan) (text : Text) : Except Error Scan := do
  let s ← text.foldlM next s
  s.close

theorem read_cons (s : Scan) (c : Char) (text : Text) :
    s.read (c :: text) = s.next c >>= fun s => s.read text := by
  simp only [read, List.foldlM_cons, bind_assoc]

theorem next_blank {c : Char} (h : Text.isBlank c = true) (s : Scan) : s.next c = s.close := by
  simp [next, Text.isDigit_of_isBlank h, h]

/-- A symbol ends the numeral and is a token by itself. -/
theorem next_symbol {c : Char} {t : Token} (ht : ofChar? c = some t)
    (hd : c.isDigit = false) (hb : Text.isBlank c = false) (s : Scan) :
    s.next c = do
      let s ← s.close
      return { s with tokens := t :: s.tokens } := by
  simp [next, hd, hb, ht]

theorem digits_of_close {s t : Scan} (h : s.close = .ok t) : t.digits = [] := by
  unfold close at h
  split at h
  next he =>
    cases h
    simpa using he
  next =>
    cases hv : Value.ofDigits s.digits.reverse with
    | error e =>
      rw [hv] at h
      cases h
    | ok v =>
      rw [hv] at h
      cases h
      rfl

theorem close_close (s : Scan) : s.close.bind close = s.close := by
  cases h : s.close with
  | error e => rfl
  | ok t =>
    show t.close = .ok t
    rw [close, digits_of_close h]
    rfl

theorem read_blanks {gap : Text} (h : ∀ c ∈ gap, Text.isBlank c = true) (s : Scan) :
    s.read gap = s.close := by
  induction gap generalizing s with
  | nil => rfl
  | cons c gap ih =>
    have hgap : ∀ t : Scan, t.read gap = t.close :=
      ih fun c hc => h c (List.mem_cons_of_mem _ hc)
    calc s.read (c :: gap)
        = (s.next c).bind fun t => t.read gap := s.read_cons c gap
      _ = s.close := by
          rw [next_blank (h c List.mem_cons_self), funext hgap]
          exact close_close s

theorem foldlM_blanks {gap : Text} (h : ∀ c ∈ gap, Text.isBlank c = true) (ts : List Token) :
    gap.foldlM next ⟨[], ts⟩ = .ok ⟨[], ts⟩ := by
  induction gap with
  | nil => rfl
  | cons c gap ih =>
    rw [List.foldlM_cons, next_blank (h c List.mem_cons_self)]
    exact ih fun c hc => h c (List.mem_cons_of_mem _ hc)

theorem foldlM_digits {digits : Text} (h : ∀ c ∈ digits, c.isDigit = true) (s : Scan) :
    digits.foldlM next s = .ok { s with digits := digits.reverse ++ s.digits } := by
  induction digits generalizing s with
  | nil => rfl
  | cons c digits ih =>
    have hc : s.next c = .ok { s with digits := c :: s.digits } := by
      simp [next, h c List.mem_cons_self]
    rw [List.foldlM_cons, hc]
    change digits.foldlM next { s with digits := c :: s.digits } = _
    rw [ih fun c hc => h c (List.mem_cons_of_mem _ hc)]
    simp

/-- The text before a symbol is read to its end, as if nothing followed. -/
theorem read_around {c : Char} {t : Token} (ht : ofChar? c = some t)
    (hd : c.isDigit = false) (hb : Text.isBlank c = false) (left right : Text) (s : Scan) :
    s.read (left ++ c :: right) =
      s.read left >>= fun s => read { s with tokens := t :: s.tokens } right := by
  simp only [read, List.foldlM_append, List.foldlM_cons, next_symbol ht hd hb, bind_assoc,
    pure_bind]

theorem read_numeral {before after : Text} (hb : ∀ c ∈ before, Text.isBlank c = true)
    (ha : ∀ c ∈ after, Text.isBlank c = true) (n : Numeral) (ts : List Token) :
    read ⟨[], ts⟩ (before ++ n.digits ++ after) = do
      let v ← Value.ofDigits n.digits
      return ⟨[], number v :: ts⟩ := by
  have hread : ((before ++ n.digits).foldlM next ⟨[], ts⟩ : Except Error Scan) =
      .ok ⟨n.digits.reverse, ts⟩ := by
    rw [List.foldlM_append, foldlM_blanks hb]
    change n.digits.foldlM next ⟨[], ts⟩ = _
    rw [foldlM_digits fun c hc => n.isDigit_of_mem hc]
    simp
  rw [read, List.foldlM_append, hread]
  change read ⟨n.digits.reverse, ts⟩ after = _
  rw [read_blanks ha]
  simp [close, n.digits_ne_nil]

end Scan
end Token

/-- The tokens of a formula in values. -/
def Formula.tokens : {p : Nat} → Formula Value p → List Token
  | _, operand v => [.number v]
  | _, group e => .opening :: (e.tokens ++ [.closing])
  | _, tight e => e.tokens
  | _, binary op l r => l.tokens ++ .operator op :: r.tokens

namespace Token

/-- A formula is read as its tokens, unless one of its numerals has no value. -/
theorem Scan.read_formula {p : Nat} (e : Formula Numeral p) {s : Text}
    (hs : Spaced (e.lexemes Numeral.digits) s) (ts : List Token) :
    Scan.read ⟨[], ts⟩ s = do
      let e ← e.mapM fun n => Value.ofDigits n.digits
      return ⟨[], e.tokens.reverse ++ ts⟩ := by
  induction e generalizing s ts with
  | operand n =>
    obtain ⟨before, after, hb, ha, rfl⟩ := Spaced.singleton_iff.1 hs
    rw [read_numeral hb ha, Formula.mapM]
    simp [Formula.tokens]
  | group e ih =>
    obtain ⟨before, mid, after, hb, hm, ha, rfl⟩ := Spaced.enclosed_iff.1 hs
    have hopen : Scan.read ⟨[], ts⟩ before = .ok ⟨[], ts⟩ :=
      read_blanks hb ⟨[], ts⟩
    rw [read_around (t := opening) rfl rfl rfl, hopen]
    change Scan.read ⟨[], opening :: ts⟩ _ = _
    rw [read_around (t := closing) rfl rfl rfl, ih hm, Formula.mapM]
    simp only [bind_assoc, pure_bind]
    congr
    funext e
    rw [read_blanks ha]
    simp [close, Formula.tokens, pure, Except.pure]
  | tight e ih =>
    rw [ih hs, Formula.mapM]
    simp [Formula.tokens]
  | binary op l r ihl ihr =>
    obtain ⟨s₁, s₂, hl, hr, rfl⟩ := Spaced.around_iff.1 hs
    have hd : op.symbol.isDigit = false := by cases op <;> rfl
    have hb : Text.isBlank op.symbol = false := by cases op <;> rfl
    rw [read_around (ofChar?_symbol op) hd hb, ihl hl, Formula.mapM]
    simp only [bind_assoc, pure_bind, ihr hr]
    simp [Formula.tokens]

theorem readAll_eq_read (s : Text) : readAll s = do
    let scan ← Scan.read ⟨[], []⟩ s
    return scan.tokens.reverse := by
  simp only [readAll, Scan.read, Scan.start, bind_assoc]

theorem readAll_formula {p : Nat} (e : Formula Numeral p) {s : Text}
    (hs : Spaced (e.lexemes Numeral.digits) s) :
    readAll s = do
      let e ← e.mapM fun n => Value.ofDigits n.digits
      return e.tokens := by
  rw [readAll_eq_read, Scan.read_formula e hs]
  simp

end Token
end LineScript
