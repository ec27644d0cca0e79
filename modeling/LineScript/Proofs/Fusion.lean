import LineScript.Proofs.Lexemes

/-!
What becomes of the lexemes of a text when values are put for its names. A name ends at a
delimiter, so its value cannot run into what follows. It can run into a literal that stands
directly before it, and does so unless the value is negative.
-/
namespace LineScript.Expr

namespace Lexeme

/-- The lexemes of the text that is written for a value. -/
def ofValue (v : Value) : List Lexeme :=
  match v.toInt with
  | .ofNat n => [literal (Text.ofNat n)]
  | .negSucc n =>
    [delimiter '(', literal ['0'], delimiter '-', literal (Text.ofNat n), delimiter '-',
      literal ['1'], delimiter ')']

/-- The lexemes of its value for a name, and any other lexeme as it is. -/
def replaced (vars : Store) : Lexeme → List Lexeme
  | name x => ofValue (vars.stored x)
  | l => [l]

end Lexeme

/-- Digits before lexemes; a literal that comes first continues them. -/
def attach (digits : Text) : List Lexeme → List Lexeme
  | .literal more :: ls => .literal (digits ++ more) :: ls
  | ls => .literal digits :: ls

/-- The lexemes after a substitution. -/
def fused (vars : Store) : List Lexeme → List Lexeme
  | [] => []
  | .literal digits :: ls => attach digits (fused vars ls)
  | .name x :: ls => Lexeme.ofValue (vars.stored x) ++ fused vars ls
  | .delimiter c :: ls => .delimiter c :: fused vars ls

/-- A literal stands directly before the name of a value that is not negative. -/
def Clashes (vars : Store) (ls : List Lexeme) : Prop :=
  ∃ digits x, [.literal digits, .name x] <:+: ls ∧ 0 ≤ (vars.stored x).toInt

theorem attach_of_not_literal {ls : List Lexeme} (h : ∀ more rest, ls ≠ .literal more :: rest)
    (digits : Text) : attach digits ls = .literal digits :: ls := by
  unfold attach
  split
  next more rest => exact absurd rfl (h more rest)
  next => rfl

theorem lexemes_of_endsDigits {s : Text} (h : EndsDigits s) :
    ∀ more rest, lexemes s ≠ .literal more :: rest := by
  intro more rest hs
  have hlexed := lexed s
  rw [hs] at hlexed
  cases hlexed with
  | literal hne hd _ _ => exact not_endsDigits hne hd _ h

theorem lexemes_digits {digits : Text} (hne : digits ≠ []) (hd : ∀ c ∈ digits, c.isDigit = true)
    (s : Text) : lexemes (digits ++ s) = attach digits (lexemes s) := by
  obtain ⟨c, digits, rfl⟩ := List.exists_cons_of_ne_nil hne
  obtain ⟨hc, hd⟩ := List.forall_mem_cons.1 hd
  have hfirst (s : Text) {c : Char} (hc : c.isDigit = true) : first c s =
      (.literal (c :: s.takeWhile Char.isDigit), s.dropWhile Char.isDigit) := by
    simp [first, isDelimiter_of_isDigit hc, hc]
  rw [List.cons_append, lexemes, hfirst _ hc, List.takeWhile_append_of_pos hd,
    List.dropWhile_append_of_pos hd]
  cases s with
  | nil => simp [lexemes, attach]
  | cons e s =>
    cases he : e.isDigit with
    | true => simp [lexemes, hfirst s he, he, attach]
    | false =>
      rw [attach_of_not_literal (lexemes_of_endsDigits (endsDigits_cons he s))]
      simp [he]

/-- The text of a value has the lexemes of the value, unless more digits follow. -/
theorem lexemes_operand (v : Value) {s : Text} (hs : EndsRun s) :
    lexemes (operand v ++ s) = Lexeme.ofValue v ++ lexemes s := by
  have hdigits (n : Nat) {s : Text} (hs : EndsDigits s) :
      lexemes (Text.ofNat n ++ s) = .literal (Text.ofNat n) :: lexemes s := by
    have hne : Text.ofNat n ≠ [] := (Numeral.ofNat n).digits_ne_nil
    have hd : ∀ c ∈ Text.ofNat n, c.isDigit = true := fun c hc =>
      (Numeral.ofNat n).isDigit_of_mem hc
    rw [lexemes_digits hne hd, attach_of_not_literal (lexemes_of_endsDigits hs)]
  unfold operand Lexeme.ofValue
  cases v.toInt with
  | ofNat n => exact hdigits n (endsDigits_of_endsRun hs)
  | negSucc n =>
    have htext : "(0-".toList ++ Text.ofNat n ++ "-1)".toList ++ s =
        '(' :: (Text.ofNat 0 ++ '-' :: (Text.ofNat n ++ '-' :: (Text.ofNat 1 ++ ')' :: s))) := by
      simp [show Text.ofNat 0 = ['0'] from rfl, show Text.ofNat 1 = ['1'] from rfl]
    dsimp only
    rw [htext, lexemes_delimiter rfl, hdigits 0 (endsDigits_cons rfl _), lexemes_delimiter rfl,
      hdigits n (endsDigits_cons rfl _), lexemes_delimiter rfl, hdigits 1 (endsDigits_cons rfl _),
      lexemes_delimiter rfl]
    rfl

theorem endsRun_flatMap {s : Text} {ls : List Lexeme} (h : Lexed s ls) (hs : EndsRun s)
    (vars : Store) : EndsRun (ls.flatMap (Lexeme.spelled vars)) := by
  cases h with
  | nil => nofun
  | delimiter hc _ =>
    rintro d ⟨⟩
    exact hc
  | literal hne hd _ _ => exact absurd (endsDigits_of_endsRun hs) (not_endsDigits hne hd _)
  | @name c x s ls hc _ _ _ _ =>
    have hrun : isDelimiter c = true := hs c rfl
    rw [hc] at hrun
    cases hrun

/-- The text with values for names has these lexemes. -/
theorem lexemes_flatMap {s : Text} {ls : List Lexeme} (h : Lexed s ls) (vars : Store) :
    lexemes (ls.flatMap (Lexeme.spelled vars)) = fused vars ls := by
  induction h with
  | nil => rw [List.flatMap_nil, lexemes, fused]
  | delimiter hc h ih =>
    rw [List.flatMap_cons, fused, ← ih]
    exact lexemes_delimiter hc _
  | literal hne hd hs h ih =>
    rw [List.flatMap_cons, fused, ← ih]
    exact lexemes_digits hne hd _
  | name hc hd hx hs h ih =>
    rw [List.flatMap_cons, fused, ← ih]
    exact lexemes_operand _ (endsRun_flatMap h hs vars)

theorem clashes_cons {vars : Store} {l : Lexeme} {ls : List Lexeme} :
    Clashes vars (l :: ls) ↔ (∃ digits x rest, l = .literal digits ∧ ls = .name x :: rest ∧
      0 ≤ (vars.stored x).toInt) ∨ Clashes vars ls := by
  constructor
  · rintro ⟨digits, x, hinfix, hx⟩
    rcases List.infix_cons_iff.1 hinfix with ⟨rest, hrest⟩ | hinfix
    · cases hrest
      exact .inl ⟨digits, x, rest, rfl, rfl, hx⟩
    · exact .inr ⟨digits, x, hinfix, hx⟩
  · rintro (⟨digits, x, rest, rfl, rfl, hx⟩ | ⟨digits, x, hinfix, hx⟩)
    · exact ⟨digits, x, ⟨[], rest, rfl⟩, hx⟩
    · exact ⟨digits, x, hinfix.trans (List.suffix_cons l ls).isInfix, hx⟩

theorem not_clashes_nil (vars : Store) : ¬Clashes vars [] := by
  rintro ⟨digits, x, hinfix, -⟩
  simp at hinfix

theorem significant_ofValue (v : Value) :
    significant (Lexeme.ofValue v) = Lexeme.ofValue v := by
  unfold Lexeme.ofValue
  cases v.toInt <;> rfl

theorem significant_replaced {vars : Store} {l : Lexeme} (h : l.isBlank = false) :
    significant (l.replaced vars) = l.replaced vars := by
  cases l with
  | literal digits => rfl
  | name x => exact significant_ofValue _
  | delimiter c => simp [Lexeme.replaced, significant, h]

theorem significant_flatMap (vars : Store) (ls : List Lexeme) :
    significant (ls.flatMap (Lexeme.replaced vars)) =
      (significant ls).flatMap (Lexeme.replaced vars) := by
  induction ls with
  | nil => rfl
  | cons l ls ih =>
    rw [List.flatMap_cons, significant_append, ih, significant_cons]
    cases h : l.isBlank with
    | false => simp [significant_replaced h]
    | true =>
      cases l with
      | literal digits => cases h
      | name x => cases h
      | delimiter c => simp [Lexeme.replaced, significant, h]

/-- Without a clash nothing is fused. -/
theorem fused_of_not_clashes {vars : Store} {s : Text} {ls : List Lexeme} (h : Lexed s ls)
    (hc : ¬Clashes vars ls) : fused vars ls = ls.flatMap (Lexeme.replaced vars) := by
  induction h with
  | nil => rfl
  | delimiter _ h ih =>
    rw [fused, ih fun hclash => hc (clashes_cons.2 (.inr hclash))]
    rfl
  | @literal digits s ls hne hd hs h ih =>
    have hrest : ∀ more rest, fused vars ls ≠ .literal more :: rest := by
      intro more rest
      cases h with
      | nil => simp [fused]
      | delimiter => simp [fused]
      | literal hne' hd' _ _ => exact absurd hs (not_endsDigits hne' hd' _)
      | @name c x s ls _ _ _ _ _ =>
        have hx : (vars.stored (c :: x)).toInt < 0 := by
          by_contra hx
          exact hc (clashes_cons.2 (.inl ⟨digits, c :: x, ls, rfl, rfl, by omega⟩))
        obtain ⟨n, hn⟩ := Int.eq_negSucc_of_lt_zero hx
        simp [fused, Lexeme.ofValue, hn]
    rw [fused, attach_of_not_literal hrest, ih fun hclash => hc (clashes_cons.2 (.inr hclash))]
    rfl
  | name _ _ _ _ h ih =>
    rw [fused, ih fun hclash => hc (clashes_cons.2 (.inr hclash))]
    rfl

theorem length_attach_le (digits : Text) (ls : List Lexeme) :
    (significant (attach digits ls)).length ≤ (significant ls).length + 1 := by
  unfold attach
  split <;> simp [significant_cons, Lexeme.isBlank]

theorem length_fused_cons_le (vars : Store) (l : Lexeme) (ls : List Lexeme) :
    (significant (fused vars (l :: ls))).length ≤
      (significant (l.replaced vars)).length + (significant (fused vars ls)).length := by
  rw [← List.length_append, ← significant_append]
  cases l with
  | literal digits =>
    have hattach := length_attach_le digits (fused vars ls)
    simpa [fused, Lexeme.replaced, significant_cons, Lexeme.isBlank] using hattach
  | name x => exact Nat.le_refl _
  | delimiter c => exact Nat.le_refl _

theorem length_fused_le (vars : Store) (ls : List Lexeme) : (significant (fused vars ls)).length ≤
    (significant (ls.flatMap (Lexeme.replaced vars))).length := by
  induction ls with
  | nil => exact Nat.le_refl _
  | cons l ls ih =>
    have hcons := length_fused_cons_le vars l ls
    rw [List.flatMap_cons, significant_append, List.length_append]
    omega

/-- At a clash two lexemes become one. -/
theorem length_fused_lt {vars : Store} {ls : List Lexeme} (h : Clashes vars ls) :
    (significant (fused vars ls)).length <
      (significant (ls.flatMap (Lexeme.replaced vars))).length := by
  induction ls with
  | nil => exact absurd h (not_clashes_nil vars)
  | cons l ls ih =>
    rw [List.flatMap_cons, significant_append, List.length_append]
    rcases clashes_cons.1 h with ⟨digits, x, rest, rfl, rfl, hx⟩ | hrest
    · obtain ⟨n, hn⟩ := Int.eq_ofNat_of_zero_le hx
      have hvalue : Lexeme.ofValue (vars.stored x) = [.literal (Text.ofNat n)] := by
        simp [Lexeme.ofValue, hn]
      have hle := length_fused_le vars rest
      have hfused : fused vars (.literal digits :: .name x :: rest) =
          .literal (digits ++ Text.ofNat n) :: fused vars rest := by
        simp [fused, hvalue, attach]
      have hone : (significant (Lexeme.replaced vars (.literal digits))).length = 1 := rfl
      have hname : (significant (Lexeme.replaced vars (.name x))).length = 1 := by
        rw [Lexeme.replaced, hvalue]
        rfl
      have hlength : (significant (fused vars (.literal digits :: .name x :: rest))).length =
          (significant (fused vars rest)).length + 1 := by
        rw [hfused]
        rfl
      rw [hlength, List.flatMap_cons, significant_append, List.length_append, hone, hname]
      omega
    · have hcons := length_fused_cons_le vars l ls
      have hlt := ih hrest
      omega

/-- What a substitution makes of the lexemes of a text. Each name gives way to the lexemes of its
value and every other lexeme stays, exactly if no literal stands directly before the name of a
value that is not negative; such a literal and the value become one. The tokens are read off the
lexemes in either case. -/
theorem substitute_keeps_lexemes_iff (vars : Store) (s t : Text) (h : substitute vars s = .ok t) :
    Token.readAll t = (significant (lexemes t)).mapM Lexeme.token ∧
    lexemes t = fused vars (lexemes s) ∧
    (significant (lexemes t) = (significant (lexemes s)).flatMap (Lexeme.replaced vars) ↔
      ¬Clashes vars (lexemes s)) := by
  have hfused : lexemes t = fused vars (lexemes s) := by
    rw [eq_of_substitute h]
    exact lexemes_flatMap (lexed s) vars
  refine ⟨readAll_eq_mapM t, hfused, ?_⟩
  rw [hfused, ← significant_flatMap]
  constructor
  · intro hsame hclash
    have hlt := length_fused_lt hclash
    rw [hsame] at hlt
    omega
  · intro hclash
    rw [fused_of_not_clashes (lexed s) hclash]

/-- A literal before the name of a negative value, which is written in parentheses. -/
theorem substitute_keeps_lexemes_iff_negative :
    ∃ vars, Store.empty.declare ['N'] = .ok vars ∧
      ∃ t, substitute vars "2N *7".toList = .ok t ∧
        significant (lexemes t) = [.literal ['2'], .delimiter '(', .literal ['0'], .delimiter '-',
          .literal "2147483647".toList, .delimiter '-', .literal ['1'], .delimiter ')',
          .delimiter '*', .literal ['7']] := by
  let vars : Store := ⟨Store.empty.table.insert ['N'] .fresh⟩
  have hstored : vars.stored ['N'] = .least := by decide +kernel
  have hlexemes : lexemes "2N *7".toList =
      [.literal ['2'], .name ['N'], .delimiter ' ', .delimiter '*', .literal ['7']] := by
    decide +kernel
  have hsub : substitute vars "2N *7".toList = .ok "2(0-2147483647-1) *7".toList := by
    decide +kernel
  have hclash : ¬Clashes vars (lexemes "2N *7".toList) := by
    rw [hlexemes]
    simp [clashes_cons, not_clashes_nil, hstored, Value.least]
  refine ⟨vars, rfl, _, hsub, ?_⟩
  rw [(substitute_keeps_lexemes_iff vars _ _ hsub).2.2.2 hclash, hlexemes]
  rfl

/-- Two operands without an operator between them are read as one number. -/
theorem substitute_fuses :
    let three : Value := ⟨3, by decide, by decide⟩
    ∃ vars, (Store.empty.declare ['X'] >>= Store.assign ['X'] three) = .ok vars ∧
      substitute vars "2X".toList = .ok "23".toList ∧
      significant (lexemes "23".toList) = [.literal "23".toList] ∧
      (significant (lexemes "2X".toList)).flatMap (Lexeme.replaced vars) =
        [.literal ['2'], .literal ['3']] ∧
      (evaluateIn vars "2X".toList).map Value.toInt = .ok 23 := by
  intro three
  refine ⟨_, rfl, ?_, ?_, ?_, ?_⟩
  · decide +kernel
  · decide +kernel
  · decide +kernel
  · decide +kernel

end LineScript.Expr
