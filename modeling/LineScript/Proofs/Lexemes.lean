import Mathlib.Data.List.TakeWhile
import LineScript.Proofs.Substitution

/-!
The lexemes of an arithmetic text in variables. Reading tokens and putting values for names both go
through a text character by character and hold back what may go on; here each is found to work
lexeme by lexeme.
-/
namespace LineScript.Expr

inductive Lexeme where
  | literal (digits : Text)
  | name (x : Text)
  /-- A parenthesis, an operator or a blank. -/
  | delimiter (c : Char)
  deriving DecidableEq

/-- The lexeme that a character starts, and what follows it. A digit starts the longest run of
digits, and a character that is neither a digit nor a delimiter starts a name, which goes on to the
next delimiter. -/
def first (c : Char) (s : Text) : Lexeme × Text :=
  if isDelimiter c then (.delimiter c, s)
  else if c.isDigit then
    (.literal (c :: s.takeWhile Char.isDigit), s.dropWhile Char.isDigit)
  else
    (.name (c :: s.takeWhile fun d => !isDelimiter d), s.dropWhile fun d => !isDelimiter d)

theorem length_first_le (c : Char) (s : Text) : (first c s).2.length ≤ s.length := by
  unfold first
  split
  · exact Nat.le_refl _
  · split
    · exact (List.dropWhile_sublist _).length_le
    · exact (List.dropWhile_sublist _).length_le

/-- The lexemes of a text from left to right. -/
def lexemes : Text → List Lexeme
  | [] => []
  | c :: s => (first c s).1 :: lexemes (first c s).2
termination_by s => s.length
decreasing_by exact Nat.lt_succ_of_le (length_first_le c s)

/-- A text goes on with something other than a digit, or not at all. -/
def EndsDigits (s : Text) : Prop :=
  ∀ c ∈ s.head?, c.isDigit = false

/-- A text goes on with a delimiter, or not at all. -/
def EndsRun (s : Text) : Prop :=
  ∀ c ∈ s.head?, isDelimiter c = true

namespace Lexeme

def isBlank : Lexeme → Bool
  | delimiter c => Text.isBlank c
  | _ => false

/-- The error of a text whose first character begins no token. -/
def unexpected (s : Text) : Error :=
  .about .malformed ("UNEXPECTED ".toList ++ (s.take 1).flatMap Text.quoted)

/-- The token that a lexeme is; a name is none. -/
def token : Lexeme → Except Error Token
  | literal digits => (Value.ofDigits digits).map .number
  | name x => .error (unexpected x)
  | delimiter c =>
    match Token.ofChar? c with
    | some t => .ok t
    | none => .error (unexpected [c])

/-- The text that a lexeme becomes when values are put for names. -/
def spliced (vars : Store) : Lexeme → Except Error Text
  | literal digits => .ok digits
  | name x => (vars.valueOf x).map operand
  | delimiter c => .ok [c]

/-- The text of a lexeme with the value that is stored under its name. -/
def spelled (vars : Store) : Lexeme → Text
  | literal digits => digits
  | name x => operand (vars.stored x)
  | delimiter c => [c]

end Lexeme

/-- The lexemes that tokens come of. -/
def significant (ls : List Lexeme) : List Lexeme :=
  ls.filter fun l => !l.isBlank

@[simp]
theorem significant_nil : significant [] = [] :=
  rfl

theorem significant_cons (l : Lexeme) (ls : List Lexeme) :
    significant (l :: ls) = if l.isBlank then significant ls else l :: significant ls := by
  cases h : l.isBlank <;> simp [significant, h]

theorem significant_append (ls ls' : List Lexeme) :
    significant (ls ++ ls') = significant ls ++ significant ls' :=
  List.filter_append ..

theorem isDelimiter_of_isDigit {c : Char} (h : c.isDigit = true) : isDelimiter c = false :=
  Draft.isDelimiter_of_isPart (by simp [Name.isPart, h])

theorem exists_token_of_isDelimiter {c : Char} (h : isDelimiter c = true)
    (hb : Text.isBlank c = false) : ∃ t, Token.ofChar? c = some t := by
  unfold Token.ofChar?
  split
  · exact ⟨_, rfl⟩
  · exact ⟨_, rfl⟩
  next h₁ h₂ =>
    simp only [isDelimiter, hb, Bool.false_or, Bool.or_eq_true, beq_iff_eq] at h
    obtain ⟨op, hop⟩ := Option.isSome_iff_exists.1 (h.resolve_left (not_or.2 ⟨h₁, h₂⟩))
    exact ⟨.operator op, by simp [hop]⟩

theorem ofChar?_of_not_isDelimiter {c : Char} (h : isDelimiter c = false) :
    Token.ofChar? c = none := by
  simp only [isDelimiter, Bool.or_eq_false_iff, beq_eq_false_iff_ne] at h
  obtain ⟨⟨⟨-, hopening⟩, hclosing⟩, hop⟩ := h
  unfold Token.ofChar?
  split
  · contradiction
  · contradiction
  · simpa using hop

theorem endsDigits_cons {c : Char} (h : c.isDigit = false) (s : Text) : EndsDigits (c :: s) := by
  rintro d ⟨⟩
  exact h

theorem not_endsDigits {digits : Text} (hne : digits ≠ [])
    (hd : ∀ c ∈ digits, c.isDigit = true) (s : Text) : ¬EndsDigits (digits ++ s) := by
  intro h
  obtain ⟨c, digits, rfl⟩ := List.exists_cons_of_ne_nil hne
  have hdigit : c.isDigit = false := h c rfl
  rw [hd c List.mem_cons_self] at hdigit
  cases hdigit

theorem endsDigits_of_endsRun {s : Text} (h : EndsRun s) : EndsDigits s := by
  intro c hc
  rw [← Bool.not_eq_true]
  intro hd
  have hrun := h c hc
  rw [isDelimiter_of_isDigit hd] at hrun
  cases hrun

theorem endsDigits_dropWhile (s : Text) : EndsDigits (s.dropWhile Char.isDigit) := by
  intro c hc
  have hhead := List.head?_dropWhile_not Char.isDigit s
  rw [Option.mem_def.1 hc] at hhead
  simpa using hhead

theorem endsRun_dropWhile (s : Text) : EndsRun (s.dropWhile fun d => !isDelimiter d) := by
  intro c hc
  have hhead := List.head?_dropWhile_not (fun d => !isDelimiter d) s
  rw [Option.mem_def.1 hc] at hhead
  simpa using hhead

/-- Where the digits end, the numeral can be ended before the next character is read. -/
theorem read_of_endsDigits {s : Text} (h : EndsDigits s) (scan : Token.Scan) :
    scan.read s = scan.close >>= fun scan => scan.read s := by
  have hclose (scan : Token.Scan) : scan.close >>= Token.Scan.close = scan.close :=
    scan.close_close
  cases s with
  | nil => exact (hclose scan).symm
  | cons c s =>
    have hdigit : c.isDigit = false := h c rfl
    obtain ⟨next, hnext⟩ : ∃ next, ∀ scan : Token.Scan, scan.next c = scan.close >>= next :=
      ⟨_, fun scan => by rw [Token.Scan.next, if_neg (by simp [hdigit])]⟩
    simp only [Token.Scan.read_cons, hnext, ← bind_assoc, hclose]

theorem lexemes_delimiter {c : Char} (h : isDelimiter c = true) (s : Text) :
    lexemes (c :: s) = .delimiter c :: lexemes s := by
  rw [lexemes, first, if_pos h]

/-- The lexemes of a text, with what each of them ends before. -/
inductive Lexed : Text → List Lexeme → Prop where
  | nil : Lexed [] []
  | delimiter {c : Char} {s : Text} {ls : List Lexeme} (hc : isDelimiter c = true)
      (h : Lexed s ls) : Lexed (c :: s) (.delimiter c :: ls)
  | literal {digits s : Text} {ls : List Lexeme} (hne : digits ≠ [])
      (hd : ∀ c ∈ digits, c.isDigit = true) (hs : EndsDigits s) (h : Lexed s ls) :
      Lexed (digits ++ s) (.literal digits :: ls)
  | name {c : Char} {x s : Text} {ls : List Lexeme} (hc : isDelimiter c = false)
      (hd : c.isDigit = false) (hx : ∀ d ∈ x, isDelimiter d = false) (hs : EndsRun s)
      (h : Lexed s ls) : Lexed (c :: (x ++ s)) (.name (c :: x) :: ls)

theorem lexed (s : Text) : Lexed s (lexemes s) := by
  induction s using lexemes.induct with
  | case1 =>
    rw [lexemes]
    exact .nil
  | case2 c s ih =>
    rw [lexemes]
    by_cases hc : isDelimiter c = true
    · have hfirst : first c s = (.delimiter c, s) := if_pos hc
      rw [hfirst] at ih ⊢
      exact .delimiter hc ih
    · by_cases hd : c.isDigit = true
      · have hfirst : first c s =
            (.literal (c :: s.takeWhile Char.isDigit), s.dropWhile Char.isDigit) := by
          rw [first, if_neg hc, if_pos hd]
        have hdigits : ∀ d ∈ c :: s.takeWhile Char.isDigit, d.isDigit = true :=
          List.forall_mem_cons.2 ⟨hd, fun d hmem => List.mem_takeWhile_imp hmem⟩
        rw [hfirst] at ih ⊢
        have hlexed := Lexed.literal (List.cons_ne_nil _ _) hdigits (endsDigits_dropWhile s) ih
        rwa [List.cons_append, List.takeWhile_append_dropWhile] at hlexed
      · have hfirst : first c s = (.name (c :: s.takeWhile fun d => !isDelimiter d),
            s.dropWhile fun d => !isDelimiter d) := by
          rw [first, if_neg hc, if_neg hd]
        have hrun : ∀ d ∈ s.takeWhile fun d => !isDelimiter d, isDelimiter d = false :=
          fun d hmem => by simpa using List.mem_takeWhile_imp hmem
        rw [hfirst] at ih ⊢
        have hlexed := Lexed.name (by simpa using hc) (by simpa using hd) hrun
          (endsRun_dropWhile s) ih
        rwa [List.takeWhile_append_dropWhile] at hlexed

/-- A text is read lexeme by lexeme, less the blanks. -/
theorem read_lexed {s : Text} {ls : List Lexeme} (h : Lexed s ls) (ts : List Token) :
    Token.Scan.read ⟨[], ts⟩ s = do
      let us ← (significant ls).mapM Lexeme.token
      return ⟨[], us.reverse ++ ts⟩ := by
  induction h generalizing ts with
  | nil => rfl
  | @delimiter c s ls hc h ih =>
    rw [Token.Scan.read_cons]
    cases hb : Text.isBlank c with
    | true =>
      rw [Token.Scan.next_blank hb, significant_cons, Lexeme.isBlank, if_pos hb]
      exact ih ts
    | false =>
      have hdigit : c.isDigit = false := by
        rw [← Bool.not_eq_true]
        intro hdigit
        rw [isDelimiter_of_isDigit hdigit] at hc
        cases hc
      obtain ⟨t, ht⟩ := exists_token_of_isDelimiter hc hb
      have htoken : Lexeme.token (.delimiter c) = .ok t := by simp [Lexeme.token, ht]
      rw [Token.Scan.next_symbol ht hdigit hb, significant_cons, Lexeme.isBlank,
        if_neg (by simp [hb]), List.mapM_cons, htoken]
      change Token.Scan.read ⟨[], t :: ts⟩ s = _
      rw [ih]
      simp
      rfl
  | @literal digits s ls hne hd hs h ih =>
    have hread : Token.Scan.read ⟨[], ts⟩ (digits ++ s) =
        Token.Scan.close ⟨digits.reverse, ts⟩ >>= fun scan => scan.read s := by
      rw [← read_of_endsDigits hs, Token.Scan.read, List.foldlM_append,
        Token.Scan.foldlM_digits hd, List.append_nil]
      rfl
    have hliteral : significant (.literal digits :: ls) = .literal digits :: significant ls := rfl
    rw [hread, hliteral, List.mapM_cons, Lexeme.token, Token.Scan.close,
      if_neg (by simpa using hne), List.reverse_reverse]
    cases hv : Value.ofDigits digits with
    | error e => rfl
    | ok v =>
      change Token.Scan.read ⟨[], .number v :: ts⟩ s = _
      rw [ih]
      simp [Except.map]
      rfl
  | @name c x s ls hc hd hx hs h ih =>
    have hblank : Text.isBlank c = false := by
      simp only [isDelimiter, Bool.or_eq_false_iff] at hc
      exact hc.1.1.1
    have hname : significant (.name (c :: x) :: ls) = .name (c :: x) :: significant ls := rfl
    have hnext : Token.Scan.next ⟨[], ts⟩ c = .error (Lexeme.unexpected [c]) := by
      simp [Token.Scan.next, hd, hblank, ofChar?_of_not_isDelimiter hc, Lexeme.unexpected]
      rfl
    rw [Token.Scan.read_cons, hnext, hname, List.mapM_cons]
    rfl

theorem readAll_eq_mapM (s : Text) :
    Token.readAll s = (significant (lexemes s)).mapM Lexeme.token := by
  rw [Token.readAll_eq_read, read_lexed (lexed s)]
  simp

theorem name_of_close {vars : Store} {d closed : Draft} (h : d.close vars = .ok closed) :
    closed.name = [] := by
  unfold Draft.close at h
  split at h
  next hname =>
    cases h
    simpa using hname
  next =>
    obtain ⟨v, -, h⟩ := Error.exists_of_bind_ok h
    cases h
    rfl

/-- Where the run ends, the name can be ended before the next character is taken in. -/
theorem rewrite_of_endsRun {s : Text} (h : EndsRun s) (vars : Store) (d : Draft) :
    d.rewrite vars s = d.close vars >>= fun d => d.rewrite vars s := by
  have hclose : d.close vars >>= Draft.close vars = d.close vars := by
    cases hd : d.close vars with
    | error e => rfl
    | ok closed =>
      change closed.close vars = .ok closed
      simp [Draft.close, name_of_close hd]
  cases s with
  | nil => exact hclose.symm
  | cons c s =>
    have hread (d : Draft) : d.rewrite vars (c :: s) =
        d.close vars >>= fun d => (d.write c).rewrite vars s :=
      Draft.rewrite_around (h c rfl) vars [] s d
    simp only [hread, ← bind_assoc, hclose]

/-- Values are put for names lexeme by lexeme. -/
theorem rewrite_lexed {s : Text} {ls : List Lexeme} (h : Lexed s ls) (vars : Store)
    (written : Text) : Draft.rewrite vars ⟨written, []⟩ s = do
      let ts ← ls.mapM (Lexeme.spliced vars)
      return ⟨ts.flatten.reverse ++ written, []⟩ := by
  induction h generalizing written with
  | nil => rfl
  | @delimiter c s ls hc h ih =>
    have hread : Draft.rewrite vars ⟨written, []⟩ (c :: s) =
        Draft.rewrite vars ⟨c :: written, []⟩ s :=
      Draft.rewrite_around hc vars [] s ⟨written, []⟩
    rw [hread, ih, List.mapM_cons, Lexeme.spliced]
    simp
    rfl
  | @literal digits s ls hne hd hs h ih =>
    have hread : Draft.rewrite vars ⟨written, []⟩ (digits ++ s) =
        Draft.rewrite vars ⟨digits.reverse ++ written, []⟩ s := by
      rw [Draft.rewrite, List.foldlM_append, Draft.foldlM_kept fun c hc => .inr (hd c hc)]
      rfl
    rw [hread, ih, List.mapM_cons, Lexeme.spliced]
    simp
    rfl
  | @name c x s ls hc hd hx hs h ih =>
    have hread : Draft.rewrite vars ⟨written, []⟩ (c :: (x ++ s)) =
        Draft.close vars ⟨written, (c :: x).reverse⟩ >>= fun d => d.rewrite vars s := by
      rw [← rewrite_of_endsRun hs, ← List.cons_append, Draft.rewrite, List.foldlM_append,
        Draft.foldlM_name hc hd hx]
      rfl
    have hclose : Draft.close vars ⟨written, (c :: x).reverse⟩ = do
        let v ← vars.valueOf (c :: x)
        return ⟨(operand v).reverse ++ written, []⟩ := by
      simp [Draft.close]
    rw [hread, hclose, List.mapM_cons, Lexeme.spliced]
    cases vars.valueOf (c :: x) with
    | error e => rfl
    | ok v =>
      change Draft.rewrite vars ⟨(operand v).reverse ++ written, []⟩ s = _
      rw [ih]
      simp [Except.map]
      rfl

theorem substitute_eq_mapM (vars : Store) (s : Text) :
    substitute vars s = ((lexemes s).mapM (Lexeme.spliced vars)).map List.flatten := by
  rw [substitute_eq_rewrite, rewrite_lexed (lexed s)]
  cases (lexemes s).mapM (Lexeme.spliced vars) with
  | error e => rfl
  | ok ts => simp [Except.map, bind, Except.bind, pure, Except.pure]

theorem spelled_of_spliced {vars : Store} {l : Lexeme} {t : Text}
    (h : l.spliced vars = .ok t) : t = l.spelled vars := by
  cases l with
  | literal digits =>
    cases h
    rfl
  | delimiter c =>
    cases h
    rfl
  | name x =>
    obtain ⟨v, hv, rfl⟩ := Error.exists_of_map_ok h
    rw [Lexeme.spelled, (Store.contains_of_valueOf hv).2]

theorem eq_map_of_mapM {vars : Store} {ls : List Lexeme} {ts : List Text}
    (h : ls.mapM (Lexeme.spliced vars) = .ok ts) : ts = ls.map (Lexeme.spelled vars) := by
  induction ls generalizing ts with
  | nil =>
    cases h
    rfl
  | cons l ls ih =>
    rw [List.mapM_cons] at h
    obtain ⟨t, ht, h⟩ := Error.exists_of_bind_ok h
    obtain ⟨rest, hrest, h⟩ := Error.exists_of_bind_ok h
    cases h
    rw [List.map_cons, ← spelled_of_spliced ht, ← ih hrest]

/-- The text that a substitution gives is that of the lexemes with values for names. -/
theorem eq_of_substitute {vars : Store} {s t : Text} (h : substitute vars s = .ok t) :
    t = (lexemes s).flatMap (Lexeme.spelled vars) := by
  rw [substitute_eq_mapM] at h
  obtain ⟨ts, hts, rfl⟩ := Error.exists_of_map_ok h
  rw [eq_map_of_mapM hts, List.flatMap_def]

end LineScript.Expr
