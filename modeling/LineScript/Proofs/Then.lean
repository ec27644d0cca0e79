import LineScript.Condition
import LineScript.Proofs.Substitution

/-!
Where the search for THEN stops in the text of a condition. Only a name has letters in it, and
inside a name no THEN counts, so the search goes past every formula whose names do not start with
THEN themselves; what ends a name may be the text that follows, and it is part of each statement.
-/
namespace LineScript

/-- Since the last character that satisfies `p`, or else from the start, there are only digits. -/
def Text.DigitsSince (p : Char → Bool) (s : Text) : Prop :=
  ∃ front digits, s = front ++ digits ∧ (∀ c ∈ front.getLast?, p c = true) ∧
    ∀ c ∈ digits, c.isDigit = true

namespace Text.DigitsSince

variable {p : Char → Bool} {s : Text}

theorem nil : DigitsSince p [] :=
  ⟨[], [], rfl, by simp, by simp⟩

theorem concat (s : Text) {c : Char} (h : p c = true) : DigitsSince p (s ++ [c]) :=
  ⟨s ++ [c], [], by simp, by simpa using h, by simp⟩

theorem append (h : DigitsSince p s) {digits : Text} (hd : ∀ c ∈ digits, c.isDigit = true) :
    DigitsSince p (s ++ digits) := by
  obtain ⟨front, tail, rfl, hfront, htail⟩ := h
  exact ⟨front, tail ++ digits, List.append_assoc .., hfront, List.forall_mem_append.2 ⟨htail, hd⟩⟩

/-- What stands further to the left does not matter. -/
theorem of_append {before : Text} (h : DigitsSince p (before ++ s)) : DigitsSince p s := by
  obtain ⟨front, digits, heq, hfront, hd⟩ := h
  rcases List.append_eq_append_iff.1 heq with ⟨front', rfl, rfl⟩ | ⟨tail, rfl, rfl⟩
  · refine ⟨front', digits, rfl, fun c hc => hfront c ?_, hd⟩
    rw [List.getLast?_append, Option.mem_def.1 hc]
    rfl
  · exact ⟨[], s, rfl, by simp, fun c hc => hd c (List.mem_append_right _ hc)⟩

theorem isDigit_of_mem (h : DigitsSince p s) (hp : ∀ c ∈ s, p c = false) :
    ∀ c ∈ s, c.isDigit = true := by
  obtain ⟨front, digits, rfl, hfront, hd⟩ := h
  rcases List.eq_nil_or_concat front with rfl | ⟨init, c, rfl⟩
  · exact hd
  · have hc : p c = true := hfront c (by simp)
    rw [hp c (by simp)] at hc
    cases hc

end Text.DigitsSince

namespace Name

theorem isStart_of_isPart {c : Char} (h : isPart c = false) : isStart c = false :=
  (Bool.or_eq_false_iff.1 h).1

theorem isStart_of_isDigit {c : Char} (h : c.isDigit = true) : isStart c = false := by
  rw [← Bool.not_eq_true]
  intro hs
  rw [isDigit_of_isStart hs] at h
  cases h

theorem isPart_of_isBlank {c : Char} (h : Text.isBlank c = true) : isPart c = false := by
  rw [← Bool.not_eq_true]
  intro hp
  rw [isBlank_of_isPart hp] at h
  cases h

theorem isPart_symbol (op : Operator) : isPart op.symbol = false := by
  cases op <;> rfl

theorem isPart_relation (relation : Relation) : isPart relation.symbol = false := by
  cases relation <;> rfl

/-- Letter case does not decide whether a name can start. -/
theorem isStart_of_toUpper {c : Char} (h : isStart c.toUpper = true) : isStart c = true := by
  unfold Char.toUpper at h
  split at h
  next hlow =>
    have hlower : c.isLower = true :=
      Bool.and_eq_true_iff.2 ⟨decide_eq_true hlow.1, decide_eq_true hlow.2⟩
    have halpha : c.isAlpha = true := Bool.or_eq_true_iff.2 (.inr hlower)
    simp [isStart, halpha]
  next => exact h

end Name

namespace Source

theorem isStart_of_mem_upper {s word : Text} (h : Text.upper s = word)
    (hword : word.all Name.isStart = true) {c : Char} (hc : c ∈ s) : Name.isStart c = true := by
  subst h
  exact Name.isStart_of_toUpper (List.all_eq_true.1 hword _ (List.mem_map_of_mem hc))

/-- A word of letters has no blank in it, in whatever case it is written. -/
theorem solid_of_upper {s word : Text} (h : Text.upper s = word)
    (hword : word.all Name.isStart = true) (hne : word ≠ []) :
    (∀ c ∈ s, Text.isBlank c = false) ∧ s ≠ [] := by
  refine ⟨fun c hc => Name.isBlank_of_isPart (Name.isPart_of_isStart
    (isStart_of_mem_upper h hword hc)), ?_⟩
  rintro rfl
  exact hne h.symm

theorem isStart_of_startsThen {s : Text} (h : startsThen s = true) {c : Char} (hc : c ∈ s.take 4) :
    Name.isStart c = true :=
  isStart_of_mem_upper (eq_of_beq h) rfl hc

/-- The text does not continue a name that stands before it. -/
def EndsName (s : Text) : Prop :=
  ∀ c ∈ s.head?, Name.isPart c = false

theorem endsName_cons {c : Char} (h : Name.isPart c = false) (s : Text) : EndsName (c :: s) := by
  rintro d ⟨⟩
  exact h

theorem endsName_of_blank {gap : Text} (h : ∀ c ∈ gap, Text.isBlank c = true) : EndsName gap :=
  fun c hc => Name.isPart_of_isBlank (h c (List.mem_of_mem_head? hc))

/-- What does not continue a name does not complete a THEN. -/
theorem startsThen_of_append {s rest : Text} (hrest : EndsName rest)
    (h : startsThen (s ++ rest) = true) : startsThen s = true := by
  have htake : (s ++ rest).take 4 = s.take 4 := by
    by_cases hlength : 4 ≤ s.length
    · exact List.take_append_of_le_length hlength
    · cases rest with
      | nil => rw [List.append_nil]
      | cons d rest =>
        -- Then `d` would be a letter of the THEN.
        obtain ⟨k, hk⟩ := Nat.exists_eq_add_of_lt (Nat.lt_of_not_le hlength)
        have hmem : d ∈ (s ++ d :: rest).take 4 := by
          rw [List.take_append, show 4 - s.length = k + 1 by omega]
          simp
        have hpart := Name.isPart_of_isStart (isStart_of_startsThen h hmem)
        rw [hrest d rfl] at hpart
        cases hpart
  rwa [startsThen, htake] at h

theorem startsThen_append {word : Text} (h : Text.upper word = "THEN".toList) (s : Text) :
    startsThen (word ++ s) = true ∧ (word ++ s).drop 4 = s := by
  have hlength : word.length = 4 := by
    simpa [Text.upper] using congrArg List.length h
  rw [startsThen, ← hlength, List.take_left, List.drop_left, h]
  exact ⟨rfl, rfl⟩

/-- Only the characters of names directly before a word are looked at. -/
theorem isFree_append (u : Text) {v : Text} (h : EndsName v) :
    isFree (u ++ v) = isFree u := by
  have hv : v.takeWhile Name.isPart = [] := by
    cases v with
    | nil => rfl
    | cons c v => exact List.takeWhile_cons_of_neg (by simp [h c rfl])
  rw [isFree, isFree, List.takeWhile_append, hv, List.append_nil]
  split
  next hu => rw [(List.takeWhile_prefix Name.isPart).eq_of_length hu]
  next => rfl

theorem isFree_around (s : Text) {c : Char} (h : Name.isPart c = false) (t : Text) :
    isFree (s ++ c :: t).reverse = isFree t.reverse := by
  have hsplit : (s ++ c :: t).reverse = t.reverse ++ c :: s.reverse := by simp
  rw [hsplit, isFree_append t.reverse (endsName_cons h _)]

theorem isFree_of_digits {u : Text} (h : ∀ c ∈ u, c.isDigit = true) : isFree u = true :=
  List.all_eq_true.2 fun c hc => h c ((List.takeWhile_prefix Name.isPart).subset hc)

theorem isFree_of_blank {gap : Text} (h : ∀ c ∈ gap, Text.isBlank c = true) :
    isFree gap.reverse = true :=
  isFree_append [] (endsName_of_blank fun c hc => h c (List.mem_reverse.1 hc))

theorem isFree_cons_of_isStart {c : Char} (h : Name.isStart c = true) (before : Text) :
    isFree (c :: before) = false := by
  rw [isFree, List.takeWhile_cons_of_pos (Name.isPart_of_isStart h), List.all_cons,
    Name.isDigit_of_isStart h, Bool.false_and]

theorem isFree_cons_of_isPart {c : Char} (h : Name.isPart c = true) {before : Text}
    (hb : isFree before = false) : isFree (c :: before) = false := by
  rw [isFree] at hb
  rw [isFree, List.takeWhile_cons_of_pos h, List.all_cons, hb, Bool.and_false]

theorem isFree_append_of_isPart {u : Text} (h : ∀ c ∈ u, Name.isPart c = true) {before : Text}
    (hb : isFree before = false) : isFree (u ++ before) = false := by
  induction u with
  | nil => exact hb
  | cons c u ih =>
    obtain ⟨hc, hu⟩ := List.forall_mem_cons.1 h
    exact isFree_cons_of_isPart hc (ih hu)

/-- A word that directly follows a name is not free. -/
theorem isFree_name (s : Text) (x : Identifier) : isFree (s ++ x.text).reverse = false := by
  obtain ⟨c, text, htext, hc, hparts⟩ := x.exists_cons
  have hsplit : (s ++ x.text).reverse = text.reverse ++ c :: s.reverse := by simp [htext]
  rw [hsplit]
  exact isFree_append_of_isPart (fun d hd => hparts d (List.mem_reverse.1 hd))
    (isFree_cons_of_isStart hc s.reverse)

theorem isFree_reverse_iff {s : Text} :
    isFree s.reverse = true ↔ Text.DigitsSince (fun c => !Name.isPart c) s := by
  constructor
  · intro h
    refine ⟨(s.reverse.dropWhile Name.isPart).reverse, (s.reverse.takeWhile Name.isPart).reverse,
      ?_, fun c hc => ?_, fun c hc => List.all_eq_true.1 h c (List.mem_reverse.1 hc)⟩
    · rw [← List.reverse_append, List.takeWhile_append_dropWhile, List.reverse_reverse]
    · have hhead := List.head?_dropWhile_not Name.isPart s.reverse
      rw [List.getLast?_reverse] at hc
      rw [Option.mem_def.1 hc] at hhead
      simpa using hhead
  · rintro ⟨front, digits, rfl, hfront, hd⟩
    have hends : EndsName front.reverse := by
      intro c hc
      rw [List.head?_reverse] at hc
      simpa using hfront c hc
    rw [List.reverse_append, isFree_append _ hends]
    exact isFree_of_digits fun c hc => hd c (List.mem_reverse.1 hc)

/-- Inside a name no THEN counts. -/
theorem aroundThenFrom_of_not_free {s : Text} (h : ∀ c ∈ s, Name.isPart c = true) {before : Text}
    (hb : isFree before = false) (rest : Text) :
    aroundThenFrom before (s ++ rest) = aroundThenFrom (s.reverse ++ before) rest := by
  induction s generalizing before with
  | nil => rfl
  | cons c s ih =>
    obtain ⟨hc, hs⟩ := List.forall_mem_cons.1 h
    rw [List.cons_append, aroundThenFrom, hb, Bool.and_false, if_neg (by simp),
      ih hs (isFree_cons_of_isPart hc hb)]
    simp

/-- The search goes past `s`, when `rest` follows, to look for THEN in `rest`. -/
def Passes (s rest : Text) : Prop :=
  ∀ before, aroundThenFrom before (s ++ rest) = aroundThenFrom (s.reverse ++ before) rest

namespace Passes

theorem append {s t rest : Text} (hs : Passes s (t ++ rest)) (ht : Passes t rest) :
    Passes (s ++ t) rest := by
  intro before
  rw [List.append_assoc, hs, ht, List.reverse_append, List.append_assoc]

theorem nil (rest : Text) : Passes [] rest :=
  fun _ => rfl

theorem cons {c : Char} {s rest : Text} (h : startsThen (c :: (s ++ rest)) = false)
    (hs : Passes s rest) : Passes (c :: s) rest := by
  intro before
  rw [List.cons_append, aroundThenFrom, h, Bool.false_and, if_neg (by simp), hs]
  simp

/-- THEN does not start with a character that starts no name. -/
theorem of_not_start {s : Text} (h : ∀ c ∈ s, Name.isStart c = false) (rest : Text) :
    Passes s rest := by
  induction s with
  | nil => exact nil rest
  | cons c s ih =>
    obtain ⟨hc, hs⟩ := List.forall_mem_cons.1 h
    refine cons ?_ (ih hs)
    rw [← Bool.not_eq_true]
    intro ht
    rw [isStart_of_startsThen ht (by simp)] at hc
    cases hc

theorem of_blank {gap : Text} (h : ∀ c ∈ gap, Text.isBlank c = true) (rest : Text) :
    Passes gap rest :=
  of_not_start (fun c hc => Name.isStart_of_isPart (Name.isPart_of_isBlank (h c hc))) rest

theorem around {s t rest : Text} {c : Char} (hc : Name.isPart c = false)
    (hs : Passes s (c :: t ++ rest)) (ht : Passes t rest) : Passes (s ++ c :: t) rest := by
  have hchar : Passes [c] (t ++ rest) :=
    of_not_start (by simpa using Name.isStart_of_isPart hc) (t ++ rest)
  exact hs.append (hchar.append ht)

theorem name {x : Identifier} (hx : startsThen x.text = false) {rest : Text}
    (hrest : EndsName rest) : Passes x.text rest := by
  intro before
  have hthen : startsThen (x.text ++ rest) = false := by
    rw [← Bool.not_eq_true]
    intro ht
    rw [startsThen_of_append hrest ht] at hx
    cases hx
  obtain ⟨c, text, htext, hc, hparts⟩ := x.exists_cons
  rw [htext, List.cons_append] at hthen ⊢
  rw [aroundThenFrom, hthen, Bool.false_and, if_neg (by simp),
    aroundThenFrom_of_not_free hparts (isFree_cons_of_isStart hc before)]
  simp

/-- The search goes past the text of a formula, unless what follows continues a name at its end. -/
theorem formula {p : Nat} (e : Formula Atom p)
    (hx : ∀ x, Atom.name x ∈ e.operands → startsThen x.text = false) {s : Text}
    (hs : Spaced (e.lexemes Atom.text) s) {rest : Text}
    (hend : isFree s.reverse = true ∨ EndsName rest) : Passes s rest := by
  induction e generalizing s rest with
  | operand a =>
    obtain ⟨before, after, hb, ha, rfl⟩ := Spaced.singleton_iff.1 hs
    rw [List.append_assoc]
    refine (of_blank hb _).append (append ?_ (of_blank ha rest))
    cases a with
    | numeral n => exact of_not_start (fun c hc => Name.isStart_of_isDigit (n.isDigit_of_mem hc)) _
    | name x =>
      refine name (hx x (by simp [Formula.operands])) ?_
      -- The name is ended by a blank of its own, or else by what follows the formula.
      cases after with
      | nil =>
        refine hend.resolve_left ?_
        rw [List.append_nil, Atom.text, isFree_name]
        simp
      | cons c after => exact endsName_cons (Name.isPart_of_isBlank (ha c List.mem_cons_self)) _
  | group e ih =>
    obtain ⟨before, mid, after, hb, hm, ha, rfl⟩ := Spaced.enclosed_iff.1 hs
    have hmid : Passes mid (')' :: after ++ rest) := ih hx hm (.inr (endsName_cons rfl _))
    exact (of_blank hb _).around rfl (hmid.around rfl (of_blank ha rest))
  | tight e ih => exact ih hx hs hend
  | binary op l r ihl ihr =>
    simp only [Formula.operands, List.mem_append] at hx
    obtain ⟨s₁, s₂, hl, hr, rfl⟩ := Spaced.around_iff.1 hs
    have hop := Name.isPart_symbol op
    rw [isFree_around s₁ hop] at hend
    have hleft : Passes s₁ (op.symbol :: s₂ ++ rest) :=
      ihl (fun x hm => hx x (.inl hm)) hl (.inr (endsName_cons hop _))
    exact hleft.around hop (ihr (fun x hm => hx x (.inr hm)) hr hend)

end Passes

/-- A word can start after the text of a formula, unless a name is the end of it. -/
theorem isFree_or_name {p : Nat} (e : Formula Atom p) {s : Text}
    (hs : Spaced (e.lexemes Atom.text) s) :
    isFree s.reverse = true ∨ ∃ x : Identifier, (e.lexemes Atom.text).getLast? = some x.text ∧
      ∃ before, s = before ++ x.text := by
  induction e generalizing s with
  | operand a =>
    obtain ⟨before, after, hb, ha, rfl⟩ := Spaced.singleton_iff.1 hs
    cases after with
    | cons c after =>
      obtain ⟨hc, ha⟩ := List.forall_mem_cons.1 ha
      refine .inl ?_
      rw [isFree_around _ (Name.isPart_of_isBlank hc)]
      exact isFree_of_blank ha
    | nil =>
      cases a with
      | numeral n =>
        refine .inl ?_
        have hblank : ∀ c ∈ before.reverse, Text.isBlank c = true := by simpa using hb
        rw [List.append_nil, List.reverse_append, isFree_append _ (endsName_of_blank hblank)]
        exact isFree_of_digits fun c hc => n.isDigit_of_mem (List.mem_reverse.1 hc)
      | name x => exact .inr ⟨x, rfl, before, List.append_nil _⟩
  | group e ih =>
    obtain ⟨before, mid, after, hb, hm, ha, rfl⟩ := Spaced.enclosed_iff.1 hs
    refine .inl ?_
    rw [isFree_around before rfl, isFree_around mid rfl]
    exact isFree_of_blank ha
  | tight e ih => exact ih hs
  | binary op l r ihl ihr =>
    obtain ⟨s₁, s₂, hl, hr, rfl⟩ := Spaced.around_iff.1 hs
    rcases ihr hr with hfree | ⟨x, hx, before, rfl⟩
    · exact .inl ((isFree_around s₁ (Name.isPart_symbol op) s₂).trans hfree)
    · refine .inr ⟨x, ?_, s₁ ++ op.symbol :: before, by simp⟩
      rw [Formula.lexemes, List.getLast?_append, List.getLast?_cons, hx]
      rfl

/-- A blank after the name at its end is enough for a word to start after a formula. -/
theorem isFree_of_ended {p : Nat} (e : Formula Atom p) {s : Text}
    (hs : Spaced (e.lexemes Atom.text) s)
    (hend : ∀ x : Identifier, (e.lexemes Atom.text).getLast? = some x.text →
      ∃ c ∈ s.getLast?, Text.isBlank c = true) : isFree s.reverse = true := by
  rcases isFree_or_name e hs with hfree | ⟨x, hx, before, rfl⟩
  · exact hfree
  · obtain ⟨c, hc, hblank⟩ := hend x hx
    obtain ⟨d, text, htext, -, -⟩ := x.exists_cons
    have hlast : (before ++ x.text).getLast? = x.text.getLast? := by
      rw [List.getLast?_append, htext, List.getLast?_cons]
      rfl
    rw [hlast] at hc
    rw [Name.isBlank_of_isPart (x.isPart_of_mem (List.mem_of_getLast? hc))] at hblank
    cases hblank

/-- In a condition the search stops at the THEN after it. -/
theorem aroundThen?_condition {p q : Nat} {l : Formula Atom p} {r : Formula Atom q}
    (hl : ∀ x, Atom.name x ∈ l.operands → startsThen x.text = false)
    (hr : ∀ x, Atom.name x ∈ r.operands → startsThen x.text = false) {sl sr : Text}
    (hsl : Spaced (l.lexemes Atom.text) sl) (hsr : Spaced (r.lexemes Atom.text) sr)
    (relation : Relation) (hfree : isFree sr.reverse = true) {rest : Text}
    (hthen : startsThen rest = true) :
    aroundThen? (sl ++ relation.symbol :: sr ++ rest) =
      some (sl ++ relation.symbol :: sr, rest.drop 4) := by
  have hrel := Name.isPart_relation relation
  have hleft : Passes sl (relation.symbol :: sr ++ rest) :=
    Passes.formula l hl hsl (.inr (endsName_cons hrel _))
  have hpass : Passes (sl ++ relation.symbol :: sr) rest :=
    hleft.around hrel (Passes.formula r hr hsr (.inl hfree))
  rw [aroundThen?, hpass [], List.append_nil]
  cases rest with
  | nil => cases hthen
  | cons c rest =>
    rw [aroundThenFrom, hthen, isFree_around sl hrel, hfree, Bool.and_self, if_pos rfl,
      List.reverse_reverse]

end Source
end LineScript
