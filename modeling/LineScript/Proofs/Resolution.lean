import LineScript.Proofs.Comparisons
import LineScript.Proofs.Failure

/-!
Which names a substitution looks up, and what it leaves of a text. A name is said to stand in a
text by the characters around it alone, without the scan; the scan finds just these names, takes
the first one that is not declared for its error, and writes nothing that an evaluation does not
know.
-/
namespace LineScript

namespace Expr

/-- The name `x` stands in `s` between the other two texts: it starts with a character that is
neither a delimiter nor a digit, it goes on to the next delimiter or the end, and it does not
continue a name before it. -/
structure NameIn (s before x after : Text) : Prop where
  text_eq : s = before ++ (x ++ after)
  starts : ∃ c ∈ x.head?, c.isDigit = false
  run : ∀ c ∈ x, isDelimiter c = false
  ends : EndsRun after
  free : Text.DigitsSince isDelimiter before

namespace Lexeme

/-- The text that a lexeme is read from. -/
def text : Lexeme → Text
  | literal digits => digits
  | name x => x
  | delimiter c => [c]

/-- What the characters of a lexeme are like. -/
def Proper : Lexeme → Prop
  | literal digits => ∀ c ∈ digits, c.isDigit = true
  | name x => (∃ c ∈ x.head?, c.isDigit = false) ∧ ∀ c ∈ x, isDelimiter c = false
  | delimiter c => isDelimiter c = true

end Lexeme

theorem Lexed.proper {s : Text} {ls : List Lexeme} (h : Lexed s ls) : ∀ l ∈ ls, l.Proper := by
  induction h with
  | nil => exact List.forall_mem_nil _
  | delimiter hc _ ih => exact List.forall_mem_cons.2 ⟨hc, ih⟩
  | literal _ hd _ _ ih => exact List.forall_mem_cons.2 ⟨hd, ih⟩
  | name hc hd hx _ _ ih =>
    exact List.forall_mem_cons.2 ⟨⟨⟨_, rfl, hd⟩, List.forall_mem_cons.2 ⟨hc, hx⟩⟩, ih⟩

theorem Lexed.text_eq {s : Text} {ls : List Lexeme} (h : Lexed s ls) :
    s = ls.flatMap Lexeme.text := by
  induction h with
  | nil => rfl
  | delimiter _ _ ih => rw [List.flatMap_cons, ← ih]; rfl
  | literal _ _ _ _ ih => rw [List.flatMap_cons, ← ih]; rfl
  | name _ _ _ _ _ ih => rw [List.flatMap_cons, ← ih]; rfl

/-- A name among the lexemes stands in the text, whatever text came before that does not end in
a name itself. -/
theorem Lexed.nameIn {s : Text} {ls ls₁ ls₂ : List Lexeme} (h : Lexed s ls) {before x : Text}
    (hbefore : Text.DigitsSince isDelimiter before ∨ EndsRun s) (hx : ls = ls₁ ++ .name x :: ls₂) :
    NameIn (before ++ s) (before ++ ls₁.flatMap Lexeme.text) x (ls₂.flatMap Lexeme.text) := by
  induction h generalizing before ls₁ with
  | nil => simp at hx
  | @delimiter c s ls hc h ih =>
    cases ls₁ with
    | nil => cases hx
    | cons l ls₁ =>
      obtain ⟨rfl, htail⟩ := List.cons.inj hx
      have hrest := ih (.inl (.concat before hc)) htail
      simpa [Lexeme.text] using hrest
  | @literal digits s ls hne hd hs h ih =>
    have hfree := hbefore.resolve_right fun hrun =>
      not_endsDigits hne hd s (endsDigits_of_endsRun hrun)
    cases ls₁ with
    | nil => cases hx
    | cons l ls₁ =>
      obtain ⟨rfl, htail⟩ := List.cons.inj hx
      have hrest := ih (.inl (hfree.append hd)) htail
      simpa [Lexeme.text] using hrest
  | @name c y s ls hc hd hy hs h ih =>
    cases ls₁ with
    | nil =>
      obtain ⟨hname, rfl⟩ := List.cons.inj hx
      cases hname
      have hfree := hbefore.resolve_right fun hrun => by simp [hrun c rfl] at hc
      rw [List.flatMap_nil, List.append_nil, ← h.text_eq]
      exact ⟨by simp, ⟨c, rfl, hd⟩, List.forall_mem_cons.2 ⟨hc, hy⟩, hs, hfree⟩
    | cons l ls₁ =>
      obtain ⟨rfl, htail⟩ := List.cons.inj hx
      have hrest := @ih ls₁ (before ++ c :: y) (.inr hs) htail
      simpa [Lexeme.text] using hrest

/-- Two runs at one place, with a delimiter or nothing after each, are the same. -/
theorem eq_of_endsRun {x y s t : Text} (hx : ∀ c ∈ x, isDelimiter c = false)
    (hy : ∀ c ∈ y, isDelimiter c = false) (hs : EndsRun s) (ht : EndsRun t)
    (h : x ++ s = y ++ t) : x = y := by
  have htake {x s : Text} (hx : ∀ c ∈ x, isDelimiter c = false) (hs : EndsRun s) :
      (x ++ s).takeWhile (fun c => !isDelimiter c) = x := by
    rw [List.takeWhile_append_of_pos fun c hc => by simp [hx c hc]]
    cases s with
    | nil => simp
    | cons c s => simp [hs c rfl]
  rw [← htake hx hs, h, htake hy ht]

/-- Every name that stands in a text is found. -/
theorem Lexed.exists_of_nameIn {s : Text} {ls : List Lexeme} (h : Lexed s ls)
    {before x after : Text} (hx : NameIn s before x after) :
    ∃ ls₁ ls₂, ls = ls₁ ++ .name x :: ls₂ ∧ ls₁.flatMap Lexeme.text = before := by
  obtain ⟨htext, ⟨e, hhead, he⟩, hrun, hends, hfree⟩ := hx
  obtain ⟨x', rfl⟩ := List.head?_eq_some_iff.1 hhead
  have hsolid : isDelimiter e = false := hrun e List.mem_cons_self
  induction h generalizing before with
  | nil => simp at htext
  | @delimiter c s ls hc h ih =>
    cases before with
    | nil =>
      obtain ⟨rfl, -⟩ := List.cons.inj htext
      rw [hc] at hsolid
      cases hsolid
    | cons d before =>
      obtain ⟨rfl, hrest⟩ := List.cons.inj htext
      have hfree : Text.DigitsSince isDelimiter ([c] ++ before) := hfree
      obtain ⟨ls₁, ls₂, rfl, hbefore⟩ := ih hfree.of_append hrest
      exact ⟨.delimiter c :: ls₁, ls₂, rfl, by rw [List.flatMap_cons, hbefore]; rfl⟩
  | @literal digits s ls hne hd hs h ih =>
    obtain ⟨before, rfl, hrest⟩ : ∃ before', before = digits ++ before' ∧
        s = before' ++ (e :: x' ++ after) := by
      rcases List.append_eq_append_iff.1 htext with ⟨before', rfl, hrest⟩ | ⟨tail, rfl, hrest⟩
      · exact ⟨before', rfl, hrest⟩
      · cases tail with
        | nil => exact ⟨[], by simp, hrest.symm⟩
        | cons d tail =>
          -- the name would start inside the numeral
          obtain ⟨rfl, -⟩ := List.cons.inj hrest
          rw [hd e (by simp)] at he
          cases he
    obtain ⟨ls₁, ls₂, rfl, hbefore⟩ := ih hfree.of_append hrest
    exact ⟨.literal digits :: ls₁, ls₂, rfl, by rw [List.flatMap_cons, hbefore]; rfl⟩
  | @name c y s ls hc hd hy hs h ih =>
    have hall : ∀ d ∈ c :: y, isDelimiter d = false := List.forall_mem_cons.2 ⟨hc, hy⟩
    rw [← List.cons_append] at htext
    rcases List.append_eq_append_iff.1 htext with ⟨before', rfl, hrest⟩ | ⟨tail, hcy, hrest⟩
    · obtain ⟨ls₁, ls₂, rfl, hbefore⟩ := ih hfree.of_append hrest
      exact ⟨.name (c :: y) :: ls₁, ls₂, rfl, by rw [List.flatMap_cons, hbefore]; rfl⟩
    · cases before with
      | nil =>
        have hname : c :: y = e :: x' := eq_of_endsRun hall hrun hs hends htext
        exact ⟨[], ls, by rw [hname]; rfl, rfl⟩
      | cons d before =>
        -- the name would start inside the other one, and not after digits alone
        obtain ⟨rfl, rfl⟩ := List.cons.inj hcy
        have hdigit := hfree.isDigit_of_mem fun d hmem => hall d
          (List.mem_append_left tail hmem)
        rw [hdigit c List.mem_cons_self] at hd
        cases hd

theorem nameIn_of_split {s x : Text} {ls₁ ls₂ : List Lexeme}
    (h : lexemes s = ls₁ ++ .name x :: ls₂) :
    NameIn s (ls₁.flatMap Lexeme.text) x (ls₂.flatMap Lexeme.text) :=
  (lexed s).nameIn (.inl .nil) h

theorem name_of_spliced_error {vars : Store} {l : Lexeme} {e : Error}
    (h : l.spliced vars = .error e) :
    ∃ x, l = .name x ∧ vars.contains x = false ∧ e = .about .undeclared x := by
  cases l with
  | literal digits => cases h
  | delimiter c => cases h
  | name x =>
    refine ⟨x, rfl, ?_⟩
    rw [Lexeme.spliced, Store.valueOf] at h
    split at h
    next => cases h
    next hnone =>
      cases h
      exact ⟨by rw [Store.contains_eq, hnone]; rfl, rfl⟩

/-- A substitution that succeeds has found every name of the text declared. -/
theorem contains_of_substitute {vars : Store} {s t : Text} (h : substitute vars s = .ok t)
    {before x after : Text} (hx : NameIn s before x after) : vars.contains x = true := by
  rw [substitute_eq_mapM] at h
  obtain ⟨ts, hts, -⟩ := Error.exists_of_map_ok h
  obtain ⟨ls₁, ls₂, hsplit, -⟩ := (lexed s).exists_of_nameIn hx
  exact contains_of_mapM hts (by simp [hsplit])

/-- One that fails names the leftmost name that is not declared. -/
theorem undeclared_of_substitute {vars : Store} {s : Text} {e : Error}
    (h : substitute vars s = .error e) :
    ∃ before x after, NameIn s before x after ∧ vars.contains x = false ∧
      (∀ before' x' after', NameIn s before' x' after' → vars.contains x' = false →
        before.length ≤ before'.length) ∧ e = .about .undeclared x := by
  rw [substitute_eq_mapM] at h
  cases hm : (lexemes s).mapM (Lexeme.spliced vars) with
  | ok ts =>
    rw [hm] at h
    cases h
  | error e' =>
    rw [hm] at h
    cases h
    obtain ⟨ls₁, l, ls₂, hsplit, he, hfirst⟩ := Error.exists_of_mapM_error hm
    obtain ⟨x, rfl, hx, rfl⟩ := name_of_spliced_error he
    refine ⟨_, x, _, nameIn_of_split hsplit, hx, fun before' x' after' hx' hnot => ?_, rfl⟩
    obtain ⟨ls₁', ls₂', hsplit', rfl⟩ := (lexed s).exists_of_nameIn hx'
    by_contra hlt
    -- then the other name would be one of the lexemes before this one
    rw [hsplit] at hsplit'
    rcases List.append_eq_append_iff.1 hsplit' with ⟨tail, rfl, -⟩ | ⟨tail, rfl, hrest⟩
    · simp at hlt
    · cases tail with
      | nil => simp at hlt
      | cons l tail =>
        obtain ⟨rfl, -⟩ := List.cons.inj hrest
        obtain ⟨t, ht⟩ := hfirst (.name x') (by simp)
        obtain ⟨v, hv, -⟩ := Error.exists_of_map_ok ht
        rw [(Store.contains_of_valueOf hv).1] at hnot
        cases hnot

theorem isDelimiter_iff {c : Char} :
    isDelimiter c = true ↔ Text.isBlank c = true ∨ c ∈ "+-*/()".toList := by
  have hop : (Operator.ofChar? c).isSome = true ↔ c = '+' ∨ c = '-' ∨ c = '*' ∨ c = '/' := by
    unfold Operator.ofChar?
    split <;> simp_all
  simp only [isDelimiter, Bool.or_eq_true, beq_iff_eq, hop, String.reduceToList, List.mem_cons,
    List.not_mem_nil, or_false]
  tauto

/-- What is written for a value are digits, parentheses and minus signs. -/
theorem mem_operand {v : Value} {c : Char} (hc : c ∈ operand v) :
    c.isDigit = true ∨ c ∈ "+-*/()".toList := by
  have hdigit {n : Nat} (h : c ∈ Text.ofNat n) : c.isDigit = true :=
    (Numeral.ofNat n).isDigit_of_mem h
  unfold operand at hc
  split at hc
  · exact .inl (hdigit hc)
  · rcases List.mem_append.1 hc with hc | hc
    · rcases List.mem_append.1 hc with hc | hc
      · simp only [String.reduceToList, List.mem_cons, List.not_mem_nil, or_false] at hc
        rcases hc with rfl | rfl | rfl <;> simp
      · exact .inl (hdigit hc)
    · simp only [String.reduceToList, List.mem_cons, List.not_mem_nil, or_false] at hc
      rcases hc with rfl | rfl | rfl <;> simp

namespace Lexeme

theorem mem_spelled {vars : Store} {l : Lexeme} (h : l.Proper) {c : Char}
    (hc : c ∈ l.spelled vars) : c.isDigit = true ∨ isDelimiter c = true := by
  cases l with
  | literal digits => exact .inl (h c hc)
  | delimiter d =>
    obtain rfl := List.mem_singleton.1 hc
    exact .inr h
  | name x => exact (mem_operand hc).imp_right fun hsymbol => isDelimiter_iff.2 (.inr hsymbol)

/-- Putting a value for a name neither takes a blank away nor adds one. -/
theorem filter_spelled (vars : Store) {l : Lexeme} (h : l.Proper) :
    (l.spelled vars).filter Text.isBlank = l.text.filter Text.isBlank := by
  cases l with
  | literal digits => rfl
  | delimiter d => rfl
  | name x =>
    have hvalue : (operand (vars.stored x)).filter Text.isBlank = [] := by
      refine List.filter_eq_nil_iff.2 fun c hc hblank => ?_
      rcases mem_operand hc with hd | hsymbol
      · rw [Text.isDigit_of_isBlank hblank] at hd
        cases hd
      · simp only [String.reduceToList, List.mem_cons, List.not_mem_nil, or_false] at hsymbol
        rcases hsymbol with rfl | rfl | rfl | rfl | rfl | rfl <;> cases hblank
    have hname : x.filter Text.isBlank = [] := by
      refine List.filter_eq_nil_iff.2 fun c hc hblank => ?_
      have hdelimiter := isDelimiter_iff.2 (.inl hblank)
      rw [h.2 c hc] at hdelimiter
      cases hdelimiter
    exact hvalue.trans hname.symm

theorem spelled_eq_text (vars : Store) {l : Lexeme} (h : ∀ x, l ≠ .name x) :
    l.spelled vars = l.text := by
  cases l with
  | literal digits => rfl
  | delimiter d => rfl
  | name x => exact absurd rfl (h x)

end Lexeme

/-- A text of digits and delimiters has no lexeme that is a name. -/
theorem ne_name_of_kept {t : Text} (ht : ∀ c ∈ t, c.isDigit = true ∨ isDelimiter c = true)
    {x : Text} : Lexeme.name x ∉ lexemes t := by
  intro hx
  obtain ⟨ls₁, ls₂, hsplit⟩ := List.append_of_mem hx
  obtain ⟨htext, ⟨c, hhead, hd⟩, hrun, -, -⟩ := nameIn_of_split hsplit
  have hc : c ∈ x := List.mem_of_mem_head? hhead
  have hmem : c ∈ t := by
    rw [htext]
    exact List.mem_append_right _ (List.mem_append_left _ hc)
  rcases ht c hmem with h | h
  · rw [hd] at h
    cases h
  · rw [hrun c hc] at h
    cases h

/-- Of such a text no character is unexpected. -/
theorem fails_evaluate {t : Text} (ht : ∀ c ∈ t, c.isDigit = true ∨ isDelimiter c = true) :
    Fails (fun e => ¬ "UNEXPECTED".toList <+: e.detail) (evaluate t) := by
  have htoken : ∀ l ∈ significant (lexemes t),
      Fails (fun e => ¬ "UNEXPECTED".toList <+: e.detail) l.token := by
    intro l hl
    obtain ⟨hmem, hblank⟩ := List.mem_filter.1 hl
    have hproper := (lexed t).proper l hmem
    cases l with
    | name x => exact absurd hmem (ne_name_of_kept ht)
    | delimiter c =>
      have hsolid : Text.isBlank c = false := by simpa [Lexeme.isBlank] using hblank
      obtain ⟨token, htoken⟩ := exists_token_of_isDelimiter hproper hsolid
      rw [Lexeme.token, htoken]
      exact .ok token
    | literal digits =>
      refine Fails.map ((Value.fails_ofDigits digits).imp ?_) _
      rintro e rfl hunexpected
      have hd := hproper 'U' (hunexpected.subset (by decide))
      cases hd
  have hread : Fails (fun e => ¬ "UNEXPECTED".toList <+: e.detail) (Token.readAll t) := by
    rw [readAll_eq_mapM]
    exact .mapM htoken
  refine hread.bind fun tokens => (fails_evaluateTokens tokens).imp fun e he => ?_
  cases he <;> decide

/-- A substitution succeeds exactly if every name that stands in the text is declared, and
otherwise its error names the leftmost one that is not. It writes digits, operators, parentheses
and the blanks of the text, of which no evaluation finds a character unexpected; and a text without
names stays as it is. -/
theorem substitute_resolves_names (vars : Store) (s : Text) :
    ((∃ t, substitute vars s = .ok t) ↔
      ∀ before x after, NameIn s before x after → vars.contains x = true) ∧
    (∀ e, substitute vars s = .error e → ∃ before x after, NameIn s before x after ∧
      vars.contains x = false ∧
      (∀ before' x' after', NameIn s before' x' after' → vars.contains x' = false →
        before.length ≤ before'.length) ∧ e = .about .undeclared x) ∧
    (∀ t, substitute vars s = .ok t →
      (∀ c ∈ t, c.isDigit = true ∨ c ∈ "+-*/()".toList ∨ Text.isBlank c = true) ∧
      t.filter Text.isBlank = s.filter Text.isBlank ∧
      ∀ e, evaluate t = .error e → ¬ "UNEXPECTED".toList <+: e.detail) ∧
    ((∀ before x after, ¬NameIn s before x after) → substitute vars s = .ok s) := by
  have hresolved (h : ∀ before x after, NameIn s before x after → vars.contains x = true) :
      ∃ t, substitute vars s = .ok t := by
    cases hsub : substitute vars s with
    | ok t => exact ⟨t, rfl⟩
    | error e =>
      obtain ⟨before, x, after, hx, hnot, -⟩ := undeclared_of_substitute hsub
      rw [h before x after hx] at hnot
      cases hnot
  refine ⟨⟨fun ⟨t, ht⟩ before x after hx => contains_of_substitute ht hx, hresolved⟩,
    fun e he => undeclared_of_substitute he, fun t ht => ?_, fun hnone => ?_⟩
  · have hproper := (lexed s).proper
    have hkept : ∀ c ∈ t, c.isDigit = true ∨ isDelimiter c = true := by
      rw [eq_of_substitute ht]
      exact List.forall_mem_flatMap.2 fun l hl c hc => Lexeme.mem_spelled (hproper l hl) hc
    refine ⟨fun c hc => ?_, ?_, fails_evaluate hkept⟩
    · exact (hkept c hc).imp_right fun hdelimiter => (isDelimiter_iff.1 hdelimiter).symm
    · conv_rhs => rw [(lexed s).text_eq]
      rw [eq_of_substitute ht, List.filter_flatMap, List.filter_flatMap]
      exact List.flatMap_congr fun l hl => Lexeme.filter_spelled vars (hproper l hl)
  · obtain ⟨t, ht⟩ := hresolved fun before x after hx => absurd hx (hnone before x after)
    have hsame : t = s := by
      conv_rhs => rw [(lexed s).text_eq]
      rw [eq_of_substitute ht]
      refine List.flatMap_congr fun l hl => Lexeme.spelled_eq_text vars ?_
      rintro x rfl
      obtain ⟨ls₁, ls₂, hsplit⟩ := List.append_of_mem hl
      exact hnone _ _ _ (nameIn_of_split hsplit)
    rw [ht, hsame]

/-- A character that starts no token is part of a name, and the names after that one do not
matter. -/
theorem substitute_resolves_names_comma :
    let s := "2N *(A1,7-B)".toList
    ∃ vars, Store.empty.declare ['N'] = .ok vars ∧
      substitute vars s = .error (.about .undeclared "A1,7".toList) ∧
      ∃ before x after, NameIn s before x after ∧ vars.contains x = false ∧
        (∀ before' x' after', NameIn s before' x' after' → vars.contains x' = false →
          before.length ≤ before'.length) ∧
        Error.about .undeclared "A1,7".toList = .about .undeclared x := by
  intro s
  let vars : Store := ⟨Store.empty.table.insert ['N'] .fresh⟩
  have hsub : substitute vars s = .error (.about .undeclared "A1,7".toList) := by decide +kernel
  exact ⟨vars, rfl, hsub, (substitute_resolves_names vars s).2.1 _ hsub⟩

end Expr
end LineScript
