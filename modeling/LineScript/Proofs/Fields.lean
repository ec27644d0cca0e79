import Mathlib.Data.List.DropRight
import Mathlib.Data.List.Forall2
import LineScript.Proofs.Invariant

/-!
The fields of an answer. They are counted and read before anything is assigned, so what comes of an
answer is one of two things: each field is the decimal numeral of a value and every variable is
assigned the last value for it (`Assigned`), or the answer is refused for its number of fields or
for its first bad field (`Refused`). Where all the variables are declared, nothing else can happen
(`assigned_of_assign`, `refused_of_assign`).
-/
namespace LineScript

/-- The decimal numerals of a value: digits, with or without a sign before them. -/
inductive Decimal : Text → Value → Prop where
  | plain {digits : Text} {v : Value} (hd : Text.isDigits digits = true)
      (hv : v.toInt = Nat.ofDigitChars 10 digits 0) : Decimal digits v
  | plus {digits : Text} {v : Value} (hd : Text.isDigits digits = true)
      (hv : v.toInt = Nat.ofDigitChars 10 digits 0) : Decimal ('+' :: digits) v
  | minus {digits : Text} {v : Value} (hd : Text.isDigits digits = true)
      (hv : v.toInt = -Nat.ofDigitChars 10 digits 0) : Decimal ('-' :: digits) v

namespace Text

theorem words_append_cons {c : Char} (hc : isBlank c = true) (s t : Text) :
    words (s ++ c :: t) = words s ++ words t := by
  rw [words, List.splitOnP_append_cons s t hc, List.filter_append]
  rfl

/-- Blanks at the end of a text belong to no word. -/
theorem words_append_blank (s : Text) {gap : Text} (h : ∀ c ∈ gap, isBlank c = true) :
    words (s ++ gap) = words s := by
  induction gap generalizing s with
  | nil => rw [List.append_nil]
  | cons c gap ih =>
    obtain ⟨hc, hgap⟩ := List.forall_mem_cons.1 h
    have hnone : words gap = words [] := ih [] hgap
    rw [words_append_cons hc, hnone]
    exact List.append_nil _

/-- The line ends at the end of a line belong to no word. -/
theorem words_chomp (line : Text) : words (Machine.chomp line) = words line := by
  let isEnd : Char → Bool := fun c => c == '\r' || c == '\n'
  have hends : ∀ c ∈ line.rtakeWhile isEnd, isBlank c = true := by
    intro c hc
    have hc : isEnd c = true := List.mem_rtakeWhile_imp hc
    rcases Bool.or_eq_true_iff.1 hc with hc | hc
    · rw [eq_of_beq hc]
      rfl
    · rw [eq_of_beq hc]
      rfl
  have hsplit : Machine.chomp line ++ line.rtakeWhile isEnd = line :=
    List.rdropWhile_append_rtakeWhile
  have hwords := words_append_blank (Machine.chomp line) hends
  rw [hsplit] at hwords
  exact hwords.symm

end Text

namespace Value

theorem read?_eq_some_iff {s : Text} {v : Value} : read? s = some v ↔ Decimal s v := by
  constructor
  · intro h
    obtain ⟨i, hi, hv⟩ := Option.bind_eq_some_iff.1 h
    rw [ofInt?_eq_some_iff] at hv
    unfold Text.integer? at hi
    split at hi <;> obtain ⟨n, hn, rfl⟩ := Option.map_eq_some_iff.1 hi <;>
      obtain ⟨hd, rfl⟩ := Text.natural?_eq_some_iff.1 hn
    · exact .plus hd hv
    · exact .minus hd hv
    · exact .plain hd hv
  · intro h
    apply Option.bind_eq_some_iff.2
    refine ⟨v.toInt, ?_, ofInt?_toInt v⟩
    cases h with
    | plain hd hv =>
      rw [Text.integer?_of_isDigits hd, Text.natural?_eq_some_iff.2 ⟨hd, rfl⟩, hv]
      rfl
    | plus hd hv =>
      rw [Text.integer?, Text.natural?_eq_some_iff.2 ⟨hd, rfl⟩, hv]
      rfl
    | minus hd hv =>
      rw [Text.integer?, Text.natural?_eq_some_iff.2 ⟨hd, rfl⟩, hv]
      rfl

theorem decimal_text (v : Value) : Decimal v.text v :=
  read?_eq_some_iff.1 v.read?_text

end Value

theorem Decimal.unique {f : Text} {v w : Value} (hv : Decimal f v) (hw : Decimal f w) : v = w :=
  Option.some.inj ((Value.read?_eq_some_iff.2 hv).symm.trans (Value.read?_eq_some_iff.2 hw))

namespace Store

variable {s t : Store} {x : Text} {v : Value}

theorem lookup?_of_notMem {assignments : List (Text × Value)}
    (h : s.assignAll assignments = .ok t) (hx : ∀ a ∈ assignments, a.1 ≠ x) :
    t.lookup? x = s.lookup? x := by
  induction assignments generalizing s with
  | nil =>
    cases h
    rfl
  | cons a rest ih =>
    obtain ⟨ha, hrest⟩ := List.forall_mem_cons.1 hx
    obtain ⟨u, hu, h⟩ := Error.exists_of_bind_ok h
    rw [ih h hrest, lookup?_of_assign hu, if_neg ha]

/-- Of the values for a name the last one stays. -/
theorem lookup?_of_last {names : List Text} {values : List Value} {j : Nat}
    (h : s.assignAll (names.zip values) = .ok t) (hx : names[j]? = some x)
    (hv : values[j]? = some v) (hlast : ∀ k, j < k → names[k]? ≠ some x) :
    t.lookup? x = some ⟨v, true⟩ := by
  induction names generalizing s values j with
  | nil => simp at hx
  | cons name names ih =>
    cases values with
    | nil => simp at hv
    | cons value values =>
      obtain ⟨u, hu, h⟩ := Error.exists_of_bind_ok h
      cases j with
      | zero =>
        obtain rfl : name = x := by simpa using hx
        obtain rfl : value = v := by simpa using hv
        have hrest : ∀ a ∈ names.zip values, a.1 ≠ name := by
          intro a ha heq
          obtain ⟨k, hk⟩ := List.mem_iff_getElem?.1 (List.of_mem_zip ha).1
          exact hlast (k + 1) (Nat.succ_pos k) (by simpa [heq] using hk)
        rw [lookup?_of_notMem h hrest, lookup?_of_assign hu, if_pos rfl]
      | succ j =>
        apply ih h (by simpa using hx) (by simpa using hv)
        intro k hk
        have hnext := hlast (k + 1) (Nat.succ_lt_succ hk)
        simpa using hnext

end Store

namespace Answer

/-- The fields give the variables these values, one each and in order. A variable that is named
more than once has the last of its values, and one that is not named is as it was. -/
structure Assigned (names fields : List Text) (values : List Value) (old new : Store) : Prop where
  decimals : List.Forall₂ Decimal fields values
  length_eq : values.length = names.length
  last : ∀ (j : Nat) x v, names[j]? = some x → values[j]? = some v →
    (∀ k : Nat, j < k → names[k]? ≠ some x) → new.lookup? x = some ⟨v, true⟩
  others : ∀ x, x ∉ names → new.lookup? x = old.lookup? x

/-- The fields are not as many as the variables, or the first of them that is no decimal numeral of
a value is named. -/
inductive Refused (names fields : List Text) : Error → Prop where
  | count (h : fields.length ≠ names.length) : Refused names fields (missing names.length)
  | field {before after : List Text} {f : Text} (hlength : fields.length = names.length)
      (hfields : fields = before ++ f :: after) (hbefore : ∀ g ∈ before, ∃ v, Decimal g v)
      (hf : ∀ v, ¬ Decimal f v) : Refused names fields (.about .badNumber f)

variable {names fields : List Text} {line : Text} {vars new : Store} {values : List Value}
  {e : Error}

/-- Distinct names have the values that are assigned to them. -/
theorem Assigned.lookup?_of_nodup (h : Assigned names fields values vars new)
    (hnodup : names.Nodup) :
    List.Forall₂ (fun x v => new.lookup? x = some ⟨v, true⟩) names values := by
  refine List.forall₂_iff_get.2 ⟨h.length_eq.symm, fun j hname hvalue => ?_⟩
  refine h.last j _ _ (List.getElem?_eq_getElem hname) (List.getElem?_eq_getElem hvalue) ?_
  intro k hk hsame
  have hindex : j = k :=
    (List.getElem?_inj hname hnodup).1 ((List.getElem?_eq_getElem hname).trans hsame.symm)
  omega

theorem value_of_decimal {f : Text} {v : Value} (h : Decimal f v) : value f = .ok v := by
  rw [value, Value.read?_eq_some_iff.2 h]

theorem value_of_not_decimal {f : Text} (h : ∀ v, ¬ Decimal f v) :
    value f = .error (.about .badNumber f) := by
  cases hr : Value.read? f with
  | none => rw [value, hr]
  | some v => exact absurd (Value.read?_eq_some_iff.1 hr) (h v)

theorem mapM_value (h : List.Forall₂ Decimal fields values) : fields.mapM value = .ok values := by
  induction h with
  | nil => rfl
  | cons hf _ ih =>
    rw [List.mapM_cons, value_of_decimal hf, ih]
    rfl

/-- The error of a list of fields is that of the first bad one. -/
theorem mapM_value_error {before after : List Text} {f : Text}
    (hbefore : ∀ g ∈ before, ∃ v, Decimal g v) (hf : ∀ v, ¬ Decimal f v) :
    (before ++ f :: after).mapM value = .error (.about .badNumber f) := by
  induction before with
  | nil =>
    rw [List.nil_append, List.mapM_cons, value_of_not_decimal hf]
    rfl
  | cons g before ih =>
    obtain ⟨⟨v, hg⟩, hbefore⟩ := List.forall_mem_cons.1 hbefore
    rw [List.cons_append, List.mapM_cons, value_of_decimal hg, ih hbefore]
    rfl

theorem values_of_length_eq (hne : names ≠ []) (h : (Text.words line).length = names.length) :
    Answer.values names.length line = (Text.words line).mapM value := by
  have hfields : Text.words line ≠ [] := by
    intro hnil
    rw [hnil, List.length_nil] at h
    exact hne (List.length_eq_zero_iff.1 h.symm)
  simp [Answer.values, h, hfields]

/-- Every field is a decimal numeral, or there is a first one that is not. -/
theorem decimals_or_first_bad (fields : List Text) :
    (∃ values, List.Forall₂ Decimal fields values) ∨ ∃ before f after,
      fields = before ++ f :: after ∧ (∀ g ∈ before, ∃ v, Decimal g v) ∧ ∀ v, ¬ Decimal f v := by
  induction fields with
  | nil => exact .inl ⟨[], .nil⟩
  | cons f fields ih =>
    by_cases hf : ∃ v, Decimal f v
    · rcases ih with ⟨values, hvalues⟩ | ⟨before, g, after, rfl, hbefore, hg⟩
      · obtain ⟨v, hv⟩ := hf
        exact .inl ⟨v :: values, .cons hv hvalues⟩
      · exact .inr ⟨f :: before, g, after, rfl, List.forall_mem_cons.2 ⟨hf, hbefore⟩, hg⟩
    · exact .inr ⟨[], f, fields, rfl, List.forall_mem_nil _, not_exists.1 hf⟩

theorem decimals_or_refused (names fields : List Text) :
    (∃ values, List.Forall₂ Decimal fields values ∧ values.length = names.length) ∨
      ∃ e, Refused names fields e := by
  by_cases hlength : fields.length = names.length
  · rcases decimals_or_first_bad fields with ⟨values, hv⟩ | ⟨before, f, after, hf, hbefore, hbad⟩
    · exact .inl ⟨values, hv, hv.length_eq.symm.trans hlength⟩
    · exact .inr ⟨_, .field hlength hf hbefore hbad⟩
  · exact .inr ⟨_, .count hlength⟩

theorem assign_of_refused (hne : names ≠ []) (h : Refused names (Text.words line) e)
    (vars : Store) : assign names line vars = .error e := by
  have hvalues : Answer.values names.length line = .error e := by
    cases h with
    | count h => simp [Answer.values, h]
    | field hlength hfields hbefore hf =>
      rw [values_of_length_eq hne hlength, hfields, mapM_value_error hbefore hf]
  rw [assign, hvalues]
  rfl

/-- Assigning cannot fail any more, because the variables are declared. -/
theorem exists_assign_of_decimals (hne : names ≠ [])
    (hdeclared : ∀ x ∈ names, vars.contains x = true)
    (hdecimals : List.Forall₂ Decimal (Text.words line) values)
    (hlength : values.length = names.length) :
    ∃ new, assign names line vars = .ok new ∧
      Assigned names (Text.words line) values vars new := by
  obtain ⟨new, hnew⟩ : ∃ new, vars.assignAll (names.zip values) = .ok new := by
    apply Store.assignAll_of_contains
    intro a ha
    exact hdeclared a.1 (List.of_mem_zip ha).1
  refine ⟨new, ?_, hdecimals, hlength, ?_, ?_⟩
  · rw [assign, values_of_length_eq hne (hdecimals.length_eq.trans hlength), mapM_value hdecimals]
    exact hnew
  · intro j x v hx hv hlast
    exact Store.lookup?_of_last hnew hx hv hlast
  · intro x hx
    apply Store.lookup?_of_notMem hnew
    intro a ha heq
    exact hx (heq ▸ (List.of_mem_zip ha).1)

theorem assigned_of_assign (hne : names ≠ []) (hdeclared : ∀ x ∈ names, vars.contains x = true)
    (h : assign names line vars = .ok new) :
    ∃ values, Assigned names (Text.words line) values vars new := by
  rcases decimals_or_refused names (Text.words line) with ⟨values, hdecimals, hlength⟩ | ⟨e, he⟩
  · obtain ⟨new', hnew, hassigned⟩ := exists_assign_of_decimals hne hdeclared hdecimals hlength
    cases h.symm.trans hnew
    exact ⟨values, hassigned⟩
  · cases h.symm.trans (assign_of_refused hne he vars)

theorem refused_of_assign (hne : names ≠ []) (hdeclared : ∀ x ∈ names, vars.contains x = true)
    (h : assign names line vars = .error e) : Refused names (Text.words line) e := by
  rcases decimals_or_refused names (Text.words line) with ⟨values, hdecimals, hlength⟩ | ⟨e', he⟩
  · obtain ⟨new, hnew, -⟩ := exists_assign_of_decimals hne hdeclared hdecimals hlength
    cases h.symm.trans hnew
  · cases h.symm.trans (assign_of_refused hne he vars)
    exact he

end Answer
end LineScript
