import Mathlib.Algebra.Group.Nat.Defs
import LineScript.Proofs.Quotation

/-!
Which source texts are read. A line of a text is blank, or it has a number and an instruction, and
the first line that is neither is the one that the error is about. It is named by its number if
that is all it has, and otherwise by its place in the text, in which every line counts.
-/
namespace LineScript

/-- A text in lines: each ends with a line feed, which a carriage return may come before, and what
follows the last line feed is a line too unless it is nothing. -/
inductive Text.InLines : Text → List Text → Prop where
  | nil : InLines [] []
  | last {t : Text} (ht : '\n' ∉ t) (hne : t ≠ []) : InLines t [t]
  | ended {t s : Text} {ts : List Text} (ht : '\n' ∉ t) (hreturn : t.getLast? ≠ some '\r')
      (h : InLines s ts) : InLines (t ++ '\n' :: s) (t :: ts)
  | returned {t s : Text} {ts : List Text} (ht : '\n' ∉ t) (h : InLines s ts) :
      InLines (t ++ '\r' :: '\n' :: s) (t :: ts)

namespace Text

/-- The first line of a text is what stands before the first line feed. -/
theorem lines_append_cons {t : Text} (ht : '\n' ∉ t) (s : Text) :
    lines (t ++ '\n' :: s) = dropReturn t :: lines s := by
  have hne := List.splitOn_ne_nil '\n' s
  rw [lines, List.splitOn_append_cons_self_of_not_mem ht, List.dropLast_cons_of_ne_nil hne,
    List.map_cons, List.getLast?_cons_of_ne_nil hne, lines, List.cons_append]

theorem dropReturn_concat (t : Text) : dropReturn (t ++ ['\r']) = t := by
  simp [dropReturn]

theorem dropReturn_of_ne {t : Text} (h : t.getLast? ≠ some '\r') : dropReturn t = t :=
  if_neg h

theorem inLines_lines (s : Text) : InLines s (lines s) := by
  generalize hlength : s.length = length
  induction length using Nat.strongRecOn generalizing s with
  | ind length ih =>
    by_cases hs : '\n' ∈ s
    · obtain ⟨t, rest, rfl, ht⟩ := List.eq_append_cons_of_mem hs
      have hrest : InLines rest (lines rest) :=
        ih rest.length (by simp only [← hlength, List.length_append, List.length_cons]; omega) rest
          rfl
      rw [lines_append_cons ht]
      by_cases hreturn : t.getLast? = some '\r'
      · obtain ⟨u, rfl⟩ := List.getLast?_eq_some_iff.1 hreturn
        have hu : '\n' ∉ u := fun hmem => ht (List.mem_append_left _ hmem)
        rw [dropReturn_concat, List.append_assoc]
        exact .returned hu hrest
      · rw [dropReturn_of_ne hreturn]
        exact .ended ht hreturn hrest
    · cases s with
      | nil => exact .nil
      | cons c s =>
        rw [lines_of_newline_notMem hs (List.cons_ne_nil c s)]
        exact .last hs (List.cons_ne_nil c s)

/-- There is one way to take a text apart into its lines. -/
theorem inLines_iff {s : Text} {ts : List Text} : InLines s ts ↔ lines s = ts := by
  constructor
  · intro h
    induction h with
    | nil => rfl
    | last ht hne => exact lines_of_newline_notMem ht hne
    | ended ht hreturn _ ih => rw [lines_append_cons ht, dropReturn_of_ne hreturn, ih]
    | @returned t s ts ht _ ih =>
      have hline : '\n' ∉ t ++ ['\r'] := by simpa using ht
      have hlines := lines_append_cons hline s
      rw [dropReturn_concat, ih, List.append_assoc] at hlines
      exact hlines
  · rintro rfl
    exact inLines_lines s

instance (s : Text) (ts : List Text) : Decidable (InLines s ts) :=
  decidable_of_iff _ inLines_iff.symm

theorem trim_eq_nil_iff {s : Text} : trim s = [] ↔ ∀ c ∈ s, isBlank c = true := by
  constructor
  · intro h
    obtain ⟨before, after, hbefore, hafter, hs⟩ := exists_trim s
    rw [hs, h]
    exact List.forall_mem_append.2 ⟨hbefore, hafter⟩
  · exact trim_of_blank

theorem splitWord_of_solid {s : Text} (h : ∀ c ∈ s, isBlank c = false) :
    splitWord s = (s, []) := by
  have hsolid : ∀ c ∈ s, (!isBlank c) = true := fun c hc => by rw [h c hc]; rfl
  rw [splitWord, List.takeWhile_eq_self_iff.2 hsolid, List.dropWhile_eq_nil_iff.2 hsolid]
  rfl

/-- A text is its first word, the blanks after it, and the rest. -/
theorem exists_of_splitWord {s word rest : Text} (h : splitWord s = (word, rest)) :
    ∃ gap, (∀ c ∈ gap, isBlank c = true) ∧ s = word ++ (gap ++ rest) ∧ (gap = [] → rest = []) := by
  cases h
  have hhead := List.head?_dropWhile_not (fun c => !isBlank c) s
  have hword := List.takeWhile_append_dropWhile (p := fun c => !isBlank c) (l := s)
  generalize (s.dropWhile fun c => !isBlank c) = tail at hhead hword ⊢
  refine ⟨tail.takeWhile isBlank, fun c hc => List.mem_takeWhile_imp hc, ?_, fun hgap => ?_⟩
  · rw [trimStart, List.takeWhile_append_dropWhile, hword]
  · -- the tail begins with a blank, if it begins at all
    cases tail with
    | nil => rfl
    | cons c tail =>
      have hc : isBlank c = true := by simpa using hhead
      simp [hc] at hgap

end Text

namespace Line

/-- The digits of a line number: no sign, and zeros may come first. -/
structure IsNumber (s : Text) (n : Nat) : Prop where
  ne_nil : s ≠ []
  digits : ∀ c ∈ s, c.isDigit = true
  value : Nat.ofDigitChars 10 s 0 = n
  pos : 1 ≤ n
  le : n ≤ 2 ^ 32 - 1

/-- A line of a source text that can be read: it is blank, or there are a number, blanks and
something more in it. -/
inductive Proper (t : Text) : Prop where
  | blank (h : ∀ c ∈ t, Text.isBlank c = true)
  | numbered {digits gap code : Text} {n : Nat} (hdigits : IsNumber digits n)
      (hgap : ∀ c ∈ gap, Text.isBlank c = true) (hgapne : gap ≠ []) (hcode : code ≠ [])
      (h : Text.trim t = digits ++ (gap ++ code))

variable {t : Text} {n : Nat}

theorem number?_eq_some_iff : number? t = some n ↔ IsNumber t n := by
  rw [number?, Option.filter_eq_some_iff, Text.natural?_eq_some_iff]
  simp only [Text.isDigits, Bool.and_eq_true, Bool.not_eq_true', List.isEmpty_eq_false_iff,
    List.all_eq_true, decide_eq_true_eq]
  constructor
  · rintro ⟨⟨⟨hne, hdigits⟩, hvalue⟩, hpos, hlt⟩
    exact ⟨hne, hdigits, hvalue.symm, hpos, Nat.le_sub_one_of_lt hlt⟩
  · intro h
    exact ⟨⟨⟨h.ne_nil, h.digits⟩, h.value.symm⟩, h.pos, Nat.lt_succ_of_le h.le⟩

instance (t : Text) (n : Nat) : Decidable (IsNumber t n) :=
  decidable_of_iff _ number?_eq_some_iff

theorem IsNumber.solid (h : IsNumber t n) : ∀ c ∈ t, Text.isBlank c = false := by
  intro c hc
  exact Name.isBlank_of_isPart (by simp [Name.isPart, h.digits c hc])

theorem parse_trim (t : Text) : parse (Text.trim t) = parse t := by
  rw [parse, parse, Text.trim_trim]

/-- A line with a number and an instruction is read. -/
theorem exists_parse_of_numbered {digits gap code : Text} (hdigits : IsNumber digits n)
    (hgap : ∀ c ∈ gap, Text.isBlank c = true) (hgapne : gap ≠ []) (hcode : code ≠ [])
    (h : Text.trim t = digits ++ (gap ++ code)) : ∃ line, parse t = .ok line := by
  have hlast : code.getLast? = (Text.trim t).getLast? := by
    rw [h, ← List.append_assoc, List.getLast?_append_of_ne_nil _ hcode]
  have htrim : Text.trim code ≠ [] := by
    intro hblank
    have hend := List.getLast?_eq_some_getLast hcode
    have hsolid := (Text.tight_trim t).last _ (hlast ▸ hend)
    rw [Text.trim_eq_nil_iff.1 hblank _ (List.getLast_mem hcode)] at hsolid
    cases hsolid
  have hnumber := number?_eq_some_iff.2 hdigits
  have hparse := parse_numbered (List.forall_mem_nil _) hnumber hgap hgapne htrim
  rw [List.nil_append, ← h, parse_trim] at hparse
  exact ⟨_, hparse⟩

/-- What is wrong with any other line: if it has a number and nothing else, an instruction is
missing. -/
theorem parse_of_not_proper (h : ¬ Proper t) :
    parse t = .error ((number? (Text.trim t)).elim badNumber missingInstruction) := by
  cases hnumber : number? (Text.trim t) with
  | some n =>
    have hsplit := Text.splitWord_of_solid (number?_eq_some_iff.1 hnumber).solid
    rw [parse, hsplit]
    simp only [hnumber]
    rfl
  | none =>
    obtain ⟨word, code, hsplit⟩ : ∃ word code, Text.splitWord (Text.trim t) = (word, code) :=
      ⟨_, _, rfl⟩
    obtain ⟨gap, hgap, htext, hgapne⟩ := Text.exists_of_splitWord hsplit
    rw [parse, hsplit]
    cases hword : number? word with
    | none => simp only [hword, Option.elim_none]
    | some n =>
      exfalso
      have hdigits := number?_eq_some_iff.1 hword
      by_cases hcode : code = []
      · -- nothing follows the word, so it is all of the line
        have hall := Text.trim_append_of_solid hdigits.solid hgap
        rw [hcode, List.append_nil] at htext
        rw [← htext, Text.trim_trim] at hall
        rw [hall, hword] at hnumber
        cases hnumber
      · exact h (.numbered hdigits hgap (mt hgapne hcode) hcode htext)

end Line

namespace Listing

variable {t : Text}

theorem loads_iff_proper : Loads t ↔ Line.Proper t := by
  constructor
  · intro h
    by_contra hno
    rcases h with hblank | hsome
    · exact hno (.blank (Text.trim_eq_nil_iff.1 hblank))
    · rw [Line.ofText?, Line.parse_of_not_proper hno] at hsome
      cases hsome
  · rintro (hblank | ⟨hdigits, hgap, hgapne, hcode, h⟩)
    · exact .inl (Text.trim_of_blank hblank)
    · obtain ⟨line, hline⟩ := Line.exists_parse_of_numbered hdigits hgap hgapne hcode h
      exact .inr (by rw [ofText?_of_parse hline]; rfl)

instance (t : Text) : Decidable (Line.Proper t) :=
  decidable_of_iff _ loads_iff_proper

/-- Reading the lines of a text one after the other, to the first that is refused. -/
theorem foldlM_addText_eq_error {before after : List Text} {index : Nat} {e : Error} (l : Listing)
    (hbefore : ∀ u ∈ before, Loads u) (ht : ¬ Loads t) (he : Line.parse t = .error e) :
    ((before ++ t :: after).zipIdx index).foldlM
        (fun l (line, index) => (l.addText line).mapError (blame (index + 1))) l =
      .error (blame (index + before.length + 1) e) := by
  have hadd (l : Listing) : l.addText t = .error e := by
    rcases addText_cases t l with ⟨hblank, -⟩ | ⟨line, hline, -⟩ | ⟨e', -, he', hadd⟩
    · exact absurd (.inl hblank) ht
    · cases he.symm.trans hline
    · cases he.symm.trans he'
      exact hadd
  rw [List.zipIdx_append, List.foldlM_append, foldlM_addText_eq_ok_iff.2 ⟨hbefore, rfl⟩,
    List.zipIdx_cons]
  show Except.bind (Except.mapError _ (addText t _)) _ = _
  rw [hadd]
  rfl

theorem parse_eq_error {s : Text} {before after : List Text}
    (hlines : Text.lines s = before ++ t :: after) (hbefore : ∀ u ∈ before, Line.Proper u)
    (ht : ¬ Line.Proper t) :
    parse s = .error (blame (before.length + 1)
      ((Line.number? (Text.trim t)).elim Line.badNumber Line.missingInstruction)) := by
  have hloads : ∀ u ∈ before, Loads u := fun u hu => loads_iff_proper.2 (hbefore u hu)
  rw [parse, hlines, foldlM_addText_eq_error empty hloads (mt loads_iff_proper.1 ht)
    (Line.parse_of_not_proper ht), Nat.zero_add]

/-- A source text is read if each of its lines is blank or has a number and an instruction. The
error of any other text is about its first line that is neither: an instruction is missing there,
if the line is a number and nothing else, and otherwise the place of the line in the text is
told. -/
theorem reads_proper_lines (s : Text) :
    (∃ ts, Text.InLines s ts) ∧ ∀ ts, Text.InLines s ts →
      ((∃ l, parse s = .ok l) ↔ ∀ t ∈ ts, Line.Proper t) ∧
      ∀ before t after, ts = before ++ t :: after → (∀ u ∈ before, Line.Proper u) →
        ¬ Line.Proper t →
        (∀ n, Line.IsNumber (Text.trim t) n → parse s =
          .error { kind := .malformed, line := some n, detail := "MISSING INSTRUCTION".toList }) ∧
        ((∀ n, ¬ Line.IsNumber (Text.trim t) n) → parse s = .error {
          kind := .malformed
          line := none
          detail := "INVALID LINE NUMBER IN LINE ".toList ++ Text.ofNat (before.length + 1) ++
            " OF THE FILE".toList }) := by
  refine ⟨⟨_, Text.inLines_lines s⟩, fun ts hts => ?_⟩
  obtain rfl := Text.inLines_iff.1 hts
  constructor
  · simp only [parse_eq_ok_iff, loads_iff_proper, exists_and_left, exists_eq, and_true]
  · intro before t after hlines hbefore ht
    have hparse := parse_eq_error hlines hbefore ht
    constructor
    · intro n hn
      rw [hparse, Line.number?_eq_some_iff.2 hn]
      rfl
    · intro hno
      have hnumber : Line.number? (Text.trim t) = none :=
        Option.eq_none_iff_forall_ne_some.2 fun n hn => hno n (Line.number?_eq_some_iff.1 hn)
      rw [hparse, hnumber]
      rfl

/-- A sign before the number of the third line, after a line that is blank; and a line with its
number alone, which is named by it. -/
theorem reads_proper_lines_signed :
    (∃ l, parse "010 END\r\n \n".toList = .ok l) ∧
    parse "010 END\r\n \n+7 RET\n20\n".toList =
      .error (.about .malformed "INVALID LINE NUMBER IN LINE 3 OF THE FILE".toList) ∧
    parse "10 END\r\n\n 0020 \n+7 RET".toList = .error (Line.missingInstruction 20) := by
  refine ⟨?_, ?_, ?_⟩
  · refine ((reads_proper_lines _).2 ["010 END".toList, " ".toList] (by decide +kernel)).1.2 ?_
    decide +kernel
  · refine (((reads_proper_lines _).2 ["010 END".toList, " ".toList, "+7 RET".toList, "20".toList]
      (by decide +kernel)).2 ["010 END".toList, " ".toList] _ _ rfl (by decide +kernel)
        (by decide +kernel)).2 fun n hn => ?_
    cases hn.digits '+' (by decide +kernel)
  · exact (((reads_proper_lines _).2 ["10 END".toList, [], " 0020 ".toList, "+7 RET".toList]
      (by decide +kernel)).2 ["10 END".toList, []] _ _ rfl (by decide +kernel)
        (by decide +kernel)).1 20 (by decide +kernel)

end Listing
end LineScript
