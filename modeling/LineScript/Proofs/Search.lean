import LineScript.Proofs.Canonical

/-!
The search for THEN stops at the first that is free, and goes through the whole text if none is.
Searching by the byte comes to the same: `SearchAt` looks for the next THEN in an upper-case copy,
cuts the text itself at the offset found there, and goes on behind a THEN that is not free. An
offset that is past the end or inside a character would leave it without a result.
-/
namespace LineScript

theorem Name.utf8Size_of_isStart {c : Char} (h : isStart c = true) : c.utf8Size = 1 := by
  have hs := toNat_of_isStart h
  have hascii : c.toNat ≤ 127 := by omega
  exact Char.utf8Size_eq_one_iff.2 (UInt32.le_iff_toNat_le.2 hascii)

namespace Text

theorem byteCount_append (s t : Text) : byteCount (s ++ t) = byteCount s + byteCount t := by
  have hfrom : t.foldl (fun count c => count + c.utf8Size) (byteCount s + 0) =
      byteCount s + byteCount t :=
    List.foldl_hom (byteCount s + ·) fun count c => Nat.add_assoc (byteCount s) count c.utf8Size
  rw [byteCount, List.foldl_append]
  exact hfrom

theorem byteCount_cons (c : Char) (s : Text) : byteCount (c :: s) = c.utf8Size + byteCount s := by
  rw [← List.singleton_append, byteCount_append, byteCount, List.foldl_cons, List.foldl_nil,
    Nat.zero_add]

/-- Upper case only changes the case of ASCII letters, so every character keeps its width. -/
theorem utf8Size_toUpper (c : Char) : c.toUpper.utf8Size = c.utf8Size := by
  rcases toUpper_cases c with hself | hupper
  · rw [hself]
  · have halpha : c.toUpper.isAlpha = true := Bool.or_eq_true_iff.2 (.inl hupper)
    have hstart : Name.isStart c.toUpper = true := by simp [Name.isStart, halpha]
    rw [Name.utf8Size_of_isStart hstart, Name.utf8Size_of_isStart (Name.isStart_of_toUpper hstart)]

theorem byteCount_upper (s : Text) : byteCount (upper s) = byteCount s := by
  induction s with
  | nil => rfl
  | cons c s ih =>
    show byteCount (c.toUpper :: upper s) = _
    rw [byteCount_cons, byteCount_cons, utf8Size_toUpper, ih]

/-- The text up to a number of bytes and from there on. There is none if that is past the end or
inside a character. -/
def cut? : Nat → Text → Option (Text × Text)
  | 0, s => some ([], s)
  | _ + 1, [] => none
  | n + 1, c :: s =>
    if c.utf8Size ≤ n + 1 then (cut? (n + 1 - c.utf8Size) s).map fun (a, b) => (c :: a, b)
    else none

theorem cut?_byteCount (s t : Text) : cut? (byteCount s) (s ++ t) = some (s, t) := by
  induction s with
  | nil => cases t <;> rfl
  | cons c s ih =>
    obtain ⟨n, hn⟩ := Nat.exists_eq_add_of_lt (Char.utf8Size_pos c)
    have hcount : byteCount (c :: s) = n + byteCount s + 1 := by
      rw [byteCount_cons]
      omega
    rw [hcount, List.cons_append, cut?, if_pos (by omega),
      show n + byteCount s + 1 - c.utf8Size = byteCount s by omega, ih]
    rfl

theorem cut?_of_split {n : Nat} {s before after : Text} (hs : s = before ++ after)
    (hn : n = byteCount before) : cut? n s = some (before, after) := by
  rw [hs, hn, cut?_byteCount]

/-- The number of bytes before the first occurrence of a word. -/
def find? (word : Text) : Text → Option Nat
  | [] => if word.isEmpty then some 0 else none
  | c :: s => if word.isPrefixOf (c :: s) then some 0 else (find? word s).map (c.utf8Size + ·)

end Text

namespace Source

/-- A THEN that counts, in whatever case it is written: since the last character that is in no
name there are only digits. -/
structure FreeThen (s before after : Text) : Prop where
  word : ∃ word, Text.upper word = "THEN".toList ∧ s = before ++ (word ++ after)
  free : Text.DigitsSince (fun c => !Name.isPart c) before

theorem FreeThen.startsThen {s before after : Text} (h : FreeThen s before after) :
    ∃ t, s = before ++ t ∧ startsThen t = true ∧ t.drop 4 = after := by
  obtain ⟨word, hword, rfl⟩ := h.word
  obtain ⟨hstarts, hdrop⟩ := startsThen_append hword after
  exact ⟨word ++ after, rfl, hstarts, hdrop⟩

/-- Where a THEN stands determines what is before and after it. -/
theorem FreeThen.unique {s before after before' after' : Text} (h : FreeThen s before after)
    (h' : FreeThen s before' after') (hlength : before.length = before'.length) :
    before = before' ∧ after = after' := by
  obtain ⟨t, rfl, -, rfl⟩ := h.startsThen
  obtain ⟨t', heq, -, rfl⟩ := h'.startsThen
  obtain ⟨rfl, rfl⟩ := List.append_inj heq hlength
  exact ⟨rfl, rfl⟩

theorem freeThen_of_aroundThenFrom {before s x y : Text}
    (h : aroundThenFrom before s = some (x, y)) : FreeThen (before.reverse ++ s) x y := by
  refine ⟨exists_of_aroundThenFrom h, isFree_reverse_iff.1 ?_⟩
  induction s generalizing before with
  | nil => cases h
  | cons c s ih =>
    rw [aroundThenFrom] at h
    split at h
    next hthen =>
      cases h
      rw [List.reverse_reverse]
      exact (Bool.and_eq_true_iff.1 hthen).2
    next => exact ih h

/-- The search does not go past a THEN that is free. -/
theorem exists_of_isFree {before u t : Text} (hstarts : startsThen t = true)
    (hfree : isFree (u.reverse ++ before) = true) :
    ∃ x y, aroundThenFrom before (u ++ t) = some (x, y) ∧ x.length ≤ before.length + u.length := by
  induction u generalizing before with
  | nil =>
    refine ⟨before.reverse, t.drop 4, aroundThenFrom_of_startsThen hstarts hfree, ?_⟩
    simp
  | cons c u ih =>
    rw [List.cons_append, aroundThenFrom]
    split
    next => exact ⟨before.reverse, _, rfl, by simp⟩
    next =>
      have hfree : isFree (u.reverse ++ c :: before) = true := by simpa using hfree
      obtain ⟨x, y, hfound, hlength⟩ := ih hfree
      refine ⟨x, y, hfound, ?_⟩
      simp only [List.length_cons] at hlength ⊢
      omega

/-- The THEN found is not behind any that is free. -/
theorem FreeThen.exists_aroundThen? {s before after : Text} (h : FreeThen s before after) :
    ∃ x y, aroundThen? s = some (x, y) ∧ x.length ≤ before.length := by
  obtain ⟨t, rfl, hstarts, -⟩ := h.startsThen
  have hfree : isFree (before.reverse ++ []) = true := by
    rw [List.append_nil]
    exact isFree_reverse_iff.2 h.free
  obtain ⟨x, y, hfound, hlength⟩ := exists_of_isFree hstarts hfree
  exact ⟨x, y, hfound, by simpa using hlength⟩

theorem aroundThen?_eq_some_iff {s before after : Text} :
    aroundThen? s = some (before, after) ↔ FreeThen s before after ∧
      ∀ before' after', FreeThen s before' after' → before.length ≤ before'.length := by
  constructor
  · intro h
    refine ⟨freeThen_of_aroundThenFrom h, fun before' after' h' => ?_⟩
    obtain ⟨x, y, hfound, hlength⟩ := h'.exists_aroundThen?
    cases h.symm.trans hfound
    exact hlength
  · rintro ⟨h, hleast⟩
    obtain ⟨x, y, hfound, hlength⟩ := h.exists_aroundThen?
    have h' : FreeThen s x y := freeThen_of_aroundThenFrom hfound
    obtain ⟨rfl, rfl⟩ := h.unique h' (Nat.le_antisymm (hleast x y h') hlength)
    exact hfound

theorem aroundThen?_eq_none_iff {s : Text} :
    aroundThen? s = none ↔ ∀ before after, ¬ FreeThen s before after := by
  constructor
  · intro h before after hthen
    obtain ⟨x, y, hfound, -⟩ := hthen.exists_aroundThen?
    cases h.symm.trans hfound
  · intro h
    cases hfound : aroundThen? s with
    | none => rfl
    | some parts => exact absurd (freeThen_of_aroundThenFrom hfound) (h parts.1 parts.2)

theorem find?_upper_cons (c : Char) (s : Text) :
    Text.find? "THEN".toList (Text.upper (c :: s)) =
      if startsThen (c :: s) then some 0
      else (Text.find? "THEN".toList (Text.upper s)).map (c.utf8Size + ·) := by
  have hmatches : "THEN".toList.isPrefixOf (Text.upper (c :: s)) = startsThen (c :: s) := by
    rw [Bool.eq_iff_iff, List.isPrefixOf_iff_prefix, List.prefix_iff_eq_take, eq_comm]
    simp [startsThen, Text.upper]
  rw [← hmatches, ← Text.utf8Size_toUpper]
  rfl

/-- The search passes what stands before the next THEN. -/
theorem exists_of_find? {s : Text} {skipped : Nat}
    (h : Text.find? "THEN".toList (Text.upper s) = some skipped) :
    ∃ u word after, s = u ++ (word ++ after) ∧ Text.byteCount u = skipped ∧
      Text.upper word = "THEN".toList ∧ Passes u (word ++ after) := by
  induction s generalizing skipped with
  | nil => cases h
  | cons c s ih =>
    rw [find?_upper_cons] at h
    split at h
    next hstarts =>
      cases h
      exact ⟨[], (c :: s).take 4, (c :: s).drop 4, (List.take_append_drop ..).symm, rfl,
        eq_of_beq hstarts, .nil _⟩
    next hstarts =>
      obtain ⟨n, hn, rfl⟩ := Option.map_eq_some_iff.1 h
      obtain ⟨u, word, after, rfl, rfl, hword, hpass⟩ := ih hn
      exact ⟨c :: u, word, after, rfl, Text.byteCount_cons c u, hword,
        .cons (Bool.eq_false_iff.2 hstarts) hpass⟩

theorem passes_of_find? {s : Text} (h : Text.find? "THEN".toList (Text.upper s) = none) :
    Passes s [] := by
  induction s with
  | nil => exact .nil []
  | cons c s ih =>
    rw [find?_upper_cons] at h
    split at h
    next => cases h
    next hstarts =>
      refine .cons ?_ (ih (Option.map_eq_none_iff.1 h))
      rw [List.append_nil]
      exact Bool.eq_false_iff.2 hstarts

/-- The search by the byte, from an offset on, with its result. -/
inductive SearchAt (s : Text) : Nat → Option (Text × Text) → Prop where
  | absent {n : Nat} {passed rest : Text}
      (hrest : Text.cut? n (Text.upper s) = some (passed, rest))
      (hfind : Text.find? "THEN".toList rest = none) : SearchAt s n none
  | found {n skipped : Nat} {passed rest before word through after : Text}
      (hrest : Text.cut? n (Text.upper s) = some (passed, rest))
      (hfind : Text.find? "THEN".toList rest = some skipped)
      (hbefore : Text.cut? (n + skipped) s = some (before, word))
      (hfree : isFree before.reverse = true)
      (hafter : Text.cut? (n + skipped + 4) s = some (through, after)) :
      SearchAt s n (some (before, after))
  | rejected {n skipped : Nat} {passed rest before word : Text} {result : Option (Text × Text)}
      (hrest : Text.cut? n (Text.upper s) = some (passed, rest))
      (hfind : Text.find? "THEN".toList rest = some skipped)
      (hbefore : Text.cut? (n + skipped) s = some (before, word))
      (hfree : isFree before.reverse = false) (hnext : SearchAt s (n + skipped + 4) result) :
      SearchAt s n result

/-- What is found from an offset, and whether it is free, decide which rule it is. -/
theorem SearchAt.unique {s : Text} {n : Nat} {r r' : Option (Text × Text)} (h : SearchAt s n r)
    (h' : SearchAt s n r') : r = r' := by
  induction h generalizing r' with
  | absent hrest hfind => cases h' <;> grind
  | found hrest hfind hbefore hfree hafter => cases h' <;> grind
  | rejected hrest hfind hbefore hfree hnext ih =>
    cases h' with
    | absent => grind
    | found => grind
    | rejected hrest' hfind' hbefore' hfree' hnext' =>
      cases hrest.symm.trans hrest'
      cases hfind.symm.trans hfind'
      exact ih hnext'

/-- The search by the byte does what the search by the character does: at every offset it comes to
there is a character, in the upper-case copy and in the text. -/
theorem searchAt_aroundThenFrom (passed rest : Text) :
    SearchAt (passed ++ rest) (Text.byteCount passed) (aroundThenFrom passed.reverse rest) := by
  generalize hlength : rest.length = length
  induction length using Nat.strongRecOn generalizing passed rest with
  | ind length ih =>
    have hrest : Text.cut? (Text.byteCount passed) (Text.upper (passed ++ rest)) =
        some (Text.upper passed, Text.upper rest) :=
      Text.cut?_of_split List.map_append (Text.byteCount_upper passed).symm
    cases hfind : Text.find? "THEN".toList (Text.upper rest) with
    | none =>
      have hnone := passes_of_find? hfind passed.reverse
      rw [List.append_nil] at hnone
      rw [hnone]
      exact .absent hrest hfind
    | some skipped =>
      obtain ⟨u, word, after, rfl, rfl, hword, hpass⟩ := exists_of_find? hfind
      obtain ⟨hstarts, hdrop⟩ := startsThen_append hword after
      have hcount : Text.byteCount word = 4 := by
        rw [← Text.byteCount_upper, hword]
        rfl
      have hsplit : passed ++ (u ++ (word ++ after)) = passed ++ u ++ word ++ after := by simp
      have hoffset : Text.byteCount passed + Text.byteCount u + 4 =
          Text.byteCount (passed ++ u ++ word) := by
        rw [Text.byteCount_append, Text.byteCount_append, hcount]
      have hbefore : Text.cut? (Text.byteCount passed + Text.byteCount u)
          (passed ++ (u ++ (word ++ after))) = some (passed ++ u, word ++ after) :=
        Text.cut?_of_split (List.append_assoc ..).symm (Text.byteCount_append ..).symm
      rw [hpass, ← List.reverse_append]
      cases hfree : isFree (passed ++ u).reverse with
      | true =>
        rw [aroundThenFrom_of_startsThen hstarts hfree, List.reverse_reverse, hdrop]
        exact .found hrest hfind hbefore hfree (Text.cut?_of_split hsplit hoffset)
      | false =>
        have hparts (c : Char) (hc : c ∈ word) : Name.isPart c = true :=
          Name.isPart_of_isStart (isStart_of_mem_upper hword rfl hc)
        have hshorter : after.length < length := by
          have hword4 : word.length = 4 := by simpa [Text.upper] using congrArg List.length hword
          simp only [List.length_append, hword4] at hlength
          omega
        rw [aroundThenFrom_of_not_free hparts hfree, ← List.reverse_append]
        refine .rejected hrest hfind hbefore hfree ?_
        rw [hsplit, hoffset]
        exact ih after.length hshorter (passed ++ u ++ word) after rfl

theorem searchAt_iff {s : Text} {r : Option (Text × Text)} :
    SearchAt s 0 r ↔ r = aroundThen? s := by
  have hsearch : SearchAt s 0 (aroundThen? s) := searchAt_aroundThenFrom [] s
  constructor
  · exact fun h => h.unique hsearch
  · rintro rfl
    exact hsearch

/-- What is found is the first THEN that is free, and only a text with none has none for the
search. Going through the bytes gives the same result, and gives one for every text. -/
theorem aroundThen_finds_first_free (s : Text) :
    (∀ before after, aroundThen? s = some (before, after) ↔ FreeThen s before after ∧
      ∀ before' after', FreeThen s before' after' → before.length ≤ before'.length) ∧
    (aroundThen? s = none ↔ ∀ before after, ¬ FreeThen s before after) ∧
    ∀ result, SearchAt s 0 result ↔ result = aroundThen? s :=
  ⟨fun _ _ => aroundThen?_eq_some_iff, aroundThen?_eq_none_iff, fun _ => searchAt_iff⟩

/-- A THEN after a number counts, although one in a name and a wide character come before it; in a
name alone there is none that does. -/
theorem aroundThen_finds_first_free_wide :
    let s := "§ATHENS>5then GOTO 1".toList
    (FreeThen s "§ATHENS>5".toList " GOTO 1".toList ∧
      SearchAt s 0 (some ("§ATHENS>5".toList, " GOTO 1".toList))) ∧
    ∀ before after, ¬ FreeThen "ATHENS".toList before after := by
  intro s
  have hfound : aroundThen? s = some ("§ATHENS>5".toList, " GOTO 1".toList) := by decide
  have hnone : aroundThen? "ATHENS".toList = none := by decide
  obtain ⟨hfirst, -, hsearch⟩ := aroundThen_finds_first_free s
  exact ⟨⟨((hfirst _ _).1 hfound).1, (hsearch _).2 hfound.symm⟩,
    (aroundThen_finds_first_free "ATHENS".toList).2.1.1 hnone⟩

end Source
end LineScript
