import Mathlib.Data.List.DropRight
import LineScript.Source.Canonical
import LineScript.Proofs.Formula

/-!
Blanks around and inside a text. Trimming stops at the first and at the last character that is not
blank, so it can be followed through a text with such a character in it; blanks at the ends of an
instruction change neither its canonical form nor what it is read as.
-/
namespace LineScript
namespace Text

theorem trimStart_append {gap : Text} (h : ∀ c ∈ gap, isBlank c = true) (s : Text) :
    trimStart (gap ++ s) = trimStart s :=
  List.dropWhile_append_of_pos h

theorem trimStart_cons {c : Char} (h : isBlank c = false) (s : Text) :
    trimStart (c :: s) = c :: s :=
  List.dropWhile_cons_of_neg (by simp [h])

theorem trimStart_of_solid {s : Text} (h : ∀ c ∈ s, isBlank c = false) : trimStart s = s := by
  cases s with
  | nil => rfl
  | cons c s => exact trimStart_cons (h c List.mem_cons_self) s

theorem trimEnd_of_blank {gap : Text} (h : ∀ c ∈ gap, isBlank c = true) : trimEnd gap = [] :=
  List.rdropWhile_eq_nil_iff.2 h

theorem trimEnd_of_solid {s : Text} (h : ∀ c ∈ s, isBlank c = false) : trimEnd s = s :=
  List.rdropWhile_eq_self_iff.2 fun hne => by simp [h _ (List.getLast_mem hne)]

theorem trimEnd_append (s : Text) {gap : Text} (h : ∀ c ∈ gap, isBlank c = true) :
    trimEnd (s ++ gap) = trimEnd s := by
  have hdrop : (gap.reverse ++ s.reverse).dropWhile isBlank = s.reverse.dropWhile isBlank :=
    List.dropWhile_append_of_pos fun c hc => h c (List.mem_reverse.1 hc)
  rw [trimEnd, dropEndWhile, List.reverse_append, hdrop]
  rfl

theorem trimEnd_append_cons (u : Text) {c : Char} (h : isBlank c = false) (v : Text) :
    trimEnd (u ++ c :: v) = u ++ c :: trimEnd v := by
  have hsplit : (u ++ c :: v).reverse = v.reverse ++ c :: u.reverse := by simp
  rw [trimEnd, trimEnd, dropEndWhile, dropEndWhile, hsplit, List.dropWhile_append]
  split
  next hv =>
    rw [List.isEmpty_iff.1 hv, List.dropWhile_cons_of_neg (by simp [h])]
    simp
  next => simp

theorem trimEnd_trimEnd (s : Text) : trimEnd (trimEnd s) = trimEnd s :=
  List.rdropWhile_idempotent isBlank s

/-- A text is all blank, or it has a first character that is not. -/
theorem blank_or_exists (s : Text) : (∀ c ∈ s, isBlank c = true) ∨
    ∃ gap c v, (∀ c ∈ gap, isBlank c = true) ∧ isBlank c = false ∧ s = gap ++ c :: v := by
  induction s with
  | nil => exact .inl (by simp)
  | cons c s ih =>
    cases hc : isBlank c with
    | false => exact .inr ⟨[], c, s, by simp, hc, rfl⟩
    | true =>
      rcases ih with hs | ⟨gap, d, v, hgap, hd, rfl⟩
      · exact .inl (List.forall_mem_cons.2 ⟨hc, hs⟩)
      · exact .inr ⟨c :: gap, d, v, List.forall_mem_cons.2 ⟨hc, hgap⟩, hd, rfl⟩

theorem trim_of_blank {gap : Text} (h : ∀ c ∈ gap, isBlank c = true) : trim gap = [] := by
  have hstart : trimStart gap = [] := List.dropWhile_eq_nil_iff.2 h
  rw [trim, hstart]
  rfl

theorem trim_cons {c : Char} (hc : isBlank c = false) (s : Text) :
    trim (c :: s) = c :: trimEnd s := by
  rw [trim, trimStart_cons hc]
  exact trimEnd_append_cons [] hc s

theorem trim_append {gap : Text} (h : ∀ c ∈ gap, isBlank c = true) (s : Text) :
    trim (gap ++ s) = trim s := by
  rw [trim, trimStart_append h]
  rfl

theorem trim_trimEnd (s : Text) : trim (trimEnd s) = trim s := by
  rcases blank_or_exists s with hs | ⟨gap, c, v, hgap, hc, rfl⟩
  · rw [trimEnd_of_blank hs, trim_of_blank hs]
    rfl
  · rw [trimEnd_append_cons gap hc, trim_append hgap, trim_append hgap, trim_cons hc, trim_cons hc,
      trimEnd_trimEnd]

theorem trim_trim (s : Text) : trim (trim s) = trim s := by
  rcases blank_or_exists s with hs | ⟨gap, c, v, hgap, hc, rfl⟩
  · rw [trim_of_blank hs]
    rfl
  · rw [trim_append hgap, trim_cons hc, trim_cons hc, trimEnd_trimEnd]

theorem trim_append_blank (s : Text) {gap : Text} (h : ∀ c ∈ gap, isBlank c = true) :
    trim (s ++ gap) = trim s := by
  rcases blank_or_exists s with hs | ⟨before, c, v, hbefore, hc, rfl⟩
  · rw [trim_of_blank hs, trim_of_blank (List.forall_mem_append.2 ⟨hs, h⟩)]
  · rw [List.append_assoc, trim_append hbefore, trim_append hbefore, List.cons_append,
      trim_cons hc, trim_cons hc, trimEnd_append v h]

theorem exists_trimEnd (s : Text) :
    ∃ after, (∀ c ∈ after, isBlank c = true) ∧ s = trimEnd s ++ after := by
  refine ⟨(s.reverse.takeWhile isBlank).reverse, fun c hc => ?_, ?_⟩
  · exact List.mem_takeWhile_imp (List.mem_reverse.1 hc)
  · rw [trimEnd, dropEndWhile, ← List.reverse_append, List.takeWhile_append_dropWhile,
      List.reverse_reverse]

/-- Trimming takes off blanks only. -/
theorem exists_trim (s : Text) : ∃ before after, (∀ c ∈ before, isBlank c = true) ∧
    (∀ c ∈ after, isBlank c = true) ∧ s = before ++ (trim s ++ after) := by
  rcases blank_or_exists s with hs | ⟨before, c, v, hbefore, hc, rfl⟩
  · exact ⟨s, [], hs, List.forall_mem_nil _, by simp [trim_of_blank hs]⟩
  · obtain ⟨after, hafter, hv⟩ := exists_trimEnd v
    refine ⟨before, after, hbefore, hafter, ?_⟩
    rw [trim_append hbefore, trim_cons hc, List.cons_append, ← hv]

theorem trim_append_of_solid {s gap : Text} (hs : ∀ c ∈ s, isBlank c = false)
    (hgap : ∀ c ∈ gap, isBlank c = true) : trim (s ++ gap) = s := by
  rw [trim_append_blank s hgap, trim, trimStart_of_solid hs, trimEnd_of_solid hs]

/-- Between a first and a last word nothing is trimmed. -/
theorem trim_enclosed {margin first last : Text} (hmargin : ∀ c ∈ margin, isBlank c = true)
    (hfirst : ∀ c ∈ first, isBlank c = false) (hf : first ≠ [])
    (hlast : ∀ c ∈ last, isBlank c = false) (hl : last ≠ []) (mid rest : Text) :
    trim (margin ++ (first ++ (mid ++ (last ++ rest)))) =
      first ++ (mid ++ (last ++ trimEnd rest)) := by
  obtain ⟨c, first, rfl⟩ := List.exists_cons_of_ne_nil hf
  obtain ⟨last, d, rfl⟩ := List.eq_nil_or_concat' last |>.resolve_left hl
  have hend := trimEnd_append_cons (first ++ (mid ++ last)) (hlast d (by simp)) rest
  rw [trim_append hmargin, List.cons_append, trim_cons (hfirst c List.mem_cons_self)]
  simpa using hend

theorem splitWord_append {word gap : Text} (hword : ∀ c ∈ word, isBlank c = false)
    (hgap : ∀ c ∈ gap, isBlank c = true) (hne : gap ≠ []) (s : Text) :
    splitWord (word ++ (gap ++ s)) = (word, trimStart s) := by
  obtain ⟨c, gap, rfl⟩ := List.exists_cons_of_ne_nil hne
  have hc : isBlank c = true := hgap c List.mem_cons_self
  have hsolid : ∀ c ∈ word, (!isBlank c) = true := fun c hc => by simp [hword c hc]
  rw [splitWord, List.takeWhile_append_of_pos hsolid, List.dropWhile_append_of_pos hsolid,
    List.cons_append, List.takeWhile_cons_of_neg (by simp [hc]),
    List.dropWhile_cons_of_neg (by simp [hc]), ← List.cons_append, trimStart_append hgap,
    List.append_nil]

theorem squeeze_append (s t : Text) : squeeze (s ++ t) = squeeze s ++ squeeze t :=
  List.filter_append ..

theorem squeeze_cons {c : Char} (h : isBlank c = false) (s : Text) :
    squeeze (c :: s) = c :: squeeze s :=
  List.filter_cons_of_pos (by simp [h])

theorem squeeze_of_blank {gap : Text} (h : ∀ c ∈ gap, isBlank c = true) : squeeze gap = [] :=
  List.filter_eq_nil_iff.2 fun c hc => by simp [h c hc]

theorem squeeze_of_solid {s : Text} (h : ∀ c ∈ s, isBlank c = false) : squeeze s = s :=
  List.filter_eq_self.2 fun c hc => by simp [h c hc]

end Text

/-- Blanks at the ends of an instruction are not read. -/
theorem Instruction.parse_trim (s : Text) : parse (Text.trim s) = parse s := by
  rw [parse, parse, Text.trim_trim]

namespace Source

theorem joined_eq_append (first second : Text) :
    joined first second = first ++ joined [] second := by
  unfold joined
  split <;> simp

theorem trim_joined (s : Text) : Text.trim (joined [] s) = Text.trim s := by
  have hspace : ∀ c ∈ [' '], Text.isBlank c = true := List.forall_mem_singleton.2 rfl
  unfold joined
  split
  next hs => rw [List.isEmpty_iff.1 hs]
  next => exact Text.trim_append hspace s

/-- Nor do blanks at its end change its canonical form. -/
theorem canonical_trimEnd (s : Text) : canonical (Text.trimEnd s) = canonical s := by
  rw [canonical, canonical, Text.trim_trimEnd]

end Source

namespace Spaced

/-- Between pieces without blanks, the blanks are all that is squeezed out. -/
theorem squeeze_eq {pieces : List Text} {s : Text} (h : Spaced pieces s)
    (hsolid : ∀ piece ∈ pieces, ∀ c ∈ piece, Text.isBlank c = false) :
    Text.squeeze s = pieces.flatten := by
  induction h with
  | last gap hgap => exact Text.squeeze_of_blank hgap
  | next gap hgap piece hs ih =>
    obtain ⟨hpiece, hsolid⟩ := List.forall_mem_cons.1 hsolid
    rw [Text.squeeze_append, Text.squeeze_append, Text.squeeze_of_blank hgap,
      Text.squeeze_of_solid hpiece, ih hsolid]
    rfl

/-- Trimming takes blanks from before the first piece only, whatever follows the last. -/
theorem trimStart {c : Char} {piece : Text} {pieces : List Text} {s : Text}
    (h : Spaced ((c :: piece) :: pieces) s) (hc : Text.isBlank c = false) :
    Spaced ((c :: piece) :: pieces) (Text.trimStart s) ∧
      ∀ rest, Text.trimStart (s ++ rest) = Text.trimStart s ++ rest := by
  cases h with
  | @next gap hgap _ _ u hu =>
    have htrim (rest : Text) : Text.trimStart (gap ++ (c :: piece) ++ u ++ rest) =
        c :: piece ++ u ++ rest := by
      rw [List.append_assoc, List.append_assoc, Text.trimStart_append hgap, List.cons_append,
        Text.trimStart_cons hc]
      simp
    have hself := htrim []
    rw [List.append_nil, List.append_nil] at hself
    rw [hself]
    exact ⟨.next [] (by simp) (c :: piece) hu, htrim⟩

/-- And from after the last piece only. -/
theorem trimEnd {pieces : List Text} {s : Text} (h : Spaced pieces s)
    (hpieces : ∀ piece ∈ pieces, ∃ u c, piece = u ++ [c] ∧ Text.isBlank c = false) :
    Spaced pieces (Text.trimEnd s) := by
  induction h with
  | last gap hgap =>
    rw [Text.trimEnd_of_blank hgap]
    exact .last [] (List.forall_mem_nil _)
  | @next gap hgap piece rest s hs ih =>
    obtain ⟨⟨u, c, rfl, hc⟩, hrest⟩ := List.forall_mem_cons.1 hpieces
    have htrim : Text.trimEnd (gap ++ (u ++ [c]) ++ s) = gap ++ (u ++ [c]) ++ Text.trimEnd s := by
      simpa using Text.trimEnd_append_cons (gap ++ u) hc s
    rw [htrim]
    exact .next gap hgap _ (ih hrest)

end Spaced
end LineScript
