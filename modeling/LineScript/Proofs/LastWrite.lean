import Mathlib.Data.Finset.Card
import Mathlib.Data.Finset.Dedup
import LineScript.Program
import LineScript.Proofs.RoundTrip

/-!
A listing is the map of the last lines. However its lines came in, the one that is found under a
number is the last that was read with it, and the order of the others does not matter; so a source
text can be rearranged as long as the lines of each number stay in order.
-/
namespace LineScript

/-- The line that a source text holds, if it can be read. -/
def Line.ofText? (s : Text) : Option Line :=
  (Line.parse s).toOption

/-- The number of that line. -/
def Line.numberOf? (s : Text) : Option Nat :=
  (Line.ofText? s).map Line.number

namespace Listing

/-- A change of a listing: a source text is read, or a line is inserted. -/
inductive Edit where
  | load (s : Text)
  | insert (line : Line)

/-- The line that a change brings in, if it does. -/
def Edit.line? : Edit → Option Line
  | .load s => Line.ofText? s
  | .insert line => some line

/-- What a change gives back, and the listing that it leaves; where a text cannot be read, that is
the listing as it was. -/
def edit (l : Listing) : Edit → Except Error (Option Line) × Listing
  | .load s =>
    match l.addText s with
    | .ok l' => (.ok none, l')
    | .error e => (.error e, l)
  | .insert line =>
    let (replaced, l') := l.replace line
    (.ok replaced, l')

def edited (l : Listing) (edits : List Edit) : Listing :=
  edits.foldl (fun l e => (l.edit e).2) l

/-- The last of the lines with the given number. -/
def lastOf? (n : Nat) (loaded : List Line) : Option Line :=
  loaded.reverse.find? fun line => line.number = n

/-- The listing is the ordered map of the last of the lines with each number. -/
structure KeepsLast (l : Listing) (loaded : List Line) : Prop where
  ascending : l.lines.Pairwise fun a b => a.number < b.number
  mem_lines_iff : ∀ line, line ∈ l.lines ↔ l.get? line.number = some line
  get?_eq : ∀ n, l.get? n = lastOf? n loaded
  replaced_eq : ∀ line, (l.edit (.insert line)).1 = .ok (lastOf? line.number loaded)
  size_eq : l.size = (loaded.map Line.number).toFinset.card

/-- A text that is blank, or else can be read. -/
def Loads (s : Text) : Prop :=
  Text.trim s = [] ∨ (Line.ofText? s).isSome

instance (s : Text) : Decidable (Loads s) :=
  inferInstanceAs (Decidable (_ ∨ _))

variable {l l' : Listing} {s t : Text}

theorem ofText?_of_blank (h : Text.trim s = []) : Line.ofText? s = none := by
  rw [Line.ofText?, Line.parse, h]
  rfl

theorem ofText?_of_parse {line : Line} (h : Line.parse s = .ok line) :
    Line.ofText? s = some line := by
  rw [Line.ofText?, h]
  rfl

/-- The three ways of reading a text: it is blank, it holds a line, or it is refused. -/
theorem addText_cases (s : Text) (l : Listing) :
    (Text.trim s = [] ∧ l.addText s = .ok l) ∨
    (∃ line, Line.parse s = .ok line ∧ l.addText s = .ok (l.insert line)) ∨
    ∃ e, ¬ Loads s ∧ Line.parse s = .error e ∧ l.addText s = .error e := by
  by_cases hblank : Text.trim s = []
  · exact .inl ⟨hblank, if_pos (by simp [hblank])⟩
  · have hadd : l.addText s = _ := if_neg (by simpa using hblank)
    cases hparse : Line.parse s with
    | ok line =>
      rw [hparse] at hadd
      exact .inr (.inl ⟨line, rfl, hadd⟩)
    | error e =>
      rw [hparse] at hadd
      refine .inr (.inr ⟨e, ?_, rfl, hadd⟩)
      rintro (h | h)
      · exact hblank h
      · rw [Line.ofText?, hparse] at h
        cases h

theorem edit_load_snd (s : Text) (l : Listing) :
    (l.edit (.load s)).2 = (Line.ofText? s).toList.foldl (fun l line => l.insert line) l := by
  rw [edit]
  rcases addText_cases s l with ⟨hs, hadd⟩ | ⟨line, hs, hadd⟩ | ⟨e, -, hs, hadd⟩
  · rw [hadd, ofText?_of_blank hs]
    rfl
  · rw [hadd, ofText?_of_parse hs]
    rfl
  · rw [hadd, Line.ofText?, hs]
    rfl

/-- Changes come to inserting the lines that they bring in. -/
theorem edited_eq (edits : List Edit) (l : Listing) :
    l.edited edits = (edits.filterMap Edit.line?).foldl (fun l line => l.insert line) l := by
  induction edits generalizing l with
  | nil => rfl
  | cons e edits ih =>
    have hedit : (l.edit e).2 = e.line?.toList.foldl (fun l line => l.insert line) l := by
      cases e with
      | load s => exact edit_load_snd s l
      | insert line => rfl
    show (l.edit e).2.edited edits = _
    rw [ih, hedit, List.filterMap_cons]
    cases e.line? <;> rfl

theorem mem_lines_iff_get? (l : Listing) (line : Line) :
    line ∈ l.lines ↔ l.get? line.number = some line := by
  rw [get?_eq_some_iff]
  simp

theorem length_lines (l : Listing) : l.lines.length = l.size := by
  rw [lines, List.length_map, Std.ExtTreeMap.length_toList]
  rfl

theorem get?_empty (n : Nat) : empty.get? n = none := by
  simp [get?, empty]

theorem get?_foldl_insert_empty (loaded : List Line) (n : Nat) :
    (loaded.foldl (fun l line => l.insert line) empty).get? n = lastOf? n loaded := by
  rw [get?_foldl_insert, get?_empty, Option.or_none, lastOf?]

/-- A number stands in the listing once, if a line has been read with it. -/
theorem size_of_get? {loaded : List Line} (h : ∀ n, l.get? n = lastOf? n loaded) :
    l.size = (loaded.map Line.number).toFinset.card := by
  have hnodup : (l.lines.map Line.number).Nodup :=
    List.pairwise_map.2 (l.pairwise_lines.imp Nat.ne_of_lt)
  have hnumbers : (l.lines.map Line.number).toFinset = (loaded.map Line.number).toFinset := by
    ext n
    rw [List.mem_toFinset, List.mem_toFinset, List.mem_map, List.mem_map]
    have hget : (∃ line ∈ l.lines, line.number = n) ↔ (l.get? n).isSome := by
      simp only [Option.isSome_iff_exists, get?_eq_some_iff, and_comm]
    rw [hget, h, lastOf?, List.find?_isSome]
    simp
  rw [← hnumbers, List.toFinset_card_of_nodup hnodup, List.length_map, length_lines]

theorem keepsLast_foldl (loaded : List Line) :
    KeepsLast (loaded.foldl (fun l line => l.insert line) empty) loaded := by
  have hget := get?_foldl_insert_empty loaded
  refine ⟨pairwise_lines _, mem_lines_iff_get? _, hget, fun line => ?_, size_of_get? hget⟩
  show Except.ok (get? _ line.number) = _
  rw [hget]

/-- Reading the lines of a text one after the other, where none is refused. -/
theorem foldlM_addText_eq_ok_iff {texts : List Text} {index : Nat} :
    (texts.zipIdx index).foldlM
        (fun l (line, index) => (l.addText line).mapError (blame (index + 1))) l = .ok l' ↔
      (∀ t ∈ texts, Loads t) ∧
        l' = (texts.filterMap Line.ofText?).foldl (fun l line => l.insert line) l := by
  induction texts generalizing l index with
  | nil => simp [pure, Except.pure, eq_comm]
  | cons t texts ih =>
    rw [List.zipIdx_cons, List.foldlM_cons, List.forall_mem_cons, List.filterMap_cons]
    dsimp only
    rcases addText_cases t l with ⟨ht, hadd⟩ | ⟨line, ht, hadd⟩ | ⟨e, ht, -, hadd⟩
    · have hloads : Loads t := .inl ht
      rw [hadd, ofText?_of_blank ht]
      show List.foldlM _ _ _ = _ ↔ _
      rw [ih]
      simp [hloads]
    · have hloads : Loads t := .inr (by rw [ofText?_of_parse ht]; rfl)
      rw [hadd, ofText?_of_parse ht]
      show List.foldlM _ _ _ = _ ↔ _
      rw [ih]
      simp [hloads]
    · simp [hadd, ht, Except.mapError, bind, Except.bind]

theorem parse_eq_ok_iff : parse s = .ok l ↔ (∀ t ∈ Text.lines s, Loads t) ∧
    l = ((Text.lines s).filterMap Line.ofText?).foldl (fun l line => l.insert line) empty :=
  foldlM_addText_eq_ok_iff

/-- The source texts have the same lines, and those with the same number are in the same order. -/
structure Rearranged (s t : Text) : Prop where
  perm : (Text.lines s).Perm (Text.lines t)
  order : ∀ n, (Text.lines s).filter (fun u => Line.numberOf? u = some n) =
    (Text.lines t).filter fun u => Line.numberOf? u = some n

theorem lastOf?_eq (n : Nat) (loaded : List Line) :
    lastOf? n loaded = (loaded.filter fun line => line.number = n).getLast? := by
  rw [lastOf?, ← List.head?_filter, List.filter_reverse, List.head?_reverse]

/-- Only the texts with a number matter for the last line with it. -/
theorem lastOf?_filterMap (n : Nat) (texts : List Text) :
    lastOf? n (texts.filterMap Line.ofText?) =
      ((texts.filter fun u => Line.numberOf? u = some n).filterMap Line.ofText?).getLast? := by
  rw [lastOf?_eq, List.filter_filterMap, List.filterMap_filter]
  congr 2
  funext u
  unfold Line.numberOf?
  cases hu : Line.ofText? u with
  | none => simp
  | some line => by_cases hn : line.number = n <;> simp [hn]

/-- A rearranged text gives the same listing. -/
theorem Rearranged.parse_eq (h : Rearranged s t) (hs : parse s = .ok l) : parse t = .ok l := by
  obtain ⟨hloads, rfl⟩ := parse_eq_ok_iff.1 hs
  refine parse_eq_ok_iff.2 ⟨fun u hu => hloads u (h.perm.mem_iff.2 hu), ?_⟩
  ext1 n
  rw [get?_foldl_insert_empty, get?_foldl_insert_empty, lastOf?_filterMap, lastOf?_filterMap,
    h.order n]

/-- After any changes a listing is the ordered map of the lines that were read last, and so it is
when it is read from a text. A text that is refused changes nothing, and one that is rearranged,
with the lines of each number in the same order, gives the same listing and the same program. -/
theorem last_write_wins :
    (∀ edits, KeepsLast (empty.edited edits) (edits.filterMap Edit.line?)) ∧
    (∀ edits s e, ((empty.edited edits).edit (.load s)).1 = .error e →
      Line.parse s = .error e ∧ ((empty.edited edits).edit (.load s)).2 = empty.edited edits) ∧
    (∀ s l, parse s = .ok l → l = empty.edited ((Text.lines s).map .load) ∧
      KeepsLast l ((Text.lines s).filterMap Line.ofText?)) ∧
    ∀ s t, Rearranged s t → ∀ l, parse s = .ok l → parse t = .ok l ∧
      ∀ l', parse t = .ok l' → l = l' ∧ Program.ofListing l = Program.ofListing l' := by
  refine ⟨fun edits => ?_, fun edits s e h => ?_, fun s l h => ?_, fun s t h l hs => ?_⟩
  · rw [edited_eq]
    exact keepsLast_foldl _
  · rw [edit] at h ⊢
    rcases addText_cases s (empty.edited edits) with
      ⟨-, hadd⟩ | ⟨line, -, hadd⟩ | ⟨e', -, hs, hadd⟩
    · rw [hadd] at h
      cases h
    · rw [hadd] at h
      cases h
    · rw [hadd] at h ⊢
      cases h
      exact ⟨hs, rfl⟩
  · obtain ⟨-, rfl⟩ := parse_eq_ok_iff.1 h
    refine ⟨?_, keepsLast_foldl _⟩
    rw [edited_eq, List.filterMap_map]
    rfl
  · have ht := h.parse_eq hs
    refine ⟨ht, fun l' ht' => ?_⟩
    obtain rfl := Except.ok.inj (ht.symm.trans ht')
    exact ⟨rfl, rfl⟩

/-- A duplicate and a bad line among changes, and a text with a duplicate whose lines are moved. -/
theorem last_write_wins_moved :
    let edits : List Edit := [.load "20 RET".toList, .insert ⟨10, "END".toList⟩,
      .load "x".toList, .load "20 END".toList]
    let s := "20 RET\n\n10 END\n20 END".toList
    let t := "20 RET\n20 END\n\n10 END".toList
    ((empty.edited edits).get? 20 = some ⟨20, "END".toList⟩ ∧ (empty.edited edits).size = 2) ∧
      (Rearranged s t ∧ ∃ l, parse s = .ok l ∧ parse t = .ok l) := by
  intro edits s t
  have hkeeps := last_write_wins.1 edits
  have hget := (hkeeps.get?_eq 20).trans
    (show lastOf? 20 (edits.filterMap Edit.line?) = some ⟨20, "END".toList⟩ by decide +kernel)
  have hsize := hkeeps.size_eq.trans
    (show ((edits.filterMap Edit.line?).map Line.number).toFinset.card = 2 by decide +kernel)
  have hrearranged : Rearranged s t := by
    refine ⟨by decide +kernel, fun n => ?_⟩
    by_cases hn : n = 10 ∨ n = 20
    · rcases hn with rfl | rfl <;> decide +kernel
    -- no line has another number
    have hnone {u : Text} (h : ∀ v ∈ Text.lines u,
        Line.numberOf? v ∈ [none, some 10, some 20]) :
        (Text.lines u).filter (fun v => Line.numberOf? v = some n) = [] := by
      refine List.filter_eq_nil_iff.2 fun v hv hnumber => hn ?_
      have hv := h v hv
      rw [of_decide_eq_true hnumber] at hv
      simpa using hv
    rw [hnone (by decide +kernel), hnone (by decide +kernel)]
  obtain ⟨l, hl⟩ : ∃ l, parse s = .ok l := ⟨_, parse_eq_ok_iff.2 ⟨by decide +kernel, rfl⟩⟩
  exact ⟨⟨hget, hsize⟩, hrearranged, l, hl, (last_write_wins.2.2.2 s t hrearranged l hl).1⟩

end Listing
end LineScript
