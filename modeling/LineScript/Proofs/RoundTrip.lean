import LineScript.Source.Listing
import LineScript.Proofs.Canonical

/-!
Lines and listings written out and read back. Everything is found again, number by number, with the
canonical form of what was written; so a line comes back as it was exactly if its instruction is
its own canonical spelling.
-/
namespace LineScript

namespace Text

variable {s t : Text} {c : Char}

theorem mem_of_mem_trim (h : c ∈ trim s) : c ∈ s :=
  (List.dropWhile_sublist _).subset
    (List.mem_reverse.1 ((List.dropWhile_sublist _).subset (List.mem_reverse.1 h)))

theorem mem_of_splitWord {word rest : Text} (hs : splitWord s = (word, rest))
    (hc : c ∈ word ∨ c ∈ rest) : c ∈ s := by
  cases hs
  rcases hc with hc | hc
  · exact (List.takeWhile_sublist _).subset hc
  · exact (List.dropWhile_sublist _).subset ((List.dropWhile_sublist _).subset hc)

theorem mem_of_newline_mem_upper (h : '\n' ∈ upper s) : '\n' ∈ s := by
  obtain ⟨c, hc, hupper⟩ := List.mem_map.1 h
  rcases toUpper_cases c with hself | hletter
  · rwa [← hupper, hself]
  · rw [hupper] at hletter
    cases hletter

theorem newline_notMem_of_mem_splitOn (h : t ∈ s.splitOn '\n') : '\n' ∉ t := by
  induction s generalizing t with
  | nil =>
    rw [List.splitOn_nil, List.mem_singleton] at h
    simp [h]
  | cons c s ih =>
    rw [List.splitOn, List.splitOnP_cons_eq_if_modifyHead] at h
    split at h
    · rcases List.mem_cons.1 h with rfl | h
      · simp
      · exact ih h
    next hc =>
      generalize hpieces : List.splitOnP (· == '\n') s = pieces at h
      have hin (t : Text) (ht : t ∈ pieces) : '\n' ∉ t :=
        ih (t := t) (by rwa [List.splitOn, hpieces])
      cases pieces with
      | nil => cases h
      | cons piece pieces =>
        rcases List.mem_cons.1 h with rfl | h
        · have hne : c ≠ '\n' := by simpa using hc
          simp [hne.symm, hin piece List.mem_cons_self]
        · exact hin t (List.mem_cons_of_mem _ h)

theorem newline_notMem_of_mem_lines (h : t ∈ lines s) : '\n' ∉ t := by
  unfold lines at h
  rcases List.mem_append.1 h with h | h
  · obtain ⟨piece, hpiece, rfl⟩ := List.mem_map.1 h
    have hin := newline_notMem_of_mem_splitOn ((List.dropLast_sublist _).subset hpiece)
    unfold dropReturn
    split
    · exact fun hmem => hin ((List.dropLast_sublist _).subset hmem)
    · exact hin
  · have hlast := List.mem_of_mem_filter h
    rw [Option.mem_toList] at hlast
    exact newline_notMem_of_mem_splitOn (List.mem_of_mem_getLast? hlast)

/-- Texts with a line feed after each are the lines of what they make together. -/
theorem lines_flatMap {texts : List Text} (hnewline : ∀ t ∈ texts, '\n' ∉ t)
    (htight : ∀ t ∈ texts, Tight t) : lines (texts.flatMap fun t => t ++ ['\n']) = texts := by
  have hsplit : (texts.flatMap fun t => t ++ ['\n']).splitOn '\n' = texts ++ [[]] := by
    clear htight
    induction texts with
    | nil => rfl
    | cons t texts ih =>
      obtain ⟨ht, htexts⟩ := List.forall_mem_cons.1 hnewline
      rw [List.flatMap_cons, List.append_assoc, List.singleton_append,
        List.splitOn_append_cons_self_of_not_mem ht, ih htexts]
      rfl
  have hreturn : ∀ t ∈ texts, dropReturn t = t := fun t ht =>
    if_neg fun hlast => by cases (htight t ht).last _ hlast
  rw [lines, hsplit, List.dropLast_concat, List.getLast?_concat, List.map_congr_left hreturn]
  simp

end Text

namespace Source

theorem mem_of_mem_joined {c : Char} {first second : Text} (hc : c ≠ ' ')
    (h : c ∈ joined first second) : c ∈ first ∨ c ∈ second := by
  unfold joined at h
  split at h
  · exact .inl h
  · simpa [hc] using h

theorem mem_of_mem_squeezeFrom {c : Char} {isOpen : Bool} {s : Text}
    (h : c ∈ squeezeFrom isOpen s) : c ∈ s := by
  induction s generalizing isOpen with
  | nil => exact h
  | cons d s ih =>
    rw [squeezeFrom] at h
    split at h
    · rcases List.mem_cons.1 h with rfl | h
      · exact List.mem_cons_self
      · exact List.mem_cons_of_mem _ (ih h)
    · exact List.mem_cons_of_mem _ (ih h)

theorem mem_of_mem_keptOperands {c : Char} {k : Option Keyword} {operands : Text}
    (h : c ∈ keptOperands k operands) : c ∈ operands := by
  unfold keptOperands at h
  split at h
  · cases h
  · cases h
  · rw [squeezeUnquoted_eq] at h
    exact mem_of_mem_squeezeFrom h
  · rw [squeezeUnquoted_eq] at h
    exact mem_of_mem_squeezeFrom h
  · exact List.mem_of_mem_filter h

/-- A canonical spelling is on one line if the instruction is. -/
theorem newline_mem_of_canonical {s : Text} (h : '\n' ∈ canonical s) : '\n' ∈ s := by
  have hne : '\n' ≠ ' ' := by decide
  induction shape s with
  | @plain s word operands hs hk =>
    rw [canonical_of_not_branch hs hk] at h
    refine Text.mem_of_mem_trim (Text.mem_of_splitWord hs ?_)
    exact (mem_of_mem_joined hne h).imp Text.mem_of_newline_mem_upper mem_of_mem_keptOperands
  | @unfinished s word operands hs hk hthen =>
    rw [canonical_of_unfinished hs hk hthen] at h
    refine Text.mem_of_mem_trim (Text.mem_of_splitWord hs (.inr ?_))
    exact List.mem_of_mem_filter ((mem_of_mem_joined hne h).resolve_left (by decide))
  | @conditional s word operands condition action hs hk hthen _ ih =>
    obtain ⟨_, _, rfl⟩ := exists_of_aroundThen? hthen
    rw [canonical_of_conditional hs hk hthen] at h
    refine Text.mem_of_mem_trim (Text.mem_of_splitWord hs (.inr ?_))
    have hclause := (mem_of_mem_joined hne h).resolve_left (by decide)
    rcases List.mem_append.1 hclause with hcondition | haction
    · have hkept : '\n' ∈ Text.squeeze condition := by
        split at hcondition
        · cases hcondition
        · simpa [hne] using hcondition
      simp [List.mem_of_mem_filter hkept]
    · simp [ih ((mem_of_mem_joined hne haction).resolve_left (by decide))]

theorem canonical_ne_nil {s : Text} (h : Text.trim s ≠ []) : canonical s ≠ [] := by
  have hif (body : Text) : joined "IF".toList body ≠ [] := joined_ne_nil (by decide) body
  cases shape s with
  | @plain _ word operands hs hk =>
    rw [canonical_of_not_branch hs hk]
    refine joined_ne_nil (fun hword => h ?_) _
    exact (Text.splitWord_tight (Text.tight_trim s) hs).2.1 (List.map_eq_nil_iff.1 hword)
  | unfinished hs hk hthen =>
    rw [canonical_of_unfinished hs hk hthen]
    exact hif _
  | conditional hs hk hthen =>
    rw [canonical_of_conditional hs hk hthen]
    exact hif _

end Source

namespace Line

/-- What reading a line gives: a number that can be read, and an instruction on one line. -/
structure Readable (line : Line) : Prop where
  number? : Line.number? (Text.ofNat line.number) = some line.number
  tight : Text.Tight line.instruction
  ne_nil : line.instruction ≠ []

/-- The line with the canonical form of its instruction. -/
def respelled (line : Line) : Line :=
  { line with instruction := Source.canonical line.instruction }

theorem text_eq_joined {line : Line} (h : line.instruction ≠ []) :
    line.text = Source.joined (Text.ofNat line.number) line.instruction :=
  (Source.joined_of_ne_nil _ h).symm

theorem number?_ofNat {s : Text} {n : Nat} (h : Line.number? s = some n) :
    Line.number? (Text.ofNat n) = some n := by
  obtain ⟨-, hn⟩ := Option.filter_eq_some_iff.1 h
  rw [Line.number?, Text.natural?_ofNat, Option.filter_some, hn]
  rfl

theorem solid_ofNat (n : Nat) : ∀ c ∈ Text.ofNat n, Text.isBlank c = false := by
  intro c hc
  have hdigits := Text.isDigits_ofNat n
  simp only [Text.isDigits, Bool.and_eq_true, List.all_eq_true] at hdigits
  exact Name.isBlank_of_isPart (by simp [Name.isPart, hdigits.2 c hc])

theorem newline_notMem_text {line : Line} (h : '\n' ∉ line.instruction) : '\n' ∉ line.text := by
  have hnumber : '\n' ∉ Text.ofNat line.number := fun hmem => by cases solid_ofNat _ _ hmem
  simp [text, hnumber, h]

namespace Readable

variable {line : Line}

theorem splitWord_text (h : line.Readable) : Text.Tight line.text ∧
    Text.splitWord line.text = (Text.ofNat line.number, line.instruction) := by
  rw [text_eq_joined h.ne_nil]
  refine Source.splitWord_joined _ (solid_ofNat _) (fun hnil => ?_) h.tight
  exact absurd hnil Nat.toDigits_ne_nil

theorem parse_text (h : line.Readable) : Line.parse line.text = .ok line.respelled := by
  obtain ⟨htight, hsplit⟩ := h.splitWord_text
  rw [Line.parse, htight.trim_eq, hsplit]
  simp only [h.number?, List.isEmpty_iff, h.ne_nil, if_false]
  rfl

end Readable

theorem exists_of_parse {s : Text} {line : Line} (h : Line.parse s = .ok line) :
    ∃ word code, Text.splitWord (Text.trim s) = (word, code) ∧
      Line.number? word = some line.number ∧ code ≠ [] ∧
        line.instruction = Source.canonical code := by
  unfold Line.parse at h
  generalize hs : Text.splitWord (Text.trim s) = parts at h
  obtain ⟨word, code⟩ := parts
  dsimp only at h
  split at h
  · cases h
  next number hnumber =>
    split at h
    · cases h
    next hcode =>
      cases h
      exact ⟨word, code, rfl, hnumber, by simpa using hcode, rfl⟩

theorem readable_of_parse {s : Text} {line : Line} (h : Line.parse s = .ok line) :
    line.Readable := by
  obtain ⟨word, code, hs, hnumber, hne, hcode⟩ := exists_of_parse h
  have htight := (Text.splitWord_tight (Text.tight_trim s) hs).2.2
  refine ⟨number?_ofNat hnumber, ?_, ?_⟩
  · rw [hcode]
    exact Source.tight_canonical code
  · rw [hcode]
    exact Source.canonical_ne_nil (by rwa [htight.trim_eq])

end Line

namespace Listing

variable {l l' : Listing} {line : Line}

theorem get?_eq_some_iff {n : Nat} : l.get? n = some line ↔ line.number = n ∧ line ∈ l.lines := by
  obtain ⟨number, instruction⟩ := line
  have hmem : (⟨number, instruction⟩ : Line) ∈ l.lines ↔ l.table[number]? = some instruction := by
    rw [lines, List.mem_map, ← Std.ExtTreeMap.mem_toList_iff_getElem?_eq_some]
    constructor
    · rintro ⟨entry, h, heq⟩
      cases heq
      exact h
    · exact fun h => ⟨_, h, rfl⟩
  rw [hmem]
  unfold get?
  constructor
  · intro h
    obtain ⟨instruction', h, heq⟩ := Option.map_eq_some_iff.1 h
    cases heq
    exact ⟨rfl, h⟩
  · rintro ⟨rfl, h⟩
    rw [h]
    rfl

/-- The listing with the canonical form of each instruction. -/
def respelled (l : Listing) : Listing :=
  ⟨l.table.map fun _ instruction => Source.canonical instruction⟩

theorem get?_respelled (l : Listing) (n : Nat) :
    l.respelled.get? n = (l.get? n).map Line.respelled := by
  unfold respelled get?
  rw [Std.ExtTreeMap.getElem?_map, Option.map_map, Option.map_map]
  rfl

theorem respelled_eq_iff (l : Listing) : l.respelled = l ↔
    ∀ line ∈ l.lines, Source.canonical line.instruction = line.instruction := by
  constructor
  · intro h line hline
    have hget := get?_eq_some_iff.2 ⟨rfl, hline⟩
    have hsame := get?_respelled l line.number
    rw [h, hget, Option.map_some] at hsame
    exact (congrArg Line.instruction (Option.some.inj hsame)).symm
  · intro h
    ext1 n
    rw [get?_respelled]
    cases hget : l.get? n with
    | none => rfl
    | some line =>
      obtain ⟨-, hline⟩ := get?_eq_some_iff.1 hget
      rw [Option.map_some, Line.respelled, h line hline]

/-- Of lines that are inserted in turn, the last one with a number is found under it. -/
theorem get?_foldl_insert (lines : List Line) (l : Listing) (n : Nat) :
    (lines.foldl (fun l line => l.insert line) l).get? n =
      (lines.reverse.find? fun line => line.number = n).or (l.get? n) := by
  induction lines generalizing l with
  | nil => rfl
  | cons line lines ih =>
    rw [List.foldl_cons, ih, get?_insert, List.reverse_cons, List.find?_append, Option.or_assoc]
    congr 1
    by_cases hn : line.number = n <;> simp [hn]

theorem find?_reverse_lines (l : Listing) (n : Nat) :
    l.lines.reverse.find? (fun line => line.number = n) = l.get? n := by
  cases hfind : l.lines.reverse.find? fun line => line.number = n with
  | some line =>
    have hn : line.number = n := by simpa using List.find?_some hfind
    have hline := List.mem_reverse.1 (List.mem_of_find?_eq_some hfind)
    exact (get?_eq_some_iff.2 ⟨hn, hline⟩).symm
  | none =>
    cases hget : l.get? n with
    | none => rfl
    | some line =>
      obtain ⟨hn, hline⟩ := get?_eq_some_iff.1 hget
      have hnone := List.find?_eq_none.1 hfind line (List.mem_reverse.2 hline)
      exact absurd (decide_eq_true hn) hnone

/-- The lines of a listing, each in canonical form, make the listing with these. -/
theorem foldl_insert_respelled (l : Listing) :
    l.lines.foldl (fun l line => l.insert line.respelled) empty = l.respelled := by
  have hfold : l.lines.foldl (fun l line => l.insert line.respelled) empty =
      (l.lines.map Line.respelled).foldl (fun l line => l.insert line) empty := by
    rw [List.foldl_map]
  ext1 n
  rw [hfold, get?_foldl_insert, get?_respelled, ← List.map_reverse, List.find?_map,
    ← find?_reverse_lines l]
  exact Option.or_none

theorem addText_text (h : line.Readable) (l : Listing) :
    l.addText line.text = .ok (l.insert line.respelled) := by
  have hne : Text.trim line.text ≠ [] := by
    rw [h.splitWord_text.1.trim_eq]
    exact List.append_ne_nil_of_right_ne_nil _ (List.cons_ne_nil _ _)
  rw [addText, if_neg (by simpa using hne), h.parse_text]
  rfl

theorem foldlM_text {lines : List Line} (h : ∀ line ∈ lines, line.Readable) (l : Listing)
    (index : Nat) : ((lines.map Line.text).zipIdx index).foldlM
      (fun l (line, index) => (l.addText line).mapError (blame (index + 1))) l =
      .ok (lines.foldl (fun l line => l.insert line.respelled) l) := by
  induction lines generalizing l index with
  | nil => rfl
  | cons line lines ih =>
    obtain ⟨hline, hlines⟩ := List.forall_mem_cons.1 h
    rw [List.map_cons, List.zipIdx_cons, List.foldlM_cons, List.foldl_cons, ← ih hlines]
    dsimp only
    rw [addText_text hline]
    rfl

/-- Lines that are written one after the other are read back, with each in canonical form. -/
theorem parse_texts {lines : List Line}
    (h : ∀ line ∈ lines, line.Readable ∧ '\n' ∉ line.instruction) :
    parse (lines.flatMap fun line => line.text ++ ['\n']) =
      .ok ((lines.map Line.respelled).foldl (fun l line => l.insert line) empty) := by
  have hlines : Text.lines ((lines.map Line.text).flatMap fun t => t ++ ['\n']) =
      lines.map Line.text := by
    apply Text.lines_flatMap
    · rintro t ht
      obtain ⟨line, hline, rfl⟩ := List.mem_map.1 ht
      exact Line.newline_notMem_text (h line hline).2
    · rintro t ht
      obtain ⟨line, hline, rfl⟩ := List.mem_map.1 ht
      exact (h line hline).1.splitWord_text.1
  rw [List.flatMap_map] at hlines
  rw [parse, hlines, foldlM_text fun line hline => (h line hline).1, List.foldl_map]

/-- Each line of the listing can be read again, and is on one line. -/
def Printable (l : Listing) : Prop :=
  ∀ line ∈ l.lines, line.Readable ∧ '\n' ∉ line.instruction

/-- A listing is read from its own text, with each line in canonical form. -/
theorem Printable.parse_text (h : Printable l) : parse l.text = .ok l.respelled := by
  rw [text, parse_texts h, List.foldl_map, foldl_insert_respelled]

theorem printable_empty : Printable empty := by
  intro line hline
  have hget := get?_eq_some_iff.2 ⟨rfl, hline⟩
  simp [empty, get?] at hget

theorem Printable.insert (h : Printable l) (hline : line.Readable)
    (hnewline : '\n' ∉ line.instruction) : Printable (l.insert line) := by
  intro other hother
  have hget := get?_eq_some_iff.2 ⟨rfl, hother⟩
  rw [get?_insert] at hget
  split at hget
  · cases hget
    exact ⟨hline, hnewline⟩
  · exact h other (get?_eq_some_iff.1 hget).2

theorem Printable.addText (h : Printable l) {s : Text} (hs : '\n' ∉ s)
    (hl : l.addText s = .ok l') : Printable l' := by
  unfold Listing.addText at hl
  split at hl
  · cases hl
    exact h
  · obtain ⟨line, hline, hl⟩ := Error.exists_of_bind_ok hl
    cases hl
    obtain ⟨word, code, hsplit, -, -, hcode⟩ := Line.exists_of_parse hline
    refine h.insert (Line.readable_of_parse hline) fun hmem => hs ?_
    rw [hcode] at hmem
    exact Text.mem_of_mem_trim (Text.mem_of_splitWord hsplit
      (.inr (Source.newline_mem_of_canonical hmem)))

theorem printable_of_parse {s : Text} (h : parse s = .ok l) : Printable l := by
  have hfold {texts : List Text} {index : Nat} {l₀ : Listing} (hl₀ : Printable l₀)
      (htexts : ∀ t ∈ texts, '\n' ∉ t)
      (h : (texts.zipIdx index).foldlM
        (fun l (line, index) => (l.addText line).mapError (blame (index + 1))) l₀ = .ok l) :
      Printable l := by
    induction texts generalizing index l₀ with
    | nil =>
      cases h
      exact hl₀
    | cons t texts ih =>
      obtain ⟨ht, htexts⟩ := List.forall_mem_cons.1 htexts
      rw [List.zipIdx_cons, List.foldlM_cons] at h
      obtain ⟨l₁, hl₁, h⟩ := Error.exists_of_bind_ok h
      refine ih (hl₀.addText ht ?_) htexts h
      dsimp only at hl₁
      cases hadd : l₀.addText t with
      | error e =>
        rw [hadd] at hl₁
        cases hl₁
      | ok l₂ =>
        rw [hadd] at hl₁
        cases hl₁
        rfl
  exact hfold printable_empty (fun t ht => Text.newline_notMem_of_mem_lines ht) h

end Listing

namespace Source

/-- Where canonical text is a fixed point: of the instructions it is so exactly for the steady
ones, and a line or a listing comes back from its own text exactly if its instructions do. -/
theorem canonical_fixed_iff (s : Text) :
    (canonical (canonical s) = canonical s ↔ Steady s) ∧
    (∀ line, Line.parse s = .ok line →
      (Line.parse line.text = .ok line ↔ Steady (Text.splitWord (Text.trim s)).2)) ∧
    ∀ listing, Listing.parse s = .ok listing →
      (∃ again, Listing.parse listing.text = .ok again) ∧
      (Listing.parse listing.text = .ok listing ↔
        ∀ line ∈ listing.lines, canonical line.instruction = line.instruction) := by
  refine ⟨canonical_canonical_iff s, fun line h => ?_, fun listing h => ?_⟩
  · obtain ⟨word, code, hs, -, -, hcode⟩ := Line.exists_of_parse h
    obtain ⟨number, instruction⟩ := line
    dsimp only at hcode
    rw [(Line.readable_of_parse h).parse_text, hs, ← canonical_canonical_iff, ← hcode]
    simp [Line.respelled]
  · have hparse := (Listing.printable_of_parse h).parse_text
    refine ⟨⟨_, hparse⟩, ?_⟩
    rw [hparse, ← Listing.respelled_eq_iff]
    simp

/-- A condition that comes back as it was, as a line and as a listing of one line. -/
theorem canonical_fixed_iff_condition :
    let s := "10 if a = 5 then print \"x y\"".toList
    ∃ line, Line.parse s = .ok line ∧ Line.parse line.text = .ok line ∧
      Listing.parse s = .ok (Listing.empty.insert line) ∧
      Listing.parse (Listing.empty.insert line).text = .ok (Listing.empty.insert line) := by
  intro s
  let code := "if a = 5 then print \"x y\"".toList
  have hsplit : Text.splitWord (Text.trim s) = ("10".toList, code) := by decide +kernel
  have hparse : Line.parse s = .ok ⟨10, canonical code⟩ := by
    rw [Line.parse, hsplit]
    rfl
  have hlisting : Listing.parse s = .ok (Listing.empty.insert ⟨10, canonical code⟩) := by
    have hlines : Text.lines s = [s] := by decide +kernel
    have hadd : Listing.empty.addText s = .ok (Listing.empty.insert ⟨10, canonical code⟩) := by
      rw [Listing.addText, if_neg (by decide +kernel), hparse]
      rfl
    rw [Listing.parse, hlines, List.zipIdx_cons, List.zipIdx_nil, List.foldlM_cons]
    dsimp only
    rw [hadd]
    rfl
  have hsteady : Steady code := by
    have hif : Text.splitWord (Text.trim code) =
        ("if".toList, "a = 5 then print \"x y\"".toList) := by decide +kernel
    have hthen : aroundThen? "a = 5 then print \"x y\"".toList =
        some ("a = 5 ".toList, " print \"x y\"".toList) := by decide +kernel
    have hprint : Text.splitWord (Text.trim " print \"x y\"".toList) =
        ("print".toList, "\"x y\"".toList) := by decide +kernel
    exact .conditional hif (by decide +kernel) hthen (by decide +kernel)
      (.plain hprint (by decide +kernel))
  have hfixed := (canonical_fixed_iff code).1.2 hsteady
  refine ⟨⟨10, canonical code⟩, hparse, ?_, hlisting, ?_⟩
  · refine ((canonical_fixed_iff s).2.1 _ hparse).2 ?_
    rw [hsplit]
    exact hsteady
  · refine ((canonical_fixed_iff s).2.2 _ hlisting).2.2 fun line hline => ?_
    have hget := Listing.get?_eq_some_iff.2 ⟨rfl, hline⟩
    rw [Listing.get?_insert] at hget
    split at hget
    · cases hget
      exact hfixed
    · simp [Listing.empty, Listing.get?] at hget

/-- Squeezing brings the letters of a THEN together, which is found only when the canonical
spelling is read again. -/
theorem canonical_split_then :
    let s := "IF A=5 T HEN".toList
    canonical s = "IF A=5THEN".toList ∧ canonical (canonical s) = "IF A=5 THEN".toList := by
  intro s
  have hfirst : canonical s = "IF A=5THEN".toList := by
    have hs : Text.splitWord (Text.trim s) = ("IF".toList, "A=5 T HEN".toList) := by decide +kernel
    rw [canonical_of_unfinished hs rfl (by decide +kernel)]
    decide +kernel
  have hs : Text.splitWord (Text.trim "IF A=5THEN".toList) = ("IF".toList, "A=5THEN".toList) := by
    decide +kernel
  have hthen : aroundThen? "A=5THEN".toList = some ("A=5".toList, []) := by decide +kernel
  refine ⟨hfirst, ?_⟩
  rw [hfirst, canonical_of_conditional hs rfl hthen, canonical_nil]
  decide +kernel

end Source
end LineScript
