import LineScript.Proofs.Decoding
import LineScript.Proofs.LastWrite
import LineScript.Proofs.Shortcuts

/-!
What is printed between double quotes is what was written between them. Outside the quotes there
are only blanks, which go when the line is read; inside nothing is touched, by the search for THEN
as little as by trimming, because a quote that is no blank stands at each end.
-/
namespace LineScript

namespace Text

/-- The first word of a text with blanks around it, and the rest. -/
theorem splitWord_trim {margin word gap s : Text} (hmargin : ∀ c ∈ margin, isBlank c = true)
    (hword : ∀ c ∈ word, isBlank c = false) (hne : word ≠ []) (hgap : ∀ c ∈ gap, isBlank c = true)
    (hgapne : gap ≠ []) (hs : trim s ≠ []) :
    splitWord (trim (margin ++ (word ++ (gap ++ s)))) = (word, trim s) := by
  obtain ⟨before, after, hbefore, hafter, heq⟩ := exists_trim s
  have htight := (Tight.of_solid hword).enclose hne (gap ++ before) (tight_trim s) hs
  have htrim : trim (margin ++ (word ++ (gap ++ s))) = word ++ ((gap ++ before) ++ trim s) := by
    have htext : word ++ (gap ++ s) = word ++ ((gap ++ before) ++ trim s) ++ after := by
      conv_lhs => rw [heq]
      simp only [List.append_assoc]
    rw [htext, trim_append hmargin, trim_append_blank _ hafter, htight.trim_eq]
  rw [htrim, splitWord_append hword (List.forall_mem_append.2 ⟨hgap, hbefore⟩) (by simp [hgapne]),
    (tight_trim s).trimStart_eq]

theorem lines_of_newline_notMem {s : Text} (h : '\n' ∉ s) (hne : s ≠ []) : lines s = [s] := by
  rw [lines, List.splitOn_eq_singleton h]
  simp [hne]

theorem trim_ne_nil_of_splitWord {s word rest : Text} (hs : splitWord (trim s) = (word, rest))
    (hne : word ≠ []) : trim s ≠ [] := by
  intro hnil
  rw [hnil] at hs
  cases hs
  exact hne rfl

end Text

/-- A number and an instruction, with blanks around them, are read as these. -/
theorem Line.parse_numbered {margin number gap code : Text} {n : Nat}
    (hmargin : ∀ c ∈ margin, Text.isBlank c = true) (hnumber : number? number = some n)
    (hgap : ∀ c ∈ gap, Text.isBlank c = true) (hgapne : gap ≠ []) (hcode : Text.trim code ≠ []) :
    parse (margin ++ (number ++ (gap ++ code))) = .ok ⟨n, Source.canonical code⟩ := by
  have hdigits : Text.isDigits number = true := by
    rw [number?, Text.natural?] at hnumber
    by_contra hno
    rw [if_neg hno] at hnumber
    cases hnumber
  have hplain : Text.Plain number := (Atom.numeral ⟨number, hdigits⟩).plain_text
  have hcanonical : Source.canonical (Text.trim code) = Source.canonical code := by
    rw [Source.canonical, Source.canonical, Text.trim_trim]
  rw [parse, Text.splitWord_trim hmargin hplain.solid hplain.1 hgap hgapne hcode]
  simp only [hnumber, List.isEmpty_iff, hcode, if_false, hcanonical]

/-- A text of one line is read as a listing of that line. -/
theorem Listing.parse_of_line {s : Text} {line : Line} (h : Line.parse s = .ok line)
    (hs : '\n' ∉ s) : parse s = .ok (empty.insert line) := by
  have hne : s ≠ [] := by
    rintro rfl
    cases h
  have hline := ofText?_of_parse h
  rw [parse_eq_ok_iff, Text.lines_of_newline_notMem hs hne, List.forall_mem_singleton]
  refine ⟨.inr (by rw [hline]; rfl), ?_⟩
  simp [hline]

/-- A text between double quotes. -/
def Text.inQuotes (t : Text) : Text :=
  '"' :: (t ++ ['"'])

/-- The text of a print instruction that shows quoted texts, one after the other, with the keyword
in any case and with blanks around the quotes. -/
structure Quotation where
  pieces : List Text
  /-- Whether a new line is begun after the texts. -/
  endsLine : Bool
  word : Text
  gap : Text
  body : Text
  pieces_ne_nil : pieces ≠ []
  unquoted : ∀ t ∈ pieces, '"' ∉ t
  upper_word : Text.upper word = if endsLine then "PRINTLN".toList else "PRINT".toList
  gap_blank : ∀ c ∈ gap, Text.isBlank c = true
  gap_ne_nil : gap ≠ []
  spaced_body : Spaced (pieces.map Text.inQuotes) body

namespace Source

/-- Inside a quote every character is kept. -/
theorem squeezeFrom_true {t : Text} (h : '"' ∉ t) (s : Text) :
    squeezeFrom true (t ++ s) = t ++ squeezeFrom true s := by
  induction t with
  | nil => rfl
  | cons c t ih =>
    obtain ⟨hc, ht⟩ := List.ne_and_not_mem_of_not_mem_cons h
    have hopen : (true != (c == '"')) = true := by simp [Ne.symm hc]
    rw [List.cons_append, squeezeFrom, hopen, Bool.true_or, if_pos rfl, ih ht]
    rfl

theorem squeezeFrom_inQuotes {t : Text} (h : '"' ∉ t) (s : Text) :
    squeezeFrom false (t.inQuotes ++ s) = t.inQuotes ++ squeezeFrom false s := by
  have hclose : squeezeFrom true ('"' :: s) = '"' :: squeezeFrom false s := rfl
  have hopen : squeezeFrom false ('"' :: (t ++ '"' :: s)) =
      '"' :: squeezeFrom true (t ++ '"' :: s) := rfl
  simp only [Text.inQuotes, List.cons_append, List.append_assoc, List.nil_append]
  rw [hopen, squeezeFrom_true h, hclose]

theorem squeezeFrom_blank {gap : Text} (h : ∀ c ∈ gap, Text.isBlank c = true) (s : Text) :
    squeezeFrom false (gap ++ s) = squeezeFrom false s := by
  induction gap with
  | nil => rfl
  | cons c gap ih =>
    obtain ⟨hc, hgap⟩ := List.forall_mem_cons.1 h
    rw [List.cons_append, squeezeFrom, ne_quote_of_isBlank hc, hc]
    exact ih hgap

/-- Between quoted texts the blanks are all that is dropped. -/
theorem squeezeFrom_spaced {pieces : List Text} (h : ∀ t ∈ pieces, '"' ∉ t) {s : Text}
    (hs : Spaced (pieces.map Text.inQuotes) s) :
    squeezeFrom false s = (pieces.map Text.inQuotes).flatten := by
  induction pieces generalizing s with
  | nil =>
    have hblank := squeezeFrom_blank (Spaced.nil_iff.1 hs) []
    rwa [List.append_nil] at hblank
  | cons t pieces ih =>
    obtain ⟨ht, hpieces⟩ := List.forall_mem_cons.1 h
    cases hs with
    | @next gap hgap _ _ s hs =>
      rw [List.append_assoc, squeezeFrom_blank hgap, squeezeFrom_inQuotes ht, ih hpieces hs]
      rfl

end Source

namespace Quotation

variable (q : Quotation)

def text : Text :=
  q.word ++ (q.gap ++ q.body)

def keyword : Keyword :=
  if q.endsLine then .printLine else .print

/-- The texts in their quotes, with no blanks around them. -/
def operands : Text :=
  (q.pieces.map Text.inQuotes).flatten

/-- What the instruction prints. -/
def shown : Text :=
  q.pieces.flatten ++ if q.endsLine then ['\n'] else []

/-- The instruction by itself, and as the action of a condition that says that 1 is 1. -/
inductive IsCode (q : Quotation) : Text → Prop where
  | alone : IsCode q q.text
  | conditional (b : Branch) (hl : b.left = .tight (.tight (.operand (.numeral (.ofNat 1)))))
      (hr : b.right = .tight (.tight (.operand (.numeral (.ofNat 1)))))
      (hrelation : b.relation = .equal) (space : Text)
      (hspace : ∀ c ∈ space, Text.isBlank c = true) (haction : b.action = space ++ q.text) :
      IsCode q b.text

theorem upper_word_eq : Text.upper q.word = q.keyword.spelling := by
  rw [q.upper_word, keyword]
  split <;> rfl

theorem operands_cons : ∃ rest, q.operands = '"' :: rest := by
  obtain ⟨t, pieces, hpieces⟩ := List.exists_cons_of_ne_nil q.pieces_ne_nil
  exact ⟨_, by rw [operands, hpieces]; rfl⟩

/-- Around the quotes nothing but blanks is trimmed. -/
theorem spaced_trim : Spaced (q.pieces.map Text.inQuotes) (Text.trim q.body) := by
  obtain ⟨t, pieces, hpieces⟩ := List.exists_cons_of_ne_nil q.pieces_ne_nil
  have hquote : Text.isBlank '"' = false := rfl
  have hbody := q.spaced_body
  rw [hpieces] at hbody
  have hstart : Spaced (q.pieces.map Text.inQuotes) (Text.trimStart q.body) :=
    hpieces ▸ (hbody.trimStart hquote).1
  refine hstart.trimEnd fun piece hpiece => ?_
  obtain ⟨u, -, rfl⟩ := List.mem_map.1 hpiece
  exact ⟨'"' :: u, '"', rfl, hquote⟩

theorem squeezeUnquoted_trim : Source.squeezeUnquoted (Text.trim q.body) = q.operands := by
  rw [Source.squeezeUnquoted_eq, Source.squeezeFrom_spaced q.unquoted q.spaced_trim, operands]

theorem trim_body_ne_nil : Text.trim q.body ≠ [] := by
  intro hnil
  obtain ⟨rest, hrest⟩ := q.operands_cons
  have hkept := q.squeezeUnquoted_trim
  rw [hnil, hrest] at hkept
  cases hkept

theorem splitWord_trim {space : Text} (hspace : ∀ c ∈ space, Text.isBlank c = true) :
    Text.splitWord (Text.trim (space ++ q.text)) = (q.word, Text.trim q.body) := by
  obtain ⟨hword, hne⟩ := Keyword.solid_of_upper q.upper_word_eq
  exact Text.splitWord_trim hspace hword hne q.gap_blank q.gap_ne_nil q.trim_body_ne_nil

/-- The canonical form of the instruction has no blanks outside the quotes, and is read as that. -/
theorem parse_canonical {space : Text} (hspace : ∀ c ∈ space, Text.isBlank c = true) :
    Instruction.parse (Source.canonical (space ++ q.text)) = .ok ⟨q.keyword, q.operands⟩ := by
  have hkept : Source.keptOperands (some q.keyword) (Text.trim q.body) = q.operands := by
    rw [← q.squeezeUnquoted_trim, keyword]
    split <;> rfl
  rw [Source.parse_canonical_of_not_branch (q.splitWord_trim hspace), q.upper_word_eq,
    Keyword.ofText?_spelling]
  · simp only [hkept]
  · rw [q.upper_word_eq, keyword]
    split <;> decide

theorem IsCode.trim_ne_nil {q : Quotation} {code : Text} (h : q.IsCode code) :
    Text.trim code ≠ [] := by
  cases h with
  | alone =>
    have hsplit := q.splitWord_trim (List.forall_mem_nil _)
    exact Text.trim_ne_nil_of_splitWord hsplit (Keyword.solid_of_upper q.upper_word_eq).2
  | conditional b =>
    refine Text.trim_ne_nil_of_splitWord b.splitWord_trim ?_
    exact (Source.solid_of_upper b.upper_keyword (by decide) (by decide)).2

theorem filter_operands : (q.operands.filter fun c => c != '"') = q.pieces.flatten := by
  have hpiece : ∀ t ∈ q.pieces, (List.filter (fun c => c != '"') ∘ Text.inQuotes) t = t := by
    intro t ht
    have hself : (t.filter fun c => c != '"') = t :=
      List.filter_eq_self.2 fun c hc => bne_iff_ne.2 fun heq => q.unquoted t ht (heq ▸ hc)
    simp [Text.inQuotes, hself]
  rw [operands, List.filter_flatten, List.map_map, List.map_congr_left hpiece, List.map_id']

end Quotation

namespace Machine

/-- No variable has a name that begins with a quote, so what is printed is the quotation. -/
theorem printed_operands {vars : Store} (h : vars.Valid) (q : Quotation) :
    printed vars q.operands = .ok q.pieces.flatten := by
  obtain ⟨rest, hrest⟩ := q.operands_cons
  have hcontains : vars.contains q.operands = false := by
    rw [← Bool.not_eq_true]
    intro hname
    have hvalid := h _ hname
    rw [hrest] at hvalid
    simp [Name.isValid, show Name.isStart '"' = false from rfl] at hvalid
  have hlookup : vars.lookup? q.operands = none := by
    rwa [Store.contains_eq, Option.isSome_eq_false_iff, Option.isNone_iff_eq_none] at hcontains
  rw [printed, hlookup, q.filter_operands, hrest]
  rfl

/-- A quotation is printed, and nothing else happens. -/
theorem carryOut_quotation {m : Machine} (h : m.vars.Valid) (q : Quotation) {space : Text}
    (hspace : ∀ c ∈ space, Text.isBlank c = true) (number : Nat) :
    m.carryOut ⟨number, Source.canonical (space ++ q.text)⟩ =
      (.ok (some (.print q.shown)), m) := by
  have hprint (ending : Text) : m.print q.operands ending =
      (.ok (some (.print (q.pieces.flatten ++ ending))), m) := by
    rw [print, printed_operands h]
    rfl
  have hline : m.carryOut ⟨number, Source.canonical (space ++ q.text)⟩ =
      m.obey number ⟨q.keyword, q.operands⟩ := carryOut_of_parse (q.parse_canonical hspace)
  rw [hline, Quotation.keyword, Quotation.shown]
  cases q.endsLine with
  | false => exact hprint []
  | true => exact hprint ['\n']

theorem act_quotation {m : Machine} (h : m.vars.Valid) (q : Quotation) {space : Text}
    (hspace : ∀ c ∈ space, Text.isBlank c = true) :
    m.act (Source.canonical (space ++ q.text)) = (.ok (some (.print q.shown)), m) := by
  have haction : Instruction.isAction (Source.canonical (space ++ q.text)) = true := by
    rw [Instruction.isAction, q.parse_canonical hspace, Quotation.keyword]
    cases q.endsLine <;> rfl
  rw [act_eq 0, if_pos haction, carryOut_quotation h q hspace]

/-- A condition does not change what its action prints. -/
theorem carryOut_isCode {m : Machine} (h : m.vars.Valid) {q : Quotation} {code : Text}
    (hcode : q.IsCode code) (number : Nat) :
    m.carryOut ⟨number, Source.canonical code⟩ = (.ok (some (.print q.shown)), m) := by
  cases hcode with
  | alone => exact carryOut_quotation h q (List.forall_mem_nil _) number
  | conditional b hl hr hrelation space hspace haction =>
    have hleft : Text.squeeze b.leftText = ['1'] := by
      rw [b.left.squeeze_spaced b.spaced_left, hl]
      rfl
    have hright : Text.squeeze b.rightText = ['1'] := by
      rw [b.right.squeeze_spaced b.spaced_right, hr]
      rfl
    have hone : Expr.evaluateIn m.vars ['1'] = .ok ⟨1, by decide, by decide⟩ :=
      Expr.evaluateIn_digits m.vars (.ofNat 1)
    rw [carryOut_canonical, hleft, hright, hone, hrelation, haction, act_trim]
    exact act_quotation h q hspace

end Machine
end LineScript
