import LineScript.Machine.Call
import LineScript.Proofs.Blanks
import LineScript.Proofs.Then
import LineScript.Proofs.Turns

/-!
A condition from its text to its effect. The canonical form of a branch is a branch again, of the
same formulas and with blanks in fewer places, so what is found in the text before it is brought
into canonical form is found in it afterwards. The two sides are written in plain characters, of
which none is the symbol of a relation, and so the condition falls into its parts at one place
only.
-/
namespace LineScript

namespace Relation

/-- What a relation says of two integers. -/
def Compares : Relation → Int → Int → Prop
  | less, a, b => a < b
  | greater, a, b => a > b
  | equal, a, b => a = b
  | differs, a, b => a ≠ b

instance : (relation : Relation) → (a b : Int) → Decidable (relation.Compares a b)
  | less, a, b => inferInstanceAs (Decidable (a < b))
  | greater, a, b => inferInstanceAs (Decidable (a > b))
  | equal, a, b => inferInstanceAs (Decidable (a = b))
  | differs, a, b => inferInstanceAs (Decidable (a ≠ b))

theorem holds_iff (relation : Relation) (a b : Value) :
    relation.holds a b = true ↔ relation.Compares a.toInt b.toInt := by
  cases relation with
  | less => exact decide_eq_true_iff
  | greater => exact decide_eq_true_iff
  | equal => exact beq_iff_eq.trans Value.ext_iff
  | differs => exact bne_iff_ne.trans (not_congr Value.ext_iff)

theorem isBlank_symbol (relation : Relation) : Text.isBlank relation.symbol = false := by
  cases relation <;> rfl

theorem symbol_inj {r relation : Relation} : r.symbol = relation.symbol ↔ r = relation := by
  cases r <;> cases relation <;> decide

end Relation

namespace Text

/-- The characters in which formulas are written. -/
def isPlain (c : Char) : Bool :=
  Name.isPart c || "()+-*/".toList.contains c

/-- A text in the characters of formulas. -/
def Plain (s : Text) : Prop :=
  s ≠ [] ∧ ∀ c ∈ s, isPlain c = true

theorem isBlank_of_isPlain {c : Char} (h : isPlain c = true) : isBlank c = false := by
  rcases Bool.or_eq_true_iff.1 h with hpart | hsymbol
  · exact Name.isBlank_of_isPart hpart
  · have hsymbols : "()+-*/".toList.all (fun c => !isBlank c) = true := rfl
    simpa using List.all_eq_true.1 hsymbols c (List.contains_iff_mem.1 hsymbol)

namespace Plain

theorem solid {s : Text} (h : Plain s) : ∀ c ∈ s, isBlank c = false :=
  fun c hc => isBlank_of_isPlain (h.2 c hc)

theorem symbol_notMem {s : Text} (h : Plain s) (relation : Relation) : relation.symbol ∉ s := by
  intro hmem
  have hplain := h.2 _ hmem
  cases relation <;> exact absurd hplain (by decide)

theorem trim_eq {s : Text} (h : Plain s) : trim s = s := by
  rw [trim, trimStart_of_solid h.solid, trimEnd_of_solid h.solid]

theorem firstIn?_eq {u v : Text} (hu : Plain u) (hv : Plain v) (relation : Relation) :
    Relation.firstIn? (u ++ relation.symbol :: v) = some relation := by
  have hcontains (r : Relation) :
      (u ++ relation.symbol :: v).contains r.symbol = decide (r = relation) := by
    simp [hu.symbol_notMem r, hv.symbol_notMem r, Relation.symbol_inj]
  simp only [Relation.firstIn?, hcontains]
  cases relation <;> rfl

theorem sides?_eq {u v : Text} (hu : Plain u) (hv : Plain v) (relation : Relation) :
    Condition.sides? relation (u ++ relation.symbol :: v) = some (u, v) := by
  have hsplit : (u ++ relation.symbol :: v).splitOn relation.symbol = [u, v] := by
    rw [List.splitOn_append_cons_self_of_not_mem (hu.symbol_notMem relation),
      List.splitOn_eq_singleton (hv.symbol_notMem relation)]
  simp [Condition.sides?, hsplit, hu.trim_eq, hv.trim_eq, hu.1, hv.1]

/-- A condition between plain sides is found to be that. -/
theorem parse_eq {u v : Text} (hu : Plain u) (hv : Plain v) {relation : Relation}
    {operands tested action : Text}
    (haround : Source.aroundThen? operands = some (tested, action))
    (htested : trim tested = u ++ relation.symbol :: v) :
    Condition.parse operands = .ok ⟨u, relation, v, trim action⟩ := by
  rw [Condition.parse, haround]
  simp only [htested, hu.firstIn?_eq hv, hu.sides?_eq hv]

end Plain

end Text

theorem Atom.plain_text (a : Atom) : Text.Plain a.text := by
  cases a with
  | numeral n =>
    refine ⟨n.digits_ne_nil, fun c hc => ?_⟩
    simp [Text.isPlain, Name.isPart, n.isDigit_of_mem hc]
  | name x =>
    obtain ⟨c, rest, hx, -, -⟩ := x.exists_cons
    refine ⟨by simp [text, hx], fun c hc => ?_⟩
    simp [Text.isPlain, x.isPart_of_mem hc]

namespace Formula

variable {p : Nat}

theorem lexemes_ne_nil (e : Formula Atom p) : e.lexemes Atom.text ≠ [] := by
  induction e with
  | operand a => exact List.cons_ne_nil _ _
  | group e ih => exact List.cons_ne_nil _ _
  | tight e ih => exact ih
  | binary op l r ihl ihr => exact List.append_ne_nil_of_left_ne_nil ihl _

theorem plain_lexeme (e : Formula Atom p) {piece : Text} (h : piece ∈ e.lexemes Atom.text) :
    Text.Plain piece := by
  have hsymbol {c : Char} (hc : Text.isPlain c = true) : Text.Plain [c] :=
    ⟨List.cons_ne_nil _ _, List.forall_mem_singleton.2 hc⟩
  induction e with
  | operand a =>
    obtain rfl := List.mem_singleton.1 h
    exact a.plain_text
  | group e ih =>
    simp only [lexemes, List.mem_cons, List.mem_append, List.not_mem_nil, or_false] at h
    rcases h with rfl | h | rfl
    · exact hsymbol rfl
    · exact ih h
    · exact hsymbol rfl
  | tight e ih => exact ih h
  | binary op l r ihl ihr =>
    simp only [lexemes, List.mem_cons, List.mem_append] at h
    rcases h with h | rfl | h
    · exact ihl h
    · exact hsymbol (by cases op <;> rfl)
    · exact ihr h

/-- Squeezing a text of a formula leaves its pieces. -/
theorem squeeze_spaced (e : Formula Atom p) {s : Text} (hs : Spaced (e.lexemes Atom.text) s) :
    Text.squeeze s = (e.lexemes Atom.text).flatten :=
  hs.squeeze_eq fun _ hpiece => (e.plain_lexeme hpiece).solid

theorem plain_squeeze (e : Formula Atom p) {s : Text} (hs : Spaced (e.lexemes Atom.text) s) :
    Text.Plain (Text.squeeze s) := by
  rw [e.squeeze_spaced hs]
  obtain ⟨piece, pieces, hpieces⟩ := List.exists_cons_of_ne_nil e.lexemes_ne_nil
  have hmem : piece ∈ e.lexemes Atom.text := by simp [hpieces]
  refine ⟨fun hnil => (e.plain_lexeme hmem).1 (List.flatten_eq_nil_iff.1 hnil piece hmem), ?_⟩
  intro c hc
  obtain ⟨piece, hpiece, hc⟩ := List.mem_flatten.1 hc
  exact (e.plain_lexeme hpiece).2 c hc

theorem spaced_squeeze (e : Formula Atom p) {s : Text} (hs : Spaced (e.lexemes Atom.text) s)
    {gap : Text} (hgap : ∀ c ∈ gap, Text.isBlank c = true) :
    Spaced (e.lexemes Atom.text) (Text.squeeze s ++ gap) := by
  have hnone : ∀ c ∈ ([] : Text), Text.isBlank c = true := by simp
  rw [e.squeeze_spaced hs]
  exact Spaced.compact _ hnone hgap

theorem spaced_trimStart (e : Formula Atom p) {s : Text} (hs : Spaced (e.lexemes Atom.text) s) :
    Spaced (e.lexemes Atom.text) (Text.trimStart s) ∧
      ∀ rest, Text.trimStart (s ++ rest) = Text.trimStart s ++ rest := by
  obtain ⟨piece, pieces, hpieces⟩ := List.exists_cons_of_ne_nil e.lexemes_ne_nil
  have hplain : Text.Plain piece := e.plain_lexeme (by simp [hpieces])
  obtain ⟨c, piece, rfl⟩ := List.exists_cons_of_ne_nil hplain.1
  rw [hpieces] at hs ⊢
  exact hs.trimStart (hplain.solid c List.mem_cons_self)

end Formula

theorem Source.canonical_branch {s word operands condition action : Text}
    (hs : Text.splitWord (Text.trim s) = (word, operands)) (hword : Text.upper word = "IF".toList)
    (haround : aroundThen? operands = some (condition, action)) :
    canonical s = joined (joined "IF".toList (Text.squeeze condition) ++ " THEN".toList)
      (canonical action) := by
  have hkeyword : Keyword.ofText? "IF".toList = some .branch := rfl
  rw [canonical, hs]
  simp only [hword, hkeyword]
  split
  next found =>
    rw [haround] at found
    cases found
    rfl
  next found =>
    rw [haround] at found
    cases found

/-- The text of a branch, piece by piece: IF, two formulas and a relation between them, THEN, and
an action. No name in the formulas starts with THEN, and a blank ends a name that stands before
it. -/
structure Branch where
  left : Formula Atom 1
  relation : Relation
  right : Formula Atom 1
  margin : Text
  keyword : Text
  gap : Text
  leftText : Text
  rightText : Text
  thenWord : Text
  action : Text
  margin_blank : ∀ c ∈ margin, Text.isBlank c = true
  upper_keyword : Text.upper keyword = "IF".toList
  gap_blank : ∀ c ∈ gap, Text.isBlank c = true
  gap_ne_nil : gap ≠ []
  spaced_left : Spaced (left.lexemes Atom.text) leftText
  spaced_right : Spaced (right.lexemes Atom.text) rightText
  right_ended : ∀ x : Identifier, (right.lexemes Atom.text).getLast? = some x.text →
    ∃ c ∈ rightText.getLast?, Text.isBlank c = true
  upper_thenWord : Text.upper thenWord = "THEN".toList
  left_names : ∀ x, Atom.name x ∈ left.operands → Source.startsThen x.text = false
  right_names : ∀ x, Atom.name x ∈ right.operands → Source.startsThen x.text = false

namespace Branch

def text (b : Branch) : Text :=
  b.margin ++ (b.keyword ++ (b.gap ++ (b.leftText ++ b.relation.symbol :: b.rightText ++
    (b.thenWord ++ b.action))))

/-- What follows the keyword. -/
def operands (b : Branch) : Text :=
  Text.trimStart b.leftText ++ b.relation.symbol :: b.rightText ++
    (b.thenWord ++ Text.trimEnd b.action)

theorem splitWord_trim (b : Branch) :
    Text.splitWord (Text.trim b.text) = (b.keyword, b.operands) := by
  obtain ⟨hkeyword, hk⟩ := Source.solid_of_upper b.upper_keyword (by decide) (by decide)
  obtain ⟨hthen, ht⟩ := Source.solid_of_upper b.upper_thenWord (by decide) (by decide)
  have htrim : Text.trim b.text = b.keyword ++ (b.gap ++ (b.leftText ++
      (b.relation.symbol :: b.rightText ++ (b.thenWord ++ Text.trimEnd b.action)))) := by
    have henclosed := Text.trim_enclosed b.margin_blank hkeyword hk hthen ht
      (b.gap ++ (b.leftText ++ b.relation.symbol :: b.rightText)) b.action
    simpa [text] using henclosed
  rw [htrim, Text.splitWord_append hkeyword b.gap_blank b.gap_ne_nil,
    (b.left.spaced_trimStart b.spaced_left).2, operands, List.append_assoc]

theorem aroundThen?_operands (b : Branch) : Source.aroundThen? b.operands =
    some (Text.trimStart b.leftText ++ b.relation.symbol :: b.rightText,
      Text.trimEnd b.action) := by
  obtain ⟨hthen, hdrop⟩ := Source.startsThen_append b.upper_thenWord (Text.trimEnd b.action)
  have hleft := (b.left.spaced_trimStart b.spaced_left).1
  have hfree := Source.isFree_of_ended b.right b.spaced_right b.right_ended
  have haround := Source.aroundThen?_condition b.left_names b.right_names hleft b.spaced_right
    b.relation hfree hthen
  rwa [hdrop] at haround

theorem blank_of_mem_nil : ∀ c ∈ ([] : Text), Text.isBlank c = true :=
  List.forall_mem_nil _

theorem blank_of_mem_space : ∀ c ∈ [' '], Text.isBlank c = true :=
  List.forall_mem_singleton.2 rfl

theorem upper_if : Text.upper "IF".toList = "IF".toList :=
  rfl

theorem upper_then : Text.upper "THEN".toList = "THEN".toList :=
  rfl

/-- The same branch, with its pieces in canonical form. -/
def canonical (b : Branch) : Branch where
  left := b.left
  relation := b.relation
  right := b.right
  margin := []
  keyword := "IF".toList
  gap := [' ']
  leftText := Text.squeeze b.leftText
  -- The space before THEN is one after the right side, that after THEN begins the action.
  rightText := Text.squeeze b.rightText ++ [' ']
  thenWord := "THEN".toList
  action := Source.joined [] (Source.canonical b.action)
  margin_blank := blank_of_mem_nil
  upper_keyword := upper_if
  gap_blank := blank_of_mem_space
  gap_ne_nil := by simp
  spaced_left := by simpa using b.left.spaced_squeeze b.spaced_left blank_of_mem_nil
  spaced_right := b.right.spaced_squeeze b.spaced_right blank_of_mem_space
  right_ended _ _ := ⟨' ', by simp, rfl⟩
  upper_thenWord := upper_then
  left_names := b.left_names
  right_names := b.right_names

/-- The canonical form of a branch is the branch in canonical form. -/
theorem canonical_text (b : Branch) : Source.canonical b.text = b.canonical.text := by
  have hcondition : Text.squeeze (Text.trimStart b.leftText ++ b.relation.symbol :: b.rightText) =
      Text.squeeze b.leftText ++ b.relation.symbol :: Text.squeeze b.rightText := by
    have hleft : Text.squeeze (Text.trimStart b.leftText) = Text.squeeze b.leftText := by
      rw [b.left.squeeze_spaced (b.left.spaced_trimStart b.spaced_left).1,
        b.left.squeeze_spaced b.spaced_left]
    rw [Text.squeeze_append, hleft, Text.squeeze_cons b.relation.isBlank_symbol]
  rw [Source.canonical_branch b.splitWord_trim b.upper_keyword b.aroundThen?_operands, hcondition,
    Source.canonical_trimEnd, Source.joined_eq_append, Source.joined, if_neg (by simp)]
  simp [text, canonical]

theorem parse_canonical (b : Branch) : Instruction.parse (Source.canonical b.text) =
    .ok ⟨.branch, b.canonical.operands⟩ := by
  rw [canonical_text, Instruction.parse, splitWord_trim]
  rfl

/-- The canonical form is read as the condition that was written. -/
theorem condition_canonical (b : Branch) : Condition.parse b.canonical.operands =
    .ok ⟨Text.squeeze b.leftText, b.relation, Text.squeeze b.rightText,
      Text.trim (Source.canonical b.action)⟩ := by
  have hleft := b.left.plain_squeeze b.spaced_left
  have hright := b.right.plain_squeeze b.spaced_right
  have hspace : ∀ c ∈ [' '], Text.isBlank c = true := List.forall_mem_singleton.2 rfl
  have htested : Text.trim (Text.trimStart (Text.squeeze b.leftText) ++
      b.relation.symbol :: (Text.squeeze b.rightText ++ [' '])) =
      Text.squeeze b.leftText ++ b.relation.symbol :: Text.squeeze b.rightText := by
    have hsolid := List.forall_mem_append.2
      ⟨hleft.solid, List.forall_mem_cons.2 ⟨b.relation.isBlank_symbol, hright.solid⟩⟩
    rw [Text.trimStart_of_solid hleft.solid, ← List.cons_append, ← List.append_assoc]
    exact Text.trim_append_of_solid hsolid hspace
  rw [hleft.parse_eq hright b.canonical.aroundThen?_operands htested, canonical,
    Text.trim_trimEnd, Source.trim_joined]

end Branch

/-- The instructions that can be the action of a condition. -/
def Keyword.isAction : Keyword → Bool
  | .print | .printLine | .jump => true
  | _ => false

/-- Whether a text is read as one of these. -/
def Instruction.isAction (s : Text) : Bool :=
  match parse s with
  | .ok i => i.keyword.isAction
  | .error _ => false

/-- The value of a text is that of the formula that it spells, whose names are declared. -/
theorem Expr.evaluateIn_spaced {vars : Store} {e : Formula Atom 1} (hd : e.depth ≤ 21843)
    (hx : ∀ x, Atom.name x ∈ e.operands → vars.contains x.text = true) {s : Text}
    (hs : Spaced (e.lexemes Atom.text) s) :
    (evaluateIn vars s).map Value.toInt = e.meaning Atom.numeral? (Atom.value vars) := by
  obtain ⟨t, hsub, ht⟩ := substitute_formula vars e hx hs
  have hfactor (a : Atom) : (a.factor vars).depth ≤ 1 := by
    cases a with
    | numeral n => exact Nat.zero_le 1
    | name x => exact Value.depth_factor_le _
  have hdepth := e.depth_replace_le fun a _ => hfactor a
  rw [evaluateIn, hsub, ← Formula.meaning_replace]
  exact evaluate_spaced _ (by omega) ht

namespace Machine

theorem act_eq (number : Nat) (s : Text) (m : Machine) : m.act s =
    if Instruction.isAction s then m.carryOut ⟨number, s⟩ else m.proceed := by
  unfold act Instruction.isAction carryOut
  cases Instruction.parse s with
  | error e => rfl
  | ok i =>
    obtain ⟨keyword, operands⟩ := i
    cases keyword <;> rfl

theorem act_trim (s : Text) (m : Machine) : m.act (Text.trim s) = m.act s := by
  rw [act, act, Instruction.parse_trim]

theorem carryOut_canonical (b : Branch) (number : Nat) (m : Machine) :
    m.carryOut ⟨number, Source.canonical b.text⟩ =
      m.attempt (Expr.evaluateIn m.vars (Text.squeeze b.leftText)) fun x =>
        m.attempt (Expr.evaluateIn m.vars (Text.squeeze b.rightText)) fun y =>
          if b.relation.holds x y then m.act (Text.trim (Source.canonical b.action))
          else m.proceed := by
  rw [carryOut_of_parse b.parse_canonical, obey, branch, b.condition_canonical]
  simp only [attempt, Condition.test]
  cases Expr.evaluateIn m.vars (Text.squeeze b.leftText) with
  | error e => rfl
  | ok x =>
    cases Expr.evaluateIn m.vars (Text.squeeze b.rightText) with
    | error e => rfl
    | ok y => rfl

/-- A branch, however it is written, computes its left and then its right side without their
blanks, and fails as the first of them does that fails. If the relation holds between their values
and the action is one that a condition can have, the effect is that of the action alone; otherwise
there is none. The sides have the values of the formulas that they are texts of. -/
theorem carryOut_branch (b : Branch) (number : Nat) (m : Machine) :
    m.carryOut ⟨number, Source.canonical b.text⟩ =
      (match Expr.evaluateIn m.vars (Text.squeeze b.leftText) with
      | .error e => (.error e, m)
      | .ok x =>
        match Expr.evaluateIn m.vars (Text.squeeze b.rightText) with
        | .error e => (.error e, m)
        | .ok y =>
          if b.relation.Compares x.toInt y.toInt ∧
              Instruction.isAction (Source.canonical b.action) = true then
            m.carryOut ⟨number, Source.canonical b.action⟩
          else (.ok none, m)) ∧
    ∀ side ∈ [(b.left, b.leftText), (b.right, b.rightText)], side.1.depth ≤ 21843 →
      (∀ x, Atom.name x ∈ side.1.operands → m.vars.contains x.text = true) →
      (Expr.evaluateIn m.vars (Text.squeeze side.2)).map Value.toInt =
        side.1.meaning Atom.numeral? (Atom.value m.vars) := by
  refine ⟨?_, ?_⟩
  · rw [carryOut_canonical, act_trim, act_eq number]
    cases Expr.evaluateIn m.vars (Text.squeeze b.leftText) with
    | error e => rfl
    | ok x =>
      cases Expr.evaluateIn m.vars (Text.squeeze b.rightText) with
      | error e => rfl
      | ok y =>
        simp only [attempt, Relation.holds_iff, ite_and]
        rfl
  · intro side hside hdepth hnames
    refine Expr.evaluateIn_spaced hdepth hnames ?_
    simp only [List.mem_cons, List.not_mem_nil, or_false] at hside
    rcases hside with rfl | rfl
    · exact b.canonical.spaced_left
    · simpa using b.right.spaced_squeeze b.spaced_right (List.forall_mem_nil _)

/-- THEN may stand inside a name and inside quotes. -/
theorem carryOut_branch_quoted :
    let m := (start ⟨#[⟨10, "INTEGER ATHEN".toList⟩]⟩).after [.run 1]
    m.phase = .running ∧ m.vars.stored "ATHEN".toList = .least ∧
      m.carryOut ⟨20, Source.canonical
        " iF\t(ATHEN + 1)>ATHEN\u3000tHen printLn \"a THEN  b\" ".toList⟩ =
      (.ok (some (.print "a THEN  b\n".toList)), m) := by
  intro m
  have hphase : m.phase = .running := by decide +kernel
  have hdeclared : m.vars.contains "ATHEN".toList = true := by decide +kernel
  have hstored : m.vars.stored "ATHEN".toList = .least := by decide +kernel
  have hunnamed : m.vars.lookup? "\"a THEN  b\"".toList = none := by decide +kernel
  -- Nothing else about the machine matters.
  clear_value m
  let x : Identifier := ⟨"ATHEN".toList, by decide⟩
  let b : Branch := {
    left := .tight (.tight (.group (.binary .add (.tight (.tight (.operand (.name x))))
      (.tight (.operand (.numeral (.ofNat 1)))))))
    relation := .greater
    right := .tight (.tight (.operand (.name x)))
    margin := [' ']
    keyword := "iF".toList
    gap := ['\t']
    leftText := "(ATHEN + 1)".toList
    rightText := "ATHEN\u3000".toList
    thenWord := "tHen".toList
    action := " printLn \"a THEN  b\" ".toList
    margin_blank := List.forall_mem_singleton.2 rfl
    upper_keyword := rfl
    gap_blank := List.forall_mem_singleton.2 rfl
    gap_ne_nil := by simp
    spaced_left :=
      .next [] (by simp) ['('] <|
      .next [] (by simp) "ATHEN".toList <|
      .next [' '] (List.forall_mem_singleton.2 rfl) ['+'] <|
      .next [' '] (List.forall_mem_singleton.2 rfl) ['1'] <|
      .next [] (by simp) [')'] <|
      .last [] (by simp)
    spaced_right :=
      .next [] (by simp) "ATHEN".toList <|
      .last ['\u3000'] (List.forall_mem_singleton.2 rfl)
    right_ended _ _ := ⟨'\u3000', rfl, rfl⟩
    upper_thenWord := rfl
    left_names y hy := by
      obtain rfl : y = x := by simpa [Formula.operands] using hy
      rfl
    right_names y hy := by
      obtain rfl : y = x := by simpa [Formula.operands] using hy
      rfl }
  obtain ⟨heffect, hsides⟩ := carryOut_branch b 20 m
  have hnames (y : Identifier) (hy : y = x) : m.vars.contains y.text = true := hy ▸ hdeclared
  have hleft : (Expr.evaluateIn m.vars (Text.squeeze b.leftText)).map Value.toInt =
      .ok (-2147483647) := by
    rw [hsides (b.left, b.leftText) (by simp) (by decide) fun y hy =>
      hnames y (by simpa [b, Formula.operands] using hy)]
    change Operator.bounded ((m.vars.stored "ATHEN".toList).toInt + 1) = _
    rw [hstored]
    rfl
  have hright : (Expr.evaluateIn m.vars (Text.squeeze b.rightText)).map Value.toInt =
      .ok (-2147483648) := by
    rw [hsides (b.right, b.rightText) (by simp) (by decide) fun y hy =>
      hnames y (by simpa [b, Formula.operands] using hy)]
    change Except.ok (m.vars.stored "ATHEN".toList).toInt = _
    rw [hstored]
    rfl
  obtain ⟨v, hv, hvint⟩ := Error.exists_of_map_ok hleft
  obtain ⟨w, hw, hwint⟩ := Error.exists_of_map_ok hright
  have haction : Source.canonical b.action = "PRINTLN \"a THEN  b\"".toList := by
    rw [Source.canonical]
    rfl
  have hparse : Instruction.parse "PRINTLN \"a THEN  b\"".toList =
      .ok ⟨.printLine, "\"a THEN  b\"".toList⟩ := rfl
  have hholds : b.relation.Compares v.toInt w.toInt ∧
      Instruction.isAction "PRINTLN \"a THEN  b\"".toList = true := by
    rw [hvint, hwint]
    decide
  refine ⟨hphase, hstored, heffect.trans ?_⟩
  rw [hv, hw, haction]
  simp only [if_pos hholds]
  rw [carryOut_of_parse hparse]
  change m.print "\"a THEN  b\"".toList ['\n'] = _
  rw [print, printed, hunnamed]
  rfl

end Machine
end LineScript
