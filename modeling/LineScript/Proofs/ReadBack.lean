import LineScript.Proofs.Requests
import LineScript.Proofs.Shortcuts

/-!
What is printed can be read. The text of a value is a decimal numeral without a blank in it, so a
line of such texts with blanks between them has these texts as its fields, and each is read as the
value it was printed for. The other form in which a value is written, as an operand, evaluates to
the value too.
-/
namespace LineScript

namespace Text

/-- The texts stand on the line in order, with one or more blanks between two of them. -/
inductive Separated : List Text → Text → Prop where
  | last (t : Text) : Separated [t] t
  | next (t : Text) {gap line : Text} {rest : List Text} (hne : gap ≠ [])
      (hgap : ∀ c ∈ gap, isBlank c = true) (h : Separated rest line) :
      Separated (t :: rest) (t ++ gap ++ line)

theorem words_of_solid {t : Text} (hne : t ≠ []) (h : ∀ c ∈ t, isBlank c = false) :
    words t = [t] := by
  rw [words, List.splitOnP_eq_singleton h]
  simp [hne]

theorem words_blank_append {gap : Text} (h : ∀ c ∈ gap, isBlank c = true) (s : Text) :
    words (gap ++ s) = words s := by
  induction gap with
  | nil => rfl
  | cons c gap ih =>
    obtain ⟨hc, hgap⟩ := List.forall_mem_cons.1 h
    have hfirst : words ([] ++ c :: (gap ++ s)) = words [] ++ words (gap ++ s) :=
      words_append_cons hc [] (gap ++ s)
    exact hfirst.trans (ih hgap)

theorem Separated.words_eq {texts : List Text} {line : Text} (h : Separated texts line)
    (hne : ∀ t ∈ texts, t ≠ []) (hsolid : ∀ t ∈ texts, ∀ c ∈ t, isBlank c = false) :
    words line = texts := by
  induction h with
  | last t => exact words_of_solid (hne t List.mem_cons_self) (hsolid t List.mem_cons_self)
  | @next t gap line rest hgapne hgap _ ih =>
    obtain ⟨hne, hnes⟩ := List.forall_mem_cons.1 hne
    obtain ⟨hsolid, hsolids⟩ := List.forall_mem_cons.1 hsolid
    -- The first blank of the gap ends the text, and the others make no further fields.
    cases gap with
    | nil => exact absurd rfl hgapne
    | cons c gap =>
      obtain ⟨hc, hgap⟩ := List.forall_mem_cons.1 hgap
      calc
        words (t ++ c :: gap ++ line) = words t ++ words (gap ++ line) := by
          rw [List.append_assoc]
          exact words_append_cons hc t (gap ++ line)
        _ = [t] ++ words line := by rw [words_of_solid hne hsolid, words_blank_append hgap]
        _ = t :: rest := by rw [ih hnes hsolids, List.singleton_append]

end Text

/-- A decimal numeral is not empty, and has no blank in it. -/
theorem Decimal.solid {f : Text} {v : Value} (h : Decimal f v) :
    f ≠ [] ∧ ∀ c ∈ f, Text.isBlank c = false := by
  have hsolid {digits : Text} (hd : Text.isDigits digits = true) :
      digits ≠ [] ∧ ∀ c ∈ digits, Text.isBlank c = false := by
    simp only [Text.isDigits, Bool.and_eq_true, Bool.not_eq_true', List.isEmpty_eq_false_iff,
      List.all_eq_true] at hd
    refine ⟨hd.1, fun c hc => Name.isBlank_of_isPart ?_⟩
    rw [Name.isPart, hd.2 c hc, Bool.or_true]
  cases h with
  | plain hd => exact hsolid hd
  | plus hd => exact ⟨List.cons_ne_nil _ _, List.forall_mem_cons.2 ⟨rfl, (hsolid hd).2⟩⟩
  | minus hd => exact ⟨List.cons_ne_nil _ _, List.forall_mem_cons.2 ⟨rfl, (hsolid hd).2⟩⟩

/-- The texts of values on a line are fields that are read as these values. -/
theorem Text.Separated.decimals {values : List Value} {line : Text}
    (h : Separated (values.map Value.text) line) : List.Forall₂ Decimal (words line) values := by
  have hwords : words line = values.map Value.text := by
    refine h.words_eq ?_ ?_
    · exact List.forall_mem_map.2 fun v _ => v.decimal_text.solid.1
    · exact List.forall_mem_map.2 fun v _ => v.decimal_text.solid.2
  rw [hwords]
  exact List.forall₂_map_left_iff.2 (List.forall₂_same.2 fun v _ => v.decimal_text)

/-- What is written for a declared name is its value as an operand. -/
theorem Expr.substitute_name {vars : Store} (x : Identifier) (hx : vars.contains x.text = true) :
    substitute vars x.text = .ok (operand (vars.stored x.text)) := by
  have hname := Draft.rewrite_name (List.forall_mem_nil _) (List.forall_mem_nil _) x hx []
  simp only [List.nil_append, List.append_nil] at hname
  rw [substitute_eq_rewrite, hname]
  exact congrArg Except.ok (List.reverse_reverse _)

namespace Machine

theorem Reachable.runLine_print {program : Program} {m : Machine} (h : Reachable program m)
    {x : Text} {v : Value} (hv : m.vars.valueOf x = .ok v) (n : Nat) :
    let line : Line := ⟨n, Instruction.text ⟨.print, x⟩⟩
    m.runLine line = (some (.print v.text), m.entered line) := by
  intro line
  obtain ⟨hplain, -⟩ := h.exists_identifier (Store.contains_of_valueOf hv).1
  have hprint := print_eq (m := m.entered line) hplain.1 hv []
  rw [List.append_nil] at hprint
  have hline : (m.entered line).carryOut line = _ :=
    (carryOut_text n (i := ⟨.print, x⟩) hplain.solid _).trans hprint
  exact congrArg (settle n) hline

/-- Values that are printed can be read. Each of the variables that hold them is printed as a text,
and if these texts are entered on one line, with blanks between them, in answer to a request for as
many distinct variables, then these are assigned the values in order and no other variable is
changed. An event that still waits in the queue is reported before. What is written for the
variables in an expression evaluates to their values as well. -/
theorem printed_values_read_back {p q : Program} {printer reader : Machine}
    (hprinter : Reachable p printer) (hreader : Reachable q reader) {sources names : List Text}
    {values : List Value}
    (hsources : List.Forall₂ (fun x v => printer.vars.valueOf x = .ok v) sources values)
    {number : Nat} {answer : Option Text} (hp : reader.phase = .awaiting number names answer)
    (hnames : names.Nodup) (hlength : names.length = values.length) :
    List.Forall₂ (fun x v => ∀ n, printer.runLine ⟨n, Instruction.text ⟨.print, x⟩⟩ =
      (some (.print v.text), printer.entered ⟨n, Instruction.text ⟨.print, x⟩⟩)) sources values ∧
    (∀ line, Text.Separated (values.map Value.text) line →
      ∃ asked vars, reader.supply line = (true, asked) ∧
        (∀ event, reader.queued = some event → ∀ budget,
          asked.run budget = (event, { asked with queued := none })) ∧
        (∀ budget, run budget { asked with queued := none } =
          turns budget { reader with phase := .running, queued := none, vars }) ∧
        List.Forall₂ (fun x v => vars.lookup? x = some ⟨v, true⟩) names values ∧
        ∀ x, x ∉ names → vars.lookup? x = reader.vars.lookup? x) ∧
    List.Forall₂ (fun x v => Expr.substitute printer.vars x = .ok (Expr.operand v) ∧
      Expr.evaluate (Expr.operand v) = .ok v) sources values := by
  have hsound := hreader.sound
  obtain ⟨hne, hdeclared, -⟩ := hsound.awaiting _ _ _ hp
  refine ⟨hsources.imp ?_, ?_, hsources.imp ?_⟩
  · intro x v hv
    exact hprinter.runLine_print hv
  · intro line hline
    have hdecimals : List.Forall₂ Decimal (Text.words (chomp line)) values := by
      rw [Text.words_chomp]
      exact hline.decimals
    obtain ⟨vars, hassign, hassigned⟩ :=
      Answer.exists_assign_of_decimals hne hdeclared hdecimals hlength.symm
    refine ⟨_, vars, supply_of_awaiting hp line, ?_, ?_, hassigned.lookup?_of_nodup hnames,
      hassigned.others⟩
    · intro event hq budget
      let answered : Machine := { reader with phase := .awaiting number names (some (chomp line)) }
      exact (run_of_resume_some (resume_of_queued (m := answered) hq) budget).1
    · intro budget
      let answered : Machine :=
        { reader with phase := .awaiting number names (some (chomp line)), queued := none }
      have hresume := resume_of_answered (m := answered) rfl rfl hassign
      exact (run_of_resume_none hresume budget).1
  · intro x v hv
    obtain ⟨hx, rfl⟩ := Store.contains_of_valueOf hv
    obtain ⟨-, x, rfl⟩ := hprinter.exists_identifier hx
    exact ⟨Expr.substitute_name x hx, Expr.evaluate_operand _⟩

/-- The least value after another one, with four kinds of blanks between them, for a request that
is still in the queue. -/
theorem printed_values_read_back_least :
    let program : Program :=
      ⟨#[⟨10, "INTEGER A,B,C,D".toList⟩, ⟨20, "LET A=7".toList⟩, ⟨30, "INPUT C,D".toList⟩]⟩
    let seven : Value := ⟨7, by decide, by decide⟩
    let printer := (start program).after [.run 2]
    let reader := (start program).after [.run 2, .trace true, .run 1]
    (printer.runLine ⟨40, "PRINT B".toList⟩).1 = some (.print "-2147483648".toList) ∧
    (∃ asked vars, reader.supply "7\u3000\r\n -2147483648".toList = (true, asked) ∧
      asked.run 1 = (.input, { asked with queued := none }) ∧
      run 1 { asked with queued := none } =
        turns 1 { reader with phase := .running, queued := none, vars } ∧
      vars.lookup? "C".toList = some ⟨seven, true⟩ ∧
      vars.lookup? "D".toList = some ⟨.least, true⟩) ∧
    Expr.substitute printer.vars "B".toList = .ok "(0-2147483647-1)".toList ∧
      Expr.evaluate "(0-2147483647-1)".toList = .ok .least := by
  intro program seven printer reader
  have hsources : List.Forall₂ (fun x v => printer.vars.valueOf x = .ok v)
      ["A".toList, "B".toList] [seven, .least] :=
    .cons (by decide +kernel) (.cons (by decide +kernel) .nil)
  have hp : reader.phase = .awaiting 30 ["C".toList, "D".toList] none := by decide +kernel
  have hq : reader.queued = some .input := by decide +kernel
  have htexts : [seven, .least].map Value.text = ["7".toList, "-2147483648".toList] := by
    decide +kernel
  have hline : Text.Separated ([seven, .least].map Value.text)
      "7\u3000\r\n -2147483648".toList := by
    have hgap : ∀ c ∈ ['\u3000', '\r', '\n', ' '], Text.isBlank c = true :=
      List.all_eq_true.1 (by decide)
    rw [htexts]
    exact .next ['7'] (by decide) hgap (.last _)
  have hoperand : Expr.operand .least = "(0-2147483647-1)".toList := by decide +kernel
  obtain ⟨hprinted, hread, hwritten⟩ := printed_values_read_back (p := program) (q := program)
    ⟨_, rfl⟩ ⟨_, rfl⟩ hsources hp (by decide) rfl
  obtain ⟨asked, vars, hsupply, hqueued, hruns, hvars, -⟩ := hread _ hline
  rw [List.forall₂_cons, List.forall₂_cons] at hprinted hvars hwritten
  rw [hoperand] at hwritten
  refine ⟨?_, ⟨asked, vars, hsupply, hqueued _ hq 1, hruns 1, hvars.1, hvars.2.1⟩, hwritten.2.1⟩
  have htext : Value.least.text = "-2147483648".toList := by decide +kernel
  rw [← htext]
  exact congrArg Prod.fst (hprinted.2.1 40)

end Machine
end LineScript
