import LineScript.Proofs.History
import LineScript.Proofs.LastWrite
import LineScript.Proofs.Memory
import LineScript.Proofs.Shortcuts
import LineScript.Proofs.Slices

/-!
Which names can be compared. A trial of a name is the shortest program that declares it, assigns to
it, compares it and prints it. All names pass but those that begin with the letters of THEN: these
are taken for the word, so that there is nothing before it to compare.
-/
namespace LineScript

namespace Source

theorem squeezeFrom_of_solid {s : Text} (h : ∀ c ∈ s, Text.isBlank c = false) (isOpen : Bool) :
    squeezeFrom isOpen s = s := by
  induction s generalizing isOpen with
  | nil => rfl
  | cons c s ih =>
    obtain ⟨hc, hs⟩ := List.forall_mem_cons.1 h
    rw [squeezeFrom, hc, Bool.not_false, Bool.or_true, if_pos rfl, ih hs]

/-- An instruction without blanks in its operands is its own canonical form. -/
theorem canonical_text {i : Instruction} (hk : i.keyword ∉ [.branch, .leave, .finish])
    (h : ∀ c ∈ i.operands, Text.isBlank c = false) (hne : i.operands ≠ []) :
    canonical i.text = i.text := by
  obtain ⟨k, operands⟩ := i
  obtain ⟨hspelling, hkne⟩ := Keyword.solid_of_upper k.upper_spelling
  obtain ⟨htight, hsplit⟩ := splitWord_joined k.spelling hspelling (fun hnil => absurd hnil hkne)
    (Text.Tight.of_solid h)
  have htext : Instruction.text ⟨k, operands⟩ = joined k.spelling operands :=
    (joined_of_ne_nil _ hne).symm
  rw [← htight.trim_eq] at hsplit
  have hbranch : Text.upper k.spelling ≠ "IF".toList := by
    rw [k.upper_spelling]
    cases k with
    | branch => exact absurd List.mem_cons_self hk
    | _ => decide
  have hkept : keptOperands (some k) operands = operands := by
    cases k with
    | leave => simp at hk
    | finish => simp at hk
    | print => exact (squeezeUnquoted_eq operands).trans (squeezeFrom_of_solid h false)
    | printLine => exact (squeezeUnquoted_eq operands).trans (squeezeFrom_of_solid h false)
    | _ => exact Text.squeeze_of_solid h
  rw [htext, canonical_of_not_branch hsplit hbranch, k.upper_spelling, Keyword.ofText?_spelling,
    hkept]

end Source

/-- The condition that a name, which does not begin with THEN, is equal to a number. -/
def Branch.equality (x : Identifier) (n : Numeral) (hx : Source.startsThen x.text = false)
    (action : Text) : Branch where
  left := .tight (.tight (.operand (.name x)))
  relation := .equal
  right := .tight (.tight (.operand (.numeral n)))
  margin := []
  keyword := "IF".toList
  gap := [' ']
  leftText := x.text
  rightText := n.digits ++ [' ']
  thenWord := "THEN".toList
  action := action
  margin_blank := blank_of_mem_nil
  upper_keyword := upper_if
  gap_blank := blank_of_mem_space
  gap_ne_nil := List.cons_ne_nil _ _
  spaced_left := by
    have hs := Spaced.compact [x.text] blank_of_mem_nil blank_of_mem_nil
    rwa [List.flatten_singleton, List.nil_append, List.append_nil] at hs
  spaced_right := by
    have hs := Spaced.compact [n.digits] blank_of_mem_nil blank_of_mem_space
    rwa [List.flatten_singleton, List.nil_append] at hs
  right_ended _ _ := ⟨' ', by simp, rfl⟩
  upper_thenWord := upper_then
  left_names y hy := by
    obtain rfl : y = x := by simpa [Formula.operands] using hy
    exact hx
  right_names y hy := by simp [Formula.operands] at hy

/-- The text of such a condition, if the name is what it prints. -/
theorem Branch.text_equality (x : Identifier) (n : Numeral)
    (hx : Source.startsThen x.text = false) :
    (equality x n hx (' ' :: Instruction.text ⟨.printLine, x.text⟩)).text = Instruction.text
      ⟨.branch, x.text ++ '=' :: n.digits ++ " THEN PRINTLN ".toList ++ x.text⟩ := by
  have hwords : " THEN PRINTLN ".toList =
      ' ' :: ("THEN".toList ++ ' ' :: ("PRINTLN".toList ++ [' '])) := rfl
  have hoperands : x.text ++ '=' :: n.digits ++ " THEN PRINTLN ".toList ++ x.text =
      x.text ++ '=' :: (n.digits ++ [' ']) ++
        ("THEN".toList ++ ' ' :: Instruction.text ⟨.printLine, x.text⟩) := by
    rw [hwords, Instruction.text]
    simp only [List.append_assoc, List.cons_append, List.nil_append]
    rfl
  rw [hoperands]
  rfl

theorem Source.startsThen_append_right {s : Text} (h : startsThen s = true) (rest : Text) :
    startsThen (s ++ rest) = true := by
  have hstarts := (startsThen_append (eq_of_beq h) (s.drop 4 ++ rest)).1
  rwa [← List.append_assoc, List.take_append_drop] at hstarts

/-- A condition that begins with the letters of THEN has nothing to compare. -/
theorem Machine.carryOut_of_startsThen {s word operands : Text}
    (hs : Text.splitWord (Text.trim s) = (word, operands)) (hk : Text.upper word = "IF".toList)
    (hthen : Source.startsThen operands = true) (number : Nat) (m : Machine) :
    m.carryOut ⟨number, Source.canonical s⟩ = (.error Condition.missingRelation, m) := by
  let action := Source.canonical (operands.drop 4)
  have haround : Source.aroundThen? operands = some ([], operands.drop 4) :=
    Source.aroundThenFrom_of_startsThen hthen rfl
  have hcanonical : Source.canonical s = Source.joined "IF".toList (Source.clause [] action) :=
    Source.canonical_of_conditional hs hk haround
  have htight : Text.Tight (Source.clause [] action) :=
    Source.tight_clause (List.forall_mem_nil _) (Source.tight_canonical _)
  have hparse : Instruction.parse (Source.canonical s) =
      .ok ⟨.branch, Source.clause [] action⟩ := by
    rw [hcanonical, Instruction.parse, (Source.splitWord_if htight).2]
    rfl
  have hcondition : Condition.parse (Source.clause [] action) =
      .error Condition.missingRelation := by
    rw [Condition.parse, Source.aroundThen?_clause_of_none rfl]
    rfl
  rw [carryOut_of_parse hparse, obey, branch, hcondition]
  rfl

namespace Listing

theorem lastOf?_of_distinct {loaded : List Line} (h : (loaded.map Line.number).Nodup)
    (line : Line) : lastOf? line.number loaded = some line ↔ line ∈ loaded := by
  constructor
  · intro hfind
    exact List.mem_reverse.1 (List.mem_of_find?_eq_some hfind)
  · intro hline
    obtain ⟨other, hother⟩ : ∃ other, lastOf? line.number loaded = some other :=
      Option.isSome_iff_exists.1 (List.find?_isSome.2 ⟨line, List.mem_reverse.2 hline, by simp⟩)
    have hnumber : other.number = line.number := by simpa using List.find?_some hother
    have hmem : other ∈ loaded := List.mem_reverse.1 (List.mem_of_find?_eq_some hother)
    rw [hother, List.inj_on_of_nodup_map h hmem hline hnumber]

/-- Lines that come in ascending order stand in the listing as they came. -/
theorem lines_foldl_insert {loaded : List Line}
    (h : loaded.Pairwise fun a b => a.number < b.number) :
    (loaded.foldl (fun l line => l.insert line) empty).lines = loaded := by
  have hdistinct : (loaded.map Line.number).Nodup := List.pairwise_map.2 (h.imp Nat.ne_of_lt)
  have hmem (line : Line) :
      line ∈ (loaded.foldl (fun l line => l.insert line) empty).lines ↔ line ∈ loaded := by
    rw [mem_lines_iff_get?, get?_foldl_insert_empty, lastOf?_of_distinct hdistinct]
  have hsorted := pairwise_lines (loaded.foldl (fun l line => l.insert line) empty)
  have hne {a b : Line} (hab : a.number < b.number) : a ≠ b := by
    rintro rfl
    exact Nat.lt_irrefl _ hab
  have hperm := (List.perm_ext_iff_of_nodup (hsorted.imp hne) (h.imp hne)).2 hmem
  exact hperm.eq_of_pairwise (fun a b _ _ hab hba => absurd hab (Nat.lt_asymm hba)) hsorted h

end Listing

namespace Line

/-- A line of an instruction with its number is read again. -/
theorem readable_text {n : Nat} (hpos : 0 < n) (hlt : n < numberBound) {i : Instruction}
    (htight : Text.Tight i.operands) (hne : i.operands ≠ []) : Readable ⟨n, i.text⟩ := by
  obtain ⟨hspelling, hkne⟩ := Keyword.solid_of_upper i.keyword.upper_spelling
  refine ⟨?_, ?_, List.append_ne_nil_of_right_ne_nil _ (List.cons_ne_nil _ _)⟩
  · rw [number?, Text.natural?_ofNat, Option.filter_some, decide_eq_true hpos, decide_eq_true hlt]
    rfl
  · exact (Text.Tight.of_solid hspelling).enclose hkne [' '] htight hne

theorem newline_notMem_instruction {i : Instruction} (h : '\n' ∉ i.operands) : '\n' ∉ i.text := by
  have hspelling : '\n' ∉ i.keyword.spelling := by cases i.keyword <;> decide
  simp [Instruction.text, hspelling, h]

end Line

namespace Machine

variable {m m' : Machine} {line : Line} {x : Text}

theorem declare_eq {vars : Store} (hx : ',' ∉ x) (h : m.vars.declare x = .ok vars) :
    m.declare x = proceed { m with vars } := by
  rw [declare, names, List.splitOn_eq_singleton hx, Store.declareAll, h]
  rfl

theorem carryOut_declare {vars : Store} (x : Identifier) (h : m.vars.declare x.text = .ok vars)
    (number : Nat) :
    m.carryOut ⟨number, Source.canonical (Instruction.text ⟨.declare, x.text⟩)⟩ =
      (.ok none, { m with vars }) := by
  have hplain : Text.Plain x.text := (Atom.name x).plain_text
  have hcomma : ',' ∉ x.text := fun hmem => by cases hplain.2 _ hmem
  rw [Source.canonical_text (by simp) hplain.solid hplain.1, carryOut_text number hplain.solid]
  exact declare_eq hcomma h

theorem carryOut_assign_digits {v : Value} {vars : Store} (x : Identifier) (n : Numeral)
    (hx : m.vars.contains x.text = true) (hv : Expr.evaluateIn m.vars n.digits = .ok v)
    (h : m.vars.assign x.text v = .ok vars) (number : Nat) :
    m.carryOut ⟨number,
        Source.canonical (Instruction.text ⟨.assign, x.text ++ '=' :: n.digits⟩)⟩ =
      (.ok none, { m with vars }) := by
  have hplain : Text.Plain x.text := (Atom.name x).plain_text
  have hdigits : Text.Plain n.digits := (Atom.numeral n).plain_text
  have hsolid : ∀ c ∈ x.text ++ '=' :: n.digits, Text.isBlank c = false :=
    List.forall_mem_append.2 ⟨hplain.solid, List.forall_mem_cons.2 ⟨rfl, hdigits.solid⟩⟩
  rw [Source.canonical_text (by simp) hsolid (List.append_ne_nil_of_left_ne_nil hplain.1 _),
    carryOut_assign hx hplain hdigits.solid (hdigits.symbol_notMem .equal), hv]
  exact store_eq h

/-- A name with the value that it is compared with is printed. -/
theorem carryOut_equality {v : Value} (x : Identifier) (n : Numeral)
    (hthen : Source.startsThen x.text = false) (hx : m.vars.lookup? x.text = some ⟨v, true⟩)
    (hv : Expr.evaluateIn m.vars n.digits = .ok v) (number : Nat) :
    m.carryOut ⟨number, Source.canonical (Instruction.text
        ⟨.branch, x.text ++ '=' :: n.digits ++ " THEN PRINTLN ".toList ++ x.text⟩)⟩ =
      (.ok (some (.print (v.text ++ ['\n']))), m) := by
  have hplain : Text.Plain x.text := (Atom.name x).plain_text
  let shown : Instruction := ⟨.printLine, x.text⟩
  let b := Branch.equality x n hthen (' ' :: shown.text)
  have hleft : Text.squeeze b.leftText = x.text := Text.squeeze_of_solid hplain.solid
  have hright : Text.squeeze b.rightText = n.digits :=
    (b.right.squeeze_spaced b.spaced_right).trans List.flatten_singleton
  have hcontains : m.vars.contains x.text = true := by
    rw [Store.contains_eq, hx]
    rfl
  have hname : Expr.evaluateIn m.vars x.text = .ok v := by
    rw [Expr.evaluateIn_name x hcontains, Store.stored, hx]
    rfl
  have haction : Source.canonical b.action = shown.text := by
    have hcanonical : Source.canonical b.action = Source.canonical shown.text :=
      Source.canonical_joined_nil shown.text
    rw [hcanonical, Source.canonical_text (by simp [shown]) hplain.solid hplain.1]
  have hvalue : m.vars.valueOf x.text = .ok v := by
    rw [Store.valueOf, hx]
  have hact : m.act shown.text = (.ok (some (.print (v.text ++ ['\n']))), m) := by
    rw [act, Instruction.parse_text hplain.solid]
    exact print_eq hplain.1 hvalue ['\n']
  rw [← Branch.text_equality x n hthen, carryOut_canonical, hleft, hright, hname, hv, act_trim,
    haction, hact]
  exact if_pos (beq_self_eq_true v)

/-- A line is run, and the machine is at the next one. -/
theorem turn_of_line (hp : m.phase = .running) (ht : m.tracing = false)
    (hl : m.program.line? m.counter = some line) : m.turn = m.runLine line := by
  have hupcoming : m.upcoming? = some ⟨m, line⟩ :=
    upcoming?_eq_some_iff.2 ⟨rfl, by simp [hp], hl⟩
  rw [turn_of_upcoming_some hupcoming, ht]
  rfl

theorem reports_of_line {event : Event} (hp : m.phase = .running) (ht : m.tracing = false)
    (hl : m.program.line? m.counter = some line) (h : m.runLine line = (some event, m')) :
    m.Reports event m' := by
  have hne := runLine_ne_running line m
  rw [h] at hne
  refine ⟨fun heq => hne (congrArg some heq), 1, ?_⟩
  rw [turns, turn_of_line hp ht hl, h]

/-- A line that reports nothing takes a turn and no more. -/
theorem turns_of_quiet (hp : m.phase = .running) (ht : m.tracing = false)
    (hl : m.program.line? m.counter = some line)
    (h : (m.entered line).carryOut line = (.ok none, m')) (count : Nat) :
    m.turns (count + 1) = m'.turns count := by
  have hturn : m.turn = settle line.number ((m.entered line).carryOut line) :=
    turn_of_line hp ht hl
  rw [turns, hturn, h]
  rfl

end Machine

/-- A console at which nothing fails, before the first call. -/
def Script.faultless (replies : List (Reply (Option Text))) : Script :=
  ⟨replies, none, none, none, [], 0, 0⟩

namespace Session

variable {budget : Nat} {m m₁ m₂ : Machine}

/-- A session of one text and nothing more. -/
theorem returns_of_print (hb : 0 < budget) {text : Text} (hne : text ≠ []) (hm : m.Idle)
    (hprint : m.Reports (.print text) m₁) (hm₁ : m₁.Idle) (hstop : m₁.Reports .stopped m₂)
    (replies : List (Reply (Option Text))) :
    Returns Script.console budget ⟨m, false⟩ (Script.faultless replies) (.ok ()) ⟨m₂, false⟩
      { Script.faultless replies with written := [text], writes := 1 } := by
  have hwritten : handle Script.console (.print text) ⟨m₁, false⟩ (Script.faultless replies) =
      ((none, ⟨m₁, false⟩), { Script.faultless replies with written := [text], writes := 1 }) := by
    obtain ⟨c, text, rfl⟩ := List.exists_cons_of_ne_nil hne
    rfl
  refine (returns_idle_iff hb hm).2 ⟨_, _, hprint, ?_⟩
  rw [hwritten]
  exact (returns_idle_iff hb hm₁).2 ⟨_, _, hstop, 0, rfl⟩

theorem returns_of_failed {σ : Type} {console : Console (StateM σ)} (hb : 0 < budget) {e : Error}
    (hm : m.Idle) (hfailed : m.Reports (.failed e) m₁) (w : σ) :
    Returns console budget ⟨m, false⟩ w (.error e) ⟨m₁, false⟩ w :=
  (returns_idle_iff hb hm).2 ⟨_, _, hfailed, 0, rfl⟩

end Session

/-- The parts of a program of three lines that declares a name, gives it a value, and prints it if
it has that value. -/
structure Trial where
  name : Identifier
  value : Nat
  /-- The numbers of the lines. -/
  first : Nat
  second : Nat
  third : Nat
  value_le : value ≤ 2147483647
  first_pos : 0 < first
  first_lt : first < second
  second_lt : second < third
  third_lt : third < Line.numberBound

namespace Trial

variable (t : Trial)

/-- The name and the value, with an equals sign between them. -/
def equation : Text :=
  t.name.text ++ '=' :: Text.ofNat t.value

def conditional : Text :=
  t.equation ++ " THEN PRINTLN ".toList ++ t.name.text

def lines : List Line := [
  ⟨t.first, Instruction.text ⟨.declare, t.name.text⟩⟩,
  ⟨t.second, Instruction.text ⟨.assign, t.equation⟩⟩,
  ⟨t.third, Instruction.text ⟨.branch, t.conditional⟩⟩]

/-- The source text of the program. -/
def source : Text :=
  t.lines.flatMap fun line => line.text ++ ['\n']

def program : Program :=
  ⟨(t.lines.map Line.respelled).toArray⟩

theorem plain_name : Text.Plain t.name.text :=
  (Atom.name t.name).plain_text

theorem plain_value : Text.Plain (Text.ofNat t.value) :=
  (Atom.numeral (.ofNat t.value)).plain_text

theorem solid_equation : ∀ c ∈ t.equation, Text.isBlank c = false :=
  List.forall_mem_append.2 ⟨t.plain_name.solid, List.forall_mem_cons.2 ⟨rfl, t.plain_value.solid⟩⟩

theorem equation_ne_nil : t.equation ≠ [] :=
  List.append_ne_nil_of_left_ne_nil t.plain_name.1 _

theorem conditional_ne_nil : t.conditional ≠ [] :=
  List.append_ne_nil_of_right_ne_nil _ t.plain_name.1

theorem tight_conditional : Text.Tight t.conditional := by
  have htight := (Text.Tight.of_solid t.solid_equation).enclose t.equation_ne_nil
    " THEN PRINTLN ".toList (.of_solid t.plain_name.solid) t.plain_name.1
  rwa [← List.append_assoc] at htight

theorem readable_lines : ∀ line ∈ t.lines, line.Readable ∧ '\n' ∉ line.instruction := by
  have hfirst := t.first_lt
  have hsecond := t.second_lt
  have hthird := t.third_lt
  have hpos := t.first_pos
  have hname := Text.Tight.of_solid t.plain_name.solid
  have hequation := Text.Tight.of_solid t.solid_equation
  have hnewline {s : Text} (hs : ∀ c ∈ s, Text.isBlank c = false) : '\n' ∉ s :=
    fun hmem => by cases hs _ hmem
  simp only [lines, List.forall_mem_cons]
  refine ⟨⟨?_, ?_⟩, ⟨?_, ?_⟩, ⟨?_, ?_⟩, List.forall_mem_nil _⟩
  · exact Line.readable_text hpos (by omega) hname t.plain_name.1
  · exact Line.newline_notMem_instruction (hnewline t.plain_name.solid)
  · exact Line.readable_text (by omega) (by omega) hequation t.equation_ne_nil
  · exact Line.newline_notMem_instruction (hnewline t.solid_equation)
  · exact Line.readable_text (by omega) hthird t.tight_conditional t.conditional_ne_nil
  · apply Line.newline_notMem_instruction
    simp [conditional, hnewline t.plain_name.solid, hnewline t.solid_equation]

/-- The source text is read as the program. -/
theorem parse_source : ∃ l, Listing.parse t.source = .ok l ∧ Program.ofListing l = t.program := by
  have hascending : (t.lines.map Line.respelled).Pairwise fun a b => a.number < b.number := by
    have hthird := Nat.lt_trans t.first_lt t.second_lt
    simp [lines, Line.respelled, t.first_lt, t.second_lt, hthird]
  refine ⟨_, Listing.parse_texts t.readable_lines, ?_⟩
  rw [Program.ofListing, Listing.lines_foldl_insert hascending]
  rfl

/-- The value that the variable is given. -/
def number : Value :=
  (Numeral.ofNat t.value).value

theorem toInt_number : t.number.toInt = t.value := by
  have hnumber := (Numeral.ofInt?_number (Numeral.isTooLarge_ofNat t.value_le)).2
  rwa [Numeral.number_ofNat] at hnumber

theorem text_number : t.number.text = Text.ofNat t.value := by
  rw [Value.text, t.toInt_number]
  rfl

theorem evaluateIn_value (vars : Store) :
    Expr.evaluateIn vars (Text.ofNat t.value) = .ok t.number :=
  (Expr.evaluateIn_digits vars (.ofNat t.value)).trans
    (Numeral.ofDigits_value (Numeral.isTooLarge_ofNat t.value_le))

/-- The machine before the last line of the program. -/
def assigned (vars : Store) : Machine :=
  { Machine.start t.program with vars, counter := 2, current := some t.second }

theorem line?_first : t.program.line? 0 =
    some ⟨t.first, Source.canonical (Instruction.text ⟨.declare, t.name.text⟩)⟩ :=
  rfl

theorem line?_second : t.program.line? 1 =
    some ⟨t.second, Source.canonical (Instruction.text ⟨.assign, t.equation⟩)⟩ :=
  rfl

/-- The variable is declared and is given its value. -/
theorem turns_two : ∃ vars : Store, vars.lookup? t.name.text = some ⟨t.number, true⟩ ∧
    (Machine.start t.program).turns 2 = (.running, t.assigned vars) := by
  have hroom : Store.empty.size < Store.capacity := by decide +kernel
  obtain ⟨declared, hdeclared⟩ := Store.declare_of_size_lt t.name.isValid hroom
  have hcontains : declared.contains t.name.text = true := by
    rw [Store.contains_of_declare hdeclared, decide_eq_true rfl, Bool.true_or]
  obtain ⟨vars, hvars⟩ := Store.assign_of_contains hcontains t.number
  have hlookup := Store.lookup?_of_assign hvars t.name.text
  rw [if_pos rfl] at hlookup
  refine ⟨vars, hlookup, ?_⟩
  let m₀ := Machine.start t.program
  let m₁ : Machine := { m₀ with vars := declared, counter := 1, current := some t.first }
  let declaring : Line := ⟨t.first, Source.canonical (Instruction.text ⟨.declare, t.name.text⟩)⟩
  let assigning : Line := ⟨t.second, Source.canonical (Instruction.text ⟨.assign, t.equation⟩)⟩
  have hfirst : (m₀.entered declaring).carryOut declaring = (.ok none, m₁) :=
    Machine.carryOut_declare (m := m₀.entered declaring) t.name hdeclared t.first
  have hsecond : (m₁.entered assigning).carryOut assigning = (.ok none, t.assigned vars) :=
    Machine.carryOut_assign_digits (m := m₁.entered assigning) t.name (.ofNat t.value) hcontains
      (t.evaluateIn_value declared) hvars t.second
  calc
    m₀.turns 2 = m₁.turns 1 := Machine.turns_of_quiet rfl rfl t.line?_first hfirst 1
    _ = (t.assigned vars).turns 0 := Machine.turns_of_quiet rfl rfl t.line?_second hsecond 0
    _ = (.running, t.assigned vars) := rfl

/-- The last line of the program, as it is read. -/
def comparing : Line :=
  ⟨t.third, Source.canonical (Instruction.text ⟨.branch, t.conditional⟩)⟩

theorem idle_start : (Machine.start t.program).Idle :=
  ⟨rfl, nofun⟩

/-- A name that does not begin with THEN is printed. -/
theorem returns_ok (h : Source.startsThen t.name.text = false) {budget : Nat} (hb : 0 < budget)
    (replies : List (Reply (Option Text))) : ∃ s' script',
    Session.Returns Script.console budget ⟨Machine.start t.program, false⟩
      (Script.faultless replies) (.ok ()) s' script' ∧
    script'.output = Text.ofNat t.value ++ ['\n'] := by
  obtain ⟨vars, hvars, htwo⟩ := t.turns_two
  let m := t.assigned vars
  let shown : Text := Text.ofNat t.value ++ ['\n']
  have hline : (m.entered t.comparing).carryOut t.comparing =
      (.ok (some (.print shown)), m.entered t.comparing) := by
    have hequality := Machine.carryOut_equality (m := m.entered t.comparing) t.name
      (.ofNat t.value) h hvars (t.evaluateIn_value vars) t.third
    rwa [t.text_number] at hequality
  have hrun : m.runLine t.comparing = (some (.print shown), m.entered t.comparing) :=
    congrArg (Machine.settle t.third) hline
  have hprint := (Machine.reports_of_line rfl rfl rfl hrun).of_turns htwo
  have hstop : (m.entered t.comparing).Reports .stopped
      { m.entered t.comparing with phase := .halted } := ⟨nofun, 1, rfl⟩
  have hne : shown ≠ [] := List.append_ne_nil_of_right_ne_nil _ (List.cons_ne_nil _ _)
  refine ⟨_, _, Session.returns_of_print hb hne t.idle_start hprint ⟨rfl, nofun⟩ hstop replies, ?_⟩
  exact List.flatten_singleton

/-- A name that begins with THEN is taken for the word, and the condition is refused. -/
theorem returns_error (h : Source.startsThen t.name.text = true) {budget : Nat} (hb : 0 < budget)
    (script : Script) : ∃ s',
    Session.Returns Script.console budget ⟨Machine.start t.program, false⟩ script
      (.error (Condition.missingRelation.inLine t.third)) s' script := by
  obtain ⟨vars, -, htwo⟩ := t.turns_two
  let m := t.assigned vars
  have hline : (m.entered t.comparing).carryOut t.comparing =
      (.error Condition.missingRelation, m.entered t.comparing) := by
    have hsplit := (Source.splitWord_if t.tight_conditional).2
    rw [Source.joined_of_ne_nil _ t.conditional_ne_nil] at hsplit
    have hstarts : Source.startsThen t.conditional = true := by
      rw [conditional, equation, List.append_assoc, List.append_assoc]
      exact Source.startsThen_append_right h _
    exact Machine.carryOut_of_startsThen hsplit rfl hstarts t.third _
  have hrun : m.runLine t.comparing =
      (some (.failed (Condition.missingRelation.inLine t.third)),
        { m.entered t.comparing with phase := .halted }) :=
    congrArg (Machine.settle t.third) hline
  have hfailed := (Machine.reports_of_line rfl rfl rfl hrun).of_turns htwo
  exact ⟨_, Session.returns_of_failed hb t.idle_start hfailed script⟩

/-- A trial is read and ends without an error, and it prints the value and a new line, unless the
name begins with the letters of THEN in either case. Such a name is declared and is assigned to all
the same, but the condition is refused. -/
theorem name_compared (t : Trial) {budget : Nat} (hb : 0 < budget)
    (replies : List (Reply (Option Text))) :
    ∃ l, Listing.parse t.source = .ok l ∧
      let session : Session := ⟨Machine.start (Program.ofListing l), false⟩
      let script := Script.faultless replies
      (Text.upper (t.name.text.take 4) ≠ "THEN".toList → ∃ s' script',
        Session.Returns Script.console budget session script (.ok ()) s' script' ∧
          script'.output = Text.ofNat t.value ++ ['\n']) ∧
      (Text.upper (t.name.text.take 4) = "THEN".toList → ∃ s' script',
        Session.Returns Script.console budget session script (.error {
            kind := .badCondition
            line := some t.third
            detail := "MISSING RELATIONAL OPERATOR".toList }) s' script' ∧
          script'.output = []) := by
  obtain ⟨l, hl, hprogram⟩ := t.parse_source
  refine ⟨l, hl, fun hname => ?_, fun hname => ?_⟩
  · rw [hprogram]
    exact t.returns_ok (beq_eq_false_iff_ne.2 hname) hb replies
  · rw [hprogram]
    obtain ⟨s', hs'⟩ := t.returns_error (beq_iff_eq.2 hname) hb (Script.faultless replies)
    exact ⟨s', _, hs', rfl⟩

/-- The letters inside a name, with the greatest value in the last line there is, and a name that
is these letters and no others. -/
theorem name_compared_inside :
    (∃ l, Listing.parse ("1 INTEGER ATHEN\n20 LET ATHEN=2147483647\n" ++
        "4294967295 IF ATHEN=2147483647 THEN PRINTLN ATHEN\n").toList = .ok l ∧
      ∃ s' script', Session.Returns Script.console 1 ⟨Machine.start (Program.ofListing l), false⟩
        (Script.faultless []) (.ok ()) s' script' ∧ script'.output = "2147483647\n".toList) ∧
    ∃ l, Listing.parse ("1 INTEGER then\n2 LET then=0\n" ++
        "3 IF then=0 THEN PRINTLN then\n").toList = .ok l ∧
      ∃ s' script', Session.Returns Script.console 1 ⟨Machine.start (Program.ofListing l), false⟩
        (Script.faultless []) (.error (Condition.missingRelation.inLine 3)) s' script' ∧
        script'.output = [] := by
  let inside : Trial := ⟨⟨"ATHEN".toList, rfl⟩, 2147483647, 1, 20, 4294967295, by decide,
    by decide, by decide, by decide, by decide⟩
  let whole : Trial := ⟨⟨"then".toList, rfl⟩, 0, 1, 2, 3, by decide, by decide, by decide,
    by decide, by decide⟩
  have hinside : inside.source = ("1 INTEGER ATHEN\n20 LET ATHEN=2147483647\n" ++
      "4294967295 IF ATHEN=2147483647 THEN PRINTLN ATHEN\n").toList := by decide +kernel
  have hwhole : whole.source = ("1 INTEGER then\n2 LET then=0\n" ++
      "3 IF then=0 THEN PRINTLN then\n").toList := by decide +kernel
  have hshown : "2147483647\n".toList = Text.ofNat inside.value ++ ['\n'] := by decide +kernel
  rw [← hinside, ← hwhole, hshown]
  constructor
  · obtain ⟨l, hl, hok, -⟩ := name_compared inside Nat.zero_lt_one []
    exact ⟨l, hl, hok (by decide)⟩
  · obtain ⟨l, hl, -, herror⟩ := name_compared whole Nat.zero_lt_one []
    exact ⟨l, hl, herror (by decide)⟩

/-- A name that can be declared, and that cannot be compared. -/
theorem name_not_compared :
    Name.isValid "THENCE".toList = true ∧
    ∃ l, Listing.parse ("10 INTEGER THENCE\n20 LET THENCE=5\n" ++
        "30 IF THENCE=5 THEN PRINTLN THENCE\n").toList = .ok l ∧
      ∀ budget replies, 0 < budget → ∀ s' script', ¬ Session.Returns Script.console budget
        ⟨Machine.start (Program.ofListing l), false⟩ (Script.faultless replies) (.ok ()) s'
        script' := by
  let t : Trial := ⟨⟨"THENCE".toList, rfl⟩, 5, 10, 20, 30, by decide, by decide, by decide,
    by decide, by decide⟩
  have hsource : t.source = ("10 INTEGER THENCE\n20 LET THENCE=5\n" ++
      "30 IF THENCE=5 THEN PRINTLN THENCE\n").toList := by decide +kernel
  obtain ⟨l, hl, hprogram⟩ := t.parse_source
  rw [← hsource]
  refine ⟨rfl, l, hl, fun budget replies hb s' script' hok => ?_⟩
  rw [hprogram] at hok
  obtain ⟨s'', herror⟩ := t.returns_error rfl hb (Script.faultless replies)
  cases (herror.unique hok).1

end Trial
end LineScript
