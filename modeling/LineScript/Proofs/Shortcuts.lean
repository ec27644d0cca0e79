import LineScript.Proofs.Branch
import LineScript.Proofs.Canonical
import LineScript.Proofs.Invariant

/-!
An assignment reads a numeral as it stands and a print statement looks a name up, where any other
text has its names replaced, is cut into tokens and is evaluated. The long way leads to the same
values and to the same errors. An assignment is therefore a push and a pop, because what is stored
is the value of the text in both cases.
-/
namespace LineScript

/-- A keyword has no blank in it, in whatever case it is written. -/
theorem Keyword.solid_of_upper {s : Text} {k : Keyword} (h : Text.upper s = k.spelling) :
    (∀ c ∈ s, Text.isBlank c = false) ∧ s ≠ [] :=
  Source.solid_of_upper h (by cases k <;> rfl) (by cases k <;> decide)

theorem Keyword.upper_spelling (k : Keyword) : Text.upper k.spelling = k.spelling := by
  cases k <;> rfl

/-- The text of an instruction, with a space after the keyword. -/
def Instruction.text (i : Instruction) : Text :=
  i.keyword.spelling ++ ' ' :: i.operands

/-- Operands without blanks are read as they were written, also if there are none. -/
theorem Instruction.parse_text {i : Instruction} (h : ∀ c ∈ i.operands, Text.isBlank c = false) :
    parse i.text = .ok i := by
  obtain ⟨k, operands⟩ := i
  have hspace : ∀ c ∈ [' '], Text.isBlank c = true := List.forall_mem_singleton.2 rfl
  obtain ⟨hspelling, hne⟩ := Keyword.solid_of_upper k.upper_spelling
  obtain ⟨hjoined, hsplit⟩ := Source.splitWord_joined k.spelling hspelling
    (fun hnil => absurd hnil hne) (Text.Tight.of_solid h)
  have htrim : Text.trim (text ⟨k, operands⟩) = Source.joined k.spelling operands := by
    cases operands with
    | nil => exact Text.trim_append_of_solid hspelling hspace
    | cons c operands => exact hjoined.trim_eq
  rw [parse, htrim, hsplit]
  simp only [Keyword.ofText?_spelling]

namespace Expr

/-- A numeral or a name by itself is a formula. -/
theorem evaluateIn_atom {vars : Store} (a : Atom)
    (hx : ∀ x, a = .name x → vars.contains x.text = true) :
    (evaluateIn vars a.text).map Value.toInt =
      (Formula.operand a).meaning Atom.numeral? (Atom.value vars) := by
  have hs : Spaced [a.text] a.text := by
    simpa using Spaced.compact [a.text] (List.forall_mem_nil _) (List.forall_mem_nil _)
  have hnames : ∀ x, Atom.name x ∈ (Formula.operand a).operands → vars.contains x.text = true :=
    fun x hmem => hx x (List.mem_singleton.1 hmem).symm
  exact evaluateIn_spaced (e := .tight (.tight (.operand a))) (Nat.zero_le _) hnames hs

/-- A numeral stands for itself in every store. -/
theorem evaluateIn_digits (vars : Store) (n : Numeral) :
    evaluateIn vars n.digits = Value.ofDigits n.digits := by
  refine Value.map_toInt_inj ((evaluateIn_atom (.numeral n) (by simp)).trans ?_)
  cases hlarge : n.isTooLarge with
  | true =>
    rw [Numeral.ofDigits_tooLarge hlarge]
    simp [Formula.meaning, Formula.operands, Atom.numeral?, hlarge, Except.map]
  | false =>
    rw [Numeral.ofDigits_value hlarge]
    simp [Formula.meaning, Formula.operands, Formula.compute, Atom.numeral?, Atom.value, hlarge,
      Except.map, (Numeral.ofInt?_number hlarge).2]

/-- A declared name stands for its value. -/
theorem evaluateIn_name {vars : Store} (x : Identifier) (hx : vars.contains x.text = true) :
    evaluateIn vars x.text = .ok (vars.stored x.text) := by
  have hname : ∀ y, Atom.name x = .name y → vars.contains y.text = true := by
    rintro y ⟨⟩
    exact hx
  exact Value.map_toInt_inj (evaluateIn_atom (.name x) hname)

end Expr

namespace Machine

/-- What is assigned is what the text evaluates to, digits or not. -/
theorem assigned_eq_evaluateIn (vars : Store) (s : Text) :
    assigned vars s = Expr.evaluateIn vars s := by
  unfold assigned
  split
  next hs => exact (Expr.evaluateIn_digits vars ⟨s, hs⟩).symm
  next => rfl

/-- An assignment to a declared variable computes its right side and stores the value. -/
theorem assign_eq {m : Machine} {x s : Text} (hx : m.vars.contains x = true) (hname : '=' ∉ x)
    (hs : '=' ∉ s) : m.assign (x ++ '=' :: s) =
      m.attempt (Expr.evaluateIn m.vars s) fun v => m.store x v := by
  have hsides : (x ++ '=' :: s).splitOn '=' = [x, s] := by
    rw [List.splitOn_append_cons_self_of_not_mem hname, List.splitOn_eq_singleton hs]
  unfold assign
  rw [hsides]
  simp [hx, assigned_eq_evaluateIn]

theorem push_eq {m : Machine} (hroom : m.stack.size < Stack.capacity) (s : Text) :
    m.push s = m.attempt (Expr.evaluateIn m.vars s) fun v =>
      proceed { m with stack := m.stack.cons v } := by
  unfold push
  congr 1
  funext v
  rcases m.stack.push_cases v with ⟨_, hp⟩ | ⟨hfull, _⟩
  · rw [hp]
    rfl
  · omega

/-- A pop into a declared variable stores the entry that was on top. -/
theorem pop_eq {m : Machine} {x : Text} (hx : m.vars.contains x = true) {v : Value}
    {stack : Stack Value} (hs : m.stack = stack.cons v) :
    m.pop x = store x v { m with stack } := by
  unfold pop
  rw [hs]
  simp [hx, attempt]

theorem store_eq {m : Machine} {x : Text} {v : Value} {vars : Store}
    (h : m.vars.assign x v = .ok vars) : m.store x v = proceed { m with vars } := by
  rw [store, h]
  rfl

theorem print_eq {m : Machine} {x : Text} {v : Value} (hne : x ≠ [])
    (hv : m.vars.valueOf x = .ok v) (ending : Text) :
    m.print x ending = (.ok (some (.print (v.text ++ ending))), m) := by
  obtain ⟨a, ha, rfl⟩ : ∃ a, m.vars.lookup? x = some a ∧ a.value = v := by
    unfold Store.valueOf at hv
    split at hv
    next a ha =>
      cases hv
      exact ⟨a, ha, rfl⟩
    next => cases hv
  rw [print, printed, if_neg (by simpa using hne), ha]
  rfl

theorem carryOut_text (number : Nat) {i : Instruction}
    (h : ∀ c ∈ i.operands, Text.isBlank c = false) (m : Machine) :
    m.carryOut ⟨number, i.text⟩ = m.obey number i :=
  carryOut_of_parse (Instruction.parse_text h)

/-- The names of variables are identifiers, in whose texts there is neither a blank nor an equals
sign. -/
theorem Reachable.exists_identifier {program : Program} {m : Machine} (h : Reachable program m)
    {x : Text} (hx : m.vars.contains x = true) : Text.Plain x ∧ ∃ y : Identifier, y.text = x :=
  ⟨(Atom.name ⟨x, h.sound.vars_valid x hx⟩).plain_text, ⟨x, h.sound.vars_valid x hx⟩, rfl⟩

/-- What a numeral is evaluated to in the end. -/
theorem evaluateIn_digits_cases (vars : Store) (n : Numeral) :
    (∃ v, Expr.evaluateIn vars n.digits = .ok v ∧ v.toInt = n.number) ∨
      (Expr.evaluateIn vars n.digits = .error (.about .overflow n.digits) ∧
        2147483647 < n.number) := by
  rw [Expr.evaluateIn_digits]
  cases hlarge : n.isTooLarge with
  | true => exact .inr ⟨Numeral.ofDigits_tooLarge hlarge, of_decide_eq_true hlarge⟩
  | false =>
    exact .inl ⟨_, Numeral.ofDigits_value hlarge, (Numeral.ofInt?_number hlarge).2⟩

/-- An assignment computes its right side and stores the value, and fails as the computation
does. -/
theorem carryOut_assign {m : Machine} {x s : Text} (hx : m.vars.contains x = true)
    (hplain : Text.Plain x) (hsolid : ∀ c ∈ s, Text.isBlank c = false) (hs : '=' ∉ s)
    (number : Nat) : m.carryOut ⟨number, Instruction.text ⟨.assign, x ++ '=' :: s⟩⟩ =
      m.attempt (Expr.evaluateIn m.vars s) fun v => m.store x v := by
  have hoperands : ∀ c ∈ x ++ '=' :: s, Text.isBlank c = false :=
    List.forall_mem_append.2 ⟨hplain.solid, List.forall_mem_cons.2 ⟨rfl, hsolid⟩⟩
  rw [carryOut_text number hoperands, ← assign_eq hx (hplain.symbol_notMem .equal) hs]
  rfl

/-- The two shortcuts lead where the long way does. The value of a text of digits is the number
that they denote, and too large a one is an overflow that names them; an assignment of the digits
makes that the value of the variable, and of no other, or fails with that error. The value of a
name is the one that is stored, and it is printed in decimal. -/
theorem shortcuts_evaluate {program : Program} {m : Machine} (h : Reachable program m) {x : Text}
    (hx : m.vars.contains x = true) (number : Nat) :
    (∀ n : Numeral,
      let line : Line := ⟨number, Instruction.text ⟨.assign, x ++ '=' :: n.digits⟩⟩
      match Expr.evaluateIn m.vars n.digits with
      | .ok v => v.toInt = n.number ∧ ∃ vars, vars.lookup? x = some ⟨v, true⟩ ∧
          (∀ y, y ≠ x → vars.lookup? y = m.vars.lookup? y) ∧
          (m.entered line).carryOut line = (.ok none, { m.entered line with vars })
      | .error e => e = .about .overflow n.digits ∧ 2147483647 < n.number ∧
          (m.entered line).carryOut line = (.error e, m.entered line)) ∧
    ∃ a, m.vars.lookup? x = some a ∧ Expr.evaluateIn m.vars x = .ok a.value ∧
      ∀ k ending, (k, ending) ∈ [(Keyword.print, []), (Keyword.printLine, ['\n'])] →
        let line : Line := ⟨number, Instruction.text ⟨k, x⟩⟩
        (m.entered line).carryOut line =
          (.ok (some (.print ((toString a.value.toInt).toList ++ ending))), m.entered line) := by
  obtain ⟨hplain, x, rfl⟩ := h.exists_identifier hx
  obtain ⟨a, ha⟩ : ∃ a, m.vars.lookup? x.text = some a :=
    Option.isSome_iff_exists.1 (m.vars.contains_eq x.text ▸ hx)
  have hvalue : m.vars.valueOf x.text = .ok a.value := by rw [Store.valueOf, ha]
  have hstored : m.vars.stored x.text = a.value := (Store.contains_of_valueOf hvalue).2
  refine ⟨fun n => ?_, a, ha, hstored ▸ Expr.evaluateIn_name x hx, fun k ending hk => ?_⟩
  · intro line
    have hdigits : Text.Plain n.digits := (Atom.numeral n).plain_text
    have hline : (m.entered line).carryOut line =
        (m.entered line).attempt (Expr.evaluateIn m.vars n.digits) fun v =>
          (m.entered line).store x.text v :=
      carryOut_assign (m := m.entered line) hx hplain hdigits.solid (hdigits.symbol_notMem .equal)
        number
    rw [hline]
    rcases evaluateIn_digits_cases m.vars n with ⟨v, hv, hnumber⟩ | ⟨he, hlarge⟩
    · obtain ⟨vars, hvars⟩ := Store.assign_of_contains hx v
      have hlookup := Store.lookup?_of_assign hvars
      rw [hv]
      refine ⟨hnumber, vars, ?_, fun y hy => ?_, store_eq hvars⟩
      · rw [hlookup, if_pos rfl]
      · rw [hlookup, if_neg hy.symm]
    · rw [he]
      exact ⟨rfl, hlarge, rfl⟩
  · intro line
    have hprint := print_eq (m := m.entered line) hplain.1 hvalue ending
    rw [Value.text, Text.ofInt_eq] at hprint
    refine (carryOut_text number hplain.solid _).trans (Eq.trans ?_ hprint)
    simp only [List.mem_cons, Prod.mk.injEq, List.not_mem_nil, or_false] at hk
    rcases hk with ⟨rfl, rfl⟩ | ⟨rfl, rfl⟩
    · rfl
    · rfl

/-- Zeros in front, a number that is one too large, and the least value of all. -/
theorem shortcuts_evaluate_least :
    let m := (start ⟨#[⟨10, "INTEGER X,Y".toList⟩]⟩).after [.run 1]
    let small : Line := ⟨20, "LET X=007".toList⟩
    let large : Line := ⟨20, "LET X=02147483648".toList⟩
    let shown : Line := ⟨20, "PRINTLN X".toList⟩
    (∃ vars : Store, vars.lookup? "X".toList = some ⟨⟨7, by decide, by decide⟩, true⟩ ∧
      vars.lookup? "Y".toList = some .fresh ∧
      (m.entered small).carryOut small = (.ok none, { m.entered small with vars })) ∧
    (m.entered large).carryOut large =
      (.error (.about .overflow "02147483648".toList), m.entered large) ∧
    (m.entered shown).carryOut shown =
      (.ok (some (.print "-2147483648\n".toList)), m.entered shown) := by
  intro m small large shown
  have hm : Reachable ⟨#[⟨10, "INTEGER X,Y".toList⟩]⟩ m := ⟨_, rfl⟩
  have hleast : m.vars.lookup? "X".toList = some .fresh := by decide +kernel
  have hother : m.vars.lookup? "Y".toList = some .fresh := by decide +kernel
  have hx : m.vars.contains "X".toList = true := by rw [Store.contains_eq, hleast]; rfl
  obtain ⟨hdigits, a, ha, -, hprint⟩ := shortcuts_evaluate hm hx 20
  refine ⟨?_, ?_, ?_⟩
  · have hsmall := hdigits ⟨"007".toList, rfl⟩
    split at hsmall
    next v _ =>
      obtain ⟨hnumber, vars, hvars, hothers, hline⟩ := hsmall
      obtain rfl : v = ⟨7, by decide, by decide⟩ := Value.ext hnumber
      exact ⟨vars, hvars, (hothers _ (by decide)).trans hother, hline⟩
    next => exact absurd hsmall.2.1 (by decide)
  · have hlarge := hdigits ⟨"02147483648".toList, rfl⟩
    split at hlarge
    next v _ =>
      have hvalue : v.toInt = 2147483648 := hlarge.1
      have hbound := v.le_greatest
      omega
    next =>
      obtain ⟨rfl, -, hline⟩ := hlarge
      exact hline
  · obtain rfl : a = .fresh := Option.some.inj (ha.symm.trans hleast)
    exact hprint .printLine ['\n'] (by simp)

/-- A push and then a pop into a variable are an assignment to it. The push fails exactly if the
assignment does, and with the same error. Otherwise the pop leaves the machine that the assignment
leaves, one line further on, and the stack that was there before the push. -/
theorem push_pop_assigns {program : Program} {m : Machine} (h : Reachable program m)
    (hroom : m.stack.size < 65535) {x s : Text} (hx : m.vars.contains x = true)
    (hsolid : ∀ c ∈ s, Text.isBlank c = false) (hs : '=' ∉ s) (a b c : Nat) :
    let pushing : Line := ⟨a, Instruction.text ⟨.push, s⟩⟩
    let popping : Line := ⟨b, Instruction.text ⟨.pop, x⟩⟩
    let assigning : Line := ⟨c, Instruction.text ⟨.assign, x ++ '=' :: s⟩⟩
    (∀ e, ((m.entered pushing).carryOut pushing).1 = .error e ↔
      ((m.entered assigning).carryOut assigning).1 = .error e) ∧
    ∀ event m₁, (m.entered pushing).carryOut pushing = (.ok event, m₁) →
      event = none ∧ ∃ m₂ m₃, (m₁.entered popping).carryOut popping = (.ok none, m₂) ∧
        (m.entered assigning).carryOut assigning = (.ok none, m₃) ∧
        m₂.vars = m₃.vars ∧ m₂.stack = m.stack ∧ m₂ = m₃.entered popping := by
  intro pushing popping assigning
  obtain ⟨hplain, -⟩ := h.exists_identifier hx
  have hpush : (m.entered pushing).carryOut pushing =
      (m.entered pushing).attempt (Expr.evaluateIn m.vars s) fun v =>
        proceed { m.entered pushing with stack := m.stack.cons v } :=
    (carryOut_text a hsolid _).trans (push_eq (m := m.entered pushing) hroom s)
  have hassign : (m.entered assigning).carryOut assigning =
      (m.entered assigning).attempt (Expr.evaluateIn m.vars s) fun v =>
        (m.entered assigning).store x v :=
    carryOut_assign (m := m.entered assigning) hx hplain hsolid hs c
  rw [hpush, hassign]
  cases Expr.evaluateIn m.vars s with
  | error e =>
    refine ⟨fun _ => .rfl, ?_⟩
    rintro event m₁ ⟨⟩
  | ok v =>
    obtain ⟨vars, hvars⟩ := Store.assign_of_contains hx v
    have hstore : (m.entered assigning).store x v =
        (.ok none, { m.entered assigning with vars }) := store_eq hvars
    simp only [attempt, hstore]
    refine ⟨fun e => by simp [proceed], ?_⟩
    rintro event m₁ ⟨⟩
    refine ⟨rfl, { (m.entered pushing).entered popping with vars }, _, ?_, rfl, rfl, rfl, rfl⟩
    let pushed : Machine := { m.entered pushing with stack := m.stack.cons v }
    have hpop : (pushed.entered popping).pop x = _ := pop_eq (m := pushed.entered popping) hx rfl
    exact (carryOut_text b hplain.solid _).trans (hpop.trans (store_eq hvars))

/-- A value is negative on the way, and an expression lacks an operand. -/
theorem push_pop_assigns_negative :
    let program : Program := ⟨#[⟨10, "INTEGER X,Y".toList⟩, ⟨20, "PUSH 5".toList⟩]⟩
    let m := (start program).after [.run 2]
    let pushing : Line := ⟨30, "PUSH (X+1)*1".toList⟩
    let popping : Line := ⟨40, "POP Y".toList⟩
    let assigning : Line := ⟨50, "LET Y=(X+1)*1".toList⟩
    let assigningBadly : Line := ⟨50, "LET Y=1+".toList⟩
    m.phase = .running ∧
    (∃ m₁ m₂ m₃, (m.entered pushing).carryOut pushing = (.ok none, m₁) ∧
      (m₁.entered popping).carryOut popping = (.ok none, m₂) ∧
      (m.entered assigning).carryOut assigning = (.ok none, m₃) ∧
      m₂ = m₃.entered popping ∧ m₂.stack = m.stack) ∧
    ((m.entered assigningBadly).carryOut assigningBadly).1 = .error Expr.missingOperand := by
  intro program m pushing popping assigning assigningBadly
  have hm : Reachable program m := ⟨_, rfl⟩
  have hroom : m.stack.size < 65535 := by decide +kernel
  have hy : m.vars.contains "Y".toList = true := by decide +kernel
  have hsolid {s : Text} (hs : (s.all fun c => !Text.isBlank c) = true) :
      ∀ c ∈ s, Text.isBlank c = false := by simpa using hs
  obtain ⟨-, hsame⟩ := push_pop_assigns hm hroom hy (s := "(X+1)*1".toList) (hsolid rfl)
    (by decide) 30 40 50
  obtain ⟨hfails, -⟩ := push_pop_assigns hm hroom hy (s := "1+".toList) (hsolid rfl)
    (by decide) 30 40 50
  have hpush : ((m.entered pushing).carryOut pushing).1 = .ok none := by decide +kernel
  generalize hout : (m.entered pushing).carryOut pushing = outcome at hpush
  obtain ⟨r, m₁⟩ := outcome
  obtain rfl : r = .ok none := hpush
  obtain ⟨-, m₂, m₃, hpop, hassign, -, hstack, heq⟩ := hsame none m₁ hout
  refine ⟨by decide +kernel, ⟨m₁, m₂, m₃, rfl, hpop, hassign, heq, hstack⟩, ?_⟩
  exact (hfails Expr.missingOperand).1 (by decide +kernel)

end Machine
end LineScript
