import LineScript.Proofs.Branch
import LineScript.Proofs.Invariant
import LineScript.Proofs.Lexemes

/-!
A condition compares once. Of two symbols of relations in its text at most one is read as the
relation, and the other one is left in a side. There it is taken for a part of a name, whatever
stands around it, and no such name can be declared; so that side has no value, and the condition is
refused whichever symbol was found first.
-/
namespace LineScript

namespace Expr

/-- A character of a text is a delimiter or a digit, or else it is part of a name. -/
theorem Lexed.mem_cases {s : Text} {ls : List Lexeme} (h : Lexed s ls) {c : Char} (hc : c ∈ s) :
    isDelimiter c = true ∨ c.isDigit = true ∨ ∃ x, Lexeme.name x ∈ ls ∧ c ∈ x := by
  have hlater {l : Lexeme} {ls : List Lexeme}
      (h : isDelimiter c = true ∨ c.isDigit = true ∨ ∃ x, Lexeme.name x ∈ ls ∧ c ∈ x) :
      isDelimiter c = true ∨ c.isDigit = true ∨ ∃ x, Lexeme.name x ∈ l :: ls ∧ c ∈ x := by
    rcases h with hd | hd | ⟨x, hx, hmem⟩
    · exact .inl hd
    · exact .inr (.inl hd)
    · exact .inr (.inr ⟨x, List.mem_cons_of_mem l hx, hmem⟩)
  induction h with
  | nil => cases hc
  | delimiter hd _ ih =>
    rcases List.mem_cons.1 hc with rfl | hc
    · exact .inl hd
    · exact hlater (ih hc)
  | literal _ hd _ _ ih =>
    rcases List.mem_append.1 hc with hc | hc
    · exact .inr (.inl (hd c hc))
    · exact hlater (ih hc)
  | @name d x s ls _ _ _ _ _ ih =>
    rw [← List.cons_append] at hc
    rcases List.mem_append.1 hc with hc | hc
    · exact .inr (.inr ⟨d :: x, List.mem_cons_self, hc⟩)
    · exact hlater (ih hc)

/-- Values are put for declared names only. -/
theorem contains_of_mapM {vars : Store} {ls : List Lexeme} {ts : List Text}
    (h : ls.mapM (Lexeme.spliced vars) = .ok ts) {x : Text} (hx : Lexeme.name x ∈ ls) :
    vars.contains x = true := by
  induction ls generalizing ts with
  | nil => cases hx
  | cons l ls ih =>
    rw [List.mapM_cons] at h
    obtain ⟨t, ht, h⟩ := Error.exists_of_bind_ok h
    obtain ⟨rest, hrest, -⟩ := Error.exists_of_bind_ok h
    rcases List.mem_cons.1 hx with rfl | hx
    · obtain ⟨v, hv, -⟩ := Error.exists_of_map_ok ht
      exact (Store.contains_of_valueOf hv).1
    · exact ih hrest hx

/-- A text that has a value has no characters but those of numerals, names and delimiters. -/
theorem isPart_of_evaluateIn {vars : Store} (hvars : vars.Valid) {s : Text} {v : Value}
    (h : evaluateIn vars s = .ok v) {c : Char} (hc : c ∈ s) :
    isDelimiter c = true ∨ Name.isPart c = true := by
  obtain ⟨t, ht, -⟩ := Error.exists_of_bind_ok h
  rw [substitute_eq_mapM] at ht
  obtain ⟨ts, hts, -⟩ := Error.exists_of_map_ok ht
  rcases (lexed s).mem_cases hc with hd | hd | ⟨x, hx, hmem⟩
  · exact .inl hd
  · exact .inr (by simp [Name.isPart, hd])
  · exact .inr (Identifier.isPart_of_mem ⟨x, hvars x (contains_of_mapM hts hx)⟩ hmem)

end Expr

namespace Relation

/-- The characters that are symbols of relations. -/
def isSymbol (c : Char) : Bool :=
  all.any fun r => r.symbol == c

theorem exists_of_isSymbol {c : Char} (h : isSymbol c = true) : ∃ r : Relation, c = r.symbol := by
  obtain ⟨r, -, hr⟩ := List.any_eq_true.1 h
  exact ⟨r, (eq_of_beq hr).symm⟩

theorem isSymbol_symbol (r : Relation) : isSymbol r.symbol = true := by
  cases r <;> rfl

theorem isDelimiter_symbol (r : Relation) : Expr.isDelimiter r.symbol = false := by
  cases r <;> rfl

/-- A text with the symbol of a relation in it has no value. -/
theorem evaluateIn_of_isSymbol {vars : Store} (hvars : vars.Valid) {s : Text} {c : Char}
    (hc : isSymbol c = true) (hmem : c ∈ s) : ∃ e, Expr.evaluateIn vars s = .error e := by
  obtain ⟨r, rfl⟩ := exists_of_isSymbol hc
  cases h : Expr.evaluateIn vars s with
  | error e => exact ⟨e, rfl⟩
  | ok v =>
    rcases Expr.isPart_of_evaluateIn hvars h hmem with hd | hpart
    · rw [isDelimiter_symbol] at hd
      cases hd
    · rw [Name.isPart_relation] at hpart
      cases hpart

/-- Trimming takes no symbol away. -/
theorem countP_trim (s : Text) : (Text.trim s).countP isSymbol = s.countP isSymbol := by
  obtain ⟨before, after, hbefore, hafter, hs⟩ := Text.exists_trim s
  have hblank {gap : Text} (hgap : ∀ c ∈ gap, Text.isBlank c = true) :
      gap.countP isSymbol = 0 := by
    rw [List.countP_eq_zero]
    intro c hc hsymbol
    obtain ⟨r, rfl⟩ := exists_of_isSymbol hsymbol
    have hsolid := hgap _ hc
    rw [isBlank_symbol] at hsolid
    cases hsolid
  conv_rhs => rw [hs]
  rw [List.countP_append, List.countP_append, hblank hbefore, hblank hafter]
  omega

end Relation

namespace Condition

/-- The sides of a condition and the symbol between them are all that it is made of. -/
theorem exists_of_parse {operands : Text} {c : Condition} (h : parse operands = .ok c) :
    ∃ tested action, Source.aroundThen? operands = some (tested, action) ∧
      Text.trim tested = c.left ++ c.relation.symbol :: c.right := by
  unfold parse at h
  split at h
  · cases h
  next tested action haround =>
    refine ⟨tested, action, haround, ?_⟩
    dsimp only at h
    split at h
    · cases h
    next relation hrelation =>
      split at h
      · cases h
      next left right hsides =>
        cases h
        unfold sides? at hsides
        split at hsides
        next l r hsplit =>
          split at hsides
          · cases hsides
          · cases hsides
            have hjoin : [relation.symbol].intercalate
                ((Text.trim tested).splitOn relation.symbol) = Text.trim tested :=
              List.intercalate_splitOn relation.symbol
            rw [hsplit] at hjoin
            simpa [List.intercalate] using hjoin.symm
        next => cases hsides

/-- With a second symbol in the text, a side of the condition has a symbol in it and no value. -/
theorem test_of_symbols {vars : Store} (hvars : vars.Valid) {operands tested action : Text}
    {c : Condition} (hc : parse operands = .ok c)
    (hthen : Source.aroundThen? operands = some (tested, action))
    (hsymbols : 2 ≤ tested.countP Relation.isSymbol) : ∃ e, c.test vars = .error e := by
  obtain ⟨tested', action', haround, htrim⟩ := exists_of_parse hc
  obtain ⟨rfl, rfl⟩ : tested = tested' ∧ action = action' := by simpa [hthen] using haround
  have hcount := Relation.countP_trim tested
  rw [htrim, List.countP_append, List.countP_cons_of_pos c.relation.isSymbol_symbol] at hcount
  have hside : 0 < c.left.countP Relation.isSymbol ∨ 0 < c.right.countP Relation.isSymbol := by
    omega
  cases hleft : Expr.evaluateIn vars c.left with
  | error e => exact ⟨e, by rw [test, hleft]; rfl⟩
  | ok a =>
    rcases hside with hside | hside
    · obtain ⟨d, hmem, hd⟩ := List.countP_pos_iff.1 hside
      obtain ⟨e, he⟩ := Relation.evaluateIn_of_isSymbol hvars hd hmem
      rw [hleft] at he
      cases he
    · obtain ⟨d, hmem, hd⟩ := List.countP_pos_iff.1 hside
      obtain ⟨e, he⟩ := Relation.evaluateIn_of_isSymbol hvars hd hmem
      exact ⟨e, by rw [test, hleft, he]; rfl⟩

end Condition

namespace Machine

/-- A condition with two symbols of relations before its THEN is refused in every state that a
program can come to. Its action is not carried out, and the line changes nothing but that the
machine is halted. -/
theorem second_symbol_refused {program : Program} {m : Machine} (h : Reachable program m)
    {line : Line} {operands tested action : Text}
    (hi : Instruction.parse line.instruction = .ok ⟨.branch, operands⟩)
    (hthen : Source.aroundThen? operands = some (tested, action))
    (hsymbols : 2 ≤ tested.countP Relation.isSymbol) :
    ∃ e, (m.entered line).carryOut line = (.error e, m.entered line) ∧
      m.runLine line = (some (.failed (e.inLine line.number)),
        { m.entered line with phase := .halted }) := by
  have hvars : (m.entered line).vars.Valid := h.sound.vars_valid
  obtain ⟨e, he⟩ : ∃ e, (m.entered line).carryOut line = (.error e, m.entered line) := by
    rw [carryOut_of_parse hi, obey, branch]
    cases hparse : Condition.parse operands with
    | error e => exact ⟨e, rfl⟩
    | ok c =>
      obtain ⟨e, he⟩ := Condition.test_of_symbols hvars hparse hthen hsymbols
      exact ⟨e, by simp only [attempt, he]; rfl⟩
  refine ⟨e, he, ?_⟩
  change settle line.number ((m.entered line).carryOut line) = _
  rw [he]
  rfl

/-- Two comparisons in one, in either order of the symbols, and two of the same symbol, each with
an action that would print something. -/
theorem second_symbol_refused_chained :
    let m := (start ⟨#[⟨10, "INTEGER X".toList⟩, ⟨20, "LET X=1".toList⟩]⟩).after [.run 2]
    m.phase = .running ∧
    ∀ code ∈ ["IF X<=5 THEN PRINTLN X".toList, "IF 2 = ! X THEN PRINTLN X".toList,
        "IF 1<2<3THEN PRINTLN X".toList],
      let line : Line := ⟨30, code⟩
      ∃ e, (m.entered line).carryOut line = (.error e, m.entered line) ∧
        m.runLine line =
          (some (.failed (e.inLine 30)), { m.entered line with phase := .halted }) := by
  intro m
  have hm : Reachable ⟨#[⟨10, "INTEGER X".toList⟩, ⟨20, "LET X=1".toList⟩]⟩ m := ⟨_, rfl⟩
  refine ⟨by decide +kernel, ?_⟩
  intro code hcode line
  have hparts : ∃ operands tested action,
      Instruction.parse line.instruction = .ok ⟨.branch, operands⟩ ∧
      Source.aroundThen? operands = some (tested, action) ∧
      2 ≤ tested.countP Relation.isSymbol := by
    simp only [List.mem_cons, List.not_mem_nil, or_false] at hcode
    rcases hcode with rfl | rfl | rfl
    · exact ⟨_, _, _, rfl, rfl, by decide⟩
    · exact ⟨_, _, _, rfl, rfl, by decide⟩
    · exact ⟨_, _, _, rfl, rfl, by decide⟩
  obtain ⟨operands, tested, action, hi, hthen, hsymbols⟩ := hparts
  exact second_symbol_refused hm hi hthen hsymbols

end Machine
end LineScript
