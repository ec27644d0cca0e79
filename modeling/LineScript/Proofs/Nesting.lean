import Mathlib.Combinatorics.Enumerative.DyckWord
import LineScript.Proofs.History

/-!
Calls and returns match like brackets. The calls of the history that no return has matched are
kept, with the lines after each of them that match among themselves; the stack of calls holds the
addresses after just these, so a return goes back to the innermost of them, and fails if there is
none.
-/
namespace LineScript

/-- Successful calls open a bracket, and successful returns close one. -/
def Execution.bracket? (x : Execution) : Option DyckStep :=
  if x.succeeded then
    match x.keyword? with
    | some .call => some .U
    | some .leave => some .D
    | _ => none
  else none

/-- There are as many successful calls as successful returns among the lines, and in no initial
part of them are there more returns. -/
def Balanced (lines : List Execution) : Prop :=
  ∃ w : DyckWord, w.toList = lines.filterMap Execution.bracket?

/-- A successful call of the past with only balanced lines after it, which a return now matches. -/
structure Matched (past : List Execution) (g : Execution) (between : List Execution) : Prop where
  call : g.bracket? = some .U
  balanced : Balanced between
  past_eq : ∃ before, past = before ++ g :: between

namespace Balanced

theorem nil : Balanced [] :=
  ⟨0, rfl⟩

theorem append {xs ys : List Execution} (hx : Balanced xs) (hy : Balanced ys) :
    Balanced (xs ++ ys) := by
  obtain ⟨p, hp⟩ := hx
  obtain ⟨q, hq⟩ := hy
  refine ⟨p + q, ?_⟩
  rw [List.filterMap_append, ← hp, ← hq]
  rfl

theorem singleton {x : Execution} (hx : x.bracket? = none) : Balanced [x] :=
  ⟨0, by simp [hx]; rfl⟩

/-- A call, lines that match among themselves, and a return. -/
theorem enclose {g x : Execution} {between : List Execution} (hg : g.bracket? = some .U)
    (hb : Balanced between) (hx : x.bracket? = some .D) : Balanced (g :: between ++ [x]) := by
  obtain ⟨p, hp⟩ := hb
  refine ⟨p.nest, ?_⟩
  simp [DyckWord.nest, hg, hx, hp]

/-- No call in balanced lines has only balanced lines after it. -/
theorem not_open {xs between : List Execution} (hx : Balanced xs) {g : Execution} :
    ¬ Matched xs g between := by
  rintro ⟨hg, ⟨q, hq⟩, before, rfl⟩
  obtain ⟨p, hp⟩ := hx
  have hlist : p.toList = before.filterMap Execution.bracket? ++ .U :: q.toList := by
    rw [hp, hq]
    simp [hg]
  have hcount := p.count_U_eq_count_D
  have hinner := q.count_U_eq_count_D
  have hle := p.count_D_le_count_U (before.filterMap Execution.bracket?).length
  rw [hlist, List.take_left] at hle
  simp only [hlist, List.count_append, List.count_cons, beq_self_eq_true, if_true] at hcount
  simp at hcount
  omega

end Balanced

/-- The calls of the past that no return has matched, the last one first. -/
inductive Unmatched : List Execution → List Execution → Prop where
  | nil {past : List Execution} (h : Balanced past) : Unmatched past []
  | cons {past calls between : List Execution} {g : Execution} (h : Unmatched past calls)
      (hg : g.bracket? = some .U) (hb : Balanced between) :
      Unmatched (past ++ g :: between) (g :: calls)

namespace Unmatched

variable {past calls lines : List Execution} {g x : Execution}

theorem append (h : Unmatched past calls) (hl : Balanced lines) :
    Unmatched (past ++ lines) calls := by
  cases h with
  | nil h => exact .nil (h.append hl)
  | cons h hg hb =>
    rw [List.append_assoc, List.cons_append]
    exact .cons h hg (hb.append hl)

theorem call (h : Unmatched past calls) (hx : x.bracket? = some .U) :
    Unmatched (past ++ [x]) (x :: calls) :=
  .cons h hx .nil

theorem leave (h : Unmatched past (g :: calls)) (hx : x.bracket? = some .D) :
    Unmatched (past ++ [x]) calls := by
  cases h with
  | cons h hg hb =>
    rw [List.append_assoc]
    exact h.append (hb.enclose hg hx)

/-- A return matches the last call that is left over. -/
theorem matched (h : Unmatched past (g :: calls)) : ∃ between, Matched past g between ∧
    ∀ g' between', Matched past g' between' → between.length ≤ between'.length := by
  cases h with
  | @cons past _ between _ h hg hb =>
    refine ⟨between, ⟨hg, hb, past, rfl⟩, fun g' between' hm => ?_⟩
    obtain ⟨hg', hb', before, heq⟩ := hm
    by_contra hlt
    -- a later call would stand among the balanced lines after this one
    have hthis : between <:+ past ++ g :: between := ⟨past ++ [g], by simp⟩
    have hthat : g' :: between' <:+ past ++ g :: between := ⟨before, heq.symm⟩
    have hsuffix : g' :: between' <:+ between := by
      refine List.suffix_of_suffix_length_le hthat hthis ?_
      rw [List.length_cons]
      omega
    obtain ⟨before', hbefore⟩ := hsuffix
    exact hb.not_open ⟨hg', hb', before', hbefore.symm⟩

theorem not_matched (h : Unmatched past []) {between : List Execution} :
    ¬ Matched past g between := by
  cases h with
  | nil h => exact h.not_open

end Unmatched

namespace Execution

variable {x : Execution}

theorem parse_of_keyword? {k : Keyword} (h : x.keyword? = some k) :
    ∃ operands, Instruction.parse x.line.instruction = .ok ⟨k, operands⟩ := by
  unfold keyword? at h
  cases hi : Instruction.parse x.line.instruction with
  | error e => simp [hi, Except.toOption] at h
  | ok i =>
    obtain ⟨keyword, operands⟩ := i
    simp only [hi, Except.toOption, Option.map_some, Option.some.injEq] at h
    exact ⟨operands, h ▸ rfl⟩

theorem after_of_ok {event : Option Event} {m : Machine} (h : x.outcome = (.ok event, m)) :
    x.succeeded = true ∧ x.after = m := by
  refine ⟨by rw [succeeded, h]; rfl, ?_⟩
  change (Machine.settle x.line.number x.outcome).2 = m
  rw [h]
  rfl

theorem after_of_error {e : Error} {m : Machine} (h : x.outcome = (.error e, m)) :
    x.succeeded = false ∧ x.after.phase = .halted := by
  refine ⟨by rw [succeeded, h]; rfl, ?_⟩
  change (Machine.settle x.line.number x.outcome).2.phase = .halted
  rw [h]
  rfl

/-- A call that succeeds has put the address after its own on the stack of calls. -/
theorem calls_of_call (hk : x.keyword? = some .call) :
    (x.succeeded = true ∧ x.after.calls = x.machine.calls.cons (x.address + 1)) ∨
      (x.succeeded = false ∧ x.after.phase = .halted) := by
  obtain ⟨operands, hi⟩ := parse_of_keyword? hk
  have hout : x.outcome = (x.machine.entered x.line).call operands := Machine.carryOut_of_parse hi
  unfold Machine.call at hout
  cases ht : Machine.target operands with
  | error e =>
    rw [ht] at hout
    exact .inr (after_of_error hout)
  | ok number =>
    rw [ht] at hout
    simp only [Machine.attempt] at hout
    rcases (x.machine.entered x.line).calls.push_cases (x.machine.entered x.line).counter with
      ⟨_, hp⟩ | ⟨_, hp⟩
    · rw [hp] at hout
      obtain ⟨hs, ha⟩ := after_of_ok hout
      exact .inl ⟨hs, by rw [ha]; rfl⟩
    · rw [hp] at hout
      exact .inr (after_of_error hout)

/-- A return goes to the address on top of the stack of calls, and takes it off. -/
theorem calls_of_leave (hk : x.keyword? = some .leave) :
    (x.succeeded = true ∧ x.machine.calls = x.after.calls.cons x.after.counter) ∨
      (x.outcome.1 = .error (.of .noCaller) ∧ x.succeeded = false ∧ x.after.phase = .halted ∧
        x.machine.calls.entries = []) := by
  obtain ⟨operands, hi⟩ := parse_of_keyword? hk
  have hout : x.outcome = (x.machine.entered x.line).leave := Machine.carryOut_of_parse hi
  unfold Machine.leave at hout
  rcases (x.machine.entered x.line).calls.pop_cases (.of .noCaller) with
    ⟨hn, hp⟩ | ⟨address, calls, hc, hp⟩
  · rw [hp] at hout
    obtain ⟨hs, ha⟩ := after_of_error hout
    exact .inr ⟨by rw [hout]; rfl, hs, ha, hn⟩
  · rw [hp] at hout
    obtain ⟨hs, ha⟩ := after_of_ok hout
    exact .inl ⟨hs, by rw [ha]; exact hc⟩

/-- No other line touches the stack of calls, whether it fails or not. -/
theorem calls_of_other (hc : x.keyword? ≠ some .call) (hl : x.keyword? ≠ some .leave) :
    x.after.calls = x.machine.calls := by
  have hkeyword {k : Keyword} {operands : Text}
      (hi : Instruction.parse x.line.instruction = .ok ⟨k, operands⟩) : x.keyword? = some k := by
    simp [keyword?, hi, Except.toOption]
  obtain ⟨o, he, ho⟩ := Machine.effect_of_runLine x.line x.machine
  have hafter : x.after.calls = o.2.calls := by
    rw [after, ho]
    obtain ⟨r, m⟩ := o
    cases r <;> rfl
  rw [hafter]
  cases he with
  | called hi => exact absurd (hkeyword hi) hc
  | calledTooDeep hi => exact absurd (hkeyword hi) hc
  | returned hi => exact absurd (hkeyword hi) hl
  | _ => rfl

theorem bracket?_of_failed (hs : x.succeeded = false) : x.bracket? = none := by
  simp [bracket?, hs]

theorem bracket?_of_other (hc : x.keyword? ≠ some .call) (hl : x.keyword? ≠ some .leave) :
    x.bracket? = none := by
  unfold bracket?
  split
  · split
    next hk => exact absurd hk hc
    next hk => exact absurd hk hl
    next => rfl
  · rfl

/-- What a line does to the stack of calls, as far as the machine goes on after it. -/
theorem calls_cases (x : Execution) :
    (x.bracket? = some .U ∧ x.after.calls = x.machine.calls.cons (x.address + 1)) ∨
    (x.bracket? = some .D ∧ x.machine.calls = x.after.calls.cons x.after.counter) ∨
    (x.bracket? = none ∧ (x.after.phase = .halted ∨ x.after.calls = x.machine.calls)) := by
  by_cases hk : x.keyword? = some .call
  · rcases calls_of_call hk with ⟨hs, ha⟩ | ⟨hs, hp⟩
    · exact .inl ⟨by simp [bracket?, hs, hk], ha⟩
    · exact .inr (.inr ⟨bracket?_of_failed hs, .inl hp⟩)
  by_cases hl : x.keyword? = some .leave
  · rcases calls_of_leave hl with ⟨hs, ha⟩ | ⟨_, hs, hp, _⟩
    · exact .inr (.inl ⟨by simp [bracket?, hs, hl], ha⟩)
    · exact .inr (.inr ⟨bracket?_of_failed hs, .inl hp⟩)
  · exact .inr (.inr ⟨bracket?_of_other hk hl, .inr (calls_of_other hk hl)⟩)

end Execution

namespace Machine

/-- While the machine is not halted, its calls are the unmatched ones of the past. -/
def Nested (past : List Execution) (m : Machine) : Prop :=
  ∃ calls, Unmatched past calls ∧
    (m.phase ≠ .halted → m.calls.entries = calls.map fun g => g.address + 1)

theorem kept_nested : Kept Nested := by
  constructor
  · rintro past m m' ⟨calls, hu, hc⟩ hq
    refine ⟨calls, hu, fun hp => ?_⟩
    rw [hq.calls_eq]
    exact hc fun h => hp (hq.halted h)
  · rintro past x ⟨calls, hu, hc⟩ hx
    have hc := hc (by simp [hx.running])
    rcases x.calls_cases with ⟨hb, ha⟩ | ⟨hb, ha⟩ | ⟨hb, ha⟩
    · refine ⟨x :: calls, hu.call hb, fun _ => ?_⟩
      rw [ha, List.map_cons, ← hc]
      rfl
    · rw [ha] at hc
      cases calls with
      | nil => cases hc
      | cons g calls => exact ⟨calls, hu.leave hb, fun _ => (List.cons.inj hc).2⟩
    · refine ⟨calls, hu.append (.singleton hb), fun hp => ?_⟩
      rw [ha.resolve_left hp, hc]

/-- A return that succeeds goes to the address after the call that it matches, which is the last
call with only balanced lines since then, and the next line is the one there; a return fails
exactly if there is no such call. No line but a call or a return touches the stack of calls. -/
theorem returns_match_calls {program : Program} {calls : List Call} {past future : List Execution}
    {x : Execution} (h : (start program).history calls = past ++ x :: future) :
    (x.keyword? = some .leave →
      (x.succeeded = true → ∃ g between, Matched past g between ∧
        (∀ g' between', Matched past g' between' → between.length ≤ between'.length) ∧
        x.after.counter = g.address + 1 ∧ ∀ y ∈ future.head?, y.address = g.address + 1) ∧
      (x.outcome.1 = .error (.of .noCaller) ↔ ∀ g between, ¬ Matched past g between) ∧
      (x.succeeded = false → x.outcome.1 = .error (.of .noCaller))) ∧
    (x.keyword? ≠ some .call → x.keyword? ≠ some .leave →
      x.bracket? = none ∧ x.after.calls = x.machine.calls) := by
  have hstart : Nested [] (start program) := ⟨[], .nil .nil, fun _ => rfl⟩
  obtain ⟨⟨open', hu, hc⟩, hx⟩ := kept_nested.split hstart h
  have hc := hc (by simp [hx.running])
  refine ⟨fun hl => ?_, fun hk hl =>
    ⟨Execution.bracket?_of_other hk hl, Execution.calls_of_other hk hl⟩⟩
  rcases Execution.calls_of_leave hl with ⟨hs, ha⟩ | ⟨he, hs, _, hn⟩
  · rw [ha] at hc
    cases open' with
    | nil => cases hc
    | cons g open' =>
      have hcounter : x.after.counter = g.address + 1 := (List.cons.inj hc).1
      obtain ⟨between, hm, hlast⟩ := hu.matched
      refine ⟨fun _ => ⟨g, between, hm, hlast, hcounter, fun y hy => ?_⟩, ?_, ?_⟩
      · obtain ⟨rest, rfl⟩ := List.head?_eq_some_iff.1 hy
        exact (quiet_of_next h).counter_eq.trans hcounter
      · refine ⟨fun he => ?_, fun hnone => absurd hm (hnone g between)⟩
        simp [Execution.succeeded, he, Except.isOk, Except.toBool] at hs
      · intro hs'
        rw [hs] at hs'
        cases hs'
  · rw [hn] at hc
    cases open' with
    | nil => exact ⟨by simp [hs], ⟨fun _ _ _ => hu.not_matched, fun _ => he⟩, fun _ => he⟩
    | cons g open' => cases hc

/-- Two calls, one inside the other: the second of two returns matches the first call. -/
theorem returns_match_calls_nested :
    let program : Program := ⟨#[⟨10, "GOSUB 30".toList⟩, ⟨20, "END".toList⟩,
      ⟨30, "GOSUB 50".toList⟩, ⟨40, "RET".toList⟩, ⟨50, "RET".toList⟩]⟩
    ∃ past x future, (start program).history [.run 9] = past ++ x :: future ∧
      (x.line.number = 40 ∧ x.keyword? = some .leave ∧ x.succeeded = true) ∧
      ∃ g between, Matched past g between ∧ g.address = 0 ∧ ∀ y ∈ future.head?, y.address = 1 := by
  intro program
  have hx : ((start program).history [.run 9])[3]?.map (fun x =>
      (x.line.number, x.keyword?, x.succeeded, x.after.counter)) =
        some (40, some .leave, true, 1) := by decide +kernel
  obtain ⟨x, hget, hx⟩ := Option.map_eq_some_iff.1 hx
  simp only [Prod.mk.injEq] at hx
  obtain ⟨hnumber, hk, hs, hcounter⟩ := hx
  obtain ⟨hlt, hget⟩ := List.getElem?_eq_some_iff.1 hget
  have hsplit : (start program).history [.run 9] =
      ((start program).history [.run 9]).take 3 ++
        x :: ((start program).history [.run 9]).drop 4 := by
    rw [← hget, ← List.drop_eq_getElem_cons hlt, List.take_append_drop]
  obtain ⟨g, between, hm, _, hg, hnext⟩ := ((returns_match_calls hsplit).1 hk).1 hs
  have haddress : g.address = 0 := by omega
  exact ⟨_, x, _, hsplit, ⟨hnumber, hk, hs⟩, g, between, hm, haddress,
    by simpa [haddress] using hnext⟩

end Machine
end LineScript
