import Mathlib.Order.Monotone.Basic
import LineScript.Proofs.History
import LineScript.Proofs.Invariant
import LineScript.Proofs.LastWrite

/-!
Where jumps land. The lines of a listing stand in ascending order in its program, so the address of
a number is the only one that parts the lines with smaller numbers from the others; a jump goes
there, and the next line that is run is the one that the listing has first from that number on.
-/
namespace LineScript

/-- The line with the smallest number from `n` on. -/
structure Listing.FirstFrom (l : Listing) (n : Nat) (line : Line) : Prop where
  listed : l.get? line.number = some line
  from_le : n ≤ line.number
  least : ∀ other, l.get? other.number = some other → n ≤ other.number →
    line.number ≤ other.number

namespace Program

/-- Lines at higher addresses have higher numbers. -/
def Ascending (p : Program) : Prop :=
  ∀ a b x y, p.line? a = some x → p.line? b = some y → a < b → x.number < y.number

theorem line?_ofListing (l : Listing) (a : Nat) : (ofListing l).line? a = l.lines[a]? :=
  List.getElem?_toArray

theorem ascending_ofListing (l : Listing) : (ofListing l).Ascending := by
  intro a b x y hx hy hab
  rw [line?_ofListing] at hx hy
  obtain ⟨ha, rfl⟩ := List.getElem?_eq_some_iff.1 hx
  obtain ⟨hb, rfl⟩ := List.getElem?_eq_some_iff.1 hy
  exact List.pairwise_iff_getElem.1 l.pairwise_lines a b ha hb hab

theorem exists_line?_iff (l : Listing) (line : Line) :
    (∃ a, (ofListing l).line? a = some line) ↔ l.get? line.number = some line := by
  rw [← l.mem_lines_iff_get?, List.mem_iff_getElem?]
  simp only [line?_ofListing]

theorem line?_of_lt_size {p : Program} {a : Nat} (h : a < p.size) :
    ∃ line, p.line? a = some line :=
  ⟨_, Array.getElem?_eq_getElem h⟩

theorem lt_size_of_line? {p : Program} {a : Nat} {line : Line} (h : p.line? a = some line) :
    a < p.size :=
  (Array.getElem?_eq_some_iff.1 h).1

namespace Ascending

variable {p : Program} {a b n k : Nat} {x y line : Line}

theorem lt_iff (h : p.Ascending) (hx : p.line? a = some x) (hy : p.line? b = some y) :
    a < b ↔ x.number < y.number := by
  refine ⟨h a b x y hx hy, fun hlt => ?_⟩
  by_contra hle
  rcases Nat.lt_or_eq_of_le (Nat.le_of_not_lt hle) with hba | rfl
  · exact Nat.lt_asymm hlt (h b a y x hy hx hba)
  · rw [hx] at hy
    cases hy
    exact Nat.lt_irrefl _ hlt

/-- The address of a number parts the lines with smaller numbers from the others. -/
theorem lt_locate_iff (h : p.Ascending) (hl : p.line? a = some line) :
    a < p.locate n ↔ line.number < n := by
  obtain ⟨ha, rfl⟩ := Array.getElem?_eq_some_iff.1 hl
  constructor
  · intro hlt
    simpa using Array.not_of_lt_findIdx hlt
  · intro hlt
    by_contra hle
    have hle := Nat.le_of_not_lt hle
    have hlocate : p.locate n < p.lines.size := Nat.lt_of_le_of_lt hle ha
    have hn : n ≤ p.lines[p.locate n].number := by
      exact of_decide_eq_true (Array.findIdx_getElem (w := hlocate))
    rcases Nat.lt_or_eq_of_le hle with hlow | heq
    · have hless := h _ _ _ _ (Array.getElem?_eq_getElem hlocate) hl hlow
      omega
    · simp only [heq] at hn
      omega

/-- No other address parts them. -/
theorem locate_eq_iff (h : p.Ascending) : p.locate n = k ↔
    k ≤ p.size ∧ ∀ a line, p.line? a = some line → (a < k ↔ line.number < n) := by
  constructor
  · rintro rfl
    exact ⟨p.locate_le_size n, fun a line hl => h.lt_locate_iff hl⟩
  · rintro ⟨hk, hparts⟩
    have hle := p.locate_le_size n
    rcases Nat.lt_trichotomy (p.locate n) k with hlt | heq | hlt
    · obtain ⟨line, hl⟩ := line?_of_lt_size (Nat.lt_of_lt_of_le hlt hk)
      have hless := (h.lt_locate_iff hl).2 ((hparts _ _ hl).1 hlt)
      exact absurd hless (Nat.lt_irrefl _)
    · exact heq
    · obtain ⟨line, hl⟩ := line?_of_lt_size (Nat.lt_of_lt_of_le hlt hle)
      have hless := (hparts _ _ hl).2 ((h.lt_locate_iff hl).1 hlt)
      exact absurd hless (Nat.lt_irrefl _)

theorem monotone_locate (h : p.Ascending) : Monotone p.locate := by
  intro n n' hn
  by_contra hlt
  have hlt := Nat.lt_of_not_le hlt
  obtain ⟨line, hl⟩ := line?_of_lt_size (Nat.lt_of_lt_of_le hlt (p.locate_le_size n))
  have hless := (h.lt_locate_iff hl).1 hlt
  exact Nat.lt_irrefl _ ((h.lt_locate_iff hl).2 (Nat.lt_of_lt_of_le hless hn))

theorem locate_number (h : p.Ascending) (hl : p.line? a = some line) :
    p.locate line.number = a :=
  h.locate_eq_iff.2 ⟨Nat.le_of_lt (lt_size_of_line? hl), fun _ _ hb => h.lt_iff hb hl⟩

end Ascending

/-- At the address of a number stands the first line from that number on, if there is any. -/
theorem line?_locate_of_firstFrom {l : Listing} {n : Nat} {line : Line} (h : l.FirstFrom n line) :
    (ofListing l).line? ((ofListing l).locate n) = some line := by
  have hascending := ascending_ofListing l
  obtain ⟨a, ha⟩ := (exists_line?_iff l line).2 h.listed
  have hlocate : (ofListing l).locate n = a := by
    refine hascending.locate_eq_iff.2 ⟨Nat.le_of_lt (lt_size_of_line? ha), fun b other hb => ?_⟩
    rw [hascending.lt_iff hb ha]
    constructor
    · intro hlt
      by_contra hle
      have hleast := h.least other ((exists_line?_iff l other).1 ⟨b, hb⟩) (Nat.le_of_not_lt hle)
      exact Nat.lt_irrefl _ (Nat.lt_of_lt_of_le hlt hleast)
    · exact fun hlt => Nat.lt_of_lt_of_le hlt h.from_le
  rw [hlocate, ha]

theorem line?_locate_of_lt {l : Listing} {n : Nat}
    (h : ∀ line, l.get? line.number = some line → line.number < n) :
    (ofListing l).line? ((ofListing l).locate n) = none := by
  cases hl : (ofListing l).line? ((ofListing l).locate n) with
  | none => rfl
  | some line =>
    have hlt := (ascending_ofListing l).lt_locate_iff (n := n) hl
    exact absurd (hlt.2 (h line ((exists_line?_iff l line).1 ⟨_, hl⟩))) (Nat.lt_irrefl _)

end Program

/-- With these variables the line goes to the number `n`: it is a jump or a call there, or a
condition that holds with a jump there as its action. -/
inductive Line.GoesTo (vars : Store) (line : Line) (n : Nat) : Prop where
  | jump {operands : Text} (hi : Instruction.parse line.instruction = .ok ⟨.jump, operands⟩)
      (hn : target? operands = some n)
  | call {operands : Text} (hi : Instruction.parse line.instruction = .ok ⟨.call, operands⟩)
      (hn : target? operands = some n)
  | branch {body operands : Text} {c : Condition}
      (hi : Instruction.parse line.instruction = .ok ⟨.branch, body⟩)
      (hc : Condition.parse body = .ok c) (holds : c.test vars = .ok true)
      (ha : Instruction.parse c.action = .ok ⟨.jump, operands⟩) (hn : target? operands = some n)

namespace Machine

variable {m : Machine}

theorem jump_of_target {operands : Text} {n : Nat} (hn : Line.target? operands = some n) :
    m.jump operands = proceed (m.goTo n) := by
  simp only [jump, target, hn, attempt]

/-- A line that goes somewhere, and succeeds, has nothing to report; the counter is at the address
of the number, and nothing but the stack of calls has changed besides. -/
theorem runLine_of_goesTo {line : Line} {n : Nat} (h : line.GoesTo m.vars n)
    (hs : (Execution.mk m line).succeeded = true) : ∃ calls, m.runLine line =
      (none, { m.entered line with calls, counter := m.program.locate n }) := by
  suffices hout : ∃ calls, (m.entered line).carryOut line =
      proceed { m.entered line with calls, counter := m.program.locate n } by
    obtain ⟨calls, hout⟩ := hout
    exact ⟨calls, congrArg (settle line.number) hout⟩
  cases h with
  | jump hi hn =>
    refine ⟨m.calls, ?_⟩
    rw [carryOut_of_parse hi]
    exact jump_of_target hn
  | @branch body operands c hi hc holds ha hn =>
    have htest : c.test (m.entered line).vars = .ok true := holds
    refine ⟨m.calls, ?_⟩
    rw [carryOut_of_parse hi]
    simp only [obey, branch, hc, htest, attempt, act, ha, if_true]
    exact jump_of_target hn
  | @call operands hi hn =>
    have hcall : (m.entered line).carryOut line = (m.entered line).call operands :=
      carryOut_of_parse hi
    rw [Execution.succeeded, Execution.outcome, hcall] at hs
    rw [hcall]
    simp only [call, target, hn, attempt] at hs ⊢
    rcases (m.entered line).calls.push_cases (m.entered line).counter with ⟨-, hp⟩ | ⟨-, hp⟩
    · rw [hp]
      exact ⟨_, rfl⟩
    · rw [hp] at hs
      cases hs

/-- Whatever calls follow, the first line that they run is the one at the counter. -/
theorem line_of_head_history {calls : List Call} {x : Execution}
    (hx : x ∈ (m.history calls).head?) : m.program.line? m.counter = some x.line := by
  have hkept : Kept fun lines m' => (lines = [] → Quiet m m') ∧
      ∀ x ∈ lines.head?, m.program.line? m.counter = some x.line := by
    refine ⟨fun h hq => ⟨fun hnil => (h.1 hnil).trans hq, h.2⟩, fun {past x} h hready => ?_⟩
    refine ⟨by simp, fun y hy => ?_⟩
    cases past with
    | nil =>
      cases hy
      have hquiet := h.1 rfl
      rw [← hquiet.program_eq, ← hquiet.counter_eq]
      exact hready.line_eq
    | cons z past => exact h.2 y hy
  exact (@Kept.after _ [] m hkept ⟨fun _ => .refl m, by simp⟩ calls).2 x hx

theorem resume_of_running (hp : m.phase = .running) (hq : m.queued = none) :
    m.resume = (none, m) :=
  resume_of_idle ⟨hq, by simp [hp]⟩

/-- The line at the counter is the next one to run, in an execution that comes at once and in any
that comes later. -/
theorem runs_next (hp : m.phase = .running) {next : Line}
    (hl : m.program.line? m.counter = some next) : m.upcoming? = some ⟨m, next⟩ ∧
      (∀ later, ∀ x ∈ (m.history later).head?, x.line = next) ∧
      (m.queued = none → ∀ budget, (m.runHistory (budget + 1)).head? = some ⟨m, next⟩) := by
  refine ⟨by rw [upcoming?_of_running hp, hl]; rfl, fun later x hx => ?_, fun hq budget => ?_⟩
  · exact Option.some.inj ((line_of_head_history hx).symm.trans hl)
  · rw [(run_of_resume_none (resume_of_running hp hq) _).2, head_turnsHistory hp, hl]
    rfl

/-- Without a line at the counter no line runs any more. -/
theorem runs_out (hp : m.phase = .running) (hl : m.program.line? m.counter = none) :
    (∀ later, m.history later = []) ∧
      (m.queued = none → ∀ budget,
        m.run (budget + 1) = (.stopped, { m with phase := .halted })) := by
  refine ⟨fun later => ?_, fun hq budget => ?_⟩
  · refine List.head?_eq_none_iff.1 (Option.eq_none_iff_forall_not_mem.2 fun x hx => ?_)
    rw [line_of_head_history hx] at hl
    cases hl
  · have hstopped : m.turn = (some .stopped, { m with phase := .halted }) :=
      turn_of_upcoming_none (by rw [upcoming?_of_running hp, hl]; rfl)
    rw [(run_of_resume_none (resume_of_running hp hq) _).1, turns, hstopped]

/-- A program has the lines of its listing at ascending addresses, and a number has the one address
that parts the lines with smaller numbers from the others. Where a running machine carries out a
jump or a call, the next line it runs is the first one from that number on, whatever calls come in
between, and where there is none it runs no line any more and stops. -/
theorem jumps_land (l : Listing) :
    let p := Program.ofListing l
    (∀ a b x y, p.line? a = some x → p.line? b = some y → (a < b ↔ x.number < y.number)) ∧
    (∀ line, (∃ a, p.line? a = some line) ↔ l.get? line.number = some line) ∧
    (∀ n k, p.locate n = k ↔
      k ≤ p.size ∧ ∀ a line, p.line? a = some line → (a < k ↔ line.number < n)) ∧
    Monotone p.locate ∧
    (∀ a line, p.line? a = some line → p.locate line.number = a) ∧
    ∀ m, Reachable p m → m.phase = .running → ∀ line n, line.GoesTo m.vars n →
      (Execution.mk m line).succeeded = true →
      let landed := (m.runLine line).2
      (m.runLine line).1 = none ∧
      (∀ next, l.FirstFrom n next → landed.upcoming? = some ⟨landed, next⟩ ∧
        (∀ later, ∀ x ∈ (landed.history later).head?, x.line = next) ∧
        (m.queued = none → ∀ budget,
          (landed.runHistory (budget + 1)).head? = some ⟨landed, next⟩)) ∧
      ((∀ other, l.get? other.number = some other → other.number < n) →
        (∀ later, landed.history later = []) ∧
        (m.queued = none → ∀ budget,
          landed.run (budget + 1) = (.stopped, { landed with phase := .halted }))) := by
  intro p
  have hascending : p.Ascending := Program.ascending_ofListing l
  refine ⟨fun a b x y hx hy => hascending.lt_iff hx hy, Program.exists_line?_iff l,
    fun n k => hascending.locate_eq_iff, hascending.monotone_locate,
    fun a line hl => hascending.locate_number hl, ?_⟩
  intro m hm hp line n hto hs landed
  obtain ⟨calls, hrun⟩ := runLine_of_goesTo hto hs
  have hlanded : landed = { m.entered line with calls, counter := p.locate n } := by
    rw [← hm.sound.program_eq]
    exact congrArg Prod.snd hrun
  have hline : landed.program.line? landed.counter = p.line? (p.locate n) := by
    rw [hlanded, ← hm.sound.program_eq]
    rfl
  have hrunning : landed.phase = .running := by
    rw [hlanded]
    exact hp
  have hqueued (hq : m.queued = none) : landed.queued = none := by
    rw [hlanded]
    exact hq
  refine ⟨congrArg Prod.fst hrun, fun next hnext => ?_, fun hnone => ?_⟩
  · obtain ⟨hupcoming, hlater, hnow⟩ :=
      runs_next hrunning (hline.trans (Program.line?_locate_of_firstFrom hnext))
    exact ⟨hupcoming, hlater, fun hq => hnow (hqueued hq)⟩
  · obtain ⟨hlater, hnow⟩ := runs_out hrunning (hline.trans (Program.line?_locate_of_lt hnone))
    exact ⟨hlater, fun hq => hnow (hqueued hq)⟩

/-- A condition that leads between two lines, and a call that leads past the last one. -/
theorem jumps_land_between :
    let first : Line := ⟨10, "IF 1<2 THEN GOTO 15".toList⟩
    let second : Line := ⟨20, "GOSUB 4294967295".toList⟩
    let l := (Listing.empty.insert second).insert first
    let m := start (Program.ofListing l)
    let m' := m.after [.run 1]
    (Reachable (Program.ofListing l) m ∧
      ∀ budget, ((m.runLine first).2.runHistory (budget + 1)).head? =
        some ⟨(m.runLine first).2, second⟩) ∧
    (Reachable (Program.ofListing l) m' ∧
      ∀ budget, (m'.runLine second).2.run (budget + 1) =
        (.stopped, { (m'.runLine second).2 with phase := .halted })) := by
  intro first second l m m'
  have hm : Reachable (Program.ofListing l) m := ⟨[], rfl⟩
  have hm' : Reachable (Program.ofListing l) m' := ⟨[.run 1], rfl⟩
  have hlisted (other : Line) (h : l.get? other.number = some other) :
      first = other ∨ second = other := by
    rw [Listing.get?_insert, Listing.get?_insert, Listing.get?_empty] at h
    split at h
    · exact .inl (Option.some.inj h)
    · split at h
      · exact .inr (Option.some.inj h)
      · cases h
  have hi : Instruction.parse first.instruction =
      .ok ⟨.branch, "1<2 THEN GOTO 15".toList⟩ := by decide +kernel
  have hc : Condition.parse "1<2 THEN GOTO 15".toList =
      .ok ⟨"1".toList, .less, "2".toList, "GOTO 15".toList⟩ := by decide +kernel
  have ha : Instruction.parse "GOTO 15".toList = .ok ⟨.jump, "15".toList⟩ := by decide +kernel
  have hfirst : first.GoesTo m.vars 15 :=
    .branch hi hc (by decide +kernel) ha (by decide +kernel)
  have hi' : Instruction.parse second.instruction =
      .ok ⟨.call, "4294967295".toList⟩ := by decide +kernel
  have hsecond : second.GoesTo m'.vars 4294967295 := .call hi' (by decide +kernel)
  have hnext : l.FirstFrom 15 second := by
    refine ⟨by decide +kernel, by decide, fun other h hle => ?_⟩
    rcases hlisted other h with rfl | rfl
    · exact absurd hle (by decide)
    · exact Nat.le_refl _
  have hpast (other : Line) (h : l.get? other.number = some other) :
      other.number < 4294967295 := by
    rcases hlisted other h with rfl | rfl <;> decide
  obtain ⟨-, -, -, -, -, hland⟩ := jumps_land l
  refine ⟨⟨hm, ?_⟩, hm', ?_⟩
  · exact ((hland m hm rfl first 15 hfirst (by decide +kernel)).2.1 second hnext).2.2 rfl
  · have hp : m'.phase = .running := by decide +kernel
    have hq : m'.queued = none := by decide +kernel
    exact ((hland m' hm' hp second _ hsecond (by decide +kernel)).2.2 hpast).2 hq

end Machine
end LineScript
