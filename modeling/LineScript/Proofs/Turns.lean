import LineScript.Proofs.Effect

/-!
The turns of a machine between two calls from outside. A machine that is idle, with nothing left
over, takes turns until one has something to report; how many it takes at a time makes no
difference to what is reported.
-/
namespace LineScript
namespace Machine

/-- An answer changes the phase alone, and halts nothing. -/
theorem exists_supply_eq (line : Text) (m : Machine) :
    ∃ phase, (phase = .halted ↔ m.phase = .halted) ∧ (m.supply line).2 = { m with phase } := by
  unfold supply
  split
  next number names answer hp => exact ⟨_, by simp [hp], rfl⟩
  next => exact ⟨m.phase, .rfl, rfl⟩

/-- Neither an event nor a request for input is left over. -/
def Idle (m : Machine) : Prop :=
  m.queued = none ∧ ∀ number names answer, m.phase ≠ .awaiting number names answer

/-- What settling the things left over can come to. -/
inductive Resumption (m : Machine) : Option Event × Machine → Prop where
  | reported {event : Event} (hq : m.queued = some event) :
      Resumption m (some event, { m with queued := none })
  | waiting {number : Nat} {names : List Text} (hq : m.queued = none)
      (hp : m.phase = .awaiting number names none) : Resumption m (some .input, m)
  | answered {number : Nat} {names : List Text} {line : Text} {vars : Store} (hq : m.queued = none)
      (hp : m.phase = .awaiting number names (some line))
      (ha : Answer.assign names line m.vars = .ok vars) :
      Resumption m (none, { m with phase := .running, vars })
  | rejected {number : Nat} {names : List Text} {line : Text} {e : Error} (hq : m.queued = none)
      (hp : m.phase = .awaiting number names (some line))
      (ha : Answer.assign names line m.vars = .error e) :
      Resumption m (some (.failed (e.inLine number)), { m with phase := .halted })
  | idle (hm : m.Idle) : Resumption m (none, m)

theorem resumption_resume (m : Machine) : Resumption m m.resume := by
  unfold resume
  split
  next event hq => exact .reported hq
  next hq =>
    split
    next number names hp => exact .waiting hq hp
    next number names line hp =>
      dsimp only [attempt]
      split
      next vars ha => exact .answered hq hp ha
      next e ha => exact .rejected hq hp ha
    next hnone hsome =>
      refine .idle ⟨hq, fun number names answer hp => ?_⟩
      cases answer with
      | none => exact hnone number names hp
      | some line => exact hsome number names line hp

theorem resume_of_idle {m : Machine} (h : m.Idle) : m.resume = (none, m) := by
  obtain ⟨hq, hp⟩ := h
  have hr := m.resumption_resume
  generalize m.resume = resumed at hr
  cases hr with
  | reported hq' => simp [hq] at hq'
  | waiting _ hp' => exact absurd hp' (hp _ _ _)
  | answered _ hp' => exact absurd hp' (hp _ _ _)
  | rejected _ hp' => exact absurd hp' (hp _ _ _)
  | idle => rfl

theorem resume_of_queued {m : Machine} {event : Event} (hq : m.queued = some event) :
    m.resume = (some event, { m with queued := none }) := by
  simp only [resume, hq]

theorem resume_of_waiting {m : Machine} {number : Nat} {names : List Text} (hq : m.queued = none)
    (hp : m.phase = .awaiting number names none) : m.resume = (some .input, m) := by
  simp only [resume, hq, hp]

theorem resume_of_answered {m : Machine} {number : Nat} {names : List Text} {line : Text}
    {vars : Store} (hq : m.queued = none) (hp : m.phase = .awaiting number names (some line))
    (ha : Answer.assign names line m.vars = .ok vars) :
    m.resume = (none, { m with phase := .running, vars }) := by
  simp only [resume, hq, hp, attempt, ha]
  rfl

theorem resume_of_rejected {m : Machine} {number : Nat} {names : List Text} {line : Text}
    {e : Error} (hq : m.queued = none) (hp : m.phase = .awaiting number names (some line))
    (ha : Answer.assign names line m.vars = .error e) :
    m.resume = (some (.failed (e.inLine number)), { m with phase := .halted }) := by
  simp only [resume, hq, hp, attempt, ha]
  rfl

theorem tracing_resume (m : Machine) : m.resume.2.tracing = m.tracing := by
  have hr := m.resumption_resume
  generalize m.resume = resumed at hr
  cases hr <;> rfl

theorem idle_of_resume {m m' : Machine} (h : m.resume = (none, m')) : m'.Idle := by
  have hr := m.resumption_resume
  rw [h] at hr
  cases hr with
  | answered hq => exact ⟨hq, by simp⟩
  | idle hm => exact hm

/-- The ways that a turn can go. -/
inductive Turn (m : Machine) : Option Event × Machine → Prop where
  | halted (hp : m.phase = .halted) : Turn m (some .stopped, m)
  | ranOut (hp : m.phase ≠ .halted) (hl : m.program.line? m.counter = none) :
      Turn m (some .stopped, { m with phase := .halted })
  | traced {line : Line} {event : Option Event} {m' : Machine} (hp : m.phase ≠ .halted)
      (hl : m.program.line? m.counter = some line) (hr : m.runLine line = (event, m'))
      (ht : m'.tracing = true) :
      Turn m (some (.print (mark line.number)), { m' with queued := event })
  | ran {line : Line} {event : Option Event} {m' : Machine} (hp : m.phase ≠ .halted)
      (hl : m.program.line? m.counter = some line) (hr : m.runLine line = (event, m'))
      (ht : m'.tracing = false) : Turn m (event, m')

theorem turn_turn (m : Machine) : Turn m m.turn := by
  unfold turn
  by_cases hp : m.phase = .halted
  · rw [if_pos (by simp [isHalted, hp])]
    exact .halted hp
  · rw [if_neg (by simp [isHalted, hp])]
    split
    next hl => exact .ranOut hp hl
    next line hl =>
      dsimp only
      split
      next ht => exact .traced hp hl rfl ht
      next ht => exact .ran hp hl rfl (by simpa using ht)

/-- The machine as a line finds it: the counter is at the next line already. -/
def entered (line : Line) (m : Machine) : Machine :=
  { m with counter := m.counter + 1, current := some line.number }

theorem carryOut_of_parse {m : Machine} {line : Line} {i : Instruction}
    (hi : Instruction.parse line.instruction = .ok i) :
    m.carryOut line = m.obey line.number i := by
  rw [carryOut, hi]
  rfl

/-- A line runs at the address after its own, and is the current one. -/
theorem effect_of_runLine (line : Line) (m : Machine) : ∃ o : Outcome,
    Effect line { m with counter := m.counter + 1, current := some line.number } o ∧
      m.runLine line = settle line.number o :=
  ⟨_, effect_carryOut line _, rfl⟩

theorem queued_settle (number : Nat) (o : Outcome) :
    (settle number o).2.queued = o.2.queued := by
  obtain ⟨r, m⟩ := o
  cases r <;> rfl

theorem tracing_settle (number : Nat) (o : Outcome) :
    (settle number o).2.tracing = o.2.tracing := by
  obtain ⟨r, m⟩ := o
  cases r <;> rfl

theorem queued_runLine (line : Line) (m : Machine) : (m.runLine line).2.queued = m.queued := by
  obtain ⟨o, he, ho⟩ := effect_of_runLine line m
  rw [ho, queued_settle, he.queued_eq]

theorem tracing_runLine (line : Line) (m : Machine) : (m.runLine line).2.tracing = m.tracing := by
  obtain ⟨o, he, ho⟩ := effect_of_runLine line m
  rw [ho, tracing_settle, he.tracing_eq]

theorem current_runLine (line : Line) (m : Machine) :
    (m.runLine line).2.current = some line.number := by
  obtain ⟨⟨r, after⟩, he, ho⟩ := effect_of_runLine line m
  have hcurrent : after.current = some line.number := he.current_eq
  rw [ho]
  cases r <;> exact hcurrent

theorem event_of_runLine {line : Line} {m : Machine} {event : Event}
    (h : (m.runLine line).1 = some event) :
    (∃ text, event = .print text) ∨ event = .input ∨ event = .ended ∨ ∃ e, event = .failed e := by
  obtain ⟨⟨r, after⟩, he, ho⟩ := effect_of_runLine line m
  rw [ho] at h
  cases r with
  | ok event' =>
    have hok : event' = some event := h
    rcases he.event_cases (congrArg Except.ok hok) with hprint | hinput | hended
    · exact .inl hprint
    · exact .inr (.inl hinput)
    · exact .inr (.inr (.inl hended))
  | error e =>
    cases h
    exact .inr (.inr (.inr ⟨_, rfl⟩))

/-- A machine is halted by a line that ends the program or fails. -/
theorem halted_runLine_iff {line : Line} {m : Machine} (hp : m.phase ≠ .halted) :
    (m.runLine line).2.phase = .halted ↔
      (m.runLine line).1 = some .ended ∨ ∃ e, (m.runLine line).1 = some (.failed e) := by
  obtain ⟨⟨r, after⟩, he, ho⟩ := effect_of_runLine line m
  have hhalted := he.halted_iff hp
  rw [ho]
  cases r with
  | ok event =>
    have hf (e : Error) : event ≠ some (.failed e) := fun h => he.ne_failed e (congrArg _ h)
    simpa [settle, hf] using hhalted
  | error e => simp [settle, haltWith]

theorem eq_of_settle_none {number : Nat} {o : Outcome} {m : Machine}
    (h : settle number o = (none, m)) : o = (.ok none, m) := by
  obtain ⟨r, m'⟩ := o
  cases r with
  | ok event =>
    cases h
    rfl
  | error e => cases h

theorem idle_of_turn {m m' : Machine} (hm : m.Idle) (h : m.turn = (none, m')) : m'.Idle := by
  have ht := m.turn_turn
  rw [h] at ht
  cases ht with
  | @ran line _ _ hp hl hr ht =>
    obtain ⟨o, he, ho⟩ := effect_of_runLine line m
    obtain rfl := eq_of_settle_none (ho.symm.trans hr)
    have hqueued : m'.queued = m.queued := he.queued_eq
    have hphase : m'.phase = m.phase := he.phase_eq rfl
    exact ⟨hqueued.trans hm.1, hphase ▸ hm.2⟩

/-- A spent budget is nothing that a line reports. -/
theorem runLine_ne_running (line : Line) (m : Machine) :
    (m.runLine line).1 ≠ some .running := by
  intro h
  simpa using event_of_runLine h

theorem turn_ne_running (m : Machine) : m.turn.1 ≠ some .running := by
  have ht := m.turn_turn
  generalize m.turn = turned at ht
  cases ht with
  | halted => simp
  | ranOut => simp
  | traced => simp
  | @ran line event m' hp hl hr ht =>
    have hne := runLine_ne_running line m
    rwa [hr] at hne

/-- A run of `a + b` turns goes on from where `a` turns stopped, unless these had something to
report. -/
theorem turns_add (a b : Nat) (m : Machine) :
    m.turns (a + b) = if (m.turns a).1 = .running then (m.turns a).2.turns b else m.turns a := by
  induction a generalizing m with
  | zero => simp [turns]
  | succ a ih =>
    rw [Nat.add_right_comm, turns, turns]
    have hr := m.turn_ne_running
    split
    next event m' h =>
      rw [h] at hr
      rw [if_neg (by simpa using hr)]
    next m' h => exact ih m'

theorem idle_of_turns {m : Machine} (hm : m.Idle) {budget : Nat}
    (h : (m.turns budget).1 = .running) : (m.turns budget).2.Idle := by
  induction budget generalizing m with
  | zero => exact hm
  | succ budget ih =>
    rw [turns] at h ⊢
    have hr := m.turn_ne_running
    split at h
    next event m' ht =>
      rw [ht] at hr
      simp_all
    next m' ht => exact ih (idle_of_turn hm ht) h

/-- The next event that the machine reports, however many turns that takes. -/
def Reports (m : Machine) (event : Event) (m' : Machine) : Prop :=
  event ≠ .running ∧ ∃ count, m.turns count = (event, m')

theorem Reports.of_turns {m m' m'' : Machine} {event : Event} {budget : Nat}
    (h : m.turns budget = (.running, m')) (hr : m'.Reports event m'') : m.Reports event m'' := by
  obtain ⟨hne, count, hcount⟩ := hr
  refine ⟨hne, budget + count, ?_⟩
  rw [turns_add, h, if_pos rfl, hcount]

/-- No count of turns reports anything else. -/
theorem Reports.turns_eq {m m' : Machine} {event : Event} {count budget : Nat}
    (hne : event ≠ .running) (h : m.turns count = (event, m'))
    (hb : (m.turns budget).1 ≠ .running) : m.turns budget = (event, m') := by
  rcases Nat.le_total count budget with hle | hle
  · obtain ⟨k, rfl⟩ := Nat.exists_eq_add_of_le hle
    rw [turns_add, h, if_neg hne]
  · obtain ⟨k, rfl⟩ := Nat.exists_eq_add_of_le hle
    rw [turns_add, if_neg hb] at h
    exact h

end Machine
end LineScript
