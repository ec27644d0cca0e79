import LineScript.Session.Script
import LineScript.Proofs.Turns

/-!
A session does not show how its run is cut into slices. Between two events at the console a machine
only takes turns that report nothing, and a slice that ends among them is followed by another that
goes on at the same place; no interrupt can arrive there, because it arrives during a call.
-/
namespace LineScript
namespace Session

variable {σ : Type} {console : Console (StateM σ)} {budget : Nat} {s s' : Session} {w w' : σ}
  {r : Except Error Unit}

/-- The session ends with the given result, after finitely many steps. -/
def Returns (console : Console (StateM σ)) (budget : Nat) (s : Session) (w : σ)
    (r : Except Error Unit) (s' : Session) (w' : σ) : Prop :=
  ∃ fuel, run console budget fuel s w = ((some r, s'), w')

/-- Goes on from a point between two steps. -/
def runFrom (console : Console (StateM σ)) (budget fuel : Nat) : Progress × σ → Progress × σ
  | ((some r, s), w) => ((some r, s), w)
  | ((none, s), w) => run console budget fuel s w

def ReturnsFrom (console : Console (StateM σ)) (budget : Nat) (p : Progress × σ)
    (r : Except Error Unit) (s' : Session) (w' : σ) : Prop :=
  ∃ fuel, runFrom console budget fuel p = ((some r, s'), w')

theorem run_succ (console : Console (StateM σ)) (budget fuel : Nat) (s : Session) (w : σ) :
    run console budget (fuel + 1) s w =
      runFrom console budget fuel (step console budget s w) := by
  have hbind (x : StateM σ Progress) (f : Progress → StateM σ Progress) :
      (x >>= f) w = f (x w).1 (x w).2 := rfl
  rw [run, hbind]
  obtain ⟨⟨r, s⟩, w⟩ := step console budget s w
  cases r <;> rfl

/-- More fuel does not change a session that has ended. -/
theorem run_add {fuel : Nat} (h : (run console budget fuel s w).1.1 = some r) (more : Nat) :
    run console budget (fuel + more) s w = run console budget fuel s w := by
  induction fuel generalizing s w with
  | zero => cases h
  | succ fuel ih =>
    rw [Nat.succ_add]
    rw [run_succ] at h ⊢
    rw [run_succ]
    generalize step console budget s w = stepped at h
    obtain ⟨⟨ended, next⟩, w'⟩ := stepped
    cases ended with
    | some _ => rfl
    | none => exact ih h

/-- A session ends in one way. -/
theorem Returns.unique {r₁ r₂ : Except Error Unit} {s₁ s₂ : Session} {w₁ w₂ : σ}
    (h₁ : Returns console budget s w r₁ s₁ w₁) (h₂ : Returns console budget s w r₂ s₂ w₂) :
    r₁ = r₂ ∧ s₁ = s₂ ∧ w₁ = w₂ := by
  obtain ⟨a, ha⟩ := h₁
  obtain ⟨b, hb⟩ := h₂
  have hmore := run_add (congrArg (fun p => p.1.1) ha) b
  rw [Nat.add_comm, run_add (congrArg (fun p => p.1.1) hb) a, ha, hb] at hmore
  cases hmore
  exact ⟨rfl, rfl, rfl⟩

theorem returns_iff_returnsFrom : Returns console budget s w r s' w' ↔
    ReturnsFrom console budget (step console budget s w) r s' w' := by
  constructor
  · rintro ⟨fuel, h⟩
    cases fuel with
    | zero => cases h
    | succ fuel => exact ⟨fuel, run_succ console budget fuel s w ▸ h⟩
  · rintro ⟨fuel, h⟩
    exact ⟨fuel + 1, run_succ console budget fuel s w ▸ h⟩

/-- The machine after an interrupt that has arrived has taken effect. -/
def woken (s : Session) : Machine :=
  if s.interrupted then s.machine.interrupt else s.machine

theorem step_of_resume_some {event : Event} {m : Machine} (h : s.woken.resume = (some event, m)) :
    step console budget s = handle console event ⟨m, false⟩ := by
  have ha : s.advance budget = (event, ⟨m, false⟩) := by
    change (s.woken.run budget |>.1, Session.mk (s.woken.run budget).2 false) = _
    rw [Machine.run, h]
  rw [step, ha]

theorem step_of_resume_none {m : Machine} (h : s.woken.resume = (none, m)) :
    step console budget s = handle console (m.turns budget).1 ⟨(m.turns budget).2, false⟩ := by
  have ha : s.advance budget = ((m.turns budget).1, ⟨(m.turns budget).2, false⟩) := by
    change (s.woken.run budget |>.1, Session.mk (s.woken.run budget).2 false) = _
    rw [Machine.run, h]
  rw [step, ha]

theorem step_of_idle {m : Machine} (h : m.Idle) :
    step console budget ⟨m, false⟩ =
      handle console (m.turns budget).1 ⟨(m.turns budget).2, false⟩ :=
  step_of_resume_none (Machine.resume_of_idle h)

/-- A slice that reports nothing is followed by the next one. -/
theorem returns_of_running {m m' : Machine} (hm : m.Idle)
    (h : m.turns budget = (.running, m')) : Returns console budget ⟨m, false⟩ w r s' w' ↔
      Returns console budget ⟨m', false⟩ w r s' w' := by
  rw [returns_iff_returnsFrom, step_of_idle hm, h]
  rfl

/-- What a session comes to from an idle machine depends on the next event alone. -/
theorem returns_idle_iff (hb : 0 < budget) {m : Machine} (hm : m.Idle) :
    Returns console budget ⟨m, false⟩ w r s' w' ↔
      ∃ event m', m.Reports event m' ∧
        ReturnsFrom console budget (handle console event ⟨m', false⟩ w) r s' w' := by
  constructor
  · rintro ⟨fuel, h⟩
    induction fuel generalizing m with
    | zero => cases h
    | succ fuel ih =>
      by_cases hr : (m.turns budget).1 = .running
      · have ht : m.turns budget = (.running, (m.turns budget).2) := Prod.ext hr rfl
        rw [run_succ, step_of_idle hm, hr] at h
        obtain ⟨event, m', hrep, hret⟩ := ih (Machine.idle_of_turns hm hr) h
        exact ⟨event, m', hrep.of_turns ht, hret⟩
      · refine ⟨_, _, ⟨hr, budget, rfl⟩, ?_⟩
        rw [← step_of_idle hm]
        exact returns_iff_returnsFrom.1 ⟨fuel + 1, h⟩
  · rintro ⟨event, m', ⟨hne, count, hcount⟩, hret⟩
    -- on the turns up to the event: a slice that does not reach it takes at least one of them
    induction count using Nat.strongRecOn generalizing m with
    | ind count ih =>
      by_cases hr : (m.turns budget).1 = .running
      · have ht : m.turns budget = (.running, (m.turns budget).2) := Prod.ext hr rfl
        have hlt : budget < count := by
          refine Nat.lt_of_not_le fun hle => ?_
          obtain ⟨k, rfl⟩ := Nat.exists_eq_add_of_le hle
          rw [Machine.turns_add, hcount, if_neg hne] at hr
          exact hne hr
        obtain ⟨k, rfl⟩ := Nat.exists_eq_add_of_le (Nat.le_of_lt hlt)
        rw [Machine.turns_add, if_pos hr] at hcount
        rw [returns_of_running hm ht]
        exact ih k (by omega) (Machine.idle_of_turns hm hr) hcount
      · rw [returns_iff_returnsFrom, step_of_idle hm, Machine.Reports.turns_eq hne hcount hr]
        exact hret

theorem returns_of_budget {c d : Nat} (hd : 0 < d) (h : Returns console c s w r s' w') :
    Returns console d s w r s' w' := by
  obtain ⟨fuel, h⟩ := h
  induction fuel generalizing s w with
  | zero => cases h
  | succ fuel ih =>
    -- what a call at the console leads to is the same for both budgets
    have hgo {p : Progress × σ} (hp : runFrom console c fuel p = ((some r, s'), w')) :
        ReturnsFrom console d p r s' w' := by
      obtain ⟨⟨r₀, s₀⟩, w₀⟩ := p
      cases r₀ with
      | none => exact ih hp
      | some r₀ => exact ⟨fuel, hp⟩
    rw [run_succ] at h
    generalize hs : s.woken.resume = resumed at h
    obtain ⟨event, m⟩ := resumed
    cases event with
    | some event =>
      rw [step_of_resume_some hs] at h
      rw [returns_iff_returnsFrom, step_of_resume_some hs]
      exact hgo h
    | none =>
      have hm := Machine.idle_of_resume hs
      rw [step_of_resume_none hs] at h
      rw [returns_iff_returnsFrom, step_of_resume_none hs, ← step_of_idle hm,
        ← returns_iff_returnsFrom, returns_idle_iff hd hm]
      by_cases hr : (m.turns c).1 = .running
      · have ht : m.turns c = (.running, (m.turns c).2) := Prod.ext hr rfl
        rw [hr] at h
        obtain ⟨event, m', hrep, hret⟩ :=
          (returns_idle_iff hd (Machine.idle_of_turns hm hr)).1 (ih h)
        exact ⟨event, m', hrep.of_turns ht, hret⟩
      · exact ⟨_, _, ⟨hr, c, rfl⟩, hgo h⟩

end Session

/-- A call that a session makes at its console. -/
inductive ConsoleCall where
  | write (text : Text)
  | flush
  | readLine
  deriving DecidableEq

/-- The console with a record of the calls, the last one first. -/
def Console.recorded {σ : Type} (console : Console (StateM σ)) :
    Console (StateM (σ × List ConsoleCall)) where
  write := fun text (w, calls) =>
    let (reply, w) := console.write text w
    (reply, (w, .write text :: calls))
  flush := fun (w, calls) =>
    let (reply, w) := console.flush w
    (reply, (w, .flush :: calls))
  readLine := fun (w, calls) =>
    let (reply, w) := console.readLine w
    (reply, (w, .readLine :: calls))

namespace Session

/-- Whatever the console does, two budgets lead to the same result, the same calls in the same
order, and the same state of machine and console at the end. -/
theorem returns_recorded_iff {σ : Type} (console : Console (StateM σ)) (s : Session) (w : σ)
    {c d : Nat} (hc : 0 < c) (hd : 0 < d) (r : Except Error Unit) (s' : Session) (w' : σ)
    (calls : List ConsoleCall) :
    Returns console.recorded c s (w, []) r s' (w', calls) ↔
      Returns console.recorded d s (w, []) r s' (w', calls) :=
  ⟨returns_of_budget hd, returns_of_budget hc⟩

/-- A jump, a text and the end, in slices of one line and of five. -/
theorem returns_recorded_iff_jump :
    let program : Program := ⟨#[⟨10, "GOTO 20".toList⟩, ⟨20, "PRINTLN \"A\"".toList⟩]⟩
    let script : Script := ⟨[], none, none, none, [], 0, 0⟩
    let s : Session := ⟨Machine.start program, false⟩
    ∃ s' script', Returns Script.console.recorded 1 s (script, []) (.ok ()) s'
        (script', [.flush, .write "A\n".toList]) ∧
      Returns Script.console.recorded 5 s (script, []) (.ok ()) s'
        (script', [.flush, .write "A\n".toList]) := by
  intro program script s
  have hr : (run Script.console.recorded 1 3 s (script, [])).1.1.bind Except.toOption =
      some () := by decide +kernel
  have hcalls : (run Script.console.recorded 1 3 s (script, [])).2.2 =
      [.flush, .write "A\n".toList] := by decide +kernel
  generalize hout : run Script.console.recorded 1 3 s (script, []) = out at hr hcalls
  obtain ⟨⟨r, s'⟩, script', calls⟩ := out
  obtain rfl : r = some (.ok ()) := by
    match r, hr with
    | some (.ok ()), _ => rfl
  subst hcalls
  have h : Returns Script.console.recorded 1 s (script, []) (.ok ()) s' (script', _) := ⟨3, hout⟩
  exact ⟨s', script', h, (returns_recorded_iff Script.console s script (by decide) (by decide)
    (.ok ()) s' script' _).1 h⟩

end Session
end LineScript
