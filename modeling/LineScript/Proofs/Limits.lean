import LineScript.Proofs.Memory

/-!
What happens at the limits. A full store refuses every declaration, also that of a name which it
holds already and which would need no room. A full stack takes one more entry before it reports
that there is no room for it, and where two entries are asked for and there is one, that one is
gone; every other call that fails leaves the entries as they were.
-/
namespace LineScript

namespace Store

variable {s : Store}

theorem declare_of_full {x : Text} (hx : Name.isValid x = true) (h : capacity ≤ s.size) :
    s.declare x = .error (.of .outOfMemory) := by
  rw [declare, if_neg (by simp [hx]), if_pos h]

/-- New names are declared one after the other, as long as there is room for them. -/
theorem accessed_declare {names : List Text} (hnodup : names.Nodup)
    (hvalid : ∀ x ∈ names, Name.isValid x = true) (hnew : ∀ x ∈ names, s.contains x = false)
    (hroom : s.size + names.length ≤ capacity) :
    (s.accessed (names.map .declare)).size = s.size + names.length ∧
      ∀ x, (s.accessed (names.map .declare)).contains x =
        (decide (x ∈ names) || s.contains x) := by
  induction names generalizing s with
  | nil => exact ⟨rfl, fun x => by simp [accessed]⟩
  | cons name names ih =>
    obtain ⟨hname, hnodup⟩ := List.nodup_cons.1 hnodup
    obtain ⟨hvalid, hvalids⟩ := List.forall_mem_cons.1 hvalid
    obtain ⟨hfirst, hnew⟩ := List.forall_mem_cons.1 hnew
    rw [List.length_cons] at hroom
    obtain ⟨t, ht⟩ := declare_of_size_lt hvalid (show s.size < capacity by omega)
    obtain ⟨-, hsize⟩ := size_of_declare ht
    rw [hfirst, if_neg Bool.false_ne_true] at hsize
    have hnew' : ∀ x ∈ names, t.contains x = false := by
      intro x hx
      have hne : name ≠ x := fun heq => hname (heq ▸ hx)
      rw [contains_of_declare ht, hnew x hx, decide_eq_false hne, Bool.or_false]
    have hstep : (s.access (.declare name)).2 = t := by rw [access, ht]
    obtain ⟨hsizes, hcontains⟩ := ih hnodup hvalids hnew' (by omega)
    rw [List.map_cons, accessed, List.foldl_cons, hstep, ← accessed]
    refine ⟨by rw [hsizes, hsize, List.length_cons]; omega, fun x => ?_⟩
    rw [hcontains, contains_of_declare ht]
    by_cases hx : x ∈ names <;> by_cases heq : name = x <;> simp [hx, heq, eq_comm]

/-- The letter A and a number after it. -/
def numbered (n : Nat) : Text :=
  'A' :: Text.ofNat n

theorem isValid_numbered (n : Nat) : Name.isValid (numbered n) = true := by
  have hdigits : (Text.ofNat n).all Char.isDigit = true :=
    (Bool.and_eq_true_iff.1 (Text.isDigits_ofNat n)).2
  have hparts : (Text.ofNat n).all Name.isPart = true := by
    refine List.all_eq_true.2 fun c hc => ?_
    rw [Name.isPart, List.all_eq_true.1 hdigits c hc, Bool.or_true]
  rw [numbered, Name.isValid, hparts]
  rfl

theorem numbered_injective : Function.Injective numbered := by
  intro m n h
  have htext : Text.ofNat m = Text.ofNat n := (List.cons.inj h).2
  have hnumber := Text.natural?_ofNat m
  rw [htext, Text.natural?_ofNat] at hnumber
  exact (Option.some.inj hnumber).symm

/-- The calls that fill a new store with numbered names. -/
def filling (count : Nat) : List Access :=
  ((List.range count).map numbered).map .declare

theorem accessed_filling {count : Nat} (h : count ≤ capacity) :
    (empty.accessed (filling count)).size = count ∧
      ∀ n < count, (empty.accessed (filling count)).contains (numbered n) = true := by
  have hzero : empty.size = 0 := by simp [size, empty]
  have hnone (x : Text) : empty.contains x = false := by simp [contains, empty]
  have hlength : ((List.range count).map numbered).length = count := by simp
  obtain ⟨hsize, hcontains⟩ := accessed_declare (s := empty)
    (List.nodup_range.map numbered_injective)
    (List.forall_mem_map.2 fun n _ => isValid_numbered n) (fun x _ => hnone x)
    (by rwa [hzero, Nat.zero_add, hlength])
  rw [hzero, Nat.zero_add, hlength, ← filling] at hsize
  refine ⟨hsize, ?_⟩
  intro n hn
  have hmem : numbered n ∈ (List.range count).map numbered :=
    List.mem_map_of_mem (List.mem_range.2 hn)
  rw [filling, hcontains, decide_eq_true hmem, Bool.true_or]

/-- Whatever has been called on a new store: a name that is declared can be declared again as long
as the store is not full. The variable is then as a new one, there are as many as before, and no
other has changed. A full store refuses, and stays as it is. -/
theorem redeclare_resets_iff (calls : List Access) {x : Text}
    (hx : (empty.accessed calls).contains x = true) :
    let s := empty.accessed calls
    (s.size < 65536 → ∃ t, s.access (.declare x) = (.ok none, t) ∧ t.size = s.size ∧
      t.lookup? x = some ⟨.least, false⟩ ∧ ∀ y, y ≠ x → t.lookup? y = s.lookup? y) ∧
    (65536 ≤ s.size → s.size = 65536 ∧
      s.access (.declare x) = (.error (.of .outOfMemory), s)) := by
  intro s
  have hs : Remembers s (empty.successes calls) := Remembers.empty.accessed calls
  have hvalid : Name.isValid x = true := hs.valid x ((hs.contains_iff x).1 hx)
  constructor
  · intro hroom
    obtain ⟨t, ht⟩ := declare_of_size_lt hvalid hroom
    have hsize := (size_of_declare ht).2
    rw [if_pos hx] at hsize
    refine ⟨t, by rw [access, ht], hsize, ?_, ?_⟩
    · rw [lookup?_of_declare ht, if_pos rfl]
      rfl
    · intro y hy
      rw [lookup?_of_declare ht, if_neg (Ne.symm hy)]
  · intro hfull
    refine ⟨Nat.le_antisymm hs.size_le hfull, ?_⟩
    rw [access, declare_of_full hvalid hfull]

/-- A name that has been assigned to is declared again in a store with one other name, and one that
has not in a store with 65535 others. -/
theorem redeclare_resets_iff_assigned :
    let calls : List Access := [.declare "X".toList, .declare "Y".toList,
      .assign "X".toList ⟨1, by decide, by decide⟩]
    let s := empty.accessed calls
    let full := empty.accessed (filling 65536)
    (s.valueOf "X".toList = .ok ⟨1, by decide, by decide⟩ ∧
      ∃ t, s.access (.declare "X".toList) = (.ok none, t) ∧ t.size = 2 ∧
        t.lookup? "X".toList = some ⟨.least, false⟩) ∧
    full.size = 65536 ∧ full.contains "A65535".toList = true ∧
      full.access (.declare "A65535".toList) = (.error (.of .outOfMemory), full) := by
  intro calls s full
  have hsize : s.size = 2 := by decide +kernel
  obtain ⟨hreset, -⟩ := redeclare_resets_iff calls (x := "X".toList) (by decide +kernel)
  obtain ⟨t, ht, hsame, hfresh, -⟩ := hreset (by rw [hsize]; decide)
  have hlast : "A65535".toList = numbered 65535 := by decide +kernel
  obtain ⟨hfull, hnames⟩ := accessed_filling (Nat.le_refl 65536)
  have hcontains : full.contains "A65535".toList = true := hlast ▸ hnames 65535 (by decide)
  obtain ⟨-, hrefused⟩ := redeclare_resets_iff (filling 65536) hcontains
  exact ⟨⟨by decide +kernel, t, ht, hsame.trans hsize, hfresh⟩, hfull, hcontains,
    (hrefused hfull.ge).2⟩

/-- The first of 65536 names cannot be declared again. -/
theorem redeclare_refused :
    let s := empty.accessed (filling 65536)
    s.contains "A0".toList = true ∧ s.declare "A0".toList = .error (.of .outOfMemory) := by
  intro s
  obtain ⟨hfull, hnames⟩ := accessed_filling (Nat.le_refl 65536)
  have hfirst : "A0".toList = numbered 0 := by decide +kernel
  rw [hfirst]
  exact ⟨hnames 0 (by decide), declare_of_full (isValid_numbered 0) hfull.ge⟩

end Store

namespace Stack

variable {α : Type} {missing : Error} {s : Stack α}

/-- A call of a stack. -/
inductive Operation (α : Type) where
  | push (a : α)
  | pop
  | popPair
  deriving DecidableEq

/-- What a call gives back. -/
inductive Yield (α : Type) where
  | nothing
  | one (a : α)
  | two (lower upper : α)
  deriving DecidableEq

def overflow : Error :=
  .about .outOfMemory "STACK OVERFLOW".toList

/-- What a call gives back, and the stack that it leaves. -/
def operate (missing : Error) (s : Stack α) : Operation α → Except Error (Yield α) × Stack α
  | .push a =>
    let (r, s) := s.push a
    (r.map fun _ => .nothing, s)
  | .pop =>
    let (r, s) := s.pop missing
    (r.map .one, s)
  | .popPair =>
    let (r, s) := s.popPair missing
    (r.map fun (lower, upper) => .two lower upper, s)

/-- The stack after a sequence of calls, those that fail among them. -/
def operated (missing : Error) (s : Stack α) (calls : List (Operation α)) : Stack α :=
  calls.foldl (fun s c => (s.operate missing c).2) s

/-- What the calls give back, one after the other. -/
def yields (missing : Error) (s : Stack α) : List (Operation α) → List (Except Error (Yield α))
  | [] => []
  | c :: calls => (s.operate missing c).1 :: (s.operate missing c).2.yields missing calls

/-- The law of a list of at most 65535 entries, of which the last one in is the first one out: a
call fails for want of room or of entries, and then the list stays as it is. -/
inductive Lawful (missing : Error) :
    List α → Operation α → Except Error (Yield α) → List α → Prop where
  | pushed {a : α} {l : List α} (h : l.length < 65535) :
      Lawful missing l (.push a) (.ok .nothing) (a :: l)
  | full {a : α} {l : List α} (h : l.length = 65535) :
      Lawful missing l (.push a) (.error overflow) l
  | popped {a : α} {l : List α} : Lawful missing (a :: l) .pop (.ok (.one a)) l
  | empty : Lawful missing [] .pop (.error missing) []
  | poppedPair {a b : α} {l : List α} :
      Lawful missing (b :: a :: l) .popPair (.ok (.two a b)) l
  | tooFew {l : List α} (h : l.length < 2) : Lawful missing l .popPair (.error missing) l

/-- The law for a sequence of calls. -/
inductive LawfulRun (missing : Error) :
    List α → List (Operation α) → List (Except Error (Yield α)) → List α → Prop where
  | nil {l : List α} : LawfulRun missing l [] [] l
  | cons {l m n : List α} {c : Operation α} {r : Except Error (Yield α)}
      {calls : List (Operation α)} {rs : List (Except Error (Yield α))}
      (h : Lawful missing l c r m) (hs : LawfulRun missing m calls rs n) :
      LawfulRun missing l (c :: calls) (r :: rs) n

/-- The calls that fail and change the stack all the same: a push where there is no room, and one
that asks for two entries where there is one. -/
def spoils (s : Stack α) : Operation α → Bool
  | .push _ => 65535 ≤ s.size
  | .pop => false
  | .popPair => s.size = 1

/-- No call of the sequence spoils the stack that it finds. -/
def unspoiled (missing : Error) (s : Stack α) : List (Operation α) → Bool
  | [] => true
  | c :: calls => !s.spoils c && (s.operate missing c).2.unspoiled missing calls

theorem operate_push_of_lt (h : s.size < 65535) (a : α) :
    s.operate missing (.push a) = (.ok .nothing, s.cons a) := by
  rw [operate, push, if_pos (show s.size < capacity from h)]
  rfl

theorem operate_push_of_full (h : 65535 ≤ s.size) (a : α) :
    s.operate missing (.push a) = (.error overflow, s.cons a) := by
  rw [operate, push, if_neg (show ¬ s.size < capacity from Nat.not_lt.2 h)]
  rfl

theorem operate_popPair_of_one (h : s.size = 1) :
    s.operate missing .popPair = (.error missing, empty) := by
  obtain ⟨a, ha⟩ := List.length_eq_one_iff.1 (s.size_eq.symm.trans h)
  obtain rfl : s = ofList [a] := Stack.ext ha
  rfl

namespace Lawful

variable {l l' : List α} {c : Operation α} {r : Except Error (Yield α)}

theorem eq_of_error {e : Error} (h : Lawful missing l c (.error e) l') : l' = l := by
  cases h <;> rfl

theorem length_le (h : Lawful missing l c r l') (hl : l.length ≤ 65535) : l'.length ≤ 65535 := by
  cases h with
  | pushed hlt => exact hlt
  | full => exact hl
  | popped => exact Nat.le_of_succ_le hl
  | empty => exact hl
  | poppedPair => exact Nat.le_of_succ_le (Nat.le_of_succ_le hl)
  | tooFew => exact hl

end Lawful

theorem lawful_pop (missing : Error) (s : Stack α) : Lawful missing s.entries .pop
    (s.operate missing .pop).1 (s.operate missing .pop).2.entries := by
  rw [operate]
  rcases s.pop_cases missing with ⟨hnone, hp⟩ | ⟨a, t, rfl, hp⟩
  · rw [hp, hnone]
    exact .empty
  · rw [hp]
    exact .popped

theorem lawful_popPair (missing : Error) (h : s.size ≠ 1) : Lawful missing s.entries .popPair
    (s.operate missing .popPair).1 (s.operate missing .popPair).2.entries := by
  obtain ⟨entries, size, rfl⟩ := s
  match entries, h with
  | [], _ => exact .tooFew Nat.zero_lt_two
  | [a], h => exact absurd rfl h
  | b :: a :: rest, _ => exact .poppedPair

/-- A call keeps to the law exactly if it is none of the two kinds that spoil the stack. -/
theorem lawful_operate_iff (missing : Error) (s : Stack α) (c : Operation α) :
    Lawful missing s.entries c (s.operate missing c).1 (s.operate missing c).2.entries ↔
      s.spoils c = false := by
  cases c with
  | push a =>
    by_cases h : s.size < 65535
    · have hlawful : Lawful missing s.entries (.push a) (.ok .nothing) (a :: s.entries) :=
        .pushed (s.size_eq ▸ h)
      rw [operate_push_of_lt h]
      exact iff_of_true hlawful (decide_eq_false (Nat.not_le.2 h))
    · have hfull : 65535 ≤ s.size := Nat.le_of_not_lt h
      rw [operate_push_of_full hfull]
      -- A call that fails by the law leaves the list, and this one leaves a longer one.
      refine iff_of_false (fun hlawful => ?_) (by simpa [spoils] using hfull)
      exact List.cons_ne_self a s.entries hlawful.eq_of_error
  | pop => exact iff_of_true (lawful_pop missing s) rfl
  | popPair =>
    by_cases h : s.size = 1
    · rw [operate_popPair_of_one h]
      refine iff_of_false (fun hlawful => ?_) (by simpa [spoils] using h)
      have hnone : s.entries.length = 0 := by rw [← hlawful.eq_of_error]; rfl
      rw [← s.size_eq, h] at hnone
      cases hnone
    · exact iff_of_true (lawful_popPair missing h) (decide_eq_false h)

/-- As long as no call spoils the stack, the calls keep to the law. -/
theorem lawfulRun_operated (missing : Error) {s : Stack α} {calls : List (Operation α)}
    (h : s.unspoiled missing calls = true) :
    LawfulRun missing s.entries calls (s.yields missing calls)
      (s.operated missing calls).entries := by
  induction calls generalizing s with
  | nil => exact .nil
  | cons c calls ih =>
    obtain ⟨hfirst, hrest⟩ := Bool.and_eq_true_iff.1 h
    rw [Bool.not_eq_true'] at hfirst
    exact .cons ((lawful_operate_iff missing s c).2 hfirst) (ih hrest)

theorem LawfulRun.length_le {l l' : List α} {calls : List (Operation α)}
    {rs : List (Except Error (Yield α))} (h : LawfulRun missing l calls rs l')
    (hl : l.length ≤ 65535) : l'.length ≤ 65535 := by
  induction h with
  | nil => exact hl
  | cons h _ ih => exact ih (h.length_le hl)

/-- A push makes a stack larger by one, whether it succeeds or not. -/
theorem size_operated_replicate (missing : Error) (s : Stack α) (a : α) (count : Nat) :
    (s.operated missing (List.replicate count (.push a))).size = s.size + count := by
  induction count generalizing s with
  | zero => rfl
  | succ count ih =>
    have hstep : (s.operate missing (.push a)).2.size = s.size + 1 := rfl
    have hrest := ih (s.operate missing (.push a)).2
    rw [hstep, Nat.add_right_comm] at hrest
    exact hrest

/-- Whatever has been called on a new stack: the next call keeps to the law of a list of at most
65535 entries, unless it is a push where there are so many already or asks for two entries where
there is one. The push fails and leaves its entry on top, the other call fails and leaves nothing.
As long as there was neither, the calls keep to the law one and all, and there are no more entries
than it allows. -/
theorem lawful_unless_spoiled (missing : Error) (calls : List (Operation α)) :
    let s := (empty : Stack α).operated missing calls
    (∀ c, Lawful missing s.entries c (s.operate missing c).1 (s.operate missing c).2.entries ↔
      s.spoils c = false) ∧
    (∀ a, 65535 ≤ s.size → s.operate missing (.push a) = (.error overflow, s.cons a)) ∧
    (s.size = 1 → s.operate missing .popPair = (.error missing, empty)) ∧
    ((empty : Stack α).unspoiled missing calls = true →
      LawfulRun missing [] calls ((empty : Stack α).yields missing calls) s.entries ∧
        s.size ≤ 65535) := by
  intro s
  refine ⟨lawful_operate_iff missing s, fun a hfull => operate_push_of_full hfull a,
    operate_popPair_of_one, ?_⟩
  intro hcalls
  have hrun := lawfulRun_operated missing hcalls
  exact ⟨hrun, s.size_eq ▸ hrun.length_le (Nat.zero_le _)⟩

/-- A call that finds nothing, and two entries that are taken off together; the one below them is
left over, and lost when two are asked for again. -/
theorem lawful_unless_spoiled_pair :
    let missing := Error.of .stackEmpty
    let calls : List (Operation Nat) := [.popPair, .push 1, .push 2, .push 3, .popPair]
    let s := (empty : Stack Nat).operated missing calls
    LawfulRun missing [] calls
      [.error missing, .ok .nothing, .ok .nothing, .ok .nothing, .ok (.two 2 3)] [1] ∧
    Lawful missing [1] .pop (.ok (.one 1)) [] ∧
    s.operate missing .popPair = (.error missing, empty) := by
  intro missing calls s
  obtain ⟨hnext, -, hlost, hrun⟩ := lawful_unless_spoiled missing calls
  exact ⟨(hrun rfl).1, (hnext .pop).2 rfl, hlost rfl⟩

/-- Two calls that fail and do not leave the stack as it was: one asks for two entries of one, the
other is the last of 65536 pushes. -/
theorem failed_calls_change :
    let missing := Error.of .stackEmpty
    let one := (empty : Stack Nat).operated missing [.push 7]
    let full := (empty : Stack Nat).operated missing (List.replicate 65535 (.push 0))
    (one.entries = [7] ∧ (one.operate missing .popPair).1 = .error missing ∧
      (one.operate missing .popPair).2.entries = []) ∧
    full.size = 65535 ∧ (full.operate missing (.push 0)).1 = .error overflow ∧
      (full.operate missing (.push 0)).2.size = 65536 := by
  intro missing one full
  have hnone : (empty : Stack Nat).size = 0 := rfl
  -- The calls are kept as an equation: evaluated, they are 65535 entries.
  have hreplicate : full = operated missing empty (List.replicate 65535 (.push 0)) := rfl
  clear_value full
  have hfull : full.size = 65535 := by
    rw [hreplicate, size_operated_replicate, hnone, Nat.zero_add]
  rw [operate_push_of_full hfull.ge]
  exact ⟨⟨rfl, rfl, rfl⟩, hfull, rfl, congrArg (· + 1) hfull⟩

end Stack
end LineScript
