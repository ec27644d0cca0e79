import Mathlib.Data.List.SplitBy
import Mathlib.Data.List.TakeWhile
import LineScript.Command.World
import LineScript.Proofs.Answers

/-!
The files of a command are run one after the other, and each of them as if it were alone with the
input that those before it have left. What earlier programs have written, and the record that is
kept of the calls, are parts of the state that no call depends on; so runs from states that differ
in them only are alike. Over the whole command the input is read piece by piece.
-/
namespace LineScript

/-- From related states two computations give the same result, for which `Q` holds, and leave
related states. -/
def Alike {σ τ α : Type} (R : σ → τ → Prop) (Q : α → Prop) (x : StateM σ α) (y : StateM τ α) :
    Prop :=
  ∀ w w', R w w' → (x w).1 = (y w').1 ∧ Q (x w).1 ∧ R (x w).2 (y w').2

namespace Alike

variable {σ τ α β : Type} {R : σ → τ → Prop} {P : α → Prop} {Q : β → Prop}

theorem pure {a : α} (h : P a) : Alike R P (Pure.pure a) (Pure.pure a) := by
  intro w w' hw
  exact ⟨rfl, h, hw⟩

theorem bind {x : StateM σ α} {y : StateM τ α} {f : α → StateM σ β} {g : α → StateM τ β}
    (hx : Alike R P x y) (hf : ∀ a, P a → Alike R Q (f a) (g a)) :
    Alike R Q (x >>= f) (y >>= g) := by
  intro w w' hw
  obtain ⟨hresult, hp, hnext⟩ := hx w w' hw
  have hgo := hf _ hp _ _ hnext
  rw [Session.bind_apply, Session.bind_apply, ← hresult]
  exact hgo

end Alike

/-- The calls of two consoles are alike, and no interrupt arrives during them. -/
structure Console.Agree {σ τ : Type} (R : σ → τ → Prop) (C : Console (StateM σ))
    (D : Console (StateM τ)) : Prop where
  write : ∀ text, Alike R (fun reply => reply.raised = false) (C.write text) (D.write text)
  flush : Alike R (fun reply => reply.raised = false) C.flush D.flush
  readLine : Alike R (fun reply => reply.raised = false) C.readLine D.readLine

namespace Session

variable {σ τ : Type} {R : σ → τ → Prop} {C : Console (StateM σ)} {D : Console (StateM τ)}
  {s : Session}

/-- No interrupt is on its way. -/
def Calm (p : Progress) : Prop :=
  p.2.interrupted = false

theorem alike_receive {α : Type} {reply : Reply α} {next : α → Session → StateM σ Progress}
    {next' : α → Session → StateM τ Progress} (hr : reply.raised = false)
    (hs : s.interrupted = false)
    (h : ∀ a s, s.interrupted = false → Alike R Calm (next a s) (next' a s)) :
    Alike R Calm (receive reply s next) (receive reply s next') := by
  have hnote : (s.note reply.raised).interrupted = false := by simp [note, hs, hr]
  unfold receive
  cases reply.result with
  | ok a => exact h a _ hnote
  | error reason => exact .pure hnote

theorem alike_handle (h : C.Agree R D) (event : Event) (hs : s.interrupted = false) :
    Alike R Calm (handle C event s) (handle D event s) := by
  cases event with
  | print text =>
    apply (h.write text).bind
    intro written hwritten
    apply alike_receive hwritten hs
    intro _ s hs
    apply h.flush.bind
    intro flushed hflushed
    apply alike_receive hflushed hs
    intro _ s hs
    exact .pure hs
  | input =>
    apply h.readLine.bind
    intro read hread
    apply alike_receive hread hs
    intro line s hs
    apply Alike.pure
    cases line with
    | some text => exact hs
    | none => simp [Calm, goOn, answer, hs]
  | running => exact .pure hs
  | ended => exact .pure hs
  | stopped => exact .pure hs
  | failed e => exact .pure hs

/-- Sessions at consoles that agree are alike. -/
theorem alike_run (h : C.Agree R D) (budget fuel : Nat) (hs : s.interrupted = false) :
    Alike R Calm (run C budget fuel s) (run D budget fuel s) := by
  induction fuel generalizing s with
  | zero => exact .pure hs
  | succ fuel ih =>
    apply (alike_handle h _ rfl).bind
    intro p hp
    obtain ⟨r, s⟩ := p
    cases r with
    | some r => exact .pure hp
    | none => exact ih hp

end Session

namespace Text

/-- The bytes cut after each line feed. -/
def pieces (bytes : List UInt8) : List (List UInt8) :=
  bytes.splitBy fun b _ => b != 10

/-- Only the last byte of a piece may be a line feed. -/
theorem pieces_append {line tail rest : List UInt8} (hline : ∀ b ∈ line, b ≠ 10)
    (htail : tail.length ≤ 1) (hne : line ++ tail ≠ []) (hrest : rest ≠ [] → tail = [10]) :
    pieces (line ++ tail ++ rest) = (line ++ tail) :: pieces rest := by
  have hpairwise : (line ++ tail).Pairwise fun b _ => (b != 10) = true := by
    apply List.pairwise_append.2
    refine ⟨?_, ?_, ?_⟩
    · apply List.pairwise_of_forall_mem_list
      intro b hb _ _
      simpa using hline b hb
    · match tail, htail with
      | [], _ => exact .nil
      | [b], _ => exact List.pairwise_singleton _ b
    · intro b hb _ _
      simpa using hline b hb
  have hpiece : (line ++ tail).splitBy (fun b _ => b != 10) = [line ++ tail] :=
    List.splitBy_of_isChain hne hpairwise.isChain
  unfold pieces
  rw [List.splitBy_append, hpiece]
  · rfl
  · intro b hb c hc
    have htail : tail = [10] := hrest (List.ne_nil_of_mem (List.mem_of_mem_head? hc))
    rw [htail, List.getLast?_concat] at hb
    cases hb
    rfl

/-- Reading a line takes the first piece. -/
theorem pieces_eq_cons {bytes : List UInt8} (h : bytes ≠ []) :
    pieces bytes = (cutLine bytes).1 :: pieces (cutLine bytes).2 := by
  let isInside : UInt8 → Bool := fun b => b != 10
  have hline : ∀ b ∈ bytes.takeWhile isInside, b ≠ 10 := by
    intro b hb
    have hb : isInside b = true := List.mem_takeWhile_imp hb
    simpa [isInside] using hb
  have hrest : (bytes.dropWhile isInside).drop 1 ≠ [] →
      (bytes.dropWhile isInside).take 1 = [10] := by
    intro hrest
    have hhead := List.head?_dropWhile_not isInside bytes
    cases hdrop : bytes.dropWhile isInside with
    | nil => simp [hdrop] at hrest
    | cons b rest => simpa [hdrop, isInside] using hhead
  have hsplit : bytes.takeWhile isInside ++ (bytes.dropWhile isInside).take 1 ++
      (bytes.dropWhile isInside).drop 1 = bytes := by
    rw [List.append_assoc, List.take_append_drop, List.takeWhile_append_dropWhile]
  have hne : bytes.takeWhile isInside ++ (bytes.dropWhile isInside).take 1 ≠ [] := by
    intro hnil
    obtain ⟨htake, hdrop⟩ := List.append_eq_nil_iff.1 hnil
    have hdrop : bytes.dropWhile isInside = [] := by simpa using hdrop
    apply h
    rw [← hsplit, htake, hdrop]
    rfl
  have hpieces := pieces_append hline (List.length_take_le 1 _) hne hrest
  rw [hsplit] at hpieces
  exact hpieces

example : pieces [65, 10, 10, 66] = [[65, 10], [10], [66]] := by decide

theorem pieces_cutLine (bytes : List UInt8) :
    pieces (cutLine bytes).2 = (pieces bytes).tail := by
  cases bytes with
  | nil => rfl
  | cons b bytes => rw [pieces_eq_cons (List.cons_ne_nil b bytes), List.tail_cons]

end Text

theorem readings_append (log old : List Exchange) :
    readings (log ++ old) = readings old ++ readings log := by
  simp [readings]

namespace Command

/-- The calls of two systems are alike. -/
structure System.Agree {σ τ : Type} (R : σ → τ → Prop) (S : System (StateM σ))
    (T : System (StateM τ)) : Prop where
  console : S.console.Agree R T.console
  readFile : ∀ path, Alike R (fun _ => True) (S.readFile path) (T.readFile path)
  say : ∀ text, Alike R (fun _ => True) (S.say text) (T.say text)
  complain : ∀ text, Alike R (fun _ => True) (S.complain text) (T.complain text)

/-- The system with a record of the calls at its console. -/
def System.logged {σ : Type} (system : System (StateM σ)) :
    System (StateM (σ × List Exchange)) where
  console := system.console.logged
  readFile := fun path (w, log) =>
    let (loaded, w) := system.readFile path w
    (loaded, (w, log))
  say := fun text (w, log) =>
    let (_, w) := system.say text w
    ((), (w, log))
  complain := fun text (w, log) =>
    let (_, w) := system.complain text w
    ((), (w, log))

section Agree

variable {σ τ : Type} {R : σ → τ → Prop} {S : System (StateM σ)} {T : System (StateM τ)}

theorem alike_runFile (h : S.Agree R T) (options : Options) (fuel : Nat) (path : Text) :
    Alike R (fun p => p.2 = false) (runFile S options fuel false path)
      (runFile T options fuel false path) := by
  apply (h.readFile path).bind
  intro loaded _
  cases machine options path loaded with
  | error e => exact .pure rfl
  | ok machine =>
    apply (Session.alike_run h.console options.budget fuel rfl).bind
    intro p hp
    exact .pure hp

theorem alike_runFiles (h : S.Agree R T) (options : Options) (fuel : Nat) (files : List Text) :
    Alike R (fun _ => True) (runFiles S options fuel false files)
      (runFiles T options fuel false files) := by
  induction files with
  | nil => exact .pure trivial
  | cons path files ih =>
    apply (alike_runFile h options fuel path).bind
    rintro ⟨r, interrupted⟩ rfl
    match r with
    | some (.ok ()) => exact ih
    | some (.error _) => exact .pure trivial
    | none => exact .pure trivial

/-- Systems that agree lead to the same exit code. -/
theorem alike_command (h : S.Agree R T) (fuel : Nat) (request : Request) :
    Alike R (fun _ => True) (run S fuel request) (run T fuel request) := by
  cases request with
  | help => exact (h.say usage).bind fun _ _ => .pure trivial
  | version => exact (h.say version).bind fun _ _ => .pure trivial
  | misuse => exact (h.complain usage).bind fun _ _ => .pure trivial
  | run files options =>
    apply (alike_runFiles h options fuel files).bind
    intro r _
    match r with
    | none => exact .pure trivial
    | some (.ok ()) => exact .pure trivial
    | some (.error e) => exact (h.complain _).bind fun _ _ => .pure trivial

end Agree

namespace World

/-- What the console gives for the next piece of the input, and without one at its end. -/
def reading : Option (List UInt8) → Reply (Option Text)
  | none => .ok none
  | some piece =>
    match Text.decode? piece with
    | some text => .ok (some text)
    | none => ⟨.error Text.badEncoding, false⟩

theorem raised_reading (piece : Option (List UInt8)) : (reading piece).raised = false := by
  unfold reading
  split
  · rfl
  · split <;> rfl

theorem readLine_eq (w : World) : readLine w =
    (reading (Text.pieces w.input).head?, { w with input := (Text.cutLine w.input).2 }) := by
  obtain ⟨disk, input, output, complaints⟩ := w
  cases input with
  | nil => rfl
  | cons b bytes =>
    rw [Text.pieces_eq_cons (List.cons_ne_nil b bytes), List.head?_cons]
    unfold readLine reading
    rw [if_neg (by simp)]
    dsimp only
    cases Text.decode? (Text.cutLine (b :: bytes)).1 <;> rfl

/-- The calls for a line have been answered with the pieces of the input in their order, and the
other pieces are left. -/
structure Consumed (input : List UInt8) (log : List Exchange) (w : World) : Prop where
  reads : ∀ (k : Nat) reply, (readings log)[k]? = some reply →
    reply = reading (Text.pieces input)[k]?
  rest : Text.pieces w.input = (Text.pieces input).drop (readings log).length

namespace Consumed

variable {input : List UInt8} {log : List Exchange} {w : World}

theorem start (disk : Disk) (input : List UInt8) : Consumed input [] (World.start disk input) :=
  ⟨nofun, rfl⟩

/-- Only a call for a line reads. -/
theorem quiet {x : Exchange} {w' : World} (h : Consumed input log w) (hx : x.reading? = none)
    (hw : w'.input = w.input) : Consumed input (x :: log) w' := by
  have hreadings : readings (x :: log) = readings log := by
    rw [readings_cons, hx]
    exact List.append_nil _
  constructor
  · rw [hreadings]
    exact h.reads
  · rw [hreadings, hw]
    exact h.rest

theorem readLine (h : Consumed input log w) :
    Consumed input (.readLine (readLine w).1 :: log) (World.readLine w).2 := by
  have hnext : (Text.pieces w.input).head? = (Text.pieces input)[(readings log).length]? := by
    rw [h.rest, List.head?_drop]
  rw [readLine_eq, hnext]
  have hreadings := readings_cons
    (.readLine (reading (Text.pieces input)[(readings log).length]?)) log
  rw [Exchange.reading?, Option.toList_some] at hreadings
  constructor
  · intro k reply hk
    rw [hreadings] at hk
    rcases Nat.lt_or_ge k (readings log).length with hlt | hge
    · rw [List.getElem?_append_left hlt] at hk
      exact h.reads k reply hk
    · obtain ⟨hlt, -⟩ := List.getElem?_eq_some_iff.1 hk
      rw [List.length_append, List.length_singleton] at hlt
      obtain rfl : k = (readings log).length := by omega
      rw [List.getElem?_concat_length] at hk
      cases hk
      rfl
  · rw [hreadings, Text.pieces_cutLine, h.rest, List.tail_drop, List.length_append,
      List.length_singleton]

end Consumed

/-- The record of the calls changes nothing, and it tells which pieces of the input are read. -/
theorem agree_logged (input : List UInt8) :
    system.logged.Agree (fun p w => p.1 = w ∧ Consumed input p.2 w) system := by
  constructor
  · constructor
    · rintro text ⟨w, log⟩ _ ⟨rfl, hw⟩
      exact ⟨rfl, rfl, rfl, hw.quiet rfl rfl⟩
    · rintro ⟨w, log⟩ _ ⟨rfl, hw⟩
      exact ⟨rfl, rfl, rfl, hw.quiet rfl rfl⟩
    · rintro ⟨w, log⟩ _ ⟨rfl, hw⟩
      refine ⟨rfl, ?_, rfl, hw.readLine⟩
      show (World.readLine w).1.raised = false
      rw [readLine_eq]
      exact raised_reading _
  · rintro path ⟨w, log⟩ _ ⟨rfl, hw⟩
    exact ⟨rfl, trivial, rfl, hw⟩
  · rintro text ⟨w, log⟩ _ ⟨rfl, hw⟩
    exact ⟨rfl, trivial, rfl, ⟨hw.reads, hw.rest⟩⟩
  · rintro text ⟨w, log⟩ _ ⟨rfl, hw⟩
    exact ⟨rfl, trivial, rfl, ⟨hw.reads, hw.rest⟩⟩

/-- The second state is the first one, that of a file by itself, with an earlier output and record
before its own. -/
structure Later (disk : Disk) (output : List Text) (old : List Exchange)
    (p q : World × List Exchange) : Prop where
  world_eq : q.1 = { p.1 with output := p.1.output ++ output }
  log_eq : q.2 = p.2 ++ old
  disk_eq : p.1.disk = disk
  complaints_eq : p.1.complaints = []

/-- What has been written and recorded makes no difference at the console. -/
theorem agree_later (disk : Disk) (output : List Text) (old : List Exchange) :
    console.logged.Agree (Later disk output old) console.logged := by
  constructor
  · rintro text ⟨w, log⟩ ⟨_, _⟩ ⟨rfl, rfl, hdisk, hcomplaints⟩
    exact ⟨rfl, rfl, rfl, rfl, hdisk, hcomplaints⟩
  · rintro ⟨w, log⟩ ⟨_, _⟩ ⟨rfl, rfl, hdisk, hcomplaints⟩
    exact ⟨rfl, rfl, rfl, rfl, hdisk, hcomplaints⟩
  · rintro ⟨w, log⟩ ⟨_, _⟩ ⟨rfl, rfl, hdisk, hcomplaints⟩
    dsimp only [Console.logged, console]
    rw [readLine_eq, readLine_eq]
    exact ⟨rfl, raised_reading _, rfl, rfl, hdisk, hcomplaints⟩

end World

/-- What has come of one or more programs. -/
structure Outcome where
  /-- How the last one has ended, if it has. -/
  result : Option (Except Error Unit)
  written : Text
  readings : List (Reply (Option Text))
  /-- The input that has not been read. -/
  rest : List UInt8

namespace Outcome

/-- Before the first program. -/
def start (input : List UInt8) : Outcome :=
  ⟨some (.ok ()), [], [], input⟩

/-- A program that is not run. -/
def failed (e : Error) (input : List UInt8) : Outcome :=
  ⟨some (.error e), [], [], input⟩

/-- A program that is run. -/
def ran (p : Session.Progress × (World × List Exchange)) : Outcome :=
  ⟨p.1.1, p.2.1.written, LineScript.readings p.2.2, p.2.1.input⟩

/-- Goes on with the input that is left, unless there was a failure. -/
def andThen (o : Outcome) (next : List UInt8 → Outcome) : Outcome :=
  match o.result with
  | some (.ok ()) =>
    let p := next o.rest
    ⟨p.result, o.written ++ p.written, o.readings ++ p.readings, p.rest⟩
  | _ => o

end Outcome

/-- A file run by itself: a new machine with the given input. -/
def alone (disk : Disk) (options : Options) (fuel : Nat) (path : Text) (input : List UInt8) :
    Outcome :=
  match source path (disk.read path) with
  | .error e => .failed e input
  | .ok text =>
    match Listing.parse text with
    | .error e => .failed e input
    | .ok listing =>
      let fresh := (Machine.start (Program.ofListing listing)).trace options.tracing
      .ran (Session.run World.console.logged options.budget fuel ⟨fresh, false⟩
        (World.start disk input, []))

/-- The files run by themselves from left to right, up to the first failure. -/
def inTurn (disk : Disk) (options : Options) (fuel : Nat) (files : List Text)
    (input : List UInt8) : Outcome :=
  files.foldl (fun o path => o.andThen (alone disk options fuel path)) (.start input)

def exitCode : Except Error Unit → Nat
  | .ok () => 0
  | .error _ => 1

/-- The lines on standard error. -/
def report : Option (Except Error Unit) → List Text
  | some (.error e) => ['?' :: e.message]
  | some (.ok ()) | none => []

namespace Outcome

variable {o : Outcome}

theorem andThen_of_ok (h : o.result = some (.ok ())) (next : List UInt8 → Outcome) :
    o.andThen next = ⟨(next o.rest).result, o.written ++ (next o.rest).written,
      o.readings ++ (next o.rest).readings, (next o.rest).rest⟩ := by
  rw [andThen, h]

theorem andThen_of_not_ok (h : o.result ≠ some (.ok ())) (next : List UInt8 → Outcome) :
    o.andThen next = o := by
  unfold andThen
  split
  next hok => exact absurd hok h
  next => rfl

/-- After a failure no file is run. -/
theorem foldl_andThen_of_not_ok (h : o.result ≠ some (.ok ())) (files : List Text)
    (next : Text → List UInt8 → Outcome) :
    files.foldl (fun o path => o.andThen (next path)) o = o := by
  induction files with
  | nil => rfl
  | cons path files ih => rw [List.foldl_cons, andThen_of_not_ok h, ih]

end Outcome

/-- The state of the world after programs with the given outcome. -/
structure Shows (disk : Disk) (o : Outcome) (p : World × List Exchange) : Prop where
  disk_eq : p.1.disk = disk
  complaints_eq : p.1.complaints = []
  written_eq : p.1.written = o.written
  readings_eq : readings p.2 = o.readings
  rest_eq : p.1.input = o.rest

section

variable {disk : Disk} {o : Outcome} {p : World × List Exchange}

theorem shows_start (disk : Disk) (input : List UInt8) :
    Shows disk (.start input) (World.start disk input, []) :=
  ⟨rfl, rfl, rfl, rfl, rfl⟩

/-- A session after others comes to what it comes to by itself. -/
theorem session_shows (h : Shows disk o p) (ho : o.result = some (.ok ())) (budget fuel : Nat)
    (m : Machine) :
    let next := o.andThen fun input =>
      .ran (Session.run World.console.logged budget fuel ⟨m, false⟩ (World.start disk input, []))
    ∃ s p', Session.run World.console.logged budget fuel ⟨m, false⟩ p = ((next.result, s), p') ∧
      s.interrupted = false ∧ Shows disk next p' := by
  have hlater : World.Later disk p.1.output p.2 (World.start disk o.rest, []) p := by
    obtain ⟨⟨_, _, _, _⟩, _⟩ := p
    obtain ⟨rfl, rfl, -, -, rfl⟩ := h
    exact ⟨rfl, rfl, rfl, rfl⟩
  have hagree := World.agree_later disk p.1.output p.2
  obtain ⟨hresult, hcalm, hworld, hlog, hdisk, hcomplaints⟩ :=
    Session.alike_run (s := ⟨m, false⟩) hagree budget fuel rfl _ _ hlater
  rw [Outcome.andThen_of_ok ho]
  -- from here on only the two final states and their relation matter
  generalize Session.run World.console.logged budget fuel ⟨m, false⟩
    (World.start disk o.rest, []) = fresh at hresult hcalm hworld hlog hdisk hcomplaints
  generalize Session.run World.console.logged budget fuel ⟨m, false⟩ p = later
    at hresult hworld hlog
  obtain ⟨_, ⟨_, _⟩⟩ := later
  obtain rfl := hresult
  obtain rfl := hworld
  obtain rfl := hlog
  refine ⟨_, _, rfl, hcalm, hdisk, hcomplaints, ?_, ?_, rfl⟩
  · rw [← h.written_eq]
    simp [World.written, Outcome.ran]
  · rw [← h.readings_eq]
    exact readings_append _ _

theorem alone_of_error {options : Options} {path : Text} {e : Error}
    (h : machine options path (disk.read path) = .error e) (fuel : Nat) :
    alone disk options fuel path = .failed e := by
  unfold alone
  unfold machine at h
  cases hsource : source path (disk.read path) with
  | error e' =>
    rw [hsource] at h
    cases h
    rfl
  | ok text =>
    rw [hsource] at h
    dsimp only [bind, Except.bind] at h ⊢
    cases hparse : Listing.parse text with
    | error e' =>
      rw [hparse] at h
      cases h
      rfl
    | ok listing =>
      rw [hparse] at h
      cases h

theorem alone_of_ok {options : Options} {path : Text} {m : Machine}
    (h : machine options path (disk.read path) = .ok m) (fuel : Nat) :
    alone disk options fuel path = fun input => .ran (Session.run World.console.logged
      options.budget fuel ⟨m, false⟩ (World.start disk input, [])) := by
  obtain ⟨text, hsource, hrest⟩ := Error.exists_of_bind_ok h
  obtain ⟨listing, hparse, hm⟩ := Error.exists_of_bind_ok hrest
  cases hm
  unfold alone
  rw [hsource]
  dsimp only
  rw [hparse]

theorem runFile_shows (h : Shows disk o p) (ho : o.result = some (.ok ())) (options : Options)
    (fuel : Nat) (path : Text) :
    let next := o.andThen (alone disk options fuel path)
    ∃ p', runFile World.system.logged options fuel false path p = ((next.result, false), p') ∧
      Shows disk next p' := by
  have hread : World.system.logged.readFile path p = (disk.read path, p) := by
    rw [← h.disk_eq]
    rfl
  rw [runFile, Session.bind_apply, hread]
  dsimp only
  cases hmachine : machine options path (disk.read path) with
  | error e =>
    rw [alone_of_error hmachine, Outcome.andThen_of_ok ho]
    refine ⟨p, rfl, h.disk_eq, h.complaints_eq, ?_, ?_, h.rest_eq⟩
    · exact h.written_eq.trans (List.append_nil _).symm
    · exact h.readings_eq.trans (List.append_nil _).symm
  | ok m =>
    rw [alone_of_ok hmachine]
    obtain ⟨s, p', hrun, hs, hnext⟩ := session_shows h ho options.budget fuel m
    have hrun : Session.run World.system.logged.console options.budget fuel ⟨m, false⟩ p = _ :=
      hrun
    refine ⟨p', ?_, hnext⟩
    dsimp only
    rw [Session.bind_apply, hrun, ← hs]
    rfl

theorem runFiles_shows (h : Shows disk o p) (ho : o.result = some (.ok ())) (options : Options)
    (fuel : Nat) (files : List Text) :
    let last := files.foldl (fun o path => o.andThen (alone disk options fuel path)) o
    ∃ p', runFiles World.system.logged options fuel false files p = (last.result, p') ∧
      Shows disk last p' := by
  induction files generalizing o p with
  | nil => exact ⟨p, by rw [List.foldl_nil, ho]; rfl, h⟩
  | cons path files ih =>
    intro last
    obtain ⟨p', hfile, hnext⟩ := runFile_shows h ho options fuel path
    rw [runFiles, Session.bind_apply, hfile]
    dsimp only [last]
    rw [List.foldl_cons]
    generalize o.andThen (alone disk options fuel path) = next at hnext
    match hr : next.result with
    | some (.ok ()) => exact ih hnext hr
    | some (.error e) =>
      rw [Outcome.foldl_andThen_of_not_ok (by simp [hr])]
      exact ⟨p', by rw [hr]; rfl, hnext⟩
    | none =>
      rw [Outcome.foldl_andThen_of_not_ok (by simp [hr])]
      exact ⟨p', by rw [hr]; rfl, hnext⟩

variable {options : Options} {fuel : Nat} {files : List Text} {input : List UInt8}
  {r : Except Error Unit}

/-- More fuel does not change a program that has ended. -/
theorem alone_add {path : Text} (h : (alone disk options fuel path input).result = some r)
    (more : Nat) :
    alone disk options (fuel + more) path input = alone disk options fuel path input := by
  cases hmachine : machine options path (disk.read path) with
  | error e => rw [alone_of_error hmachine, alone_of_error hmachine]
  | ok m =>
    rw [alone_of_ok hmachine] at h
    rw [alone_of_ok hmachine, alone_of_ok hmachine]
    dsimp only
    rw [Session.run_add h]

theorem inTurn_concat (path : Text) : inTurn disk options fuel (files ++ [path]) input =
    (inTurn disk options fuel files input).andThen (alone disk options fuel path) := by
  rw [inTurn, List.foldl_append]
  rfl

theorem inTurn_add (h : (inTurn disk options fuel files input).result = some r) (more : Nat) :
    inTurn disk options (fuel + more) files input = inTurn disk options fuel files input := by
  induction files using List.reverseRecOn generalizing r with
  | nil => rfl
  | append_singleton files path ih =>
    rw [inTurn_concat] at h
    rw [inTurn_concat, inTurn_concat]
    by_cases hok : (inTurn disk options fuel files input).result = some (.ok ())
    · rw [Outcome.andThen_of_ok hok] at h
      rw [ih hok, Outcome.andThen_of_ok hok, Outcome.andThen_of_ok hok, alone_add h]
    · rw [Outcome.andThen_of_not_ok hok] at h
      rw [ih h, Outcome.andThen_of_not_ok hok, Outcome.andThen_of_not_ok hok]

/-- All files succeed if each of them does with the input that those before it have left. -/
theorem result_inTurn_eq_ok_iff : (inTurn disk options fuel files input).result = some (.ok ()) ↔
    ∀ before path after, files = before ++ path :: after →
      (alone disk options fuel path (inTurn disk options fuel before input).rest).result =
        some (.ok ()) := by
  induction files using List.reverseRecOn with
  | nil => simp [inTurn, Outcome.start]
  | append_singleton files path ih =>
    rw [inTurn_concat]
    constructor
    · intro h before path' after hfiles
      have hok : (inTurn disk options fuel files input).result = some (.ok ()) := by
        by_contra hne
        rw [Outcome.andThen_of_not_ok hne] at h
        exact hne h
      obtain ⟨rfl, rfl, rfl⟩ | ⟨earlier, rfl, hsplit⟩ := Machine.split_of_concat hfiles
      · rw [Outcome.andThen_of_ok hok] at h
        exact h
      · exact ih.1 hok _ _ _ hsplit
    · intro h
      have hok : (inTurn disk options fuel files input).result = some (.ok ()) := by
        apply ih.2
        intro before path' after hfiles
        apply h before path' (after ++ [path])
        rw [hfiles, List.append_assoc, List.cons_append]
      rw [Outcome.andThen_of_ok hok]
      exact h files path [] rfl

/-- The command comes to what the files come to by themselves, each with the input that those
before it have left. It succeeds if all of them do, and else it reports the failure of the last one
it has run. Whichever program asks for them, the lines read are the pieces of the input in their
order. -/
theorem run_inTurn (disk : Disk) (options : Options) (files : List Text) (input : List UInt8)
    (fuel : Nat) :
    let o := inTurn disk options fuel files input
    (∃ w log,
      run World.system fuel (.run files options) (World.start disk input) =
        (o.result.map exitCode, w) ∧
      run World.system.logged fuel (.run files options) (World.start disk input, []) =
        (o.result.map exitCode, (w, log)) ∧
      (w.written = o.written ∧ w.complaints = report o.result ∧ w.input = o.rest ∧
        readings log = o.readings) ∧
      (∀ (k : Nat) reply, (readings log)[k]? = some reply →
        reply = World.reading (Text.pieces input)[k]?) ∧
      w.input = ((Text.pieces input).drop (readings log).length).flatten) ∧
    (o.result = some (.ok ()) ↔ ∀ before path after, files = before ++ path :: after →
      (alone disk options fuel path (inTurn disk options fuel before input).rest).result =
        some (.ok ())) ∧
    ∀ r, o.result = some r → ∀ more, inTurn disk options (fuel + more) files input = o := by
  intro o
  refine ⟨?_, result_inTurn_eq_ok_iff, fun r hr more => inTurn_add hr more⟩
  obtain ⟨⟨w, log⟩, hrun, hshows⟩ : ∃ p, runFiles World.system.logged options fuel false files
      (World.start disk input, []) = (o.result, p) ∧ Shows disk o p :=
    runFiles_shows (shows_start disk input) rfl options fuel files
  have hreport : run World.system.logged fuel (.run files options) (World.start disk input, []) =
      (o.result.map exitCode, ({ w with complaints := report o.result }, log)) := by
    obtain ⟨_, _, _, _⟩ := w
    obtain rfl := hshows.complaints_eq
    rw [run, Session.bind_apply, hrun]
    match o.result with
    | none => rfl
    | some (.ok ()) => rfl
    | some (.error e) => rfl
  obtain ⟨hcode, -, hworld, hreads, hrest⟩ := alike_command (World.agree_logged input) fuel
    (.run files options) (World.start disk input, []) _ ⟨rfl, World.Consumed.start disk input⟩
  rw [hreport] at hcode hworld hreads hrest
  refine ⟨_, log, Prod.ext hcode.symm hworld.symm, hreport, ?_, hreads, ?_⟩
  · exact ⟨hshows.written_eq, rfl, hshows.rest_eq, hshows.readings_eq⟩
  · rw [← hworld] at hrest
    rw [← hrest]
    exact (List.flatten_splitBy _ _).symm

end

/-- Two programs that read a line each, a file that is not there, and one that is not run. -/
theorem run_inTurn_echo :
    let echo := "10 INTEGER X\n20 INPUT X\n30 PRINTLN X".toList.map fun c => c.toNat.toUInt8
    let disk := (Disk.empty []).add "echo".toList (some echo)
    let files := ["echo".toList, "echo".toList, "gone".toList, "echo".toList]
    ∃ w log,
      run World.system 9 (.run files .default) (World.start disk [49, 10, 50]) = (some 1, w) ∧
      run World.system.logged 9 (.run files .default) (World.start disk [49, 10, 50], []) =
        (some 1, (w, log)) ∧
      w.written = "1\n2\n".toList ∧ w.input = [] ∧ (readings log).length = 2 ∧
      w.complaints =
        ["?FILE NOT FOUND; gone: No such file or directory (os error 2)".toList] := by
  intro echo disk files
  obtain ⟨⟨w, log, hrun, hlogged, ⟨hwritten, hcomplaints, hrest, hreadings⟩, -⟩, -⟩ :=
    run_inTurn disk .default files [49, 10, 50] 9
  have hcode : (inTurn disk .default 9 files [49, 10, 50]).result.map exitCode = some 1 := by
    decide +kernel
  rw [hcode] at hrun hlogged
  refine ⟨w, log, hrun, hlogged, ?_, ?_, ?_, ?_⟩
  · rw [hwritten]
    decide +kernel
  · rw [hrest]
    decide +kernel
  · rw [hreadings]
    decide +kernel
  · rw [hcomplaints]
    decide +kernel

end Command
end LineScript
