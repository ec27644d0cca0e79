import LineScript.Proofs.Branch

/-!
When the canonical spelling of an instruction is its own canonical spelling. It is read back piece
by piece, with the same keyword and the same operands; but squeezing can bring the letters of THEN
together, and then a THEN is found where there was none. `Steady` describes the instructions in
which that makes no difference.
-/
namespace LineScript
namespace Text

variable {s t : Text}

/-- Neither end of the text is blank. -/
structure Tight (s : Text) : Prop where
  head : ∀ c ∈ s.head?, isBlank c = false
  last : ∀ c ∈ s.getLast?, isBlank c = false

namespace Tight

theorem nil : Tight [] :=
  ⟨nofun, nofun⟩

theorem of_solid (h : ∀ c ∈ s, isBlank c = false) : Tight s :=
  ⟨fun c hc => h c (List.mem_of_mem_head? hc), fun c hc => h c (List.mem_of_mem_getLast? hc)⟩

/-- Between two tight texts there may be anything. -/
theorem enclose (hs : Tight s) (hsne : s ≠ []) (mid : Text) (ht : Tight t) (htne : t ≠ []) :
    Tight (s ++ (mid ++ t)) := by
  refine ⟨fun c hc => hs.head c ?_, fun c hc => ht.last c ?_⟩
  · rwa [List.head?_append_of_ne_nil _ hsne] at hc
  · rwa [← List.append_assoc, List.getLast?_append_of_ne_nil _ htne] at hc

theorem trimStart_eq (h : Tight s) : trimStart s = s := by
  cases s with
  | nil => rfl
  | cons c s => exact trimStart_cons (h.head c rfl) s

theorem trim_eq (h : Tight s) : trim s = s := by
  rw [trim, h.trimStart_eq]
  refine List.rdropWhile_eq_self_iff.2 fun hne => ?_
  simp [h.last _ (List.getLast?_eq_some_getLast hne)]

end Tight

theorem tight_trim (s : Text) : Tight (trim s) := by
  rcases blank_or_exists s with hs | ⟨gap, c, v, hgap, hc, rfl⟩
  · rw [trim_of_blank hs]
    exact .nil
  · rw [trim_append hgap, trim_cons hc]
    refine ⟨?_, fun d hd => ?_⟩
    · rintro d ⟨⟩
      exact hc
    · by_cases hv : trimEnd v = []
      · rw [hv] at hd
        cases hd
        exact hc
      · rw [List.getLast?_cons, List.getLast?_eq_some_getLast hv] at hd
        cases hd
        exact Bool.eq_false_iff.2 (List.rdropWhile_last_not isBlank v hv)

/-- The parts of a text that is trimmed: a word, and what is trimmed itself. -/
theorem splitWord_tight (h : Tight s) {word rest : Text} (hs : splitWord s = (word, rest)) :
    (∀ c ∈ word, isBlank c = false) ∧ (word = [] → s = []) ∧ Tight rest := by
  cases hs
  refine ⟨fun c hc => by simpa using List.mem_takeWhile_imp hc, fun hword => ?_, ?_, ?_⟩
  · cases s with
    | nil => rfl
    | cons c s => simp [h.head c rfl] at hword
  · intro c hc
    have hhead := List.head?_dropWhile_not isBlank (s.dropWhile fun c => !isBlank c)
    rwa [show (List.dropWhile isBlank _).head? = some c from hc] at hhead
  · intro c hc
    have hsuffix : trimStart (s.dropWhile fun c => !isBlank c) <:+ s :=
      (List.dropWhile_suffix _).trans (List.dropWhile_suffix _)
    obtain ⟨before, hbefore⟩ := hsuffix
    refine h.last c ?_
    rw [← hbefore, List.getLast?_append, show List.getLast? _ = some c from hc]
    rfl

theorem toUpper_cases (c : Char) : c.toUpper = c ∨ c.toUpper.isUpper = true := by
  unfold Char.toUpper
  split
  next h =>
    have hlow : 97 ≤ c.val.toNat := UInt32.le_iff_toNat_le.1 h.1
    have hhigh : c.val.toNat ≤ 122 := UInt32.le_iff_toNat_le.1 h.2
    have hval : (c.val + ('A'.val - 'a'.val)).toNat = c.val.toNat - 32 := by
      rw [UInt32.toNat_add, show ('A'.val - 'a'.val).toNat = 4294967264 from rfl]
      omega
    refine .inr (decide_eq_true ⟨UInt32.le_iff_toNat_le.2 ?_, UInt32.le_iff_toNat_le.2 ?_⟩)
    · show 65 ≤ (c.val + ('A'.val - 'a'.val)).toNat
      omega
    · show (c.val + ('A'.val - 'a'.val)).toNat ≤ 90
      omega
  next => exact .inl rfl

theorem toUpper_of_isUpper {c : Char} (h : c.isUpper = true) : c.toUpper = c := by
  have hz : c.val.toNat ≤ 90 := (of_decide_eq_true h).2
  refine dif_neg fun hlower => ?_
  have hlow : 97 ≤ c.val.toNat := UInt32.le_iff_toNat_le.1 hlower.1
  omega

theorem upper_upper (s : Text) : upper (upper s) = upper s := by
  have hself (c : Char) : c.toUpper.toUpper = c.toUpper := by
    rcases toUpper_cases c with h | h
    · rw [h, h]
    · exact toUpper_of_isUpper h
  simp [upper, hself]

/-- Blanks are not letters, so upper case brings none about. -/
theorem solid_upper {word : Text} (h : ∀ c ∈ word, isBlank c = false) :
    ∀ c ∈ upper word, isBlank c = false := by
  intro c hc
  obtain ⟨d, hd, rfl⟩ := List.mem_map.1 hc
  rcases toUpper_cases d with hself | hupper
  · rw [hself]
    exact h d hd
  · have halpha : d.toUpper.isAlpha = true := Bool.or_eq_true_iff.2 (.inl hupper)
    refine Name.isBlank_of_isPart (Name.isPart_of_isStart ?_)
    simp [Name.isStart, halpha]

theorem solid_squeeze (s : Text) : ∀ c ∈ squeeze s, isBlank c = false := by
  intro c hc
  simpa using List.of_mem_filter hc

theorem squeeze_squeeze (s : Text) : squeeze (squeeze s) = squeeze s :=
  squeeze_of_solid (solid_squeeze s)

end Text

namespace Source

variable {s word operands : Text}

theorem joined_inj {first second second' : Text} :
    joined first second = joined first second' ↔ second = second' := by
  constructor
  · intro h
    rw [joined_eq_append first second, joined_eq_append first second'] at h
    have h := List.append_cancel_left h
    unfold joined at h
    cases second <;> cases second' <;> simp_all
  · exact congrArg _

theorem joined_ne_nil {first : Text} (h : first ≠ []) (second : Text) :
    joined first second ≠ [] := by
  rw [joined_eq_append]
  exact List.append_ne_nil_of_left_ne_nil h _

theorem joined_of_ne_nil (first : Text) {second : Text} (h : second ≠ []) :
    joined first second = first ++ ' ' :: second :=
  if_neg (by simpa using h)

theorem head_joined_nil (s : Text) : ∀ c ∈ (joined [] s).head?, c = ' ' := by
  unfold joined
  split
  · nofun
  · rintro c ⟨⟩
    rfl

/-- A keyword and its operands are found again in the text of both. -/
theorem splitWord_joined (key : Text) {body : Text} (hkey : ∀ c ∈ key, Text.isBlank c = false)
    (hne : key = [] → body = []) (hbody : Text.Tight body) :
    Text.Tight (joined key body) ∧ Text.splitWord (joined key body) = (key, body) := by
  have hspace : ∀ c ∈ [' '], Text.isBlank c = true := List.forall_mem_singleton.2 rfl
  have hsolid : ∀ c ∈ key, (!Text.isBlank c) = true := fun c hc => by simp [hkey c hc]
  unfold joined
  cases body with
  | nil =>
    refine ⟨.of_solid hkey, ?_⟩
    simp only [List.isEmpty_nil, if_true, Text.splitWord, List.takeWhile_eq_self_iff.2 hsolid,
      List.dropWhile_eq_nil_iff.2 hsolid]
    rfl
  | cons c body =>
    have hkeyne : key ≠ [] := fun h => List.cons_ne_nil _ _ (hne h)
    refine ⟨Text.Tight.enclose (.of_solid hkey) hkeyne [' '] hbody (List.cons_ne_nil c body), ?_⟩
    have hsplit := Text.splitWord_append hkey hspace (List.cons_ne_nil _ _) (c :: body)
    rw [hbody.trimStart_eq] at hsplit
    exact hsplit

/-- `squeezeUnquoted` from a point at which a quote is open or not. -/
def squeezeFrom : Bool → Text → Text
  | _, [] => []
  | isOpen, c :: s =>
    let isOpen := isOpen != (c == '"')
    if isOpen || !Text.isBlank c then c :: squeezeFrom isOpen s else squeezeFrom isOpen s

theorem squeezeUnquoted_eq (s : Text) : squeezeUnquoted s = squeezeFrom false s := by
  have hfold (kept : Text) (isOpen : Bool) :
      (s.foldl squeezeStep (kept, isOpen)).1.reverse = kept.reverse ++ squeezeFrom isOpen s := by
    induction s generalizing kept isOpen with
    | nil => simp [squeezeFrom]
    | cons c s ih =>
      rw [List.foldl_cons, squeezeStep, squeezeFrom, ih]
      split <;> simp
  exact hfold [] false

theorem squeezeFrom_squeezeFrom (isOpen : Bool) (s : Text) :
    squeezeFrom isOpen (squeezeFrom isOpen s) = squeezeFrom isOpen s := by
  induction s generalizing isOpen with
  | nil => rfl
  | cons c s ih =>
    rw [squeezeFrom]
    split
    next hkept => rw [squeezeFrom, if_pos hkept, ih]
    next hdropped =>
      -- a blank is no quote, so the quotes stand as before it
      have hquote : c ≠ '"' := by
        rintro rfl
        exact hdropped (by simp [show Text.isBlank '"' = false from rfl])
      have hopen : (isOpen != (c == '"')) = isOpen := by
        rw [beq_eq_false_iff_ne.2 hquote, Bool.bne_false]
      rw [hopen]
      exact ih isOpen

theorem tight_squeezeFrom {s : Text} (h : Text.Tight s) (isOpen : Bool) :
    Text.Tight (squeezeFrom isOpen s) := by
  have hlast (isOpen : Bool) (s : Text) (c : Char) (hc : Text.isBlank c = false) :
      ∃ before, squeezeFrom isOpen (s ++ [c]) = before ++ [c] := by
    induction s generalizing isOpen with
    | nil => exact ⟨[], by simp [squeezeFrom, hc]⟩
    | cons d s ih =>
      obtain ⟨before, hbefore⟩ := ih (isOpen != (d == '"'))
      rw [List.cons_append, squeezeFrom, hbefore]
      split
      · exact ⟨d :: before, rfl⟩
      · exact ⟨before, rfl⟩
  refine ⟨?_, ?_⟩
  · cases s with
    | nil => nofun
    | cons c s =>
      have hc := h.head c rfl
      rw [squeezeFrom, if_pos (by simp [hc])]
      rintro d ⟨⟩
      exact hc
  · rcases List.eq_nil_or_concat' s with rfl | ⟨init, c, rfl⟩
    · nofun
    · have hc := h.last c (by simp)
      obtain ⟨before, hbefore⟩ := hlast isOpen init c hc
      intro d hd
      rw [hbefore, List.getLast?_concat] at hd
      cases hd
      exact hc

/-- What is kept of the operands, except in a condition. -/
def keptOperands (k : Option Keyword) (operands : Text) : Text :=
  match k with
  | some .finish | some .leave => []
  | some .print | some .printLine => squeezeUnquoted operands
  | _ => Text.squeeze operands

theorem tight_keptOperands (k : Option Keyword) (h : Text.Tight operands) :
    Text.Tight (keptOperands k operands) := by
  have hsqueeze : Text.Tight (Text.squeeze operands) := .of_solid (Text.solid_squeeze operands)
  unfold keptOperands
  split
  · exact .nil
  · exact .nil
  · rw [squeezeUnquoted_eq]
    exact tight_squeezeFrom h false
  · rw [squeezeUnquoted_eq]
    exact tight_squeezeFrom h false
  · exact hsqueeze

theorem keptOperands_keptOperands (k : Option Keyword) (operands : Text) :
    keptOperands k (keptOperands k operands) = keptOperands k operands := by
  have hquoted : squeezeUnquoted (squeezeUnquoted operands) = squeezeUnquoted operands := by
    rw [squeezeUnquoted_eq, squeezeUnquoted_eq, squeezeFrom_squeezeFrom]
  cases k with
  | none => exact Text.squeeze_squeeze operands
  | some k =>
    cases k with
    | finish => rfl
    | leave => rfl
    | print => exact hquoted
    | printLine => exact hquoted
    | _ => exact Text.squeeze_squeeze operands

theorem canonical_of_not_branch (hs : Text.splitWord (Text.trim s) = (word, operands))
    (hk : Text.upper word ≠ "IF".toList) : canonical s =
      joined (Text.upper word) (keptOperands (Keyword.ofText? (Text.upper word)) operands) := by
  have hbranch : Keyword.ofText? (Text.upper word) ≠ some .branch :=
    fun h => hk (Keyword.ofText?_eq_some_iff.1 h)
  rw [canonical, hs]
  dsimp only
  unfold keptOperands
  cases hword : Keyword.ofText? (Text.upper word) with
  | none => rfl
  | some k =>
    cases k with
    | branch => exact absurd hword hbranch
    | _ => rfl

theorem canonical_of_unfinished (hs : Text.splitWord (Text.trim s) = (word, operands))
    (hk : Text.upper word = "IF".toList) (hthen : aroundThen? operands = none) :
    canonical s = joined "IF".toList (Text.squeeze operands) := by
  have hkeyword : Keyword.ofText? "IF".toList = some .branch := rfl
  rw [canonical, hs]
  simp only [hk, hkeyword]
  split
  next found =>
    rw [hthen] at found
    cases found
  next => rfl

/-- The pieces of an instruction. -/
theorem pieces_tight (hs : Text.splitWord (Text.trim s) = (word, operands)) :
    (∀ c ∈ Text.upper word, Text.isBlank c = false) ∧ (Text.upper word = [] → operands = []) ∧
      Text.Tight operands := by
  obtain ⟨hword, hne, htight⟩ := Text.splitWord_tight (Text.tight_trim s) hs
  refine ⟨Text.solid_upper hword, fun h => ?_, htight⟩
  rw [hne (List.map_eq_nil_iff.1 h)] at hs
  cases hs
  rfl

theorem keptOperands_nil (k : Option Keyword) : keptOperands k [] = [] := by
  unfold keptOperands
  split <;> rfl

/-- Apart from conditions, every canonical spelling is its own. -/
theorem canonical_canonical_of_not_branch
    (hs : Text.splitWord (Text.trim s) = (word, operands)) (hk : Text.upper word ≠ "IF".toList) :
    canonical (canonical s) = canonical s := by
  obtain ⟨hkey, hne, htight⟩ := pieces_tight hs
  rw [canonical_of_not_branch hs hk]
  obtain ⟨hjoined, hsplit⟩ := splitWord_joined _ hkey
    (fun h => by rw [hne h, keptOperands_nil]) (tight_keptOperands _ htight)
  rw [← hjoined.trim_eq] at hsplit
  rw [canonical_of_not_branch hsplit (by rwa [Text.upper_upper]), Text.upper_upper,
    keptOperands_keptOperands]

theorem aroundThenFrom_of_startsThen {before rest : Text} (hrest : startsThen rest = true)
    (hfree : isFree before = true) :
    aroundThenFrom before rest = some (before.reverse, rest.drop 4) := by
  cases rest with
  | nil => cases hrest
  | cons c rest => rw [aroundThenFrom, hrest, hfree, Bool.and_self, if_pos rfl]

/-- A THEN stays in its place when something follows that does not continue a name. -/
theorem aroundThenFrom_append (s : Text) {rest : Text} (hrest : EndsName rest) (before : Text) :
    aroundThenFrom before (s ++ rest) = match aroundThenFrom before s with
      | some (x, y) => some (x, y ++ rest)
      | none => aroundThenFrom (s.reverse ++ before) rest := by
  induction s generalizing before with
  | nil => rfl
  | cons c s ih =>
    have happend (h : startsThen (c :: s) = true) : startsThen (c :: s ++ rest) = true ∧
        (c :: s ++ rest).drop 4 = (c :: s).drop 4 ++ rest := by
      have hword := startsThen_append (eq_of_beq h) ((c :: s).drop 4 ++ rest)
      rwa [← List.append_assoc, List.take_append_drop] at hword
    rw [List.cons_append, aroundThenFrom, aroundThenFrom, ← List.cons_append]
    cases hstarts : startsThen (c :: s) with
    | true =>
      obtain ⟨hstarts', hdrop⟩ := happend hstarts
      rw [hstarts', hdrop, ih]
      cases isFree before <;> simp
    | false =>
      have hstarts' : startsThen (c :: s ++ rest) = false := by
        rw [← Bool.not_eq_true]
        intro h
        rw [startsThen_of_append hrest h] at hstarts
        cases hstarts
      rw [hstarts', ih]
      simp

theorem exists_of_aroundThenFrom {before s x y : Text}
    (h : aroundThenFrom before s = some (x, y)) :
    ∃ word, Text.upper word = "THEN".toList ∧ before.reverse ++ s = x ++ (word ++ y) := by
  induction s generalizing before with
  | nil => cases h
  | cons c s ih =>
    rw [aroundThenFrom] at h
    split at h
    next hthen =>
      cases h
      refine ⟨(c :: s).take 4, eq_of_beq (Bool.and_eq_true_iff.1 hthen).1, ?_⟩
      rw [List.take_append_drop]
    next =>
      obtain ⟨word, hword, heq⟩ := ih h
      exact ⟨word, hword, by simpa using heq⟩

/-- A text that is all the THEN that is found in it, and what stands around it. -/
theorem exists_of_aroundThen? {s x y : Text} (h : aroundThen? s = some (x, y)) :
    ∃ word, Text.upper word = "THEN".toList ∧ s = x ++ (word ++ y) :=
  exists_of_aroundThenFrom h

/-- What follows IF in the canonical spelling of a condition and its action. -/
def clause (condition action : Text) : Text :=
  (if condition.isEmpty then [] else condition ++ [' ']) ++ joined "THEN".toList action

theorem clause_of_ne_nil {condition : Text} (h : condition ≠ []) (action : Text) :
    clause condition action = condition ++ ' ' :: joined "THEN".toList action := by
  simp [clause, h]

theorem joined_clause (key condition action : Text) :
    joined (joined key condition ++ " THEN".toList) action =
      joined key (clause condition action) := by
  unfold clause joined
  cases condition <;> cases action <;> simp

theorem tight_clause {condition action : Text}
    (hcondition : ∀ c ∈ condition, Text.isBlank c = false) (haction : Text.Tight action) :
    Text.Tight (clause condition action) := by
  have hthen := (splitWord_joined "THEN".toList (by simp [Text.isBlank]) nofun haction).1
  unfold clause
  cases condition with
  | nil => exact hthen
  | cons c condition =>
    have henclosed := (Text.Tight.of_solid hcondition).enclose (List.cons_ne_nil _ _) [' '] hthen
      (joined_ne_nil (by decide) action)
    simpa using henclosed

/-- Without a THEN in the condition, the one after it is found. -/
theorem aroundThen?_clause_of_none {condition : Text} (h : aroundThen? condition = none)
    (action : Text) : aroundThen? (clause condition action) =
      some (if condition.isEmpty then [] else condition ++ [' '], joined [] action) := by
  have hupper : Text.upper "THEN".toList = "THEN".toList := rfl
  obtain ⟨hstarts, hdrop⟩ := startsThen_append hupper (joined [] action)
  rw [← joined_eq_append] at hstarts hdrop
  have hspace (s : Text) : EndsName (' ' :: s) := endsName_cons rfl s
  unfold clause aroundThen? at *
  cases condition with
  | nil =>
    show aroundThenFrom [] (joined "THEN".toList action) = some ([], joined [] action)
    rw [aroundThenFrom_of_startsThen hstarts rfl, hdrop]
    rfl
  | cons c condition =>
    have hfree : isFree (' ' :: (c :: condition).reverse) = true := isFree_append [] (hspace _)
    have hfound := aroundThenFrom_append (c :: condition) (hspace (joined "THEN".toList action)) []
    rw [h, aroundThenFrom, show startsThen (' ' :: joined "THEN".toList action) = false from rfl,
      Bool.false_and, if_neg Bool.false_ne_true, List.append_nil,
      aroundThenFrom_of_startsThen hstarts hfree, hdrop] at hfound
    simpa using hfound

/-- A THEN in the condition is found before the one after it. -/
theorem aroundThen?_clause_of_some {condition x y : Text} (h : aroundThen? condition = some (x, y))
    (action : Text) : condition ≠ [] ∧ aroundThen? (clause condition action) =
      some (x, y ++ ' ' :: joined "THEN".toList action) := by
  have hne : condition ≠ [] := by
    rintro rfl
    cases h
  refine ⟨hne, ?_⟩
  have hfound := aroundThenFrom_append condition
    (endsName_cons (c := ' ') rfl (joined "THEN".toList action)) []
  unfold aroundThen? at h ⊢
  rw [h] at hfound
  simpa [clause, hne] using hfound

theorem canonical_nil : canonical [] = [] := by
  have hs : Text.splitWord (Text.trim []) = ([], []) := rfl
  rw [canonical_of_not_branch hs (by decide)]
  rfl

/-- Blanks before an instruction do not change its canonical form. -/
theorem canonical_joined_nil (s : Text) : canonical (joined [] s) = canonical s := by
  rw [canonical, canonical, trim_joined]

/-- The shapes that an instruction can have, with the shape of the action of a condition. -/
inductive Shape : Text → Prop where
  | plain {s word operands : Text} (hs : Text.splitWord (Text.trim s) = (word, operands))
      (hk : Text.upper word ≠ "IF".toList) : Shape s
  | unfinished {s word operands : Text} (hs : Text.splitWord (Text.trim s) = (word, operands))
      (hk : Text.upper word = "IF".toList) (hthen : aroundThen? operands = none) : Shape s
  | conditional {s word operands condition action : Text}
      (hs : Text.splitWord (Text.trim s) = (word, operands)) (hk : Text.upper word = "IF".toList)
      (hthen : aroundThen? operands = some (condition, action)) (ha : Shape action) : Shape s

theorem shape (s : Text) : Shape s := by
  generalize hlength : s.length = length
  induction length using Nat.strongRecOn generalizing s with
  | ind length ih =>
    generalize hs : Text.splitWord (Text.trim s) = parts
    obtain ⟨word, operands⟩ := parts
    by_cases hk : Text.upper word = "IF".toList
    · cases hthen : aroundThen? operands with
      | none => exact .unfinished hs hk hthen
      | some parts =>
        obtain ⟨condition, action⟩ := parts
        have h₁ := length_lt_of_aroundThen hthen
        have h₂ := length_splitWord_le (Text.trim s)
        have h₃ := length_trim_le s
        simp only [hs] at h₂
        exact .conditional hs hk hthen (ih action.length (by omega) action rfl)
    · exact .plain hs hk

theorem canonical_of_conditional {condition action : Text}
    (hs : Text.splitWord (Text.trim s) = (word, operands)) (hk : Text.upper word = "IF".toList)
    (hthen : aroundThen? operands = some (condition, action)) :
    canonical s = joined "IF".toList (clause (Text.squeeze condition) (canonical action)) := by
  rw [canonical_branch hs hk hthen, joined_clause]

theorem splitWord_if {body : Text} (h : Text.Tight body) :
    Text.Tight (joined "IF".toList body) ∧
      Text.splitWord (Text.trim (joined "IF".toList body)) = ("IF".toList, body) := by
  obtain ⟨hjoined, hsplit⟩ := splitWord_joined "IF".toList (by simp [Text.isBlank]) nofun h
  rw [hjoined.trim_eq]
  exact ⟨hjoined, hsplit⟩

theorem tight_canonical (s : Text) : Text.Tight (canonical s) := by
  induction shape s with
  | plain hs hk =>
    obtain ⟨hkey, hne, htight⟩ := pieces_tight hs
    rw [canonical_of_not_branch hs hk]
    exact (splitWord_joined _ hkey (fun h => by rw [hne h, keptOperands_nil])
      (tight_keptOperands _ htight)).1
  | unfinished hs hk hthen =>
    rw [canonical_of_unfinished hs hk hthen]
    exact (splitWord_if (.of_solid (Text.solid_squeeze _))).1
  | conditional hs hk hthen ha ih =>
    rw [canonical_of_conditional hs hk hthen]
    exact (splitWord_if (tight_clause (Text.solid_squeeze _) ih)).1

theorem clause_inj {condition action action' : Text} :
    clause condition action = clause condition action' ↔ action = action' := by
  unfold clause
  rw [List.append_cancel_left_eq, joined_inj]

theorem eq_then_of_clause {x action s : Text} (hs : ∀ c ∈ s, Text.isBlank c = false)
    (h : clause x action = s) : x = [] ∧ action = [] := by
  subst h
  have hblank : ' ' ∉ clause x action := fun hmem => by cases hs _ hmem
  cases x <;> cases action <;> simp_all [clause, joined]

/-- A condition without THEN stays as it is unless squeezing makes a THEN of its letters; then it
does so only if these are all there is. -/
theorem canonical_canonical_of_unfinished (hs : Text.splitWord (Text.trim s) = (word, operands))
    (hk : Text.upper word = "IF".toList) (hthen : aroundThen? operands = none) :
    canonical (canonical s) = canonical s ↔
      aroundThen? (Text.squeeze operands) = none ∨ Text.squeeze operands = "THEN".toList := by
  rw [canonical_of_unfinished hs hk hthen]
  have hsolid := Text.solid_squeeze operands
  generalize Text.squeeze operands = kept at hsolid
  obtain ⟨-, hsplit⟩ := splitWord_if (Text.Tight.of_solid hsolid)
  cases hkept : aroundThen? kept with
  | none =>
    rw [canonical_of_unfinished hsplit rfl hkept, Text.squeeze_of_solid hsolid]
    simp
  | some parts =>
    obtain ⟨x, y⟩ := parts
    obtain ⟨then', hword, heq⟩ := exists_of_aroundThen? hkept
    have hx : ∀ c ∈ x, Text.isBlank c = false := fun c hc => hsolid c (by simp [heq, hc])
    rw [canonical_of_conditional hsplit rfl hkept, Text.squeeze_of_solid hx, joined_inj]
    simp only [reduceCtorEq, false_or]
    constructor
    · intro hclause
      obtain ⟨rfl, hy⟩ := eq_then_of_clause hsolid hclause
      rw [← hclause, hy]
      rfl
    · rintro rfl
      cases hkept
      rw [List.drop_eq_nil_of_le (by decide), canonical_nil]
      rfl

/-- The word THEN in front of an instruction is no keyword. -/
theorem canonical_then {action : Text} (h : Text.Tight action) :
    canonical (' ' :: joined "THEN".toList action) =
      joined "THEN".toList (Text.squeeze action) := by
  obtain ⟨hjoined, hsplit⟩ := splitWord_joined "THEN".toList (by simp [Text.isBlank]) nofun h
  have hs : Text.splitWord (Text.trim (' ' :: joined "THEN".toList action)) =
      ("THEN".toList, action) := by
    have hspace : ∀ c ∈ [' '], Text.isBlank c = true := by simp [Text.isBlank]
    have htrim := Text.trim_append hspace (joined "THEN".toList action)
    rw [List.singleton_append] at htrim
    rw [htrim, hjoined.trim_eq, hsplit]
  rw [canonical_of_not_branch hs (by decide)]
  rfl

/-- With a THEN in what is left of the condition, the canonical spelling is its own only if that
THEN is all of it and the action is a single word. -/
theorem clause_eq_iff {condition action x y : Text}
    (hcondition : ∀ c ∈ condition, Text.isBlank c = false) (haction : Text.Tight action)
    (h : aroundThen? condition = some (x, y)) :
    clause x (canonical (y ++ ' ' :: joined "THEN".toList action)) = clause condition action ↔
      condition = "THEN".toList ∧ Text.squeeze action = action := by
  have hfound (s : Text) : joined "THEN".toList s ≠ [] := joined_ne_nil (by decide) s
  constructor
  · intro hclause
    obtain ⟨word, hword, rfl⟩ := exists_of_aroundThen? h
    obtain ⟨hsolid, hne⟩ := solid_of_upper hword (by decide) (by decide)
    rw [clause_of_ne_nil (aroundThen?_clause_of_some h action).1, List.append_assoc,
      List.append_assoc] at hclause
    cases x with
    | cons c x =>
      -- after `x` there is a space on the one side, and a letter of THEN on the other
      rw [clause_of_ne_nil (List.cons_ne_nil c x)] at hclause
      obtain ⟨d, word, rfl⟩ := List.exists_cons_of_ne_nil hne
      obtain ⟨rfl, -⟩ := List.cons_eq_cons.1 (List.append_cancel_left hclause)
      cases hsolid ' ' List.mem_cons_self
    | nil =>
      have hlength : word.length = 4 := by
        simpa [Text.upper] using congrArg List.length hword
      rw [show clause [] _ = joined "THEN".toList _ from rfl, joined_eq_append,
        List.nil_append] at hclause
      obtain ⟨rfl, hrest⟩ := List.append_inj hclause hlength.symm
      cases y with
      | cons c y =>
        have hc : c = ' ' := head_joined_nil _ c (by rw [hrest]; rfl)
        cases (hcondition c (by simp)).symm.trans (congrArg Text.isBlank hc)
      | nil =>
        rw [List.nil_append, canonical_then haction, joined_of_ne_nil [] (hfound _)] at hrest
        exact ⟨rfl, joined_inj.1 (List.cons_eq_cons.1 hrest).2⟩
  · rintro ⟨rfl, hsqueeze⟩
    obtain ⟨rfl, rfl⟩ : x = [] ∧ y = [] := by
      cases h
      exact ⟨rfl, rfl⟩
    rw [List.nil_append, canonical_then haction, hsqueeze,
      clause_of_ne_nil (show "THEN".toList ≠ [] by decide)]
    exact joined_of_ne_nil "THEN".toList (hfound action)

/-- A condition with its THEN keeps its canonical spelling if its action does, and the THEN found
first is still the same. -/
theorem canonical_canonical_of_conditional {condition action : Text}
    (hs : Text.splitWord (Text.trim s) = (word, operands)) (hk : Text.upper word = "IF".toList)
    (hthen : aroundThen? operands = some (condition, action)) :
    canonical (canonical s) = canonical s ↔
      (aroundThen? (Text.squeeze condition) = none ∧
        canonical (canonical action) = canonical action) ∨
      (Text.squeeze condition = "THEN".toList ∧
        Text.squeeze (canonical action) = canonical action) := by
  rw [canonical_of_conditional hs hk hthen]
  have hsolid := Text.solid_squeeze condition
  have haction := tight_canonical action
  generalize Text.squeeze condition = kept at hsolid
  obtain ⟨-, hsplit⟩ := splitWord_if (tight_clause hsolid haction)
  cases hkept : aroundThen? kept with
  | none =>
    have hlead : Text.squeeze (if kept.isEmpty then [] else kept ++ [' ']) = kept := by
      cases kept with
      | nil => rfl
      | cons c kept =>
        show Text.squeeze (c :: kept ++ [' ']) = c :: kept
        rw [Text.squeeze_append, Text.squeeze_of_solid hsolid,
          Text.squeeze_of_blank (by simp [Text.isBlank]), List.append_nil]
    have hne : kept ≠ "THEN".toList := by
      rintro rfl
      cases hkept
    rw [canonical_of_conditional hsplit rfl (aroundThen?_clause_of_none hkept _), hlead,
      canonical_joined_nil, joined_inj, clause_inj]
    simp only [hne, false_and, or_false, true_and]
  | some parts =>
    obtain ⟨x, y⟩ := parts
    obtain ⟨_, _, heq⟩ := exists_of_aroundThen? hkept
    have hx : ∀ c ∈ x, Text.isBlank c = false := fun c hc => hsolid c (by simp [heq, hc])
    rw [canonical_of_conditional hsplit rfl (aroundThen?_clause_of_some hkept _).2,
      Text.squeeze_of_solid hx, joined_inj, clause_eq_iff hsolid haction hkept]
    simp only [reduceCtorEq, false_and, false_or]

/-- The instructions whose canonical spelling is its own: squeezing brings no THEN about that comes
before the one found, or none that matters. -/
inductive Steady : Text → Prop where
  | plain {s word operands : Text} (hs : Text.splitWord (Text.trim s) = (word, operands))
      (hk : Text.upper word ≠ "IF".toList) : Steady s
  | unfinished {s word operands : Text} (hs : Text.splitWord (Text.trim s) = (word, operands))
      (hk : Text.upper word = "IF".toList) (hthen : aroundThen? operands = none)
      (hkept : aroundThen? (Text.squeeze operands) = none ∨
        Text.squeeze operands = "THEN".toList) : Steady s
  | conditional {s word operands condition action : Text}
      (hs : Text.splitWord (Text.trim s) = (word, operands)) (hk : Text.upper word = "IF".toList)
      (hthen : aroundThen? operands = some (condition, action))
      (hkept : aroundThen? (Text.squeeze condition) = none) (ha : Steady action) : Steady s
  | doubled {s word operands condition action : Text}
      (hs : Text.splitWord (Text.trim s) = (word, operands)) (hk : Text.upper word = "IF".toList)
      (hthen : aroundThen? operands = some (condition, action))
      (hkept : Text.squeeze condition = "THEN".toList)
      (ha : Text.squeeze (canonical action) = canonical action) : Steady s

theorem canonical_canonical_iff (s : Text) :
    canonical (canonical s) = canonical s ↔ Steady s := by
  constructor
  · intro h
    induction shape s with
    | plain hs hk => exact .plain hs hk
    | unfinished hs hk hthen =>
      exact .unfinished hs hk hthen ((canonical_canonical_of_unfinished hs hk hthen).1 h)
    | conditional hs hk hthen _ ih =>
      rcases (canonical_canonical_of_conditional hs hk hthen).1 h with ⟨hkept, ha⟩ | ⟨hkept, ha⟩
      · exact .conditional hs hk hthen hkept (ih ha)
      · exact .doubled hs hk hthen hkept ha
  · intro h
    induction h with
    | plain hs hk => exact canonical_canonical_of_not_branch hs hk
    | unfinished hs hk hthen hkept =>
      exact (canonical_canonical_of_unfinished hs hk hthen).2 hkept
    | conditional hs hk hthen hkept _ ih =>
      exact (canonical_canonical_of_conditional hs hk hthen).2 (.inl ⟨hkept, ih⟩)
    | doubled hs hk hthen hkept ha =>
      exact (canonical_canonical_of_conditional hs hk hthen).2 (.inr ⟨hkept, ha⟩)

end Source
end LineScript
