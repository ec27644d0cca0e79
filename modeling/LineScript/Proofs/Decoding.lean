import LineScript.Proofs.Canonical

/-!
Reading a canonical spelling gives the keyword and the operands that it was made of. The canonical
text is trimmed and split once more when it is read, so what is kept of the operands must begin and
end with characters that are not blank, also where a quote is left open. Conditions are apart:
their canonical spelling has an instruction inside.
-/
namespace LineScript
namespace Source

variable {s t word word' rest rest' : Text}

/-- Whether a quote is open at a place in a text: the quotes before it are odd in number. -/
def isQuotedAt (s : Text) (place : Nat) : Bool :=
  (s.take place).count '"' % 2 == 1

/-- The text less the blanks outside double quotes. -/
def unspaced (s : Text) : Text :=
  (s.zipIdx.filter fun x => !Text.isBlank x.1 || isQuotedAt s x.2).map Prod.fst

/-- What an instruction other than a condition has for operands, given what follows its keyword. -/
def operandsOf (k : Keyword) (rest : Text) : Text :=
  match k with
  | .finish | .leave => []
  | .print | .printLine => unspaced rest
  | _ => rest.filter fun c => !Text.isBlank c

theorem ne_quote_of_isBlank {c : Char} (h : Text.isBlank c = true) : (c == '"') = false := by
  apply beq_eq_false_iff_ne.2
  rintro rfl
  cases h

theorem isQuotedAt_append (before s : Text) :
    isQuotedAt (before ++ s) before.length = (before.count '"' % 2 == 1) := by
  rw [isQuotedAt, List.take_left]

/-- Going through a text keeps the same characters as counting the quotes before each of them. -/
theorem squeezeUnquoted_eq_unspaced (s : Text) : squeezeUnquoted s = unspaced s := by
  have hfrom (before : Text) :
      ((s.zipIdx before.length).filter fun x =>
        !Text.isBlank x.1 || isQuotedAt (before ++ s) x.2).map Prod.fst =
      squeezeFrom (before.count '"' % 2 == 1) s := by
    induction s generalizing before with
    | nil => rfl
    | cons c s ih =>
      have hrest := ih (before ++ [c])
      have hparity : ((before ++ [c]).count '"' % 2 == 1) =
          ((before.count '"' % 2 == 1) != (c == '"')) := by
        rcases Nat.mod_two_eq_zero_or_one (before.count '"') with h | h <;>
          by_cases hc : c = '"' <;> simp [List.count_append, Nat.add_mod, h, hc]
      rw [hparity, List.length_append, List.length_singleton, List.append_assoc] at hrest
      rw [List.zipIdx_cons, List.filter_cons, isQuotedAt_append, squeezeFrom, ← hrest]
      cases hb : Text.isBlank c with
      | false => simp
      | true => cases hq : before.count '"' % 2 == 1 <;> simp [ne_quote_of_isBlank hb]
  rw [squeezeUnquoted_eq]
  exact (hfrom []).symm

theorem keptOperands_eq (k : Keyword) (rest : Text) :
    keptOperands (some k) rest = operandsOf k rest := by
  cases k with
  | print => exact squeezeUnquoted_eq_unspaced rest
  | printLine => exact squeezeUnquoted_eq_unspaced rest
  | _ => rfl

/-- A canonical spelling is read as what it was made of. -/
theorem parse_canonical_of_not_branch (hs : Text.splitWord (Text.trim s) = (word, rest))
    (hk : Text.upper word ≠ "IF".toList) :
    Instruction.parse (canonical s) = match Keyword.ofText? (Text.upper word) with
      | some k => .ok ⟨k, keptOperands (some k) rest⟩
      | none => .error (.about .malformed (Text.upper word)) := by
  obtain ⟨hkey, hne, htight⟩ := pieces_tight hs
  have hempty : Text.upper word = [] →
      keptOperands (Keyword.ofText? (Text.upper word)) rest = [] := by
    intro h
    rw [hne h, keptOperands_nil]
  obtain ⟨hjoined, hsplit⟩ := splitWord_joined _ hkey hempty (tight_keptOperands _ htight)
  rw [canonical_of_not_branch hs hk, Instruction.parse, hjoined.trim_eq, hsplit]
  cases hword : Keyword.ofText? (Text.upper word) <;> simp only [hword]

/-- Texts that differ in blanks only, and with `quotes` only in blanks outside double quotes. The
index says whether a quote is open where the texts begin. -/
inductive Respaced (quotes : Bool) : Bool → Text → Text → Prop where
  | nil (isOpen : Bool) : Respaced quotes isOpen [] []
  | same {isOpen : Bool} {s t : Text} (c : Char)
      (h : Respaced quotes (isOpen != (c == '"')) s t) : Respaced quotes isOpen (c :: s) (c :: t)
  | left {isOpen : Bool} {s t : Text} {c : Char} (hc : Text.isBlank c = true)
      (hopen : (quotes && isOpen) = false) (h : Respaced quotes isOpen s t) :
      Respaced quotes isOpen (c :: s) t
  | right {isOpen : Bool} {s t : Text} {c : Char} (hc : Text.isBlank c = true)
      (hopen : (quotes && isOpen) = false) (h : Respaced quotes isOpen s t) :
      Respaced quotes isOpen s (c :: t)

namespace Respaced

variable {quotes isOpen : Bool}

theorem squeeze_eq (h : Respaced quotes isOpen s t) : Text.squeeze s = Text.squeeze t := by
  induction h with
  | nil => rfl
  | same c h ih => simp only [Text.squeeze, List.filter_cons] at ih ⊢; rw [ih]
  | left hc hopen h ih => simpa [Text.squeeze, hc] using ih
  | right hc hopen h ih => simpa [Text.squeeze, hc] using ih

theorem squeezeFrom_eq (h : Respaced true isOpen s t) :
    squeezeFrom isOpen s = squeezeFrom isOpen t := by
  induction h with
  | nil => rfl
  | same c h ih => rw [squeezeFrom, squeezeFrom, ih]
  | left hc hopen h ih =>
    rw [Bool.true_and] at hopen
    simpa [squeezeFrom, hc, hopen, ne_quote_of_isBlank hc] using ih
  | right hc hopen h ih =>
    rw [Bool.true_and] at hopen
    simpa [squeezeFrom, hc, hopen, ne_quote_of_isBlank hc] using ih

end Respaced

/-- The instructions that print, in which blanks between quotes count. -/
def keepsQuoted (k : Option Keyword) : Bool :=
  k = some .print || k = some .printLine

theorem keptOperands_of_respaced {k : Option Keyword}
    (h : Respaced (keepsQuoted k) false rest rest') :
    keptOperands k rest = keptOperands k rest' := by
  have hquoted (hk : keepsQuoted k = true) : squeezeUnquoted rest = squeezeUnquoted rest' := by
    rw [hk] at h
    rw [squeezeUnquoted_eq, squeezeUnquoted_eq, h.squeezeFrom_eq]
  cases k with
  | none => exact h.squeeze_eq
  | some k =>
    cases k with
    | finish => rfl
    | leave => rfl
    | print => exact hquoted rfl
    | printLine => exact hquoted rfl
    | _ => exact h.squeeze_eq

/-- An instruction other than a condition is read from its canonical spelling with the keyword in
upper case and with its operands less the blanks that do not count; a first word that is no keyword
is named in the error. The keyword and these operands have that canonical spelling as well, and so
has every text that differs in the case of the keyword and in such blanks only. -/
theorem decode_canonical (hs : Text.splitWord (Text.trim s) = (word, rest))
    (hk : Text.upper word ≠ "IF".toList) :
    (Keyword.ofText? (Text.upper word) = none →
      Instruction.parse (canonical s) = .error (.about .malformed (Text.upper word))) ∧
    (∀ k, Keyword.ofText? (Text.upper word) = some k →
      Instruction.parse (canonical s) = .ok ⟨k, operandsOf k rest⟩ ∧
      canonical (if operandsOf k rest = [] then Text.upper word
        else Text.upper word ++ ' ' :: operandsOf k rest) = canonical s) ∧
    ∀ t word' rest', Text.splitWord (Text.trim t) = (word', rest') →
      Text.upper word' = Text.upper word →
      Respaced (keepsQuoted (Keyword.ofText? (Text.upper word))) false rest rest' →
      canonical t = canonical s ∧
        Instruction.parse (canonical t) = Instruction.parse (canonical s) := by
  have hparse := parse_canonical_of_not_branch hs hk
  have hcanonical := canonical_of_not_branch hs hk
  refine ⟨?_, ?_, ?_⟩
  · intro hnone
    rw [hparse, hnone]
  · intro k hkey
    rw [hkey, keptOperands_eq] at hcanonical
    constructor
    · rw [hparse, hkey]
      simp only [keptOperands_eq]
    · have hjoined : (if operandsOf k rest = [] then Text.upper word
          else Text.upper word ++ ' ' :: operandsOf k rest) = canonical s := by
        rw [hcanonical, joined]
        simp only [List.isEmpty_iff]
      rw [hjoined, canonical_canonical_of_not_branch hs hk]
  · intro t word' rest' ht hcase hspaced
    have hsame : canonical t = canonical s := by
      rw [canonical_of_not_branch ht (hcase ▸ hk), hcanonical, hcase,
        keptOperands_of_respaced hspaced]
    exact ⟨hsame, congrArg Instruction.parse hsame⟩

/-- Two spellings of a line that prints, with a quote left open and blanks of several kinds. -/
theorem decode_canonical_quoted :
    let s := " pRint \u2003A + \"b  c".toList
    let t := "PRINT A+\"b  c".toList
    Instruction.parse (canonical s) = .ok ⟨.print, "A+\"b  c".toList⟩ ∧
      Instruction.parse (canonical t) = Instruction.parse (canonical s) := by
  intro s t
  have hs : Text.splitWord (Text.trim s) = ("pRint".toList, "A + \"b  c".toList) := by
    decide +kernel
  have ht : Text.splitWord (Text.trim t) = ("PRINT".toList, "A+\"b  c".toList) := by
    decide +kernel
  have hkey : Keyword.ofText? (Text.upper "pRint".toList) = some .print := by decide +kernel
  obtain ⟨-, hread, hrespelled⟩ := decode_canonical hs (by decide +kernel)
  have hspaced : Respaced true false "A + \"b  c".toList "A+\"b  c".toList :=
    .same 'A' <| .left rfl rfl <| .same '+' <| .left rfl rfl <| .same '"' <| .same 'b' <|
      .same ' ' <| .same ' ' <| .same 'c' <| .nil true
  have hoperands : operandsOf .print "A + \"b  c".toList = "A+\"b  c".toList := by decide +kernel
  rw [hkey] at hrespelled
  exact ⟨hoperands ▸ (hread .print hkey).1, (hrespelled t _ _ ht (by decide +kernel) hspaced).2⟩

end Source
end LineScript
