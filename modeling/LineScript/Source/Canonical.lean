import LineScript.Instruction
import LineScript.Source.Then

/-!
The one spelling that stands for all spellings of an instruction: the keyword in upper case, a
single space, and the operands without blanks. What PRINT shows between quotes keeps its blanks,
and a condition ends with THEN and the canonical form of its action.
-/
namespace LineScript.Source

/-- A space between the two, unless the second is empty. -/
def joined (first second : Text) : Text :=
  if second.isEmpty then first else first ++ ' ' :: second

/-- What is kept so far, the last character first, and whether a quote is open. -/
def squeezeStep : Text × Bool → Char → Text × Bool
  | (kept, isOpen), c =>
    let isOpen := isOpen != (c == '"')
    (if isOpen || !Text.isBlank c then c :: kept else kept, isOpen)

/-- Drops the blanks outside double quotes. -/
def squeezeUnquoted (s : Text) : Text :=
  (s.foldl squeezeStep ([], false)).1.reverse

theorem length_trim_le (s : Text) : (Text.trim s).length ≤ s.length := by
  have hd (p : Char → Bool) (l : Text) : (l.dropWhile p).length ≤ l.length :=
    (List.dropWhile_sublist p).length_le
  simp only [Text.trim, Text.trimEnd, Text.dropEndWhile, List.length_reverse]
  exact Nat.le_trans (hd _ _) (by simpa [Text.trimStart] using hd _ s)

theorem length_splitWord_le (s : Text) : (Text.splitWord s).2.length ≤ s.length :=
  ((List.dropWhile_sublist _).trans (List.dropWhile_sublist _)).length_le

/-- The canonical spelling of an instruction. -/
def canonical (s : Text) : Text :=
  let parts := Text.splitWord (Text.trim s)
  let keyword := Text.upper parts.1
  match Keyword.ofText? keyword with
  | some .finish | some .leave => keyword
  | some .print | some .printLine => joined keyword (squeezeUnquoted parts.2)
  | some .branch =>
    match _h : aroundThen? parts.2 with
    | some (condition, action) =>
      joined (joined keyword (Text.squeeze condition) ++ " THEN".toList) (canonical action)
    | none => joined keyword (Text.squeeze parts.2)
  | _ => joined keyword (Text.squeeze parts.2)
termination_by s.length
decreasing_by
  have h₁ := length_lt_of_aroundThen _h
  have h₂ := length_splitWord_le (Text.trim s)
  have h₃ := length_trim_le s
  simp only [parts] at h₁
  omega

end LineScript.Source
