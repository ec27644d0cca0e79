/-!
Texts, the white space in them, the bytes that hold them, and the names that stand in them. A text
is a list of characters, so that what is said about a text is said by recursion on its characters;
blanks are the characters of the Unicode property White_Space, and letter case is that of the ASCII
letters only.
-/
namespace LineScript

/-- A text is the list of its characters. -/
abbrev Text := List Char

namespace Text

/-- The characters with the Unicode property White_Space. -/
def isBlank (c : Char) : Bool :=
  let n := c.toNat
  (9 ≤ n && n ≤ 13) || n == 0x20 || n == 0x85 || n == 0xA0 || n == 0x1680 ||
    (0x2000 ≤ n && n ≤ 0x200A) || n == 0x2028 || n == 0x2029 || n == 0x202F || n == 0x205F ||
    n == 0x3000

def trimStart (s : Text) : Text :=
  s.dropWhile isBlank

/-- Drops the longest final run of characters that satisfy `p`. -/
def dropEndWhile (p : Char → Bool) (s : Text) : Text :=
  (s.reverse.dropWhile p).reverse

def trimEnd (s : Text) : Text :=
  dropEndWhile isBlank s

def trim (s : Text) : Text :=
  trimEnd (trimStart s)

/-- Every character but the blanks. -/
def squeeze (s : Text) : Text :=
  s.filter fun c => !isBlank c

/-- The characters before the first blank, and what follows the blanks after them. -/
def splitWord (s : Text) : Text × Text :=
  (s.takeWhile fun c => !isBlank c, trimStart (s.dropWhile fun c => !isBlank c))

/-- The maximal runs of characters that are not blank. -/
def words (s : Text) : List Text :=
  (s.splitOnP isBlank).filter fun w => !w.isEmpty

/-- One carriage return at the end is dropped. -/
def dropReturn (s : Text) : Text :=
  if s.getLast? = some '\r' then s.dropLast else s

/-- The lines of a text: each one that a line feed ends, less a carriage return before it, and
what follows the last line feed unless that is nothing. -/
def lines (s : Text) : List Text :=
  let pieces := s.splitOn '\n'
  pieces.dropLast.map dropReturn ++ pieces.getLast?.toList.filter fun rest => !rest.isEmpty

/-- ASCII letters in upper case; every other character as it is. -/
def upper (s : Text) : Text :=
  s.map Char.toUpper

/-- The text that is encoded in UTF-8, if the bytes are that. -/
def decode? (bytes : List UInt8) : Option Text :=
  (String.fromUTF8? bytes.toByteArray).map String.toList

/-- The number of bytes of the text in UTF-8. -/
def byteCount (s : Text) : Nat :=
  s.foldl (fun count c => count + c.utf8Size) 0

/-- The bytes up to the first line feed and with it, and the bytes after that. -/
def cutLine (bytes : List UInt8) : List UInt8 × List UInt8 :=
  let rest := bytes.dropWhile fun b => b != 10
  (bytes.takeWhile (fun b => b != 10) ++ rest.take 1, rest.drop 1)

/-- What a reader says of bytes that are no text. -/
def badEncoding : Text :=
  "stream did not contain valid UTF-8".toList

end Text

namespace Name

/-- A name starts with an ASCII letter, an underscore or a dollar sign. -/
def isStart (c : Char) : Bool :=
  c.isAlpha || c == '_' || c == '$'

/-- Behind that there may be ASCII digits, too. -/
def isPart (c : Char) : Bool :=
  isStart c || c.isDigit

def isValid : Text → Bool
  | [] => false
  | c :: rest => isStart c && rest.all isPart

theorem isStart_iff {c : Char} : isStart c = true ↔
    'A' ≤ c ∧ c ≤ 'Z' ∨ 'a' ≤ c ∧ c ≤ 'z' ∨ c = '_' ∨ c = '$' := by
  have hupper : c.isUpper = true ↔ 'A' ≤ c ∧ c ≤ 'Z' := decide_eq_true_iff
  have hlower : c.isLower = true ↔ 'a' ≤ c ∧ c ≤ 'z' :=
    Bool.and_eq_true_iff.trans (and_congr decide_eq_true_iff decide_eq_true_iff)
  have halpha : c.isAlpha = true ↔ ('A' ≤ c ∧ c ≤ 'Z') ∨ 'a' ≤ c ∧ c ≤ 'z' :=
    Bool.or_eq_true_iff.trans (or_congr hupper hlower)
  simp only [isStart, Bool.or_eq_true, beq_iff_eq, halpha, or_assoc]

theorem isPart_iff {c : Char} : isPart c = true ↔
    'A' ≤ c ∧ c ≤ 'Z' ∨ 'a' ≤ c ∧ c ≤ 'z' ∨ '0' ≤ c ∧ c ≤ '9' ∨ c = '_' ∨ c = '$' := by
  have hdigit : c.isDigit = true ↔ '0' ≤ c ∧ c ≤ '9' :=
    Bool.and_eq_true_iff.trans (and_congr decide_eq_true_iff decide_eq_true_iff)
  rw [isPart, Bool.or_eq_true, isStart_iff, hdigit]
  simp only [or_assoc, or_comm, or_left_comm]

/-- The names are those of the pattern `[A-Za-z_$][A-Za-z0-9_$]*`. -/
theorem isValid_iff {s : Text} : isValid s = true ↔ ∃ c rest, s = c :: rest ∧
    ('A' ≤ c ∧ c ≤ 'Z' ∨ 'a' ≤ c ∧ c ≤ 'z' ∨ c = '_' ∨ c = '$') ∧
    ∀ d ∈ rest, 'A' ≤ d ∧ d ≤ 'Z' ∨ 'a' ≤ d ∧ d ≤ 'z' ∨ '0' ≤ d ∧ d ≤ '9' ∨ d = '_' ∨ d = '$' := by
  cases s with
  | nil => simp [isValid]
  | cons c rest =>
    simp only [isValid, Bool.and_eq_true, List.all_eq_true, isStart_iff, isPart_iff,
      List.cons.injEq]
    constructor
    · rintro ⟨hc, hrest⟩
      exact ⟨c, rest, ⟨rfl, rfl⟩, hc, hrest⟩
    · rintro ⟨_, _, ⟨rfl, rfl⟩, hc, hrest⟩
      exact ⟨hc, hrest⟩

end Name

end LineScript
