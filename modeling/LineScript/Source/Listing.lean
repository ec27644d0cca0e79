import Std.Data.ExtTreeMap
import LineScript.Source.Line

/-!
A listing is a map from line numbers to instructions, with its lines in ascending order. A later
line takes the place of an earlier one with the same number, so listings of the same lines are
equal whatever order the lines came in.
-/
namespace LineScript

structure Listing where
  table : Std.ExtTreeMap Nat Text
  deriving DecidableEq

namespace Listing

def empty : Listing :=
  ⟨∅⟩

def size (l : Listing) : Nat :=
  l.table.size

def get? (l : Listing) (number : Nat) : Option Line :=
  l.table[number]?.map fun instruction => { number, instruction }

def lines (l : Listing) : List Line :=
  l.table.toList.map fun (number, instruction) => { number, instruction }

/-- The listing with the line in it. -/
def insert (line : Line) (l : Listing) : Listing :=
  ⟨l.table.insert line.number line.instruction⟩

/-- Inserts a line, and gives the line that it takes the place of. -/
def replace (line : Line) (l : Listing) : Option Line × Listing :=
  (l.get? line.number, l.insert line)

/-- Takes in a line of source text; a blank one changes nothing. -/
def addText (s : Text) (l : Listing) : Except Error Listing :=
  if (Text.trim s).isEmpty then .ok l
  else do
    let line ← Line.parse s
    return (l.replace line).2

/-- The error of a source text with a bad line, which is named by its number or else by its
position in the text. -/
def blame (position : Nat) (e : Error) : Error :=
  if e.line.isSome then e
  else .about .malformed
    ("INVALID LINE NUMBER IN LINE ".toList ++ Text.ofNat position ++ " OF THE FILE".toList)

/-- The listing of a source text, or the error of its first bad line. -/
def parse (s : Text) : Except Error Listing :=
  (Text.lines s).zipIdx.foldlM
    (fun l (line, index) => (l.addText line).mapError (blame (index + 1))) empty

/-- The lines in order, with a line feed after each. -/
def text (l : Listing) : Text :=
  l.lines.flatMap fun line => line.text ++ ['\n']

@[ext]
theorem ext {l l' : Listing} (h : ∀ n, l.get? n = l'.get? n) : l = l' := by
  obtain ⟨t⟩ := l
  obtain ⟨t'⟩ := l'
  congr 1
  refine Std.ExtTreeMap.ext_getElem? fun n => ?_
  have hn := h n
  simp only [get?] at hn
  cases ht : t[n]? <;> cases ht' : t'[n]? <;> simp_all

theorem get?_insert (line : Line) (l : Listing) (n : Nat) :
    (l.insert line).get? n = if line.number = n then some line else l.get? n := by
  unfold get? insert
  rw [Std.ExtTreeMap.getElem?_insert]
  by_cases h : line.number = n
  · subst h
    simp
  · simp [h]

/-- The lines stand in ascending order. -/
theorem pairwise_lines (l : Listing) : l.lines.Pairwise fun a b => a.number < b.number := by
  rw [lines, List.pairwise_map]
  exact Std.ExtTreeMap.ordered_keys_toList.imp fun h => Nat.compare_eq_lt.1 h

end Listing
end LineScript
