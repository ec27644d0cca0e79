import LineScript.Source.Listing

/-!
A program is the lines of a listing in order, with an address for each. The address after the last
line is where a program runs out.
-/
namespace LineScript

structure Program where
  lines : Array Line
  deriving DecidableEq

namespace Program

def empty : Program :=
  ⟨#[]⟩

def ofListing (l : Listing) : Program :=
  ⟨l.lines.toArray⟩

def size (p : Program) : Nat :=
  p.lines.size

def line? (p : Program) (address : Nat) : Option Line :=
  p.lines[address]?

/-- The number of the first line. -/
def first? (p : Program) : Option Nat :=
  p.lines[0]?.map Line.number

/-- The number of the last line. -/
def last? (p : Program) : Option Nat :=
  p.lines.back?.map Line.number

/-- The address of the first line with the given number or a higher one. -/
def locate (p : Program) (number : Nat) : Nat :=
  p.lines.findIdx fun line => number ≤ line.number

theorem locate_le_size (p : Program) (number : Nat) : p.locate number ≤ p.size :=
  Array.findIdx_le_size

end Program
end LineScript
