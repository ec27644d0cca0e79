import LineScript.Text.Basic

/-!
The word THEN in the body of a condition. It counts wherever its letters stand, in either case,
unless they continue a name; a number directly before it is no name.
-/
namespace LineScript.Source

/-- Whether the four letters come first. -/
def startsThen (s : Text) : Bool :=
  Text.upper (s.take 4) == "THEN".toList

/-- Whether a word can start after the given characters, the last of which comes first: the
characters of names directly before it are digits, or there are none. -/
def isFree (before : Text) : Bool :=
  (before.takeWhile Name.isPart).all Char.isDigit

/-- Goes on from `before`, the characters passed so far, the last one first. -/
def aroundThenFrom (before : Text) : Text → Option (Text × Text)
  | [] => none
  | c :: rest =>
    if startsThen (c :: rest) && isFree before then some (before.reverse, (c :: rest).drop 4)
    else aroundThenFrom (c :: before) rest

/-- What stands before and after the first THEN that counts. -/
def aroundThen? (s : Text) : Option (Text × Text) :=
  aroundThenFrom [] s

theorem length_lt_of_aroundThenFrom {before s a b : Text}
    (h : aroundThenFrom before s = some (a, b)) : b.length < s.length := by
  induction s generalizing before with
  | nil => simp [aroundThenFrom] at h
  | cons c rest ih =>
    rw [aroundThenFrom] at h
    split at h
    · cases h
      simp only [List.length_drop, List.length_cons]
      omega
    · exact Nat.lt_succ_of_lt (ih h)

theorem length_lt_of_aroundThen {s a b : Text} (h : aroundThen? s = some (a, b)) :
    b.length < s.length :=
  length_lt_of_aroundThenFrom h

end LineScript.Source
