import LineScript.Text.Numeral

/-!
What the arguments of the command line ask for. Options may stand anywhere, each at most once, and
after two hyphens every argument is a file. The arguments are read from left to right, and the
first one that settles the request, a wrong one included, hides those after it.
-/
namespace LineScript.Command

/-- How programs are run. -/
structure Options where
  /-- Print the number of each line that runs. -/
  tracing : Bool
  /-- Lines to run before looking for an interrupt. -/
  budget : Nat
  deriving DecidableEq

def Options.default : Options :=
  ⟨false, 5000⟩

inductive Request where
  | run (files : List Text) (options : Options)
  | help
  | version
  | misuse
  deriving DecidableEq

/-- The arguments read so far. -/
structure Arguments where
  files : List Text
  tracing : Bool
  verbose : Bool
  budget : Option Nat

namespace Arguments

def start : Arguments :=
  ⟨[], false, false, none⟩

/-- Budgets fit into 64 bits. -/
def budget? (s : Text) : Option Nat :=
  (Text.unsigned? s).filter fun n => n < 18446744073709551616

/-- An argument is read or the request is settled. -/
abbrev Reading := Except Request Arguments

def addFile (file : Text) (a : Arguments) : Reading :=
  if file.isEmpty then .error .misuse else .ok { a with files := a.files ++ [file] }

def setTracing (a : Arguments) : Reading :=
  if a.tracing then .error .misuse else .ok { a with tracing := true }

def setVerbose (a : Arguments) : Reading :=
  if a.verbose then .error .misuse else .ok { a with verbose := true }

def setBudget (s : Text) (a : Arguments) : Reading :=
  match a.budget, budget? s with
  | none, some n => .ok { a with budget := some n }
  | _, _ => .error .misuse

/-- A letter after a single hyphen. -/
def readLetter (a : Arguments) : Char → Reading
  | 'v' => a.setVerbose
  | 'h' => .error .help
  | 'V' => .error .version
  | _ => .error .misuse

/-- A word after two hyphens. -/
def readWord (word : Text) (a : Arguments) : Reading :=
  if word = "trace".toList then a.setTracing
  else if word = "verbose".toList then a.setVerbose
  else if word = "help".toList then .error .help
  else if word = "version".toList then .error .version
  else if "cycles=".toList.isPrefixOf word then a.setBudget (word.drop 7)
  else .error .misuse

/-- Whether an argument is an option or the mark that ends them. -/
def isOption (s : Text) : Bool :=
  s.head? = some '-' && s.length != 1

def readAll (a : Arguments) : List Text → Reading
  | [] => .ok a
  | ['-', '-'] :: files => files.foldlM (fun a file => a.addFile file) a
  | ['-', '-', 'c', 'y', 'c', 'l', 'e', 's'] :: value :: rest =>
    if isOption value then .error .misuse
    else do
      let a ← a.setBudget value
      a.readAll rest
  | ('-' :: '-' :: word) :: rest => do
    let a ← a.readWord word
    a.readAll rest
  | ('-' :: c :: letters) :: rest => do
    let a ← (c :: letters).foldlM readLetter a
    a.readAll rest
  | file :: rest => do
    let a ← a.addFile file
    a.readAll rest

/-- A run needs a file, and a budget of one line at least. -/
def request (a : Arguments) : Request :=
  if a.files.isEmpty then .misuse
  else .run a.files ⟨a.tracing, max 1 (a.budget.getD Options.default.budget)⟩

end Arguments

def Request.ofArguments (arguments : List Text) : Request :=
  match Arguments.start.readAll arguments with
  | .ok a => a.request
  | .error r => r

end LineScript.Command
