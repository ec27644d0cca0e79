import LineScript.Command.Disk
import LineScript.Command.Request
import LineScript.Session.Basic

/-!
The program as a command: it runs the programs of the files it is given, one after the other, and
stops at the first that fails. The programs share the input and nothing else.
-/
namespace LineScript.Command

/-- What the command works with: a console, files, and a place for complaints. -/
structure System (m : Type → Type) where
  console : Console m
  readFile : Text → m Loaded
  /-- Writes a line of standard output, which ends the command. -/
  say : Text → m Unit
  complain : Text → m Unit

/-- The source text of a file. -/
def source (path : Text) : Loaded → Except Error Text
  | .bytes content =>
    match Text.decode? content with
    | some text => .ok text
    | none => .error (.about .internal Text.badEncoding)
  | .missing reason => .error (.about .fileNotFound (path ++ ": ".toList ++ reason))
  | .refused reason => .error (.about .internal (path ++ ": ".toList ++ reason))
  | .unreadable reason => .error (.about .internal reason)

/-- The machine for the source text of a file. -/
def machine (options : Options) (path : Text) (loaded : Loaded) : Except Error Machine := do
  let text ← source path loaded
  let listing ← Listing.parse text
  return (Machine.start (Program.ofListing listing)).trace options.tracing

variable {m : Type → Type} [Monad m]

/-- Runs the program of a file. The flag says whether an interrupt is on its way. There is no
result if the fuel runs out. -/
@[specialize]
def runFile (system : System m) (options : Options) (fuel : Nat) (interrupted : Bool)
    (path : Text) : m (Option (Except Error Unit) × Bool) := do
  let loaded ← system.readFile path
  match machine options path loaded with
  | .error e => return (some (.error e), interrupted)
  | .ok machine =>
    let (r, s) ← Session.run system.console options.budget fuel ⟨machine, interrupted⟩
    return (r, s.interrupted)

/-- Runs files up to the first failure. -/
@[specialize]
def runFiles (system : System m) (options : Options) (fuel : Nat) :
    Bool → List Text → m (Option (Except Error Unit))
  | _, [] => return some (.ok ())
  | interrupted, path :: rest => do
    let (r, interrupted) ← runFile system options fuel interrupted path
    match r with
    | some (.ok ()) => runFiles system options fuel interrupted rest
    | r => return r

def version : Text :=
  "sil 0.1.0".toList

def usage : Text :=
  "Usage: sil [--trace] [-v|--verbose] [--cycles N] <FILE>...".toList

/-- Does what is asked for, and gives the exit code. -/
@[specialize]
def run (system : System m) (fuel : Nat) : Request → m (Option Nat)
  | .help => do
    system.say usage
    return some 0
  | .version => do
    system.say version
    return some 0
  | .misuse => do
    system.complain usage
    return some 2
  | .run files options => do
    let r ← runFiles system options fuel false files
    match r with
    | none => return none
    | some (.ok ()) => return some 0
    | some (.error e) => do
      system.complain ('?' :: e.message)
      return some 1

end LineScript.Command
