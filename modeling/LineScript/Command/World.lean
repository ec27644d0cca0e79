import LineScript.Command.Run

/-!
A system that is a value: files, the bytes of standard input, and what has been written.
-/
namespace LineScript.Command

structure World where
  disk : Disk
  /-- The bytes of standard input that have not been read. -/
  input : List UInt8
  /-- The texts on standard output, the last one first. -/
  output : List Text
  /-- The lines on standard error, the last one first. -/
  complaints : List Text

namespace World

def start (disk : Disk) (input : List UInt8) : World :=
  ⟨disk, input, [], []⟩

def write (text : Text) (w : World) : Reply Unit × World :=
  (.ok (), { w with output := text :: w.output })

/-- Reads up to the end of a line or of the input; the bytes read are gone, text or not. -/
def readLine (w : World) : Reply (Option Text) × World :=
  if w.input.isEmpty then (.ok none, w)
  else
    let (line, input) := Text.cutLine w.input
    match Text.decode? line with
    | some text => (.ok (some text), { w with input })
    | none => (⟨.error Text.badEncoding, false⟩, { w with input })

def console : Console (StateM World) where
  write := fun text w => write text w
  flush := fun w => (.ok (), w)
  readLine := fun w => readLine w

def system : System (StateM World) where
  console := console
  readFile := fun path w => (w.disk.read path, w)
  say := fun text w => ((), { w with output := (text ++ ['\n']) :: w.output })
  complain := fun text w => ((), { w with complaints := text :: w.complaints })

/-- All the text on standard output. -/
def written (w : World) : Text :=
  w.output.reverse.flatten

/-- The command with the given arguments; the fuel bounds the steps of each program. -/
def perform (arguments : List Text) (fuel : Nat) (w : World) : Option Nat × World :=
  run system fuel (.ofArguments arguments) w

end World
end LineScript.Command
