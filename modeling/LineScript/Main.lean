import LineScript.Command.Run

/-!
The command at the real console and on real files.
-/
namespace LineScript.Command

/-- The number of steps that no run takes to the end. -/
def endless : Nat :=
  18446744073709551616

def reply {α : Type} (action : IO α) : IO (Reply α) :=
  try
    let a ← action
    return .ok a
  catch e => return ⟨.error (toString e).toList, false⟩

/-- Reads up to a line feed or the end of the input, and puts the bytes before those given, the
last one first. -/
partial def readBytes (input : IO.FS.Stream) (line : List UInt8) : IO (List UInt8) := do
  let bytes ← input.read 1
  match bytes.toList with
  | [] => return line
  | b :: _ => if b = 10 then return b :: line else readBytes input (b :: line)

def standardConsole : Console IO where
  write := fun text => reply do
    let out ← IO.getStdout
    out.putStr (String.ofList text)
  flush := reply do
    let out ← IO.getStdout
    out.flush
  readLine := do
    let input ← IO.getStdin
    let line ← readBytes input []
    if line.isEmpty then return .ok none
    match Text.decode? line.reverse with
    | some text => return .ok (some text)
    | none => return ⟨.error Text.badEncoding, false⟩

/-- The number of an error of the operating system, which may come negated. -/
def errorNumber (code : UInt32) : Nat :=
  if code < 0x80000000 then code.toNat else (0 - code).toNat

/-- A reason for a failure, in the words of the operating system. -/
def reason (words : String) (code : UInt32) : Text :=
  (words.capitalize ++ " (os error " ++ toString (errorNumber code) ++ ")").toList

def loadFile (path : Text) : IO Loaded := do
  try
    let content ← IO.FS.readBinFile (String.ofList path)
    return .bytes content.toList
  catch
    | .noFileOrDirectory _ code words => return .missing (reason words code)
    | .inappropriateType _ code words =>
      if errorNumber code = 21 then return .unreadable (reason words code)
      else return .refused (reason words code)
    | .invalidArgument _ code words =>
      if errorNumber code = 36 then return .refused Disk.nameTooLong
      else return .refused (reason words code)
    | .permissionDenied _ code words => return .refused (reason words code)
    | e => return .refused (toString e).toList

def standardSystem : System IO where
  console := standardConsole
  readFile := loadFile
  say := fun text => IO.println (String.ofList text)
  complain := fun text => IO.eprintln (String.ofList text)

end LineScript.Command

def main (arguments : List String) : IO UInt32 := do
  let request := LineScript.Command.Request.ofArguments (arguments.map String.toList)
  let code ← LineScript.Command.run LineScript.Command.standardSystem
    LineScript.Command.endless request
  return (code.getD 1).toUInt32
