import LineScript.Session.Basic

/-!
A console that is a value: the lines of input are given beforehand, the text written is kept, and
single calls can be made to fail or to raise an interrupt.
-/
namespace LineScript

structure Script where
  /-- What the calls for a line still to come give. -/
  replies : List (Reply (Option Text))
  /-- The number of the write that fails, and of the one that raises an interrupt. -/
  failWrite : Option Nat
  raiseAtWrite : Option Nat
  /-- The number of writes after which flushing fails. -/
  failFlush : Option Nat
  /-- The texts written, the last one first. -/
  written : List Text
  writes : Nat
  reads : Nat

namespace Script

/-- Writing nothing is no write at all. -/
def write (text : Text) (s : Script) : Reply Unit × Script :=
  if text.isEmpty then (.ok (), s)
  else
    let n := s.writes + 1
    let raised := s.raiseAtWrite == some n
    if s.failWrite == some n then (⟨.error "write failed".toList, raised⟩, { s with writes := n })
    else (⟨.ok (), raised⟩, { s with writes := n, written := text :: s.written })

def flush (s : Script) : Reply Unit × Script :=
  if s.failFlush == some s.writes then (⟨.error "flush failed".toList, false⟩, s) else (.ok (), s)

/-- The next reply of the script; after the last one the input has ended. -/
def readLine (s : Script) : Reply (Option Text) × Script :=
  let s := { s with reads := s.reads + 1 }
  match s.replies with
  | [] => (.ok none, s)
  | reply :: replies => (reply, { s with replies })

def console : Console (StateM Script) where
  write := fun text s => write text s
  flush := fun s => flush s
  readLine := fun s => readLine s

/-- All the text written. -/
def output (s : Script) : Text :=
  s.written.reverse.flatten

/-- Runs a session at the console of the script. -/
def play (budget fuel : Nat) (session : Session) (s : Script) : Session.Progress × Script :=
  Session.run console budget fuel session s

end Script
end LineScript
