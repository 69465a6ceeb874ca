import BleHost.Console.Basic
import BleHost.Console.Usage
import BleHost.Link.Port
import BleHost.Session.Clock

/-!
# The program

The console at work on a serial port, by a real clock. The port is set up by whoever provides it:
its rate and flow control as the command line says them, raw, and so that a read gives up after a
tenth of a second.
-/

namespace BleHost

/-- A port that is open, once for each direction. -/
structure OpenPort where
  reader : IO.FS.Handle
  writer : IO.FS.Handle

namespace OpenPort

/-- Open the port at a path. -/
def ofPath (path : String) : IO OpenPort := do
  let reader ← IO.FS.Handle.mk path .read
  let writer ← IO.FS.Handle.mk path .readWrite
  return { reader, writer }

/-- Why a port was not opened, in the words of the system. -/
def refusal : IO.Error → String
  | .noFileOrDirectory _ _ _ => "No such file or directory"
  | .permissionDenied _ _ _ => "Permission denied"
  | e => toString e

/-- Write one frame. -/
def write (p : OpenPort) (bytes : List UInt8) : IO (Except Error Unit) := do
  try
    p.writer.write (ByteArray.mk bytes.toArray)
    p.writer.flush
    return .ok ()
  catch e => return .error (.device (toString e))

/-- The least time in milliseconds for which a read of an open stream waits before it gives up. -/
def patience : Nat := 50

/-- Read once, a byte at most. A read that gives nothing before its time is over has found the end
of the stream. -/
def read (p : OpenPort) : IO ReadOutcome := do
  let before ← IO.monoMsNow
  try
    let bytes := (← p.reader.read 1).toList
    let waited := (← IO.monoMsNow) - before
    return if bytes.isEmpty && patience ≤ waited then .idle else .received bytes
  catch e => return .failed (.device (toString e))

/-- One round of the pump. -/
def round (p : OpenPort) (s : Session) : IO Session := do
  match s.want with
  | .nothing => IO.sleep 1; return s
  | .stop => return s.halt
  | .write frame => return s.wrote frame (← p.write frame.bytes)
  | .read => return s.read (← p.read)

/-- Say that the link was lost, once. -/
def report (s : Session) : IO Session := do
  for (_, cause) in s.lifecycle.told do
    IO.eprintln s!"Connection to module lost: {cause.message}"
  return { s with lifecycle := { s.lifecycle with told := [] } }

/-- Work until the console is done, and say by a number how that went. Whoever has a reason to take
a turn does so before the pump touches the link. -/
partial def work (p : OpenPort) (origin : Nat) (c : Console) (s : Session) : IO UInt32 := do
  IO.print c.output
  (← IO.getStdout).flush
  let c := { c with output := "" }
  let s ← report (s.setClock ((← IO.monoMsNow) - origin))
  match s.ready with
  | .caller index :: rest => p.work origin c ({ s with ready := rest }.turn index)
  | .pump :: rest => p.work origin c { s with ready := rest }
  | [] =>
    match c.stage, c.resume? s with
    | .finished _ (.ok ()), _ => return 0
    | .finished _ (.error message), _ => IO.eprintln s!"Error: {message}"; return 1
    | _, some (c, s) => p.work origin c s
    | _, none => p.work origin c (← p.round s)

end OpenPort

namespace Console

/-- Carry out a task on a port. -/
def perform (task : Task) (p : OpenPort) : IO UInt32 := do
  match Session.ofSettings {} with
  | .error e => IO.eprintln s!"Error: {e.message}"; return 1
  | .ok s =>
    let (c, s) := start task { s with lifecycle := s.lifecycle.listen { id := 0 } }
    p.work (← IO.monoMsNow) c s

/-- Carry out a command line. -/
def carryOut (words : List String) : IO UInt32 := do
  match Arguments.parse words with
  | .error e =>
    if e.isWish then IO.print e.text; return 0 else IO.eprint e.text; return 2
  | .ok a =>
    let opened ← try
      pure (Except.ok (← OpenPort.ofPath a.port))
    catch e => pure (Except.error (PortSettings.cannotOpen a.port (OpenPort.refusal e)))
    match opened with
    | .ok p => perform a.task p
    | .error e => IO.eprintln s!"Error: failed to open {a.port}: {e.message}"; return 1

end Console

end BleHost

/-- The console of a Bluetooth module. -/
def main (words : List String) : IO UInt32 := BleHost.Console.carryOut words
